import StorageScaleTest.Coordinator.Run

/-!
# Recovery and cancellation of a lost coordinator

`--recover-lost` and `--finalize-cancelled`, which run in a helper process once the coordinator's
Job is known to have ended.
-/

namespace StorageScaleTest.Coordinator

open Interruptible Interruptible.Program

/-- A new process, in a pod of its own, on the ledger that is left. -/
def Machine.restart (m : Machine) : Machine := ⟨m.ledger, fun _ => none, .fresh⟩

/-- The executions with a status file, in the order of the shell's glob. -/
def statusIds (a : Attempt) (l : Ledger) : List ExecutionId :=
  a.executions.filter fun id => (l.status id).isSome

/-! ## Repair of a terminal publication -/

/-- What the loop of `_coordinator_repair_terminal_publication` gathers. -/
structure RepairScan where
  failedId : Option ExecutionId
  exitCode : Nat
  pending : Nat
  failed : Nat
  deriving DecidableEq, Repr

def repairScan (l : Ledger) : List ExecutionId → RepairScan → Option RepairScan
  | [], scan => some scan
  | id :: rest, scan =>
    match l.status id with
    | some .success => repairScan l rest scan
    | some .pending => repairScan l rest { scan with pending := scan.pending + 1 }
    | some .failed =>
      if scan.failedId.isSome then repairScan l rest { scan with failed := scan.failed + 1 }
      else if (l.exitcode id).getD 0 = 0 then none
      else repairScan l rest { scan with
        failed := scan.failed + 1, failedId := some id, exitCode := (l.exitcode id).getD 0 }
    | _ => none

def repairCode (terminal : RunStatus) (l : Ledger) (scan : RepairScan) : Option Nat :=
  match terminal with
  | .success => if scan.pending = 0 && scan.failed = 0 then some scan.exitCode else none
  | .failed =>
    if scan.failed = 0 then if l.startupError.isSome then some 1 else none
    else some scan.exitCode
  | .cancelled => some 143
  | _ => none

def repairTerminalPublication (a : Attempt) (terminal : RunStatus) : Action Nat := do
  let m ← read
  match repairScan m.ledger (statusIds a m.ledger) ⟨none, 0, 0, 0⟩ with
  | none => return 1
  | some scan =>
    match repairCode terminal m.ledger scan with
    | none => return 1
    | some code => checked (writeSummary a terminal scan.failedId (some code)) (publishManifest a)

/-! ## Lock -/

def ensureRecoveryLock (observed : RunStatus) : Action Nat := do
  let m ← read
  match m.ledger.lock with
  | .owned => return 0
  | .directory =>
    if observed ≠ .prepared then return 1
    atomicWrite fun l => { l with lock := .owned }
    return 0
  | .absent =>
    if observed ≠ .prepared then return 1
    atomicWrite fun l => { l with lock := .directory }
    atomicWrite fun l => { l with lock := .owned }
    return 0

/-! ## Lost coordinators -/

/-- What the loop of `_coordinator_recover_lost` gathers. -/
structure RecoveryScan where
  failedId : Option ExecutionId
  firstPending : Option ExecutionId
  terminalFailedId : Option ExecutionId
  changed : Bool
  deriving DecidableEq, Repr

/-- Marks a cell found `RUNNING` as lost: its status first, then its exit code. -/
def failRunning (id : ExecutionId) : Action Unit := do
  atomicWrite (·.setStatus id .failed)
  atomicWrite (·.setExitcode id 143)

def recoverCells : List ExecutionId → RecoveryScan → Action (Option RecoveryScan)
  | [], scan => return some scan
  | id :: rest, scan => do
    let m ← read
    match m.ledger.status id with
    | some .running =>
      failRunning id
      recoverCells rest { scan with failedId := scan.failedId.or (some id), changed := true }
    | some .pending =>
      recoverCells rest { scan with firstPending := scan.firstPending.or (some id) }
    | some .success => recoverCells rest scan
    | some .failed =>
      recoverCells rest { scan with terminalFailedId := scan.terminalFailedId.or (some id) }
    | none => return none

structure RecoveryOutcome where
  failedId : Option ExecutionId
  observed : CellStatus
  terminal : RunStatus
  exitCode : Nat
  deriving DecidableEq, Repr

def recoveryOutcome (l : Ledger) (scan : RecoveryScan) : RecoveryOutcome :=
  if scan.changed then ⟨scan.failedId, .running, .failed, 143⟩
  else match scan.terminalFailedId, scan.firstPending with
    | some id, _ => ⟨some id, .failed, .failed, nonzero ((l.exitcode id).getD 1)⟩
    | none, some _ => ⟨none, .pending, .failed, 143⟩
    | none, none => ⟨none, .success, .success, 0⟩

def lossOf (a : Attempt) (observed : RunStatus) (outcome : RecoveryOutcome) : CoordinatorLoss where
  attemptId := a.attemptId
  execution := outcome.failedId
  observedStatus := observed
  executionObservedStatus := outcome.observed
  recoveredStatus := outcome.terminal
  exitCode := outcome.exitCode

/-- The part of `_coordinator_recover_lost` after its loop. -/
def publishRecovery (a : Attempt) (observed : RunStatus) (scan : RecoveryScan) : Action Nat := do
  let m ← read
  let outcome := recoveryOutcome m.ledger scan
  atomicWrite fun l => { l with coordinatorLoss := some (lossOf a observed outcome) }
  writeOutcome a outcome.terminal outcome.failedId outcome.exitCode

def recoverNonterminal (a : Attempt) (observed : RunStatus) : Action Nat :=
  let allow := observed = .prepared
  checked (initializeSnapshots allow a.snapshots) do
    checked (initializeExecutionStates allow a.executions) do
      let m ← read
      match ← recoverCells (statusIds a m.ledger) ⟨none, none, none, false⟩ with
      | none => return 1
      | some scan => publishRecovery a observed scan

def recoverLost (a : Attempt) : Action Nat := do
  let m ← read
  let observed := m.ledger.runStatus
  checked (ensureRecoveryLock observed)
    (if observed.terminal then repairTerminalPublication a observed
      else recoverNonterminal a observed)

/-! ## Cancellation -/

def failedBySignal (l : Ledger) : Bool :=
  match l.summary.bind (·.exitCode) with
  | some code => code = 143 || code = 130
  | none => false

def cancelCells : List ExecutionId → Option ExecutionId → Action (Option (Option ExecutionId))
  | [], failedId => return some failedId
  | id :: rest, failedId => do
    let m ← read
    match m.ledger.status id with
    | some .running =>
      failRunning id
      cancelCells rest (failedId.or (some id))
    | some _ => cancelCells rest failedId
    | none => return none

def publishCancellation (a : Attempt) : Action Nat := do
  let m ← read
  match ← cancelCells (statusIds a m.ledger) none with
  | none => return 1
  | some failedId => writeOutcome a .cancelled failedId 143

def finalizeCancelled (a : Attempt) : Action Nat := do
  let m ← read
  let observed := m.ledger.runStatus
  checked (ensureRecoveryLock observed)
    (if observed = .success || observed = .cancelled then repairTerminalPublication a observed
      else if observed = .failed && !failedBySignal m.ledger then
        repairTerminalPublication a .failed
      else publishCancellation a)

inductive Invocation
  | recoverLost | finalizeCancelled
  deriving DecidableEq, Repr

def Invocation.program (a : Attempt) : Invocation → Action Nat
  | .recoverLost => Coordinator.recoverLost a
  | .finalizeCancelled => Coordinator.finalizeCancelled a

end StorageScaleTest.Coordinator
