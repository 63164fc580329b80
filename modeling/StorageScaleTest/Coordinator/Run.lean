import StorageScaleTest.Coordinator.Publication

/-!
# One coordinator process

`_coordinator_main` with the child of each cell, and the TERM/INT handler both install. The child
runs while its parent waits for it, so the two never write at the same time.
-/

namespace StorageScaleTest.Coordinator

open Interruptible Interruptible.Program

/-! ## Initialization -/

def initializeSnapshots (allowCreate : Bool) : List String → Action Nat
  | [] => return 0
  | snapshot :: rest => do
    let m ← read
    if snapshot ∈ m.ledger.snapshots then initializeSnapshots allowCreate rest
    else if !allowCreate then return 1
    else
      atomicWrite fun l => { l with snapshots := snapshot :: l.snapshots }
      initializeSnapshots allowCreate rest

def initializeExecutionStates (allowCreate : Bool) : List ExecutionId → Action Nat
  | [] => return 0
  | id :: rest => do
    let m ← read
    if (m.ledger.status id).isSome then initializeExecutionStates allowCreate rest
    else if !allowCreate then return 1
    else
      atomicWrite (·.setStatus id .pending)
      initializeExecutionStates allowCreate rest

def initializeState (a : Attempt) : Action Nat := do
  let m ← read
  if m.ledger.lock ≠ .absent then return 1
  atomicWrite fun l => { l with lock := .directory }
  atomicWrite fun l => { l with lock := .owned }
  checked (initializeSnapshots true a.snapshots) (initializeExecutionStates true a.executions)

/-! ## Terminal outcomes -/

def describe (failedId : Option ExecutionId) (rc : Nat) : String :=
  "coordinator interrupted outside a failed cell (execution=" ++ failedId.getD "none" ++
    ", rc=" ++ toString rc ++ ")"

def writeOutcome (a : Attempt) (final : RunStatus) (failedId : Option ExecutionId) (rc : Nat) :
    Action Nat :=
  checked (writeSummary a final failedId (some rc)) do
    atomicWrite fun l => { l with runStatus := final }
    publishManifest a

def failedStatus (l : Ledger) (failedId : Option ExecutionId) : Bool :=
  failedId.bind l.status = some .failed

def finalizeRun (a : Attempt) (rc : Nat) (failedId : Option ExecutionId) : Action Nat := do
  let m ← read
  if rc = 0 then writeOutcome a .success failedId rc
  else if failedStatus m.ledger failedId then writeOutcome a .failed failedId rc
  else
    atomicWrite fun l => { l with startupError := some (describe failedId rc) }
    writeOutcome a .failed none rc

/-! ## Signals -/

inductive Signal
  | int | term
  deriving DecidableEq, Repr

def Signal.code : Signal → Nat
  | .int => 130
  | .term => 143

def activeRunning (m : Machine) : Option ExecutionId :=
  m.process.activeId.filter fun id => m.ledger.status id = some .running

/-- The handler after its child is gone; it ends in `exit rc` on every path. -/
def publishSignal (a : Attempt) (env : Environment) (rc : Nat) : Action Unit := do
  let m ← read
  match activeRunning m with
  | none => ignored (finalizeRun a rc m.process.activeId)
  | some id =>
    let failure ← finishPrebenchmarkFailure a env id rc
    if failure ≠ 0 then return ()
    ignored (finalizeRun a rc m.process.activeId)

/-- The parent sends a child TERM, waits for the child's own handler, then publishes. -/
def handleSignal (a : Attempt) (env : Environment) (signal : Signal) (child : Bool) :
    Action Nat := do
  if child then
    setProcess fun p => { p with childTrap := false }
    publishSignal a env Signal.term.code
  publishSignal a env signal.code
  return signal.code

/-- A process that has not installed its traps dies without publishing. -/
def signalHandler (a : Attempt) (env : Environment) (signal : Signal) : Action Nat := do
  let m ← read
  if !m.process.trap then return signal.code
  setProcess fun p => { p with trap := false }
  handleSignal a env signal (m.process.activePid && m.process.childTrap)

/-! ## Cells -/

def prepareActiveExecution (a : Attempt) (id : ExecutionId) : Action Nat := do
  setProcess fun p => { p with activeId := some id }
  atomicWrite (·.setStatus id .running)
  writeSummary a .running none none

def failBeforeBenchmark (a : Attempt) (env : Environment) (id : ExecutionId) : Action Nat := do
  ignored (finishPrebenchmarkFailure a env id 1)
  return 1

def setScratch (id : ExecutionId) (tree : Scratch) : Action Unit :=
  modify fun m => { m with scratch := Function.update m.scratch id (some tree) }

def runBenchmark (id : ExecutionId) : List Scratch → Action Unit
  | [] => return ()
  | tree :: rest => do
    setScratch id tree
    runBenchmark id rest

/-- `run_elbencho_cell` and the mdtest branch of `_coordinator_run_cell` -/
def runCell (a : Attempt) (env : Environment) (id : ExecutionId) : Action Nat := do
  runBenchmark id (env.cell id).contents
  let publication ← resultPublicationHook a env id (env.cell id).benchmark
  return if (env.cell id).benchmark ≠ 0 then (env.cell id).benchmark else publication

/-- `_coordinator_run_one` from its worker selection on -/
def runSelected (a : Attempt) (env : Environment) (id : ExecutionId) (rows : List String) :
    Action Nat := do
  atomicWrite (·.setWorkers id rows)
  if !(env.cell id).contextReady then failBeforeBenchmark a env id
  else
    let rc ← runCell a env id
    let m ← read
    if rc ≠ 0 && (m.ledger.exitcode id).isNone then ignored (resultPublicationHook a env id rc)
    return rc

def runOne (a : Attempt) (env : Environment) (id : ExecutionId) : Action Nat := do
  setProcess fun p => { p with childTrap := true }
  if !(env.cell id).sourced || !(env.cell id).rootsLoaded then failBeforeBenchmark a env id
  else
    setScratch id ⟨.empty, false⟩
    if !(env.cell id).definitionValid then failBeforeBenchmark a env id
    else
      let m ← read
      match (env.cell id).workers with
      | none => failBeforeBenchmark a env id
      | some rows =>
        if (m.ledger.workers id).isSome then failBeforeBenchmark a env id
        else runSelected a env id rows

/-- Fork, run and `wait`: the exit code of the child, or the code of what killed it. -/
def waitChild (child : Action Nat) (death : Option Death) : Action Nat := do
  setProcess fun p => { p with activePid := true }
  match death with
  | none => child
  | some death =>
    let exited ← child.cut death.actions
    return exited.getD death.code

def completeActiveExecution (a : Attempt) (env : Environment) (rc : Nat) : Action Nat := do
  let m ← read
  match m.process.activeId with
  | none => return 1
  | some id =>
    match m.ledger.status id with
    | some .running =>
      checked (finishPrebenchmarkFailure a env id (nonzero rc)) (return nonzero rc)
    | some .success => return rc
    | some .failed =>
      if rc = 0 then return nonzero ((m.ledger.exitcode id).getD 0) else return rc
    | _ => return 1

/-- The cell loop: the `rc` and `failed_id` it ends with, or `none` where main returns at once. -/
def runCells (a : Attempt) (env : Environment) :
    List ExecutionId → Action (Option (Nat × Option ExecutionId))
  | [] => return some (0, none)
  | id :: rest => do
    let m ← read
    match m.ledger.status id with
    | some .success => runCells a env rest
    | some .pending =>
      let prepared ← prepareActiveExecution a id
      if prepared ≠ 0 then return none
      else
        let waited ← waitChild (runOne a env id) (env.cell id).death
        setProcess fun p => { p with activePid := false, childTrap := false }
        let completed ← completeActiveExecution a env waited
        let rc := if completed = 0 then waited else completed
        if rc ≠ 0 then return some (rc, some id)
        else
          setProcess fun p => { p with activeId := none }
          runCells a env rest
    | _ => return some (1, some id)

def sweep (a : Attempt) (env : Environment) : Action Nat := do
  atomicWrite fun l => { l with runStatus := .running }
  checked (writeSummary a .running none none) do
    setProcess fun p => { p with trap := true }
    match ← runCells a env a.executions with
    | none => return 1
    | some (rc, failedId) =>
      checked (finalizeRun a rc failedId) do
        let m ← read
        if rc = 0 && m.ledger.runStatus ≠ .success then return 1
        return rc

def startupFailure (a : Attempt) (message : String) : Action Nat := do
  ignored (finishStartupFailure a message 1)
  return 1

def coordinatorMain (a : Attempt) (env : Environment) : Action Nat :=
  checked (initializeState a) do
    if !env.endpointRowsValid then startupFailure a "invalid worker endpoint evidence"
    else if !env.overlayValid then startupFailure a "invalid integration-only coordinator hook"
    else if !env.startupHealthy then
      startupFailure a "worker services failed initial health check"
    else sweep a env

/-! ## Runs -/

def Machine.submitted : Machine := ⟨.submitted, fun _ => none, .fresh⟩

/-- A signal and the number of actions before it is delivered. -/
abbrev Delivery := Nat × Signal

/-- A coordinator process that receives at most one handled signal; a second one kills it. -/
def coordinator (a : Attempt) (env : Environment) : Option Delivery → Action Nat
  | none => coordinatorMain a env
  | some (actions, signal) => (coordinatorMain a env).interrupt actions (signalHandler a env signal)

def killStates (a : Attempt) (env : Environment) (delivery : Option Delivery) : List Machine :=
  (coordinator a env delivery).trace .submitted

/-- The machine a coordinator leaves that is killed after `actions` actions. -/
def killedAfter (a : Attempt) (env : Environment) (delivery : Option Delivery) (actions : Nat) :
    Machine :=
  (((coordinator a env delivery).cut actions).run .submitted).2

end StorageScaleTest.Coordinator
