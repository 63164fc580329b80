import Mathlib.Data.List.DropRight
import StorageScaleTest.Interruptible.Program
import StorageScaleTest.Coordinator.Ledger

/-!
# Publishing results, summaries and the manifest

Each replacement of a ledger file (write a temporary, then `mv`) is one action. Copying an artifact
is two, since its temporary is visible in the published directory.
-/

namespace StorageScaleTest.Coordinator

open Interruptible Interruptible.Program

/-- The shell variables and traps of the coordinator and of the child running a cell. -/
structure Process where
  trap : Bool
  activeId : Option ExecutionId
  activePid : Bool
  childTrap : Bool
  temporaries : Nat
  deriving DecidableEq, Repr

def Process.fresh : Process := ⟨false, none, false, false, 0⟩

structure Machine where
  ledger : Ledger
  scratch : ExecutionId → Option Scratch
  process : Process

/-- The end of a child that cannot publish: the number of its actions and the code `wait` reports.
TERM and INT are not among them, since the child traps both. -/
structure Death where
  actions : Nat
  code : Nat
  uncaught : code ≠ 130 ∧ code ≠ 143

/-- What happens to one cell: the outcomes of the checks before its benchmark, the contents its
scratch takes while the benchmark runs, the benchmark's exit code and the child's death. -/
structure CellRun where
  sourced : Bool
  rootsLoaded : Bool
  definitionValid : Bool
  workers : Option (List String)
  contextReady : Bool
  contents : List Scratch
  benchmark : Nat
  death : Option Death

/-- What the coordinator meets while it runs; `temporaryTag` gives the `BASHPID` and `RANDOM` of
the temporary files it creates one after another. -/
structure Environment where
  endpointRowsValid : Bool
  overlayValid : Bool
  startupHealthy : Bool
  cell : ExecutionId → CellRun
  temporaryTag : Nat → Nat × Nat

abbrev Action := Program Machine

/-- `p || return 1` followed by `q` -/
def checked (p q : Action Nat) : Action Nat :=
  p.bind fun rc => if rc = 0 then q else .done 1

def atomicWrite (update : Ledger → Ledger) : Action Unit :=
  modify fun m => { m with ledger := update m.ledger }

def setProcess (update : Process → Process) : Action Unit :=
  modify fun m => { m with process := update m.process }

/-! ## Artifacts -/

def temporaryName (name : String) (tag : Nat × Nat) : String :=
  name ++ ".tmp." ++ toString tag.1 ++ "." ++ toString tag.2

def Machine.copyToTemporary (m : Machine) (env : Environment) (id : ExecutionId) (name : String)
    (bytes : Bytes) : Machine :=
  { m with
    ledger := m.ledger.setResults id ((m.ledger.results id).put
      (temporaryName name (env.temporaryTag m.process.temporaries)) bytes)
    process := { m.process with temporaries := m.process.temporaries + 1 } }

def copyFile (env : Environment) (id : ExecutionId) (name : String) : Action Nat := do
  let m ← read
  match (m.scratch id).bind (·.files.get? name) with
  | none => return 1
  | some bytes =>
    modify (·.copyToTemporary env id name bytes)
    let temporary := temporaryName name (env.temporaryTag m.process.temporaries)
    atomicWrite fun l => l.setResults id ((l.results id).rename temporary name)
    return 0

def copyFiles (env : Environment) (id : ExecutionId) : List String → Action Nat
  | [] => return 0
  | name :: rest => checked (copyFile env id name) (copyFiles env id rest)

def copyScratchResults (env : Environment) (id : ExecutionId) : Action Nat := do
  let m ← read
  match (m.scratch id).bind relativeFiles with
  | none => return 1
  | some files => copyFiles env id files

/-! ## Summary -/

def countCells (a : Attempt) (l : Ledger) (status : CellStatus) : Nat :=
  a.executions.countP fun id => l.status id = some status

def summaryOf (a : Attempt) (l : Ledger) (terminal : RunStatus) (failedId : Option ExecutionId)
    (exitCode : Option Nat) : Summary where
  attemptId := a.attemptId
  runStatus := terminal
  pending := countCells a l .pending
  running := countCells a l .running
  success := countCells a l .success
  failed := countCells a l .failed
  failedExecution := failedId
  exitCode := exitCode

def writeSummary (a : Attempt) (terminal : RunStatus) (failedId : Option ExecutionId)
    (exitCode : Option Nat) : Action Nat := do
  let m ← read
  if a.executions.any fun id => (m.ledger.status id).isNone then return 1
  if terminal.terminal && countCells a m.ledger .running ≠ 0 then return 1
  atomicWrite fun l => { l with summary := some (summaryOf a l terminal failedId exitCode) }
  return 0

/-! ## Manifest -/

/-- `_coordinator_append_manifest_file` -/
def fileRow (a : Attempt) (l : Ledger) (role : Role) (remote : StatePath) (localPath : String) :
    Option Row :=
  (l.file? remote).map fun content =>
    .file role remote localPath (a.checksums.size content) (a.checksums.digest content)

def ledgerRow (a : Attempt) (l : Ledger) (path : StatePath) : Option Row :=
  fileRow a l .ledger path path.render

def optionalRow (a : Attempt) (l : Ledger) (path : StatePath) : List Row :=
  (ledgerRow a l path).toList

/-- `f x >> manifest || return 1` for every `x`. -/
def appendRows {α : Type} (f : α → Option (List Row)) : List α → Option (List Row)
  | [] => some []
  | x :: xs => do
    let rows ← f x
    let rest ← appendRows f xs
    return rows ++ rest

def resultRow (a : Attempt) (l : Ledger) (id : ExecutionId) (relative : String) : Option Row :=
  fileRow a l .result (.result id relative) (a.outputRelative id ++ relative)

def resultRows (a : Attempt) (l : Ledger) (id : ExecutionId) : Option (List Row) := do
  let files ← relativeFiles ⟨l.results id, false⟩
  appendRows (fun relative => (resultRow a l id relative).map ([·])) files

def exitcodeRows (a : Attempt) (l : Ledger) (id : ExecutionId) (status : CellStatus) :
    Option (List Row) :=
  match status with
  | .success | .failed => (ledgerRow a l (.exitcode id)).map ([·])
  | .pending | .running => some []

def executionRows (a : Attempt) (l : Ledger) (id : ExecutionId) : Option (List Row) := do
  let status ← l.status id
  let statusRow ← ledgerRow a l (.status id)
  let exitcode ← exitcodeRows a l id status
  let results ← resultRows a l id
  return .execution id status :: statusRow :: (exitcode ++ optionalRow a l (.workers id) ++ results)

def snapshotRow (a : Attempt) (l : Ledger) (name : String) : Option (List Row) :=
  (fileRow a l .snapshot (.snapshot name) name).map ([·])

def manifestRows (a : Attempt) (l : Ledger) : Option (List Row) := do
  let cells ← appendRows (executionRows a l) a.executions
  let status ← ledgerRow a l .runStatus
  let summary ← ledgerRow a l .runSummary
  let snapshots ← appendRows (snapshotRow a l) a.snapshots
  return [.schema 1, .attemptId a.attemptId] ++ cells ++ [status, summary] ++
    optionalRow a l .startupError ++ optionalRow a l .coordinatorLoss ++ snapshots

def publishManifest (a : Attempt) : Action Nat := do
  let m ← read
  match manifestRows a m.ledger with
  | none => return 1
  | some rows =>
    atomicWrite fun l => { l with manifest := rows }
    return 0

/-! ## Terminal cells -/

/-- `_mdtest_completion_path` below the results of the execution -/
def completionPath (id : ExecutionId) : String := "executions/" ++ id ++ ".mdtest.complete"

/-- `COMPLETE` is what `$(<file)` leaves, which drops null bytes and the newlines at the end. -/
def completionIsValid (bytes : Bytes) : Bool :=
  (bytes.filter (· ≠ 0)).rdropWhile (· = 10) = [67, 79, 77, 80, 76, 69, 84, 69]

def requiredArtifacts (id : ExecutionId) : Workload → List String
  | .mdtest stems =>
      stems.flatMap (fun stem => [stem ++ ".out", stem ++ ".csv"]) ++
        [completionPath id]
  | .io readFrom singleBigFile sharedDirectory filesPerNode writeOnly writeNoRead =>
      if readFrom && !singleBigFile then ["executions/" ++ id ++ ".workload.tsv"]
      else if sharedDirectory && filesPerNode then
        ["executions/" ++ id ++ ".workload.tsv", "executions/" ++ id ++ ".write.json"] ++
          (if writeOnly || writeNoRead then [] else ["executions/" ++ id ++ ".read.json"]) ++
          (if writeOnly then [] else ["executions/" ++ id ++ ".delete.json"])
      else []

def Workload.isMdtest : Workload → Bool
  | .mdtest _ => true
  | .io .. => false

/-- `_coordinator_require_success_artifacts`: an io artifact must be a regular file, an mdtest one
must also have content, and its completion file the right one. -/
def requireSuccessArtifacts (a : Attempt) (id : ExecutionId) (scratch : Option Scratch) : Bool :=
  let file? := fun name => scratch.bind (·.files.get? name)
  ((requiredArtifacts id (a.workload id)).all fun name =>
    match file? name with
    | none => false
    | some bytes => !(a.workload id).isMdtest || !bytes.isEmpty)
    && (!(a.workload id).isMdtest || (file? (completionPath id)).any completionIsValid)

def publishedCode (a : Attempt) (id : ExecutionId) (scratch : Option Scratch) (benchmark : Nat) :
    Nat :=
  if benchmark = 0 && !requireSuccessArtifacts a id scratch then 1 else benchmark

/-- The status and summary writes of `_coordinator_result_publication_hook`. -/
def publishCell (a : Attempt) (id : ExecutionId) (rc : Nat) : Action Nat :=
  if rc = 0 then do
    atomicWrite (·.setStatus id .success)
    writeSummary a .running none none
  else do
    atomicWrite (·.setStatus id .failed)
    writeSummary a .failed (some id) (some rc)

def resultPublicationHook (a : Attempt) (env : Environment) (id : ExecutionId) (benchmark : Nat) :
    Action Nat := do
  let m ← read
  let rc := publishedCode a id (m.scratch id) benchmark
  checked (copyScratchResults env id) do
    atomicWrite (·.setExitcode id rc)
    checked (publishCell a id rc) (checked (publishManifest a) (return rc))

def nonzero (rc : Nat) : Nat := if rc = 0 then 1 else rc

/-- `|| true` and the failures that are only reported -/
def ignored (p : Action Nat) : Action Unit := p.bind fun _ => .done ()

def finishPrebenchmarkFailure (a : Attempt) (env : Environment) (id : ExecutionId) (rc : Nat) :
    Action Nat := do
  let m ← read
  if (m.scratch id).isSome then ignored (copyScratchResults env id)
  atomicWrite (·.setExitcode id (nonzero rc))
  atomicWrite (·.setStatus id .failed)
  checked (writeSummary a .failed (some id) (some (nonzero rc))) (publishManifest a)

def finishStartupFailure (a : Attempt) (message : String) (rc : Nat) : Action Nat := do
  atomicWrite fun l => { l with startupError := some message }
  checked (writeSummary a .failed none (some rc)) do
    atomicWrite fun l => { l with runStatus := .failed }
    publishManifest a

end StorageScaleTest.Coordinator
