import StorageScaleTest.Collection.Paths
import StorageScaleTest.Coordinator.Recovery

/-!
# Validating a collected publication

`_kubectl_validate_collected_publication`: what the collector demands of the state directory and
the manifest it fetched, against the control bundle the attempt was submitted with.
-/

namespace StorageScaleTest.Collection

open Coordinator

/-! ## Paths -/

def safeRelativeFilePath (path : String) : Bool := Import.safeRelativeFilePath path.toList

/-- The id in `executions/NNNN.` at the start of a path, and what follows it. -/
def executionPath? (path : String) : Option (ExecutionId × List Char) :=
  (Import.executionPath? path.toList).map fun found => (String.ofList found.1, found.2)

/-- The id and the relative path in `results/NNNN/…`. -/
def resultPath? (path : String) : Option (ExecutionId × String) :=
  (Import.resultPath? path.toList).map fun found => (String.ofList found.1, String.ofList found.2)

def batchLedgerPath (path : String) : Bool := Import.batchLedgerPath path.toList

/-! ## Reading the manifest -/

structure Source where
  role : Role
  remote : StatePath
  localPath : String
  deriving DecidableEq, Repr

structure Reading where
  schema : Bool
  attempt : Bool
  executions : List (ExecutionId × CellStatus)
  sources : List Source

def Reading.start : Reading := ⟨false, false, [], []⟩

def matchesFile (a : Attempt) (l : Ledger) (remote : StatePath) (size : Nat) (digest : String) :
    Bool :=
  match l.file? remote with
  | none => false
  | some content => a.checksums.size content = size && a.checksums.digest content = digest

def readRow (a : Attempt) (l : Ledger) (reading : Reading) : Row → Option Reading
  | .schema version =>
    if !reading.schema && version = 1 then some { reading with schema := true } else none
  | .attemptId id =>
    if !reading.attempt && id = a.attemptId then some { reading with attempt := true } else none
  | .execution id status =>
    if isExecutionId id && !(reading.executions.map Prod.fst).contains id then
      some { reading with executions := reading.executions ++ [(id, status)] }
    else none
  | .file role remote localPath size digest =>
    if isSha256 digest
        && (a.batch.isNone || role ≠ .ledger
          || remote.render = localPath && batchLedgerPath remote.render)
        && safeRelativeFilePath remote.render && safeRelativeFilePath localPath
        && !(reading.sources.map (·.remote.render)).contains remote.render
        && !(reading.sources.map (·.localPath)).contains localPath
        && matchesFile a l remote size digest then
      some { reading with sources := reading.sources ++ [⟨role, remote, localPath⟩] }
    else none

def readManifest (a : Attempt) (l : Ledger) (rows : List Row) : Option Reading := do
  let reading ← rows.foldlM (readRow a l) .start
  if reading.schema && reading.attempt then some reading else none

/-! ## Checks -/

def declared (sources : List Source) (role : Role) (path : String) : Bool :=
  match sources.find? (·.remote.render = path) with
  | none => false
  | some source => source.role = role && source.localPath = path

def isSnapshotCore (path : String) : Bool :=
  ["env_used.".toList, "batch-".toList, "groups/".toList].any (·.isPrefixOf path.toList)

def coreDeclared (a : Attempt) (l : Ledger) (sources : List Source) : Bool :=
  (["run.status", "run-summary.tsv"] ++ a.snapshots).all fun core =>
    if isSnapshotCore core then
      declared sources .snapshot core
        && (a.batch.isNone || l.file? (.snapshot core) = some (.snapshot core))
    else declared sources .ledger core

def sameExecutions (a : Attempt) (executions : List (ExecutionId × CellStatus)) : Bool :=
  !a.executions.isEmpty && executions.length = a.executions.length
    && executions.all fun entry => a.executions.contains entry.1

/-- In a batch, ledger files belong to executions of the bundle. -/
def ownLedgerFiles (a : Attempt) (sources : List Source) : Bool :=
  a.batch.isNone || sources.all fun source =>
    source.role ≠ .ledger || match executionPath? source.remote.render with
      | none => true
      | some (id, _) => a.executions.contains id

def resultAllowed (a : Attempt) (source : Source) : Bool :=
  match resultPath? source.remote.render with
  | none => false
  | some (id, relative) => a.executions.contains id
      && (a.batch.isNone || match executionPath? relative with
        | none => true
        | some (owner, _) => owner = id)
      && source.localPath = a.outputRelative id ++ relative

def requiresWorkloadMetadata : Workload → Bool
  | .mdtest _ => false
  | .io readFrom singleBigFile sharedDirectory filesPerNode _ _ =>
    readFrom && !singleBigFile || sharedDirectory && filesPerNode

def workloadDeclared (a : Attempt) (sources : List Source) (id : ExecutionId) : Bool :=
  let name := "executions/" ++ id ++ ".workload.tsv"
  match sources.find? (·.localPath = a.outputRelative id ++ name) with
  | none => false
  | some source => source.role = .result && source.remote.render = "results/" ++ id ++ "/" ++ name

def exitcodePath (id : ExecutionId) : String := (StatePath.exitcode id).render

def cellAllowed (a : Attempt) (l : Ledger) (reading : Reading) (id : ExecutionId) : Bool :=
  match reading.executions.lookup id with
  | none => false
  | some status =>
    declared reading.sources .ledger (StatePath.status id).render
      && l.status id = some status
      && match status with
        | .running => false
        | .pending => true
        | .success =>
          declared reading.sources .ledger (exitcodePath id) && l.exitcode id = some 0
            && declared reading.sources .ledger (StatePath.workers id).render
            && (!requiresWorkloadMetadata (a.workload id)
              || workloadDeclared a reading.sources id)
        | .failed =>
          declared reading.sources .ledger (exitcodePath id)
            && (l.exitcode id).any (· ≠ 0)

def outcomeAllowed (reading : Reading) : RunStatus → Bool
  | .success => reading.executions.all fun entry => entry.2 = .success
  | .failed => reading.executions.any (fun entry => entry.2 = .failed)
      || declared reading.sources .ledger "startup-error.txt"
  | .cancelled => true
  | .prepared | .running => false

/-- The outcome the collector reports, or `none` where it refuses the publication. -/
def validateCollectedPublication (a : Attempt) (l : Ledger) : Option RunStatus := do
  let reading ← readManifest a l l.manifest
  if l.runStatus.terminal && coreDeclared a l reading.sources
      && sameExecutions a reading.executions && ownLedgerFiles a reading.sources
      && (reading.sources.filter (·.role = .result)).all (resultAllowed a)
      && a.executions.all (cellAllowed a l reading) && outcomeAllowed reading l.runStatus then
    some l.runStatus
  else none

end StorageScaleTest.Collection
