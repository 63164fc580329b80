import Mathlib.Data.List.Sort
import Mathlib.Data.String.Basic
import Mathlib.Logic.Function.Basic
import StorageScaleTest.Shell.Words

/-!
# The durable attempt ledger

The data a coordinator keeps on the claim: `run.status`, the per-execution status, exit code and
worker files, the copied results, the summary and the publication manifest.
-/

namespace StorageScaleTest.Coordinator

/-- The four digits `NNNN` naming an execution. -/
abbrev ExecutionId := String

abbrev Bytes := List UInt8

inductive CellStatus
  | pending | running | success | failed
  deriving DecidableEq, Repr

inductive RunStatus
  | prepared | running | success | failed | cancelled
  deriving DecidableEq, Repr

def RunStatus.terminal : RunStatus → Bool
  | .success | .failed | .cancelled => true
  | .prepared | .running => false

/-! ## Paths -/

def isExecutionId (id : String) : Bool := Shell.isCellId id.toList

/-- The fields `IFS=/ read -ra` splits a value into: a trailing separator ends the last field. -/
def components (value : List Char) : List (List Char) :=
  let parts := value.splitOn '/'
  if parts.getLast? = some [] then parts.dropLast else parts

/-- The component check also covers the source's patterns `../*`, `*/../*` and `*/..`. -/
def regularRelativePath (value : String) : Bool :=
  value ≠ "" && value.toList.head? ≠ some '/'
    && value.toList.all (fun c => c ≠ '\n' && c ≠ '\r' && c ≠ '\t')
    && value ≠ "." && value ≠ ".."
    && (components value.toList).all fun part => part ≠ [] && part ≠ ['.'] && part ≠ ['.', '.']

inductive StatePath
  | status (id : ExecutionId)
  | exitcode (id : ExecutionId)
  | workers (id : ExecutionId)
  | runStatus
  | runSummary
  | startupError
  | coordinatorLoss
  | snapshot (name : String)
  | result (id : ExecutionId) (relative : String)
  deriving DecidableEq, Repr

def StatePath.render : StatePath → String
  | .status id => "executions/" ++ id ++ ".status"
  | .exitcode id => "executions/" ++ id ++ ".exitcode"
  | .workers id => "executions/" ++ id ++ ".workers.tsv"
  | .runStatus => "run.status"
  | .runSummary => "run-summary.tsv"
  | .startupError => "startup-error.txt"
  | .coordinatorLoss => "coordinator-loss.tsv"
  | .snapshot name => name
  | .result id relative => "results/" ++ id ++ "/" ++ relative

/-! ## File contents -/

/-- `run-summary.tsv`, less its `updated_utc` row. -/
structure Summary where
  attemptId : String
  runStatus : RunStatus
  pending : Nat
  running : Nat
  success : Nat
  failed : Nat
  failedExecution : Option ExecutionId
  exitCode : Option Nat
  deriving DecidableEq, Repr

structure CoordinatorLoss where
  attemptId : String
  execution : Option ExecutionId
  observedStatus : RunStatus
  executionObservedStatus : CellStatus
  recoveredStatus : RunStatus
  exitCode : Nat
  deriving DecidableEq, Repr

inductive FileContent
  | cellStatus (status : CellStatus)
  | exitcode (rc : Nat)
  | workers (rows : List String)
  | runStatus (status : RunStatus)
  | summary (summary : Summary)
  | message (text : String)
  | loss (loss : CoordinatorLoss)
  | snapshot (name : String)
  | artifact (bytes : Bytes)
  deriving DecidableEq, Repr

def isSha256 (digest : String) : Bool := Shell.hex 64 digest.toList

/-- `wc -c` and `sha256sum`. -/
structure Checksums where
  size : FileContent → Nat
  digest : FileContent → String
  digest_hex : ∀ content, isSha256 (digest content) = true

/-! ## Publication manifest -/

inductive Role
  | ledger | snapshot | result
  deriving DecidableEq, Repr

inductive Row
  | schema (version : Nat)
  | attemptId (id : String)
  | execution (id : ExecutionId) (status : CellStatus)
  | file (role : Role) (remote : StatePath) (localPath : String) (size : Nat) (digest : String)
  deriving DecidableEq, Repr

/-! ## Result directories -/

structure Directory where
  entries : List (String × Bytes)
  nodup : (entries.map Prod.fst).Nodup

namespace Directory

def empty : Directory := ⟨[], by simp⟩

def get? (d : Directory) (name : String) : Option Bytes := d.entries.lookup name

def remove (d : Directory) (name : String) : Directory where
  entries := d.entries.filter fun entry => entry.1 ≠ name
  nodup := d.nodup.sublist (List.filter_sublist.map Prod.fst)

def put (d : Directory) (name : String) (bytes : Bytes) : Directory where
  entries := (name, bytes) :: (d.remove name).entries
  nodup := by
    simp only [List.map_cons, List.nodup_cons, List.mem_map, not_exists, not_and]
    refine ⟨fun entry mem same => ?_, (d.remove name).nodup⟩
    simp only [remove, List.mem_filter, decide_eq_true_eq] at mem
    exact mem.2 same

/-- `mv -f` of one file of the directory over another name. -/
def rename (d : Directory) (source destination : String) : Directory :=
  match d.get? source with
  | none => d
  | some bytes => (d.remove source).put destination bytes

def names (d : Directory) : List String :=
  (d.entries.map Prod.fst).insertionSort (· ≤ ·)

end Directory

/-- A scratch result tree; `symlink` tells whether `find -type l` meets one below it. -/
structure Scratch where
  files : Directory
  symlink : Bool

/-- `_coordinator_relative_files` -/
def relativeFiles (tree : Scratch) : Option (List String) :=
  if tree.symlink then none
  else if tree.files.names.all regularRelativePath then some tree.files.names
  else none

/-! ## The attempt and its ledger -/

/-- The parameters of an execution definition that decide which artifacts a success must leave. -/
inductive Workload
  | io (readFrom singleBigFile sharedDirectory filesPerNode writeOnly writeNoRead : Bool)
  | mdtest (stems : List String)
  deriving DecidableEq, Repr

structure Group where
  id : String
  mdtest : Bool
  deriving DecidableEq, Repr

structure Batch where
  datestamp : String
  groups : List Group
  executionGroup : ExecutionId → Group
  datestamp_valid : Shell.isDatestamp datestamp.toList = true
  groups_valid : ∀ group ∈ groups, isExecutionId group.id = true
  groups_nodup : (groups.map Group.id).Nodup

namespace Batch

def outputDir (b : Batch) (group : Group) : String :=
  "groups/" ++ group.id ++ "/" ++ (if group.mdtest then "mdtest-elbencho" else "elbencho") ++
    "-" ++ b.datestamp

def executionOutputDir (b : Batch) (id : ExecutionId) : String :=
  b.outputDir (b.executionGroup id)

end Batch

structure Attempt where
  attemptId : String
  executions : List ExecutionId
  workload : ExecutionId → Workload
  batch : Option Batch
  checksums : Checksums
  attemptId_valid : Shell.hex 8 attemptId.toList = true
  nonempty : executions ≠ []
  sorted : executions.Pairwise (· < ·)
  executions_valid : ∀ id ∈ executions, isExecutionId id = true
  output_mem : ∀ b ∈ batch, ∀ id ∈ executions, b.executionGroup id ∈ b.groups

namespace Attempt

def groupSnapshots (b : Batch) : List String :=
  b.groups.flatMap fun group =>
    [b.outputDir group ++ "/env_used.sh", b.outputDir group ++ "/env_used.yaml"]

def snapshots (a : Attempt) : List String :=
  ["env_used.sh", "env_used.yaml"] ++
    match a.batch with
    | none => []
    | some b => ["batch-manifest.tsv", "batch-sealed.sha256"] ++ groupSnapshots b

def outputRelative (a : Attempt) (id : ExecutionId) : String :=
  match a.batch with
  | none => ""
  | some b => b.executionOutputDir id ++ "/"

end Attempt

inductive Lock
  | absent | directory | owned
  deriving DecidableEq, Repr

structure Ledger where
  lock : Lock
  snapshots : List String
  runStatus : RunStatus
  status : ExecutionId → Option CellStatus
  exitcode : ExecutionId → Option Nat
  workers : ExecutionId → Option (List String)
  results : ExecutionId → Directory
  startupError : Option String
  coordinatorLoss : Option CoordinatorLoss
  summary : Option Summary
  manifest : List Row

namespace Ledger

/-- The ledger `kubectl_initialize_remote_control_tree` leaves: `PREPARED` and an empty manifest. -/
def submitted : Ledger where
  lock := .absent
  snapshots := []
  runStatus := .prepared
  status _ := none
  exitcode _ := none
  workers _ := none
  results _ := .empty
  startupError := none
  coordinatorLoss := none
  summary := none
  manifest := []

def setStatus (l : Ledger) (id : ExecutionId) (status : CellStatus) : Ledger :=
  { l with status := Function.update l.status id (some status) }

def setExitcode (l : Ledger) (id : ExecutionId) (rc : Nat) : Ledger :=
  { l with exitcode := Function.update l.exitcode id (some rc) }

def setWorkers (l : Ledger) (id : ExecutionId) (rows : List String) : Ledger :=
  { l with workers := Function.update l.workers id (some rows) }

def setResults (l : Ledger) (id : ExecutionId) (files : Directory) : Ledger :=
  { l with results := Function.update l.results id files }

def file? (l : Ledger) : StatePath → Option FileContent
  | .status id => (l.status id).map .cellStatus
  | .exitcode id => (l.exitcode id).map .exitcode
  | .workers id => (l.workers id).map .workers
  | .runStatus => some (.runStatus l.runStatus)
  | .runSummary => l.summary.map .summary
  | .startupError => l.startupError.map .message
  | .coordinatorLoss => l.coordinatorLoss.map .loss
  | .snapshot name => if name ∈ l.snapshots then some (.snapshot name) else none
  | .result id relative => ((l.results id).get? relative).map .artifact

end Ledger

end StorageScaleTest.Coordinator
