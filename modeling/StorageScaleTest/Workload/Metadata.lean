import StorageScaleTest.Samples.Dict
import StorageScaleTest.Sizing.Decimal
import StorageScaleTest.Shell.Text
import Mathlib.Data.Finset.Card
import Mathlib.Data.List.DropRight

/-!
# Workload metadata

The file of keys and values that describes the workload of an execution.
-/

namespace StorageScaleTest.Workload
open Shell Samples Sizing

/-- The keys in `_elbencho_workload_write`, in the order of its lines. -/
def keys : List (List Char) := [
  "dataset_count_source", "treefile_source", "treefile_cache_publish_outcome",
  "requested_files_per_node", "effective_files_per_node", "dataset_files_total",
  "dataset_bytes_total", "reader_nodes", "reader_threads_per_node", "reader_iodepth",
  "files_per_reader_node", "termination_mode", "configured_duration_seconds",
  "effective_timelimit_seconds", "completion_state", "failure_cleanup_state",
  "write_expected_files", "write_expected_bytes", "write_completed_files",
  "write_completed_bytes", "write_elapsed_time_ms", "write_completion_state",
  "read_expected_files", "read_expected_bytes", "read_completed_files",
  "read_completed_bytes", "read_elapsed_time_ms", "read_completion_state",
  "delete_expected_files", "delete_completed_files", "delete_elapsed_time_ms",
  "delete_completion_state", "write_delete_elapsed_time_ms",
  "lifecycle_elapsed_time_ms"].map String.toList

/-- The alternatives of `_elbencho_workload_key_is_valid`. -/
def validKeys : List (List Char) := [
  "dataset_count_source", "treefile_source", "treefile_cache_publish_outcome",
  "requested_files_per_node", "effective_files_per_node", "dataset_files_total",
  "dataset_bytes_total", "reader_nodes", "reader_threads_per_node", "reader_iodepth",
  "files_per_reader_node", "termination_mode", "configured_duration_seconds",
  "effective_timelimit_seconds", "completion_state", "failure_cleanup_state",
  "write_expected_files", "write_expected_bytes", "write_completed_files",
  "write_completed_bytes", "write_elapsed_time_ms", "write_completion_state",
  "read_expected_files",
  "read_expected_bytes", "read_completed_files", "read_completed_bytes",
  "read_elapsed_time_ms", "read_completion_state", "delete_expected_files",
  "delete_completed_files", "delete_elapsed_time_ms", "delete_completion_state",
  "write_delete_elapsed_time_ms", "lifecycle_elapsed_time_ms"].map String.toList

/-- The alternatives of `_elbencho_workload_value_is_valid`. -/
def validWords : List (List Char) := [
  "null", "configuration", "treefile", "cache_hit", "cache_miss_scan",
  "cache_unavailable_scan", "pending", "reused", "created", "already_present",
  "not_created", "not_applicable", "completion", "time_bounded_repeat",
  "single_pass_with_time_ceiling", "completed", "incomplete", "not_started",
  "not_applicable_time_based", "not_needed", "failed"].map String.toList

/-- The keys that a file of the earlier schema lacks, with their values. -/
def legacyDefaults : List (List Char × List Char) := [
  ("write_elapsed_time_ms", "null"), ("read_elapsed_time_ms", "null"),
  ("delete_expected_files", "null"), ("delete_completed_files", "null"),
  ("delete_elapsed_time_ms", "null"), ("delete_completion_state", "not_applicable"),
  ("write_delete_elapsed_time_ms", "null"), ("lifecycle_elapsed_time_ms", "null")].map
    fun (key, value) => (key.toList, value.toList)

/-- `_elbencho_workload_key_is_valid` -/
def keyIsValid (key : List Char) : Prop := key ∈ validKeys

instance (key : List Char) : Decidable (keyIsValid key) := inferInstanceAs (Decidable (_ ∈ _))

/-- `_elbencho_workload_value_is_valid` -/
def valueIsValid (value : List Char) : Prop := isDigits value = true ∨ value ∈ validWords

instance (value : List Char) : Decidable (valueIsValid value) :=
  inferInstanceAs (Decidable (_ ∨ _))

abbrev Metadata : Type := Dict (List Char) (List Char)

/-- `ELBENCHO_WORKLOAD_PATH` and `ELBENCHO_WORKLOAD_METADATA`. -/
structure State where
  path : List Char
  metadata : Metadata

/-- `_elbencho_workload_begin` -/
def workloadBegin (path : List Char) : State := ⟨path, Dict.empty⟩

/-- The value as `_elbencho_workload_set` stores it. -/
def storedValue (value : List Char) : Option (List Char) :=
  if isDigits value then decimalCanonicalize value else some value

/-- `_elbencho_workload_set`, with nothing where it returns an error. -/
def workloadSet (workload : State) (key value : List Char) : Option State :=
  if ¬keyIsValid key then none
  else if ¬valueIsValid value then none
  else do
    let value ← storedValue value
    some { workload with metadata := workload.metadata.set key value }

/-! ## Files -/

abbrev Files : Type := List Char → Option (List Char)

namespace Files

def put (files : Files) (path content : List Char) : Files := fun other =>
  if other = path then some content else files other

def remove (files : Files) (path : List Char) : Files := fun other =>
  if other = path then none else files other

end Files

structure Faults where
  mkdir : Bool
  create : Bool
  append : Nat → Bool
  rename : Bool
  cleanup : Bool

def line (key value : List Char) : List Char := key ++ '\t' :: value

/-- `${ELBENCHO_WORKLOAD_METADATA[$key]:-null}` -/
def valueOrNull (metadata : Metadata) (key : List Char) : List Char :=
  match metadata.get key with
  | none | some [] => "null".toList
  | some value => value

/-- The loop over the keys, with the content that is written so far. -/
def appendKeys (faults : Faults) (metadata : Metadata) :
    List (List Char) → Nat → List Char → Bool × List Char
  | [], _, content => (true, content)
  | key :: keys, position, content =>
    let value := valueOrNull metadata key
    if ¬valueIsValid value ∨ faults.append position then (false, content)
    else appendKeys faults metadata keys (position + 1) (content ++ line key value ++ ['\n'])

/-- The temporary file of a write, whose name ends in the process and a random number. -/
def temporary (path unique : List Char) : List Char := path ++ ".tmp.".toList ++ unique

/-- `_elbencho_workload_write` -/
def workloadWrite (faults : Faults) (unique : List Char) (workload : State) (files : Files) :
    Bool × Files :=
  if workload.path = [] ∨ faults.mkdir ∨ faults.create then (false, files)
  else
    let tmp := temporary workload.path unique
    let (complete, content) := appendKeys faults workload.metadata keys 0 []
    if ¬complete ∨ faults.rename then
      (false, if faults.cleanup then files.put tmp content else files.remove tmp)
    else (true, (files.remove tmp).put workload.path content)

/-- `IFS=$'\t' read -r key value extra`, where a run of tabs separates and tabs at the ends do not
count. -/
def readFields (text : List Char) : List Char × List Char × List Char :=
  let text := text.dropWhile (· = '\t')
  let rest := (text.dropWhile (· ≠ '\t')).dropWhile (· = '\t')
  let extra := (rest.dropWhile (· ≠ '\t')).dropWhile (· = '\t')
  (text.takeWhile (· ≠ '\t'), rest.takeWhile (· ≠ '\t'), extra.rdropWhile (· = '\t'))

def loadLine (metadata : Metadata) (text : List Char) : Option Metadata :=
  let (key, value, extra) := readFields text
  if key = [] ∨ extra ≠ [] then none
  else if ¬keyIsValid key then none
  else if (metadata.get key).isSome then none
  else if ¬valueIsValid value then none
  else some (metadata.set key value)

def addDefault (metadata : Metadata) (pair : List Char × List Char) : Option Metadata :=
  if (metadata.get pair.1).isSome then none else some (metadata.set pair.1 pair.2)

/-- `_elbencho_workload_load`, with nothing where it returns an error. -/
def workloadLoad (files : Files) (path : List Char) : Option State := do
  let content ← files path
  let metadata ← (readLines content).foldlM loadLine Dict.empty
  let metadata ←
    if metadata.keys.card = 26 then legacyDefaults.foldlM addDefault metadata
    else if metadata.keys.card ≠ 34 then none
    else some metadata
  some ⟨path, metadata⟩

/-- `_elbencho_workload_update_failure_cleanup_state` -/
def workloadUpdateFailureCleanupState (faults : Faults) (unique : List Char) (files : Files)
    (path state : List Char) : Bool × Files :=
  match workloadLoad files path with
  | none => (false, files)
  | some workload =>
    match workloadSet workload "failure_cleanup_state".toList state with
    | none => (false, files)
    | some workload => workloadWrite faults unique workload files

end StorageScaleTest.Workload
