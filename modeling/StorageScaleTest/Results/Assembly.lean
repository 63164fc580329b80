import StorageScaleTest.Results.Rewriting
import StorageScaleTest.Samples.Dict
import Mathlib.Data.Finset.Sort
import Mathlib.Data.String.Basic

/-!
# Assembling the results document

The executions of a document: each group's ledger merged with the entries of its fragment, the
diagnostics, and the counts of the batch.
-/

namespace StorageScaleTest.Results

open Samples

/-! ## States -/

inductive LedgerState
  | success
  | failed
  | pending
  | running
  | cancelled
  | interrupted
  | unknown
  deriving DecidableEq, Repr

/-- `LEDGER_STATES` -/
def ledgerStates : List LedgerState :=
  [.success, .failed, .pending, .running, .cancelled, .interrupted, .unknown]

def LedgerState.text : LedgerState → String
  | .success => "success"
  | .failed => "failed"
  | .pending => "pending"
  | .running => "running"
  | .cancelled => "cancelled"
  | .interrupted => "interrupted"
  | .unknown => "unknown"

inductive ResultState
  | complete
  | someResults
  | missing
  | unparseable
  | notRun
  | notReported
  deriving DecidableEq, Repr

/-- `RESULT_STATES` -/
def resultStates : List ResultState :=
  [.complete, .someResults, .missing, .unparseable, .notRun, .notReported]

inductive Kind
  | io
  | mdtest
  deriving DecidableEq, Repr

/-! ## Ledgers and fragments -/

/-- `problem` -/
structure Problem where
  code : String
  detail : String
  phase : Option String := none
  deriving DecidableEq, Repr

structure ResultFile where
  path : String
  sizeBytes : Nat
  sha256 : String

structure Entry where
  executionId : Option String
  resultState : ResultState
  problems : List Problem
  coordinates : Option Json
  coordinateKey : Option String
  dataset : Option Json
  producerVersion : Option String
  resultFiles : List ResultFile
  results : Option Json

structure Fragment where
  kind : Kind
  executions : List Entry
  diagnostics : List Problem

structure LedgerItem where
  executionId : Option String
  definition : Option String
  ledgerState : LedgerState
  log : Option String
  derived : Option (Json × String)

/-- `_GroupSpec` -/
structure GroupSpec where
  groupId : String
  kind : Kind
  directory : String
  ledger : List LedgerItem
  fragment : Option Fragment
  selected : Bool
  reportFailed : Bool
  hasLedger : Bool

structure Execution where
  executionId : Option String
  groupId : String
  kind : Kind
  definition : Option String
  ledgerState : LedgerState
  resultState : ResultState
  problems : List Problem
  coordinates : Option Json
  coordinateKey : Option String
  dataset : Option Json
  producerVersion : Option String
  resultFiles : List ResultFile
  log : Option String
  results : Option Json

/-! ## Merging one execution -/

section

variable (spec : GroupSpec) (liveDir : Option String)

/-- `_execution_record` -/
def executionRecord (item : LedgerItem) (entry : Entry) : Execution where
  executionId := item.executionId
  groupId := spec.groupId
  kind := spec.kind
  definition := item.definition
  ledgerState := item.ledgerState
  resultState := entry.resultState
  problems := entry.problems
  coordinates := entry.coordinates
  coordinateKey := entry.coordinateKey
  dataset := entry.dataset
  producerVersion := entry.producerVersion
  resultFiles := entry.resultFiles
  log := item.log
  results := entry.results

/-- `_absent_state` -/
def absentState (item : LedgerItem) : ResultState × List Problem :=
  if ¬spec.selected then (.notReported, [])
  else if item.ledgerState ≠ .success then (.notRun, [])
  else if spec.reportFailed then (.missing, [⟨"report_failed", "the group report failed", none⟩])
  else (.missing, [])

/-- `_definition_fields`: the problem of a definition that gives no coordinates. -/
def definitionProblems (item : LedgerItem) : List Problem :=
  match item.derived with
  | some _ => []
  | none => [⟨"definition_unreadable",
      "execution " ++ item.executionId.getD "None" ++ ": definition cannot be parsed", none⟩]

/-- `_absent_fragment` -/
def absentFragment (item : LedgerItem) : Entry where
  executionId := item.executionId
  resultState := (absentState spec item).1
  problems := (absentState spec item).2 ++ definitionProblems item
  coordinates := item.derived.map (·.1)
  coordinateKey := item.derived.map (·.2)
  dataset := none
  producerVersion := none
  resultFiles := []
  results := none

/-- `_rewrite_files` -/
def rewriteFiles (files : List ResultFile) : List ResultFile :=
  files.map fun file => { file with path := posixJoin spec.directory file.path }

/-- `_merge_execution` -/
def mergeExecution (item : LedgerItem) : Option Entry → Execution
  | none => executionRecord spec item (absentFragment spec item)
  | some entry =>
    let merged : Entry := { entry with
      resultFiles := rewriteFiles spec entry.resultFiles
      results := entry.results.map (rewriteResults spec.directory liveDir) }
    executionRecord spec item
      (if item.ledgerState ≠ .success ∧ item.ledgerState ≠ .unknown then
        { merged with resultState := .notRun, results := none }
      else merged)

/-! ## Merging one group -/

def Entry.id? (entry : Entry) : Option String := entry.executionId.filter (· ≠ "")

/-- `_diagnostic` -/
def diagnostic (item : Problem) : Problem :=
  ⟨item.code, "group " ++ spec.groupId ++ ": " ++ item.detail, item.phase⟩

/-- `_unmatched_diagnostic` -/
def unmatchedDiagnostic (entry : Entry) : Problem :=
  let paths := ", ".intercalate (entry.resultFiles.map fun file =>
    posixJoin spec.directory file.path)
  ⟨"execution_unmatched",
    "group " ++ spec.groupId ++ ": result files match no ledger execution: " ++ paths, none⟩

def noLedgerDiagnostic : Problem :=
  ⟨"no_execution_ledger",
    "group " ++ spec.groupId ++ ": no executions/ ledger; ledger state unknown", none⟩

def entries : List Entry := (spec.fragment.map (·.executions)).getD []

def byId : Dict String Entry :=
  Dict.empty.setAll ((entries spec).filterMap fun entry => entry.id?.map (·, entry))

def unmatched : List Entry := (entries spec).filter fun entry => entry.id?.isNone

def unledgered : LedgerItem := ⟨none, none, .unknown, none, none⟩

/-- `_merge_group` -/
def mergeGroup : List Execution × List Problem :=
  let executions := spec.ledger.map fun item =>
    mergeExecution spec liveDir item (item.executionId.bind (byId spec).get)
  let diagnostics := ((spec.fragment.map (·.diagnostics)).getD []).map (diagnostic spec)
  if ¬spec.hasLedger then
    (executions ++ (unmatched spec).map fun entry =>
      mergeExecution spec liveDir unledgered (some entry),
      diagnostics ++ [noLedgerDiagnostic spec])
  else (executions, diagnostics ++ (unmatched spec).map (unmatchedDiagnostic spec))

end

/-! ## The document -/

inductive KeyPart
  | text (part : String)
  | number (part : Nat)
  deriving DecidableEq, Ord

/-- The parts of `natural_key`: text and numbers in turns, with text at both ends. -/
def naturalParts (text : String) : List KeyPart :=
  let runs := text.toList.splitBy fun a b => a.isDigit == b.isDigit
  let parts := runs.map fun run =>
    if run.all Char.isDigit then KeyPart.number (Nat.ofDigitChars 10 run 0)
    else KeyPart.text (String.ofList run)
  let opened := match parts with
    | .text _ :: _ => parts
    | _ => .text "" :: parts
  match opened.getLast? with
  | some (.number _) => opened ++ [.text ""]
  | _ => opened

/-- `natural_key` -/
def compareNatural (a b : String) : Ordering :=
  (List.compareLex compare (naturalParts a) (naturalParts b)).then (compare a b)

/-- `_execution_sort_key` -/
def compareExecutions (a b : Execution) : Ordering :=
  (compare a.groupId b.groupId).then <|
  (compare a.executionId.isNone b.executionId.isNone).then <|
  (compare (a.executionId.getD "") (b.executionId.getD "")).then <|
  compareNatural (a.coordinateKey.getD "") (b.coordinateKey.getD "")

structure BatchOutcome where
  complete : Bool
  total : Nat
  executions : LedgerState → Nat
  results : ResultState → Nat
  groupsReported : List String
  groupsNotReported : List String

def sortedTexts (texts : List String) : List String := texts.mergeSort fun a b => decide (a ≤ b)

/-- `_batch_outcome` -/
def batchOutcome (executions : List Execution) (specs : List GroupSpec) : BatchOutcome where
  complete := ¬executions.isEmpty ∧ executions.all fun execution =>
    execution.ledgerState = .success ∧ execution.resultState = .complete
  total := executions.length
  executions := fun state => (executions.map (·.ledgerState)).count state
  results := fun state => (executions.map (·.resultState)).count state
  groupsReported := sortedTexts ((specs.filter (·.fragment.isSome)).map (·.groupId))
  groupsNotReported := sortedTexts ((specs.filter (·.fragment.isNone)).map (·.groupId))

structure Document where
  outcome : BatchOutcome
  executions : List Execution
  diagnostics : List Problem

/-- `_compose` -/
def compose (specs : List GroupSpec) (liveDir : Option String) : Document :=
  let executions := (specs.flatMap fun spec => (mergeGroup spec liveDir).1).mergeSort fun a b =>
    compareExecutions a b != .gt
  { outcome := batchOutcome executions specs
    executions := executions
    diagnostics := specs.flatMap fun spec => (mergeGroup spec liveDir).2 }

/-! ## Ordinary directories -/

/-- What assembly reads of an ordinary result directory. -/
structure ResultDirectory where
  definitions : Finset String
  status : String → Option String
  definitionSha : String → Option String
  hasLog : String → Bool
  derived : String → Option (Json × String)

/-- The state that a status file names: never `unknown`. -/
def readState (text : String) : LedgerState :=
  let value := text.trimAscii.toString.toLower
  (ledgerStates.dropLast.find? fun state => state.text == value).getD .unknown

/-- `_ordinary_ledger` -/
def ordinaryLedger (dir : ResultDirectory) (relative : String) (fragment : Fragment) :
    List LedgerItem :=
  let parsed := (fragment.executions.filterMap Entry.id?).toFinset
  (dir.definitions ∪ parsed).sort.map fun identifier =>
    let log := "executions/" ++ identifier ++ ".log"
    { executionId := some identifier
      definition := dir.definitionSha identifier
      ledgerState := ((dir.status identifier).map readState).getD .unknown
      log := if dir.hasLog identifier then some (posixJoin relative log) else none
      derived := dir.derived identifier }

/-- `_ordinary_spec` -/
def ordinarySpec (dir : ResultDirectory) (fragment : Fragment) (groupId relative : String) :
    GroupSpec where
  groupId := groupId
  kind := fragment.kind
  directory := relative
  ledger := if dir.definitions ≠ ∅ then ordinaryLedger dir relative fragment else []
  fragment := some fragment
  selected := true
  reportFailed := false
  hasLedger := dir.definitions ≠ ∅

end StorageScaleTest.Results
