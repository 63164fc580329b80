import StorageScaleTest.Results.Assembly
import Mathlib.Algebra.GroupWithZero.Nat

/-!
# No evidence is lost

Each execution of a document has one ledger item and at most one entry, and the counts of the
batch add up.
-/

namespace StorageScaleTest.Results

open Samples

variable (spec : GroupSpec) (liveDir : Option String)

/-! ## Where executions come from -/

def mergeSources : List (LedgerItem × Option Entry) :=
  spec.ledger.map (fun item => (item, item.executionId.bind (byId spec).get)) ++
    if spec.hasLedger then [] else (unmatched spec).map fun entry => (unledgered, some entry)

theorem mergeGroup_executions : (mergeGroup spec liveDir).1 =
    (mergeSources spec).map fun source => mergeExecution spec liveDir source.1 source.2 := by
  rw [mergeGroup, mergeSources]
  cases spec.hasLedger with
  | true => simp [Function.comp_def]
  | false => simp [Function.comp_def]

theorem mergeGroup_diagnostics : (mergeGroup spec liveDir).2 =
    ((spec.fragment.map (·.diagnostics)).getD []).map (diagnostic spec) ++
      if spec.hasLedger then (unmatched spec).map (unmatchedDiagnostic spec)
      else [noLedgerDiagnostic spec] := by
  rw [mergeGroup]
  cases spec.hasLedger with
  | true => simp
  | false => simp

def lastNamed (id : String) : Option Entry :=
  ((entries spec).filter fun entry => entry.id? = some id).getLast?

theorem get_byId (id : String) : (byId spec).get id = lastNamed spec id := by
  have named : ∀ list : List Entry,
      (list.filterMap fun entry => entry.id?.map (·, entry)).filter (·.1 = id) =
        (list.filter fun entry => entry.id? = some id).map (id, ·) := by
    intro list
    induction list with
    | nil => rfl
    | cons entry list ih =>
        cases name : entry.id? with
        | none => simpa [List.filterMap_cons, List.filter_cons, name] using ih
        | some other =>
            by_cases same : other = id
            · simp [name, same, ih]
            · simpa [List.filter_cons, name, same] using ih
  rw [byId, Dict.get_setAll, named, List.getLast?_map, Option.map_map, lastNamed]
  simp

theorem id?_of_byId {spec : GroupSpec} {entry : Entry} {id : String}
    (found : (byId spec).get id = some entry) : entry.id? = some id := by
  rw [get_byId] at found
  exact of_decide_eq_true (List.mem_filter.mp (List.mem_of_getLast? found)).2

theorem mergeSources_ledger {spec : GroupSpec} {k : Nat} {item : LedgerItem}
    (held : spec.ledger[k]? = some item) :
    (mergeSources spec)[k]? = some (item, item.executionId.bind (lastNamed spec)) := by
  have inside : k < spec.ledger.length := (List.getElem?_eq_some_iff.mp held).1
  rw [mergeSources, List.getElem?_append_left (by simpa using inside), List.getElem?_map, held,
    Option.map_some, funext (get_byId spec)]

theorem index_unique {α : Type} [BEq α] [LawfulBEq α] {items : List α} {a : α} {i j : Nat}
    (once : items.count a = 1) (first : items[i]? = some a) (second : items[j]? = some a) :
    i = j := by
  have apart : ∀ i j : Nat, items[i]? = some a → items[j]? = some a → ¬i < j := by
    intro i j first second before
    have head : a ∈ items.take (i + 1) := by
      apply List.mem_of_getElem? (i := i)
      rw [List.getElem?_take_of_lt (Nat.lt_succ_self i), first]
    have tail : a ∈ items.drop (i + 1) := by
      apply List.mem_of_getElem? (i := j - (i + 1))
      rw [List.getElem?_drop, Nat.add_sub_cancel' before, second]
    have both : (items.take (i + 1) ++ items.drop (i + 1)).count a =
        (items.take (i + 1)).count a + (items.drop (i + 1)).count a := List.count_append
    rw [List.take_append_drop, once] at both
    have headCount := List.count_pos_iff.mpr head
    have tailCount := List.count_pos_iff.mpr tail
    omega
  have notBefore := apart i j first second
  have notAfter := apart j i second first
  omega

/-- The last entry with an ID that the ledger has once is merged once. -/
theorem merged_once {spec : GroupSpec} {entry : Entry} {id : String}
    (last : lastNamed spec id = some entry)
    (committed : (spec.ledger.map (·.executionId)).count (some id) = 1) :
    ∃! k : Nat, ∃ item, (mergeSources spec)[k]? = some (item, some entry) := by
  have named : entry.id? = some id := id?_of_byId ((get_byId spec id).trans last)
  have place : ∀ (k : Nat) item, (mergeSources spec)[k]? = some (item, some entry) →
      (spec.ledger.map (·.executionId))[k]? = some (some id) := by
    intro k item found
    rw [mergeSources] at found
    by_cases inside : k < spec.ledger.length
    · rw [List.getElem?_append_left (by simpa using inside), List.getElem?_map] at found
      obtain ⟨source, held, same⟩ := Option.map_eq_some_iff.mp found
      rw [Prod.mk.injEq] at same
      obtain ⟨other, listed, matched⟩ := Option.bind_eq_some_iff.mp same.2
      have otherNamed := id?_of_byId matched
      rw [named] at otherNamed
      cases otherNamed
      rw [List.getElem?_map, held, Option.map_some, listed]
    · rw [List.getElem?_append_right (by simpa using inside)] at found
      have tail := List.mem_of_getElem? found
      split at tail
      · cases tail
      · obtain ⟨other, unnamed, same⟩ := List.mem_map.mp tail
        cases same
        have none := (List.mem_filter.mp unnamed).2
        rw [named] at none
        cases none
  have listed : some id ∈ spec.ledger.map (·.executionId) := by
    rw [← List.count_pos_iff, committed]
    exact Nat.one_pos
  obtain ⟨k, held⟩ := List.mem_iff_getElem?.mp listed
  refine ⟨k, ?_, ?_⟩
  · rw [List.getElem?_map] at held
    obtain ⟨item, found, itemNamed⟩ := Option.map_eq_some_iff.mp held
    refine ⟨item, ?_⟩
    rw [mergeSources_ledger found, itemNamed, Option.bind_some, last]
  · rintro other ⟨item, found⟩
    exact index_unique committed (place other item found) held

/-! ## Known failures -/

def LedgerState.KnownFailure (state : LedgerState) : Prop := state ≠ .success ∧ state ≠ .unknown

theorem mergeExecution_failure {item : LedgerItem} (failure : item.ledgerState.KnownFailure)
    (entry : Option Entry) :
    (mergeExecution spec liveDir item entry).results = none ∧
      (mergeExecution spec liveDir item entry).resultState =
        if entry.isNone ∧ ¬spec.selected then .notReported else .notRun := by
  cases entry with
  | none =>
      refine ⟨rfl, ?_⟩
      simp only [mergeExecution, executionRecord, absentFragment, absentState, Option.isNone_none,
        true_and]
      split
      · rfl
      · rw [if_pos failure.1]
  | some entry =>
      rw [LedgerState.KnownFailure] at failure
      simp only [mergeExecution, if_pos failure, executionRecord, Option.isNone_some,
        Bool.false_eq_true, false_and, if_false, and_self]

/-! ## Counts -/

theorem sum_ledgerStates (states : List LedgerState) :
    (ledgerStates.map fun state => states.count state).sum = states.length := by
  induction states with
  | nil => rfl
  | cons state states ih =>
      rw [List.length_cons, ← ih]
      cases state <;> simp [ledgerStates, List.count_cons] <;> omega

theorem sum_resultStates (states : List ResultState) :
    (resultStates.map fun state => states.count state).sum = states.length := by
  induction states with
  | nil => rfl
  | cons state states ih =>
      rw [List.length_cons, ← ih]
      cases state <;> simp [resultStates, List.count_cons] <;> omega

/-! ## Ordinary directories -/

theorem mem_ordinaryLedger {dir : ResultDirectory} {relative : String} {fragment : Fragment}
    {id : String} :
    some id ∈ (ordinaryLedger dir relative fragment).map (·.executionId) ↔
      id ∈ dir.definitions ∨ ∃ entry ∈ fragment.executions, entry.id? = some id := by
  simp [ordinaryLedger]

theorem ordinaryLedger_nodup (dir : ResultDirectory) (relative : String) (fragment : Fragment) :
    ((ordinaryLedger dir relative fragment).map (·.executionId)).Nodup := by
  rw [ordinaryLedger, List.map_map]
  exact (Finset.sort_nodup _ _).map (Option.some_injective String)

/-! ## The document -/

theorem mergeSources_items : (mergeSources spec).map (·.1) =
    spec.ledger ++ if spec.hasLedger then [] else (unmatched spec).map fun _ => unledgered := by
  rw [mergeSources, List.map_append, List.map_map]
  cases spec.hasLedger with
  | true => simp [Function.comp_def]
  | false => simp [Function.comp_def]

theorem mergeSources_unnamed :
    ((mergeSources spec).filter fun source => source.2.any fun entry => entry.id?.isNone) =
      if spec.hasLedger then [] else (unmatched spec).map fun entry => (unledgered, some entry) := by
  have ledgerPart : (spec.ledger.map fun item =>
      (item, item.executionId.bind (byId spec).get)).filter (fun source =>
        source.2.any fun entry => entry.id?.isNone) = [] := by
    rw [List.filter_eq_nil_iff]
    intro source listed unnamed
    obtain ⟨item, _, same⟩ := List.mem_map.mp listed
    cases same
    obtain ⟨entry, found, none⟩ := (Option.any_eq_true _ _).mp unnamed
    obtain ⟨id, _, matched⟩ := Option.bind_eq_some_iff.mp found
    rw [id?_of_byId matched] at none
    cases none
  rw [mergeSources, List.filter_append, ledgerPart, List.nil_append]
  cases spec.hasLedger with
  | true => rfl
  | false =>
      apply List.filter_eq_self.mpr
      intro source listed
      obtain ⟨entry, unnamed, same⟩ := List.mem_map.mp listed
      cases same
      exact (List.mem_filter.mp unnamed).2

theorem compose_executions (specs : List GroupSpec) :
    (compose specs liveDir).executions.Perm (specs.flatMap fun spec =>
      (mergeSources spec).map fun source => mergeExecution spec liveDir source.1 source.2) := by
  simp only [compose, mergeGroup_executions]
  exact List.mergeSort_perm _ _

theorem complete_iff (executions : List Execution) (specs : List GroupSpec) :
    (batchOutcome executions specs).complete = true ↔ executions ≠ [] ∧
      ∀ execution ∈ executions,
        execution.ledgerState = .success ∧ execution.resultState = .complete := by
  simp [batchOutcome]

section

def entryNamed (id : String) : Entry where
  executionId := some id
  resultState := .complete
  problems := []
  coordinates := none
  coordinateKey := none
  dataset := none
  producerVersion := none
  resultFiles := [⟨"io/" ++ id, 1, "00"⟩]
  results := some (.object [])

def groupOf (state : LedgerState) (names : List String) : GroupSpec where
  groupId := "0001"
  kind := .io
  directory := "0001"
  ledger := [⟨some "0001", none, state, none, none⟩]
  fragment := if names.isEmpty then none else some ⟨.io, names.map entryNamed, []⟩
  selected := ¬names.isEmpty
  reportFailed := false
  hasLedger := true

end

end StorageScaleTest.Results
