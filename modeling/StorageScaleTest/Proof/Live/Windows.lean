import StorageScaleTest.Proof.Live.Steady
import StorageScaleTest.Proof.Live.Median
import Mathlib.Algebra.Order.BigOperators.Group.Multiset
import Mathlib.Tactic.Positivity

/-!
# Recorded windows

The entries of the window series, their bounds, and the ratios that each client's statistics count.
-/

namespace StorageScaleTest.Live

open Samples

variable {Client : Type} [DecidableEq Client] {settings : SteadySettings} {runtimes : List ℤ}
  {snapshots : Nat → Snapshot Client}

/-! ## Jain's index -/

theorem sum_sq_sub (values : Multiset ℚ) (c : ℚ) :
    (values.map fun value => (value - c) ^ 2).sum =
      (values.map (· ^ 2)).sum - 2 * c * values.sum + values.card * c ^ 2 := by
  induction values using Multiset.induction_on with
  | empty => simp
  | cons value values ih =>
      simp only [Multiset.map_cons, Multiset.sum_cons, Multiset.card_cons, ih]
      push_cast
      ring

theorem sum_mul_sum_le (values : Multiset ℚ) :
    values.sum * values.sum ≤ values.card * (values.map (· ^ 2)).sum := by
  rcases Multiset.empty_or_exists_mem values with rfl | ⟨value, member⟩
  · simp
  · have positive : (0 : ℚ) < values.card := by
      exact_mod_cast Multiset.card_pos_iff_exists_mem.mpr ⟨value, member⟩
    have spread : 0 ≤ (values.map fun value => (value - values.sum / values.card) ^ 2).sum := by
      apply Multiset.sum_nonneg
      intro square inMap
      obtain ⟨value, _, rfl⟩ := Multiset.mem_map.mp inMap
      positivity
    rw [sum_sq_sub] at spread
    have scaled := mul_nonneg positive.le spread
    have expand : (values.card : ℚ) * ((values.map (· ^ 2)).sum -
        2 * (values.sum / values.card) * values.sum +
          values.card * (values.sum / values.card) ^ 2) =
        values.card * (values.map (· ^ 2)).sum - values.sum * values.sum := by
      field_simp
      ring
    rw [expand] at scaled
    linarith

theorem jain_mem {values : Multiset ℚ} (nonneg : ∀ value ∈ values, 0 ≤ value)
    (squares : 0 < (values.map (· ^ 2)).sum) :
    0 < values.sum * values.sum / (values.card * (values.map (· ^ 2)).sum) ∧
      values.sum * values.sum / (values.card * (values.map (· ^ 2)).sum) ≤ 1 := by
  have count : (0 : ℚ) < values.card := by
    rcases Multiset.empty_or_exists_mem values with rfl | ⟨value, member⟩
    · simp at squares
    · exact_mod_cast Multiset.card_pos_iff_exists_mem.mpr ⟨value, member⟩
  have total : values.sum ≠ 0 := by
    intro zero
    have zeros := Multiset.all_zero_of_le_zero_le_of_sum_eq_zero nonneg zero
    have none : (values.map (· ^ 2)).sum = 0 := by
      apply Multiset.sum_eq_zero
      intro square member
      obtain ⟨value, held, rfl⟩ := Multiset.mem_map.mp member
      rw [zeros value held]
      norm_num
    exact squares.ne' none
  constructor
  · have := mul_self_pos.mpr total
    positivity
  · rw [div_le_one (by positivity)]
    exact sum_mul_sum_le values

/-! ## The median -/

theorem head_le_median {ordered : List ℚ} (sorted_ : ordered.Pairwise (· ≤ ·)) :
    ordered.headD 0 ≤ percentileFromSorted ordered 50 := by
  have first : ∀ k (inside : k < ordered.length), ordered.headD 0 ≤ ordered.getD k 0 := by
    intro k inside
    rw [List.getD_eq_getElem?_getD, List.getElem?_eq_getElem inside, Option.getD_some]
    cases ordered with
    | nil => cases inside
    | cons head rest =>
        rcases List.mem_cons.mp (List.getElem_mem inside) with same | later
        · rw [same]
          rfl
        · exact (List.pairwise_cons.mp sorted_).1 _ later
  rcases Nat.even_or_odd' ordered.length with ⟨k, even | odd⟩
  · cases k with
    | zero =>
        obtain rfl := List.length_eq_zero_iff.mp even
        exact le_rfl
    | succ k =>
        rw [percentileFromSorted_even (show ordered.length = 2 * k + 2 by omega)]
        have low := first k (by omega)
        have high := first (k + 1) (by omega)
        linarith
  · rw [percentileFromSorted_odd odd]
    exact first k (by omega)

/-! ## The bounds of an entry -/

theorem windowDeltas_nonneg {snapshot previous : Snapshot Client} {resets : Dict Client ℤ}
    {begin_ : ℤ} {client : Client} {bytes : ℤ}
    (found : (windowDeltas snapshot previous resets begin_).get client = some bytes) :
    0 ≤ bytes := by
  obtain ⟨doneBytes, _, found⟩ := Option.bind_eq_some_iff.mp found
  simp only at found
  split at found
  · cases found
  · split at found
    · cases found
    · split at found
      · cases found
      · cases found
        omega

structure WindowPoint.Bounded (point : WindowPoint) : Prop where
  jain : ∀ index, point.jain = some index → 0 < index ∧ index ≤ 1
  minOverMedian : ∀ share, point.minOverMedian = some share → 0 ≤ share ∧ share ≤ 1
  median : ∀ median, point.medianBytes = some median → 0 ≤ median

omit [DecidableEq Client] in
theorem bounded_windowPoint {deltas : Dict Client ℤ}
    (nonneg : ∀ client bytes, deltas.get client = some bytes → 0 ≤ bytes) (length interval : Nat) :
    (windowPoint settings runtimes length interval deltas).Bounded := by
  let values := deltas.values.map fun bytes : ℤ => (bytes : ℚ)
  have valuesNonneg : ∀ value ∈ values, 0 ≤ value := by
    intro value member
    obtain ⟨bytes, held, rfl⟩ := Multiset.mem_map.mp member
    obtain ⟨client, found⟩ := Dict.mem_values.mp held
    exact_mod_cast nonneg client bytes found
  have headNonneg : 0 ≤ values.sort.headD 0 := by
    cases ordered : values.sort with
    | nil => exact le_rfl
    | cons head rest =>
        apply valuesNonneg
        rw [← Multiset.mem_sort (r := (· ≤ ·)), ordered]
        exact List.mem_cons_self
  have headLe := head_le_median (Multiset.pairwise_sort values (· ≤ ·))
  constructor
  · intro index found
    have held : (if 2 ≤ values.card ∧ 0 < (values.map (· ^ 2)).sum then
        some (values.sum * values.sum / (values.card * (values.map (· ^ 2)).sum)) else none) =
          some index := found
    split at held
    · rename_i positive
      cases held
      exact jain_mem valuesNonneg positive.2
    · cases held
  · intro share found
    simp only [windowPoint] at found
    split at found
    · cases found
    · rename_i median held
      split at held
      · cases held
      · cases held
        split at found
        · rename_i positive
          cases found
          exact ⟨div_nonneg headNonneg positive.2.le, (div_le_one positive.2).mpr headLe⟩
        · cases found
  · intro median found
    simp only [windowPoint] at found
    split at found
    · cases found
    · cases found
      exact headNonneg.trans headLe

/-! ## The series -/

def seriesAfter (settings : SteadySettings) (runtimes : List ℤ)
    (snapshots : Nat → Snapshot Client) (label : WindowLabel) (n : Nat) : List WindowPoint :=
  ((List.range n).filter (settings.lengthIntervals label ≤ ·)).map
    (pointAt settings runtimes snapshots label)

theorem seriesAfter_succ (label : WindowLabel) (n : Nat) :
    seriesAfter settings runtimes snapshots label (n + 1) =
      seriesAfter settings runtimes snapshots label n ++
        (if settings.lengthIntervals label ≤ n then [pointAt settings runtimes snapshots label n]
        else []) := by
  rw [seriesAfter, List.range_succ, List.filter_append, List.map_append, seriesAfter]
  by_cases inside : settings.lengthIntervals label ≤ n
  · rw [if_pos inside, List.filter_cons_of_pos (by simpa using inside)]
    rfl
  · rw [if_neg inside, List.filter_cons_of_neg (by simpa using inside)]
    rfl

theorem series_noted (t : Nat) (label other : WindowLabel) (pass : SteadyPass Client) :
    (noted settings runtimes snapshots t label pass).series other =
      if other = label then pass.series other ++
        (if settings.lengthIntervals label ≤ t then [pointAt settings runtimes snapshots label t]
        else [])
      else pass.series other := by
  unfold noted
  by_cases inside : settings.lengthIntervals label ≤ t
  · rw [if_pos inside, if_pos inside]
    by_cases same : other = label
    · subst same
      rw [if_pos rfl]
      exact Function.update_self _ _ _
    · rw [if_neg same]
      exact Function.update_of_ne same _ _
  · rw [if_neg inside, if_neg inside, List.append_nil, ite_self]

omit [DecidableEq Client] in
theorem series_captureWindow (pass : SteadyPass Client) (completed : ℤ) :
    (pass.captureWindow settings completed).series = pass.series := by
  unfold SteadyPass.captureWindow
  split <;> rfl

theorem series_passAfter (clients : Dict Client ClientSummary) (n : Nat) (label : WindowLabel) :
    (passAfter settings clients runtimes snapshots n).series label =
      seriesAfter settings runtimes snapshots label n := by
  induction n with
  | zero => rfl
  | succ n ih =>
      rw [passAfter, notedAll, series_noted, series_noted, series_noted, series_captureWindow,
        seriesAfter_succ, ← ih]
      cases label <;> rfl

/-! ## The statistics of a client -/

def ratioAt (settings : SteadySettings) (runtimes : List ℤ) (snapshots : Nat → Snapshot Client)
    (label : WindowLabel) (client : Client) (t : Nat) : Option ℚ :=
  match (windowAt snapshots (settings.lengthIntervals label) t).get client,
    (pointAt settings runtimes snapshots label t).medianBytes with
  | some bytes, some median => if median ≠ 0 then some (bytes / median) else none
  | _, _ => none

def countedRatio (settings : SteadySettings) (runtimes : List ℤ)
    (snapshots : Nat → Snapshot Client) (label : WindowLabel) (client : Client) (t : Nat) :
    Option ℚ :=
  if settings.lengthIntervals label ≤ t ∧ (pointAt settings runtimes snapshots label t).inSteady
  then ratioAt settings runtimes snapshots label client t else none

def countedRatios (settings : SteadySettings) (runtimes : List ℤ)
    (snapshots : Nat → Snapshot Client) (client : Client) (n : Nat) : List ℚ :=
  (List.range n).filterMap (countedRatio settings runtimes snapshots .fiveSeconds client)

theorem countedRatios_succ (client : Client) (n : Nat) :
    countedRatios settings runtimes snapshots client (n + 1) =
      countedRatios settings runtimes snapshots client n ++
        (countedRatio settings runtimes snapshots .fiveSeconds client n).toList := by
  rw [countedRatios, List.range_succ, List.filterMap_append, countedRatios]
  cases here : countedRatio settings runtimes snapshots .fiveSeconds client n with
  | none => simp [here]
  | some ratio => simp [here]

structure Counts (settings : SteadySettings) (stats : ClientSteady) (ratios : List ℚ) : Prop where
  windows : stats.windows5s = ratios.length
  short : stats.short5s = ratios.countP (· < settings.shortBelow)
  slow : stats.slow5s = ratios.countP (· < settings.slowBelow)
  worst : stats.worst5sRatio = ratios.min?

theorem min?_append_singleton (ratios : List ℚ) (ratio : ℚ) : (ratios ++ [ratio]).min? =
    if ratios.min?.all (ratio < ·) then some ratio else ratios.min? := by
  cases ratios with
  | nil => rfl
  | cons first rest =>
      rw [List.cons_append, List.min?_cons', List.min?_cons', List.foldl_append]
      simp only [List.foldl_cons, List.foldl_nil, Option.all_some, decide_eq_true_eq]
      by_cases lower : ratio < rest.foldl min first
      · rw [if_pos lower, min_eq_right lower.le]
      · rw [if_neg lower, min_eq_left (not_lt.mp lower)]

theorem Counts.record_five {stats : ClientSteady} {ratios : List ℚ}
    (counts : Counts settings stats ratios) (endMs : ℤ) (ratio : ℚ) :
    Counts settings (stats.record settings .fiveSeconds endMs ratio) (ratios ++ [ratio]) := by
  constructor
  · simp [ClientSteady.record, counts.windows]
  · simp [ClientSteady.record, counts.short, List.countP_append, List.countP_cons]
  · simp [ClientSteady.record, counts.slow, List.countP_append, List.countP_cons]
  · rw [min?_append_singleton, ← counts.worst]
    rfl

theorem Counts.record_thirty {stats : ClientSteady} {ratios : List ℚ}
    (counts : Counts settings stats ratios) (endMs : ℤ) (ratio : ℚ) :
    Counts settings (stats.record settings .thirtySeconds endMs ratio) ratios :=
  ⟨counts.windows, counts.short, counts.slow, counts.worst⟩

theorem clients_noted_interval (t : Nat) (pass : SteadyPass Client) :
    (noted settings runtimes snapshots t .interval pass).clients = pass.clients := by
  unfold noted
  split
  · simp only [SteadyPass.record]
    split
    · rfl
    · exact if_neg fun recorded => recorded.2.2 rfl
  · rfl

theorem get_clients_noted (t : Nat) {label : WindowLabel} (longer : label ≠ .interval)
    (pass : SteadyPass Client) (client : Client) :
    (noted settings runtimes snapshots t label pass).clients.get client =
      match countedRatio settings runtimes snapshots label client t with
      | none => pass.clients.get client
      | some ratio => some (((pass.clients.get client).getD .new).record settings label
          (pointAt settings runtimes snapshots label t).endMs ratio) := by
  unfold noted countedRatio ratioAt
  by_cases inside : settings.lengthIntervals label ≤ t
  · simp only [inside, if_true, true_and, SteadyPass.record, ← pointAt.eq_1]
    cases (pointAt settings runtimes snapshots label t).medianBytes with
    | none => simp
    | some median =>
        by_cases steady : (pointAt settings runtimes snapshots label t).inSteady = true
        · by_cases zero : median = 0
          · simp only [zero, ne_eq, not_true_eq_false, false_and, and_false, if_false, steady,
              if_true]
            cases (windowAt snapshots (settings.lengthIntervals label) t).get client <;> rfl
          · simp only [steady, zero, longer, ne_eq, not_false_eq_true, and_self, if_true]
            rw [recordRatios, Dict.get_update, Dict.get_filterMap]
            cases (windowAt snapshots (settings.lengthIntervals label) t).get client with
            | none => rfl
            | some bytes => simp only [zero, not_false_eq_true, if_true, Option.bind_some,
                Option.some_or]
        · simp only [steady, false_and, if_false, Bool.false_eq_true]
  · rw [if_neg inside, if_neg fun both => inside both.1]

omit [DecidableEq Client] in
theorem clients_captureWindow (pass : SteadyPass Client) (completed : ℤ) :
    (pass.captureWindow settings completed).clients = pass.clients := by
  unfold SteadyPass.captureWindow
  split <;> rfl

theorem counts_passAfter (clients : Dict Client ClientSummary) (n : Nat) (client : Client) :
    Counts settings
      (((passAfter settings clients runtimes snapshots n).clients.get client).getD .new)
      (countedRatios settings runtimes snapshots client n) := by
  induction n with
  | zero =>
      have start : (((passAfter settings clients runtimes snapshots 0).clients.get client).getD
          .new) = ClientSteady.new := by
        simp only [passAfter, SteadyPass.new, Dict.get_filterMap]
        cases clients.get client <;> rfl
      rw [start]
      exact ⟨rfl, rfl, rfl, rfl⟩
  | succ n ih =>
      rw [passAfter, notedAll, get_clients_noted n (by decide)]
      have five : Counts settings (((noted settings runtimes snapshots n .fiveSeconds
          (noted settings runtimes snapshots n .interval
            (((passAfter settings clients runtimes snapshots n).addSnapshot runtimes n
              (snapshots n)).captureWindow settings n))).clients.get client).getD .new)
          (countedRatios settings runtimes snapshots client (n + 1)) := by
        rw [get_clients_noted n (by decide), clients_noted_interval, clients_captureWindow,
          countedRatios_succ]
        cases countedRatio settings runtimes snapshots .fiveSeconds client n with
        | none =>
            rw [Option.toList_none, List.append_nil]
            exact ih
        | some ratio => exact ih.record_five _ ratio
      cases countedRatio settings runtimes snapshots .thirtySeconds client n with
      | none => exact five
      | some ratio => exact five.record_thirty _ ratio

end StorageScaleTest.Live
