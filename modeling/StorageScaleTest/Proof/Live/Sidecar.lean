import StorageScaleTest.Proof.Live.Detail

/-!
# The lines of the sidecar

Every interval of a stream gets one line, with the rate of each client that has a single row in it
and the growth of each client's DoneBytes since its last sample.
-/

namespace StorageScaleTest.Live

open Samples

variable {Client : Type} [DecidableEq Client] {domain : DomainAnalysis Client}
  {ordered : List Client}

namespace SidecarState

/-! ## Emitting -/

omit [DecidableEq Client] in
theorem emitIntervals_succ (count : Nat) (state : SidecarState Client) :
    emitIntervals ordered (count + 1) state =
      emitIntervals ordered 1 (emitIntervals ordered count state) := by
  induction count generalizing state with
  | zero => rfl
  | succ count ih => exact ih _

omit [DecidableEq Client] in
theorem pending_emitIntervals (count : Nat) (state : SidecarState Client) :
    (emitIntervals ordered count state).pending = state.pending + count := by
  induction count generalizing state with
  | zero => rfl
  | succ count ih =>
      rw [emitIntervals, ih]
      dsimp only
      omega

omit [DecidableEq Client] in
theorem previous_emitIntervals (count : Nat) (state : SidecarState Client) :
    (emitIntervals ordered count state).previous = state.previous := by
  induction count generalizing state with
  | zero => rfl
  | succ count ih => rw [emitIntervals, ih]

omit [DecidableEq Client] in
theorem previous_emitUntil (n : Nat) (state : SidecarState Client) :
    (state.emitUntil ordered n).previous = state.previous := previous_emitIntervals _ _

omit [DecidableEq Client] in
theorem pending_emitUntil {state : SidecarState Client} {n : Nat} (le : state.pending ≤ n) :
    (state.emitUntil ordered n).pending = n := by
  rw [emitUntil, pending_emitIntervals]
  omega

omit [DecidableEq Client] in
theorem emitUntil_self {state : SidecarState Client} {n : Nat} (here : state.pending = n) :
    state.emitUntil ordered n = state := by
  rw [emitUntil, here, Nat.sub_self]
  rfl

omit [DecidableEq Client] in
theorem emitUntil_succ {state : SidecarState Client} {n : Nat} (le : state.pending ≤ n) :
    state.emitUntil ordered (n + 1) = emitIntervals ordered 1 (state.emitUntil ordered n) := by
  rw [emitUntil, Nat.succ_sub le, emitIntervals_succ, emitUntil]

/-! ## The rows of one interval -/

/-- A later state differs from an earlier one in the columns of the pending interval only, by
the rows of some clients. -/
structure Filled (ordered : List Client) (n : Nat) (runtimeMs : ℤ) (rows : List (Row Client))
    (state after : SidecarState Client) : Prop where
  pending : after.pending ≤ n
  lines : (after.emitUntil ordered n).lines = (state.emitUntil ordered n).lines
  lastDone : (after.emitUntil ordered n).samples.lastDone =
    (state.emitUntil ordered n).samples.lastDone
  done : ∀ client ∈ ordered, (after.emitUntil ordered n).samples.done client =
    (doneIn rows client).getLast?.or ((state.emitUntil ordered n).samples.done client)
  rates : ∀ client ∈ ordered, (after.emitUntil ordered n).samples.rates client =
    match doneIn rows client with
    | [] => (state.emitUntil ordered n).samples.rates client
    | [doneBytes] => bytesPerS (deriveRate (state.previous.get client) doneBytes runtimeMs n)
    | _ => none
  previous : ∀ client ∈ ordered, after.previous.get client =
    ((doneIn rows client).getLast?.map fun doneBytes => ⟨doneBytes, runtimeMs, n⟩).or
      (state.previous.get client)

theorem Filled.refl {n : Nat} {runtimeMs : ℤ} {state : SidecarState Client}
    (le : state.pending ≤ n) : Filled ordered n runtimeMs [] state state :=
  ⟨le, rfl, rfl, fun _ _ => rfl, fun _ _ => rfl, fun _ _ => rfl⟩

theorem Filled.skip {n : Nat} {runtimeMs : ℤ} {rows : List (Row Client)} {row : Row Client}
    {state after : SidecarState Client} (filled : Filled ordered n runtimeMs rows state after)
    (other : ∀ client ∈ ordered, row.doneOf client = none) :
    Filled ordered n runtimeMs (rows ++ [row]) state after := by
  have same : ∀ client ∈ ordered, doneIn (rows ++ [row]) client = doneIn rows client := by
    intro client member
    rw [doneIn_append, other client member, Option.toList_none, List.append_nil]
  refine ⟨filled.pending, filled.lines, filled.lastDone, ?_, ?_, ?_⟩
  · intro client member
    rw [same client member]
    exact filled.done client member
  · intro client member
    rw [same client member]
    exact filled.rates client member
  · intro client member
    rw [same client member]
    exact filled.previous client member

theorem Filled.of_here {n : Nat} {runtimeMs : ℤ} {rows : List (Row Client)}
    {state after : SidecarState Client} (here : after.pending = n)
    (lines : after.lines = (state.emitUntil ordered n).lines)
    (lastDone : after.samples.lastDone = (state.emitUntil ordered n).samples.lastDone)
    (done : ∀ client ∈ ordered, after.samples.done client =
      (doneIn rows client).getLast?.or ((state.emitUntil ordered n).samples.done client))
    (rates : ∀ client ∈ ordered, after.samples.rates client =
      match doneIn rows client with
      | [] => (state.emitUntil ordered n).samples.rates client
      | [doneBytes] => bytesPerS (deriveRate (state.previous.get client) doneBytes runtimeMs n)
      | _ => none)
    (previous : ∀ client ∈ ordered, after.previous.get client =
      ((doneIn rows client).getLast?.map fun doneBytes => ⟨doneBytes, runtimeMs, n⟩).or
        (state.previous.get client)) :
    Filled ordered n runtimeMs rows state after := by
  have itself : after.emitUntil ordered n = after := emitUntil_self here
  constructor
  · exact here.le
  · rwa [itself]
  · rwa [itself]
  · rwa [itself]
  · rwa [itself]
  · exact previous

theorem Filled.row {n : Nat} {runtimeMs : ℤ} {rows : List (Row Client)} {row : Row Client}
    {state after : SidecarState Client} (filled : Filled ordered n runtimeMs rows state after)
    (same : row.runtimeMs = runtimeMs) (found : domain.runtimeToInterval.get runtimeMs = some n) :
    Filled ordered n runtimeMs (rows ++ [row]) state (sampleRow domain ordered after row) := by
  unfold sampleRow
  split
  · next none =>
      apply filled.skip
      intro client _
      rw [Row.doneOf, none]
  · next named doneBytes held =>
      have doneOf : ∀ client, row.doneOf client = if named = client then some doneBytes else none := by
        intro client
        rw [Row.doneOf, held]
      split
      · next unknown =>
          apply filled.skip
          intro client member
          rw [doneOf, if_neg]
          rintro rfl
          exact unknown member
      · rw [same, found]
        dsimp only
        rw [if_neg (not_lt.mpr filled.pending)]
        have pending : (after.emitUntil ordered n).pending = n := pending_emitUntil filled.pending
        have previous : (after.emitUntil ordered n).previous = after.previous :=
          previous_emitUntil n after
        apply Filled.of_here
        · exact pending
        · exact filled.lines
        · exact filled.lastDone
        · intro client member
          rw [doneIn_append, doneOf]
          dsimp only
          by_cases equal : named = client
          · subst equal
            simp
          · rw [Function.update_of_ne (Ne.symm equal), filled.done client member, if_neg equal]
            simp
        · intro client member
          rw [doneIn_append, doneOf]
          dsimp only
          by_cases equal : named = client
          · subst equal
            rw [Function.update_self, if_pos rfl, previous, filled.previous named member]
            cases before : doneIn rows named with
            | nil => rfl
            | cons first rest =>
                obtain ⟨v, last⟩ : ∃ v, (first :: rest).getLast? = some v :=
                  ⟨_, List.getLast?_eq_some_getLast (by simp)⟩
                cases rest <;> simp [last, deriveRate_same, bytesPerS]
          · rw [Function.update_of_ne (Ne.symm equal), filled.rates client member, if_neg equal,
              Option.toList_none, List.append_nil]
        · intro client member
          dsimp only
          rw [doneIn_append, doneOf, previous, Dict.get_set]
          by_cases equal : named = client
          · subst equal
            simp
          · rw [if_neg (Ne.symm equal), filled.previous client member, if_neg equal]
            simp

theorem filled_rows {n : Nat} {runtimeMs : ℤ} {rows : List (Row Client)}
    (same : ∀ row ∈ rows, row.runtimeMs = runtimeMs)
    (found : domain.runtimeToInterval.get runtimeMs = some n) {state : SidecarState Client}
    (le : state.pending ≤ n) :
    Filled ordered n runtimeMs rows state (rows.foldl (sampleRow domain ordered) state) := by
  induction rows using List.reverseRecOn with
  | nil => exact .refl le
  | append_singleton rows row ih =>
      rw [List.foldl_append]
      exact (ih fun row member => same row (List.mem_append_left _ member)).row
        (same row (by simp)) found

end SidecarState

/-! ## The lines of a stream -/

/-- The rate that the sidecar has of a client: none where the client has several rows. -/
def writtenRate (intervals : List (Interval Client)) (client : Client) (i : Nat) : Option ℤ :=
  match doneAt intervals client i with
  | [doneBytes] => bytesPerS (deriveRate (priorAt intervals client i) doneBytes
      ((intervals.map (·.runtimeMs)).getD i 0) i)
  | _ => none

def writtenDelta (intervals : List (Interval Client)) (client : Client) (i : Nat) : Option ℤ :=
  (sampleIn intervals client i).map fun doneBytes =>
    doneBytes - ((lastBefore (sampleIn intervals client) i).map (·.2)).getD 0

def writtenLine (intervals : List (Interval Client)) (ordered : List Client) (i : Nat) :
    SidecarLine :=
  ⟨i, ordered.map (writtenRate intervals · i), ordered.map (writtenDelta intervals · i)⟩

structure Written (s : Stream Client) (ordered : List Client) (n : Nat)
    (state : SidecarState Client) : Prop where
  pending : state.pending ≤ n
  lines : (state.emitUntil ordered n).lines =
    (List.range n).map (writtenLine s.intervals ordered)
  lastDone : ∀ client ∈ ordered, (state.emitUntil ordered n).samples.lastDone client =
    (lastBefore (sampleIn s.intervals client) n).map (·.2)
  done : ∀ client ∈ ordered, (state.emitUntil ordered n).samples.done client = none
  rates : ∀ client ∈ ordered, (state.emitUntil ordered n).samples.rates client = none
  previous : ∀ client ∈ ordered, state.previous.get client = priorAt s.intervals client n

theorem Written.next {s : Stream Client} {front : List (Interval Client)}
    {interval : Interval Client} {n : Nat} {state : SidecarState Client}
    (written : Written s ordered n state) (next : Next s front interval n) :
    Written s ordered (n + 1) (interval.rows.foldl
      (SidecarState.sampleRow (flushed s.intervals).analysis ordered) state) := by
  have filled : SidecarState.Filled ordered n interval.runtimeMs interval.rows state
      (interval.rows.foldl (SidecarState.sampleRow (flushed s.intervals).analysis ordered) state) :=
    SidecarState.filled_rows interval.same next.found written.pending
  generalize interval.rows.foldl
    (SidecarState.sampleRow (flushed s.intervals).analysis ordered) state = after at filled ⊢
  have emitted : after.emitUntil ordered (n + 1) =
      SidecarState.emitIntervals ordered 1 (after.emitUntil ordered n) :=
    SidecarState.emitUntil_succ filled.pending
  have done : ∀ client ∈ ordered, (after.emitUntil ordered n).samples.done client =
      sampleIn s.intervals client n := by
    intro client member
    rw [filled.done client member, written.done client member, Option.or_none, sampleIn_eq,
      next.done]
  have rates : ∀ client ∈ ordered, (after.emitUntil ordered n).samples.rates client =
      writtenRate s.intervals client n := by
    intro client member
    rw [filled.rates client member, written.rates client member, written.previous client member,
      writtenRate, next.done, next.runtime]
    cases doneIn interval.rows client with
    | nil => rfl
    | cons first rest => cases rest <;> rfl
  have lastDone : ∀ client ∈ ordered, (after.emitUntil ordered n).samples.lastDone client =
      (lastBefore (sampleIn s.intervals client) n).map (·.2) := by
    intro client member
    rw [filled.lastDone, written.lastDone client member]
  have place : (after.emitUntil ordered n).pending = n :=
    SidecarState.pending_emitUntil filled.pending
  constructor
  · exact Nat.le_succ_of_le filled.pending
  · rw [emitted, List.range_succ, List.map_append, List.map_singleton, ← written.lines,
      ← filled.lines]
    simp only [SidecarState.emitIntervals, IntervalSamples.emit, place, writtenLine]
    congr 3
    · exact List.map_congr_left rates
    · apply List.map_congr_left
      intro client member
      rw [IntervalSamples.delta, done client member, lastDone client member, writtenDelta]
  · intro client member
    rw [emitted, lastBefore]
    simp only [SidecarState.emitIntervals, IntervalSamples.emit, done client member,
      lastDone client member]
    cases sampleIn s.intervals client n <;> rfl
  · intro client _
    rw [emitted]
    rfl
  · intro client _
    rw [emitted]
    rfl
  · intro client member
    rw [filled.previous client member, written.previous client member, priorAt_succ, sampleIn_eq,
      next.done, next.runtime]

theorem written_stream (s : Stream Client) (ordered : List Client)
    {front rest : List (Interval Client)} (split : s.intervals = front ++ rest) :
    Written s ordered front.length ((front.flatMap (·.rows)).foldl
      (SidecarState.sampleRow (flushed s.intervals).analysis ordered) .new) := by
  induction front using List.reverseRecOn generalizing rest with
  | nil => exact ⟨le_rfl, rfl, fun _ _ => rfl, fun _ _ => rfl, fun _ _ => rfl, fun _ _ => rfl⟩
  | append_singleton front interval ih =>
      have earlier : s.intervals = front ++ ([interval] ++ rest) := by
        rw [split, List.append_assoc]
      rw [List.flatMap_append, List.flatMap_singleton, List.foldl_append, List.length_append,
        List.length_singleton]
      exact (ih earlier).next (s.next split)

theorem iterIntervalSamples_rows (s : Stream Client) (ordered : List Client) :
    iterIntervalSamples (analyzeLiveCsv s.rows) ordered s.rows =
      (List.range s.intervals.length).map (writtenLine s.intervals ordered) := by
  have written := written_stream s ordered (List.append_nil s.intervals).symm
  rw [iterIntervalSamples, analyzeLiveCsv_rows, length_intervalTimes]
  exact written.lines

theorem collectSelected_rows (s : Stream Client) {selected : List Client} {client : Client}
    (chosen : client ∈ selected) :
    (collectSelectedClientDetail (analyzeLiveCsv s.rows) selected s.rows).ratesByClient client =
      (List.range s.intervals.length).map (firstRate s.intervals client) := by
  obtain ⟨rates, _⟩ := selected_stream s chosen (List.append_nil s.intervals).symm
  rw [collectSelectedClientDetail, analyzeLiveCsv_rows, length_intervalTimes]
  apply List.map_congr_left
  intro i member
  rw [List.mem_range] at member
  exact (rates i).trans (if_pos member)

end StorageScaleTest.Live
