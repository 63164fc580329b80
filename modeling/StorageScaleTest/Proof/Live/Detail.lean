import StorageScaleTest.Proof.Live.Intervals
import StorageScaleTest.Live.Detail

/-!
# The rates of the three passes

The first pass derives one rate from the last row of a client in an interval, the selected detail
keeps the rate of its first row, and the sidecar the rate of its only row.
-/

namespace StorageScaleTest.Live

open Samples

variable {Client : Type} [DecidableEq Client]

/-! ## The rows of a client -/

def Row.doneOf (client : Client) (row : Row Client) : Option ℤ :=
  match row.sample with
  | none => none
  | some (other, doneBytes) => if other = client then some doneBytes else none

def doneIn (rows : List (Row Client)) (client : Client) : List ℤ := rows.filterMap (Row.doneOf client)

theorem doneIn_append (rows : List (Row Client)) (row : Row Client) (client : Client) :
    doneIn (rows ++ [row]) client = doneIn rows client ++ (row.doneOf client).toList := by
  rw [doneIn, List.filterMap_append, doneIn]
  cases held : row.doneOf client <;> simp [held]

theorem get_addRow (buffer : IntervalBuffer Client) (row : Row Client) (client : Client) :
    (buffer.addRow row).clientRows.get client =
      (row.doneOf client).or (buffer.clientRows.get client) := by
  obtain ⟨runtimeMs, iso, kind⟩ := row
  cases kind with
  | total => rfl
  | unranked => rfl
  | client other doneBytes =>
      cases doneBytes with
      | none => rfl
      | some v =>
          simp only [IntervalBuffer.addRow, Dict.get_set, Row.doneOf, Row.sample]
          by_cases same : client = other
          · simp [same]
          · simp [same, Ne.symm same]

theorem get_foldl_addRow (rows : List (Row Client)) (buffer : IntervalBuffer Client)
    (client : Client) : (rows.foldl .addRow buffer).clientRows.get client =
      (doneIn rows client).getLast?.or (buffer.clientRows.get client) := by
  induction rows using List.reverseRecOn with
  | nil => rfl
  | append_singleton rows row ih =>
      rw [List.foldl_append, List.foldl_cons, List.foldl_nil, get_addRow, ih, doneIn_append]
      cases row.doneOf client with
      | none => simp
      | some v => simp

theorem Interval.get_snapshot (interval : Interval Client) (client : Client) :
    interval.snapshot.get client = (doneIn interval.rows client).getLast? := by
  rw [Interval.snapshot, Interval.buffer, get_foldl_addRow]
  exact Option.or_none

def doneAt (intervals : List (Interval Client)) (client : Client) (i : Nat) : List ℤ :=
  (intervals[i]?.map fun interval => doneIn interval.rows client).getD []

theorem sampleIn_eq (intervals : List (Interval Client)) (client : Client) (i : Nat) :
    sampleIn intervals client i = (doneAt intervals client i).getLast? := by
  rw [sampleIn, doneAt]
  cases intervals[i]? with
  | none => rfl
  | some interval => exact interval.get_snapshot client

/-! ## Selected clients -/

variable {domain : DomainAnalysis Client} {selected : List Client} {client : Client}

theorem selectRow_other {row : Row Client} (other : row.doneOf client = none)
    (state : SelectedState Client) :
    (selectRow domain selected state row).rates client = state.rates client ∧
      (selectRow domain selected state row).previous.get client = state.previous.get client := by
  unfold selectRow
  rw [Row.doneOf] at other
  split
  · exact ⟨rfl, rfl⟩
  · next named doneBytes held =>
      rw [held] at other
      have apart : named ≠ client := by
        intro same
        simp [same] at other
      split
      · exact ⟨rfl, rfl⟩
      · split
        · exact ⟨rfl, rfl⟩
        · next interval _ =>
            refine ⟨?_, Dict.get_set_of_ne _ _ (Ne.symm apart)⟩
            cases deriveRate (state.previous.get named) doneBytes row.runtimeMs interval with
            | none => rfl
            | some rate => exact Function.update_of_ne (Ne.symm apart) _ _

theorem selectRow_self {row : Row Client} {doneBytes : ℤ} {n : Nat} (chosen : client ∈ selected)
    (held : row.doneOf client = some doneBytes)
    (found : domain.runtimeToInterval.get row.runtimeMs = some n) (state : SelectedState Client) :
    (selectRow domain selected state row).rates client n =
      (deriveRate (state.previous.get client) doneBytes row.runtimeMs n).or
        (state.rates client n) ∧
    (∀ i, i ≠ n → (selectRow domain selected state row).rates client i = state.rates client i) ∧
      (selectRow domain selected state row).previous.get client =
        some ⟨doneBytes, row.runtimeMs, n⟩ := by
  rw [Row.doneOf] at held
  split at held
  · cases held
  · next named doneBytes' sample =>
      split at held
      · next same =>
          cases held
          subst same
          simp only [selectRow, sample, chosen, not_true, if_false, found]
          cases rate : deriveRate (state.previous.get named) doneBytes row.runtimeMs n with
          | none => exact ⟨rfl, fun i _ => rfl, Dict.get_set_self _ _ _⟩
          | some rate =>
              refine ⟨?_, ?_, Dict.get_set_self _ _ _⟩
              · dsimp only
                rw [Function.update_self, Function.update_self]
                rfl
              · intro i other
                dsimp only
                rw [Function.update_self, Function.update_of_ne other]
      · cases held

theorem deriveRate_same (prior doneBytes runtimeMs runtimeMs' : ℤ) (n : Nat) :
    deriveRate (some ⟨prior, runtimeMs', n⟩) doneBytes runtimeMs n = none := by
  simp [deriveRate]

theorem foldl_selectRow {rows : List (Row Client)} {runtimeMs : ℤ} {n : Nat}
    (same : ∀ row ∈ rows, row.runtimeMs = runtimeMs)
    (found : domain.runtimeToInterval.get runtimeMs = some n) (chosen : client ∈ selected)
    (state : SelectedState Client) :
    let after := rows.foldl (selectRow domain selected) state
    after.rates client n = ((doneIn rows client).head?.bind fun doneBytes =>
      deriveRate (state.previous.get client) doneBytes runtimeMs n).or (state.rates client n) ∧
    (∀ i, i ≠ n → after.rates client i = state.rates client i) ∧
    after.previous.get client = ((doneIn rows client).getLast?.map fun doneBytes =>
      ⟨doneBytes, runtimeMs, n⟩).or (state.previous.get client) := by
  induction rows using List.reverseRecOn with
  | nil => exact ⟨rfl, fun i _ => rfl, rfl⟩
  | append_singleton rows row ih =>
      obtain ⟨rate, others, previous⟩ :=
        ih fun row member => same row (List.mem_append_left _ member)
      have here : row.runtimeMs = runtimeMs := same row (by simp)
      simp only [List.foldl_append, List.foldl_cons, List.foldl_nil, doneIn_append]
      cases held : row.doneOf client with
      | none =>
          obtain ⟨rates', previous'⟩ :=
            @selectRow_other _ _ domain selected _ _ held (rows.foldl (selectRow domain selected) state)
          simp only [rates', previous', Option.toList_none, List.append_nil]
          exact ⟨rate, others, previous⟩
      | some doneBytes =>
          obtain ⟨rate', others', previous'⟩ := selectRow_self chosen held (here ▸ found)
            (rows.foldl (selectRow domain selected) state)
          refine ⟨?_, fun i other => (others' i other).trans (others i other), ?_⟩
          · rw [rate', previous, rate, here]
            cases before : doneIn rows client with
            | nil => simp
            | cons first rest =>
                have last : ∃ v, (first :: rest).getLast? = some v :=
                  ⟨_, List.getLast?_eq_some_getLast (by simp)⟩
                obtain ⟨v, last⟩ := last
                simp [last, deriveRate_same]
          · rw [previous', here]
            simp

def firstRate (intervals : List (Interval Client)) (client : Client) (i : Nat) : Option ℚ :=
  (doneAt intervals client i).head?.bind fun doneBytes =>
    deriveRate (priorAt intervals client i) doneBytes ((intervals.map (·.runtimeMs)).getD i 0) i

theorem rateAt_eq (intervals : List (Interval Client)) (client : Client) (i : Nat) :
    rateAt intervals client i = (doneAt intervals client i).getLast?.bind fun doneBytes =>
      deriveRate (priorAt intervals client i) doneBytes
        ((intervals.map (·.runtimeMs)).getD i 0) i := by
  rw [rateAt, sampleIn_eq]
  cases (doneAt intervals client i).getLast? <;> rfl

structure Next (s : Stream Client) (front : List (Interval Client)) (interval : Interval Client)
    (n : Nat) : Prop where
  place : n = front.length
  found : (flushed s.intervals).analysis.runtimeToInterval.get interval.runtimeMs = some n
  runtime : (s.intervals.map (·.runtimeMs)).getD n 0 = interval.runtimeMs
  done : ∀ client, doneAt s.intervals client n = doneIn interval.rows client

theorem Stream.next {s : Stream Client} {front rest : List (Interval Client)}
    {interval : Interval Client} (split : s.intervals = front ++ [interval] ++ rest) :
    Next s front interval front.length := by
  have entry : s.intervals[front.length]? = some interval := by
    rw [split, List.append_assoc, List.getElem?_append_right le_rfl, Nat.sub_self]
    rfl
  have runtime : (s.intervals.map (·.runtimeMs))[front.length]? = some interval.runtimeMs := by
    rw [List.getElem?_map, entry]
    rfl
  constructor
  · rfl
  · exact (runtimeToInterval_flushed s.increasing _ _).mpr runtime
  · rw [List.getD_eq_getElem?_getD, runtime]
    rfl
  · intro client
    rw [doneAt, entry]
    rfl

theorem selected_stream (s : Stream Client) (chosen : client ∈ selected)
    {front rest : List (Interval Client)} (split : s.intervals = front ++ rest) :
    let after := (front.flatMap (·.rows)).foldl
      (selectRow (flushed s.intervals).analysis selected) ⟨fun _ _ => none, .empty⟩
    (∀ i, after.rates client i =
      if i < front.length then firstRate s.intervals client i else none) ∧
    after.previous.get client = priorAt s.intervals client front.length := by
  induction front using List.reverseRecOn generalizing rest with
  | nil => exact ⟨fun i => rfl, rfl⟩
  | append_singleton front interval ih =>
      have earlier : s.intervals = front ++ ([interval] ++ rest) := by
        rw [split, List.append_assoc]
      obtain ⟨rates, previous⟩ := ih earlier
      have next := s.next split
      obtain ⟨here, others, after⟩ := foldl_selectRow interval.same next.found chosen
        ((front.flatMap (·.rows)).foldl
          (selectRow (flushed s.intervals).analysis selected) ⟨fun _ _ => none, .empty⟩)
      simp only [List.flatMap_append, List.flatMap_singleton, List.foldl_append, List.length_append,
        List.length_singleton]
      constructor
      · intro i
        by_cases now : i = front.length
        · rw [now, here, previous, rates, if_neg (lt_irrefl _), if_pos (Nat.lt_succ_self _),
            firstRate, next.done, next.runtime, Option.or_none]
        · rw [others i now, rates]
          split_ifs <;> first | rfl | omega
      · rw [after, previous, priorAt_succ, sampleIn_eq, next.done, next.runtime]

end StorageScaleTest.Live
