import StorageScaleTest.Live.Stream
import StorageScaleTest.Samples.Stream

/-!
# The first pass over a stream in order

The pass flushes one buffer for each interval, and what it remembers of a client is the client's
last sample.
-/

namespace StorageScaleTest.Live

open Samples

variable {Client : Type} [DecidableEq Client]

/-! ## Buffers -/

theorem runtimeMs_addRow (buffer : IntervalBuffer Client) (row : Row Client) :
    (buffer.addRow row).runtimeMs = buffer.runtimeMs := by
  unfold IntervalBuffer.addRow
  split <;> rfl

theorem runtimeMs_foldl_addRow (rows : List (Row Client)) (buffer : IntervalBuffer Client) :
    (rows.foldl .addRow buffer).runtimeMs = buffer.runtimeMs := by
  induction rows generalizing buffer with
  | nil => rfl
  | cons row rows ih => rw [List.foldl_cons, ih, runtimeMs_addRow]

theorem Interval.runtimeMs_buffer (interval : Interval Client) :
    interval.buffer.runtimeMs = interval.runtimeMs :=
  runtimeMs_foldl_addRow _ _

theorem foldl_addRow_same {state : DomainState Client} {buffer : IntervalBuffer Client}
    {rows : List (Row Client)} (same : ∀ row ∈ rows, row.runtimeMs = buffer.runtimeMs) :
    rows.foldl addRow { state with buffer := some buffer } =
      { state with buffer := some (rows.foldl .addRow buffer) } := by
  induction rows generalizing buffer with
  | nil => rfl
  | cons row rows ih =>
      have here : addRow { state with buffer := some buffer } row =
          { state with buffer := some (buffer.addRow row) } := by
        simp [addRow, advanceBuffer, same row List.mem_cons_self]
      rw [List.foldl_cons, here, ih]
      · rfl
      · intro later member
        rw [same later (List.mem_cons_of_mem row member), runtimeMs_addRow]

def Before (state : DomainState Client) (interval : Interval Client) : Prop :=
  ∀ buffer, state.buffer = some buffer → buffer.runtimeMs ≠ interval.runtimeMs

theorem foldl_addRow_interval {state : DomainState Client} {interval : Interval Client}
    (before : Before state interval) : interval.rows.foldl addRow state =
      { flushInterval state with buffer := some interval.buffer } := by
  obtain ⟨runtimeMs, rows, nonempty, same⟩ := interval
  cases rows with
  | nil => exact absurd rfl nonempty
  | cons row rows =>
      have first : row.runtimeMs = runtimeMs := same row List.mem_cons_self
      have here : addRow state row = { flushInterval state with
          buffer := some ((IntervalBuffer.new runtimeMs row.isoTimestamp).addRow row) } := by
        cases held : state.buffer with
        | none => simp [addRow, advanceBuffer, flushInterval, held, first]
        | some buffer =>
            have other : buffer.runtimeMs ≠ runtimeMs := before buffer held
            simp [addRow, advanceBuffer, flushInterval, held, other, first]
      rw [List.foldl_cons, here, foldl_addRow_same]
      · rfl
      · intro later member
        rw [runtimeMs_addRow]
        exact same later (List.mem_cons_of_mem row member)

/-! ## The pass as a fold over intervals -/

def flushed (intervals : List (Interval Client)) : DomainState Client :=
  intervals.foldl (fun state interval => flushBuffer state interval.buffer) .new

theorem flushed_append (intervals : List (Interval Client)) (interval : Interval Client) :
    flushed (intervals ++ [interval]) = flushBuffer (flushed intervals) interval.buffer := by
  rw [flushed, List.foldl_append]
  rfl

theorem foldl_addRow_append {intervals : List (Interval Client)} {interval : Interval Client}
    (increasing : ((intervals ++ [interval]).map (·.runtimeMs)).Pairwise (· < ·)) :
    ((intervals ++ [interval]).flatMap (·.rows)).foldl addRow .new =
      { flushed intervals with buffer := some interval.buffer } := by
  induction intervals using List.reverseRecOn generalizing interval with
  | nil =>
      have before : Before (DomainState.new : DomainState Client) interval := by
        intro buffer held
        cases held
      rw [List.nil_append, List.flatMap_singleton, foldl_addRow_interval before]
      rfl
  | append_singleton intervals last ih =>
      have earlier : ((intervals ++ [last]).map (·.runtimeMs)).Pairwise (· < ·) := by
        rw [List.map_append] at increasing
        exact (List.pairwise_append.mp increasing).1
      have apart : last.runtimeMs < interval.runtimeMs := by
        rw [List.map_append] at increasing
        exact (List.pairwise_append.mp increasing).2.2 _ (by simp) _ (by simp)
      have before : Before { flushed intervals with buffer := some last.buffer } interval := by
        intro buffer held
        cases held
        rw [last.runtimeMs_buffer]
        exact apart.ne
      rw [List.flatMap_append, List.foldl_append, ih earlier, List.flatMap_singleton,
        foldl_addRow_interval before, flushed_append]
      rfl

theorem analyzeLiveCsv_rows (s : Stream Client) :
    analyzeLiveCsv s.rows = (flushed s.intervals).analysis := by
  obtain ⟨intervals, increasing⟩ := s
  rcases List.eq_nil_or_concat intervals with rfl | ⟨front, last, rfl⟩
  · rfl
  · simp only [List.concat_eq_append] at increasing ⊢
    rw [analyzeLiveCsv, Stream.rows, foldl_addRow_append increasing, flushed_append]
    rfl

/-! ## What the pass remembers -/

theorem intervalTimes_flushed (intervals : List (Interval Client)) :
    (flushed intervals).analysis.intervalTimes = intervals.map (·.runtimeMs) := by
  induction intervals using List.reverseRecOn with
  | nil => rfl
  | append_singleton intervals interval ih =>
      rw [flushed_append, List.map_append, ← ih]
      simp [flushBuffer, interval.runtimeMs_buffer]

theorem length_intervalTimes (intervals : List (Interval Client)) :
    (flushed intervals).analysis.intervalTimes.length = intervals.length := by
  rw [intervalTimes_flushed, List.length_map]

theorem runtimeToInterval_flushed {intervals : List (Interval Client)}
    (increasing : (intervals.map (·.runtimeMs)).Pairwise (· < ·)) (runtimeMs : ℤ) (i : Nat) :
    (flushed intervals).analysis.runtimeToInterval.get runtimeMs = some i ↔
      (intervals.map (·.runtimeMs))[i]? = some runtimeMs := by
  induction intervals using List.reverseRecOn with
  | nil => simp [flushed, DomainState.new]
  | append_singleton intervals interval ih =>
      rw [List.map_append] at increasing
      obtain ⟨earlier, _, apart⟩ := List.pairwise_append.mp increasing
      have length := length_intervalTimes intervals
      have entry : (flushed (intervals ++ [interval])).analysis.runtimeToInterval.get runtimeMs =
          if runtimeMs = interval.runtimeMs then some intervals.length
          else (flushed intervals).analysis.runtimeToInterval.get runtimeMs := by
        rw [flushed_append]
        simp only [flushBuffer, Dict.get_set, interval.runtimeMs_buffer, length]
      rw [entry, List.map_append]
      by_cases here : runtimeMs = interval.runtimeMs
      · rw [if_pos here, here]
        constructor
        · intro found
          cases found
          simp
        · intro found
          by_cases inside : i < intervals.length
          · rw [List.getElem?_append_left (by simpa using inside)] at found
            have lt := apart _ (List.mem_of_getElem? found) interval.runtimeMs (by simp)
            exact absurd lt (lt_irrefl _)
          · have bound := (List.getElem?_eq_some_iff.mp found).1
            simp at bound
            have exactly : i = intervals.length := by omega
            rw [exactly]
      · rw [if_neg here, ih earlier]
        by_cases inside : i < intervals.length
        · rw [List.getElem?_append_left (by simpa using inside)]
        · rw [List.getElem?_eq_none (by simpa using inside),
            List.getElem?_append_right (by simpa using inside)]
          simp only [List.length_map, List.map_cons, List.map_nil, reduceCtorEq, false_iff]
          intro found
          have member := List.mem_of_getElem? found
          simp only [List.mem_singleton] at member
          exact here member

/-! ## What the pass remembers of a client -/

def sampleIn (intervals : List (Interval Client)) (client : Client) (i : Nat) : Option ℤ :=
  intervals[i]?.bind fun interval => interval.snapshot.get client

theorem sampleIn_append_left {intervals : List (Interval Client)} (rest : List (Interval Client))
    (client : Client) {i : Nat} (inside : i < intervals.length) :
    sampleIn (intervals ++ rest) client i = sampleIn intervals client i := by
  rw [sampleIn, List.getElem?_append_left inside, sampleIn]

theorem sampleIn_append_length (intervals : List (Interval Client)) (interval : Interval Client)
    (client : Client) :
    sampleIn (intervals ++ [interval]) client intervals.length = interval.snapshot.get client := by
  rw [sampleIn, List.getElem?_concat_length]
  rfl

def priorAt (intervals : List (Interval Client)) (client : Client) (n : Nat) :
    Option PreviousSample :=
  (lastBefore (sampleIn intervals client) n).map fun last =>
    ⟨last.2, (intervals.map (·.runtimeMs)).getD last.1 0, last.1⟩

theorem priorAt_succ (intervals : List (Interval Client)) (client : Client) (n : Nat) :
    priorAt intervals client (n + 1) = ((sampleIn intervals client n).map fun doneBytes =>
      ⟨doneBytes, (intervals.map (·.runtimeMs)).getD n 0, n⟩).or (priorAt intervals client n) := by
  rw [priorAt, lastBefore, priorAt]
  cases sampleIn intervals client n <;> rfl

omit [DecidableEq Client] in
theorem runtimes_append_left {intervals : List (Interval Client)} (rest : List (Interval Client))
    {i : Nat} (inside : i < intervals.length) :
    ((intervals ++ rest).map (·.runtimeMs)).getD i 0 = (intervals.map (·.runtimeMs)).getD i 0 := by
  rw [List.map_append, List.getD_eq_getElem?_getD, List.getD_eq_getElem?_getD,
    List.getElem?_append_left (by simpa using inside)]

theorem priorAt_append {intervals : List (Interval Client)} (rest : List (Interval Client))
    (client : Client) {n : Nat} (within : n ≤ intervals.length) :
    priorAt (intervals ++ rest) client n = priorAt intervals client n := by
  have same : lastBefore (sampleIn (intervals ++ rest) client) n =
      lastBefore (sampleIn intervals client) n :=
    lastBefore_congr fun i before => sampleIn_append_left rest client (by omega)
  rw [priorAt, priorAt, same]
  cases last : lastBefore (sampleIn intervals client) n with
  | none => rfl
  | some p =>
      have before := (lastBefore_eq_some.mp last).1
      simp only [Option.map_some, runtimes_append_left rest (show p.1 < intervals.length by omega)]

theorem previous_flushed (intervals : List (Interval Client)) (client : Client) :
    (flushed intervals).previous.get client = priorAt intervals client intervals.length := by
  induction intervals using List.reverseRecOn with
  | nil => rfl
  | append_singleton intervals interval ih =>
      have length := length_intervalTimes intervals
      rw [flushed_append, List.length_append, List.length_singleton]
      simp only [flushBuffer, Dict.get_update, Dict.get_filterMap, ih, length,
        interval.runtimeMs_buffer]
      rw [← priorAt_append [interval] client le_rfl, priorAt, priorAt, lastBefore,
        sampleIn_append_length]
      cases here : interval.buffer.clientRows.get client with
      | none =>
          rw [Interval.snapshot, here]
          rfl
      | some v =>
          rw [Interval.snapshot, here]
          simp

/-! ## Rates -/

/-- The rate of a client in an interval, from its samples in that interval and in the one before. -/
def rateAt (intervals : List (Interval Client)) (client : Client) (i : Nat) : Option ℚ :=
  match sampleIn intervals client i with
  | none => none
  | some doneBytes => deriveRate (priorAt intervals client i) doneBytes
      ((intervals.map (·.runtimeMs)).getD i 0) i

theorem rateAt_append {intervals : List (Interval Client)} (rest : List (Interval Client))
    (client : Client) {i : Nat} (inside : i < intervals.length) :
    rateAt (intervals ++ rest) client i = rateAt intervals client i := by
  rw [rateAt, rateAt, sampleIn_append_left rest client inside,
    priorAt_append rest client inside.le, runtimes_append_left rest inside]

theorem length_rates (intervals : List (Interval Client)) :
    (flushed intervals).analysis.rates.length = intervals.length := by
  induction intervals using List.reverseRecOn with
  | nil => rfl
  | append_singleton intervals interval ih =>
      rw [flushed_append, List.length_append, List.length_singleton, ← ih]
      simp [flushBuffer]

theorem rates_flushed (intervals : List (Interval Client)) (i : Nat) (client : Client) :
    ((flushed intervals).analysis.rates[i]?.bind (·.get client)) = rateAt intervals client i := by
  induction intervals using List.reverseRecOn with
  | nil => rfl
  | append_singleton intervals interval ih =>
      have length := length_rates intervals
      have rates : (flushed (intervals ++ [interval])).analysis.rates =
          (flushed intervals).analysis.rates ++ [deriveIntervalRates (flushed intervals).previous
            interval.snapshot interval.runtimeMs intervals.length] := by
        rw [flushed_append]
        simp only [flushBuffer, length_intervalTimes, interval.runtimeMs_buffer, Interval.snapshot]
      rw [rates]
      rcases Nat.lt_trichotomy i intervals.length with before | rfl | after
      · rw [List.getElem?_append_left (by omega), ih, rateAt_append _ _ before]
      · rw [← length, List.getElem?_concat_length, length, rateAt, sampleIn_append_length,
          priorAt_append _ _ le_rfl, ← previous_flushed]
        simp only [Option.bind_some, deriveIntervalRates, Dict.get_filterMap]
        cases interval.snapshot.get client with
        | none => rfl
        | some v => simp [List.getD_eq_getElem?_getD]
      · rw [List.getElem?_eq_none (by simp; omega), rateAt, sampleIn,
          List.getElem?_eq_none (by simp; omega)]
        rfl

end StorageScaleTest.Live
