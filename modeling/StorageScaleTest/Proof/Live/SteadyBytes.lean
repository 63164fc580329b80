import StorageScaleTest.Proof.Live.Steady

/-!
# The bytes of the steady window

The samples that the pass captures at the two bounds are each client's last ones at or before them.
-/

namespace StorageScaleTest.Live

open Samples

variable {Client : Type} [DecidableEq Client] {settings : SteadySettings} {runtimes : List ℤ}
  {snapshots : Nat → Snapshot Client}

/-- A client's last samples at or before two bounds, at different intervals and without a reset
between the bounds. -/
structure Measured (samples : Nat → Option ℤ) (start stop i j : Nat) (u v : ℤ) : Prop where
  first : IsLast samples start i u
  last : IsLast samples stop j v
  later : i < j
  noReset : NoReset samples start stop

theorem Measured.congr {samples other : Nat → Option ℤ} {start stop i j : Nat} {u v : ℤ}
    (ordered : start ≤ stop) (same : ∀ k ≤ stop, samples k = other k)
    (measured : Measured samples start stop i j u v) : Measured other start stop i j u v := by
  have last : ∀ n i u, n ≤ stop → IsLast samples n i u → IsLast other n i u := by
    intro n i u within last
    refine ⟨last.1, ?_, ?_⟩
    · rw [← same i (last.1.trans within)]
      exact last.2.1
    · intro k after le
      rw [← same k (le.trans within)]
      exact last.2.2 k after le
  refine ⟨last _ _ _ ordered measured.first, last _ _ _ le_rfl measured.last, measured.later, ?_⟩
  intro p q x y before after within held here none
  apply measured.noReset p q x y before after within
  · rw [same p (by omega), held]
  · rw [same q within, here]
  · intro k above below
    rw [same k (by omega), none k above below]

def scaledBytes (runtimes : List ℤ) (window : SteadyWindow) (i j : Nat) (u v : ℤ) : Option ℤ :=
  SteadyPass.roundedQuotient ((v - u) * (window.endMs - window.startMs))
    (runtimes.getD j 0 - runtimes.getD i 0)

section

variable {pass : SteadyPass Client} {n : Nat} {window : SteadyWindow}

theorem steadyDelta_iff (follows : Follows settings runtimes snapshots n pass)
    (available : settings.window = some window)
    (ordered : window.startInterval ≤ window.endInterval) (inside : window.endInterval < n)
    (increasing : ∀ i j, i < j → j < n → runtimes.getD i 0 < runtimes.getD j 0)
    (client : Client) (bytes : Option ℤ) :
    ((seenAfter runtimes snapshots (window.endInterval + 1)).get client).bind
        (pass.steadyDelta window client) = some bytes ↔
      ∃ i j u v, Measured (samplesOf snapshots client) window.startInterval window.endInterval
        i j u v ∧ bytes = scaledBytes runtimes window i j u v := by
  have start := follows.atStart window available
  rw [if_pos (by omega)] at start
  rw [get_seenAfter]
  cases last : lastBefore (samplesOf snapshots client) (window.endInterval + 1) with
  | none =>
      simp only [Option.map_none, Option.bind_none, reduceCtorEq, false_iff]
      rintro ⟨i, j, u, v, measured, _⟩
      rw [isLast_iff.mp measured.last] at last
      cases last
  | some stop =>
    obtain ⟨j, v⟩ := stop
    simp only [Option.map_some, Option.bind_some, SteadyPass.steadyDelta, start, get_seenAfter]
    cases first : lastBefore (samplesOf snapshots client) (window.startInterval + 1) with
    | none =>
        simp only [Option.map_none, reduceCtorEq, false_iff]
        rintro ⟨i, j, u, v, measured, _⟩
        rw [isLast_iff.mp measured.first] at first
        cases first
    | some begin_ =>
      obtain ⟨i, u⟩ := begin_
      have isFirst := isLast_iff.mpr first
      have isEnd := isLast_iff.mpr last
      have resets : client ∈ pass.steadyResets ↔
          ¬NoReset (samplesOf snapshots client) window.startInterval window.endInterval := by
        rw [follows.steadyResets window available inside, mem_resetAfter, noReset_iff]
        simp only [Nat.lt_succ_iff, not_forall, Bool.not_eq_false, exists_prop]
      simp only [Option.map_some]
      by_cases calm : NoReset (samplesOf snapshots client) window.startInterval window.endInterval
      · rw [if_neg (by rw [resets]; exact not_not.mpr calm)]
        by_cases later : i < j
        · have time := increasing i j later (by have := isEnd.1; omega)
          rw [if_pos ⟨time, calm.le isFirst isEnd later⟩, Option.some.injEq]
          constructor
          · rintro rfl
            exact ⟨i, j, u, v, ⟨isFirst, isEnd, later, calm⟩, rfl⟩
          · rintro ⟨i', j', u', v', measured, rfl⟩
            cases first.symm.trans (isLast_iff.mp measured.first)
            cases last.symm.trans (isLast_iff.mp measured.last)
            rfl
        · have time : ¬runtimes.getD i 0 < runtimes.getD j 0 := by
            rcases Nat.eq_or_lt_of_le (not_lt.mp later) with rfl | before
            · exact lt_irrefl _
            · exact (increasing j i before (by have := isFirst.1; omega)).not_gt
          rw [if_neg fun both => time both.1]
          simp only [reduceCtorEq, false_iff]
          rintro ⟨i', j', u', v', measured, _⟩
          cases first.symm.trans (isLast_iff.mp measured.first)
          cases last.symm.trans (isLast_iff.mp measured.last)
          exact later measured.later
      · rw [if_pos (resets.mpr calm)]
        simp only [reduceCtorEq, false_iff]
        rintro ⟨_, _, _, _, measured, _⟩
        exact calm measured.noReset

/-- What `_steady_deltas` returns, where a client counts by its samples. -/
structure Exact (counts : Client → Nat → Nat → ℤ → ℤ → Prop)
    (bytes : Nat → Nat → ℤ → ℤ → Option ℤ) (result : Option (Dict Client ℤ)) : Prop where
  fails : result = none ↔ ∃ client i j u v, counts client i j u v ∧ bytes i j u v = none
  counted : ∀ deltas, result = some deltas → ∀ client,
    (deltas.get client).isSome ↔ ∃ i j u v, counts client i j u v
  value : ∀ deltas, result = some deltas → ∀ client i j u v, counts client i j u v →
    deltas.get client = bytes i j u v

omit [DecidableEq Client] in
theorem Exact.unique {counts : Client → Nat → Nat → ℤ → ℤ → Prop}
    {bytes : Nat → Nat → ℤ → ℤ → Option ℤ} {result other : Option (Dict Client ℤ)}
    (exact_ : Exact counts bytes result) (exactOther : Exact counts bytes other) :
    result = other := by
  cases result with
  | none => exact (exactOther.fails.mpr (exact_.fails.mp rfl)).symm
  | some deltas =>
    cases other with
    | none => exact absurd (exact_.fails.mpr (exactOther.fails.mp rfl)) (by simp)
    | some others =>
      apply congrArg
      apply Dict.ext_get
      intro client
      by_cases present : ∃ i j u v, counts client i j u v
      · obtain ⟨i, j, u, v, here⟩ := present
        rw [exact_.value deltas rfl client i j u v here,
          exactOther.value others rfl client i j u v here]
      · have absent := mt (exact_.counted deltas rfl client).mp present
        have absentOther := mt (exactOther.counted others rfl client).mp present
        rw [Option.not_isSome_iff_eq_none] at absent absentOther
        rw [absent, absentOther]

omit [DecidableEq Client] in
theorem Exact.congr {counts counts' : Client → Nat → Nat → ℤ → ℤ → Prop}
    {bytes bytes' : Nat → Nat → ℤ → ℤ → Option ℤ} {result : Option (Dict Client ℤ)}
    (exact_ : Exact counts bytes result)
    (same : ∀ client i j u v, counts client i j u v ↔ counts' client i j u v)
    (equal : ∀ client i j u v, counts client i j u v → bytes i j u v = bytes' i j u v) :
    Exact counts' bytes' result := by
  refine ⟨exact_.fails.trans ?_, ?_, ?_⟩
  · constructor
    · rintro ⟨client, i, j, u, v, here, large⟩
      exact ⟨client, i, j, u, v, (same _ _ _ _ _).mp here, equal _ _ _ _ _ here ▸ large⟩
    · rintro ⟨client, i, j, u, v, here, large⟩
      have there := (same _ _ _ _ _).mpr here
      exact ⟨client, i, j, u, v, there, equal _ _ _ _ _ there ▸ large⟩
  · intro deltas found client
    simp only [exact_.counted deltas found client, same]
  · intro deltas found client i j u v here
    have there := (same _ _ _ _ _).mpr here
    rw [exact_.value deltas found client i j u v there, equal _ _ _ _ _ there]

theorem steadyDeltas_exact (follows : Follows settings runtimes snapshots n pass)
    (available : settings.window = some window)
    (ordered : window.startInterval ≤ window.endInterval) (inside : window.endInterval < n)
    (increasing : ∀ i j, i < j → j < n → runtimes.getD i 0 < runtimes.getD j 0) :
    Exact (fun client => Measured (samplesOf snapshots client) window.startInterval
      window.endInterval) (scaledBytes runtimes window) (pass.steadyDeltas window) := by
  have start := follows.atStart window available
  have stop := follows.atEnd window available
  rw [if_pos (by omega)] at start
  rw [if_pos inside] at stop
  let found := (seenAfter runtimes snapshots (window.endInterval + 1)).filterMap
    (pass.steadyDelta window)
  have entry : ∀ client bytes, found.get client = some bytes ↔ ∃ i j u v,
      Measured (samplesOf snapshots client) window.startInterval window.endInterval i j u v ∧
        bytes = scaledBytes runtimes window i j u v :=
    steadyDelta_iff follows available ordered inside increasing
  have result : pass.steadyDeltas window =
      if ∃ client ∈ found.keys, found.get client = some none then none
      else some (found.filterMap fun _ bytes => bytes) := by
    simp only [SteadyPass.steadyDeltas, start, stop]
    rfl
  have keyed : ∀ {client bytes}, found.get client = some bytes → client ∈ found.keys := by
    intro client bytes held
    rw [Dict.mem_keys, held]
    rfl
  rw [result]
  by_cases tooLarge : ∃ client ∈ found.keys, found.get client = some none
  · rw [if_pos tooLarge]
    refine ⟨iff_of_true rfl ?_, by simp, by simp⟩
    obtain ⟨client, _, none⟩ := tooLarge
    obtain ⟨i, j, u, v, measured, large⟩ := (entry client _).mp none
    exact ⟨client, i, j, u, v, measured, large.symm⟩
  · rw [if_neg tooLarge]
    refine ⟨iff_of_false (by simp) ?_, ?_, ?_⟩
    · rintro ⟨client, i, j, u, v, measured, large⟩
      have here := (entry client none).mpr ⟨i, j, u, v, measured, large.symm⟩
      exact tooLarge ⟨client, keyed here, here⟩
    · rintro deltas same client
      cases same
      rw [Dict.get_filterMap]
      constructor
      · intro present
        obtain ⟨bytes, here⟩ := Option.isSome_iff_exists.mp present
        obtain ⟨inner, held, _⟩ := Option.bind_eq_some_iff.mp here
        obtain ⟨i, j, u, v, measured, _⟩ := (entry client inner).mp held
        exact ⟨i, j, u, v, measured⟩
      · rintro ⟨i, j, u, v, measured⟩
        have here := (entry client _).mpr ⟨i, j, u, v, measured, rfl⟩
        rw [here, Option.bind_some]
        by_contra absent
        rw [Option.not_isSome_iff_eq_none] at absent
        rw [absent] at here
        exact tooLarge ⟨client, keyed here, here⟩
    · rintro deltas same client i j u v measured
      cases same
      rw [Dict.get_filterMap, (entry client _).mpr ⟨i, j, u, v, measured, rfl⟩, Option.bind_some]

end

/-! ## Streams -/

omit [DecidableEq Client] in
theorem Stream.runtime_lt (s : Stream Client) {i j : Nat} (before : i < j)
    (inside : j < s.intervals.length) : s.runtime i < s.runtime j := by
  have apart := List.pairwise_iff_getElem.mp s.increasing i j (by simp; omega) (by simpa using inside)
    before
  rw [Stream.runtime, Stream.runtime, List.getD_eq_getElem?_getD, List.getD_eq_getElem?_getD,
    List.getElem?_eq_getElem (by simp; omega), List.getElem?_eq_getElem (by simpa using inside)]
  exact apart

def Stream.Exact (s : Stream Client) (window : SteadyWindow)
    (result : Option (Dict Client ℤ)) : Prop :=
  Live.Exact (fun client => Measured (s.sample client) window.startInterval window.endInterval)
    (fun i j u v => SteadyPass.roundedQuotient ((v - u) * (window.endMs - window.startMs))
      (s.runtime j - s.runtime i)) result

theorem Stream.steadyPass_exact (s : Stream Client) {settings : SteadySettings}
    {window : SteadyWindow} (available : settings.window = some window)
    (ordered : window.startInterval ≤ window.endInterval)
    (inside : window.endInterval < s.intervals.length) :
    ∃ pass, steadyPass settings (analyzeLiveCsv s.rows) s.rows = some pass ∧
      s.Exact window (pass.steadyDeltas window) := by
  have times : (analyzeLiveCsv s.rows).intervalTimes = s.intervals.map (·.runtimeMs) := by
    rw [analyzeLiveCsv_rows, intervalTimes_flushed]
  refine ⟨_, steadyPass_eq s.inOrder, ?_⟩
  have follows : Follows settings (analyzeLiveCsv s.rows).intervalTimes
      (snapshotOf (samplesRead (analyzeLiveCsv s.rows) s.rows))
      (analyzeLiveCsv s.rows).intervalTimes.length _ :=
    follows_passAfter (analyzeLiveCsv s.rows).clients _
  have exact_ := steadyDeltas_exact follows available ordered
    (by rw [times, List.length_map]; exact inside) (by
      intro i j before within
      rw [times, List.length_map] at within
      rw [times]
      exact s.runtime_lt before within)
  simp only [s.samplesOf_rows] at exact_
  rw [times] at exact_ ⊢
  exact exact_

theorem Stream.Exact.of_take {s t : Stream Client} {window : SteadyWindow}
    (ordered : window.startInterval ≤ window.endInterval)
    (same : t.intervals.take (window.endInterval + 1) = s.intervals.take (window.endInterval + 1))
    {result : Option (Dict Client ℤ)} (exact_ : t.Exact window result) :
    s.Exact window result := by
  have interval : ∀ k ≤ window.endInterval, t.intervals[k]? = s.intervals[k]? := by
    intro k within
    rw [← List.getElem?_take_of_lt (show k < window.endInterval + 1 by omega), same,
      List.getElem?_take_of_lt (by omega)]
  have sample : ∀ client, ∀ k ≤ window.endInterval, t.sample client k = s.sample client k := by
    intro client k within
    rw [Stream.sample, Stream.sample, interval k within]
  have runtime : ∀ k ≤ window.endInterval, t.runtime k = s.runtime k := by
    intro k within
    rw [Stream.runtime, Stream.runtime, List.getD_eq_getElem?_getD, List.getD_eq_getElem?_getD,
      List.getElem?_map, List.getElem?_map, interval k within]
  apply Live.Exact.congr exact_
  · intro client i j u v
    exact ⟨.congr ordered (sample client), .congr ordered fun k within => (sample client k within).symm⟩
  · intro client i j u v measured
    rw [runtime j measured.last.1, runtime i (measured.first.1.trans ordered)]

/-- The steady window counts exactly the clients with a last sample at or before each bound, at
different intervals, and without a reset inside the window. A client's bytes are its exact ones
scaled to the window, divided in floating point and rounded, and the pass fails only where such a
quotient is too large for a float. Nothing after the window changes the result. -/
theorem steady_bytes (s : Stream Client) (settings : SteadySettings) (window : SteadyWindow)
    (available : settings.window = some window)
    (ordered : window.startInterval ≤ window.endInterval)
    (inside : window.endInterval < s.intervals.length) :
    ∃ pass, steadyPass settings (analyzeLiveCsv s.rows) s.rows = some pass ∧
      s.Exact window (pass.steadyDeltas window) ∧
      ∀ t : Stream Client,
        t.intervals.take (window.endInterval + 1) = s.intervals.take (window.endInterval + 1) →
        ∃ other, steadyPass settings (analyzeLiveCsv t.rows) t.rows = some other ∧
          other.steadyDeltas window = pass.steadyDeltas window := by
  obtain ⟨pass, run, exact_⟩ := s.steadyPass_exact available ordered inside
  refine ⟨pass, run, exact_, ?_⟩
  intro t same
  have length := congrArg List.length same
  simp only [List.length_take] at length
  obtain ⟨other, otherRun, exactOther⟩ :=
    t.steadyPass_exact available ordered (by omega)
  exact ⟨other, otherRun, (exactOther.of_take ordered same).unique exact_⟩

/-! ## A quotient between two floats -/

theorem wide_first : ∀ row ∈ [(⟨1000, "", .client 'a' (some 0)⟩ : Row Char)],
    row.runtimeMs = 1000 := by simp

/-- A client with samples at the two bounds that differ by `2 ^ 53 + 1` bytes. -/
def wide : Stream Char where
  intervals := [
    ⟨1000, [⟨1000, "", .client 'a' (some 0)⟩], by simp, wide_first⟩,
    ⟨2000, [⟨2000, "", .client 'a' (some 1)⟩], by simp, by simp⟩,
    ⟨14000, [⟨14000, "", .client 'a' (some (2 ^ 53 + 2))⟩], by simp, by simp⟩]
  increasing := by decide

def wideWindow : SteadyWindow := ⟨1, 2, 2000, 14000⟩

def wideSettings : SteadySettings := ⟨some wideWindow, 1000, none, 5⟩

theorem measured_wide : Measured (wide.sample 'a') 1 2 1 2 1 (2 ^ 53 + 2) where
  first := ⟨le_rfl, rfl, fun k above below => by omega⟩
  last := ⟨le_rfl, rfl, fun k above below => by omega⟩
  later := by decide
  noReset := by
    apply noReset_iff.mpr
    intro r above below
    obtain rfl : r = 2 := by omega
    rfl

theorem client_of_sample_wide {client : Char} {i : Nat} {v : ℤ}
    (held : wide.sample client i = some v) : client = 'a' := by
  by_contra other
  have row : ∀ (runtimeMs doneBytes : ℤ) same, Interval.snapshot
      ⟨runtimeMs, [⟨runtimeMs, "", .client 'a' (some doneBytes)⟩], List.cons_ne_nil _ _, same⟩ =
        Dict.empty.set 'a' doneBytes := fun _ _ _ => rfl
  match i with
  | 0 | 1 | 2 => simp [Stream.sample, wide, row, Dict.get_set_of_ne _ _ other] at held
  | _ + 3 => cases held

theorem steady_bytes_wide : ∃ pass, steadyPass wideSettings (analyzeLiveCsv wide.rows) wide.rows =
    some pass ∧ wide.Exact wideWindow (pass.steadyDeltas wideWindow) := by
  obtain ⟨pass, run, exact_, _⟩ :=
    steady_bytes wide wideSettings wideWindow rfl (by decide) (by decide)
  exact ⟨pass, run, exact_⟩

/-- The exact quotient is an odd integer that no float represents. -/
theorem wide_rounded_twice : ∃ pass deltas,
    steadyPass wideSettings (analyzeLiveCsv wide.rows) wide.rows = some pass ∧
      pass.steadyDeltas wideWindow = some deltas ∧
      Measured (wide.sample 'a') 1 2 1 2 1 (2 ^ 53 + 2) ∧
      deltas.get 'a' = some (2 ^ 53) ∧
      Numeric.roundHalfEven (((2 ^ 53 + 2 - 1) * (14000 - 2000) : ℚ) / (14000 - 2000)) =
        2 ^ 53 + 1 := by
  have available : wideSettings.window = some wideWindow := rfl
  obtain ⟨pass, run, exact_⟩ := wide.steadyPass_exact available (by decide) (by decide)
  have quotient : SteadyPass.roundedQuotient ((2 ^ 53 + 2 - 1) * (14000 - 2000)) (14000 - 2000) =
      some (2 ^ 53) := by decide +kernel
  cases result : pass.steadyDeltas wideWindow with
  | none =>
      rw [result] at exact_
      obtain ⟨client, i, j, u, v, measured, large⟩ := exact_.fails.mp rfl
      obtain rfl := client_of_sample_wide measured.last.2.1
      cases (isLast_iff.mp measured.first).symm.trans (isLast_iff.mp measured_wide.first)
      cases (isLast_iff.mp measured.last).symm.trans (isLast_iff.mp measured_wide.last)
      exact absurd (quotient.symm.trans large) (by simp)
  | some deltas =>
      refine ⟨pass, deltas, run, result, measured_wide, ?_, by decide +kernel⟩
      exact (exact_.value deltas result 'a' 1 2 1 (2 ^ 53 + 2) measured_wide).trans quotient

end StorageScaleTest.Live
