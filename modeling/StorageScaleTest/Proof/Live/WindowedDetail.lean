import StorageScaleTest.Proof.Live.Windows

/-!
# The third pass

A pass over chosen clients alone finds the windows that the second pass has found for them.
-/

namespace StorageScaleTest.Live

open Samples

variable {Client : Type} [DecidableEq Client]

/-! ## The windows of the third pass -/

theorem foldlM_addWindow (length : Nat) (ends : List Nat) (snapshots : Nat → Snapshot Client)
    (n : Nat) : ∃ found : Dict Nat (Dict Client ℤ),
      ((List.range n).map fun i => (i, snapshots i)).foldlM
        (fun found entry => addWindow length ends found entry.1 entry.2)
        (SnapshotRing.new length, Dict.empty) = some (ringAfter length snapshots n, found) ∧
      ∀ t, found.get t =
        if t < n ∧ length ≤ t ∧ t ∈ ends then some (windowAt snapshots length t) else none := by
  induction n with
  | zero => exact ⟨.empty, rfl, fun t => by simp⟩
  | succ n ih =>
      obtain ⟨found, run, entries⟩ := ih
      have add : addWindow length ends (ringAfter length snapshots n, found) n (snapshots n) =
          some (ringAfter length snapshots (n + 1),
            if length ≤ n ∧ n ∈ ends then found.set n (windowAt snapshots length n) else found) := by
        have deltas := @deltas_ringAfter _ _ snapshots _ _ (le_refl length) n
        rw [ringAfter] at deltas
        simp only [addWindow, deltas, Option.map_some]
        by_cases inside : length ≤ n
        · rw [if_pos inside]
          by_cases wanted : n ∈ ends
          · simp only [wanted, inside, and_self, if_true]
            rfl
          · simp only [wanted, and_false, if_false]
            rfl
        · rw [if_neg inside, if_neg fun both => inside both.1]
          rfl
      refine ⟨if length ≤ n ∧ n ∈ ends then found.set n (windowAt snapshots length n) else found,
        ?_, ?_⟩
      · rw [List.range_succ, List.map_append, List.foldlM_append, run]
        simp only [List.map_cons, List.map_nil, List.foldlM_cons, List.foldlM_nil,
          Option.bind_eq_bind, Option.bind_some, Option.pure_def, add]
      · intro t
        by_cases here : t = n
        · subst here
          by_cases recorded : length ≤ t ∧ t ∈ ends
          · rw [if_pos recorded, if_pos ⟨Nat.lt_succ_self t, recorded⟩, Dict.get_set_self]
          · rw [if_neg recorded, if_neg fun all => recorded all.2, entries,
              if_neg fun all => recorded all.2]
        · have other : (if length ≤ n ∧ n ∈ ends then
              found.set n (windowAt snapshots length n) else found).get t = found.get t := by
            split
            · exact Dict.get_set_of_ne _ _ here
            · rfl
          rw [other, entries]
          congr 1
          apply propext
          constructor
          · exact fun all => ⟨by omega, all.2⟩
          · exact fun all => ⟨by omega, all.2⟩

theorem clientWindowDeltas_eq {rows : List (Row Client)} (ordered : InOrder rows) (length : Nat)
    (ends : List Nat) (chosen : List Client) : ∃ found,
      clientWindowDeltas (analyzeLiveCsv rows) length ends chosen rows = some found ∧
      ∀ client ∈ chosen, ∀ t ∈ ends, t < (analyzeLiveCsv rows).intervalTimes.length → length ≤ t →
        ((found.get t).getD .empty).get client =
          (windowAt (snapshotOf (samplesRead (analyzeLiveCsv rows) rows)) length t).get client := by
  rw [clientWindowDeltas]
  split
  case isTrue nothing =>
      refine ⟨.empty, rfl, ?_⟩
      rintro client chosen t wanted
      rcases nothing with rfl | rfl
      · cases wanted
      · cases chosen
  case isFalse =>
      rw [iterIntervalSnapshots_some ordered]
      obtain ⟨found, run, entries⟩ := foldlM_addWindow length ends
        (snapshotOf ((samplesRead (analyzeLiveCsv rows) rows).filter (·.2.1 ∈ chosen.toFinset)))
        (analyzeLiveCsv rows).intervalTimes.length
      refine ⟨found, by rw [run]; rfl, ?_⟩
      intro client member t wanted inside long
      rw [entries, if_pos ⟨inside, long, wanted⟩, Option.getD_some]
      apply get_windowAt_congr
      funext i
      exact get_snapshotOf_filter _ (List.mem_toFinset.mpr member) i

/-! ## The second pass at an interval -/

def secondPassWindow (settings : SteadySettings) (rows : List (Row Client)) (label : WindowLabel)
    (t : Nat) : Option (Dict Client ℤ) :=
  let domain := analyzeLiveCsv rows
  (((iterIntervalSnapshots domain none rows).take (t + 1)).foldlM
    (fun pass entry => SteadyPass.complete pass settings domain.intervalTimes entry.1 entry.2)
    (.new settings domain.clients)).bind fun pass =>
      (pass.ring.deltas t (t - settings.lengthIntervals label) none).join

theorem secondPassWindow_eq (settings : SteadySettings) {rows : List (Row Client)}
    (ordered : InOrder rows) (label : WindowLabel) {t : Nat}
    (inside : t < (analyzeLiveCsv rows).intervalTimes.length)
    (long : settings.lengthIntervals label ≤ t) : secondPassWindow settings rows label t =
      some (windowAt (snapshotOf (samplesRead (analyzeLiveCsv rows) rows))
        (settings.lengthIntervals label) t) := by
  rw [secondPassWindow, iterIntervalSnapshots_none ordered, ← List.map_take, List.take_range,
    Nat.min_eq_left (by omega), foldlM_complete, Option.bind_some,
    (follows_passAfter (analyzeLiveCsv rows).clients (t + 1)).ring,
    deltas_ringAfter (lengthIntervals_le_depth label), if_pos long]
  rfl

/-! ## Both passes -/

def ratiosInside (steady : SteadyAnalysis Client) (detail : WindowedClientDetail Client)
    (client : Client) : List ℚ :=
  ((steady.series .fiveSeconds).zip (detail.ratios client)).filterMap fun entry =>
    if entry.1.inSteady then entry.2 else none

/-- The third pass has the second one's ratios of a client, and its statistics count them. -/
structure Reproduces (settings : SteadySettings) (rows : List (Row Client))
    (steady : SteadyAnalysis Client) (detail : WindowedClientDetail Client) (client : Client) :
    Prop where
  ratio : ∀ (k : Nat) point, (steady.series .fiveSeconds)[k]? = some point →
    ∃ deltas ratio, secondPassWindow settings rows .fiveSeconds point.endInterval = some deltas ∧
      (detail.ratios client)[k]? = some ratio ∧
      ∀ value, ratio = some value ↔ ∃ bytes median, deltas.get client = some bytes ∧
        point.medianBytes = some median ∧ 0 < median ∧ value = bytes / median
  counts : Counts settings ((steady.clients.get client).getD .new)
    (ratiosInside steady detail client)

theorem windowAt_nonneg {snapshots : Nat → Snapshot Client} {length t : Nat} {client : Client}
    {bytes : ℤ} (found : (windowAt snapshots length t).get client = some bytes) : 0 ≤ bytes :=
  windowDeltas_nonneg found

theorem ratioAt_eq_some_iff {settings : SteadySettings} {runtimes : List ℤ}
    {snapshots : Nat → Snapshot Client} {label : WindowLabel} {client : Client} {t : Nat}
    {value : ℚ} : ratioAt settings runtimes snapshots label client t = some value ↔
      ∃ bytes median, (windowAt snapshots (settings.lengthIntervals label) t).get client =
        some bytes ∧ (pointAt settings runtimes snapshots label t).medianBytes = some median ∧
        0 < median ∧ value = bytes / median := by
  have bounded : (pointAt settings runtimes snapshots label t).Bounded :=
    bounded_windowPoint (fun _ _ => windowAt_nonneg) _ _
  rw [ratioAt]
  cases (windowAt snapshots (settings.lengthIntervals label) t).get client with
  | none => simp
  | some bytes =>
    cases held : (pointAt settings runtimes snapshots label t).medianBytes with
    | none => simp
    | some median =>
        have nonneg := bounded.median median held
        by_cases zero : median = 0
        · simp [zero]
        · have positive := lt_of_le_of_ne nonneg (Ne.symm zero)
          simp [zero, positive, eq_comm]

theorem analyzeSteady_eq (settings : SteadySettings) {rows : List (Row Client)}
    (ordered : InOrder rows) : ∃ steady n,
      analyzeSteady settings (analyzeLiveCsv rows) rows = some steady ∧
      n ≤ (analyzeLiveCsv rows).intervalTimes.length ∧
      (∀ label, steady.series label = seriesAfter settings (analyzeLiveCsv rows).intervalTimes
        (snapshotOf (samplesRead (analyzeLiveCsv rows) rows)) label n) ∧
      ∀ client, Counts settings ((steady.clients.get client).getD .new)
        (countedRatios settings (analyzeLiveCsv rows).intervalTimes
          (snapshotOf (samplesRead (analyzeLiveCsv rows) rows)) client n) := by
  rw [analyzeSteady]
  cases allStartedInterval (analyzeLiveCsv rows).clients with
  | none =>
      refine ⟨_, 0, rfl, Nat.zero_le _, fun _ => rfl, fun client => ?_⟩
      rw [Dict.get_filterMap]
      cases (analyzeLiveCsv rows).clients.get client <;> exact ⟨rfl, rfl, rfl, rfl⟩
  | some =>
      refine ⟨⟨_, _⟩, _, by rw [steadyPass_eq ordered]; rfl, le_rfl, ?_, ?_⟩
      · exact series_passAfter _ _
      · exact counts_passAfter _ _

theorem bounded_series {settings : SteadySettings} {runtimes : List ℤ}
    {snapshots : Nat → Snapshot Client} {label : WindowLabel} {n : Nat} {point : WindowPoint}
    (member : point ∈ seriesAfter settings runtimes snapshots label n) : point.Bounded := by
  obtain ⟨t, _, rfl⟩ := List.mem_map.mp member
  exact bounded_windowPoint (fun _ _ => windowAt_nonneg) _ _

theorem collect_eq (settings : SteadySettings) {rows : List (Row Client)} (ordered : InOrder rows)
    {steady : SteadyAnalysis Client} {n : Nat}
    (within : n ≤ (analyzeLiveCsv rows).intervalTimes.length)
    (series : steady.series .fiveSeconds =
      seriesAfter settings (analyzeLiveCsv rows).intervalTimes
        (snapshotOf (samplesRead (analyzeLiveCsv rows) rows)) .fiveSeconds n)
    (chosen : List Client) : ∃ detail,
      collectWindowedClientDetail settings (analyzeLiveCsv rows) steady chosen rows = some detail ∧
      ∀ client ∈ chosen, detail.ratios client =
        ((List.range n).filter (settings.lengthIntervals .fiveSeconds ≤ ·)).map
          (ratioAt settings (analyzeLiveCsv rows).intervalTimes
            (snapshotOf (samplesRead (analyzeLiveCsv rows) rows)) .fiveSeconds client) := by
  obtain ⟨found, run, windows⟩ := clientWindowDeltas_eq ordered
    (settings.lengthIntervals .fiveSeconds) ((steady.series .fiveSeconds).map (·.endInterval))
    chosen.eraseDups
  rw [collectWindowedClientDetail]
  simp only [run, Option.map_some]
  refine ⟨_, rfl, ?_⟩
  intro client member
  simp only [series, seriesAfter, List.map_map]
  apply List.map_congr_left
  intro t inside
  obtain ⟨before, long⟩ := List.mem_filter.mp inside
  have wanted : t ∈ (steady.series .fiveSeconds).map (·.endInterval) := by
    rw [series, seriesAfter, List.map_map]
    exact List.mem_map.mpr ⟨t, inside, rfl⟩
  have bytes := windows client (List.mem_eraseDups.mpr member) t wanted
    ((List.mem_range.mp before).trans_le within) (by simpa using long)
  simp only [Function.comp_apply, ratioAt]
  rw [← bytes]
  rfl

theorem reproduces_of_eq (settings : SteadySettings) {rows : List (Row Client)}
    (ordered : InOrder rows) {steady : SteadyAnalysis Client}
    {detail : WindowedClientDetail Client} {n : Nat} {client : Client}
    (within : n ≤ (analyzeLiveCsv rows).intervalTimes.length)
    (series : steady.series .fiveSeconds =
      seriesAfter settings (analyzeLiveCsv rows).intervalTimes
        (snapshotOf (samplesRead (analyzeLiveCsv rows) rows)) .fiveSeconds n)
    (ratios : detail.ratios client =
      ((List.range n).filter (settings.lengthIntervals .fiveSeconds ≤ ·)).map
        (ratioAt settings (analyzeLiveCsv rows).intervalTimes
          (snapshotOf (samplesRead (analyzeLiveCsv rows) rows)) .fiveSeconds client))
    (counts : Counts settings ((steady.clients.get client).getD .new)
      (countedRatios settings (analyzeLiveCsv rows).intervalTimes
        (snapshotOf (samplesRead (analyzeLiveCsv rows) rows)) client n)) :
    Reproduces settings rows steady detail client where
  ratio := by
    intro k point found
    rw [series, seriesAfter, List.getElem?_map] at found
    obtain ⟨t, held, rfl⟩ := Option.map_eq_some_iff.mp found
    obtain ⟨before, long⟩ := List.mem_filter.mp (List.mem_of_getElem? held)
    have window := secondPassWindow_eq settings ordered .fiveSeconds
      ((List.mem_range.mp before).trans_le within) (of_decide_eq_true long)
    refine ⟨_, ratioAt settings (analyzeLiveCsv rows).intervalTimes
      (snapshotOf (samplesRead (analyzeLiveCsv rows) rows)) .fiveSeconds client t, window, ?_, ?_⟩
    · rw [ratios, List.getElem?_map, held]
      rfl
    · intro value
      exact ratioAt_eq_some_iff
  counts := by
    have inside : ratiosInside steady detail client =
        countedRatios settings (analyzeLiveCsv rows).intervalTimes
          (snapshotOf (samplesRead (analyzeLiveCsv rows) rows)) client n := by
      rw [ratiosInside, series, seriesAfter, ratios, List.zip_map', List.filterMap_map,
        List.filterMap_filter, countedRatios]
      apply List.filterMap_congr
      intro t _
      simp only [countedRatio, Function.comp_apply, decide_eq_true_eq]
      by_cases long : settings.lengthIntervals .fiveSeconds ≤ t
      · simp only [long, true_and, if_true]
      · simp only [long, false_and, if_false]
    rw [inside]
    exact counts

/-- For rows in the order of their intervals, the third pass collects exactly the ratios of the
windows in which the second pass counts a chosen client, the client's statistics count those inside
the steady window, and the index of every window lies in `(0, 1]`. -/
theorem detail_reproduces (settings : SteadySettings) (rows : List (Row Client))
    (ordered : InOrder rows) (chosen : List Client) : ∃ steady detail,
      analyzeSteady settings (analyzeLiveCsv rows) rows = some steady ∧
      collectWindowedClientDetail settings (analyzeLiveCsv rows) steady chosen rows = some detail ∧
      (∀ client ∈ chosen, Reproduces settings rows steady detail client) ∧
      ∀ label, ∀ point ∈ steady.series label, point.Bounded := by
  obtain ⟨steady, n, analysed, within, series, counts⟩ := analyzeSteady_eq settings ordered
  obtain ⟨detail, collected, ratios⟩ :=
    collect_eq settings ordered within (series .fiveSeconds) chosen
  refine ⟨steady, detail, analysed, collected, ?_, ?_⟩
  · intro client member
    exact reproduces_of_eq settings ordered within (series .fiveSeconds) (ratios client member)
      (counts client)
  · intro label point member
    rw [series label] at member
    exact bounded_series member

def fourIntervals : List (Row Char) := [
  ⟨1000, "", .client 'c' (some 0)⟩, ⟨1000, "", .client 'b' (some 0)⟩,
  ⟨6000, "", .client 'c' (some 10)⟩, ⟨6000, "", .client 'b' (some 6)⟩,
  ⟨11000, "", .client 'c' (some 20)⟩, ⟨11000, "", .client 'b' (some 16)⟩,
  ⟨16000, "", .client 'c' (some 30)⟩, ⟨16000, "", .client 'b' (some 18)⟩]

/-- Intervals of 5 s, and a steady window that leaves out the first window. -/
def fives : SteadySettings := ⟨some ⟨1, 3, 6000, 16000⟩, 5000, none, 5⟩

theorem inOrder_fourIntervals : InOrder fourIntervals := by
  unfold InOrder
  decide +kernel

theorem percentile_pair (a b : ℚ) (le : a ≤ b) :
    percentileFromSorted (({a, b} : Multiset ℚ).sort) 50 = (a + b) / 2 := by
  have sort : ({a, b} : Multiset ℚ).sort = [a, b] := by
    rw [Multiset.insert_eq_cons, Multiset.sort_cons, Multiset.sort_singleton]
    simpa using le
  have floor : ⌊(1 / 2 : ℚ)⌋ = 0 := by norm_num [Int.floor_eq_iff]
  have ceil : ⌈(1 / 2 : ℚ)⌉ = 1 := by norm_num [Int.ceil_eq_iff]
  have position : (([a, b].length : ℚ) - 1) * 50 / 100 = 1 / 2 := by norm_num
  rw [sort]
  simp only [percentileFromSorted, position, floor, ceil]
  norm_num
  ring

omit [DecidableEq Client] in
theorem ratiosInside_eq (steady : SteadyAnalysis Client) (detail : WindowedClientDetail Client)
    (client : Client) : ratiosInside steady detail client =
      (((steady.series .fiveSeconds).map (·.inSteady)).zip (detail.ratios client)).filterMap
        fun entry => if entry.1 then entry.2 else none := by
  rw [List.zip_map_left, List.filterMap_map]
  rfl

theorem ratioAt_of_pair (settings : SteadySettings) (runtimes : List ℤ)
    {snapshots : Nat → Snapshot Client} {label : WindowLabel} {client : Client} {t : Nat}
    (bytes a b : ℤ)
    (found : (windowAt snapshots (settings.lengthIntervals label) t).get client = some bytes)
    (values : (windowAt snapshots (settings.lengthIntervals label) t).values = {a, b})
    (positive : 0 < a) (le : a ≤ b) :
    ratioAt settings runtimes snapshots label client t = some (bytes / ((a + b : ℚ) / 2)) := by
  have above : (0 : ℚ) < a := by exact_mod_cast positive
  have ordered : (a : ℚ) ≤ b := by exact_mod_cast le
  have scaled : ((windowAt snapshots (settings.lengthIntervals label) t).values.map
      fun bytes : ℤ => (bytes : ℚ)) = {(a : ℚ), (b : ℚ)} := by
    rw [values]
    rfl
  have median : (pointAt settings runtimes snapshots label t).medianBytes =
      some ((a + b : ℚ) / 2) := by
    rw [pointAt, windowPoint]
    simp only [scaled, percentile_pair _ _ ordered]
    rfl
  have nonzero : ((a : ℚ) + b) / 2 ≠ 0 := by linarith
  rw [ratioAt, found, median]
  simp only [if_pos nonzero]

theorem detail_reproduces_four : ∃ steady detail,
    analyzeSteady fives (analyzeLiveCsv fourIntervals) fourIntervals = some steady ∧
    collectWindowedClientDetail fives (analyzeLiveCsv fourIntervals) steady ['b'] fourIntervals =
      some detail ∧
    Reproduces fives fourIntervals steady detail 'b' ∧
    detail.ratios 'b' = [some (3 / 4), some 1, some (1 / 3)] ∧
    (let stats := (steady.clients.get 'b').getD .new
     stats.windows5s = 2 ∧ stats.short5s = 1 ∧ stats.worst5sRatio = some (1 / 3)) := by
  obtain ⟨steady, detail, analysed, collected, reproduces, _⟩ :=
    detail_reproduces fives fourIntervals inOrder_fourIntervals ['b']
  have reproduced := reproduces 'b' (List.mem_singleton_self 'b')
  have inside : (analyzeSteady fives (analyzeLiveCsv fourIntervals) fourIntervals).map
      (fun steady => (steady.series .fiveSeconds).map (·.inSteady)) =
      some [false, true, true] := by
    decide +kernel
  rw [analysed, Option.map_some, Option.some_inj] at inside
  have ratios : detail.ratios 'b' = [some (3 / 4), some 1, some (1 / 3)] := by
    obtain ⟨_, n, here, within, series, _⟩ := analyzeSteady_eq fives inOrder_fourIntervals
    rw [analysed, Option.some_inj] at here
    subst here
    have windows : ∀ k ≤ 4,
        ((List.range k).filter (fives.lengthIntervals .fiveSeconds ≤ ·)).length = 3 → k = 4 := by
      decide +kernel
    have intervals : (analyzeLiveCsv fourIntervals).intervalTimes.length = 4 := by decide +kernel
    have length := congrArg List.length inside
    rw [List.length_map, series, seriesAfter, List.length_map] at length
    obtain rfl : n = 4 := windows n (intervals ▸ within) length
    obtain ⟨_, here, ratios⟩ := collect_eq fives inOrder_fourIntervals within
      (series .fiveSeconds) ['b']
    rw [collected, Option.some_inj] at here
    subst here
    have ends : (List.range 4).filter (fives.lengthIntervals .fiveSeconds ≤ ·) = [1, 2, 3] := by
      decide +kernel
    rw [ratios 'b' (List.mem_singleton_self 'b'), ends, List.map_cons, List.map_cons, List.map_cons,
      List.map_nil,
      ratioAt_of_pair fives _ 6 6 10 (by decide +kernel) (by decide +kernel) (by decide)
        (by decide),
      ratioAt_of_pair fives _ 10 10 10 (by decide +kernel) (by decide +kernel) (by decide)
        (by decide),
      ratioAt_of_pair fives _ 2 2 10 (by decide +kernel) (by decide +kernel) (by decide)
        (by decide)]
    norm_num
  refine ⟨steady, detail, analysed, collected, reproduced, ratios, ?_⟩
  have counted : ratiosInside steady detail 'b' = [1, 1 / 3] := by
    rw [ratiosInside_eq, inside, ratios]
    rfl
  have counts := reproduced.counts
  rw [counted] at counts
  refine ⟨counts.windows, counts.short.trans ?_, counts.worst.trans ?_⟩
  · decide +kernel
  · decide +kernel

/-! ## Rows out of order -/

/-- The last rows of 2000 ms come after rows whose RuntimeMS names a later interval. -/
def outOfOrder : List (Row Char) := [
  ⟨1000, "", .client 'c' (some 0)⟩, ⟨1000, "", .client 'b' (some 0)⟩,
  ⟨2000, "", .client 'c' (some 10)⟩, ⟨3000, "", .client 'a' (some 0)⟩,
  ⟨2000, "", .client 'b' (some 5)⟩, ⟨3000, "", .client 'a' (some 0)⟩]

/-- Intervals of 1667 ms: a window of 5 s has three of them. -/
def thirds : SteadySettings := ⟨none, 1667, none, 5⟩

/-- The second pass has skipped the row of `b` for which the third one collects a ratio. -/
theorem outOfOrder_differs :
    ((secondPassWindow thirds outOfOrder .fiveSeconds 3).map (·.get 'b')) = some none ∧
    ((analyzeSteady thirds (analyzeLiveCsv outOfOrder) outOfOrder).bind fun steady =>
      (collectWindowedClientDetail thirds (analyzeLiveCsv outOfOrder) steady ['b']
        outOfOrder).map fun detail =>
          ((steady.series .fiveSeconds).map (·.endInterval), detail.ratios 'b')) =
      some ([3, 4], [some (1 / 2), none]) := by
  decide +kernel

end StorageScaleTest.Live
