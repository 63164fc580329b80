import StorageScaleTest.Live.Steady
import StorageScaleTest.Proof.Live.Intervals
import StorageScaleTest.Proof.Live.Ring

/-!
# Interval snapshots

A stream whose client rows come in the order of their intervals yields, for each interval, the last
DoneBytes of its clients.
-/

namespace StorageScaleTest.Live

open Samples

variable {Client : Type} [DecidableEq Client]

/-! ## Samples in order -/

def snapshotOf (samples : List (Nat × Client × ℤ)) (i : Nat) : Snapshot Client :=
  Dict.empty.setAll ((samples.filter (·.1 = i)).map (·.2))

theorem snapshotsFrom_sorted {count current : Nat} {samples : List (Nat × Client × ℤ)}
    (sorted : samples.Pairwise (·.1 ≤ ·.1)) (begun : ∀ sample ∈ samples, current ≤ sample.1)
    (within : ∀ sample ∈ samples, sample.1 < count) (snapshot : Snapshot Client) :
    snapshotsFrom count current snapshot samples =
      (List.range' current (count - current)).map fun i =>
        (i, (if i = current then snapshot else .empty).setAll
          ((samples.filter (·.1 = i)).map (·.2))) := by
  induction samples generalizing current snapshot with
  | nil => rfl
  | cons sample samples ih =>
      obtain ⟨interval, client, doneBytes⟩ := sample
      obtain ⟨first, sorted⟩ := List.pairwise_cons.mp sorted
      have le : current ≤ interval := begun _ List.mem_cons_self
      have lt : interval < count := within _ List.mem_cons_self
      have later : ∀ sample ∈ samples, sample.1 < count :=
        fun sample member => within sample (List.mem_cons_of_mem _ member)
      have split : List.range' current (count - current) =
          List.range' current (interval - current) ++ List.range' interval (count - interval) := by
        rw [show count - current = (interval - current) + (count - interval) by omega,
          ← List.range'_append_1, show current + (interval - current) = interval by omega]
      rw [snapshotsFrom, if_neg (not_lt.mpr le), ih sorted first later, split, List.map_append]
      congr 1
      · rw [completed]
        apply List.map_congr_left
        intro i member
        have before : i < interval := by
          have bounds := List.mem_range'_1.mp member
          omega
        have none : ((interval, client, doneBytes) :: samples).filter (·.1 = i) = [] := by
          rw [List.filter_eq_nil_iff]
          intro sample inSamples
          rcases List.mem_cons.mp inSamples with rfl | inSamples
          · simpa using before.ne'
          · have := first sample inSamples
            simp only [decide_eq_true_eq]
            omega
        rw [none]
        rfl
      · apply List.map_congr_left
        intro i member
        have from_ : interval ≤ i := (List.mem_range'_1.mp member).1
        by_cases here : i = interval
        · subst here
          rw [List.filter_cons_of_pos (by simp), if_pos rfl]
          by_cases moved : current < i
          · rw [if_pos moved, if_neg moved.ne']
            rfl
          · rw [if_neg moved, if_pos (by omega)]
            rfl
        · rw [List.filter_cons_of_neg (by simpa using Ne.symm here), if_neg here,
            if_neg (by omega)]

/-! ## The rows that a pass reads -/

def samplesRead (domain : DomainAnalysis Client) (rows : List (Row Client)) :
    List (Nat × Client × ℤ) :=
  if domain.clients.keys ≠ ∅ then domainClientRows domain none rows else []

theorem domainClientRows_some (domain : DomainAnalysis Client) (wanted : Finset Client)
    (rows : List (Row Client)) : domainClientRows domain (some wanted) rows =
      (domainClientRows domain none rows).filter (·.2.1 ∈ wanted) := by
  induction rows with
  | nil => rfl
  | cons row rows ih =>
      simp only [domainClientRows, List.filterMap_cons] at ih ⊢
      cases row.sample with
      | none => exact ih
      | some sample =>
          obtain ⟨client, doneBytes⟩ := sample
          cases domain.runtimeToInterval.get row.runtimeMs with
          | none => by_cases chosen : client ∈ wanted <;> simpa [chosen] using ih
          | some interval => by_cases chosen : client ∈ wanted <;> simpa [chosen] using ih

theorem runtimeToInterval_lt (rows : List (Row Client)) {runtimeMs : ℤ} {i : Nat}
    (found : (analyzeLiveCsv rows).runtimeToInterval.get runtimeMs = some i) :
    i < (analyzeLiveCsv rows).intervalTimes.length := by
  let Bounded (state : DomainState Client) : Prop := ∀ runtimeMs i,
    state.analysis.runtimeToInterval.get runtimeMs = some i → i < state.analysis.intervalTimes.length
  have flush : ∀ state : DomainState Client, Bounded state → Bounded (flushInterval state) := by
    intro state bounded runtimeMs i found
    cases held : state.buffer with
    | none =>
        rw [flushInterval, held] at found ⊢
        exact bounded runtimeMs i found
    | some buffer =>
        rw [flushInterval, held] at found ⊢
        simp only [flushBuffer, Dict.get_set, List.length_append, List.length_singleton] at found ⊢
        split at found
        · cases found
          omega
        · have := bounded runtimeMs i found
          omega
  have step : ∀ (state : DomainState Client) row, Bounded state → Bounded (addRow state row) := by
    intro state row bounded
    cases held : state.buffer with
    | none =>
        simp only [addRow, advanceBuffer, held]
        exact bounded
    | some buffer =>
        simp only [addRow, advanceBuffer, held]
        split
        · exact flush state bounded
        · exact bounded
  have run : ∀ (rows : List (Row Client)) (state : DomainState Client), Bounded state →
      Bounded (rows.foldl addRow state) := by
    intro rows
    induction rows with
    | nil => exact fun _ bounded => bounded
    | cons row rows ih => exact fun state bounded => ih _ (step state row bounded)
  have start : Bounded (.new : DomainState Client) := by
    intro runtimeMs i found
    cases found
  exact flush _ (run rows _ start) runtimeMs i found

theorem domainClientRows_lt (rows : List (Row Client)) {sample : Nat × Client × ℤ}
    (member : sample ∈ samplesRead (analyzeLiveCsv rows) rows) :
    sample.1 < (analyzeLiveCsv rows).intervalTimes.length := by
  rw [samplesRead] at member
  split at member
  · obtain ⟨row, _, read⟩ := List.mem_filterMap.mp member
    split at read
    · cases read
    · obtain ⟨interval, found, rfl⟩ := Option.map_eq_some_iff.mp (by simpa using read)
      exact runtimeToInterval_lt rows found
  · cases member

/-- The client rows come in the order of the intervals that their RuntimeMS name. -/
def InOrder (rows : List (Row Client)) : Prop :=
  (samplesRead (analyzeLiveCsv rows) rows).Pairwise (·.1 ≤ ·.1)

theorem snapshotsFrom_start {count : Nat} {samples : List (Nat × Client × ℤ)}
    (sorted : samples.Pairwise (·.1 ≤ ·.1)) (within : ∀ sample ∈ samples, sample.1 < count) :
    snapshotsFrom count 0 .empty samples =
      (List.range count).map fun i => (i, snapshotOf samples i) := by
  rw [snapshotsFrom_sorted sorted (fun _ _ => Nat.zero_le _) within, List.range_eq_range']
  simp only [ite_self, snapshotOf, Nat.sub_zero]

theorem iterIntervalSnapshots_none {rows : List (Row Client)} (ordered : InOrder rows) :
    iterIntervalSnapshots (analyzeLiveCsv rows) none rows =
      (List.range (analyzeLiveCsv rows).intervalTimes.length).map fun i =>
        (i, snapshotOf (samplesRead (analyzeLiveCsv rows) rows) i) := by
  rw [← snapshotsFrom_start ordered fun sample member => domainClientRows_lt rows member]
  simp [iterIntervalSnapshots, samplesRead]

theorem iterIntervalSnapshots_some {rows : List (Row Client)} (ordered : InOrder rows)
    (wanted : Finset Client) : iterIntervalSnapshots (analyzeLiveCsv rows) (some wanted) rows =
      (List.range (analyzeLiveCsv rows).intervalTimes.length).map fun i =>
        (i, snapshotOf ((samplesRead (analyzeLiveCsv rows) rows).filter (·.2.1 ∈ wanted)) i) := by
  rw [← snapshotsFrom_start (List.Pairwise.filter _ ordered) fun sample member =>
    domainClientRows_lt rows (List.mem_of_mem_filter member)]
  rw [iterIntervalSnapshots, samplesRead, domainClientRows_some]
  congr 1
  by_cases clients : (analyzeLiveCsv rows).clients.keys = ∅
  · simp [clients]
  · by_cases nobody : wanted = ∅
    · simp [nobody]
    · simp [clients, nobody]

theorem get_snapshotOf_filter (samples : List (Nat × Client × ℤ)) {wanted : Finset Client}
    {client : Client} (chosen : client ∈ wanted) (i : Nat) :
    (snapshotOf (samples.filter (·.2.1 ∈ wanted)) i).get client =
      (snapshotOf samples i).get client := by
  have kept := Dict.get_setAll_filter (p := fun client => decide (client ∈ wanted))
    (rfl : (Dict.empty : Snapshot Client).get client = _) (decide_eq_true chosen)
    ((samples.filter (·.1 = i)).map (·.2))
  rw [snapshotOf, snapshotOf, ← kept, List.filter_map, List.filter_filter, List.filter_filter]
  congr 3
  apply List.filter_congr
  intro sample _
  exact Bool.and_comm _ _

/-! ## Streams in order -/

theorem Interval.snapshot_eq (interval : Interval Client) :
    interval.snapshot = Dict.empty.setAll (interval.rows.filterMap (·.sample)) := by
  have fill : ∀ (rows : List (Row Client)) (buffer : IntervalBuffer Client),
      (rows.foldl .addRow buffer).clientRows =
        buffer.clientRows.setAll (rows.filterMap (·.sample)) := by
    intro rows
    induction rows with
    | nil => exact fun _ => rfl
    | cons row rows ih =>
        intro buffer
        rw [List.foldl_cons, ih, List.filterMap_cons]
        obtain ⟨runtimeMs, isoTimestamp, kind⟩ := row
        cases kind with
        | total => rfl
        | unranked => rfl
        | client client doneBytes => cases doneBytes <;> rfl
  exact fill _ _

/-- The samples of intervals that follow each other, the first one numbered `k`. -/
def samplesFrom (k : Nat) : List (Interval Client) → List (Nat × Client × ℤ)
  | [] => []
  | interval :: rest =>
    (interval.rows.filterMap (·.sample)).map (fun sample => (k, sample)) ++ samplesFrom (k + 1) rest

omit [DecidableEq Client] in
theorem le_of_mem_samplesFrom {k : Nat} {intervals : List (Interval Client)}
    {sample : Nat × Client × ℤ} (member : sample ∈ samplesFrom k intervals) : k ≤ sample.1 := by
  induction intervals generalizing k with
  | nil => cases member
  | cons interval rest ih =>
      rcases List.mem_append.mp member with here | later
      · obtain ⟨_, _, rfl⟩ := List.mem_map.mp here
        exact le_rfl
      · exact (Nat.le_succ k).trans (ih later)

omit [DecidableEq Client] in
theorem samplesFrom_sorted (k : Nat) (intervals : List (Interval Client)) :
    (samplesFrom k intervals).Pairwise (·.1 ≤ ·.1) := by
  induction intervals generalizing k with
  | nil => exact List.Pairwise.nil
  | cons interval rest ih =>
      rw [samplesFrom, List.pairwise_append]
      refine ⟨?_, ih (k + 1), ?_⟩
      · rw [List.pairwise_map]
        exact List.pairwise_of_forall fun _ _ => le_rfl
      · intro sample here later member
        obtain ⟨_, _, rfl⟩ := List.mem_map.mp here
        exact (Nat.le_succ k).trans (le_of_mem_samplesFrom member)

theorem snapshotOf_samplesFrom (k : Nat) (intervals : List (Interval Client)) (i : Nat) :
    snapshotOf (samplesFrom k intervals) (k + i) =
      (intervals[i]?.map (·.snapshot)).getD .empty := by
  have all : ∀ (j : Nat) (entries : List (Client × ℤ)),
      (entries.map fun sample => (j, sample)).filter (·.1 = j) =
        entries.map fun sample => (j, sample) := by
    intro j entries
    rw [List.filter_eq_self]
    intro sample member
    obtain ⟨_, _, rfl⟩ := List.mem_map.mp member
    exact decide_eq_true rfl
  induction intervals generalizing k i with
  | nil => rfl
  | cons interval rest ih =>
      rw [snapshotOf, samplesFrom, List.filter_append]
      cases i with
      | zero =>
          have later : (samplesFrom (k + 1) rest).filter (·.1 = k + 0) = [] := by
            rw [List.filter_eq_nil_iff]
            intro sample member
            have := le_of_mem_samplesFrom member
            simp only [decide_eq_true_eq]
            omega
          rw [later, List.append_nil, Nat.add_zero, all, List.map_map]
          simp [interval.snapshot_eq, Function.comp_def]
      | succ i =>
          have earlier : ((interval.rows.filterMap (·.sample)).map (fun sample => (k, sample))).filter
              (·.1 = k + (i + 1)) = [] := by
            rw [List.filter_eq_nil_iff]
            intro sample member
            obtain ⟨_, _, rfl⟩ := List.mem_map.mp member
            simp only [decide_eq_true_eq]
            omega
          rw [earlier, List.nil_append, show k + (i + 1) = k + 1 + i by omega]
          exact ih (k + 1) i

theorem domainClientRows_flatMap {domain : DomainAnalysis Client} {k : Nat}
    {intervals : List (Interval Client)}
    (named : ∀ i (inside : i < intervals.length),
      domain.runtimeToInterval.get (intervals[i].runtimeMs) = some (k + i)) :
    domainClientRows domain none (intervals.flatMap (·.rows)) = samplesFrom k intervals := by
  induction intervals generalizing k with
  | nil => rfl
  | cons interval rest ih =>
      have tail : domainClientRows domain none (rest.flatMap (·.rows)) =
          samplesFrom (k + 1) rest := by
        apply ih
        intro i inside
        have := named (i + 1) (by simpa using inside)
        rw [show k + 1 + i = k + (i + 1) by omega]
        simpa using this
      have head : domainClientRows domain none interval.rows =
          (interval.rows.filterMap (·.sample)).map fun sample => (k, sample) := by
        rw [domainClientRows, List.map_filterMap]
        apply List.filterMap_congr
        intro row member
        have here := named 0 (by simp)
        simp only [List.getElem_cons_zero, Nat.add_zero] at here
        rw [interval.same row member, here]
        cases row.sample with
        | none => rfl
        | some sample => rfl
      rw [List.flatMap_cons, samplesFrom, ← tail, ← head]
      exact List.filterMap_append

theorem clients_flushed (intervals : List (Interval Client)) (client : Client) :
    ((flushed intervals).analysis.clients.get client).isSome ↔
      ∃ interval ∈ intervals, (interval.snapshot.get client).isSome := by
  induction intervals using List.reverseRecOn with
  | nil => simp [flushed, DomainState.new]
  | append_singleton intervals interval ih =>
      have step : ((flushed (intervals ++ [interval])).analysis.clients.get client).isSome =
          ((interval.snapshot.get client).isSome ||
            ((flushed intervals).analysis.clients.get client).isSome) := by
        rw [flushed_append]
        simp only [flushBuffer, Interval.snapshot]
        split <;>
          simp only [markMissingClients, Dict.get_filterMap, Dict.get_update] <;>
          cases interval.buffer.clientRows.get client <;>
          cases (flushed intervals).analysis.clients.get client <;> rfl
      rw [step, Bool.or_eq_true, ih]
      simp only [List.mem_append, List.mem_singleton, or_and_right, exists_or, exists_eq_left]
      exact or_comm

namespace Stream

variable (s : Stream Client)

theorem domainClientRows_eq :
    domainClientRows (analyzeLiveCsv s.rows) none s.rows = samplesFrom 0 s.intervals := by
  apply domainClientRows_flatMap
  intro i inside
  rw [analyzeLiveCsv_rows, runtimeToInterval_flushed s.increasing, Nat.zero_add,
    List.getElem?_map, List.getElem?_eq_getElem inside]
  rfl

theorem inOrder : InOrder s.rows := by
  rw [InOrder, samplesRead, s.domainClientRows_eq]
  split
  · exact samplesFrom_sorted 0 s.intervals
  · exact List.Pairwise.nil

theorem snapshotOf_rows (i : Nat) : snapshotOf (samplesRead (analyzeLiveCsv s.rows) s.rows) i =
    (s.intervals[i]?.map (·.snapshot)).getD .empty := by
  rw [samplesRead, s.domainClientRows_eq]
  split
  case isTrue => simpa using snapshotOf_samplesFrom 0 s.intervals i
  case isFalse nobody =>
      cases held : s.intervals[i]? with
      | none => rfl
      | some interval =>
          apply Dict.ext_get
          intro client
          have known := clients_flushed s.intervals client
          rw [← analyzeLiveCsv_rows, ← Dict.mem_keys, not_not.mp nobody] at known
          cases here : interval.snapshot.get client with
          | none => exact here.symm
          | some doneBytes =>
              have member := known.mpr ⟨interval, List.mem_of_getElem? held, by rw [here]; rfl⟩
              exact absurd member (Finset.notMem_empty client)

theorem samplesOf_rows (client : Client) :
    samplesOf (snapshotOf (samplesRead (analyzeLiveCsv s.rows) s.rows)) client =
      s.sample client := by
  funext i
  rw [samplesOf, s.snapshotOf_rows, Stream.sample]
  cases s.intervals[i]? <;> rfl

end Stream

end StorageScaleTest.Live
