import StorageScaleTest.Live.Document
import StorageScaleTest.Proof.Live.Intervals

/-!
# The ISO Dates of aggregate samples

A document has one start time and the clock skew of each aggregate sample, and the Total row of a
sample gets its ISO Date from them.
-/

namespace StorageScaleTest.Live

open Samples

section

variable {Client : Type} [DecidableEq Client]

/-! ## The aggregate points of a stream -/

theorem isoTimestamp_addRow (buffer : IntervalBuffer Client) (row : Row Client) :
    (buffer.addRow row).isoTimestamp = buffer.isoTimestamp := by
  unfold IntervalBuffer.addRow
  split <;> rfl

theorem isoTimestamp_foldl_addRow (rows : List (Row Client)) (buffer : IntervalBuffer Client) :
    (rows.foldl .addRow buffer).isoTimestamp = buffer.isoTimestamp := by
  induction rows generalizing buffer with
  | nil => rfl
  | cons row rows ih => rw [List.foldl_cons, ih, isoTimestamp_addRow]

theorem Interval.isoTimestamp_buffer (interval : Interval Client) :
    interval.buffer.isoTimestamp = (interval.rows.head interval.nonempty).isoTimestamp :=
  isoTimestamp_foldl_addRow _ _

omit [DecidableEq Client] in
theorem mem_recordAggregate {buffer : IntervalBuffer Client} {i : Nat} {point : AggregatePoint}
    (member : point ∈ recordAggregate buffer i) :
    recordAggregate buffer i = [point] ∧ point.interval = i ∧
      point.elapsedMs = buffer.runtimeMs ∧ point.isoTimestamp = buffer.isoTimestamp := by
  unfold recordAggregate at member ⊢
  dsimp only at member ⊢
  generalize (if buffer.ioLatencyUs = some 0 ∧
    (buffer.aggregateIops = none ∨ buffer.aggregateIops = some 0) then none
      else buffer.ioLatencyUs) = ioLatency at member ⊢
  by_cases nothing : buffer.aggregateMibS = none ∧ buffer.aggregateIops = none ∧ ioLatency = none
  · rw [if_pos nothing] at member
    cases member
  · rw [if_neg nothing, List.mem_singleton] at member
    rw [if_neg nothing, member]
    exact ⟨rfl, rfl, rfl, rfl⟩

theorem aggregatePoints_flushed (intervals : List (Interval Client)) :
    (flushed intervals).analysis.aggregatePoints =
      intervals.zipIdx.flatMap fun (interval, i) => recordAggregate interval.buffer i := by
  induction intervals using List.reverseRecOn with
  | nil => rfl
  | append_singleton intervals interval ih =>
      rw [flushed_append, List.zipIdx_append, List.flatMap_append, ← ih]
      simp [flushBuffer, length_intervalTimes]

theorem mem_aggregatePoints {intervals : List (Interval Client)} {point : AggregatePoint}
    (member : point ∈ (flushed intervals).analysis.aggregatePoints) :
    ∃ interval, intervals[point.interval]? = some interval ∧
      recordAggregate interval.buffer point.interval = [point] ∧
      point.elapsedMs = interval.runtimeMs ∧
      point.isoTimestamp = interval.buffer.isoTimestamp := by
  rw [aggregatePoints_flushed] at member
  obtain ⟨⟨interval, i⟩, listed, held⟩ := List.mem_flatMap.mp member
  obtain ⟨only, rfl, elapsed, date⟩ := mem_recordAggregate held
  refine ⟨interval, List.mem_zipIdx_iff_getElem?.mp listed, only, ?_, date⟩
  rw [elapsed, interval.runtimeMs_buffer]

theorem aggregatePoint_unique {s : Stream Client} {point other : AggregatePoint}
    (member : point ∈ (flushed s.intervals).analysis.aggregatePoints)
    (another : other ∈ (flushed s.intervals).analysis.aggregatePoints)
    (same : other.elapsedMs = point.elapsedMs) : other = point := by
  obtain ⟨interval, place, only, elapsed, _⟩ := mem_aggregatePoints member
  obtain ⟨second, otherPlace, otherOnly, otherElapsed, _⟩ := mem_aggregatePoints another
  have here : (s.intervals.map (·.runtimeMs))[point.interval]? = some point.elapsedMs := by
    rw [List.getElem?_map, place, elapsed]
    rfl
  have there : (s.intervals.map (·.runtimeMs))[other.interval]? = some point.elapsedMs := by
    rw [List.getElem?_map, otherPlace, ← same, otherElapsed]
    rfl
  have index : some other.interval = some point.interval := by
    rw [← (runtimeToInterval_flushed s.increasing _ _).mpr here,
      ← (runtimeToInterval_flushed s.increasing _ _).mpr there]
  rw [Option.some.injEq] at index
  rw [index, place, Option.some.injEq] at otherPlace
  rw [index, ← otherPlace, only, List.singleton_inj] at otherOnly
  exact otherOnly.symm

end

/-! ## Start time and skew -/

variable {Date : Type} (dates : IsoDates Date)

/-- The ISO Date of a point is one that the document writes as an offset from the first date. -/
def Datable (first point : AggregatePoint) : Prop :=
  first.isoTimestamp ≠ "" ∧ ∃ start date, dates.split first.isoTimestamp = some start ∧
    dates.split point.isoTimestamp = some date ∧
    dates.format start (dates.milliseconds start date) = point.isoTimestamp

def seriesSample (first point : AggregatePoint) : AggregateSample :=
  aggregateSample (if first.isoTimestamp = "" then none else clockSkew dates first point) point

variable {dates} {points : List AggregatePoint} {first point : AggregatePoint}

theorem samples_aggregateSeries (head : points.head? = some first) :
    (aggregateSeries dates points).samples = points.map (seriesSample dates first) := by
  obtain ⟨rest, rfl⟩ := List.head?_eq_some_iff.mp head
  by_cases dateless : first.isoTimestamp = ""
  · have unskewed : seriesSample dates first = aggregateSample none := by
      funext point
      rw [seriesSample, if_pos dateless]
    rw [aggregateSeries, if_pos dateless, unskewed]
  · have skewed : seriesSample dates first =
        fun point => aggregateSample (clockSkew dates first point) point := by
      funext point
      rw [seriesSample, if_neg dateless]
    rw [aggregateSeries, if_neg dateless, skewed]

theorem isoTimestamp_totalRow (head : points.head? = some first)
    (datable : Datable dates first point) :
    (totalRow dates (aggregateSeries dates points)
      (seriesSample dates first point)).isoTimestamp = point.isoTimestamp := by
  obtain ⟨dated, start, date, splitStart, splitDate, formatted⟩ := datable
  have skew : clockSkew dates first point = some (dates.milliseconds start date -
      (point.elapsedMs - first.elapsedMs)) := by
    simp [clockSkew, splitStart, splitDate, formatted]
  have startTime : (aggregateSeries dates points).startTime = some first.isoTimestamp := by
    obtain ⟨rest, rfl⟩ := List.head?_eq_some_iff.mp head
    rw [aggregateSeries, if_neg dated]
  have origin : ((aggregateSeries dates points).samples.head?.map (·.elapsedMs)).getD 0 =
      first.elapsedMs := by
    rw [samples_aggregateSeries head, List.head?_map, head]
    rfl
  simp only [totalRow, startTime, origin]
  rw [seriesSample, if_neg dated, skew]
  simp [aggregateSample, liveTimestamp, splitStart, formatted]

theorem clockSkew_eq_none (dated : first.isoTimestamp ≠ "")
    (undatable : ¬ Datable dates first point) : clockSkew dates first point = none := by
  unfold clockSkew
  split
  · next start date splitStart splitDate =>
      dsimp only
      rw [if_neg]
      intro formatted
      rw [add_sub_cancel] at formatted
      exact undatable ⟨dated, start, date, splitStart, splitDate, formatted⟩
  · rfl

theorem isoTimestamp_totalRow_undatable (undatable : ¬ Datable dates first point)
    (series : AggregateSeries) :
    (totalRow dates series (seriesSample dates first point)).isoTimestamp = "" := by
  have unskewed : (seriesSample dates first point).clockSkewMs = none := by
    by_cases dated : first.isoTimestamp = ""
    · rw [seriesSample, if_pos dated]
      rfl
    · rw [seriesSample, if_neg dated]
      exact clockSkew_eq_none dated undatable
  unfold totalRow
  rw [unskewed]
  cases series.startTime <;> rfl

/-! ## Samples by RuntimeMS -/

theorem totals_of_mem (head : points.head? = some first) (member : point ∈ points)
    (unique : ∀ other ∈ points, other.elapsedMs = point.elapsedMs → other = point) :
    (totals (aggregateSeries dates points)).get point.elapsedMs =
      some (seriesSample dates first point) := by
  rw [totals, samples_aggregateSeries head, List.map_map]
  apply Dict.get_setAll_of_mem
  · exact List.mem_map.mpr ⟨point, member, rfl⟩
  · intro sample listed
    obtain ⟨other, another, same⟩ := List.mem_map.mp listed
    rw [Function.comp_apply, Prod.mk.injEq] at same
    rw [← same.2, unique other another same.1]

theorem totals_eq_none {runtimeMs : ℤ} (other : ∀ point ∈ points, point.elapsedMs ≠ runtimeMs) :
    (totals (aggregateSeries dates points)).get runtimeMs = none := by
  rw [totals, Dict.get_setAll_of_notMem, Dict.get_empty]
  intro sample listed
  cases head : points.head? with
  | none =>
      obtain rfl := List.head?_eq_none_iff.mp head
      cases listed
  | some first =>
      rw [samples_aggregateSeries head, List.map_map] at listed
      obtain ⟨point, member, same⟩ := List.mem_map.mp listed
      rw [Function.comp_apply, Prod.mk.injEq] at same
      exact other point member same.1

end StorageScaleTest.Live
