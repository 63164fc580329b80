import StorageScaleTest.Report.Reduce
import Mathlib.Algebra.Order.BigOperators.Group.List
import Mathlib.Algebra.Order.Floor.Semifield
import Mathlib.Data.List.Flatten
import Mathlib.Data.List.Sort

/-!
# Decimation keeps peaks and dips

The buckets split the points into nonempty runs, and each keeps its lowest and highest point.
-/

namespace StorageScaleTest.Report

/-! ## Bounds -/

def bound (n count bucket : Nat) : Nat := ⌊(bucket : ℚ) * ((n : ℚ) / count)⌋₊

theorem bound_eq (n count bucket : Nat) : bound n count bucket = bucket * n / count := by
  rw [bound, ← mul_div_assoc, ← Nat.cast_mul, Nat.floor_div_eq_div]

theorem bound_zero (n count : Nat) : bound n count 0 = 0 := by
  simp [bound]

theorem bound_count {n count : Nat} (pos : 0 < count) : bound n count count = n :=
  (bound_eq n count count).trans (Nat.mul_div_cancel_left n pos)

theorem bound_lt {n count : Nat} (pos : 0 < count) (few : count ≤ n) (bucket : Nat) :
    bound n count bucket < bound n count (bucket + 1) := by
  rw [bound_eq, bound_eq]
  calc bucket * n / count + 1
      = (bucket * n + count) / count := (Nat.add_div_right _ pos).symm
    _ ≤ (bucket * n + n) / count := Nat.div_le_div_right (Nat.add_le_add_left few _)
    _ = (bucket + 1) * n / count := by rw [Nat.succ_mul]

theorem flatMap_range' {f : Nat → Nat} (mono : Monotone f) (count : Nat) :
    ((List.range count).flatMap fun b => List.range' (f b) (f (b + 1) - f b)) =
      List.range' (f 0) (f count - f 0) := by
  induction count with
  | zero => simp
  | succ count ih =>
      have start : f count = f 0 + 1 * (f count - f 0) := by
        have := mono (Nat.zero_le count)
        omega
      have length : f (count + 1) - f 0 = f count - f 0 + (f (count + 1) - f count) := by
        have := mono (Nat.zero_le count)
        have := mono (Nat.le_add_right count 1)
        omega
      rw [List.range_succ, List.flatMap_append, ih, List.flatMap_singleton, length,
        ← List.range'_append, ← start]

theorem map_pointAt (points : List Point) :
    (List.range' 0 points.length).map (pointAt points) = points := by
  refine List.ext_getElem (by simp) fun i _ inside => ?_
  simp [pointAt, inside]

/-! ## Extremes of a bucket -/

/-- Points kept from a bucket, with every point of it between two of them. -/
structure Covers (bucket kept : List Point) : Prop where
  some_ : bucket ≠ []
  sublist : kept.Sublist bucket
  length_le : kept.length ≤ 2
  between : ∀ p ∈ bucket, ∃ low ∈ kept, ∃ high ∈ kept, low.2 ≤ p.2 ∧ p.2 ≤ high.2

theorem mem_sortedPair {low high i : Nat} : i ∈ sortedPair low high ↔ i = low ∨ i = high := by
  unfold sortedPair
  split_ifs with equal less
  · simp [equal]
  · simp
  · simp [or_comm]

theorem sortedPair_sorted (low high : Nat) : (sortedPair low high).Pairwise (· < ·) := by
  unfold sortedPair
  split_ifs with equal less
  · simp
  · simpa using less
  · simpa using lt_of_le_of_ne (not_lt.mp less) (Ne.symm equal)

theorem sortedPair_length (low high : Nat) : (sortedPair low high).length ≤ 2 := by
  unfold sortedPair
  split_ifs <;> simp

theorem sortedPair_sublist {low high start length : Nat} (first : low ∈ List.range' start length)
    (second : high ∈ List.range' start length) :
    (sortedPair low high).Sublist (List.range' start length) := by
  have sorted := sortedPair_sorted low high
  refine List.sublist_of_subperm_of_pairwise (r := (· < ·)) ?_ sorted
    (List.pairwise_lt_range' _ (by decide))
  refine List.subperm_of_subset (sorted.imp ne_of_lt) fun i mem => ?_
  rcases mem_sortedPair.mp mem with rfl | rfl
  · exact first
  · exact second

theorem bucketExtremes_covers (points : List Point) {start stop : Nat} (some_ : start < stop) :
    Covers ((List.range' start (stop - start)).map (pointAt points))
      (bucketExtremes points start stop) := by
  let value := fun i => (pointAt points i).2
  have chunk : List.range' start (stop - start) ≠ [] := by
    simpa using Nat.sub_ne_zero_of_lt some_
  obtain ⟨low, lowest_eq⟩ := Option.ne_none_iff_exists'.mp (mt (List.argmin_eq_none (f := value)).mp chunk)
  obtain ⟨high, highest_eq⟩ := Option.ne_none_iff_exists'.mp (mt (List.argmax_eq_none (f := value)).mp chunk)
  have kept : bucketExtremes points start stop = (sortedPair low high).map (pointAt points) := by
    have first : lowest value (List.range' start (stop - start)) = some low := lowest_eq
    have second : highest value (List.range' start (stop - start)) = some high := highest_eq
    simp only [bucketExtremes]
    rw [first, second]
  rw [kept]
  refine ⟨by simpa using chunk, ?_, ?_, ?_⟩
  · exact (sortedPair_sublist (List.argmin_mem lowest_eq) (List.argmax_mem highest_eq)).map _
  · rw [List.length_map]
    exact sortedPair_length low high
  · refine List.forall_mem_map.mpr fun i mem => ?_
    have below : value low ≤ value i := List.le_of_mem_argmin mem lowest_eq
    have above : value i ≤ value high := List.le_of_mem_argmax mem highest_eq
    exact ⟨pointAt points low, List.mem_map_of_mem (mem_sortedPair.mpr (.inl rfl)),
      pointAt points high, List.mem_map_of_mem (mem_sortedPair.mpr (.inr rfl)), below, above⟩

/-! ## Decimation -/

def bucketPoints (points : List Point) (count bucket : Nat) : List Point :=
  let start := bound points.length count bucket
  (List.range' start (bound points.length count (bucket + 1) - start)).map (pointAt points)

def bucketKept (points : List Point) (count bucket : Nat) : List Point :=
  bucketExtremes points (bound points.length count bucket) (bound points.length count (bucket + 1))

/-- A series is decimated in a number of buckets: they make up the series one after another, and the
kept points cover each of them. -/
structure Decimated (points kept : List Point) (count : Nat) : Prop where
  whole : (List.range count).flatMap (bucketPoints points count) = points
  parts : (List.range count).flatMap (bucketKept points count) = kept
  covers : ∀ bucket < count, Covers (bucketPoints points count bucket) (bucketKept points count bucket)

theorem reduce_decimated {points : List Point} {limit : Int} (two : 2 ≤ limit)
    (many : limit < points.length) :
    Decimated points (reduce points limit) (limit / 2).toNat ∧
      ((reduce points limit).length : Int) ≤ limit := by
  let count := (limit / 2).toNat
  have pos : 0 < count := by omega
  have few : count ≤ points.length := by omega
  have increases : ∀ b, bound points.length count b < bound points.length count (b + 1) :=
    bound_lt pos few
  have covers (b : Nat) : Covers (bucketPoints points count b) (bucketKept points count b) :=
    bucketExtremes_covers points (increases b)
  have kept : reduce points limit = (List.range count).flatMap (bucketKept points count) := by
    unfold reduce
    rw [if_neg (not_lt.mpr two), if_pos many]
    refine List.flatMap_congr fun b _ => ?_
    exact if_pos (increases b)
  constructor
  · refine ⟨?_, kept.symm, fun b _ => covers b⟩
    have runs : (List.range count).flatMap (bucketPoints points count) =
        ((List.range count).flatMap fun b => List.range' (bound points.length count b)
          (bound points.length count (b + 1) - bound points.length count b)).map (pointAt points) :=
      List.map_flatMap.symm
    rw [runs, flatMap_range' (strictMono_nat_of_lt_succ increases).monotone, bound_zero, bound_count pos,
      Nat.sub_zero]
    exact map_pointAt points
  · have length : ((List.range count).flatMap (bucketKept points count)).length ≤ count * 2 := by
      rw [List.length_flatMap]
      have each : ∀ n ∈ (List.range count).map fun b => (bucketKept points count b).length, n ≤ 2 :=
        List.forall_mem_map.mpr fun b _ => (covers b).length_le
      simpa using List.sum_le_card_nsmul _ 2 each
    rw [kept]
    omega

theorem Decimated.sublist {points kept : List Point} {count : Nat}
    (decimated : Decimated points kept count) : kept.Sublist points := by
  have cells : ∀ b ∈ List.range count, (bucketKept points count b).Sublist (bucketPoints points count b) :=
    fun b mem => (decimated.covers b (List.mem_range.mp mem)).sublist
  have parts := List.Sublist.flatMap_right (List.range count) cells
  rwa [decimated.whole, decimated.parts] at parts

theorem Decimated.between {points kept : List Point} {count : Nat}
    (decimated : Decimated points kept count) :
    ∀ p ∈ points, ∃ low ∈ kept, ∃ high ∈ kept, low.2 ≤ p.2 ∧ p.2 ≤ high.2 := by
  intro p mem
  rw [← decimated.whole] at mem
  obtain ⟨b, inside, mem⟩ := List.mem_flatMap.mp mem
  obtain ⟨low, first, high, second, order⟩ :=
    (decimated.covers b (List.mem_range.mp inside)).between p mem
  rw [← decimated.parts]
  exact ⟨low, List.mem_flatMap.mpr ⟨b, inside, first⟩, high,
    List.mem_flatMap.mpr ⟨b, inside, second⟩, order⟩

/-- Whatever is kept between the extremes keeps them. -/
theorem extremes_kept {points kept : List Point} (some_ : points ≠ [])
    (between : ∀ p ∈ points, ∃ low ∈ kept, ∃ high ∈ kept, low.2 ≤ p.2 ∧ p.2 ≤ high.2) :
    ∃ low ∈ kept, ∃ high ∈ kept, ∀ p ∈ points, low.2 ≤ p.2 ∧ p.2 ≤ high.2 := by
  have bottom := mt (List.argmin_eq_none (f := Prod.snd)).mp some_
  have top := mt (List.argmax_eq_none (f := Prod.snd)).mp some_
  obtain ⟨least, least_eq⟩ := Option.ne_none_iff_exists'.mp bottom
  obtain ⟨most, most_eq⟩ := Option.ne_none_iff_exists'.mp top
  obtain ⟨low, lowMem, -, -, below, -⟩ := between least (List.argmin_mem least_eq)
  obtain ⟨-, -, high, highMem, -, above⟩ := between most (List.argmax_mem most_eq)
  exact ⟨low, lowMem, high, highMem, fun p mem =>
    ⟨below.trans (List.le_of_mem_argmin mem least_eq),
      (List.le_of_mem_argmax mem most_eq).trans above⟩⟩

/-- Before rounding, `decimate` keeps at most `limit` finite points in order: all of them when they
are few, and else the extremes of nonempty buckets that make up the whole series. -/
theorem decimate_keeps_extremes (sig : ℚ → ℚ) (xs ys : List Value) (limit : Int)
    (two : 2 ≤ limit) :
    ∃ kept, decimate sig xs ys limit = kept.map (fun p => (sig p.1, sig p.2)) ∧
      kept.Sublist (finitePoints xs ys) ∧ (kept.length : Int) ≤ limit ∧
      ((finitePoints xs ys).length ≤ limit → kept = finitePoints xs ys) ∧
      (limit < (finitePoints xs ys).length →
        Decimated (finitePoints xs ys) kept (limit / 2).toNat) ∧
      (finitePoints xs ys ≠ [] → ∃ low ∈ kept, ∃ high ∈ kept,
        ∀ p ∈ finitePoints xs ys, low.2 ≤ p.2 ∧ p.2 ≤ high.2) := by
  let points := finitePoints xs ys
  refine ⟨reduce points limit, rfl, ?_⟩
  by_cases many : limit < points.length
  · obtain ⟨decimated, short⟩ := reduce_decimated two many
    exact ⟨decimated.sublist, short, fun few => absurd few (not_le.mpr many), fun _ => decimated,
      fun some_ => extremes_kept some_ decimated.between⟩
  · have whole : reduce points limit = points := by
      unfold reduce
      rw [if_neg (not_lt.mpr two), if_neg many]
    rw [whole]
    exact ⟨List.Sublist.refl _, not_lt.mp many, fun _ => rfl, fun more => absurd more many,
      fun some_ => extremes_kept some_
        fun p mem => ⟨p, mem, p, mem, le_refl _, le_refl _⟩⟩

def seven : List Point := [(0, 5), (1, 1), (2, 4), (3, 9), (4, 2), (5, 7), (6, 3)]

/-- Seven points in two buckets of three and a half. -/
theorem decimate_keeps_extremes_five :
    Decimated seven [(0, 5), (1, 1), (3, 9), (4, 2)] 2 ∧
    bucketPoints seven 2 0 = [(0, 5), (1, 1), (2, 4)] ∧
    bucketPoints seven 2 1 = [(3, 9), (4, 2), (5, 7), (6, 3)] := by
  have points : finitePoints (seven.map (.number ·.1)) (seven.map (.number ·.2)) = seven := by
    decide +kernel
  obtain ⟨kept, equal, -, -, -, decimated, -⟩ := decimate_keeps_extremes id
    (seven.map (.number ·.1)) (seven.map (.number ·.2)) 5 (by decide)
  rw [points] at decimated
  have same : kept = [(0, 5), (1, 1), (3, 9), (4, 2)] := by
    rw [← List.map_id kept]
    exact equal.symm.trans (by decide +kernel)
  exact ⟨same ▸ decimated (by decide), by decide +kernel, by decide +kernel⟩

end StorageScaleTest.Report
