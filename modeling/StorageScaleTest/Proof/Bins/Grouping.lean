import StorageScaleTest.Proof.Bins.Balance
import Mathlib.Algebra.Order.Floor.Div
import Mathlib.Data.List.Dedup

/-!
# The sizes of the groups

When the zigzag deals groups of the requested size, and what the summary may then say.
-/

namespace StorageScaleTest.Bins

variable {Name : Type}

theorem partition_lengths (nodes : List (Node Name)) (binSize : Nat) :
    (partition nodes binSize).map List.length =
      (List.range (binCount nodes.length binSize)).map
        (share (binCount nodes.length binSize) nodes.length) := by
  rw [partition, (moves_nodes (reaches_balance _ _)).1, snakeBins_lengths]

theorem partition_perm (nodes : List (Node Name)) {binSize : Nat} (sized : 1 ≤ binSize)
    (enough : binSize ≤ nodes.length) : (partition nodes binSize).flatten.Perm nodes :=
  (moves_nodes (reaches_balance _ _)).2.trans (snakeBins_perm nodes sized enough)

theorem length_partition (nodes : List (Node Name)) (binSize : Nat) :
    (partition nodes binSize).length = binCount nodes.length binSize := by
  have sizes := congrArg List.length (partition_lengths nodes binSize)
  simpa using sizes

/-! ## When the deal fits -/

/-- The number of nodes is a multiple of the group size, or one short of one and the group size
is odd. -/
def Aligned (nodes binSize : Nat) : Prop :=
  binSize ∣ nodes ∨ (binSize ∣ nodes + 1 ∧ binSize % 2 = 1)

instance (nodes binSize : Nat) : Decidable (Aligned nodes binSize) :=
  inferInstanceAs (Decidable (_ ∨ _))

theorem binCount_bounds {nodes binSize : Nat} (sized : 1 ≤ binSize) (enough : binSize ≤ nodes) :
    binSize * (binCount nodes binSize - 1) < nodes ∧ nodes ≤ binSize * binCount nodes binSize := by
  have whole := Nat.div_add_mod (nodes + binSize - 1) binSize
  have inside := Nat.mod_lt (nodes + binSize - 1) sized
  have pos := binCount_pos sized enough
  rw [Nat.mul_sub, Nat.mul_one]
  change binSize * binCount nodes binSize + _ = _ at whole
  omega

theorem share_of_dvd {binSize groups j : Nat} (some : 0 < groups) :
    share groups (binSize * groups) j = binSize := by
  have dealt := @share_of_cycle groups binSize 0 some j
  rw [Nat.mul_comm, Nat.add_zero] at dealt
  rw [dealt]
  simp

/-- One node short of full groups, an even number of whole cycles has been dealt and the last
cycle misses the last bin only. -/
theorem share_of_short {binSize groups j : Nat} (odd : binSize % 2 = 1) (bin : j < groups) :
    share groups (binSize * groups - 1) j = if j + 1 < groups then binSize else binSize - 1 := by
  have inside : groups - 1 < groups := by omega
  have one : groups ≤ binSize * groups := Nat.le_mul_of_pos_left _ (by omega)
  have dealt := @share_of_cycle groups (binSize - 1) (groups - 1) inside j
  have total : groups * (binSize - 1) + (groups - 1) = binSize * groups - 1 := by
    rw [Nat.mul_sub, Nat.mul_one, Nat.mul_comm]
    omega
  rw [total] at dealt
  rw [dealt]
  split_ifs <;> omega

theorem share_aligned {nodes binSize j : Nat} (sized : 1 ≤ binSize) (enough : binSize ≤ nodes)
    (aligned : Aligned nodes binSize) (bin : j < binCount nodes binSize) :
    share (binCount nodes binSize) nodes j =
      if j + 1 < binCount nodes binSize then binSize
      else nodes - binSize * (binCount nodes binSize - 1) := by
  have pos := binCount_pos sized enough
  obtain ⟨above, below⟩ := binCount_bounds sized enough
  generalize binCount nodes binSize = nBins at *
  by_cases whole : binSize ∣ nodes
  · obtain ⟨groups, rfl⟩ := whole
    have upper : groups ≤ nBins := Nat.le_of_mul_le_mul_left below sized
    have lower : nBins - 1 < groups := Nat.lt_of_mul_lt_mul_left above
    obtain rfl : groups = nBins := by omega
    rw [share_of_dvd pos, Nat.mul_sub, Nat.mul_one]
    split_ifs <;> omega
  · obtain ⟨⟨groups, short⟩, odd⟩ := aligned.resolve_left whole
    have two : 2 ≤ binSize := by
      by_contra small
      exact whole (by rw [show binSize = 1 by omega]; exact one_dvd nodes)
    have lower : nBins - 1 < groups := by
      apply Nat.lt_of_mul_lt_mul_left (a := binSize)
      omega
    have upper : groups < nBins + 1 := by
      apply Nat.lt_of_mul_lt_mul_left (a := binSize)
      rw [Nat.mul_add, Nat.mul_one]
      omega
    obtain rfl : groups = nBins := by omega
    obtain rfl : nodes = binSize * groups - 1 := by omega
    rw [share_of_short odd bin, Nat.mul_sub, Nat.mul_one]
    split_ifs <;> omega

/-! ## Sizes -/

/-- The sizes that the documentation of the tool promises. -/
structure FixedSize (nodes : List (Node Name)) (binSize : Nat) : Prop where
  count : (partition nodes binSize).length = nodes.length ⌈/⌉ binSize
  full : ∀ bin ∈ (partition nodes binSize).dropLast, bin.length = binSize
  last : ∀ bin ∈ (partition nodes binSize).getLast?,
    bin.length = nodes.length - binSize * ((partition nodes binSize).length - 1)
  nodes : (partition nodes binSize).flatten.Perm nodes

theorem length_of_bin {nodes : List (Node Name)} {binSize j : Nat} {bin : Bin Name}
    (entry : (partition nodes binSize)[j]? = some bin) :
    bin.length = share (binCount nodes.length binSize) nodes.length j := by
  have sizes := congrArg (·[j]?) (partition_lengths nodes binSize)
  have inside : j < binCount nodes.length binSize := by
    rw [← length_partition nodes binSize]
    exact (List.getElem?_eq_some_iff.mp entry).1
  simpa only [List.getElem?_map, entry, Option.map_some, List.getElem?_range inside,
    Option.some.injEq] using sizes

theorem partition_layout {nodes : List (Node Name)} {binSize : Nat} (sized : 1 ≤ binSize)
    (enough : binSize ≤ nodes.length) (aligned : Aligned nodes.length binSize) :
    ∃ front last, partition nodes binSize = front ++ [last] ∧
      front.length = binCount nodes.length binSize - 1 ∧
      (∀ bin ∈ front, bin.length = binSize) ∧
      last.length = nodes.length - binSize * (binCount nodes.length binSize - 1) := by
  have pos := binCount_pos sized enough
  have count := length_partition nodes binSize
  obtain ⟨front, last, split⟩ : ∃ front last, partition nodes binSize = front ++ [last] := by
    rcases List.eq_nil_or_concat (partition nodes binSize) with empty | ⟨front, last, split⟩
    · rw [empty, List.length_nil] at count
      omega
    · exact ⟨front, last, by rw [split, List.concat_eq_append]⟩
  have frontLength : front.length = binCount nodes.length binSize - 1 := by
    rw [split, List.length_append, List.length_singleton] at count
    omega
  refine ⟨front, last, split, frontLength, ?_, ?_⟩
  · intro bin member
    obtain ⟨j, inside, rfl⟩ := List.getElem_of_mem member
    have entry : (partition nodes binSize)[j]? = some front[j] := by
      rw [split, List.getElem?_append_left inside, List.getElem?_eq_getElem inside]
    rw [length_of_bin entry, share_aligned sized enough aligned (by omega), if_pos (by omega)]
  · have entry : (partition nodes binSize)[front.length]? = some last := by
      rw [split, List.getElem?_concat_length]
    rw [length_of_bin entry, share_aligned sized enough aligned (by omega), if_neg (by omega)]

theorem fixedSize_of_aligned {nodes : List (Node Name)} {binSize : Nat} (sized : 1 ≤ binSize)
    (enough : binSize ≤ nodes.length) (aligned : Aligned nodes.length binSize) :
    FixedSize nodes binSize := by
  obtain ⟨front, last, split, frontLength, full, rest⟩ := partition_layout sized enough aligned
  have count := length_partition nodes binSize
  constructor
  · rw [count, Nat.ceilDiv_eq_add_pred_div, binCount]
  · rw [split, List.dropLast_concat]
    exact full
  · intro bin member
    rw [split, List.getLast?_concat, Option.mem_some_iff] at member
    rw [← member, rest, count]
  · exact partition_perm nodes sized enough

/-- Where the first bin is full and the last one is not, the last cycle was dealt forwards and
missed the last bin only. -/
theorem short_of_shares {nodes binSize nBins : Nat} (two : 2 ≤ nBins)
    (first : share nBins nodes 0 = binSize)
    (last : share nBins nodes (nBins - 1) = nodes - binSize * (nBins - 1))
    (above : binSize * (nBins - 1) < nodes) (below : nodes < binSize * nBins) :
    nodes + 1 = binSize * nBins ∧ binSize % 2 = 1 := by
  have pos : 0 < nBins := by omega
  have inside := Nat.mod_lt nodes pos
  have multiple : binSize * nBins = binSize * (nBins - 1) + binSize := by
    rw [← Nat.mul_succ, Nat.succ_eq_add_one, Nat.sub_add_cancel pos]
  rw [share] at first last
  split_ifs at first last <;> omega

theorem aligned_of_fixedSize {nodes : List (Node Name)} {binSize : Nat} (sized : 1 ≤ binSize)
    (enough : binSize ≤ nodes.length) (fixed : FixedSize nodes binSize) :
    Aligned nodes.length binSize := by
  by_cases whole : binSize ∣ nodes.length
  · exact .inl whole
  obtain ⟨above, below⟩ := binCount_bounds sized enough
  have count := length_partition nodes binSize
  have strict : nodes.length < binSize * binCount nodes.length binSize :=
    lt_of_le_of_ne below fun equal => whole ⟨_, equal⟩
  have two : 2 ≤ binCount nodes.length binSize := by
    by_contra small
    have one : binCount nodes.length binSize ≤ 1 := by omega
    have bound := Nat.mul_le_mul_left binSize one
    omega
  have firstInside : 0 < (partition nodes binSize).dropLast.length := by
    rw [List.length_dropLast]
    omega
  have lastInside : (partition nodes binSize).length - 1 < (partition nodes binSize).length := by
    omega
  have first : share (binCount nodes.length binSize) nodes.length 0 = binSize := by
    have size := fixed.full _ (List.getElem_mem firstInside)
    rw [List.getElem_dropLast] at size
    rwa [length_of_bin (List.getElem?_eq_getElem _)] at size
  have last : share (binCount nodes.length binSize) nodes.length
      (binCount nodes.length binSize - 1) =
        nodes.length - binSize * (binCount nodes.length binSize - 1) := by
    have entry := List.getElem?_eq_getElem lastInside
    have size := fixed.last _ (by rw [List.getLast?_eq_getElem?, entry]; rfl)
    rw [length_of_bin entry, count] at size
    exact size
  obtain ⟨short, odd⟩ := short_of_shares two first last above strict
  exact .inr ⟨⟨_, short⟩, odd⟩

/-! ## The printed line -/

/-- What the summary says of the printed line: its leading groups are whole, at most one partial
group follows them, and every node count ends with a group. -/
structure WholeGroups (nodes : List (Node Name)) (binSize : Nat) (ordered : List (Bin Name)) :
    Prop where
  bins : ordered.Perm (partition nodes binSize)
  full : ∀ bin ∈ ordered.take (printSummary nodes.length binSize).fullBins, bin.length = binSize
  names : ∀ k ≤ (printSummary nodes.length binSize).fullBins,
    (printedNames ordered).take (k * binSize) = printedNames (ordered.take k)
  rest : (ordered.drop (printSummary nodes.length binSize).fullBins).map List.length =
    (printSummary nodes.length binSize).partialBin.toList
  counts : ∀ count ∈ (printSummary nodes.length binSize).nodeCounts,
    ∃ k ≤ ordered.length, (printedNames ordered).take count = printedNames (ordered.take k)

theorem take_printedNames {bins : List (Bin Name)} {binSize k : Nat} (inside : k ≤ bins.length)
    (full : ∀ bin ∈ bins.take k, bin.length = binSize) :
    (printedNames bins).take (k * binSize) = printedNames (bins.take k) := by
  have size : (printedNames (bins.take k)).length = k * binSize := by
    rw [printedNames, List.length_flatMap]
    have each : (bins.take k).map (fun bin => (bin.map (·.1)).length) =
        List.replicate k binSize := by
      apply List.eq_replicate_iff.mpr
      constructor
      · rw [List.length_map, List.length_take, Nat.min_eq_left inside]
      · intro n member
        obtain ⟨bin, inTake, rfl⟩ := List.mem_map.mp member
        rw [List.length_map, full bin inTake]
    rw [each, List.sum_replicate, smul_eq_mul]
  have split : printedNames bins = printedNames (bins.take k) ++ printedNames (bins.drop k) := by
    rw [printedNames, printedNames, printedNames, ← List.flatMap_append, List.take_append_drop]
  rw [split, ← size, List.take_left]

theorem mem_nodeCounts {totalNodes binSize count : Nat}
    (member : count ∈ nodeCounts totalNodes binSize) :
    count = totalNodes ∨ ∃ k, count = k * binSize ∧ k * binSize < totalNodes := by
  rw [nodeCounts, List.mem_mergeSort] at member
  have cases : count ∈ ((List.range totalNodes).map fun i => (i + 1) * binSize).filter
      (· < totalNodes) ∨ count = totalNodes := by
    split at member
    · exact .inl member
    · simpa using member
  rcases cases with member | last
  · right
    simp only [List.mem_filter, List.mem_map, decide_eq_true_eq] at member
    obtain ⟨⟨i, _, rfl⟩, below⟩ := member
    exact ⟨i + 1, rfl, below⟩
  · exact .inl last

/-! ## Reordering -/

theorem hasPartial_of_same {bins : List (Bin Name)} {binSize : Nat}
    (same : ∀ bin ∈ bins, bin.length = binSize) : hasPartial bins = false := by
  simp only [hasPartial, decide_eq_false_iff_not, not_lt]
  apply Finset.card_le_one.mpr
  intro a memberA b memberB
  simp only [List.mem_toFinset, List.mem_map] at memberA memberB
  obtain ⟨binA, inA, rfl⟩ := memberA
  obtain ⟨binB, inB, rfl⟩ := memberB
  rw [same binA inA, same binB inB]

theorem hasPartial_of_differ {bins : List (Bin Name)} {binA binB : Bin Name} (inA : binA ∈ bins)
    (inB : binB ∈ bins) (differ : binA.length ≠ binB.length) : hasPartial bins = true := by
  simp only [hasPartial, decide_eq_true_eq]
  apply Finset.one_lt_card.mpr
  exact ⟨_, List.mem_toFinset.mpr (List.mem_map_of_mem inA), _,
    List.mem_toFinset.mpr (List.mem_map_of_mem inB), differ⟩

variable [DecidableEq Name]

theorem smoothOrder_perm (target : Int) (steps step : Nat) (cumulative : Int)
    (remaining : List (Bin Name)) (enough : steps = remaining.length) :
    (smoothOrder target steps step cumulative remaining).Perm remaining := by
  induction steps generalizing step cumulative remaining with
  | zero =>
      rw [List.length_eq_zero_iff.mp enough.symm]
      exact .refl _
  | succ steps ih =>
      rw [smoothOrder]
      split
      · next absent =>
          rw [List.argmin_eq_none.mp absent] at enough
          cases enough
      · next best found =>
          have member := List.argmin_mem found
          have rest := ih (step + 1) (cumulative + binSum best) (remaining.erase best) (by
            rw [List.length_erase_of_mem member, ← enough, Nat.add_sub_cancel])
          exact (rest.cons best).trans (List.perm_cons_erase member).symm

theorem binCount_of_dvd {nodes binSize : Nat} (sized : 1 ≤ binSize) (enough : binSize ≤ nodes)
    (whole : binSize ∣ nodes) : nodes / binSize = binCount nodes binSize ∧
      nodes - binSize * (binCount nodes binSize - 1) = binSize := by
  obtain ⟨above, below⟩ := binCount_bounds sized enough
  have pos := binCount_pos sized enough
  generalize binCount nodes binSize = nBins at *
  obtain ⟨groups, rfl⟩ := whole
  have upper : groups ≤ nBins := Nat.le_of_mul_le_mul_left below sized
  have lower : nBins - 1 < groups := Nat.lt_of_mul_lt_mul_left above
  obtain rfl : groups = nBins := by omega
  rw [Nat.mul_div_cancel_left _ sized, Nat.mul_sub, Nat.mul_one]
  omega

theorem binCount_of_not_dvd {nodes binSize : Nat} (sized : 1 ≤ binSize) (enough : binSize ≤ nodes)
    (uneven : ¬ binSize ∣ nodes) : nodes / binSize = binCount nodes binSize - 1 ∧
      nodes - binSize * (binCount nodes binSize - 1) = nodes % binSize := by
  obtain ⟨above, below⟩ := binCount_bounds sized enough
  have pos := binCount_pos sized enough
  have strict : nodes < binSize * binCount nodes binSize :=
    lt_of_le_of_ne below fun equal => uneven ⟨_, equal⟩
  have quotient : nodes / binSize = binCount nodes binSize - 1 := by
    apply Nat.div_eq_of_lt_le
    · rw [Nat.mul_comm]
      exact above.le
    · rwa [Nat.sub_add_cancel pos, Nat.mul_comm]
  have parts := Nat.div_add_mod nodes binSize
  rw [quotient] at parts
  omega

theorem reorder_layout {nodes : List (Node Name)} {binSize : Nat} (sized : 1 ≤ binSize)
    (enough : binSize ≤ nodes.length) (aligned : Aligned nodes.length binSize) (target : Int) :
    ∃ front rest, reorderBinsForSmoothCumulative (partition nodes binSize) target = front ++ rest ∧
      front.length = nodes.length / binSize ∧ (∀ bin ∈ front, bin.length = binSize) ∧
      rest.map List.length = (printSummary nodes.length binSize).partialBin.toList ∧
      (front ++ rest).Perm (partition nodes binSize) := by
  obtain ⟨front, last, split, frontLength, full, size⟩ := partition_layout sized enough aligned
  have count := length_partition nodes binSize
  by_cases whole : binSize ∣ nodes.length
  · obtain ⟨quotient, exactly⟩ := binCount_of_dvd sized enough whole
    have same : ∀ bin ∈ partition nodes binSize, bin.length = binSize := by
      intro bin member
      rw [split, List.mem_append, List.mem_singleton] at member
      rcases member with inFront | rfl
      · exact full bin inFront
      · rw [size, exactly]
    have order := smoothOrder_perm target _ 1 0 (partition nodes binSize) rfl
    refine ⟨smoothOrder target (partition nodes binSize).length 1 0 (partition nodes binSize), [],
      ?_, ?_, ?_, ?_, ?_⟩
    · rw [reorderBinsForSmoothCumulative, hasPartial_of_same same]
      rfl
    · rw [order.length_eq, count, quotient]
    · intro bin member
      exact same bin (order.mem_iff.mp member)
    · simp [printSummary, Nat.mod_eq_zero_of_dvd whole]
    · rw [List.append_nil]
      exact order
  · obtain ⟨quotient, rest⟩ := binCount_of_not_dvd sized enough whole
    have short := Nat.mod_lt nodes.length sized
    have some : 0 < front.length := by
      rw [frontLength, ← quotient]
      exact Nat.div_pos enough sized
    have differ : hasPartial (partition nodes binSize) = true := by
      have inLast : last ∈ partition nodes binSize := by simp [split]
      have inFront : front[0] ∈ partition nodes binSize := by simp [split]
      apply hasPartial_of_differ inLast inFront
      rw [full _ (List.getElem_mem some), size, rest]
      exact short.ne
    have order := smoothOrder_perm target _ 1 0 front rfl
    refine ⟨smoothOrder target front.length 1 0 front, [last], ?_, ?_, ?_, ?_, ?_⟩
    · rw [reorderBinsForSmoothCumulative, differ, split]
      simp only [if_true, List.dropLast_concat, List.getLast?_concat, Option.toList_some]
    · rw [order.length_eq, frontLength, quotient]
    · intro bin member
      exact full bin (order.mem_iff.mp member)
    · have uneven : nodes.length % binSize ≠ 0 := fun zero => whole (Nat.dvd_of_mod_eq_zero zero)
      simp [printSummary, uneven, size, rest]
    · rw [split]
      exact order.append_right [last]

theorem wholeGroups_of_aligned {nodes : List (Node Name)} {binSize : Nat} (sized : 1 ≤ binSize)
    (enough : binSize ≤ nodes.length) (aligned : Aligned nodes.length binSize) (target : Int) :
    WholeGroups nodes binSize
      (reorderBinsForSmoothCumulative (partition nodes binSize) target) := by
  obtain ⟨front, rest, order, groups, full, restSizes, perm⟩ :=
    reorder_layout sized enough aligned target
  rw [order]
  have names : ∀ k ≤ nodes.length / binSize,
      (printedNames (front ++ rest)).take (k * binSize) =
        printedNames ((front ++ rest).take k) := by
    intro k few
    apply take_printedNames
    · rw [List.length_append]
      omega
    · intro bin member
      rw [List.take_append_of_le_length (by omega)] at member
      exact full bin (List.mem_of_mem_take member)
  constructor
  · exact perm
  · intro bin member
    rw [printSummary, ← groups, List.take_left] at member
    exact full bin member
  · exact names
  · rw [printSummary, ← groups, List.drop_left]
    exact restSizes
  · intro count member
    rcases mem_nodeCounts member with rfl | ⟨k, rfl, below⟩
    · refine ⟨(front ++ rest).length, le_rfl, ?_⟩
      have size : (printedNames (front ++ rest)).length = nodes.length := by
        have held := (perm.flatten.trans (partition_perm nodes sized enough)).length_eq
        simpa [printedNames, List.length_flatMap, List.length_flatten] using held
      rw [List.take_length, List.take_of_length_le size.le]
    · have few : k ≤ nodes.length / binSize := (Nat.le_div_iff_mul_le sized).mpr below.le
      refine ⟨k, ?_, names k few⟩
      rw [List.length_append]
      omega

/-- The groups have the sizes that the summary states, for every target, exactly when the deal
is aligned. -/
theorem partition_fixed_iff (nodes : List (Node Name)) (binSize : Nat) (sized : 1 ≤ binSize)
    (enough : binSize ≤ nodes.length) :
    (FixedSize nodes binSize ∧ ∀ target, WholeGroups nodes binSize
      (reorderBinsForSmoothCumulative (partition nodes binSize) target)) ↔
    Aligned nodes.length binSize := by
  constructor
  · rintro ⟨fixed, _⟩
    exact aligned_of_fixedSize sized enough fixed
  · intro aligned
    exact ⟨fixedSize_of_aligned sized enough aligned, wholeGroups_of_aligned sized enough aligned⟩

def sampleNodes (count : Nat) : List (Node Nat) := (List.range count).map fun i => (i, 100 * i)

theorem partition_fixed_eight : FixedSize (sampleNodes 8) 3 :=
  ((partition_fixed_iff (sampleNodes 8) 3 (by decide) (by decide)).mpr (by decide)).1

/-- Seven nodes in groups of three are dealt as three, two and two. -/
theorem seven_in_threes : (partition (sampleNodes 7) 3).map List.length = [3, 2, 2] ∧
    ¬ (FixedSize (sampleNodes 7) 3 ∧ ∀ target, WholeGroups (sampleNodes 7) 3
      (reorderBinsForSmoothCumulative (partition (sampleNodes 7) 3) target)) := by
  constructor
  · rw [partition_lengths]
    decide
  · rintro ⟨fixed, _⟩
    have aligned := aligned_of_fixedSize (by decide) (by decide) fixed
    exact absurd aligned (by decide)

end StorageScaleTest.Bins
