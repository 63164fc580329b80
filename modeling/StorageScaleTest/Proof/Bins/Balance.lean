import StorageScaleTest.Proof.Bins.Dealing
import Mathlib.Data.List.Count
import Mathlib.Order.OrderIsoNat

/-!
# The balancing loop

Every round keeps the sizes of the bins and their nodes and does not widen the spread of the
full bins; the loop ends where no exchange between the chosen bins brings their sums closer.
-/

namespace StorageScaleTest.Bins

variable {Name : Type}

/-! ## What a round keeps -/

theorem Exchange.lengths_eq {bins : List (Bin Name)} {hi lo ai bi : Nat}
    (x : Exchange bins hi lo ai bi) :
    (exchange bins hi lo ai bi).map List.length = bins.map List.length := by
  apply List.ext_getElem?
  intro i
  simp only [List.getElem?_map]
  by_cases isHi : i = hi
  · rw [isHi, x.getElem?_hi, x.atHi]
    simp
  · by_cases isLo : i = lo
    · rw [isLo, x.getElem?_lo, x.atLo]
      simp
    · rw [x.getElem?_other isHi isLo]

theorem round_lengths {full : List Nat} {bins after : List (Bin Name)}
    (moved : round full bins = some after) :
    after.map List.length = bins.map List.length := by
  obtain ⟨r⟩ := round_cases moved
  rw [r.result, r.swap.lengths_eq]

theorem perm_of_sums {α : Type} {items others : List α}
    (same : ∀ f : α → Int, (items.map f).sum = (others.map f).sum) : items.Perm others := by
  classical
  apply List.perm_iff_count.mpr
  intro a
  have counted : ∀ l : List α, (l.map fun b => if b = a then (1 : Int) else 0).sum = l.count a := by
    intro l
    induction l with
    | nil => rfl
    | cons b l ih =>
        rw [List.map_cons, List.sum_cons, ih, List.count_cons]
        by_cases equal : b = a
        · simp [equal, add_comm]
        · simp [equal]
  have agree := same fun b => if b = a then (1 : Int) else 0
  rw [counted, counted] at agree
  exact_mod_cast agree

theorem round_perm {full : List Nat} {bins after : List (Bin Name)}
    (moved : round full bins = some after) : after.flatten.Perm bins.flatten := by
  obtain ⟨r⟩ := round_cases moved
  apply perm_of_sums
  intro f
  rw [r.result, r.swap.sum_nodes]

/-! ## The spread of the full bins -/

def spread (full : List Nat) (bins : List (Bin Name)) : Int :=
  match maxIdx full bins, minIdx full bins with
  | some hi, some lo => sumAt bins hi - sumAt bins lo
  | _, _ => 0

theorem sumAt_eq {bins : List (Bin Name)} {i : Nat} {bin : Bin Name} (entry : bins[i]? = some bin) :
    sumAt bins i = binSum bin := by
  simp [sumAt, List.getD_eq_getElem?_getD, entry]

theorem sumAt_congr {bins after : List (Bin Name)} {i : Nat} (same : after[i]? = bins[i]?) :
    sumAt after i = sumAt bins i := by
  simp [sumAt, List.getD_eq_getElem?_getD, same]

theorem sumAt_le_maxIdx {full : List Nat} {bins : List (Bin Name)} {hi i : Nat}
    (heaviest : maxIdx full bins = some hi) (member : i ∈ full) : sumAt bins i ≤ sumAt bins hi :=
  List.le_of_mem_argmax member heaviest

theorem minIdx_le_sumAt {full : List Nat} {bins : List (Bin Name)} {lo i : Nat}
    (lightest : minIdx full bins = some lo) (member : i ∈ full) : sumAt bins lo ≤ sumAt bins i :=
  List.le_of_mem_argmin member lightest

theorem Round.between {full : List Nat} {bins after : List (Bin Name)} (r : Round full bins after)
    {i : Nat} (member : i ∈ full) :
    sumAt bins r.lo ≤ sumAt after i ∧ sumAt after i ≤ sumAt bins r.hi := by
  have moves := r.moves
  have inside := r.inside
  have atHi := sumAt_eq r.swap.atHi
  have atLo := sumAt_eq r.swap.atLo
  by_cases isHi : i = r.hi
  · have now : sumAt after i = binSum r.swap.binA - (r.swap.nodeA.2 - r.swap.nodeB.2) := by
      rw [congrArg (sumAt · i) r.result, isHi, sumAt_eq r.swap.getElem?_hi, r.swap.binSum_hi]
    omega
  · by_cases isLo : i = r.lo
    · have now : sumAt after i = binSum r.swap.binB + (r.swap.nodeA.2 - r.swap.nodeB.2) := by
        rw [congrArg (sumAt · i) r.result, isLo, sumAt_eq r.swap.getElem?_lo, r.swap.binSum_lo]
      omega
    · have now : sumAt after i = sumAt bins i := by
        rw [r.result]
        exact sumAt_congr (r.swap.getElem?_other isHi isLo)
      rw [now]
      exact ⟨minIdx_le_sumAt r.lightest member, sumAt_le_maxIdx r.heaviest member⟩

theorem round_spread {full : List Nat} {bins after : List (Bin Name)}
    (moved : round full bins = some after) : spread full after ≤ spread full bins := by
  obtain ⟨r⟩ := round_cases moved
  have before : spread full bins = sumAt bins r.hi - sumAt bins r.lo := by
    simp only [spread, r.heaviest, r.lightest]
  have atHi := List.argmax_mem r.heaviest
  cases heaviest : maxIdx full after with
  | none =>
      rw [maxIdx, List.argmax_eq_none] at heaviest
      simp [heaviest] at atHi
  | some hi =>
    cases lightest : minIdx full after with
    | none =>
        rw [minIdx, List.argmin_eq_none] at lightest
        simp [lightest] at atHi
    | some lo =>
        have now : spread full after = sumAt after hi - sumAt after lo := by
          simp only [spread, heaviest, lightest]
        have top := (r.between (List.argmax_mem heaviest)).2
        have bottom := (r.between (List.argmin_mem lightest)).1
        omega

/-! ## Where the loop ends -/

/-- An exchange that does not gain does not bring the two sums closer. -/
theorem Exchange.not_closer {bins : List (Bin Name)} {hi lo ai bi : Nat}
    (x : Exchange bins hi lo ai bi) (ordered : binSum x.binB ≤ binSum x.binA)
    (noGain : swapGain (binSum x.binA) (binSum x.binB) x.nodeA x.nodeB ≤ 0) :
    |sumAt bins hi - sumAt bins lo| ≤
      |sumAt (exchange bins hi lo ai bi) hi - sumAt (exchange bins hi lo ai bi) lo| := by
  rw [sumAt_eq x.atHi, sumAt_eq x.atLo, sumAt_eq x.getElem?_hi, sumAt_eq x.getElem?_lo,
    x.binSum_hi, x.binSum_lo, abs_of_nonneg (sub_nonneg.mpr ordered)]
  simp only [swapGain] at noGain
  omega

theorem exchange_of_missing {bins : List (Bin Name)} {hi lo ai bi : Nat}
    (missing : (bins.getD hi [])[ai]? = none ∨ (bins.getD lo [])[bi]? = none) :
    exchange bins hi lo ai bi = bins := by
  rcases missing with missing | missing
  · simp only [exchange, missing]
  · simp only [exchange, missing]
    cases (bins.getD hi [])[ai]? <;> rfl

theorem round_none {full : List Nat} {bins : List (Bin Name)} (ends : round full bins = none)
    {hi lo : Nat} (heaviest : maxIdx full bins = some hi) (lightest : minIdx full bins = some lo)
    (ai bi : Nat) : |sumAt bins hi - sumAt bins lo| ≤
      |sumAt (exchange bins hi lo ai bi) hi - sumAt (exchange bins hi lo ai bi) lo| := by
  by_cases same : hi = lo
  · rw [same, sub_self, abs_zero]
    exact abs_nonneg _
  simp only [round, heaviest, lightest, same, if_false, Option.map_eq_none_iff] at ends
  cases atA : (bins.getD hi [])[ai]? with
  | none => rw [exchange_of_missing (.inl atA)]
  | some nodeA =>
    cases atB : (bins.getD lo [])[bi]? with
    | none => rw [exchange_of_missing (.inr atB)]
    | some nodeB =>
        have ordered := sumAt_le_maxIdx heaviest (List.argmin_mem lightest)
        have noGain := findBestSwap_none ends (List.mem_of_getElem? atA) (List.mem_of_getElem? atB)
        exact Exchange.not_closer ⟨_, _, nodeA, nodeB, same, getElem?_getD_nil atA,
          getElem?_getD_nil atB, atA, atB⟩ ordered noGain

/-! ## The whole loop -/

def Moves (full : List Nat) (bins after : List (Bin Name)) : Prop := round full bins = some after

theorem moves_nodes {full : List Nat} {start bins : List (Bin Name)}
    (run : Relation.ReflTransGen (Moves full) start bins) :
    bins.map List.length = start.map List.length ∧ bins.flatten.Perm start.flatten := by
  induction run with
  | refl => exact ⟨rfl, .refl _⟩
  | tail _ moved ih =>
      exact ⟨(round_lengths moved).trans ih.1, (round_perm moved).trans ih.2⟩

theorem no_endless_run (full : List Nat) (run : Nat → List (Bin Name)) :
    ¬ ∀ i, Moves full (run i) (run (i + 1)) := by
  intro endless
  have descends : ∀ i, potential (run (i + 1)) < potential (run i) := fun i =>
    round_lowers full (run i) (run (i + 1)) (endless i)
  exact (RelEmbedding.natGT (fun i => potential (run i)) descends).not_wellFounded
    wellFounded_lt

theorem reaches_balance (full : List Nat) (bins : List (Bin Name)) :
    Relation.ReflTransGen (Moves full) bins (balance full bins) :=
  Iteration.reaches_untilNone bins

theorem round_balance (full : List Nat) (bins : List (Bin Name)) :
    round full (balance full bins) = none :=
  Iteration.round_untilNone bins

theorem fullBins_ne_nil {nodes binSize : Nat} (sized : 1 ≤ binSize) (enough : binSize ≤ nodes) :
    fullBins nodes binSize ≠ [] := by
  have some := binCount_pos sized enough
  simp only [fullBins]
  split
  · next uneven =>
      have more : binSize < nodes := by
        apply lt_of_le_of_ne enough
        intro equal
        exact uneven (by rw [equal, Nat.mod_self])
      have two : 2 ≤ binCount nodes binSize := by
        apply (Nat.le_div_iff_mul_le sized).mpr
        omega
      simp only [ne_eq, List.range_eq_nil]
      omega
  · simp only [ne_eq, List.range_eq_nil]
    omega

theorem extremes_exist {full : List Nat} (nonempty : full ≠ []) (bins : List (Bin Name)) :
    ∃ hi lo, maxIdx full bins = some hi ∧ minIdx full bins = some lo ∧ hi ∈ full ∧ lo ∈ full ∧
      (∀ i ∈ full, sumAt bins lo ≤ sumAt bins i ∧ sumAt bins i ≤ sumAt bins hi) ∧
      spread full bins = sumAt bins hi - sumAt bins lo := by
  obtain ⟨hi, heaviest⟩ : ∃ hi, maxIdx full bins = some hi :=
    Option.ne_none_iff_exists'.mp fun absent => nonempty (List.argmax_eq_none.mp absent)
  obtain ⟨lo, lightest⟩ : ∃ lo, minIdx full bins = some lo :=
    Option.ne_none_iff_exists'.mp fun absent => nonempty (List.argmin_eq_none.mp absent)
  refine ⟨hi, lo, heaviest, lightest, List.argmax_mem heaviest, List.argmin_mem lightest, ?_, ?_⟩
  · intro i member
    exact ⟨minIdx_le_sumAt lightest member, sumAt_le_maxIdx heaviest member⟩
  · simp only [spread, heaviest, lightest]

/-- The loop of `partition` makes finitely many rounds; each keeps the sizes and the nodes and
does not widen the spread between the largest and the smallest sum, and no exchange between the
two bins chosen at the end helps. -/
theorem partition_balances (nodes : List (Node Name)) (binSize : Nat) (sized : 1 ≤ binSize)
    (enough : binSize ≤ nodes.length) :
    let full := fullBins nodes.length binSize
    let start := snakeBins nodes binSize
    (∀ run : Nat → List (Bin Name), ¬ ∀ i, Moves full (run i) (run (i + 1))) ∧
    Relation.ReflTransGen (Moves full) start (partition nodes binSize) ∧
    (∀ bins : List (Bin Name), ∃ hi ∈ full, ∃ lo ∈ full,
      (∀ i ∈ full, sumAt bins lo ≤ sumAt bins i ∧ sumAt bins i ≤ sumAt bins hi) ∧
        spread full bins = sumAt bins hi - sumAt bins lo) ∧
    (∀ bins after, Relation.ReflTransGen (Moves full) start bins → Moves full bins after →
      after.map List.length = bins.map List.length ∧ after.flatten.Perm nodes ∧
        spread full after ≤ spread full bins) ∧
    round full (partition nodes binSize) = none ∧
    ∃ hi lo, maxIdx full (partition nodes binSize) = some hi ∧
      minIdx full (partition nodes binSize) = some lo ∧
      (∀ i ∈ full, sumAt (partition nodes binSize) lo ≤ sumAt (partition nodes binSize) i ∧
        sumAt (partition nodes binSize) i ≤ sumAt (partition nodes binSize) hi) ∧
      ∀ ai bi, |sumAt (partition nodes binSize) hi - sumAt (partition nodes binSize) lo| ≤
        |sumAt (exchange (partition nodes binSize) hi lo ai bi) hi -
          sumAt (exchange (partition nodes binSize) hi lo ai bi) lo| := by
  intro full start
  have ends : round full (partition nodes binSize) = none := round_balance full start
  have nonempty := fullBins_ne_nil sized enough
  refine ⟨no_endless_run full, reaches_balance full start, ?_, ?_, ends, ?_⟩
  · intro bins
    obtain ⟨hi, lo, -, -, hiFull, loFull, between, spreadEq⟩ := extremes_exist nonempty bins
    exact ⟨hi, hiFull, lo, loFull, between, spreadEq⟩
  · intro bins after run moved
    have nodesKept := (moves_nodes (run.tail moved)).2
    exact ⟨round_lengths moved, nodesKept.trans (snakeBins_perm nodes sized enough),
      round_spread moved⟩
  · obtain ⟨hi, lo, heaviest, lightest, -, -, between, -⟩ :=
      extremes_exist nonempty (partition nodes binSize)
    exact ⟨hi, lo, heaviest, lightest, between, round_none ends heaviest lightest⟩

def sixNodes : List (Node Char) := [('a', 9), ('b', 8), ('c', 7), ('d', 6), ('e', 5), ('f', 1)]

theorem snakeBins_six :
    snakeBins sixNodes 3 = [[('a', 9), ('d', 6), ('e', 5)], [('b', 8), ('c', 7), ('f', 1)]] := by
  rw [snakeBins, sortedNodes, List.mergeSort_of_pairwise (by decide)]
  decide

theorem partition_six :
    partition sixNodes 3 = [[('c', 7), ('d', 6), ('e', 5)], [('b', 8), ('a', 9), ('f', 1)]] := by
  have moved : round (fullBins 6 3) [[('a', 9), ('d', 6), ('e', 5)], [('b', 8), ('c', 7), ('f', 1)]] =
      some [[('c', 7), ('d', 6), ('e', 5)], [('b', 8), ('a', 9), ('f', 1)]] := by decide
  have ends : round (fullBins 6 3) [[('c', 7), ('d', 6), ('e', 5)],
      [('b', 8), ('a', 9), ('f', 1)]] = none := by decide
  rw [partition, snakeBins_six, balance]
  exact (Iteration.untilNone_of_some moved).trans (Iteration.untilNone_of_none ends)

/-- One exchange, of the first node of the heavier bin, takes the spread from four to zero. -/
theorem partition_balances_six :
    Moves (fullBins 6 3) (snakeBins sixNodes 3) (partition sixNodes 3) ∧
    ((partition sixNodes 3).map List.length = [3, 3] ∧ (partition sixNodes 3).flatten.Perm sixNodes ∧
      spread (fullBins 6 3) (partition sixNodes 3) ≤ spread (fullBins 6 3) (snakeBins sixNodes 3)) ∧
    spread (fullBins 6 3) (snakeBins sixNodes 3) = 4 ∧
    spread (fullBins 6 3) (partition sixNodes 3) = 0 ∧
    round (fullBins 6 3) (partition sixNodes 3) = none := by
  have moved : Moves (fullBins 6 3) (snakeBins sixNodes 3) (partition sixNodes 3) := by
    rw [partition_six, snakeBins_six]
    unfold Moves
    decide
  obtain ⟨-, -, -, keeps, ends, -⟩ := partition_balances sixNodes 3 (by decide) (by decide)
  obtain ⟨sizes, nodes, narrower⟩ := keeps _ _ .refl moved
  refine ⟨moved, ⟨sizes.trans ?_, nodes, narrower⟩, ?_, ?_, ends⟩
  · rw [snakeBins_six]
    rfl
  · rw [snakeBins_six]
    decide
  · rw [partition_six]
    decide

end StorageScaleTest.Bins
