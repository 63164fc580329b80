import StorageScaleTest.Sizing.FileCount
import StorageScaleTest.Proof.Sizing.Completion
import Mathlib.Algebra.Order.BigOperators.GroupWithZero.List

/-!
# Files per thread follow the formula while the budgets fit

The successive ceilings are one ceiling, so what remains are the products of the budgets.
-/

namespace StorageScaleTest.Sizing
open Shell Decimal

/-! ## Ceilings -/

/-- The number counts the whole divisors that are below the budget, and one more. -/
def Counts (budget divisor n : Int) : Prop := ∀ k : Int, 1 ≤ k → (k < n ↔ k * divisor < budget)

theorem counts_unique {budget divisor m n : Int} (left : Counts budget divisor m)
    (right : Counts budget divisor n) (one : 1 ≤ m) (other : 1 ≤ n) : m = n := by
  rcases lt_trichotomy m n with less | same | more
  · exact absurd ((left m one).mpr ((right m one).mp less)) (lt_irrefl m)
  · exact same
  · exact absurd ((right n other).mpr ((left n other).mp more)) (lt_irrefl n)

theorem counts_max {budget divisor n : Int} (counts : Counts budget divisor n) :
    Counts budget divisor (max 1 n) := by
  intro k one
  rw [← counts k one]
  omega

theorem tdiv_nonpos {n d : Int} (negative : n ≤ 0) (pos : 0 < d) : n.tdiv d ≤ 0 := by
  have opposite := Int.tdiv_nonneg (show 0 ≤ -n by omega) pos.le
  rw [Int.neg_tdiv] at opposite
  omega

/-- One division of the loop, which goes up except from an exact multiple. -/
theorem ceiling_counts {n d : Int} (pos : 0 < d) :
    Counts n d (n.tdiv d + if n.tmod d ≠ 0 then 1 else 0) := by
  intro k one
  have parts := Int.mul_tdiv_add_tmod n d
  have scaled : k ≤ k * d := by
    have more := Int.mul_le_mul_of_nonneg_left (show (1 : Int) ≤ d from pos)
      (show (0 : Int) ≤ k by omega)
    omega
  by_cases negative : n < 0
  · have low := tdiv_nonpos negative.le pos
    constructor
    · intro less
      split at less <;> omega
    · intro less
      omega
  · have rest := Int.tmod_lt_of_pos n pos
    have start := Int.tmod_nonneg d (show 0 ≤ n by omega)
    generalize n.tdiv d = q at *
    generalize n.tmod d = r at *
    constructor
    · intro less
      by_cases exact : r = 0
      · have below : k < q := by simpa [exact] using less
        have product := Int.mul_lt_mul_of_pos_left below pos
        rw [Int.mul_comm k d]
        omega
      · have below : k ≤ q := by
          rw [if_pos exact] at less
          omega
        have product := Int.mul_le_mul_of_nonneg_left below pos.le
        rw [Int.mul_comm k d]
        omega
    · intro less
      by_contra above
      have product : d * q + r ≤ k * d := by
        by_cases exact : r = 0
        · have least : q ≤ k := by simpa [exact] using above
          have product := Int.mul_le_mul_of_nonneg_left least pos.le
          rw [Int.mul_comm k d]
          omega
        · have least : q + 1 ≤ k := by
            rw [if_pos exact] at above
            omega
          have product := Int.mul_le_mul_of_nonneg_left least pos.le
          rw [Int.mul_add] at product
          rw [Int.mul_comm k d]
          omega
      omega

theorem ceiling_fits {n d : Int} (pos : 0 < d) (fits : Fits n) :
    Fits (n.tdiv d + if n.tmod d ≠ 0 then 1 else 0) := by
  have size := Int.natAbs_tdiv_le_natAbs n d
  unfold Fits at *
  by_cases negative : n < 0
  · have low := tdiv_nonpos negative.le pos
    split <;> omega
  · have parts := Int.mul_tdiv_add_tmod n d
    have start := Int.tmod_nonneg d (show 0 ≤ n by omega)
    have least := Int.tdiv_nonneg (show 0 ≤ n by omega) pos.le
    have scaled := Int.mul_le_mul_of_nonneg_right (show (1 : Int) ≤ d from pos) least
    split <;> omega

/-- Successive ceilings count what the product of the divisors does. -/
theorem successiveCeilings_counts {divisors : List Int} (pos : ∀ divisor ∈ divisors, 0 < divisor)
    {n : Int} (fits : Fits n) :
    ∃ files, successiveCeilings n divisors = some files ∧ Counts n divisors.prod files := by
  induction divisors generalizing n with
  | nil => exact ⟨n, rfl, fun k _ => by rw [List.prod_nil, mul_one]⟩
  | cons d divisors ih =>
      have first := pos d List.mem_cons_self
      have next := ceiling_fits first fits
      obtain ⟨files, found, counts⟩ := ih (fun other mem => pos other (List.mem_cons_of_mem _ mem))
        next
      refine ⟨files, ?_, ?_⟩
      · rw [successiveCeilings, if_pos first, wrap_of_fits next, found]
      · intro k one
        have rest : 0 < divisors.prod := List.prod_pos fun other mem =>
          pos other (List.mem_cons_of_mem _ mem)
        have more : 1 ≤ k * divisors.prod := Int.mul_pos (by omega) rest
        rw [counts k one, ceiling_counts first _ more, List.prod_cons, mul_right_comm, mul_assoc]

/-! ## Budgets -/

structure Size where
  coefficient : Nat
  suffix : Suffix
  deriving DecidableEq, Repr

namespace Size

def bytes (size : Size) : Nat := size.coefficient * size.suffix.bytes

def text (size : Size) : List Char := numeral size.coefficient ++ [size.suffix.char]

end Size

structure Cluster where
  gbps : Nat
  iops : Nat
  agg : Nat
  io : Size
  file : Size
  nodes : Nat
  threads : Nat
  duration : Nat
  targets : Nat
  deriving DecidableEq, Repr

namespace Cluster

def numbers (c : Cluster) : List Nat :=
  [c.gbps, c.iops, c.agg, c.io.bytes, c.file.bytes, c.nodes, c.threads, c.duration, c.targets]

def Valid (c : Cluster) : Prop := ∀ n ∈ c.numbers, 0 < n ∧ n < 2 ^ 63

instance (c : Cluster) : Decidable c.Valid := inferInstanceAs (Decidable (∀ n ∈ c.numbers, _))

def computed (c : Cluster) : Option (List Char) :=
  computeTargetFileCountPerThread ⟨numeral c.gbps, numeral c.iops, numeral c.agg⟩ c.io.text
    c.file.text (numeral c.nodes) (numeral c.threads) (numeral c.duration) (numeral c.targets)

/-- The bytes of an operation, of which no more than a file is done. -/
def block (c : Cluster) : Nat := min c.io.bytes c.file.bytes

def divisor (c : Cluster) : Nat := c.file.bytes / c.block * c.nodes * c.threads * c.targets

/-- `max_ios` over the integers. -/
def maxIos (c : Cluster) : Nat :=
  min (c.iops * c.nodes * c.duration)
    (min (c.gbps * 2 ^ 27 * c.nodes * c.duration) (c.agg * 2 ^ 30 * c.duration) / c.block)

/-- The documented formula. -/
def files (c : Cluster) : Nat := max 1 ⌈(c.maxIos : ℚ) / c.divisor⌉₊

/-- `max_ios` with each product reduced to 64 bits. -/
def wrappedMaxIos (c : Cluster) : Int :=
  min (wrap (c.iops * c.nodes * c.duration))
    ((min (wrap ((wrap (c.gbps * 2 ^ 30)).tdiv 8 * c.nodes * c.duration))
      (wrap (c.agg * 2 ^ 30 * c.duration))).tdiv c.block)

def Fitting (c : Cluster) : Prop :=
  c.gbps * 2 ^ 30 < 2 ^ 63 ∧ c.gbps * 2 ^ 27 * c.nodes * c.duration < 2 ^ 63 ∧
    c.agg * 2 ^ 30 * c.duration < 2 ^ 63 ∧ c.iops * c.nodes * c.duration < 2 ^ 63

instance (c : Cluster) : Decidable c.Fitting := inferInstanceAs (Decidable (_ ∧ _))

/-- The reduced products and the exact ones leave the same multiples of the divisor below them. -/
def SameMultiples (c : Cluster) : Prop :=
  ∀ k : Nat, 1 ≤ k → ((k * c.divisor : Int) < c.wrappedMaxIos ↔ k * c.divisor < c.maxIos)

end Cluster

/-! ## The computation -/

theorem elbenchoSizeStrToInt_text {size : Size} (pos : 0 < size.bytes)
    (small : size.bytes < 2 ^ 63) : elbenchoSizeStrToInt size.text = some (size.bytes : Int) := by
  have unit : 1 ≤ size.suffix.bytes := by cases size.suffix <;> decide
  have less : size.coefficient ≤ size.bytes := Nat.le_mul_of_pos_right _ unit
  have coefficient : 0 < size.coefficient := Nat.pos_of_mul_pos_right pos
  have fits : Fits ((size.coefficient : Int) * size.suffix.bytes) := by
    have := fits_natCast small
    rwa [Size.bytes, Nat.cast_mul] at this
  rw [elbenchoSizeStrToInt, Size.text, List.getLast?_concat, List.dropLast_concat,
    arithmetic_numeral coefficient (by omega)]
  simp only [Option.bind_eq_bind, Option.bind_some, Suffix.ofChar?_char, wrap_of_fits fits, Size.bytes,
    Nat.cast_mul]

theorem fits_tdiv {a b : Int} (fits : Fits a) (pos : 0 < b) : Fits (a.tdiv b) := by
  have size := Int.natAbs_tdiv_le_natAbs a b
  unfold Fits at *
  by_cases negative : a < 0
  · have low := tdiv_nonpos negative.le pos
    omega
  · omega

theorem fits_min {a b : Int} (left : Fits a) (right : Fits b) : Fits (min a b) := by
  rcases min_choice a b with same | same
  · rwa [same]
  · rwa [same]

theorem quotient_of_pos {a b : Int} (fits : Fits a) (pos : 0 < b) :
    quotient a b = some (a.tdiv b) := by
  rw [quotient, if_neg (ne_of_gt pos), wrap_of_fits (fits_tdiv fits pos)]

theorem min_eq_if (a b : Int) : (if a < b then a else b) = min a b := by
  split <;> omega

theorem computed_counts {c : Cluster} (valid : c.Valid) :
    ∃ n : Nat, c.computed = some (numeral n) ∧ 1 ≤ n ∧ Counts c.wrappedMaxIos c.divisor n := by
  have number : ∀ n ∈ c.numbers, arithmetic (numeral n) = some (n : Int) := fun n mem =>
    arithmetic_numeral (valid n mem).1 (valid n mem).2
  unfold Cluster.Valid at valid
  simp only [Cluster.numbers, List.forall_mem_cons] at valid number
  obtain ⟨gbps, iops, agg, io, file, nodes, threads, duration, targets, -⟩ := valid
  obtain ⟨gbpsRead, iopsRead, aggRead, -, -, nodesRead, threadsRead, durationRead, targetsRead, -⟩ :=
    number
  have some_ : numeral c.targets ≠ [] := by
    obtain ⟨d, a, shape, -⟩ := numeral_head targets.1
    rw [shape]
    exact List.cons_ne_nil d a
  have gigabytes : ∀ n : Int, n * 1024 * 1024 * 1024 = n * 2 ^ 30 := by
    intro n
    ring
  have block : min (c.file.bytes : Int) c.io.bytes = c.block := by
    unfold Cluster.block
    omega
  have blockPos : 0 < (c.block : Int) := by
    unfold Cluster.block
    omega
  have perFile : 0 < ((c.file.bytes : Int).tdiv c.block) := by
    rw [← Int.ofNat_tdiv]
    have least : c.block ≤ c.file.bytes := Nat.min_le_right _ _
    have whole := Nat.div_pos least (by omega)
    exact_mod_cast whole
  have total := fits_min
    (fits_wrap ((wrap (c.gbps * 2 ^ 30)).tdiv 8 * c.nodes * c.duration))
    (fits_wrap (c.agg * 2 ^ 30 * c.duration))
  have most : Fits c.wrappedMaxIos := fits_min (fits_wrap _) (fits_tdiv total blockPos)
  have positive : ∀ divisor ∈ [((c.file.bytes : Int).tdiv c.block), (c.nodes : Int), (c.threads : Int),
      (c.targets : Int)], 0 < divisor := by
    simp only [List.forall_mem_cons]
    refine ⟨perFile, ?_, ?_, ?_, fun _ none => absurd none List.not_mem_nil⟩ <;> omega
  obtain ⟨files, found, counts⟩ := successiveCeilings_counts positive most
  have product : [((c.file.bytes : Int).tdiv c.block), (c.nodes : Int), (c.threads : Int),
      (c.targets : Int)].prod = c.divisor := by
    simp only [List.prod_cons, List.prod_nil, mul_one, Cluster.divisor, Nat.cast_mul,
      ← Int.ofNat_tdiv, ← mul_assoc]
  rw [product] at counts
  refine ⟨(max 1 files).toNat, ?_, by omega, ?_⟩
  · unfold Cluster.computed computeTargetFileCountPerThread
    simp only [gbpsRead, iopsRead, aggRead, nodesRead, threadsRead, durationRead, targetsRead,
      elbenchoSizeStrToInt_text io.1 io.2, elbenchoSizeStrToInt_text file.1 file.2,
      Option.bind_eq_bind, Option.bind_some, if_neg some_, min_eq_if, block, wrap_wrap_mul, gigabytes,
      quotient_of_pos (fits_wrap _) (show (0 : Int) < 8 by decide),
      quotient_of_pos (fits_natCast file.2) blockPos, quotient_of_pos total blockPos]
    change Option.bind (successiveCeilings c.wrappedMaxIos _) _ = _
    rw [found, Option.bind_some, show (if files < 1 then 1 else files) = max 1 files by omega]
  · rw [Int.toNat_of_nonneg (by omega)]
    exact counts_max counts

namespace Cluster

variable {c : Cluster}

theorem divisor_pos (valid : c.Valid) : 0 < c.divisor := by
  unfold Valid at valid
  simp only [numbers, List.forall_mem_cons] at valid
  obtain ⟨-, -, -, io, file, nodes, threads, -, targets, -⟩ := valid
  have least : c.block ≤ c.file.bytes := Nat.min_le_right _ _
  have block : 0 < c.block := Nat.lt_min.mpr ⟨io.1, file.1⟩
  exact Nat.mul_pos (Nat.mul_pos (Nat.mul_pos (Nat.div_pos least block) nodes.1) threads.1) targets.1

theorem files_counts (valid : c.Valid) : Counts c.maxIos c.divisor c.files := by
  have pos : (0 : ℚ) < c.divisor := by exact_mod_cast divisor_pos valid
  intro k one
  obtain ⟨k, rfl⟩ := Int.eq_ofNat_of_zero_le (show 0 ≤ k by omega)
  have above : k < ⌈(c.maxIos : ℚ) / c.divisor⌉₊ ↔ k * c.divisor < c.maxIos := by
    rw [Nat.lt_ceil, lt_div_iff₀ pos]
    exact_mod_cast Iff.rfl
  unfold files
  generalize ⌈(c.maxIos : ℚ) / c.divisor⌉₊ = n at above ⊢
  constructor
  · intro less
    exact_mod_cast above.mp (by omega)
  · intro less
    have below := above.mpr (by exact_mod_cast less)
    omega

/-- The shell computes the formula where the reduced products make no difference to it. -/
theorem computed_iff (valid : c.Valid) :
    c.computed = some (numeral c.files) ↔ c.SameMultiples := by
  obtain ⟨n, computed, one, counts⟩ := computed_counts valid
  have exact := files_counts valid
  have least : (1 : Int) ≤ c.files := by exact_mod_cast Nat.le_max_left _ _
  rw [computed, Option.some.injEq]
  constructor
  · intro same k positive
    have found := numeral_injective same
    rw [← counts k (by exact_mod_cast positive), found, exact k (by exact_mod_cast positive)]
    exact_mod_cast Iff.rfl
  · intro same
    congr 1
    have both : Counts c.maxIos c.divisor n := by
      intro k positive
      obtain ⟨k, rfl⟩ := Int.eq_ofNat_of_zero_le (show 0 ≤ k by omega)
      rw [counts k positive, same k (by exact_mod_cast positive)]
      exact_mod_cast Iff.rfl
    exact_mod_cast counts_unique both exact (by exact_mod_cast one) least

theorem wrappedMaxIos_of_fitting (fitting : c.Fitting) : c.wrappedMaxIos = c.maxIos := by
  obtain ⟨rate, node, agg, iops⟩ := fitting
  have reduced : ∀ {n : Nat}, n < 2 ^ 63 → wrap (n : Int) = n := fun small =>
    wrap_of_fits (fits_natCast small)
  have bytes : ((c.gbps * 2 ^ 30 : Nat) : Int).tdiv 8 = (c.gbps * 2 ^ 27 : Nat) := by
    rw [show (8 : Int) = (8 : Nat) from rfl, ← Int.ofNat_tdiv]
    congr 1
    omega
  have first := reduced rate
  have second := reduced node
  have third := reduced agg
  have fourth := reduced iops
  unfold wrappedMaxIos maxIos
  push_cast at first second third fourth bytes ⊢
  rw [first, third, fourth, bytes, second]
  rw [Int.tdiv_eq_ediv_of_nonneg (le_min (by exact_mod_cast Nat.zero_le _)
    (by exact_mod_cast Nat.zero_le _))]

theorem sameMultiples_of_fitting (fitting : c.Fitting) : c.SameMultiples := by
  intro k _
  rw [wrappedMaxIos_of_fitting fitting]
  exact_mod_cast Iff.rfl

/-- A longer run or higher limits, on the same cluster. -/
structure Grows (a b : Cluster) : Prop where
  gbps : a.gbps ≤ b.gbps
  iops : a.iops ≤ b.iops
  agg : a.agg ≤ b.agg
  duration : a.duration ≤ b.duration
  io : a.io = b.io
  file : a.file = b.file
  nodes : a.nodes = b.nodes
  threads : a.threads = b.threads
  targets : a.targets = b.targets

theorem Grows.products {a b : Cluster} (grows : a.Grows b) :
    a.gbps * 2 ^ 30 ≤ b.gbps * 2 ^ 30 ∧
      a.gbps * 2 ^ 27 * a.nodes * a.duration ≤ b.gbps * 2 ^ 27 * b.nodes * b.duration ∧
      a.agg * 2 ^ 30 * a.duration ≤ b.agg * 2 ^ 30 * b.duration ∧
      a.iops * a.nodes * a.duration ≤ b.iops * b.nodes * b.duration := by
  have nodes := grows.nodes.le
  have gbps := grows.gbps
  have iops := grows.iops
  have agg := grows.agg
  have duration := grows.duration
  refine ⟨?_, ?_, ?_, ?_⟩ <;> gcongr

theorem Grows.fitting {a b : Cluster} (grows : a.Grows b) (fitting : b.Fitting) : a.Fitting := by
  obtain ⟨rate, node, agg, iops⟩ := grows.products
  exact ⟨rate.trans_lt fitting.1, node.trans_lt fitting.2.1, agg.trans_lt fitting.2.2.1,
    iops.trans_lt fitting.2.2.2⟩

theorem Grows.files_le {a b : Cluster} (grows : a.Grows b) : a.files ≤ b.files := by
  obtain ⟨-, node, agg, iops⟩ := grows.products
  have block : a.block = b.block := by rw [block, block, grows.io, grows.file]
  have divisor : a.divisor = b.divisor := by
    rw [divisor, divisor, block, grows.file, grows.nodes, grows.threads, grows.targets]
  have most : a.maxIos ≤ b.maxIos := by
    rw [maxIos, maxIos, block]
    exact min_le_min iops (Nat.div_le_div_right (min_le_min node agg))
  rw [files, files, divisor]
  apply max_le_max (le_refl 1)
  apply Nat.ceil_mono
  gcongr

end Cluster

/-- The files are those of the formula exactly where the reduced products have the same multiples
of the divisor below them as the exact ones; they do where the products fit, and there more time
or throughput never takes files away. -/
theorem file_count_exact (c : Cluster) (valid : c.Valid) :
    (c.computed = some (numeral c.files) ↔ c.SameMultiples) ∧
    (c.Fitting → c.computed = some (numeral c.files) ∧
      ∀ a : Cluster, a.Valid → a.Grows c → ∃ m n, a.computed = some (numeral m) ∧
        c.computed = some (numeral n) ∧ m ≤ n) := by
  have exact (c : Cluster) (valid : c.Valid) (fitting : c.Fitting) :
      c.computed = some (numeral c.files) :=
    (Cluster.computed_iff valid).mpr (Cluster.sameMultiples_of_fitting fitting)
  refine ⟨Cluster.computed_iff valid, fun fitting => ⟨exact c valid fitting, ?_⟩⟩
  intro a first grows
  exact ⟨a.files, c.files, exact a first (grows.fitting fitting), exact c valid fitting,
    grows.files_le⟩

def largeCluster (duration : Nat) : Cluster where
  gbps := 400
  iops := 1000000
  agg := 50000
  io := ⟨1, .M⟩
  file := ⟨1, .G⟩
  nodes := 2000
  threads := 16
  duration := duration
  targets := 1

theorem file_count_exact_large :
    ∃ m n, (largeCluster 60000).computed = some (numeral m) ∧
      (largeCluster 80000).computed = some (numeral n) ∧ m ≤ n :=
  ((file_count_exact (largeCluster 80000) (by decide)).2 (by decide)).2 (largeCluster 60000)
    (by decide) ⟨by decide, by decide, by decide, by decide, rfl, rfl, rfl, rfl, rfl⟩

/-- A day on the large cluster wraps the bytes of its nodes. -/
theorem file_count_wraps :
    (largeCluster 86400).Valid ∧ (largeCluster 80000).computed = some (numeral 125000) ∧
      (largeCluster 86400).computed = some (numeral 1) ∧ (largeCluster 86400).files = 135000 := by
  decide +kernel

end StorageScaleTest.Sizing
