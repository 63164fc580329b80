import StorageScaleTest.Sizing.Completion
import StorageScaleTest.Proof.Sizing.Decimal
import Mathlib.Algebra.Order.Round
import Mathlib.Data.Rat.Floor
import Mathlib.Tactic.FieldSimp

/-!
# Completion mode rounds to a complete set

The rearranged comparisons decide what they stand for, and nothing but the search for the largest
integer leaves the range of the shell.
-/

namespace StorageScaleTest.Sizing
open Shell Decimal
open Calc (op op_of_fits bind_mk pure_mk)

/-! ## Numbers of the shell -/

theorem arithmetic_numeral {n : Nat} (pos : 0 < n) (small : n < 2 ^ 63) :
    arithmetic (numeral n) = some (n : Int) := by
  obtain ⟨c, a, shape, other⟩ := numeral_head pos
  have number : Nat.ofDigitChars 10 (c :: a) 0 = n := by
    rw [← shape]
    exact value_numeral n
  have fits : Fits (n : Int) := by
    unfold Fits
    omega
  rw [shape, arithmetic.eq_2 (c :: a) (by
    intro digits same
    exact other (List.cons.inj same).1), number, wrap_of_fits fits]

theorem evaluate_numeral {n : Nat} (pos : 0 < n) (small : n < 2 ^ 63) :
    evaluate (numeral n) = n := by
  rw [evaluate, arithmetic_numeral pos small, Option.getD_some]

theorem numeral_of_positive {word : List Char} (positive : isPositiveDecimal word) :
    word = numeral (value word) ∧ 0 < value word := by
  obtain ⟨digits, head⟩ := positive
  obtain ⟨some_, all⟩ := isDigits_iff.mp digits
  cases word with
  | nil => exact absurd rfl some_
  | cons c a =>
      have other : c ≠ '0' := by simpa using head
      have same := numeral_value all (.inl other)
      refine ⟨same.symm, ?_⟩
      apply Nat.pos_of_ne_zero
      intro zero
      rw [zero] at same
      exact other (List.cons.inj same).1.symm

theorem exceeds_iff {word : List Char} (digits : isDigits word = true) (maximum : Nat) :
    exceeds word maximum ↔ maximum < value word := by
  rw [exceeds, Int.toNat_natCast, decimalCompare_eq digits (isDigits_true maximum), value_numeral,
    Option.some.injEq, Int.sign_eq_one_iff_pos]
  omega

/-! ## The largest integer -/

theorem signedMaxLoop_of {j : Nat} (near : j ≤ 62) {fuel : Nat} (enough : j < fuel) :
    (signedMaxLoop fuel (2 ^ (63 - j) - 1)).value = some (2 ^ 63 - 1) ∧
      overflows (signedMaxLoop fuel (2 ^ (63 - j) - 1)).exact = [2 ^ 64 - 2] := by
  induction j generalizing fuel with
  | zero =>
      obtain ⟨fuel, rfl⟩ := Nat.exists_eq_succ_of_ne_zero (Nat.ne_of_gt enough)
      rw [signedMaxLoop]
      exact ⟨rfl, rfl⟩
  | succ j ih =>
      obtain ⟨fuel, rfl⟩ := Nat.exists_eq_succ_of_ne_zero (Nat.ne_of_gt (Nat.zero_lt_of_lt enough))
      obtain ⟨value, exact⟩ := ih (by omega) (show j < fuel by omega)
      have exponent : 63 - j = 63 - (j + 1) + 1 := by omega
      have bound : (2 : Int) ^ (63 - (j + 1)) ≤ 2 ^ 62 :=
        pow_le_pow_right₀ (by decide) (by omega)
      have low : (1 : Int) ≤ 2 ^ (63 - (j + 1)) := one_le_pow₀ (by decide)
      rw [exponent, pow_succ] at value exact
      generalize (2 : Int) ^ (63 - (j + 1)) = p at *
      have doubled : Fits ((p - 1) * 2) := by
        unfold Fits
        omega
      have next : Fits ((p - 1) * 2 + 1) := by
        unfold Fits
        omega
      have same : (p - 1) * 2 + 1 = p * 2 - 1 := by ring
      rw [same] at next
      simp only [signedMaxLoop, op_of_fits doubled, bind_mk, same, op_of_fits next]
      rw [if_neg (by omega)]
      refine ⟨value, ?_⟩
      rw [List.singleton_append, List.singleton_append, overflows_cons doubled, overflows_cons next]
      exact exact

theorem shellSignedMax_eq {fuel : Nat} (enough : 63 ≤ fuel) :
    (shellSignedMax fuel).value = some ((2 ^ 63 - 1 : Nat) : Int) ∧
      overflows (shellSignedMax fuel).exact = [2 ^ 64 - 2] :=
  signedMaxLoop_of (j := 62) (le_refl 62) enough

/-! ## Targets -/

/-- The weight of a root is a positive decimal, and all of them add up within the range. -/
def Weighable (maximum : Nat) (weights : List (List Char)) (total : Nat) : Prop :=
  (∀ weight ∈ weights, isPositiveDecimal weight) ∧ total + (weights.map value).sum ≤ maximum

theorem weighable_cons {maximum total : Nat} {weight : List Char} {weights : List (List Char)} :
    Weighable maximum (weight :: weights) total ↔
      isPositiveDecimal weight ∧ Weighable maximum weights (total + value weight) := by
  unfold Weighable
  rw [List.forall_mem_cons, List.map_cons, List.sum_cons, ← Nat.add_assoc, and_assoc]

theorem targetCountLoop_of {maximum : Nat} (fits : maximum < 2 ^ 63) {weights : List (List Char)}
    {total : Nat} (within : total ≤ maximum) :
    overflows (targetCountLoop maximum weights total).exact = [] ∧
      (Weighable maximum weights total → (targetCountLoop maximum weights total).value =
        some ((total + (weights.map value).sum : Nat) : Int)) ∧
      (¬Weighable maximum weights total →
        (targetCountLoop maximum weights total).value = none) := by
  induction weights generalizing total with
  | nil =>
      refine ⟨rfl, fun _ => rfl, fun heavy => absurd ?_ heavy⟩
      exact ⟨fun _ mem => absurd mem List.not_mem_nil, by simpa using within⟩
  | cons weight weights ih =>
      by_cases valid : isPositiveDecimal weight ∧ value weight ≤ maximum
      · obtain ⟨positive, small⟩ := valid
        obtain ⟨same, pos⟩ := numeral_of_positive positive
        have number : evaluate weight = value weight := by
          rw [same, evaluate_numeral pos (by omega), value_numeral]
        have admitted : ¬(¬isPositiveDecimal weight ∨ exceeds weight maximum) := by
          rw [exceeds_iff positive.1]
          exact not_or.mpr ⟨not_not.mpr positive, Nat.not_lt.mpr small⟩
        have room : Fits ((maximum : Int) - value weight) := by
          unfold Fits
          omega
        simp only [targetCountLoop, if_neg admitted, number, op_of_fits room, bind_mk]
        by_cases beyond : (total : Int) > maximum - value weight
        · rw [if_pos beyond]
          refine ⟨overflows_cons room [], fun light => ?_, fun _ => rfl⟩
          have sum := (weighable_cons.mp light).2.2
          omega
        · have next : Fits ((total : Int) + value weight) := by
            unfold Fits
            omega
          obtain ⟨exact, light, heavy⟩ := @ih (total + value weight) (by omega)
          rw [Nat.cast_add] at exact light heavy
          rw [if_neg beyond]
          simp only [op_of_fits next, bind_mk, weighable_cons, positive, true_and]
          rw [List.singleton_append, List.singleton_append, overflows_cons room,
            overflows_cons next, List.map_cons, List.sum_cons, ← Nat.add_assoc]
          exact ⟨exact, light, heavy⟩
      · have refused : ¬isPositiveDecimal weight ∨ exceeds weight maximum := by
          by_cases positive : isPositiveDecimal weight
          · rw [exceeds_iff positive.1]
            exact .inr (Nat.lt_of_not_le fun small => valid ⟨positive, small⟩)
          · exact .inl positive
        rw [targetCountLoop, if_pos refused]
        refine ⟨rfl, fun light => absurd ?_ valid, fun _ => rfl⟩
        obtain ⟨positive, rest⟩ := weighable_cons.mp light
        have sum := rest.2
        exact ⟨positive, by omega⟩

theorem runToCompletionTargetCount_of {fuel : Nat} (enough : 63 ≤ fuel)
    (weights : List (List Char)) :
    (runToCompletionTargetCount fuel weights).value =
        (if weights ≠ [] ∧ (∀ weight ∈ weights, isPositiveDecimal weight) ∧
            (weights.map value).sum < 2 ^ 63 then
          some (numeral (weights.map value).sum)
        else none) ∧
      overflows (runToCompletionTargetCount fuel weights).exact = [2 ^ 64 - 2] := by
  obtain ⟨maximum, searched⟩ := shellSignedMax_eq enough
  obtain ⟨exact, light, heavy⟩ := @targetCountLoop_of (2 ^ 63 - 1) (by decide) weights 0
    (by decide)
  rw [Nat.cast_zero] at exact light heavy
  rw [Nat.zero_add] at light
  have counted : Weighable (2 ^ 63 - 1) weights 0 ↔
      (∀ weight ∈ weights, isPositiveDecimal weight) ∧ (weights.map value).sum < 2 ^ 63 := by
    unfold Weighable
    rw [Nat.zero_add, Nat.le_sub_one_iff_lt (by decide)]
  rw [counted] at light heavy
  unfold runToCompletionTargetCount
  generalize shellSignedMax fuel = search at maximum searched
  obtain ⟨found, steps⟩ := search
  obtain rfl : found = _ := maximum
  rw [bind_mk]
  dsimp only
  generalize targetCountLoop ((2 ^ 63 - 1 : Nat) : Int) weights 0 = count at exact light heavy
  obtain ⟨total, additions⟩ := count
  rw [bind_mk]
  dsimp only at exact light heavy searched ⊢
  by_cases valid : (∀ weight ∈ weights, isPositiveDecimal weight) ∧ (weights.map value).sum < 2 ^ 63
  · obtain rfl := light valid
    refine ⟨?_, ?_⟩
    · cases weights with
      | nil => rfl
      | cons weight weights =>
          have pos := (numeral_of_positive (valid.1 weight List.mem_cons_self)).2
          have more : (((weight :: weights).map value).sum : Int) > 0 := by
            rw [List.map_cons, List.sum_cons]
            omega
          rw [if_pos ⟨List.cons_ne_nil _ _, valid⟩]
          simp only [pure_mk]
          rw [if_pos more, Int.toNat_natCast]
    · simp only [pure_mk, overflows_append, searched, exact, List.append_nil]
  · obtain rfl := heavy valid
    refine ⟨?_, ?_⟩
    · rw [if_neg fun all => valid all.2]
      rfl
    · simp only [pure_mk, overflows_append, searched, exact, List.append_nil]

/-! ## Files -/

def InRange (word : List Char) : Prop := 0 < value word ∧ value word ≤ 2 ^ 63 - 1

instance (word : List Char) : Decidable (InRange word) := inferInstanceAs (Decidable (_ ∧ _))

theorem completionOperand_eq {word : List Char} (digits : isDigits word = true) :
    completionOperand (2 ^ 63 - 1 : Nat) word =
      if InRange word then some (numeral (value word)) else none := by
  have beyond := exceeds_iff (isDigits_true (value word)) (2 ^ 63 - 1)
  rw [value_numeral] at beyond
  have zero : numeral (value word) = ['0'] ↔ value word = 0 :=
    ⟨fun same => numeral_injective (n := 0) same, fun zero => by rw [zero]; rfl⟩
  simp only [completionOperand, decimalCanonicalize_eq digits, Option.bind_eq_bind,
    Option.bind_some, zero, beyond]
  by_cases valid : InRange word
  · rw [if_pos valid]
    unfold InRange at valid
    rw [if_neg (by omega)]
  · rw [if_neg valid]
    unfold InRange at valid
    rw [if_pos (by omega)]

theorem round_eq_div {v d : Nat} (pos : 0 < d) :
    round ((v : ℚ) / d) = if d ≤ 2 * (v % d) then ((v / d + 1 : Nat) : ℤ) else (v / d : Nat) := by
  have parts := Nat.div_add_mod v d
  have rest := Nat.mod_lt v pos
  generalize v / d = k at *
  generalize v % d = s at *
  have positive : (0 : ℚ) < d := by exact_mod_cast pos
  have number : (v : ℚ) / d = k + s / d := by
    rw [← parts]
    push_cast
    field_simp
  have high : (s : ℚ) / d < 1 := by
    rw [div_lt_one positive]
    exact_mod_cast rest
  have low : (0 : ℚ) ≤ s / d := by positivity
  split
  · rename_i above
    have half : 1 / 2 ≤ (s : ℚ) / d := by
      have twice : (d : ℚ) ≤ 2 * s := by exact_mod_cast above
      rw [le_div_iff₀ positive]
      linarith
    rw [round_eq_iff, number]
    constructor <;> push_cast <;> linarith
  · rename_i below
    have half : (s : ℚ) / d < 1 / 2 := by
      have twice : (2 : ℚ) * s < d := by exact_mod_cast Nat.lt_of_not_le below
      rw [div_lt_iff₀ positive]
      linarith
    rw [round_eq_iff, number]
    constructor <;> push_cast <;> linarith

/-- The comparison that avoids twice the remainder decides on which side of one half it is. -/
theorem round_div (r g : Nat) (pos : 0 < g) :
    (round ((r : ℚ) / g)).toNat = r / g + if r % g < g - r % g then 0 else 1 := by
  have rest := Nat.mod_lt r pos
  rw [round_eq_div pos]
  by_cases above : g ≤ 2 * (r % g)
  · rw [if_pos above, if_neg (by omega), Int.toNat_natCast]
  · rw [if_neg above, if_pos (by omega), Int.toNat_natCast, Nat.add_zero]

theorem fits_natCast {n : Nat} (small : n < 2 ^ 63) : Fits (n : Int) := by
  unfold Fits
  omega

theorem count_eq_max (q : Nat) : (if (q : Int) > 0 then (q : Int) else 1) = (max 1 q : Nat) := by
  split <;> omega

theorem completionCount_of {maximum r t g : Nat} (range : maximum < 2 ^ 63)
    (requested : r ≤ maximum) (threads : 0 < t) (targets : 0 < g) :
    (completionCount maximum r t g).value =
        (if t * g ≤ maximum then
          some ((max 1 (round ((r : ℚ) / (t * g : Nat))).toNat : Nat) : Int) else none) ∧
      overflows (completionCount maximum r t g).exact = [] := by
  have mostFits : Fits ((maximum / g : Nat) : Int) :=
    fits_natCast (lt_of_le_of_lt (Nat.div_le_self _ _) range)
  rw [completionCount, ← Int.ofNat_tdiv, op_of_fits mostFits, bind_mk]
  by_cases beyond : ((t : Nat) : Int) > (maximum / g : Nat)
  · have many : ¬t * g ≤ maximum := by
      have above : maximum / g < t := by exact_mod_cast beyond
      rw [Nat.div_lt_iff_lt_mul targets] at above
      omega
    rw [if_pos beyond, if_neg many]
    exact ⟨rfl, overflows_cons mostFits []⟩
  · have few : t * g ≤ maximum := by
      have below : t ≤ maximum / g := by
        have := not_lt.mp beyond
        exact_mod_cast this
      exact (Nat.le_div_iff_mul_le targets).mp below
    have pos : 0 < t * g := Nat.mul_pos threads targets
    rw [if_neg beyond, if_pos few, ← Nat.cast_mul, round_div r _ pos]
    generalize t * g = d at few pos ⊢
    have rest := Nat.mod_lt r pos
    have less := Nat.div_le_self r d
    -- a divisor of one leaves no remainder
    have half : ¬r % d < d - r % d → r / d ≤ r / 2 := by
      intro above
      apply Nat.div_le_div_left _ (by decide)
      by_contra one
      have same : d = 1 := by omega
      rw [same, Nat.mod_one] at above
      exact above Nat.one_pos
    have granularityFits : Fits (d : Int) := fits_natCast (by omega)
    rw [op_of_fits granularityFits, bind_mk, ← Int.ofNat_tdiv, ← Int.ofNat_tmod]
    generalize r / d = q at less half ⊢
    generalize r % d = s at rest half ⊢
    have quotientFits : Fits (q : Int) := fits_natCast (by omega)
    have remainderFits : Fits (s : Int) := fits_natCast (by omega)
    have roomFits : Fits ((d : Int) - s) := by
      unfold Fits
      omega
    rw [op_of_fits quotientFits, bind_mk, op_of_fits remainderFits, bind_mk, op_of_fits roomFits,
      bind_mk]
    dsimp only
    by_cases below : s < d - s
    · have order : (s : Int) < d - s := by omega
      rw [if_pos order, if_pos below, pure_mk, bind_mk, pure_mk]
      refine ⟨?_, ?_⟩
      · rw [count_eq_max, Nat.add_zero]
      · simp only [List.singleton_append, List.append_nil, overflows_cons mostFits,
          overflows_cons granularityFits, overflows_cons quotientFits,
          overflows_cons remainderFits, overflows_cons roomFits, overflows_nil]
    · have order : ¬(s : Int) < d - s := by omega
      have bound := half below
      have next : Fits ((q : Int) + 1) := by
        unfold Fits
        omega
      rw [if_neg order, if_neg below, op_of_fits next, bind_mk, pure_mk]
      refine ⟨?_, ?_⟩
      · rw [← Nat.cast_succ, count_eq_max]
      · simp only [List.singleton_append, List.append_nil, overflows_cons mostFits,
          overflows_cons granularityFits, overflows_cons quotientFits,
          overflows_cons remainderFits, overflows_cons roomFits, overflows_cons next,
          overflows_nil]

theorem runToCompletionFilesPerWorker_of {fuel : Nat} (enough : 63 ≤ fuel)
    {requested threads targets : List Char} (requestedDigits : isDigits requested = true)
    (threadsDigits : isDigits threads = true) (targetsDigits : isDigits targets = true) :
    (runToCompletionFilesPerWorker fuel requested threads targets).value =
        (if (InRange requested ∧ InRange threads ∧ InRange targets) ∧
            value threads * value targets ≤ 2 ^ 63 - 1 then
          some (numeral (max 1
            (round ((value requested : ℚ) / (value threads * value targets : Nat))).toNat))
        else none) ∧
      overflows (runToCompletionFilesPerWorker fuel requested threads targets).exact =
        [2 ^ 64 - 2] := by
  obtain ⟨maximum, searched⟩ := shellSignedMax_eq enough
  unfold runToCompletionFilesPerWorker
  generalize shellSignedMax fuel = search at maximum searched
  obtain ⟨found, steps⟩ := search
  obtain rfl : found = _ := maximum
  dsimp only at searched
  rw [bind_mk]
  simp only [completionOperand_eq requestedDigits, completionOperand_eq threadsDigits,
    completionOperand_eq targetsDigits]
  by_cases valid : InRange requested ∧ InRange threads ∧ InRange targets
  · obtain ⟨r, t, g⟩ := id valid
    rw [if_pos r, if_pos t, if_pos g]
    dsimp only
    have range : ∀ {word : List Char}, InRange word →
        evaluate (numeral (value word)) = value word := by
      intro word valid
      have small := valid.2
      exact evaluate_numeral valid.1 (by omega)
    rw [range r, range t, range g]
    obtain ⟨count, operations⟩ := completionCount_of (by omega) r.2 t.1 g.1
    generalize completionCount _ _ _ _ = calculation at count operations
    obtain ⟨result, operated⟩ := calculation
    dsimp only at count operations
    rw [bind_mk, count]
    refine ⟨?_, ?_⟩
    · by_cases few : value threads * value targets ≤ 2 ^ 63 - 1
      · rw [if_pos few, if_pos ⟨valid, few⟩]
        rfl
      · rw [if_neg few, if_neg fun both => few both.2]
        rfl
    · simp only [pure_mk, overflows_append, searched, operations, List.append_nil]
  · rw [if_neg (c := (InRange requested ∧ InRange threads ∧ InRange targets) ∧
      value threads * value targets ≤ 2 ^ 63 - 1) fun both => valid both.1]
    by_cases r : InRange requested
    · by_cases t : InRange threads
      · have g : ¬InRange targets := fun g => valid ⟨r, t, g⟩
        rw [if_pos r, if_pos t, if_neg g]
        exact ⟨rfl, by rw [pure_mk, List.append_nil, searched]⟩
      · rw [if_pos r, if_neg t]
        exact ⟨rfl, by rw [pure_mk, List.append_nil, searched]⟩
    · rw [if_neg r]
      exact ⟨rfl, by rw [pure_mk, List.append_nil, searched]⟩

/-- Both functions give the exact answer, and all that overflows is the last doubling in the search
for the largest integer. -/
theorem completion_exact {fuel : Nat} (enough : 63 ≤ fuel) :
    (∀ requested threads targets, isDigits requested = true → isDigits threads = true →
      isDigits targets = true →
      (runToCompletionFilesPerWorker fuel requested threads targets).value =
        (if (InRange requested ∧ InRange threads ∧ InRange targets) ∧
            value threads * value targets ≤ 2 ^ 63 - 1 then
          some (numeral (max 1
            (round ((value requested : ℚ) / (value threads * value targets : Nat))).toNat))
        else none) ∧
      overflows (runToCompletionFilesPerWorker fuel requested threads targets).exact =
        [2 ^ 64 - 2]) ∧
    ∀ weights,
      (runToCompletionTargetCount fuel weights).value =
        (if weights ≠ [] ∧ (∀ weight ∈ weights, isPositiveDecimal weight) ∧
            (weights.map value).sum < 2 ^ 63 then
          some (numeral (weights.map value).sum)
        else none) ∧
      overflows (runToCompletionTargetCount fuel weights).exact = [2 ^ 64 - 2] :=
  ⟨fun _ _ _ r t g => runToCompletionFilesPerWorker_of enough r t g,
    fun weights => runToCompletionTargetCount_of enough weights⟩

theorem completion_exact_half :
    (runToCompletionFilesPerWorker 63 "0010".toList "4".toList "1".toList).value =
      some (numeral 3) := by
  have exact := ((completion_exact (le_refl 63)).1 "0010".toList "4".toList "1".toList rfl rfl rfl).1
  rw [exact]
  decide +kernel

/-- The search overflows, and an array without roots has no count. -/
theorem completion_search_overflows :
    (∃ n ∈ (runToCompletionFilesPerWorker 63 "1".toList "1".toList "1".toList).exact, ¬Fits n) ∧
      (runToCompletionTargetCount 63 []).value = none := by
  decide +kernel

end StorageScaleTest.Sizing
