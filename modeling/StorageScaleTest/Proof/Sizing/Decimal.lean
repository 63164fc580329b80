import StorageScaleTest.Sizing.Decimal
import Mathlib.Algebra.BigOperators.Intervals
import Mathlib.Algebra.BigOperators.Ring.Finset
import Mathlib.Algebra.Order.BigOperators.Group.Finset
import Mathlib.Data.Int.Order.Basic
import Mathlib.Tactic.Ring

/-!
# The decimal arithmetic is exact

Each loop works on the place values of its digits, and what it prints is the numeral of the result.
-/

namespace StorageScaleTest.Sizing
open Shell Decimal

theorem decimalCanonicalize_eq {a : List Char} (digits : isDigits a = true) :
    decimalCanonicalize a = some (numeral (value a)) := by
  rw [decimalCanonicalize, if_pos digits, canonical_eq (isDigits_iff.mp digits).2]

/-! ## Order -/

theorem decimalCompare_eq {a b : List Char} (left : isDigits a = true) (right : isDigits b = true) :
    decimalCompare a b = some (Int.sign (value a - value b)) := by
  simp only [decimalCompare, decimalCanonicalize_eq left, decimalCanonicalize_eq right,
    Option.bind_eq_bind, Option.bind_some]
  rcases lt_trichotomy (value a) (value b) with less | same | greater
  · rw [Int.sign_eq_neg_one_of_neg (by omega)]
    rcases numeral_lt less with shorter | ⟨length, before⟩
    · rw [if_pos shorter]
    · rw [if_neg (by omega), if_neg (by omega), if_neg (ne_of_lt before), if_pos before]
  · rw [same, if_neg (lt_irrefl _), if_neg (lt_irrefl _), if_pos rfl, sub_self, Int.sign_zero]
  · rw [Int.sign_eq_one_of_pos (by omega)]
    rcases numeral_lt greater with shorter | ⟨length, before⟩
    · rw [if_neg (by omega), if_pos shorter]
    · rw [if_neg (by omega), if_neg (by omega), if_neg (ne_of_gt before), if_neg (lt_asymm before)]

theorem compareDigits_eq {a b : List Char} (left : IsDigits a) (right : IsDigits b) :
    compareDigits a b ≥ 0 ↔ value b ≤ value a := by
  simp only [compareDigits, canonical_eq left, canonical_eq right]
  rcases lt_trichotomy (value a) (value b) with less | same | greater
  · rcases numeral_lt less with shorter | ⟨length, before⟩
    · rw [if_pos (Nat.ne_of_lt shorter), if_pos shorter]
      omega
    · rw [if_neg (by omega), if_neg (ne_of_lt before), if_pos before]
      omega
  · rw [same]
    simp
  · rcases numeral_lt greater with shorter | ⟨length, before⟩
    · rw [if_pos (Nat.ne_of_gt shorter), if_neg (by omega)]
      omega
    · rw [if_neg (by omega), if_neg (ne_of_gt before), if_neg (lt_asymm before)]
      omega

/-! ## Products -/

def weight (out : Nat → Nat) (n : Nat) : Nat := ∑ i ∈ Finset.range n, out i * 10 ^ i

theorem weight_succ (out : Nat → Nat) (n : Nat) :
    weight out (n + 1) = weight out n + out n * 10 ^ n := Finset.sum_range_succ _ n

theorem weight_congr {out out' : Nat → Nat} {n : Nat} (same : ∀ k < n, out k = out' k) :
    weight out n = weight out' n := by
  apply Finset.sum_congr rfl
  intro k inside
  rw [same k (Finset.mem_range.mp inside)]

theorem weight_bump {out : Nat → Nat} {k n : Nat} (x : Nat) (inside : k < n) :
    weight (bump out k x) n = weight out n + x * 10 ^ k := by
  unfold weight bump
  simp only [add_mul, Finset.sum_add_distrib, ite_mul, zero_mul]
  rw [Finset.sum_ite_eq' (Finset.range n) k, if_pos (Finset.mem_range.mpr inside)]

theorem value_reverse_cons (c : Char) (r : List Char) :
    value (c :: r).reverse = 10 * value r.reverse + digit c := by
  rw [List.reverse_cons, value_concat]

theorem weight_row (x i n : Nat) (r : List Char) (start : Nat) (out : Nat → Nat)
    (fits : i + start + r.length ≤ n) :
    weight ((r.zipIdx start).foldl (fun out (d, j) => bump out (i + j) (x * digit d)) out) n =
      weight out n + x * value r.reverse * 10 ^ (i + start) := by
  induction r generalizing start out with
  | nil => simp
  | cons d r ih =>
      rw [List.length_cons] at fits
      rw [List.zipIdx_cons, List.foldl_cons, ih (start + 1) _ (by omega),
        weight_bump _ (by omega), value_reverse_cons]
      ring

theorem weight_rows (b : List Char) (n : Nat) (r : List Char) (start : Nat) (out : Nat → Nat)
    (fits : start + r.length + b.length ≤ n) :
    weight ((r.zipIdx start).foldl (fun out (c, i) => b.reverse.zipIdx.foldl
      (fun out (d, j) => bump out (i + j) (digit c * digit d)) out) out) n =
      weight out n + value r.reverse * value b * 10 ^ start := by
  induction r generalizing start out with
  | nil => simp
  | cons c r ih =>
      rw [List.length_cons] at fits
      have row := weight_row (digit c) start n b.reverse 0 out (by
        rw [List.length_reverse]
        omega)
      rw [List.reverse_reverse, Nat.add_zero] at row
      rw [List.zipIdx_cons, List.foldl_cons, ih (start + 1) _ (by omega), row, value_reverse_cons]
      ring

theorem weight_placeProducts {a b : List Char} {n : Nat} (fits : a.length + b.length ≤ n) :
    weight (placeProducts a b) n = value a * value b := by
  have rows := weight_rows b n a.reverse 0 (fun _ => 0) (by
    rw [List.length_reverse]
    omega)
  rw [List.reverse_reverse, pow_zero, Nat.mul_one] at rows
  rw [placeProducts, rows]
  simp [weight]

theorem weight_carryFrom {out : Nat → Nat} {i n : Nat} (inside : i + 1 < n) :
    weight (carryFrom out i) n = weight out n := by
  obtain ⟨m, rfl⟩ := Nat.exists_eq_add_of_le inside
  induction m with
  | zero =>
      have before : weight (carryFrom out i) i = weight out i := by
        apply weight_congr
        intro k below
        rw [carryFrom, if_neg (by omega), if_neg (by omega)]
      have here : carryFrom out i i = out i % 10 := if_pos rfl
      have next : carryFrom out i (i + 1) = out (i + 1) + out i / 10 := by
        rw [carryFrom, if_neg (by omega), if_pos rfl]
      have parts := Nat.mod_add_div (out i) 10
      rw [Nat.add_zero, weight_succ, weight_succ, weight_succ, weight_succ, before, here, next]
      calc weight out i + out i % 10 * 10 ^ i + (out (i + 1) + out i / 10) * 10 ^ (i + 1)
          = weight out i + (out i % 10 + 10 * (out i / 10)) * 10 ^ i +
              out (i + 1) * 10 ^ (i + 1) := by ring
        _ = weight out i + out i * 10 ^ i + out (i + 1) * 10 ^ (i + 1) := by rw [parts]
  | succ m ih =>
      have later : carryFrom out i (i + 1 + 1 + m) = out (i + 1 + 1 + m) := by
        rw [carryFrom, if_neg (by omega), if_neg (by omega)]
      rw [← Nat.add_assoc, weight_succ, weight_succ, later]
      exact congrArg (· + _) (ih (by omega))

theorem carried (out : Nat → Nat) (m : Nat) :
    (∀ k < m, (List.range m).foldl carryFrom out k < 10) ∧
      ∀ n > m, weight ((List.range m).foldl carryFrom out) n = weight out n := by
  induction m with
  | zero => simp
  | succ m ih =>
      rw [List.range_succ, List.foldl_concat]
      constructor
      · intro k inside
        by_cases last : k = m
        · rw [carryFrom, if_pos last]
          exact Nat.mod_lt _ (by decide)
        · rw [carryFrom, if_neg last, if_neg (by omega)]
          exact ih.1 k (by omega)
      · intro n more
        rw [weight_carryFrom more]
        exact ih.2 n (by omega)

theorem topPlace_le (out : Nat → Nat) (max : Nat) : topPlace out max ≤ max := by
  induction max with
  | zero => exact le_refl 0
  | succ max ih =>
      rw [topPlace]
      split
      · omega
      · exact le_refl _

theorem topPlace_ne (out : Nat → Nat) (max : Nat) :
    topPlace out max = 0 ∨ out (topPlace out max) ≠ 0 := by
  induction max with
  | zero => exact .inl rfl
  | succ max ih =>
      rw [topPlace]
      split
      · exact ih
      · exact .inr (by assumption)

theorem weight_topPlace (out : Nat → Nat) (max : Nat) :
    weight out (topPlace out max + 1) = weight out (max + 1) := by
  induction max with
  | zero => rfl
  | succ max ih =>
      rw [topPlace]
      split
      · rename_i zero
        rw [ih, weight_succ out (max + 1), zero, zero_mul, add_zero]
      · rfl

theorem places_digits {out : Nat → Nat} {n : Nat} (small : ∀ k < n, out k < 10) :
    IsDigits ((List.range n).reverse.flatMap fun i => numeral (out i)) ∧
      ((List.range n).reverse.flatMap fun i => numeral (out i)).length = n ∧
      value ((List.range n).reverse.flatMap fun i => numeral (out i)) = weight out n := by
  induction n with
  | zero => simp [IsDigits, weight]
  | succ n ih =>
      obtain ⟨digits, length, number⟩ := ih fun k inside => small k (by omega)
      have last := small n (by omega)
      rw [List.range_succ, List.reverse_concat, List.flatMap_cons]
      refine ⟨(isDigits_numeral _).append digits, ?_, ?_⟩
      · rw [List.length_append, length, numeral_of_lt last]
        exact Nat.add_comm 1 n
      · rw [value_append, value_numeral, number, length, weight_succ]
        ring

theorem multiplyDigits_eq (m n : Nat) :
    multiplyDigits (numeral m) (numeral n) = numeral (m * n) := by
  have zero : numeral 0 = ['0'] := rfl
  unfold multiplyDigits
  split
  · rename_i none
    rcases none with left | right
    · rw [numeral_injective (left.trans zero.symm), Nat.zero_mul, zero]
    · rw [numeral_injective (right.trans zero.symm), Nat.mul_zero, zero]
  · rename_i some_
    obtain ⟨left, right⟩ := not_or.mp some_
    have posM : 0 < m := Nat.pos_of_ne_zero fun none => left (by rw [none, zero])
    have posN : 0 < n := Nat.pos_of_ne_zero fun none => right (by rw [none, zero])
    dsimp only
    generalize size : (numeral m).length + (numeral n).length = max
    obtain ⟨small, kept⟩ := carried (placeProducts (numeral m) (numeral n)) (max + 1)
    generalize (List.range (max + 1)).foldl carryFrom (placeProducts (numeral m) (numeral n)) = out
      at small kept ⊢
    have total : weight out (max + 2) = m * n := by
      rw [kept _ (by omega), weight_placeProducts (by omega), value_numeral, value_numeral]
    -- the product is below 10 ^ max, so nothing is carried past the last place
    have below : m * n < 10 ^ max := by
      have boundM := value_lt (isDigits_numeral m)
      have boundN := value_lt (isDigits_numeral n)
      rw [value_numeral] at boundM boundN
      rw [← size, pow_add]
      exact Nat.mul_lt_mul_of_lt_of_lt boundM boundN
    have last : out (max + 1) = 0 := by
      by_contra some_
      have least : 10 ^ (max + 1) ≤ out (max + 1) * 10 ^ (max + 1) :=
        Nat.le_mul_of_pos_left _ (Nat.pos_of_ne_zero some_)
      have more : 10 ^ max ≤ 10 ^ (max + 1) := Nat.pow_le_pow_right (by decide) (by omega)
      rw [weight_succ] at total
      omega
    have product : weight out (topPlace out max + 1) = m * n := by
      rw [weight_topPlace, ← total, weight_succ out (max + 1), last, zero_mul, add_zero]
    have top := topPlace_le out max
    obtain ⟨digits, length, number⟩ := places_digits
      (show ∀ k < topPlace out max + 1, out k < 10 from fun k inside => small k (by omega))
    rw [product] at number
    have first : out (topPlace out max) ≠ 0 := by
      rcases topPlace_ne out max with bottom | some_
      · intro none
        have pos := Nat.mul_pos posM posN
        rw [bottom, weight_succ] at product
        rw [bottom] at none
        rw [none, Nat.zero_mul] at product
        simp only [weight, Finset.range_zero, Finset.sum_empty] at product
        omega
      · exact some_
    have digit : out (topPlace out max) < 10 := small _ (by omega)
    rw [List.range_succ, List.reverse_concat, List.flatMap_cons, numeral_of_lt digit] at *
    rw [← number]
    refine (numeral_value digits (.inl ?_)).symm
    intro same
    exact first (Nat.digitChar_eq_zero.mp same)

theorem decimalMultiply_eq {a b : List Char} (left : isDigits a = true)
    (right : isDigits b = true) : decimalMultiply a b = some (numeral (value a * value b)) := by
  simp only [decimalMultiply, decimalCanonicalize_eq left, decimalCanonicalize_eq right,
    Option.bind_eq_bind, Option.bind_some, multiplyDigits_eq]

/-! ## Sums -/

theorem headDigit_stripped (n : Nat) : headDigit (stripped n).reverse = n % 10 := by
  by_cases zero : n = 0
  · rw [zero]
    rfl
  · rw [stripped_split (Nat.pos_of_ne_zero zero), List.reverse_concat]
    exact digit_digitChar (Nat.mod_lt n (by decide))

theorem tail_stripped (n : Nat) : (stripped n).reverse.tail = (stripped (n / 10)).reverse := by
  by_cases zero : n = 0
  · rw [zero]
    rfl
  · rw [stripped_split (Nat.pos_of_ne_zero zero), List.reverse_concat, List.tail_cons]

theorem addLoop_stripped (m n carry : Nat) (out : List Char) :
    addLoop (stripped m).reverse (stripped n).reverse carry out =
      stripped (m + n + carry) ++ out := by
  induction total : m + n + carry using Nat.strong_induction_on generalizing m n carry out with
  | _ total' ih =>
      rw [addLoop]
      by_cases ended : m = 0 ∧ n = 0 ∧ carry = 0
      · obtain ⟨rfl, rfl, rfl⟩ := ended
        rw [dif_pos ⟨rfl, rfl, rfl⟩, ← total]
        rfl
      · rw [dif_neg (by simpa only [List.reverse_eq_nil_iff, stripped_eq_nil] using ended)]
        simp only [headDigit_stripped, tail_stripped]
        have digits : (m / 10 + n / 10 + (carry + m % 10 + n % 10) / 10) = total' / 10 := by omega
        have last : (carry + m % 10 + n % 10) % 10 = total' % 10 := by omega
        rw [ih _ (by omega) (m / 10) (n / 10) _ _ rfl, digits, last,
          stripped_split (n := total') (by omega), numeral_of_lt (Nat.mod_lt _ (by decide)),
          List.append_assoc]

theorem addDigits_eq (m n : Nat) : addDigits (numeral m) (numeral n) = numeral (m + n) := by
  have digitM := digit_digitChar (Nat.mod_lt m (by decide : 10 > 0))
  have digitN := digit_digitChar (Nat.mod_lt n (by decide : 10 > 0))
  rw [addDigits, numeral_split m, numeral_split n, List.reverse_concat, List.reverse_concat,
    addLoop, dif_neg (by simp)]
  simp only [headDigit, List.head?_cons, Option.map_some, Option.getD_some, List.tail_cons, digitM,
    digitN, Nat.zero_add]
  have tens : m / 10 + n / 10 + (m % 10 + n % 10) / 10 = (m + n) / 10 := by omega
  have ones : (m % 10 + n % 10) % 10 = (m + n) % 10 := by omega
  rw [addLoop_stripped, numeral_of_lt (Nat.mod_lt _ (by decide)), tens, ones, List.append_nil,
    numeral_split (m + n)]

theorem decimalAdd_eq {a b : List Char} (left : isDigits a = true) (right : isDigits b = true) :
    decimalAdd a b = some (numeral (value a + value b)) := by
  simp only [decimalAdd, decimalCanonicalize_eq left, decimalCanonicalize_eq right,
    Option.bind_eq_bind, Option.bind_some, addDigits_eq]

/-! ## Differences -/

/-- What is left to subtract, with the borrow, never exceeds what is left of the minuend. -/
theorem subtractLoop_value {left right out : List Char} {borrow : Nat} (leftDigits : IsDigits left)
    (rightDigits : IsDigits right) (outDigits : IsDigits out) (once : borrow ≤ 1)
    (enough : value right.reverse + borrow ≤ value left.reverse) :
    IsDigits (subtractLoop left right borrow out) ∧
      value (subtractLoop left right borrow out) + 10 ^ out.length * (value right.reverse + borrow) =
        10 ^ out.length * value left.reverse + value out := by
  induction left generalizing right borrow out with
  | nil =>
      rw [List.reverse_nil, value_nil] at enough
      have none : value right.reverse + borrow = 0 := by omega
      rw [subtractLoop, List.reverse_nil, value_nil, none]
      exact ⟨outDigits, by omega⟩
  | cons c left ih =>
      have digitC := digit_lt (leftDigits c List.mem_cons_self)
      have tailDigits : IsDigits right.tail := fun d mem => rightDigits d (List.mem_of_mem_tail mem)
      have leftTail : IsDigits left := fun d mem => leftDigits d (List.mem_cons_of_mem _ mem)
      have headLt : headDigit right < 10 := by
        cases right with
        | nil => exact Nat.zero_lt_succ 9
        | cons d right => exact digit_lt (rightDigits d List.mem_cons_self)
      have parts : value right.reverse = 10 * value right.tail.reverse + headDigit right := by
        cases right with
        | nil => rfl
        | cons d right => exact value_reverse_cons d right
      rw [value_reverse_cons, parts] at enough ⊢
      rw [subtractLoop]
      split
      · rename_i negative
        generalize size : ((digit c : Int) - borrow - headDigit right + 10).toNat = d
        have number : d + borrow + headDigit right = digit c + 10 := by omega
        have length : (numeral d ++ out).length = out.length + 1 := by
          rw [List.length_append, numeral_of_lt (by omega)]
          exact Nat.add_comm 1 _
        obtain ⟨digits, sum⟩ := ih leftTail tailDigits
          ((isDigits_numeral d).append outDigits) (show 1 ≤ 1 from le_refl 1) (by omega)
        refine ⟨digits, ?_⟩
        rw [length, value_append, value_numeral, pow_succ] at sum
        have scaled := congrArg (10 ^ out.length * ·) number
        simp only [mul_add] at scaled sum ⊢
        push_cast at sum
        linarith
      · rename_i positive
        generalize size : ((digit c : Int) - borrow - headDigit right).toNat = d
        have number : d + borrow + headDigit right = digit c := by omega
        have length : (numeral d ++ out).length = out.length + 1 := by
          rw [List.length_append, numeral_of_lt (by omega)]
          exact Nat.add_comm 1 _
        obtain ⟨digits, sum⟩ := ih leftTail tailDigits
          ((isDigits_numeral d).append outDigits) (show 0 ≤ 1 from Nat.zero_le 1) (by omega)
        refine ⟨digits, ?_⟩
        rw [length, value_append, value_numeral, pow_succ] at sum
        have scaled := congrArg (10 ^ out.length * ·) number
        simp only [mul_add] at scaled sum ⊢
        push_cast at sum
        linarith

theorem subtractDigits_eq {a b : List Char} (left : IsDigits a) (right : IsDigits b)
    (le : value b ≤ value a) : subtractDigits a b = numeral (value a - value b) := by
  have reversed : ∀ c : List Char, IsDigits c → IsDigits c.reverse :=
    fun c digits d mem => digits d (List.mem_reverse.mp mem)
  obtain ⟨digits, sum⟩ := subtractLoop_value (reversed a left) (reversed b right)
    (show IsDigits [] from fun c mem => absurd mem List.not_mem_nil)
    (show 0 ≤ 1 from Nat.zero_le 1) (by
      rw [List.reverse_reverse, List.reverse_reverse]
      exact le)
  rw [Nat.cast_zero] at digits sum
  rw [List.reverse_reverse, List.reverse_reverse, List.length_nil, value_nil, pow_zero] at sum
  rw [subtractDigits, canonical_eq digits]
  congr 1
  omega

theorem isDigits_true (n : Nat) : isDigits (numeral n) = true :=
  isDigits_iff.mpr ⟨Nat.toDigits_ne_nil, isDigits_numeral n⟩

theorem decimalSubtract_eq {a b : List Char} (left : isDigits a = true)
    (right : isDigits b = true) : decimalSubtract a b =
      if value b ≤ value a then some (numeral (value a - value b)) else none := by
  simp only [decimalSubtract, decimalCanonicalize_eq left, decimalCanonicalize_eq right,
    Option.bind_eq_bind, Option.bind_some,
    decimalCompare_eq (isDigits_true (value a)) (isDigits_true (value b)), value_numeral]
  by_cases le : value b ≤ value a
  · have order : Int.sign (value a - value b) ≥ 0 := Int.sign_nonneg_iff.mpr (by omega)
    rw [if_pos le, if_pos order, subtractDigits_eq (isDigits_numeral _) (isDigits_numeral _) (by
      rw [value_numeral, value_numeral]
      exact le), value_numeral, value_numeral]
  · have order : ¬Int.sign (value a - value b) ≥ 0 := by
      rw [Int.sign_eq_neg_one_of_neg (by omega)]
      decide
    rw [if_neg le, if_neg order]

/-! ## Quotients -/

/-- After some digits the state is the remainder and the stripped quotient of their value. -/
theorem divideStep_foldl {divisor : Nat} (pos : 0 < divisor) {a : List Char} (digits : IsDigits a) :
    a.foldl (divideStep divisor) (0, []) =
      (value a % divisor, stripped (value a / divisor)) := by
  induction a using List.reverseRecOn with
  | nil => simp
  | append_singleton a c ih =>
      have last := digit_lt (digits c (by simp))
      have before := ih fun d mem => digits d (List.mem_append_left _ mem)
      have parts := Nat.div_add_mod (value a) divisor
      have rest := Nat.mod_lt (value a) pos
      generalize value a / divisor = q at before parts
      generalize value a % divisor = r at before parts rest
      have number : 10 * value a + digit c = divisor * (10 * q) + (r * 10 + digit c) := by
        rw [← parts]
        ring
      have quotient : (10 * value a + digit c) / divisor = 10 * q + (r * 10 + digit c) / divisor := by
        rw [number, Nat.mul_add_div pos]
      have remainder : (10 * value a + digit c) % divisor = (r * 10 + digit c) % divisor := by
        rw [number, Nat.mul_add_mod]
      have small : (r * 10 + digit c) / divisor < 10 := by
        rw [Nat.div_lt_iff_lt_mul pos]
        omega
      rw [List.foldl_concat, before, value_concat, quotient, remainder, divideStep]
      dsimp only
      generalize (r * 10 + digit c) / divisor = d at small
      rw [numeral_of_lt small]
      by_cases zero : q = 0
      · subst zero
        by_cases none : d = 0
        · simp [none]
        · rw [if_pos (.inr none), stripped_zero, List.nil_append, Nat.mul_zero, Nat.zero_add,
            stripped_of_pos (Nat.pos_of_ne_zero none), numeral_of_lt small]
      · have positive := Nat.pos_of_ne_zero zero
        rw [if_pos (.inl (by simpa [stripped_eq_nil] using zero)), stripped_of_pos positive,
          numeral_concat positive small, stripped_of_pos (by omega)]

theorem decimalDivideSmall_eq {a divisor : List Char} (digits : isDigits a = true)
    (small : isDigits divisor = true) (head : divisor.head? ≠ some '0') :
    decimalDivideSmall a divisor =
      some (numeral (value a / value divisor), numeral (value a % value divisor)) := by
  have pos : 0 < value divisor := by
    obtain ⟨some_, all⟩ := isDigits_iff.mp small
    cases divisor with
    | nil => exact absurd rfl some_
    | cons c rest =>
        have other : c ≠ '0' := by simpa using head
        have first : digit c ≠ 0 := fun zero =>
          other (digit_eq_zero (all c List.mem_cons_self) zero)
        rw [value_cons]
        have scaled := Nat.mul_pos (Nat.pow_pos (n := rest.length) (by decide : 0 < 10))
          (Nat.pos_of_ne_zero first)
        omega
  simp only [decimalDivideSmall, decimalCanonicalize_eq digits, Option.bind_eq_bind,
    Option.bind_some]
  rw [if_pos ⟨small, head⟩, divideStep_foldl pos (isDigits_numeral _), value_numeral]
  dsimp only
  congr 2
  by_cases zero : value a / value divisor = 0
  · rw [zero]
    rfl
  · rw [if_neg (by simpa [stripped_eq_nil] using zero), stripped_of_pos (Nat.pos_of_ne_zero zero)]

theorem reduce_eq {n fuel m : Nat} (enough : m / n < fuel) (pos : 0 < n) :
    reduce (numeral n) fuel (numeral m) = some (numeral (m % n)) := by
  induction fuel generalizing m with
  | zero => exact absurd enough (Nat.not_lt_zero _)
  | succ fuel ih =>
      rw [reduce, if_congr (compareDigits_eq (isDigits_numeral m) (isDigits_numeral n)) rfl rfl,
        value_numeral, value_numeral]
      split
      · rename_i le
        have fewer : (m - n) / n < fuel := by
          have step := Nat.div_eq_sub_div pos le
          omega
        rw [subtractDigits_eq (isDigits_numeral m) (isDigits_numeral n) (by
          rw [value_numeral, value_numeral]
          exact le), value_numeral, value_numeral, ih fewer, Nat.mod_eq_sub_mod le]
      · rename_i less
        rw [Nat.mod_eq_of_lt (Nat.lt_of_not_le less)]

theorem canonical_concat {n : Nat} {c : Char} (isDigit : c.isDigit = true) :
    canonical (numeral n ++ [c]) = numeral (10 * n + digit c) := by
  have digits : IsDigits (numeral n ++ [c]) :=
    (isDigits_numeral n).append fun d mem => by rwa [List.mem_singleton.mp mem]
  rw [canonical_eq digits, value_concat, value_numeral]

/-- The remainder so far is below the divisor, so ten subtractions suffice for each digit. -/
theorem reduce_foldlM {n fuel : Nat} (pos : 0 < n) (enough : 10 ≤ fuel) {a : List Char}
    (digits : IsDigits a) :
    a.foldlM (fun rem c => reduce (numeral n) fuel (canonical (rem ++ [c]))) ['0'] =
      some (numeral (value a % n)) := by
  induction a using List.reverseRecOn with
  | nil =>
      rw [value_nil, Nat.zero_mod]
      rfl
  | append_singleton a c ih =>
      have isDigit : c.isDigit = true := digits c (by simp)
      have last := digit_lt isDigit
      have rest := Nat.mod_lt (value a) pos
      have fewer : (10 * (value a % n) + digit c) / n < fuel := by
        apply lt_of_lt_of_le _ enough
        rw [Nat.div_lt_iff_lt_mul pos]
        omega
      have remainder : (10 * (value a % n) + digit c) % n = (10 * value a + digit c) % n := by
        rw [Nat.add_mod, Nat.mul_mod, Nat.mod_mod, ← Nat.mul_mod, ← Nat.add_mod]
      rw [List.foldlM_append, ih fun d mem => digits d (List.mem_append_left _ mem)]
      simp only [Option.bind_eq_bind, Option.bind_some, List.foldlM_cons, List.foldlM_nil]
      rw [canonical_concat isDigit, reduce_eq fewer pos, remainder, value_concat]
      rfl

theorem decimalMod_eq {fuel : Nat} {a b : List Char} (enough : 10 ≤ fuel)
    (left : isDigits a = true) (right : isDigits b = true) (pos : value b ≠ 0) :
    decimalMod fuel a b = some (numeral (value a % value b)) := by
  have other : numeral (value b) ≠ ['0'] := fun same => pos (numeral_injective (n := 0) same)
  simp only [decimalMod, decimalCanonicalize_eq left, decimalCanonicalize_eq right,
    Option.bind_eq_bind, Option.bind_some, if_neg other]
  rw [reduce_foldlM (Nat.pos_of_ne_zero pos) enough (isDigits_numeral _), value_numeral]

/-! ## All of it -/

/-- On strings of digits each routine prints the numeral of the exact result. -/
theorem decimal_exact (a b : List Char) (left : isDigits a = true) (right : isDigits b = true) :
    decimalCompare a b = some (Int.sign (value a - value b)) ∧
    decimalMultiply a b = some (numeral (value a * value b)) ∧
    decimalAdd a b = some (numeral (value a + value b)) ∧
    decimalSubtract a b =
      (if value b ≤ value a then some (numeral (value a - value b)) else none) ∧
    (b.head? ≠ some '0' → decimalDivideSmall a b =
      some (numeral (value a / value b), numeral (value a % value b))) ∧
    (value b ≠ 0 → ∀ fuel ≥ 10, decimalMod fuel a b = some (numeral (value a % value b))) :=
  ⟨decimalCompare_eq left right, decimalMultiply_eq left right, decimalAdd_eq left right,
    decimalSubtract_eq left right, decimalDivideSmall_eq left right,
    fun pos _ enough => decimalMod_eq enough left right pos⟩

theorem decimal_exact_leading :
    decimalMultiply "0012".toList "34".toList = some (numeral (value "0012".toList * value "34".toList)) :=
  (decimal_exact "0012".toList "34".toList rfl rfl).2.1

end StorageScaleTest.Sizing
