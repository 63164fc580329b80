import StorageScaleTest.Shell.Text
import Mathlib.Data.Char
import Mathlib.Data.List.Induction
import Mathlib.Data.List.Lex

/-!
# Decimal numerals

Strings of digits, their values, and the numeral of a number: the string without leading zeros.
-/

namespace Decimal
open Shell

abbrev numeral (n : Nat) : List Char := Nat.toDigits 10 n

def digit (c : Char) : Nat := c.toNat - '0'.toNat

def value (digits : List Char) : Nat := Nat.ofDigitChars 10 digits 0

def IsDigits (digits : List Char) : Prop := ∀ c ∈ digits, c.isDigit = true

theorem isDigits_iff {word : List Char} : isDigits word = true ↔ word ≠ [] ∧ IsDigits word := by
  simp [isDigits, IsDigits]

theorem IsDigits.append {a b : List Char} (left : IsDigits a) (right : IsDigits b) :
    IsDigits (a ++ b) := by
  intro c mem
  rcases List.mem_append.mp mem with first | second
  · exact left c first
  · exact right c second

theorem digit_lt {c : Char} (isDigit : c.isDigit = true) : digit c < 10 := by
  simp only [Char.isDigit, Bool.and_eq_true, decide_eq_true_eq] at isDigit
  have high : c.toNat ≤ 57 := isDigit.2
  have zero : '0'.toNat = 48 := rfl
  unfold digit
  omega

theorem digitChar_digit {c : Char} (isDigit : c.isDigit = true) : Nat.digitChar (digit c) = c := by
  have small := digit_lt isDigit
  simp only [Char.isDigit, Bool.and_eq_true, decide_eq_true_eq] at isDigit
  have low : '0'.toNat ≤ c.toNat := isDigit.1
  have zero : '0'.toNat = 48 := rfl
  have number := Nat.toNat_digitChar_of_lt_ten small
  rw [← Char.ofNat_toNat (Nat.digitChar (digit c)), number, ← Char.ofNat_toNat c]
  congr 1
  rw [Char.ofNat_toNat]
  unfold digit
  omega

theorem digit_digitChar {d : Nat} (small : d < 10) : digit (Nat.digitChar d) = d :=
  Nat.toNat_digitChar_sub_48_of_lt_ten small

theorem digit_eq_zero {c : Char} (isDigit : c.isDigit = true) (zero : digit c = 0) : c = '0' := by
  rw [← digitChar_digit isDigit, zero]
  rfl

@[simp] theorem value_nil : value [] = 0 := rfl

theorem value_append (a b : List Char) : value (a ++ b) = 10 ^ b.length * value a + value b := by
  rw [value, Nat.ofDigitChars_append]
  exact Nat.ofDigitChars_eq_ofDigitChars_zero

theorem value_concat (a : List Char) (c : Char) : value (a ++ [c]) = 10 * value a + digit c := by
  rw [value_append]
  simp [value, Nat.ofDigitChars_cons, digit]

theorem value_cons (c : Char) (a : List Char) :
    value (c :: a) = 10 ^ a.length * digit c + value a := by
  have split := value_append [c] a
  rw [List.singleton_append] at split
  rw [split]
  simp [value, Nat.ofDigitChars_cons, digit]

theorem value_lt {a : List Char} (digits : IsDigits a) : value a < 10 ^ a.length := by
  have bounds := (ofDigitChars_bounds digits 0).2
  simpa [value] using bounds

theorem value_numeral (n : Nat) : value (numeral n) = n := Nat.ofDigitChars_ten_toDigits

theorem isDigits_numeral (n : Nat) : IsDigits (numeral n) :=
  fun _ mem => Nat.isDigit_of_mem_toDigits (by decide) (by decide) mem

theorem numeral_injective {m n : Nat} (same : numeral m = numeral n) : m = n := by
  rw [← value_numeral m, same, value_numeral]

theorem numeral_of_lt {d : Nat} (small : d < 10) : numeral d = [Nat.digitChar d] :=
  Nat.toDigits_of_lt_base small

theorem numeral_concat {n d : Nat} (pos : 0 < n) (small : d < 10) :
    numeral n ++ [Nat.digitChar d] = numeral (10 * n + d) := by
  rw [← numeral_of_lt small]
  exact Nat.toDigits_append_toDigits (by decide) pos small

/-! ## Leading zeros -/

/-- The digits without leading zeros, and `0` for zero. -/
def canonical (digits : List Char) : List Char :=
  let stripped := digits.dropWhile (· = '0')
  if stripped = [] then ['0'] else stripped

theorem dropWhile_concat {p : Char → Bool} (a : List Char) (c : Char) :
    (a ++ [c]).dropWhile p =
      if a.dropWhile p = [] then [c].dropWhile p else a.dropWhile p ++ [c] := by
  rw [List.dropWhile_append]
  simp only [List.isEmpty_iff]

theorem stripped_eq {a : List Char} (digits : IsDigits a) :
    a.dropWhile (· = '0') = if value a = 0 then [] else numeral (value a) := by
  induction a using List.reverseRecOn with
  | nil => rfl
  | append_singleton a c ih =>
      have last : c.isDigit = true := digits c (by simp)
      have before := ih fun d mem => digits d (List.mem_append_left _ mem)
      have small := digit_lt last
      rw [dropWhile_concat, before, value_concat]
      by_cases zero : value a = 0
      · rw [if_pos zero, if_pos rfl, zero, Nat.mul_zero, Nat.zero_add]
        by_cases none : digit c = 0
        · rw [if_pos none, digit_eq_zero last none]
          rfl
        · have other : c ≠ '0' := fun same => none (by rw [same]; rfl)
          rw [if_neg none, numeral_of_lt small, digitChar_digit last]
          simp [other]
      · have pos : 0 < value a := Nat.pos_of_ne_zero zero
        rw [if_neg zero, if_neg Nat.toDigits_ne_nil, if_neg (by omega)]
        conv_lhs => rw [← digitChar_digit last]
        exact numeral_concat pos small

theorem canonical_eq {a : List Char} (digits : IsDigits a) : canonical a = numeral (value a) := by
  unfold canonical
  rw [stripped_eq digits]
  by_cases zero : value a = 0
  · rw [if_pos zero, if_pos rfl, zero]
    rfl
  · rw [if_neg zero, if_neg Nat.toDigits_ne_nil]

theorem numeral_value {c : Char} {a : List Char} (digits : IsDigits (c :: a))
    (head : c ≠ '0' ∨ a = []) : numeral (value (c :: a)) = c :: a := by
  rw [← canonical_eq digits]
  unfold canonical
  rcases head with other | rfl
  · simp [other]
  · by_cases zero : c = '0'
    · rw [zero]
      rfl
    · simp [zero]

theorem numeral_head {n : Nat} (pos : 0 < n) : ∃ c a, numeral n = c :: a ∧ c ≠ '0' := by
  have stripped := stripped_eq (isDigits_numeral n)
  rw [value_numeral, if_neg (Nat.ne_of_gt pos)] at stripped
  cases shape : numeral n with
  | nil => exact absurd shape Nat.toDigits_ne_nil
  | cons c a =>
      refine ⟨c, a, rfl, ?_⟩
      intro zero
      rw [shape, zero] at stripped
      have shorter := List.dropWhile_suffix (l := a) (· = '0')
      rw [List.dropWhile_cons_of_pos (by rfl)] at stripped
      have short := shorter.length_le
      rw [stripped, List.length_cons] at short
      omega

def stripped (n : Nat) : List Char := if n = 0 then [] else numeral n

@[simp] theorem stripped_zero : stripped 0 = [] := rfl

theorem stripped_of_pos {n : Nat} (pos : 0 < n) : stripped n = numeral n :=
  if_neg (Nat.ne_of_gt pos)

theorem stripped_eq_nil {n : Nat} : stripped n = [] ↔ n = 0 := by
  unfold stripped
  split
  · simp [*]
  · simp [*, Nat.toDigits_ne_nil]

theorem numeral_split (n : Nat) :
    numeral n = stripped (n / 10) ++ [Nat.digitChar (n % 10)] := by
  have parts := Nat.div_add_mod n 10
  have small := Nat.mod_lt n (by decide : 10 > 0)
  by_cases tens : n / 10 = 0
  · have same : n % 10 = n := by omega
    rw [tens, stripped_zero, List.nil_append, same, numeral_of_lt (by omega)]
  · have pos := Nat.pos_of_ne_zero tens
    rw [stripped_of_pos pos, numeral_concat pos small, parts]

theorem stripped_split {n : Nat} (pos : 0 < n) :
    stripped n = stripped (n / 10) ++ [Nat.digitChar (n % 10)] := by
  rw [stripped_of_pos pos, numeral_split]

/-! ## Order -/

theorem length_numeral_le {m n : Nat} (le : m ≤ n) : (numeral m).length ≤ (numeral n).length := by
  have pos : 0 < (numeral n).length := Nat.length_toDigits_pos
  have fits := (Nat.length_toDigits_le_iff (by decide) pos).mp (le_refl (numeral n).length)
  exact (Nat.length_toDigits_le_iff (by decide) pos).mpr (lt_of_le_of_lt le fits)

theorem lt_of_numeral_lt {m n : Nat} (same : (numeral m).length = (numeral n).length)
    (less : numeral m < numeral n) : m < n := by
  have values := ofDigitChars_lt same (isDigits_numeral m) (isDigits_numeral n) less 0
  rwa [Nat.ofDigitChars_ten_toDigits, Nat.ofDigitChars_ten_toDigits] at values

theorem numeral_lt {m n : Nat} (less : m < n) : (numeral m).length < (numeral n).length ∨
    (numeral m).length = (numeral n).length ∧ numeral m < numeral n := by
  rcases Nat.lt_or_eq_of_le (length_numeral_le (Nat.le_of_lt less)) with shorter | same
  · exact .inl shorter
  · refine .inr ⟨same, ?_⟩
    rcases lt_trichotomy (numeral m) (numeral n) with before | equal | after
    · exact before
    · exact absurd (numeral_injective equal) (Nat.ne_of_lt less)
    · exact absurd (lt_of_numeral_lt same.symm after) (Nat.lt_asymm less)

end Decimal
