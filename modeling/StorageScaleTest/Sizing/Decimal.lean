import StorageScaleTest.Decimal.Numeral

/-!
# Exact decimals

The decimal arithmetic of the sweep functions, digit by digit on strings of any length.
-/

namespace StorageScaleTest.Sizing
open Shell Decimal

/-- `_elbencho_decimal_canonicalize` -/
def decimalCanonicalize (value : List Char) : Option (List Char) :=
  if isDigits value then some (canonical value) else none

/-- `_elbencho_decimal_compare` -/
def decimalCompare (left right : List Char) : Option Int := do
  let left ← decimalCanonicalize left
  let right ← decimalCanonicalize right
  if left.length < right.length then some (-1)
  else if left.length > right.length then some 1
  else if left = right then some 0
  else if left < right then some (-1)
  else some 1

/-! ## Products -/

/-- `out[k] += x` -/
def bump (out : Nat → Nat) (k x : Nat) : Nat → Nat := fun i => out i + if i = k then x else 0

def placeProducts (a b : List Char) : Nat → Nat :=
  a.reverse.zipIdx.foldl
    (fun out (c, i) => b.reverse.zipIdx.foldl
      (fun out (d, j) => bump out (i + j) (digit c * digit d)) out)
    fun _ => 0

/-- `out[i + 1] += int(out[i] / 10); out[i] %= 10` -/
def carryFrom (out : Nat → Nat) (i : Nat) : Nat → Nat := fun k =>
  if k = i then out i % 10 else if k = i + 1 then out (i + 1) + out i / 10 else out k

/-- `while (max > 0 && out[max] == 0) max--` -/
def topPlace (out : Nat → Nat) : Nat → Nat
  | 0 => 0
  | max + 1 => if out (max + 1) = 0 then topPlace out max else max + 1

def multiplyDigits (a b : List Char) : List Char :=
  if a = ['0'] ∨ b = ['0'] then ['0']
  else
    let max := a.length + b.length
    let out := (List.range (max + 1)).foldl carryFrom (placeProducts a b)
    (List.range (topPlace out max + 1)).reverse.flatMap fun i => numeral (out i)

/-- `_elbencho_decimal_multiply` -/
def decimalMultiply (left right : List Char) : Option (List Char) := do
  let left ← decimalCanonicalize left
  let right ← decimalCanonicalize right
  some (multiplyDigits left right)

/-! ## Sums and differences -/

def headDigit (digits : List Char) : Nat := (digits.head?.map digit).getD 0

/-- The loop of `_elbencho_decimal_add`, over the digits not yet read from the last on. -/
def addLoop (left right : List Char) (carry : Nat) (out : List Char) : List Char :=
  if _ended : left = [] ∧ right = [] ∧ carry = 0 then out
  else
    let digit := carry + headDigit left + headDigit right
    addLoop left.tail right.tail (digit / 10) (numeral (digit % 10) ++ out)
termination_by (left.length + right.length, carry)
decreasing_by
  cases left with
  | cons c left =>
      apply Prod.Lex.left
      simp only [List.tail_cons, List.length_cons, List.length_tail]
      omega
  | nil =>
      cases right with
      | cons d right =>
          apply Prod.Lex.left
          simp
      | nil =>
          apply Prod.Lex.right
          have pos : carry ≠ 0 := fun zero => _ended ⟨rfl, rfl, zero⟩
          simp only [headDigit, List.head?_nil, Option.map_none, Option.getD_none]
          omega

def addDigits (a b : List Char) : List Char := addLoop a.reverse b.reverse 0 []

/-- `_elbencho_decimal_add` -/
def decimalAdd (left right : List Char) : Option (List Char) := do
  let left ← decimalCanonicalize left
  let right ← decimalCanonicalize right
  some (addDigits left right)

/-- The loop that subtracts digit by digit, over the digits not yet read from the last on. -/
def subtractLoop : (left right : List Char) → (borrow : Int) → (out : List Char) → List Char
  | [], _, _, out => out
  | c :: left, right, borrow, out =>
    let difference : Int := digit c - borrow - headDigit right
    if difference < 0 then
      subtractLoop left right.tail 1 (numeral (difference + 10).toNat ++ out)
    else subtractLoop left right.tail 0 (numeral difference.toNat ++ out)

def subtractDigits (a b : List Char) : List Char :=
  canonical (subtractLoop a.reverse b.reverse 0 [])

/-- `_elbencho_decimal_subtract` -/
def decimalSubtract (left right : List Char) : Option (List Char) := do
  let left ← decimalCanonicalize left
  let right ← decimalCanonicalize right
  let order ← decimalCompare left right
  if order ≥ 0 then some (subtractDigits left right) else none

/-! ## Quotients -/

/-- One digit of a long division by a small divisor. -/
def divideStep (divisor : Nat) (state : Nat × List Char) (c : Char) : Nat × List Char :=
  let carry := state.1 * 10 + digit c
  let quotient := carry / divisor
  (carry % divisor,
    if state.2 ≠ [] ∨ quotient ≠ 0 then state.2 ++ numeral quotient else state.2)

/-- `_elbencho_decimal_divide_small`: the quotient and the remainder. -/
def decimalDivideSmall (value divisor : List Char) : Option (List Char × List Char) := do
  let value ← decimalCanonicalize value
  if isDigits divisor ∧ divisor.head? ≠ some '0' then
    let (carry, result) := value.foldl (divideStep (Decimal.value divisor)) (0, [])
    some (if result = [] then ['0'] else result, numeral carry)
  else none

/-- `cmp` of `_elbencho_decimal_mod` -/
def compareDigits (a b : List Char) : Int :=
  let a := canonical a
  let b := canonical b
  if a.length ≠ b.length then if a.length < b.length then -1 else 1
  else if a = b then 0
  else if a < b then -1 else 1

/-- `while (cmp(rem, divisor) >= 0) rem = subdec(rem, divisor)`, for so many rounds. -/
def reduce (divisor : List Char) : Nat → List Char → Option (List Char)
  | 0, _ => none
  | fuel + 1, rem =>
    if compareDigits rem divisor ≥ 0 then reduce divisor fuel (subtractDigits rem divisor)
    else some rem

/-- `_elbencho_decimal_mod`; each of its inner loops makes at most `fuel` tests. -/
def decimalMod (fuel : Nat) (dividend divisor : List Char) : Option (List Char) := do
  let dividend ← decimalCanonicalize dividend
  let divisor ← decimalCanonicalize divisor
  if divisor = ['0'] then none
  else dividend.foldlM (fun rem c => reduce divisor fuel (canonical (rem ++ [c]))) ['0']

end StorageScaleTest.Sizing
