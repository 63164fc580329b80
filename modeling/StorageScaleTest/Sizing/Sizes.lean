import StorageScaleTest.Sizing.Completion
import StorageScaleTest.Numeric.Rounding

/-!
# Size strings

Sizes such as `4K`, their bytes, and the size of a generated file.
-/

namespace StorageScaleTest.Sizing
open Shell Decimal

inductive Suffix
  | K
  | M
  | G
  deriving DecidableEq, Repr

namespace Suffix

def rank : Suffix → Nat
  | K => 0
  | M => 1
  | G => 2

def char : Suffix → Char
  | K => 'K'
  | M => 'M'
  | G => 'G'

def bytes : Suffix → Nat
  | K => 1024
  | M => 1048576
  | G => 1073741824

def ofChar? : Char → Option Suffix
  | 'K' => some K
  | 'M' => some M
  | 'G' => some G
  | _ => none

theorem bytes_eq (s : Suffix) : s.bytes = 1024 ^ (s.rank + 1) := by
  cases s <;> rfl

theorem bytes_pos (s : Suffix) : 0 < s.bytes := by
  rw [s.bytes_eq]
  exact Nat.pow_pos (by decide)

theorem ofChar?_char (s : Suffix) : ofChar? s.char = some s := by
  cases s <;> rfl

end Suffix

/-- `[[ "$size" =~ ^([1-9][0-9]*)([KMG])$ ]]` -/
def sizeParts (size : List Char) : Option (List Char × Suffix) := do
  let suffix ← Suffix.ofChar? (← size.getLast?)
  if isPositiveDecimal size.dropLast then some (size.dropLast, suffix) else none

/-- `_elbencho_size_to_exact_bytes` -/
def sizeToExactBytes (size : List Char) : Option (List Char) := do
  let (coefficient, suffix) ← sizeParts size
  decimalMultiply coefficient (numeral suffix.bytes)

/-! ## The size of a generated file -/

/-- The loop of `_elbencho_resolve_generated_file_size`. -/
def promote (coefficient : List Char) (suffix : Suffix) : Option (List Char × Suffix) :=
  if _ended : suffix = .G then some (coefficient, suffix)
  else
    match decimalDivideSmall coefficient "1024".toList with
    | none => none
    | some (divided, remainder) =>
      if remainder ≠ ['0'] then some (coefficient, suffix)
      else promote divided (if suffix = .K then .M else .G)
termination_by 2 - suffix.rank
decreasing_by
  cases suffix with
  | K => decide
  | M => decide
  | G => exact absurd rfl _ended

/-- `_elbencho_resolve_generated_file_size`, where an unset variable is empty. -/
def resolveGeneratedFileSize (fileSize multiplier writeSize : List Char) : Option (List Char) :=
  if fileSize ≠ [] then some fileSize
  else do
    let (coefficient, suffix) ← sizeParts writeSize
    let coefficient ← decimalMultiply coefficient
      (if multiplier = [] then "1024".toList else multiplier)
    let (coefficient, suffix) ← promote coefficient suffix
    some (coefficient ++ [suffix.char])

/-! ## Rounding to a size -/

/-- The tools that `round_and_divide` looks for, in this order. -/
inductive Tool
  | bc
  | python3
  | perl
  deriving DecidableEq, Repr

/-- `round_and_divide`. `python3` divides to the nearest double and rounds half to even; `perl`
adds, divides and adds in doubles, whose integers are exact up to `2 ^ 53`, and truncates. -/
def roundAndDivide : Tool → (value divisor : Nat) → Option Int
  | .bc, value, divisor => some ((value + divisor / 2) / divisor : Nat)
  | .python3, value, divisor =>
    (Numeric.toDouble ((value + divisor / 2 : Nat) / divisor)).map Numeric.roundHalfEven
  | .perl, value, divisor => do
    let sum ← Numeric.toDouble (value + (divisor : ℚ) / 2)
    let quotient ← Numeric.toDouble (sum / divisor)
    let shifted ← Numeric.toDouble (quotient + 1 / 2)
    some ⌊shifted⌋

/-- `bytes_to_elbencho_size_string` -/
def bytesToSizeString (tool : Tool) (bytes : Nat) : Option (List Char) :=
  let exact (suffix : Suffix) : Option (List Char) :=
    some (numeral (bytes / suffix.bytes) ++ [suffix.char])
  let rounded (suffix : Suffix) : Option (List Char) :=
    (roundAndDivide tool bytes suffix.bytes).map fun n => numeral n.toNat ++ [suffix.char]
  if bytes ≥ Suffix.G.bytes ∧ bytes % Suffix.G.bytes = 0 then exact .G
  else if bytes ≥ Suffix.M.bytes ∧ bytes % Suffix.M.bytes = 0 then exact .M
  else if bytes ≥ Suffix.K.bytes ∧ bytes % Suffix.K.bytes = 0 then exact .K
  else if bytes ≥ Suffix.G.bytes then rounded .G
  else if bytes ≥ Suffix.M.bytes then rounded .M
  else (roundAndDivide tool bytes Suffix.K.bytes).map fun n =>
    numeral (if n < 1 then 1 else n).toNat ++ ['K']

end StorageScaleTest.Sizing
