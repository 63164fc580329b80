import StorageScaleTest.Sizing.Decimal
import StorageScaleTest.Shell.Arithmetic

/-!
# Files per worker in completion mode

The weighted targets of a run, and the complete set of files that each of its threads gets.
-/

namespace StorageScaleTest.Sizing
open Shell Decimal
open Calc (op op_of_fits bind_mk pure_mk)

/-- The loop of `_elbencho_shell_signed_max`, for so many rounds. -/
def signedMaxLoop : Nat → Int → Calc (Option Int)
  | 0, _ => pure none
  | fuel + 1, current => do
    let doubled ← op (current * 2)
    let next ← op (doubled + 1)
    if next ≤ current then pure (some current) else signedMaxLoop fuel next

/-- `_elbencho_shell_signed_max` -/
def shellSignedMax (fuel : Nat) : Calc (Option Int) := signedMaxLoop fuel 1

def exceeds (value : List Char) (maximum : Int) : Prop :=
  decimalCompare value (numeral maximum.toNat) = some 1

instance (value : List Char) (maximum : Int) : Decidable (exceeds value maximum) :=
  inferInstanceAs (Decidable (_ = _))

/-! ## Targets -/

/-- `[[ "$weight" =~ ^[1-9][0-9]*$ ]]` -/
def isPositiveDecimal (word : List Char) : Prop := isDigits word = true ∧ word.head? ≠ some '0'

instance (word : List Char) : Decidable (isPositiveDecimal word) :=
  inferInstanceAs (Decidable (_ ∧ _))

def targetCountLoop (maximum : Int) : List (List Char) → Int → Calc (Option Int)
  | [], total => pure (some total)
  | weight :: weights, total => do
    if ¬isPositiveDecimal weight ∨ exceeds weight maximum then pure none
    else
      let room ← op (maximum - evaluate weight)
      if total > room then pure none
      else
        let total ← op (total + evaluate weight)
        targetCountLoop maximum weights total

/-- `_elbencho_run_to_completion_target_count` -/
def runToCompletionTargetCount (fuel : Nat) (weights : List (List Char)) :
    Calc (Option (List Char)) := do
  match ← shellSignedMax fuel with
  | none => pure none
  | some maximum =>
    match ← targetCountLoop maximum weights 0 with
    | none => pure none
    | some total => pure (if total > 0 then some (numeral total.toNat) else none)

/-! ## Files -/

/-- What the loop over `requested threads targets` makes of one of them. -/
def completionOperand (maximum : Int) (word : List Char) : Option (List Char) := do
  let value ← decimalCanonicalize word
  if value = ['0'] ∨ exceeds value maximum then none else some value

/-- The nearest number of complete sets, which takes no sum that could overflow. -/
def completionCount (maximum requested threads targets : Int) : Calc (Option Int) := do
  let most ← op (maximum.tdiv targets)
  if threads > most then pure none
  else
    let granularity ← op (threads * targets)
    let quotient ← op (requested.tdiv granularity)
    let remainder ← op (requested.tmod granularity)
    let room ← op (granularity - remainder)
    let count ← if remainder < room then pure quotient else op (quotient + 1)
    pure (some (if count > 0 then count else 1))

/-- `_elbencho_run_to_completion_files_per_worker` -/
def runToCompletionFilesPerWorker (fuel : Nat) (requested threads targets : List Char) :
    Calc (Option (List Char)) := do
  match ← shellSignedMax fuel with
  | none => pure none
  | some maximum =>
    match completionOperand maximum requested, completionOperand maximum threads,
      completionOperand maximum targets with
    | some requested, some threads, some targets =>
      let count ← completionCount maximum (evaluate requested) (evaluate threads) (evaluate targets)
      pure (count.map fun count => numeral count.toNat)
    | _, _, _ => pure none

end StorageScaleTest.Sizing
