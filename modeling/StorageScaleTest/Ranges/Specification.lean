import StorageScaleTest.Decimal.Numeral

/-!
# Range specifications

Lists such as `3-10+2,13`, whose numbers the shell compares and steps through as it reads them.
-/

namespace StorageScaleTest.Ranges
open Shell Decimal

def integer (n : Int) : List Char :=
  if n < 0 then '-' :: numeral n.natAbs else numeral n.natAbs

/-- `[[ "$element" =~ ^([0-9]+)-([0-9]+)(\+([0-9]+))?$ ]]`, with nothing for a missing increment. -/
def rangeParts (element : List Char) : Option (List Char × List Char × List Char) :=
  let start := element.takeWhile Char.isDigit
  match element.dropWhile Char.isDigit with
  | '-' :: rest =>
    let stop := rest.takeWhile Char.isDigit
    if start = [] ∨ stop = [] then none
    else
      match rest.dropWhile Char.isDigit with
      | [] => some (start, stop, [])
      | '+' :: increment => if isDigits increment then some (start, stop, increment) else none
      | _ => none
  | _ => none

structure Printed where
  ok : Bool
  lines : List (List Char)
  deriving DecidableEq, Repr

def middle : Nat → (current : Int) → (stop : Option Int) → (increment : Int) →
    Option (List (List Char))
  | 0, _, _, _ => none
  | fuel + 1, current, stop, increment =>
    if lessThan (some current) stop then
      (middle fuel (wrap (current + increment)) stop increment).map (integer current :: ·)
    else some []

/-- A range, whose arithmetic fails on a number that is no octal one after a leading zero. -/
def expandRange (fuel : Nat) (start stop increment : List Char) : Option Printed :=
  let increment := if increment = [] then ['1'] else increment
  if lessThan (arithmetic start) (some 1) then some ⟨false, []⟩
  else if lessThan (arithmetic stop) (some 1) then some ⟨false, []⟩
  else if lessThan (arithmetic increment) (some 1) then some ⟨false, []⟩
  else if lessThan (arithmetic stop) (arithmetic start) then some ⟨false, []⟩
  else if equal (arithmetic start) (arithmetic stop) then some ⟨true, [start]⟩
  else
    match arithmetic start, arithmetic increment with
    | some first, some step =>
      (middle fuel (wrap (first + step)) (arithmetic stop) step).map fun values =>
        ⟨true, start :: values ++ [stop]⟩
    | _, _ => some ⟨false, [start]⟩

def expandElement (fuel : Nat) (element : List Char) : Option Printed :=
  match rangeParts element with
  | some (start, stop, increment) => expandRange fuel start stop increment
  | none =>
    if isDigits element then
      if lessThan (arithmetic element) (some 1) then some ⟨false, []⟩ else some ⟨true, [element]⟩
    else some ⟨false, []⟩

def expandElements (fuel : Nat) : List (List Char) → Option Printed
  | [] => some ⟨true, []⟩
  | element :: elements =>
    if element = [] then expandElements fuel elements
    else
      match expandElement fuel element with
      | none => none
      | some ⟨false, lines⟩ => some ⟨false, lines⟩
      | some ⟨true, lines⟩ =>
        (expandElements fuel elements).map fun rest => ⟨rest.ok, lines ++ rest.lines⟩

/-- A comma where the checks on the whole specification refuse it. -/
def Misplaced (spec : List Char) : Prop :=
  spec.head? = some ',' ∨ spec.getLast? = some ',' ∨ [',', ','] <:+: spec

instance (spec : List Char) : Decidable (Misplaced spec) :=
  inferInstanceAs (Decidable (_ ∨ _ ∨ _))

/-- `parse_range_specification`, with so many rounds for each range. -/
def parseRangeSpecification (fuel : Nat) (spec : List Char) : Option Printed :=
  if spec = [] ∨ Misplaced spec then some ⟨false, []⟩
  else expandElements fuel (fields ',' spec)

end StorageScaleTest.Ranges
