import Mathlib.Data.Char
import Mathlib.Data.List.Dedup
import Mathlib.Data.List.Lex

/-!
# Sorted lines
-/

namespace Shell

/-- `LC_ALL=C sort -u`; UTF-8 keeps the order of the characters. -/
def sortUnique (lines : List (List Char)) : List (List Char) :=
  (lines.mergeSort fun a b => decide (a ≤ b)).dedup

end Shell
