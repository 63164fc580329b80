import Mathlib.Data.List.Infix

/-!
# Search and replacement

The first occurrence of a pattern in a text, and the replacement of its occurrences from the left.
-/

namespace Markers

variable {α : Type} [DecidableEq α]

/-- The text in front of the first occurrence of a pattern, and the text behind it. -/
def cut (pattern : List α) : List α → Option (List α × List α)
  | [] => none
  | a :: rest =>
    if pattern <+: a :: rest then some ([], (a :: rest).drop pattern.length)
    else (cut pattern rest).map fun (front, back) => (a :: front, back)

/-- The replacement of a pattern, where the first `skip` letters belong to an occurrence that is
replaced already. -/
def replaceFrom (pattern value : List α) : Nat → List α → List α
  | _, [] => []
  | skip + 1, _ :: rest => replaceFrom pattern value skip rest
  | 0, a :: rest =>
    if pattern <+: a :: rest then value ++ replaceFrom pattern value (pattern.length - 1) rest
    else a :: replaceFrom pattern value 0 rest

def replaceAll (pattern value text : List α) : List α := replaceFrom pattern value 0 text

/-- No occurrence of the pattern begins in the first part of a text. -/
def Clear (pattern : List α) : List α → List α → Prop
  | [], _ => True
  | a :: front, back => ¬pattern <+: a :: (front ++ back) ∧ Clear pattern front back

variable {pattern value : List α}

theorem replaceFrom_eq (skip : Nat) (text : List α) :
    replaceFrom pattern value skip text = replaceAll pattern value (text.drop skip) := by
  induction text generalizing skip with
  | nil => cases skip <;> rfl
  | cons a rest ih =>
      cases skip with
      | zero => rfl
      | succ skip => exact ih skip

theorem replaceAll_append (some_ : pattern ≠ []) (rest : List α) :
    replaceAll pattern value (pattern ++ rest) = value ++ replaceAll pattern value rest := by
  obtain ⟨a, tail, rfl⟩ := List.exists_cons_of_ne_nil some_
  have first : a :: tail <+: a :: (tail ++ rest) := List.prefix_append (a :: tail) rest
  rw [replaceAll, List.cons_append, replaceFrom, if_pos first, replaceFrom_eq, List.length_cons,
    Nat.add_sub_cancel, List.drop_left]

theorem replaceAll_cons {a : α} {rest : List α} (other : ¬pattern <+: a :: rest) :
    replaceAll pattern value (a :: rest) = a :: replaceAll pattern value rest := by
  rw [replaceAll, replaceFrom, if_neg other]
  rfl

theorem cut_append (some_ : pattern ≠ []) (rest : List α) :
    cut pattern (pattern ++ rest) = some ([], rest) := by
  obtain ⟨a, tail, rfl⟩ := List.exists_cons_of_ne_nil some_
  have first : a :: tail <+: a :: (tail ++ rest) := List.prefix_append (a :: tail) rest
  rw [List.cons_append, cut, if_pos first, ← List.cons_append, List.drop_left]

theorem cut_cons {a : α} {rest : List α} (other : ¬pattern <+: a :: rest) :
    cut pattern (a :: rest) = (cut pattern rest).map fun (front, back) => (a :: front, back) := by
  rw [cut, if_neg other]

/-! ## Clear text -/

omit [DecidableEq α] in
theorem clear_append {front middle back : List α} :
    Clear pattern (front ++ middle) back ↔
      Clear pattern front (middle ++ back) ∧ Clear pattern middle back := by
  induction front with
  | nil => simp [Clear]
  | cons a front ih => simp [Clear, ih, and_assoc]

theorem Clear.replaceAll {front back : List α} (clear : Clear pattern front back) :
    Markers.replaceAll pattern value (front ++ back) = front ++ Markers.replaceAll pattern value back := by
  induction front with
  | nil => rfl
  | cons a front ih =>
      rw [List.cons_append, replaceAll_cons clear.1, ih clear.2, List.cons_append]

theorem Clear.cut {front back : List α} (clear : Clear pattern front back) :
    Markers.cut pattern (front ++ back) =
      (Markers.cut pattern back).map fun (before, after) => (front ++ before, after) := by
  induction front with
  | nil => simp
  | cons a front ih =>
      rw [List.cons_append, cut_cons clear.1, ih clear.2, Option.map_map]
      rfl

/-! ## Occurrences -/

theorem cut_eq_none (some_ : pattern ≠ []) {text : List α} :
    cut pattern text = none ↔ ¬pattern <:+: text := by
  induction text with
  | nil => simp [cut, some_]
  | cons a rest ih =>
      rw [cut, List.infix_cons_iff, not_or]
      by_cases first : pattern <+: a :: rest
      · simp [first]
      · simp [first, ih]

theorem cut_eq_some {text front back : List α} (found : cut pattern text = some (front, back)) :
    text = front ++ pattern ++ back := by
  induction text generalizing front with
  | nil => cases found
  | cons a rest ih =>
      rw [cut] at found
      split at found
      case isTrue first =>
        obtain ⟨tail, eq⟩ := first
        rw [← eq, List.drop_left] at found
        cases found
        rw [← eq, List.nil_append]
      case isFalse =>
        obtain ⟨⟨front', back'⟩, found, eq⟩ := Option.map_eq_some_iff.mp found
        cases eq
        rw [ih found]
        rfl

theorem replaceAll_of_not_infix {text : List α} (absent : ¬pattern <:+: text) :
    replaceAll pattern value text = text := by
  induction text with
  | nil => rfl
  | cons a rest ih =>
      rw [List.infix_cons_iff, not_or] at absent
      rw [replaceAll_cons absent.1, ih absent.2]

theorem replaceAll_of_cut {text front back : List α} (some_ : pattern ≠ [])
    (found : cut pattern text = some (front, back)) :
    replaceAll pattern value text = front ++ value ++ replaceAll pattern value back := by
  induction text generalizing front with
  | nil => cases found
  | cons a rest ih =>
      by_cases first : pattern <+: a :: rest
      · obtain ⟨tail, eq⟩ := first
        rw [← eq] at found ⊢
        rw [cut_append some_] at found
        cases found
        rw [replaceAll_append some_, List.nil_append]
      · rw [cut_cons first] at found
        obtain ⟨⟨front', back'⟩, found, eq⟩ := Option.map_eq_some_iff.mp found
        cases eq
        rw [replaceAll_cons first, ih found]
        rfl

end Markers
