import Mathlib.Logic.Relation

/-!
# Loops that stop when no round applies

A loop body that either makes a round or ends the loop, with a rank that every round lowers.
-/

namespace StorageScaleTest.Iteration

variable {α : Type*}

/-- Rounds of `round` until one does not apply. -/
def untilNone (round : α → Option α) (rank : α → Nat)
    (lowers : ∀ a b, round a = some b → rank b < rank a) (a : α) : α :=
  match _moved : round a with
  | none => a
  | some b => untilNone round rank lowers b
termination_by rank a
decreasing_by exact lowers a b _moved

section

variable {round : α → Option α} {rank : α → Nat}
  {lowers : ∀ a b, round a = some b → rank b < rank a}

theorem untilNone_of_none {a : α} (ends : round a = none) : untilNone round rank lowers a = a := by
  rw [untilNone]
  split
  · rfl
  · next b moved =>
      rw [ends] at moved
      cases moved

theorem untilNone_of_some {a b : α} (moved : round a = some b) :
    untilNone round rank lowers a = untilNone round rank lowers b := by
  rw [untilNone]
  split
  · next ends =>
      rw [moved] at ends
      cases ends
  · next c again =>
      rw [moved] at again
      cases again
      rfl

theorem round_untilNone (a : α) : round (untilNone round rank lowers a) = none := by
  cases moved : round a with
  | none => rw [untilNone_of_none moved, moved]
  | some b =>
      rw [untilNone_of_some moved]
      exact round_untilNone b
termination_by rank a
decreasing_by exact lowers a b moved

/-- The loop ends after finitely many rounds from where it started. -/
theorem reaches_untilNone (a : α) :
    Relation.ReflTransGen (fun x y => round x = some y) a (untilNone round rank lowers a) := by
  cases moved : round a with
  | none => rw [untilNone_of_none moved]
  | some b =>
      rw [untilNone_of_some moved]
      exact .head moved (reaches_untilNone b)
termination_by rank a
decreasing_by exact lowers a b moved

end

end StorageScaleTest.Iteration
