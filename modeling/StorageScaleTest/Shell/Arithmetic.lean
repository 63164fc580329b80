import StorageScaleTest.Shell.Words

/-!
# Shell arithmetic

Calculations in 64 bits, with the exact results of their operations on record.
-/

namespace Shell

def Fits (n : Int) : Prop := -2 ^ 63 ≤ n ∧ n < 2 ^ 63

instance (n : Int) : Decidable (Fits n) := inferInstanceAs (Decidable (_ ∧ _))

theorem wrap_of_fits {n : Int} (fits : Fits n) : wrap n = n := by
  unfold Fits at fits
  unfold wrap
  omega

theorem fits_wrap (n : Int) : Fits (wrap n) := by
  unfold Fits wrap
  omega

theorem wrap_sub (n : Int) : ∃ k : Int, wrap n = n - k * 2 ^ 64 := by
  refine ⟨(n + 2 ^ 63) / 2 ^ 64, ?_⟩
  unfold wrap
  omega

theorem wrap_wrap_mul (a b : Int) : wrap (wrap a * b) = wrap (a * b) := by
  obtain ⟨k, reduced⟩ := wrap_sub a
  have product : wrap a * b = a * b - k * b * 2 ^ 64 := by
    rw [reduced, Int.sub_mul]
    ring
  rw [product]
  generalize a * b = n
  generalize k * b = m
  unfold wrap
  omega

/-- A value, with the exact results of the operations that led to it. -/
structure Calc (α : Type) where
  value : α
  exact : List Int
  deriving DecidableEq, Repr

namespace Calc

variable {α β : Type}

instance : Monad Calc where
  pure a := ⟨a, []⟩
  bind c next := ⟨(next c.value).value, c.exact ++ (next c.value).exact⟩

theorem pure_mk (a : α) : (pure a : Calc α) = ⟨a, []⟩ := rfl

theorem bind_mk (a : α) (exact : List Int) (next : α → Calc β) :
    (⟨a, exact⟩ : Calc α) >>= next = ⟨(next a).value, exact ++ (next a).exact⟩ := rfl

def op (n : Int) : Calc Int := ⟨wrap n, [n]⟩

theorem op_of_fits {n : Int} (fits : Fits n) : op n = ⟨n, [n]⟩ := by
  rw [op, wrap_of_fits fits]

end Calc

def overflows (exact : List Int) : List Int := exact.filter fun n => ¬Fits n

theorem overflows_append (a b : List Int) : overflows (a ++ b) = overflows a ++ overflows b :=
  List.filter_append a b

theorem overflows_cons {n : Int} (fits : Fits n) (exact : List Int) :
    overflows (n :: exact) = overflows exact := by
  rw [overflows, List.filter_cons_of_neg (by simpa using fits)]
  rfl

@[simp] theorem overflows_nil : overflows [] = [] := rfl

def evaluate (word : List Char) : Int := (arithmetic word).getD 0

end Shell
