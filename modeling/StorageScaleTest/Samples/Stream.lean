import Mathlib.Order.Defs.LinearOrder
import Mathlib.Order.Basic
import Mathlib.Order.Lattice

/-!
# Streams of samples

A counter that has a sample at some of the steps of a stream. Two numbers summarise how it
developed: its last sample and its last reset.
-/

namespace StorageScaleTest.Samples

variable {α : Type*} [LinearOrder α] {s : Nat → Option α}

/-- The last sample before step `n`, with its step. -/
def lastBefore (s : Nat → Option α) : Nat → Option (Nat × α)
  | 0 => none
  | n + 1 => match s n with
    | some v => some (n, v)
    | none => lastBefore s n

/-- The sample at `n` is below the last one before it. -/
def resetsAt (s : Nat → Option α) (n : Nat) : Bool :=
  match s n, lastBefore s n with
  | some v, some p => v < p.2
  | _, _ => false

def lastReset (s : Nat → Option α) : Nat → Option Nat
  | 0 => none
  | n + 1 => if resetsAt s n then some n else lastReset s n

/-- Consecutive samples of the steps from `a` to `b` never go down. -/
def NeverDecreases (s : Nat → Option α) (a b : Nat) : Prop :=
  ∀ i j u v, a ≤ i → i < j → j ≤ b → s i = some u → s j = some v →
    (∀ k, i < k → k < j → s k = none) → u ≤ v

omit [LinearOrder α] in
theorem lastBefore_eq_some {n i : Nat} {v : α} : lastBefore s n = some (i, v) ↔
    i < n ∧ s i = some v ∧ ∀ k, i < k → k < n → s k = none := by
  induction n with
  | zero => simp [lastBefore]
  | succ n ih =>
      cases here : s n with
      | some w =>
          simp only [lastBefore, here, Option.some.injEq, Prod.mk.injEq]
          constructor
          · rintro ⟨rfl, rfl⟩
            exact ⟨Nat.lt_succ_self n, here, fun k after before => by omega⟩
          · rintro ⟨before, held, none⟩
            rcases Nat.lt_succ_iff_lt_or_eq.mp before with lt | rfl
            · rw [none n lt (Nat.lt_succ_self n)] at here
              cases here
            · rw [held] at here
              cases here
              exact ⟨rfl, rfl⟩
      | none =>
          simp only [lastBefore, here, ih]
          constructor
          · rintro ⟨before, held, none⟩
            refine ⟨by omega, held, fun k after before => ?_⟩
            rcases Nat.lt_succ_iff_lt_or_eq.mp before with lt | rfl
            · exact none k after lt
            · exact here
          · rintro ⟨before, held, none⟩
            rcases Nat.lt_succ_iff_lt_or_eq.mp before with lt | rfl
            · exact ⟨lt, held, fun k after before => none k after (by omega)⟩
            · rw [held] at here
              cases here

omit [LinearOrder α] in
theorem lastBefore_eq_none {n : Nat} : lastBefore s n = none ↔ ∀ k < n, s k = none := by
  induction n with
  | zero => simp [lastBefore]
  | succ n ih =>
      cases here : s n with
      | some w =>
          simp only [lastBefore, here, reduceCtorEq, false_iff]
          intro absent
          rw [absent n (Nat.lt_succ_self n)] at here
          cases here
      | none =>
          simp only [lastBefore, here, ih]
          constructor
          · intro absent k before
            rcases Nat.lt_succ_iff_lt_or_eq.mp before with lt | rfl
            · exact absent k lt
            · exact here
          · intro absent k before
            exact absent k (by omega)

omit [LinearOrder α] in
theorem lastBefore_congr {t : Nat → Option α} {n : Nat} (same : ∀ i < n, s i = t i) :
    lastBefore s n = lastBefore t n := by
  induction n with
  | zero => rfl
  | succ n ih =>
      rw [lastBefore, lastBefore, same n (Nat.lt_succ_self n),
        ih fun i before => same i (Nat.lt_succ_of_lt before)]

theorem resetsAt_iff {n : Nat} : resetsAt s n = true ↔ ∃ i u v, i < n ∧ s i = some u ∧
    s n = some v ∧ (∀ k, i < k → k < n → s k = none) ∧ v < u := by
  cases here : s n with
  | none => simp [resetsAt, here]
  | some v =>
    cases last : lastBefore s n with
    | none =>
        have absent := lastBefore_eq_none.mp last
        simp only [resetsAt, here, last, Bool.false_eq_true, false_iff]
        rintro ⟨i, u, _, before, held, _⟩
        rw [absent i before] at held
        cases held
    | some p =>
        obtain ⟨i, u⟩ := p
        obtain ⟨before, held, none⟩ := lastBefore_eq_some.mp last
        simp only [resetsAt, here, last, decide_eq_true_eq, Option.some.injEq]
        constructor
        · intro lower
          exact ⟨i, u, v, before, held, rfl, none, lower⟩
        · rintro ⟨j, w, _, before', held', rfl, none', lower⟩
          have same := lastBefore_eq_some.mpr ⟨before', held', none'⟩
          rw [last] at same
          cases same
          exact lower

theorem lastReset_after_iff (n b : Nat) :
    (∃ r, lastReset s n = some r ∧ b < r) ↔ ∃ r, b < r ∧ r < n ∧ resetsAt s r = true := by
  induction n with
  | zero => simp [lastReset]
  | succ n ih =>
      by_cases here : resetsAt s n = true
      · simp only [lastReset, here, if_true, Option.some.injEq, exists_eq_left']
        constructor
        · intro after
          exact ⟨_, after, Nat.lt_succ_self _, here⟩
        · rintro ⟨r, after, within, _⟩
          omega
      · simp only [lastReset, here, Bool.false_eq_true, if_false, ih]
        constructor
        · rintro ⟨r, after, within, resets⟩
          exact ⟨r, after, by omega, resets⟩
        · rintro ⟨r, after, within, resets⟩
          rcases Nat.lt_succ_iff_lt_or_eq.mp within with lt | rfl
          · exact ⟨r, after, lt, resets⟩
          · exact absurd resets here

theorem neverDecreases_iff {a b : Nat} {u : α} (start : s a = some u) :
    NeverDecreases s a b ↔ ∀ r, a < r → r ≤ b → resetsAt s r = false := by
  constructor
  · intro never r after within
    apply Bool.eq_false_iff.mpr
    intro resets
    obtain ⟨i, u, v, before, held, here, none, lower⟩ := resetsAt_iff.mp resets
    have from_ : a ≤ i := by
      by_contra early
      rw [none a (by omega) after] at start
      cases start
    exact absurd (never i r u v from_ before within held here none) (not_le.mpr lower)
  · intro calm i j u v from_ before within held here none
    by_contra lower
    have resets := resetsAt_iff.mpr ⟨i, u, v, before, held, here, none, not_le.mp lower⟩
    rw [calm j (by omega) within] at resets
    cases resets

theorem le_of_neverDecreases {a b : Nat} {u v : α} (never : NeverDecreases s a b) (le : a ≤ b)
    (start : s a = some u) (stop : s b = some v) : u ≤ v := by
  induction b using Nat.strongRecOn generalizing v with
  | ind b ih =>
      rcases Nat.eq_or_lt_of_le le with rfl | lt
      · rw [start] at stop
        cases stop
        exact le_rfl
      · cases last : lastBefore s b with
        | none =>
            rw [lastBefore_eq_none.mp last a lt] at start
            cases start
        | some p =>
            obtain ⟨i, w⟩ := p
            obtain ⟨before, held, none⟩ := lastBefore_eq_some.mp last
            have from_ : a ≤ i := by
              by_contra early
              rw [none a (by omega) lt] at start
              cases start
            have shorter : NeverDecreases s a i := fun j k x y aj jk ki =>
              never j k x y aj jk (by omega)
            exact (ih i before shorter from_ held).trans
              (never i b w v from_ before (Nat.le_refl b) held stop none)

/-! ## Two bounds -/

/-- The sample at step `i` is the last one at or before step `n`. -/
def IsLast (s : Nat → Option α) (n i : Nat) (v : α) : Prop :=
  i ≤ n ∧ s i = some v ∧ ∀ k, i < k → k ≤ n → s k = none

omit [LinearOrder α] in
theorem isLast_iff {n i : Nat} {v : α} :
    IsLast s n i v ↔ lastBefore s (n + 1) = some (i, v) := by
  rw [lastBefore_eq_some]
  constructor
  · rintro ⟨le, held, none⟩
    exact ⟨by omega, held, fun k after before => none k after (by omega)⟩
  · rintro ⟨lt, held, none⟩
    exact ⟨by omega, held, fun k after le => none k after (by omega)⟩

/-- No two consecutive samples decrease where the second one is after `a` and not after `b`. -/
def NoReset (s : Nat → Option α) (a b : Nat) : Prop :=
  ∀ i j u v, i < j → a < j → j ≤ b → s i = some u → s j = some v →
    (∀ k, i < k → k < j → s k = none) → u ≤ v

theorem noReset_iff {a b : Nat} :
    NoReset s a b ↔ ∀ r, a < r → r ≤ b → resetsAt s r = false := by
  constructor
  · intro calm r after within
    apply Bool.eq_false_iff.mpr
    intro resets
    obtain ⟨i, u, v, before, held, here, none, lower⟩ := resetsAt_iff.mp resets
    exact absurd (calm i r u v before after within held here none) (not_le.mpr lower)
  · intro calm i j u v before after within held here none
    by_contra lower
    have resets := resetsAt_iff.mpr ⟨i, u, v, before, held, here, none, not_le.mp lower⟩
    rw [calm j after within] at resets
    cases resets

theorem NoReset.le {a b i j : Nat} {u v : α} (calm : NoReset s a b) (first : IsLast s a i u)
    (last : IsLast s b j v) (later : i < j) : u ≤ v := by
  refine le_of_neverDecreases ?_ (Nat.le_of_lt later) first.2.1 last.2.1
  intro p q x y ip pq qj held here none
  have after : a < q := by
    by_contra within
    rw [first.2.2 q (by omega) (by omega)] at here
    cases here
  exact calm p q x y pq after (Nat.le_trans qj last.1) held here none

end StorageScaleTest.Samples
