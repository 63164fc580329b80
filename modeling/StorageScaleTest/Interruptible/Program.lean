import Mathlib.Data.List.Chain
import Mathlib.Order.Basic

/-!
# Programs that can be stopped between two actions

A program over states `σ` is a tree of atomic actions. Being killed after any number of actions
is `cut`, and being diverted to a handler is `interrupt`. `Meets I G p Q s` says that `p`, started
in `s`, only passes through states satisfying `I`, moves by `G`, and ends in `Q`.
-/

namespace Interruptible

/-- `act step next` performs the atomic `step`, then goes on with what `next` chooses from the
state before it. -/
inductive Program (σ : Type) (α : Type) : Type
  | done (value : α)
  | act (step : σ → σ) (next : σ → Program σ α)

namespace Program

variable {σ α β : Type}

def bind : Program σ α → (α → Program σ β) → Program σ β
  | .done a, k => k a
  | .act f next, k => .act f fun s => (next s).bind k

instance : Monad (Program σ) where
  pure := .done
  bind := bind

def read : Program σ σ := .act id .done

def modify (f : σ → σ) : Program σ Unit := .act f fun _ => .done ()

def run : Program σ α → σ → α × σ
  | .done a, s => (a, s)
  | .act f next, s => (next s).run (f s)

/-- Every state in which the program can be stopped, first and last included. -/
def trace : Program σ α → σ → List σ
  | .done _, s => [s]
  | .act f next, s => s :: (next s).trace (f s)

/-- The program stopped after `n` actions; it returns `none` when it was stopped. -/
def cut : Program σ α → Nat → Program σ (Option α)
  | _, 0 => .done none
  | .done a, _+1 => .done (some a)
  | .act f next, n+1 => .act f fun s => (next s).cut n

/-- The program diverted to `handler` after `n` actions. -/
def interrupt (p : Program σ α) (n : Nat) (handler : Program σ α) : Program σ α :=
  (p.cut n).bind fun
    | some a => .done a
    | none => handler

/-- The program killed again and again, after as many actions as the list says, and started anew
each time from what is left. -/
def restarts (p : Program σ α) (reset : σ → σ) : List Nat → σ → σ
  | [], s => s
  | n :: rest, s => p.restarts reset rest ((p.cut n).run (reset s)).2

@[simp] theorem pure_eq (a : α) : (pure a : Program σ α) = .done a := rfl

@[simp] theorem bind_eq (p : Program σ α) (k : α → Program σ β) : p >>= k = p.bind k := rfl

@[simp] theorem done_bind (a : α) (k : α → Program σ β) : (done a).bind k = k a := rfl

@[simp] theorem cut_zero (p : Program σ α) : p.cut 0 = .done none := by
  cases p <;> rfl

theorem bind_assoc {γ : Type} (p : Program σ α) (k : α → Program σ β) (l : β → Program σ γ) :
    (p.bind k).bind l = p.bind fun a => (k a).bind l := by
  induction p with
  | done a => rfl
  | act f next ih =>
      simp only [bind]
      congr 1
      funext s
      exact ih s

theorem trace_head (p : Program σ α) (s : σ) : ∃ rest, p.trace s = s :: rest := by
  cases p with
  | done a => exact ⟨[], rfl⟩
  | act f next => exact ⟨_, rfl⟩

theorem trace_ne_nil (p : Program σ α) (s : σ) : p.trace s ≠ [] := by
  obtain ⟨rest, h⟩ := p.trace_head s
  simp [h]

theorem start_mem_trace (p : Program σ α) (s : σ) : s ∈ p.trace s := by
  obtain ⟨rest, h⟩ := p.trace_head s
  simp [h]

theorem run_mem_trace (p : Program σ α) (s : σ) : (p.run s).2 ∈ p.trace s := by
  induction p generalizing s with
  | done a => simp [run, trace]
  | act f next ih => exact List.mem_cons_of_mem _ (ih s (f s))

theorem trace_bind (p : Program σ α) (k : α → Program σ β) (s : σ) :
    (p.bind k).trace s = (p.trace s).dropLast ++ (k (p.run s).1).trace (p.run s).2 := by
  induction p generalizing s with
  | done a => simp [bind, trace, run]
  | act f next ih =>
      simp only [bind, trace, run, ih, List.dropLast_cons_of_ne_nil (trace_ne_nil _ _),
        List.cons_append]

theorem dropLast_trace (p : Program σ α) (s : σ) :
    (p.trace s).dropLast ++ [(p.run s).2] = p.trace s := by
  induction p generalizing s with
  | done a => rfl
  | act f next ih =>
      rw [trace, List.dropLast_cons_of_ne_nil (trace_ne_nil _ _), List.cons_append]
      exact congrArg (s :: ·) (ih s (f s))

theorem mem_trace_bind {p : Program σ α} {k : α → Program σ β} {s s' : σ} (h : s' ∈ p.trace s) :
    s' ∈ (p.bind k).trace s := by
  induction p generalizing s with
  | done a =>
      obtain rfl := List.mem_singleton.mp h
      exact start_mem_trace _ _
  | act f next ih =>
      rcases List.mem_cons.mp h with rfl | h
      · exact List.mem_cons_self
      · exact List.mem_cons_of_mem _ (ih s h)

theorem mem_trace_of_cut {p : Program σ α} {n : Nat} {s : σ} :
    ((p.cut n).run s).2 ∈ p.trace s := by
  induction n generalizing p s with
  | zero => simpa [run] using p.start_mem_trace s
  | succ n ih =>
      cases p with
      | done a => simp [cut, run, trace]
      | act f next => exact List.mem_cons_of_mem _ ih

end Program

section Interrupt

variable {σ α : Type} {p handler : Program σ α} {n : Nat} {s s' : σ}

theorem Program.interrupt_trace (stopped : (p.cut n).run s = (none, s')) :
    (p.interrupt n handler).trace s = ((p.cut n).trace s).dropLast ++ handler.trace s' := by
  rw [interrupt, trace_bind, stopped]

theorem Program.interrupt_finished {a : α} (finished : (p.cut n).run s = (some a, s')) :
    (p.interrupt n handler).trace s = (p.cut n).trace s := by
  have whole := dropLast_trace (p.cut n) s
  rw [finished] at whole
  rw [interrupt, trace_bind, finished]
  exact whole

end Interrupt

/-! ## Specifications -/

section Meets

variable {σ α β : Type} {I J : σ → Prop} {G H : σ → σ → Prop}

def Meets (I : σ → Prop) (G : σ → σ → Prop) :
    Program σ α → (α → σ → Prop) → σ → Prop
  | .done a, Q, s => I s ∧ Q a s
  | .act f next, Q, s => I s ∧ G s (f s) ∧ Meets I G (next s) Q (f s)

namespace Meets

open Program

theorem start {p : Program σ α} {Q : α → σ → Prop} {s : σ} (h : Meets I G p Q s) : I s := by
  cases p with
  | done a => exact h.1
  | act f next => exact h.1

@[simp] theorem done_iff {a : α} {Q : α → σ → Prop} {s : σ} :
    Meets I G (.done a) Q s ↔ I s ∧ Q a s := Iff.rfl

@[simp] theorem bind_iff {p : Program σ α} {k : α → Program σ β} {Q : β → σ → Prop} {s : σ} :
    Meets I G (p.bind k) Q s ↔ Meets I G p (fun a => Meets I G (k a) Q) s := by
  induction p generalizing s with
  | done a => exact ⟨fun h => ⟨h.start, h⟩, fun h => h.2⟩
  | act f next ih => simp only [Program.bind, Meets, ih]

theorem look {k : σ → Program σ α} {Q : α → σ → Prop} {s : σ} (hI : I s) (hG : G s s)
    (h : Meets I G (k s) Q s) : Meets I G (Program.read.bind k) Q s :=
  ⟨hI, hG, h⟩

theorem step {f : σ → σ} {k : Unit → Program σ α} {Q : α → σ → Prop} {s : σ} (hI : I s)
    (hG : G s (f s)) (h : Meets I G (k ()) Q (f s)) :
    Meets I G ((Program.modify f).bind k) Q s :=
  ⟨hI, hG, h⟩

theorem mono {p : Program σ α} {Q R : α → σ → Prop} {s : σ} (h : Meets I G p Q s)
    (hI : ∀ s, I s → J s) (hG : ∀ s s', I s → I s' → G s s' → H s s')
    (hQ : ∀ a s, I s → Q a s → R a s) : Meets J H p R s := by
  induction p generalizing s with
  | done a => exact ⟨hI _ h.1, hQ _ _ h.1 h.2⟩
  | act f next ih => exact ⟨hI _ h.1, hG _ _ h.1 h.2.2.start h.2.1, ih s h.2.2⟩

theorem weaken {p : Program σ α} {Q R : α → σ → Prop} {s : σ} (h : Meets I G p Q s)
    (hQ : ∀ a s, I s → Q a s → R a s) : Meets I G p R s :=
  h.mono (fun _ hs => hs) (fun _ _ _ _ hs => hs) hQ

theorem bind_of {p : Program σ α} {k : α → Program σ β} {Q : α → σ → Prop} {R : β → σ → Prop}
    {s : σ} (h : Meets I G p Q s) (hk : ∀ a s, I s → Q a s → Meets I G (k a) R s) :
    Meets I G (p.bind k) R s :=
  bind_iff.mpr (h.weaken hk)

theorem run {p : Program σ α} {Q : α → σ → Prop} {s : σ} (h : Meets I G p Q s) :
    Q (p.run s).1 (p.run s).2 := by
  induction p generalizing s with
  | done a => exact h.2
  | act f next ih => exact ih s h.2.2

theorem trace {p : Program σ α} {Q : α → σ → Prop} {s : σ} (h : Meets I G p Q s) :
    ∀ s' ∈ p.trace s, I s' := by
  induction p generalizing s with
  | done a => simpa [Program.trace] using h.1
  | act f next ih => exact List.forall_mem_cons.mpr ⟨h.1, ih s h.2.2⟩

theorem chain {p : Program σ α} {Q : α → σ → Prop} {s : σ} (h : Meets I G p Q s) :
    (p.trace s).IsChain G := by
  induction p generalizing s with
  | done a => simp [Program.trace]
  | act f next ih =>
      have tail := ih s h.2.2
      obtain ⟨rest, head⟩ := (next s).trace_head (f s)
      simp only [Program.trace, head] at tail ⊢
      exact List.isChain_cons_cons.mpr ⟨h.2.1, tail⟩

theorem pairwise [IsTrans σ G] {p : Program σ α} {Q : α → σ → Prop} {s : σ}
    (h : Meets I G p Q s) : (p.trace s).Pairwise G :=
  List.isChain_iff_pairwise.mp h.chain

theorem cut {p : Program σ α} {Q : α → σ → Prop} {s : σ} (h : Meets I G p Q s) (n : Nat) :
    Meets I G (p.cut n) (fun r s => ∀ a, r = some a → Q a s) s := by
  induction n generalizing p s with
  | zero => simpa using h.start
  | succ n ih =>
      cases p with
      | done a => simpa [Program.cut] using h
      | act f next => exact ⟨h.1, h.2.1, ih h.2.2⟩

theorem interrupt {p handler : Program σ α} {Q : α → σ → Prop} {s : σ} (h : Meets I G p Q s)
    (n : Nat) (hh : ∀ s', (p.cut n).run s = (none, s') → I s' → Meets I G handler Q s') :
    Meets I G (p.interrupt n handler) Q s := by
  induction n generalizing p s with
  | zero => simpa [Program.interrupt] using hh s (by simp [Program.run]) h.start
  | succ n ih =>
      cases p with
      | done a => simpa [Program.interrupt, Program.cut] using h
      | act f next => exact ⟨h.1, h.2.1, ih h.2.2 hh⟩

theorem restarts {p : Program σ α} {Q : σ → α → σ → Prop} {reset : σ → σ}
    (h : ∀ s, I s → Meets I G p (Q s) (reset s)) (kills : List Nat) {s : σ} (hI : I s) :
    I (p.restarts reset kills s) := by
  induction kills generalizing s with
  | nil => exact hI
  | cons n rest ih =>
      apply ih
      exact (h s hI).trace _ mem_trace_of_cut

end Meets

end Meets

end Interruptible
