import StorageScaleTest.Ranges.Specification
import StorageScaleTest.Shell.Arithmetic

/-!
# What becomes of an element

Every element is refused, printed, or never done with.
-/

namespace StorageScaleTest.Ranges
open Shell Decimal

/-! ## The loop -/

def reached (first step : Int) (k : Nat) : Int := wrap (first + (k + 1) * step)

theorem reached_succ (first step : Int) (k : Nat) :
    reached (first + step) step k = reached first step (k + 1) := by
  rw [reached, reached]
  congr 1
  push_cast
  ring

theorem wrap_wrap_add (a b : Int) : wrap (wrap a + b) = wrap (a + b) := by
  unfold wrap
  omega

def Ends (first : Int) (stop : Option Int) (step : Int) (n : Nat) : Prop :=
  (∀ k < n, lessThan (some (reached first step k)) stop = true) ∧
    lessThan (some (reached first step n)) stop = false

def printed (first step : Int) (n : Nat) : List (List Char) :=
  (List.range n).map fun k => integer (reached first step k)

theorem ends_succ {first step : Int} {stop : Option Int} {n : Nat} :
    Ends first stop step (n + 1) ↔
      lessThan (some (reached first step 0)) stop = true ∧ Ends (first + step) stop step n := by
  unfold Ends
  simp only [reached_succ]
  constructor
  · intro ⟨below, last⟩
    exact ⟨below 0 (Nat.succ_pos n), fun k less => below (k + 1) (Nat.succ_lt_succ less), last⟩
  · intro ⟨zero, below, last⟩
    refine ⟨fun k less => ?_, last⟩
    cases k with
    | zero => exact zero
    | succ k => exact below k (Nat.lt_of_succ_lt_succ less)

theorem ends_unique {first step : Int} {stop : Option Int} {m n : Nat}
    (left : Ends first stop step m) (right : Ends first stop step n) : m = n := by
  rcases Nat.lt_trichotomy m n with less | same | more
  · exact absurd (left.2.symm.trans (right.1 m less)) Bool.false_ne_true
  · exact same
  · exact absurd (right.2.symm.trans (left.1 n more)) Bool.false_ne_true

theorem printed_succ (first step : Int) (n : Nat) :
    printed first step (n + 1) =
      integer (reached first step 0) :: printed (first + step) step n := by
  rw [printed, printed, List.range_succ_eq_map, List.map_cons, List.map_map]
  congr 1
  apply List.map_congr_left
  intro k _
  rw [Function.comp_apply, reached_succ]

theorem middle_iff {first step : Int} {stop : Option Int} {lines : List (List Char)} {fuel : Nat} :
    middle fuel (wrap (first + step)) stop step = some lines ↔
      ∃ n < fuel, Ends first stop step n ∧ lines = printed first step n := by
  have start : ∀ first : Int, wrap (first + step) = reached first step 0 := by
    intro first
    rw [reached]
    congr 1
    push_cast
    ring
  induction fuel generalizing first lines with
  | zero => simp [middle]
  | succ fuel ih =>
      rw [middle, wrap_wrap_add, start]
      split
      · rename_i below
        rw [Option.map_eq_some_iff]
        constructor
        · rintro ⟨rest, found, rfl⟩
          obtain ⟨n, less, ends, rfl⟩ := ih.mp found
          exact ⟨n + 1, Nat.succ_lt_succ less, ends_succ.mpr ⟨below, ends⟩,
            (printed_succ first step n).symm⟩
        · rintro ⟨n, less, ends, rfl⟩
          cases n with
          | zero => exact absurd (ends.2.symm.trans below) Bool.false_ne_true
          | succ n =>
              exact ⟨_, ih.mpr ⟨n, Nat.lt_of_succ_lt_succ less, (ends_succ.mp ends).2, rfl⟩,
                (printed_succ first step n).symm⟩
      · rename_i above
        have above := Bool.eq_false_of_not_eq_true above
        constructor
        · intro found
          obtain rfl := (Option.some.inj found).symm
          exact ⟨0, Nat.succ_pos fuel, ⟨fun k less => absurd less (Nat.not_lt_zero k), above⟩, rfl⟩
        · rintro ⟨n, -, ends, rfl⟩
          obtain rfl := ends_unique ends ⟨fun k less => absurd less (Nat.not_lt_zero k), above⟩
          rfl

/-! ## Ranges -/

def stepWord (increment : List Char) : List Char := if increment = [] then ['1'] else increment

def Refused (start stop increment : List Char) : Prop :=
  lessThan (arithmetic start) (some 1) = true ∨ lessThan (arithmetic stop) (some 1) = true ∨
    lessThan (arithmetic (stepWord increment)) (some 1) = true ∨
    lessThan (arithmetic stop) (arithmetic start) = true

def RangeRejected (start stop increment : List Char) : Prop :=
  Refused start stop increment ∨ equal (arithmetic start) (arithmetic stop) = false ∧
    (arithmetic start = none ∨ arithmetic (stepWord increment) = none)

def RangeAccepted (start stop increment : List Char) (lines : List (List Char)) : Prop :=
  ¬Refused start stop increment ∧
    (equal (arithmetic start) (arithmetic stop) = true ∧ lines = [start] ∨
      equal (arithmetic start) (arithmetic stop) = false ∧ ∃ first step n,
        arithmetic start = some first ∧ arithmetic (stepWord increment) = some step ∧
          Ends first (arithmetic stop) step n ∧ lines = start :: printed first step n ++ [stop])

def RangeEndless (start stop increment : List Char) : Prop :=
  ¬Refused start stop increment ∧ equal (arithmetic start) (arithmetic stop) = false ∧
    ∃ first step, arithmetic start = some first ∧ arithmetic (stepWord increment) = some step ∧
      ∀ k, lessThan (some (reached first step k)) (arithmetic stop) = true

variable {start stop increment : List Char} {fuel : Nat}

theorem expandRange_refused (refused : Refused start stop increment) :
    expandRange fuel start stop increment = some ⟨false, []⟩ := by
  unfold Refused stepWord at refused
  unfold expandRange
  simp only
  split_ifs with first second third fourth
  all_goals first | rfl | simp_all

theorem expandRange_of (passed : ¬Refused start stop increment) :
    expandRange fuel start stop increment =
      if equal (arithmetic start) (arithmetic stop) = true then some ⟨true, [start]⟩
      else
        match arithmetic start, arithmetic (stepWord increment) with
        | some first, some step =>
          (middle fuel (wrap (first + step)) (arithmetic stop) step).map fun values =>
            ⟨true, start :: values ++ [stop]⟩
        | _, _ => some ⟨false, [start]⟩ := by
  unfold Refused stepWord at passed
  obtain ⟨first, second, third, fourth⟩ := by
    simpa only [not_or] using passed
  exact (if_neg first).trans <| (if_neg second).trans <| (if_neg third).trans <| if_neg fourth

theorem expandRange_false {lines : List (List Char)}
    (ended : expandRange fuel start stop increment = some ⟨false, lines⟩) :
    RangeRejected start stop increment := by
  by_cases refused : Refused start stop increment
  · exact .inl refused
  · rw [expandRange_of refused] at ended
    split at ended
    · exact absurd (Option.some.inj ended) (by simp)
    · rename_i other
      refine .inr ⟨Bool.eq_false_of_not_eq_true other, ?_⟩
      cases first : arithmetic start with
      | none => exact .inl rfl
      | some a =>
          cases step : arithmetic (stepWord increment) with
          | none => exact .inr rfl
          | some c =>
              rw [first, step] at ended
              obtain ⟨values, -, same⟩ := Option.map_eq_some_iff.mp ended
              exact absurd same (by simp)

theorem expandRange_rejected (rejected : RangeRejected start stop increment) :
    ∃ lines, expandRange fuel start stop increment = some ⟨false, lines⟩ := by
  by_cases refused : Refused start stop increment
  · exact ⟨_, expandRange_refused refused⟩
  · obtain ⟨other, failed⟩ := rejected.resolve_left refused
    refine ⟨[start], ?_⟩
    rw [expandRange_of refused, other, if_neg Bool.false_ne_true]
    rcases failed with first | step
    · rw [first]
    · rw [step]
      cases arithmetic start <;> rfl

theorem expandRange_true {lines : List (List Char)}
    (ended : expandRange fuel start stop increment = some ⟨true, lines⟩) :
    RangeAccepted start stop increment lines := by
  by_cases refused : Refused start stop increment
  · rw [expandRange_refused refused] at ended
    exact absurd (Option.some.inj ended) (by simp)
  · refine ⟨refused, ?_⟩
    rw [expandRange_of refused] at ended
    split at ended
    · rename_i same
      obtain rfl := (Printed.mk.inj (Option.some.inj ended)).2
      exact .inl ⟨same, rfl⟩
    · rename_i other
      refine .inr ⟨Bool.eq_false_of_not_eq_true other, ?_⟩
      cases first : arithmetic start with
      | none =>
          rw [first] at ended
          exact absurd (Option.some.inj ended) (by simp)
      | some a =>
          cases step : arithmetic (stepWord increment) with
          | none =>
              rw [first, step] at ended
              exact absurd (Option.some.inj ended) (by simp)
          | some c =>
              rw [first, step] at ended
              obtain ⟨values, found, same⟩ := Option.map_eq_some_iff.mp ended
              obtain rfl := (Printed.mk.inj same).2
              obtain ⟨n, -, ends, rfl⟩ := middle_iff.mp found
              exact ⟨a, c, n, rfl, rfl, ends, rfl⟩

theorem expandRange_accepted {lines : List (List Char)}
    (accepted : RangeAccepted start stop increment lines) :
    ∃ enough, ∀ fuel, enough ≤ fuel →
      expandRange fuel start stop increment = some ⟨true, lines⟩ := by
  obtain ⟨passed, ⟨same, rfl⟩ | ⟨other, first, step, n, start_, step_, ends, rfl⟩⟩ := accepted
  · refine ⟨0, fun fuel _ => ?_⟩
    rw [expandRange_of passed, if_pos same]
  · refine ⟨n + 1, fun fuel enough => ?_⟩
    rw [expandRange_of passed, other, if_neg Bool.false_ne_true, start_, step_]
    simp only [middle_iff.mpr ⟨n, enough, ends, rfl⟩, Option.map_some]

theorem range_trichotomy (start stop increment : List Char) :
    RangeRejected start stop increment ∨ (∃ lines, RangeAccepted start stop increment lines) ∨
      RangeEndless start stop increment := by
  by_cases refused : Refused start stop increment
  · exact .inl (.inl refused)
  · cases same : equal (arithmetic start) (arithmetic stop) with
    | true => exact .inr (.inl ⟨_, refused, .inl ⟨same, rfl⟩⟩)
    | false =>
        cases first : arithmetic start with
        | none => exact .inl (.inr ⟨same, .inl first⟩)
        | some a =>
            cases step : arithmetic (stepWord increment) with
            | none => exact .inl (.inr ⟨same, .inr step⟩)
            | some c =>
                by_cases ends : ∀ k, lessThan (some (reached a c k)) (arithmetic stop) = true
                · exact .inr (.inr ⟨refused, same, a, c, first, step, ends⟩)
                · have least : ∃ k, ¬lessThan (some (reached a c k)) (arithmetic stop) = true :=
                    not_forall.mp ends
                  refine .inr (.inl ⟨_, refused, .inr ⟨same, a, c, Nat.find least, first, step,
                    ⟨fun k less => ?_, Bool.eq_false_of_not_eq_true (Nat.find_spec least)⟩, rfl⟩⟩)
                  exact not_not.mp (Nat.find_min least less)

/-! ## Elements -/

def Rejected (element : List Char) : Prop :=
  match rangeParts element with
  | some (start, stop, increment) => RangeRejected start stop increment
  | none => isDigits element = true → lessThan (arithmetic element) (some 1) = true

def Accepted (element : List Char) (lines : List (List Char)) : Prop :=
  match rangeParts element with
  | some (start, stop, increment) => RangeAccepted start stop increment lines
  | none => isDigits element = true ∧ ¬lessThan (arithmetic element) (some 1) = true ∧
      lines = [element]

def Endless (element : List Char) : Prop :=
  match rangeParts element with
  | some (start, stop, increment) => RangeEndless start stop increment
  | none => False

variable {element : List Char}

theorem expandElement_false {lines : List (List Char)}
    (ended : expandElement fuel element = some ⟨false, lines⟩) : Rejected element := by
  unfold expandElement at ended
  unfold Rejected
  generalize rangeParts element = parts at ended ⊢
  obtain _ | ⟨start, stop, increment⟩ := parts
  · intro digits
    rw [if_pos digits] at ended
    by_contra above
    rw [if_neg above] at ended
    exact absurd (Option.some.inj ended) (by simp)
  · exact expandRange_false ended

theorem expandElement_rejected (rejected : Rejected element) :
    ∃ lines, expandElement fuel element = some ⟨false, lines⟩ := by
  unfold Rejected at rejected
  unfold expandElement
  generalize rangeParts element = parts at rejected ⊢
  obtain _ | ⟨start, stop, increment⟩ := parts
  · by_cases digits : isDigits element = true
    · exact ⟨[], by simp only [if_pos digits, if_pos (rejected digits)]⟩
    · exact ⟨[], by simp only [if_neg digits]⟩
  · exact expandRange_rejected rejected

theorem expandElement_true {lines : List (List Char)}
    (ended : expandElement fuel element = some ⟨true, lines⟩) : Accepted element lines := by
  unfold expandElement at ended
  unfold Accepted
  generalize rangeParts element = parts at ended ⊢
  obtain _ | ⟨start, stop, increment⟩ := parts
  · dsimp only at ended
    split at ended
    · rename_i digits
      split at ended
      · exact absurd (Option.some.inj ended) (by simp)
      · rename_i above
        exact ⟨digits, above, (Printed.mk.inj (Option.some.inj ended)).2.symm⟩
    · exact absurd (Option.some.inj ended) (by simp)
  · exact expandRange_true ended

theorem expandElement_accepted {lines : List (List Char)} (accepted : Accepted element lines) :
    ∃ enough, ∀ fuel, enough ≤ fuel → expandElement fuel element = some ⟨true, lines⟩ := by
  unfold Accepted at accepted
  unfold expandElement
  generalize rangeParts element = parts at accepted ⊢
  obtain _ | ⟨start, stop, increment⟩ := parts
  · obtain ⟨digits, above, rfl⟩ := accepted
    exact ⟨0, fun fuel _ => by simp only [if_pos digits, if_neg above]⟩
  · exact expandRange_accepted accepted

theorem element_trichotomy (element : List Char) :
    Rejected element ∨ (∃ lines, Accepted element lines) ∨ Endless element := by
  unfold Rejected Accepted Endless
  split
  · exact range_trichotomy _ _ _
  · by_cases digits : isDigits element = true
    · by_cases below : lessThan (arithmetic element) (some 1) = true
      · exact .inl fun _ => below
      · exact .inr (.inl ⟨_, digits, below, rfl⟩)
    · exact .inl fun all => absurd all digits

theorem not_endless {lines : List (List Char)} (accepted : Accepted element lines) :
    ¬Endless element := by
  unfold Accepted at accepted
  unfold Endless
  split
  · rename_i shape
    rw [shape] at accepted
    rintro ⟨-, other, first, step, start_, step_, endless⟩
    rcases accepted.2 with same | ⟨-, a, c, n, start', step', ends, -⟩
    · exact absurd (other.symm.trans same.1) (by decide)
    · obtain rfl := Option.some.inj (start_.symm.trans start')
      obtain rfl := Option.some.inj (step_.symm.trans step')
      exact absurd (ends.2.symm.trans (endless n)) (by decide)
  · exact id

/-! ## Lists of elements -/

theorem head_ne {elements : List (List Char)} (some_ : [] ∉ element :: elements) : element ≠ [] :=
  fun empty => some_ (List.mem_cons.mpr (.inl empty.symm))

theorem expandElements_true {elements lines : List (List Char)}
    (ended : expandElements fuel elements = some ⟨true, lines⟩) (some_ : [] ∉ elements) :
    ∃ parts, List.Forall₂ Accepted elements parts ∧ lines = parts.flatten := by
  induction elements generalizing lines with
  | nil =>
      obtain rfl := (Printed.mk.inj (Option.some.inj ended)).2
      exact ⟨[], .nil, rfl⟩
  | cons element elements ih =>
      rw [expandElements, if_neg (head_ne some_)] at ended
      split at ended
      · exact absurd ended (by simp)
      · exact absurd (Option.some.inj ended) (by simp)
      · rename_i first
        obtain ⟨rest, found, same⟩ := Option.map_eq_some_iff.mp ended
        obtain ⟨ok, lines'⟩ := rest
        obtain ⟨rfl, rfl⟩ := Printed.mk.inj same
        obtain ⟨parts, all, rfl⟩ := ih found fun mem => some_ (List.mem_cons_of_mem _ mem)
        exact ⟨_ :: parts, .cons (expandElement_true first) all, rfl⟩

theorem expandElements_accepted {elements : List (List Char)} {parts : List (List (List Char))}
    (accepted : List.Forall₂ Accepted elements parts) (some_ : [] ∉ elements) :
    ∃ enough, ∀ fuel, enough ≤ fuel →
      expandElements fuel elements = some ⟨true, parts.flatten⟩ := by
  induction accepted with
  | nil => exact ⟨0, fun _ _ => rfl⟩
  | cons first _ ih =>
      obtain ⟨enough, found⟩ := expandElement_accepted first
      obtain ⟨more, rest⟩ := ih fun mem => some_ (List.mem_cons_of_mem _ mem)
      refine ⟨max enough more, fun fuel le => ?_⟩
      rw [expandElements, if_neg (head_ne some_),
        found fuel (le_trans (le_max_left _ _) le), rest fuel (le_trans (le_max_right _ _) le)]
      rfl

/-- Some element is refused, and no element before it goes on for ever. -/
def Stopped (elements : List (List Char)) : Prop :=
  ∃ before element after, elements = before ++ element :: after ∧ Rejected element ∧
    ∀ other ∈ before, ¬Endless other

theorem stopped_cons {elements : List (List Char)} :
    Stopped (element :: elements) ↔
      Rejected element ∨ ¬Endless element ∧ Stopped elements := by
  constructor
  · rintro ⟨before, other, after, same, rejected, ended⟩
    cases before with
    | nil =>
        obtain ⟨rfl, -⟩ := List.cons.inj same
        exact .inl rejected
    | cons first before =>
        obtain ⟨rfl, rfl⟩ := List.cons.inj same
        exact .inr ⟨ended _ List.mem_cons_self, before, other, after, rfl, rejected,
          fun other mem => ended other (List.mem_cons_of_mem _ mem)⟩
  · rintro (rejected | ⟨first, before, other, after, rfl, rejected, ended⟩)
    · exact ⟨[], element, elements, rfl, rejected, fun _ mem => absurd mem List.not_mem_nil⟩
    · exact ⟨element :: before, other, after, rfl, rejected, List.forall_mem_cons.mpr ⟨first, ended⟩⟩

theorem expandElements_false {elements lines : List (List Char)}
    (ended : expandElements fuel elements = some ⟨false, lines⟩) (some_ : [] ∉ elements) :
    Stopped elements := by
  induction elements generalizing lines with
  | nil => exact absurd (Option.some.inj ended) (by simp)
  | cons element elements ih =>
      rw [expandElements, if_neg (head_ne some_)] at ended
      rw [stopped_cons]
      split at ended
      · exact absurd ended (by simp)
      · rename_i first
        exact .inl (expandElement_false first)
      · rename_i first
        obtain ⟨⟨ok, rest⟩, found, same⟩ := Option.map_eq_some_iff.mp ended
        obtain ⟨rfl, -⟩ := Printed.mk.inj same
        exact .inr ⟨not_endless (expandElement_true first),
          ih found fun mem => some_ (List.mem_cons_of_mem _ mem)⟩

theorem expandElements_stopped {elements : List (List Char)} (stopped : Stopped elements)
    (some_ : [] ∉ elements) :
    ∃ enough, ∀ fuel, enough ≤ fuel →
      ∃ lines, expandElements fuel elements = some ⟨false, lines⟩ := by
  induction elements with
  | nil =>
      obtain ⟨before, element, after, none, -⟩ := stopped
      exact absurd none (by simp)
  | cons element elements ih =>
      have refused : Rejected element → ∃ enough, ∀ fuel, enough ≤ fuel →
          ∃ lines, expandElements fuel (element :: elements) = some ⟨false, lines⟩ := by
        intro rejected
        refine ⟨0, fun fuel _ => ?_⟩
        obtain ⟨lines, ended⟩ := @expandElement_rejected fuel _ rejected
        exact ⟨lines, by rw [expandElements, if_neg (head_ne some_), ended]⟩
      rcases stopped_cons.mp stopped with rejected | ⟨ended, later⟩
      · exact refused rejected
      · rcases element_trichotomy element with rejected | ⟨lines, accepted⟩ | endless
        · exact refused rejected
        · obtain ⟨enough, found⟩ := expandElement_accepted accepted
          obtain ⟨more, rest⟩ := ih later fun mem => some_ (List.mem_cons_of_mem _ mem)
          refine ⟨max enough more, fun fuel le => ?_⟩
          obtain ⟨lines', failed⟩ := rest fuel (le_trans (le_max_right _ _) le)
          refine ⟨lines ++ lines', ?_⟩
          rw [expandElements, if_neg (head_ne some_), found fuel (le_trans (le_max_left _ _) le)]
          simp only [failed, Option.map_some]
        · exact absurd endless ended

theorem expandElements_filter (fuel : Nat) (elements : List (List Char)) :
    expandElements fuel elements = expandElements fuel (elements.filter (· ≠ [])) := by
  induction elements with
  | nil => rfl
  | cons element elements ih =>
      by_cases empty : element = []
      · rw [expandElements, if_pos empty, List.filter_cons_of_neg (by simpa using empty), ih]
      · rw [List.filter_cons_of_pos (by simpa using empty), expandElements, expandElements,
          if_neg empty, if_neg empty, ih]

end StorageScaleTest.Ranges
