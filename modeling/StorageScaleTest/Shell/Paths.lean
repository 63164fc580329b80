import Mathlib.Data.List.DropRight
import StorageScaleTest.Shell.Words

/-!
# Resolving paths through symbolic links

A layout of directories, files and links, the resolution of a string against it by `realpath -m`,
which lets components be missing, and by the kernel, which does not.
-/

namespace Shell

abbrev Name := List Char

abbrev Location := List Name

inductive Entry
  | directory | file
  | symlink (target : List Char)
  deriving DecidableEq, Repr

structure Layout where
  entry : Location → Option Entry

def absolute (path : List Char) : Bool := path.head? = some '/'

/-- The components of a path, less the empty ones and `.`. -/
def components (path : List Char) : List Name :=
  (path.splitOn '/').filter fun part => part ≠ [] && part ≠ ['.']

namespace Layout

variable (layout : Layout)

def linkAt (location : Location) : Option (List Char) :=
  match layout.entry location with
  | some (.symlink target) => some target
  | _ => none

/-- `realpath -m` from a directory, in so many steps. -/
def walk : Nat → Location → List Name → Option Location
  | _, base, [] => some base
  | 0, _, _ :: _ => none
  | n+1, base, part :: rest =>
    if part = ['.', '.'] then walk n base.dropLast rest
    else match layout.linkAt (base ++ [part]) with
      | some target => walk n (if absolute target then [] else base) (components target ++ rest)
      | none => walk n (base ++ [part]) rest

/-- The kernel's resolution, which fails where a component is missing or no directory. -/
def lookup : Nat → Location → List Name → Option Location
  | _, base, [] => if (layout.entry base).isSome then some base else none
  | 0, _, _ :: _ => none
  | n+1, base, part :: rest =>
    if layout.entry base ≠ some .directory then none
    else if part = ['.', '.'] then lookup n base.dropLast rest
    else match layout.linkAt (base ++ [part]) with
      | some target => lookup n (if absolute target then [] else base) (components target ++ rest)
      | none => lookup n (base ++ [part]) rest

def start (cwd : Location) (path : List Char) : Location := if absolute path then [] else cwd

def realpath (n : Nat) (cwd : Location) (path : List Char) : Option Location :=
  if path = [] then none else layout.walk n (start cwd path) (components path)

def resolve (n : Nat) (cwd : Location) (path : List Char) : Option Location :=
  if path = [] then none else layout.lookup n (start cwd path) (components path)

def Physical (location : Location) : Prop :=
  ∀ above name, above ++ [name] <+: location → layout.linkAt (above ++ [name]) = none

end Layout

def Named (location : Location) : Prop := ∀ name ∈ location, '/' ∉ name

variable {layout : Layout} {n m : Nat} {base location location' : Location} {parts : List Name}

theorem Layout.walk_unique (first : layout.walk n base parts = some location)
    (second : layout.walk m base parts = some location') : location = location' := by
  induction n generalizing m base parts with
  | zero =>
      cases parts with
      | nil =>
          cases m <;> exact Option.some.inj (first.symm.trans second)
      | cons part rest => cases first
  | succ n ih =>
      cases parts with
      | nil => cases m <;> exact Option.some.inj (first.symm.trans second)
      | cons part rest =>
          cases m with
          | zero => cases second
          | succ m =>
              simp only [walk] at first second
              split at first
              · rename_i up
                rw [if_pos up] at second
                exact ih first second
              · rename_i down
                rw [if_neg down] at second
                cases link : layout.linkAt (base ++ [part]) with
                | some target =>
                    simp only [link] at first second
                    exact ih first second
                | none =>
                    simp only [link] at first second
                    exact ih first second

/-- What the kernel resolves, `realpath` resolves the same way. -/
theorem Layout.walk_of_lookup (found : layout.lookup n base parts = some location) :
    layout.walk n base parts = some location := by
  induction n generalizing base parts with
  | zero =>
      cases parts with
      | nil =>
          simp only [lookup] at found
          split at found
          · exact found
          · cases found
      | cons part rest => cases found
  | succ n ih =>
      cases parts with
      | nil =>
          simp only [lookup] at found
          split at found
          · exact found
          · cases found
      | cons part rest =>
          simp only [lookup] at found
          split at found
          · cases found
          · simp only [walk]
            split at found
            · rename_i up
              rw [if_pos up]
              exact ih found
            · rename_i down
              rw [if_neg down]
              cases link : layout.linkAt (base ++ [part]) with
              | some target =>
                  simp only [link] at found
                  exact ih found
              | none =>
                  simp only [link] at found
                  exact ih found

theorem Layout.realpath_of_resolve {cwd : Location} {path : List Char}
    (found : layout.resolve n cwd path = some location) :
    layout.realpath n cwd path = some location := by
  unfold resolve at found
  unfold realpath
  split at found
  · cases found
  · rename_i some_
    rw [if_neg some_]
    exact walk_of_lookup found

theorem Layout.Physical.dropLast (h : layout.Physical base) : layout.Physical base.dropLast :=
  fun above name le => h above name (le.trans (List.dropLast_prefix base))

theorem Layout.Physical.root : layout.Physical [] := by
  intro above name le
  simp at le

theorem Layout.Physical.concat {name : Name} (h : layout.Physical base)
    (plain : layout.linkAt (base ++ [name]) = none) : layout.Physical (base ++ [name]) := by
  intro above last le
  rcases List.prefix_concat_iff.mp le with same | shorter
  · rw [same]
    exact plain
  · exact h above last shorter

theorem named_components (path : List Char) : ∀ part ∈ components path, '/' ∉ part := by
  intro part mem
  exact not_mem_of_mem_splitOn (List.mem_filter.mp mem).1

theorem Layout.walk_physical (physical : layout.Physical base) (named : Named base)
    (parts_named : ∀ part ∈ parts, '/' ∉ part)
    (walked : layout.walk n base parts = some location) :
    layout.Physical location ∧ Named location := by
  induction n generalizing base parts with
  | zero =>
      cases parts with
      | nil => exact Option.some.inj walked ▸ ⟨physical, named⟩
      | cons part rest => cases walked
  | succ n ih =>
      cases parts with
      | nil => exact Option.some.inj walked ▸ ⟨physical, named⟩
      | cons part rest =>
          have rest_named : ∀ part ∈ rest, '/' ∉ part := fun other mem =>
            parts_named other (List.mem_cons_of_mem _ mem)
          simp only [walk] at walked
          split at walked
          · refine ih physical.dropLast (fun name mem => ?_) rest_named walked
            exact named name (List.dropLast_subset base mem)
          · cases link : layout.linkAt (base ++ [part]) with
            | some target =>
                simp only [link] at walked
                have tail : ∀ part ∈ components target ++ rest, '/' ∉ part := by
                  intro other mem
                  rcases List.mem_append.mp mem with left | right
                  · exact named_components target other left
                  · exact rest_named other right
                split at walked
                · exact ih .root (fun name mem => by cases mem) tail walked
                · exact ih physical named tail walked
            | none =>
                simp only [link] at walked
                refine ih (physical.concat link) (fun name mem => ?_) rest_named walked
                rcases List.mem_append.mp mem with left | right
                · exact named name left
                · rw [List.mem_singleton.mp right]
                  exact parts_named part List.mem_cons_self

/-! ## Text of a location -/

def render (location : Location) : List Char :=
  if location = [] then ['/'] else location.flatMap ('/' :: ·)

/-- What a command substitution leaves of an output. -/
def stripNewlines (text : List Char) : List Char := text.rdropWhile (· = '\n')

theorem flatMap_prefix (named : Named base) (named' : Named location) {rest : List Char}
    (same : location.flatMap ('/' :: ·) = base.flatMap ('/' :: ·) ++ '/' :: rest) :
    base <+: location ∧ base ≠ location := by
  induction base generalizing location with
  | nil =>
      cases location with
      | nil => simp at same
      | cons name tail => exact ⟨List.nil_prefix, by simp⟩
  | cons name base ih =>
      cases location with
      | nil => simp at same
      | cons other tail =>
          simp only [List.flatMap_cons, List.cons_append, List.cons.injEq, true_and,
            List.append_assoc] at same
          have free : '/' ∉ name := named name List.mem_cons_self
          have free' : '/' ∉ other := named' other List.mem_cons_self
          obtain ⟨rfl, continued⟩ : other = name ∧
              tail.flatMap ('/' :: ·) = base.flatMap ('/' :: ·) ++ '/' :: rest := by
            have right : ∃ r, base.flatMap ('/' :: ·) ++ '/' :: rest = '/' :: r := by
              cases base with
              | nil => exact ⟨rest, rfl⟩
              | cons b bs => exact ⟨_, by simp; rfl⟩
            obtain ⟨r, eq⟩ := right
            cases tail with
            | nil =>
                rw [eq] at same
                simp at same
                exact absurd (by rw [same]; simp) free'
            | cons t ts =>
                rw [eq] at same ⊢
                simp only [List.flatMap_cons, List.cons_append] at same ⊢
                obtain ⟨rfl, tail_eq⟩ := append_separator_inj free' free same
                exact ⟨rfl, by rw [tail_eq]⟩
          obtain ⟨le, ne⟩ := ih (fun part mem => named part (List.mem_cons_of_mem _ mem))
            (fun part mem => named' part (List.mem_cons_of_mem _ mem)) continued
          exact ⟨List.cons_prefix_cons.mpr ⟨rfl, le⟩, by simpa using ne⟩

end Shell
