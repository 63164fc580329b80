import StorageScaleTest.Sweep.DeleteOnly

/-!
# What `--delete-only` removes

The removal stays with the validated tree exactly if the string denotes, where it is used, what it
denoted where it was checked.
-/

namespace StorageScaleTest.Sweep

open Shell

variable {layout : Layout} {n m : Nat} {submit home : WorkingDirectory layout}
  {expression : List Char → Bool} {root path : List Char} {user base : Location}

/-! ## The validated path -/

def Below (base location : Location) : Prop := base <+: location ∧ base ≠ location

theorem stripNewlines_starts (text : List Char) : stripNewlines text <+: text :=
  List.rdropWhile_prefix _ text

theorem stripNewlines_split (text : List Char) :
    ∃ newlines, stripNewlines text ++ newlines = text ∧ ∀ x ∈ newlines, x = '\n' := by
  refine ⟨(text.reverse.takeWhile (· = '\n')).reverse, ?_, fun x mem => ?_⟩
  · unfold stripNewlines List.rdropWhile
    rw [← List.reverse_append, List.takeWhile_append_dropWhile, List.reverse_reverse]
  · simpa using List.mem_takeWhile_imp (List.mem_reverse.mp mem)

theorem stripNewlines_end (text : List Char) : (stripNewlines text).getLast? ≠ some '\n' := by
  intro last
  have some_ : stripNewlines text ≠ [] := fun none => by simp [none] at last
  have kept := List.rdropWhile_last_not (· = '\n') text some_
  rw [List.getLast?_eq_some_getLast some_, Option.some.injEq] at last
  exact kept (decide_eq_true last)

theorem render_append (named : Named user) (named' : Named base) {rest : List Char}
    (same : render user = render base ++ '/' :: rest) : Below base user := by
  unfold render at same
  by_cases top : user = []
  · have long : 0 < (if base = [] then ['/'] else base.flatMap ('/' :: ·)).length := by
      cases base <;> simp
    have lengths := congrArg List.length same
    rw [if_pos top, List.length_append] at lengths
    simp only [List.length_cons, List.length_nil] at lengths
    omega
  · rw [if_neg top] at same
    by_cases bottom : base = []
    · exact ⟨bottom ▸ List.nil_prefix, fun eq => top (eq ▸ bottom)⟩
    · rw [if_neg bottom] at same
      exact flatMap_prefix named' named same

theorem below_of_strictSubdir (named : Named user) (named' : Named base)
    (accepted : strictSubdir user base = true) (text : (render base).getLast? ≠ some '\n') :
    Below base user := by
  have whole : stripNewlines (render base) = render base := by
    apply List.rdropWhile_eq_self_iff.mpr
    intro some_
    have last : (render base).getLast some_ ≠ '\n' := fun eq =>
      text (by rw [List.getLast?_eq_some_getLast some_, eq])
    simpa using last
  rw [strictSubdir, List.isPrefixOf_iff_prefix, whole] at accepted
  obtain ⟨rest, eq⟩ := accepted.trans (stripNewlines_starts _)
  exact @render_append _ _ named named' rest (by rw [← eq]; simp)

theorem text_of_below (accepted : strictSubdir user base = true) (below : Below base user) :
    (render base).getLast? ≠ some '\n' := by
  intro last
  obtain ⟨⟨more, rfl⟩, other⟩ := below
  have bottom : base ≠ [] := by
    rintro rfl
    simp [render] at last
  obtain ⟨next, more, rfl⟩ : ∃ next rest, more = next :: rest := by
    cases more with
    | nil => simp at other
    | cons next rest => exact ⟨next, rest, rfl⟩
  rw [strictSubdir, List.isPrefixOf_iff_prefix] at accepted
  obtain ⟨rest, eq⟩ := accepted.trans (stripNewlines_starts _)
  have text : render (base ++ next :: more) =
      render base ++ '/' :: (next ++ more.flatMap ('/' :: ·)) := by
    simp [render, bottom]
  obtain ⟨newlines, parts, all⟩ := stripNewlines_split (render base)
  rw [text] at eq
  have end_ := stripNewlines_end (render base)
  generalize stripNewlines (render base) = kept at eq parts end_
  cases newlines with
  | nil =>
      rw [List.append_nil] at parts
      exact end_ (parts ▸ last)
  | cons c newlines =>
      rw [← parts] at eq
      simp only [List.append_assoc, List.cons_append, List.nil_append,
        List.append_cancel_left_eq, List.cons.injEq] at eq
      rw [all c List.mem_cons_self] at eq
      exact absurd eq.1 (by decide)

theorem realpath_physical {cwd : WorkingDirectory layout} {location : Location}
    (resolved : layout.realpath n cwd.location path = some location) :
    layout.Physical location ∧ Named location := by
  unfold Layout.realpath Layout.start at resolved
  split at resolved
  · cases resolved
  · split at resolved
    · exact Layout.walk_physical .root (fun name mem => by cases mem) (named_components path)
        resolved
    · exact Layout.walk_physical cwd.physical cwd.named (named_components path) resolved

theorem lastLink_link {cwd link : Location} (found : lastLink layout m cwd path = some link) :
    ¬layout.Physical link := by
  unfold lastLink at found
  split at found
  · split at found
    · rename_i name parent _ _ isLink
      obtain rfl := Option.some.inj found
      intro physical
      rw [physical parent name (List.prefix_refl _)] at isLink
      cases isLink
    · cases found
  · cases found

/-! ## The law -/

/-- What is removed is the tree that was validated, or its contents, strictly below the root. -/
def DeletesValidated (layout : Layout) (n m : Nat) (submit home : WorkingDirectory layout)
    (expression : List Char → Bool) (root path : List Char) : Prop :=
  ∀ user base, layout.realpath n submit.location path = some user →
    layout.realpath n submit.location root = some base →
    match deletePathParallel layout m home.location expression path with
    | .nothing => True
    | .tree top | .contents top => top = user ∧ Below base top
    | .workingDirectory => False

/-! ## Where a string leads -/

def ups (path : List Char) : Nat := ((components path).takeWhile (· = ['.', '.'])).length

def downs (path : List Char) : List Name := (components path).dropWhile (· = ['.', '.'])

def ancestor : Nat → Location → Location
  | 0, location => location
  | k + 1, location => ancestor k location.dropLast

theorem components_eq (path : List Char) :
    components path = List.replicate (ups path) ['.', '.'] ++ downs path := by
  have all : (components path).takeWhile (· = ['.', '.']) =
      List.replicate (ups path) ['.', '.'] := by
    apply List.eq_replicate_of_mem
    intro part mem
    simpa using List.mem_takeWhile_imp mem
  rw [← all]
  exact List.takeWhile_append_dropWhile.symm

theorem walk_ups {k : Nat} {parts : List Name} {location : Location}
    (walked : layout.walk n base (List.replicate k ['.', '.'] ++ parts) = some location) :
    ∃ n', layout.walk n' (ancestor k base) parts = some location := by
  induction k generalizing n base with
  | zero => exact ⟨n, walked⟩
  | succ k ih =>
      rw [List.replicate_succ, List.cons_append] at walked
      cases n with
      | zero => cases walked
      | succ n =>
          simp only [Layout.walk, if_true] at walked
          exact ih walked

def Straight (layout : Layout) (location : Location) (parts : List Name) : Prop :=
  ['.', '.'] ∉ parts ∧ ∀ above name, above ++ [name] <+: parts →
    layout.linkAt (location ++ above ++ [name]) = none

theorem walk_straight {parts : List Name} {location : Location}
    (straight : Straight layout base parts) (walked : layout.walk n base parts = some location) :
    location = base ++ parts := by
  induction parts generalizing n base with
  | nil => cases n <;> simpa [Layout.walk] using walked.symm
  | cons part rest ih =>
      obtain ⟨down, plain⟩ := straight
      rw [List.mem_cons, not_or] at down
      cases n with
      | zero => cases walked
      | succ n =>
          have free : layout.linkAt (base ++ [part]) = none := by
            simpa using plain [] part ⟨rest, rfl⟩
          simp only [Layout.walk, if_neg (Ne.symm down.1), free] at walked
          have further : Straight layout (base ++ [part]) rest := by
            refine ⟨down.2, fun above name le => ?_⟩
            simpa using plain (part :: above) name (List.cons_prefix_cons.mpr ⟨rfl, le⟩)
          rw [ih further walked, List.append_assoc]
          rfl

theorem realpath_anchored {cwd other : WorkingDirectory layout} {real : Location}
    (anchored : absolute path = true ∨
      ancestor (ups path) cwd.location = ancestor (ups path) other.location)
    (checked : layout.realpath n cwd.location path = some user)
    (found : layout.realpath m other.location path = some real) : real = user := by
  unfold Layout.realpath Layout.start at checked found
  split at found
  · cases found
  · rename_i some_
    rw [if_neg some_] at checked
    by_cases slash : absolute path = true
    · rw [if_pos slash] at checked found
      exact Layout.walk_unique found checked
    · rw [if_neg slash, components_eq] at checked found
      obtain ⟨_, checked⟩ := walk_ups checked
      obtain ⟨_, found⟩ := walk_ups found
      rw [anchored.resolve_left slash] at checked
      exact Layout.walk_unique found checked

/-- Both readings of the path climb at its start only and meet no link. -/
def Plain (layout : Layout) (submit home : WorkingDirectory layout) (path : List Char) : Prop :=
  absolute path = true ∨
    ∀ cwd ∈ [submit, home], Straight layout (ancestor (ups path) cwd.location) (downs path)

theorem anchored_of_plain (plain : Plain layout submit home path)
    (checked : layout.realpath n submit.location path = some user)
    (found : layout.realpath m home.location path = some user) :
    absolute path = true ∨
      ancestor (ups path) submit.location = ancestor (ups path) home.location := by
  by_cases slash : absolute path = true
  · exact .inl slash
  · right
    have straight := plain.resolve_left slash
    unfold Layout.realpath Layout.start at checked found
    split at found
    · cases found
    · rename_i some_
      rw [if_neg some_, if_neg slash, components_eq] at checked
      rw [components_eq] at found
      obtain ⟨_, checked⟩ := walk_ups checked
      obtain ⟨_, found⟩ := walk_ups found
      have left := walk_straight (straight submit (by simp)) checked
      have right := walk_straight (straight home (by simp)) found
      exact List.append_cancel_right (left.symm.trans right)

/-- The string is no option, does not end in a link, and leads from both directories to one place,
and the root keeps its name in the comparison. -/
structure Faithful (layout : Layout) (n m : Nat) (submit home : WorkingDirectory layout)
    (root path : List Char) : Prop where
  operand : isOption path = false
  unlinked : lastLink layout m home.location path = none ∨ followsLast path = true
  anchored : absolute path = true ∨
    ancestor (ups path) submit.location = ancestor (ups path) home.location
  text : ∀ base, layout.realpath n submit.location root = some base →
    (render base).getLast? ≠ some '\n'

theorem removal_of_operand (operand : isOption path = false)
    (unlinked : lastLink layout m home.location path = none ∨ followsLast path = true)
    (removes : removable layout m home.location expression path = true) :
    ∃ real, layout.resolve m home.location path = some real ∧
      (deletePathParallel layout m home.location expression path = .tree real ∨
        deletePathParallel layout m home.location expression path = .contents real) := by
  cases found : layout.resolve m home.location path with
  | none => simp [removable, found] at removes
  | some real =>
      refine ⟨real, rfl, ?_⟩
      unfold deletePathParallel
      rw [removes, operand]
      cases link : lastLink layout m home.location path with
      | none =>
          simp only [found]
          by_cases dots : (lastPart path = ['.'] || lastPart path = ['.', '.']) = true
          · simp [dots]
          · simp [dots]
      | some link' =>
          have follows := unlinked.resolve_left (by simp [link])
          simp [found, follows]

theorem accepted_cases
    (accepted : validateDeleteOnlyPath layout n submit.location root path = true) : ∃ user base,
      layout.realpath n submit.location path = some user ∧
      layout.realpath n submit.location root = some base ∧ strictSubdir user base = true := by
  unfold validateDeleteOnlyPath at accepted
  split at accepted
  · rename_i user base h h'
    exact ⟨user, base, h, h', accepted⟩
  · cases accepted

theorem deletesValidated_of_faithful
    (accepted : validateDeleteOnlyPath layout n submit.location root path = true)
    (faithful : removable layout m home.location expression path = true →
      Faithful layout n m submit home root path) :
    DeletesValidated layout n m submit home expression root path := by
  obtain ⟨user, base, checked, checkedRoot, inside⟩ := accepted_cases accepted
  intro user' base' eq eq'
  obtain rfl : user = user' := Option.some.inj (checked.symm.trans eq)
  obtain rfl : base = base' := Option.some.inj (checkedRoot.symm.trans eq')
  cases removes : removable layout m home.location expression path with
  | false => simp [deletePathParallel, removes]
  | true =>
      obtain ⟨operand, unlinked, anchored, text⟩ := faithful removes
      obtain ⟨real, found, removal⟩ := removal_of_operand operand unlinked removes
      obtain rfl := realpath_anchored anchored checked (Layout.realpath_of_resolve found)
      have below := below_of_strictSubdir (realpath_physical checked).2
        (realpath_physical checkedRoot).2 inside (text base checkedRoot)
      rcases removal with tree | contents
      · rw [tree]
        exact ⟨rfl, below⟩
      · rw [contents]
        exact ⟨rfl, below⟩

theorem faithful_of_deletesValidated
    (accepted : validateDeleteOnlyPath layout n submit.location root path = true)
    (plain : Plain layout submit home path)
    (law : DeletesValidated layout n m submit home expression root path)
    (removes : removable layout m home.location expression path = true) :
    Faithful layout n m submit home root path := by
  obtain ⟨user, base, checked, checkedRoot, inside⟩ := accepted_cases accepted
  have law := law user base checked checkedRoot
  cases operand : isOption path with
  | true => simp [deletePathParallel, removes, operand] at law
  | false =>
      cases found : layout.resolve m home.location path with
      | none => simp [removable, found] at removes
      | some real =>
          have unlinked : lastLink layout m home.location path = none ∨ followsLast path = true := by
            cases link : lastLink layout m home.location path with
            | none => exact .inl rfl
            | some link' =>
                right
                by_contra follows
                simp only [deletePathParallel, removes, operand, found, link, follows] at law
                exact lastLink_link link (law.1 ▸ (realpath_physical checked).1)
          obtain ⟨real', found', removal⟩ := removal_of_operand operand unlinked removes
          obtain rfl : real = real' := Option.some.inj (found.symm.trans found')
          have target : real = user ∧ Below base real := by
            rcases removal with tree | contents
            · rw [tree] at law
              exact law
            · rw [contents] at law
              exact law
          obtain rfl := target.1
          have anchored := anchored_of_plain plain checked (Layout.realpath_of_resolve found)
          refine ⟨operand, unlinked, anchored, fun base' eq => ?_⟩
          obtain rfl : base = base' := Option.some.inj (checkedRoot.symm.trans eq)
          exact text_of_below inside target.2

/-- The removal stays with the validated tree where the string is faithful, and only there unless
`..` or links make a relative path lead to one place from two directories. -/
theorem deletesValidated_iff
    (accepted : validateDeleteOnlyPath layout n submit.location root path = true) :
    ((removable layout m home.location expression path = true →
        Faithful layout n m submit home root path) →
      DeletesValidated layout n m submit home expression root path) ∧
    (Plain layout submit home path →
      (DeletesValidated layout n m submit home expression root path ↔
        (removable layout m home.location expression path = true →
          Faithful layout n m submit home root path))) :=
  ⟨deletesValidated_of_faithful accepted, fun plain =>
    ⟨faithful_of_deletesValidated accepted plain, deletesValidated_of_faithful accepted⟩⟩

/-! ## A root of two names -/

/-- A test root with a directory `x`, and a home directory with another. -/
def twoHomes : Layout where
  entry location :=
    if location ∈ [[], [['r']], [['r'], ['x']], [['h']], [['h'], ['x']]] then some .directory
    else none

theorem twoHomes_physical (location : Location) : twoHomes.Physical location := by
  intro above name _
  unfold Layout.linkAt twoHomes
  split
  · rename_i h
    simp only at h
    split at h <;> cases h
  · rfl

def inRoot : WorkingDirectory twoHomes where
  location := [['r']]
  physical := twoHomes_physical _
  named := by unfold Named; decide

def inHome : WorkingDirectory twoHomes where
  location := [['h']]
  physical := twoHomes_physical _
  named := by unfold Named; decide

/-- The same tree by an absolute path, and by one that climbs to the root of the file system. -/
theorem deletesValidated_iff_sample :
    (deletePathParallel twoHomes 4 inHome.location (fun _ => false) "/r/x".toList =
        .tree [['r'], ['x']] ∧
      DeletesValidated twoHomes 4 4 inRoot inHome (fun _ => false) "/r".toList "/r/x".toList) ∧
    deletePathParallel twoHomes 4 inHome.location (fun _ => false) "../r/x".toList =
        .tree [['r'], ['x']] ∧
      DeletesValidated twoHomes 4 4 inRoot inHome (fun _ => false) "/r".toList "../r/x".toList := by
  have text : ∀ base, twoHomes.realpath 4 inRoot.location "/r".toList = some base →
      (render base).getLast? ≠ some '\n' := by
    intro base eq
    obtain rfl : base = [['r']] := Option.some.inj (eq.symm.trans (by decide +kernel))
    decide
  refine ⟨⟨by decide +kernel, ?_⟩, by decide +kernel, ?_⟩
  · exact (deletesValidated_iff (by decide +kernel)).1 fun _ =>
      ⟨by decide, .inl (by decide +kernel), .inl (by decide), text⟩
  · exact (deletesValidated_iff (by decide +kernel)).1 fun _ =>
      ⟨by decide, .inl (by decide +kernel), .inr (by decide +kernel), text⟩

/-- A relative path names another tree under the home directory. -/
theorem deletes_elsewhere :
    validateDeleteOnlyPath twoHomes 4 inRoot.location ['/', 'r'] ['x'] = true ∧
      deletePathParallel twoHomes 4 inHome.location (fun _ => false) ['x'] =
        .tree [['h'], ['x']] ∧
      ¬DeletesValidated twoHomes 4 4 inRoot inHome (fun _ => false) ['/', 'r'] ['x'] := by
  have removal : deletePathParallel twoHomes 4 inHome.location (fun _ => false) ['x'] =
      .tree [['h'], ['x']] := by decide +kernel
  refine ⟨by decide +kernel, removal, fun law => ?_⟩
  have law := law [['r'], ['x']] [['r']] (by decide +kernel) (by decide +kernel)
  rw [removal] at law
  exact absurd law.1 (by decide)

end StorageScaleTest.Sweep
