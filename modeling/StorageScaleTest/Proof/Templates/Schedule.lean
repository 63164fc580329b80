import StorageScaleTest.Templates.Render

/-!
# Renderers as substitutions in turn

A renderer checks every assignment by itself, and then replaces the tokens in the order of its
schedule.
-/

namespace StorageScaleTest.Templates
open Shell Targets Markers

/-! ## Checked assignments -/

def plainAssignment (assignment : Text) : Bool :=
  '=' ∈ assignment && '=' ∉ value assignment &&
    validatePlaceholder (token assignment) (value assignment)

def blockAssignment (script assignment : Text) : Bool :=
  '=' ∈ assignment && validateMultilinePlaceholder script (token assignment) (value assignment)

def validAssignment (script : Text) : Renderer → Text → Bool
  | .template, assignment => plainAssignment assignment
  | .attempt, assignment =>
    if isMultiline assignment then blockAssignment script assignment
    else plainAssignment assignment

theorem equals_of_plain {assignment : Text} (plain : plainAssignment assignment) :
    '=' ∈ assignment := by
  simp only [plainAssignment, Bool.and_eq_true, decide_eq_true_iff] at plain
  exact plain.1.1

theorem equals_of_block {script assignment : Text} (block : blockAssignment script assignment) :
    '=' ∈ assignment := by
  rw [blockAssignment, Bool.and_eq_true, decide_eq_true_iff] at block
  exact block.1

theorem mem_of_lookup {β : Type} {table : List (Text × β)} {name : Text} {found : β}
    (eq : table.lookup name = some found) : (name, found) ∈ table := by
  induction table with
  | nil => cases eq
  | cons pair table ih =>
      obtain ⟨key, check⟩ := pair
      rw [List.lookup_cons] at eq
      split at eq
      case h_1 same =>
        rw [beq_iff_eq] at same
        rw [same, Option.some.inj eq]
        exact List.mem_cons_self
      case h_2 => exact List.mem_cons_of_mem _ (ih eq)

theorem exists_of_validatePlaceholder {name word : Text} (valid : validatePlaceholder name word) :
    ∃ check, (name, check) ∈ placeholders ∧ check word = true := by
  rw [validatePlaceholder, Bool.and_eq_true, Option.any_eq_true] at valid
  obtain ⟨-, check, found, holds⟩ := valid
  exact ⟨check, mem_of_lookup found, holds⟩

theorem exists_of_validateMultilinePlaceholder {script name word : Text}
    (valid : validateMultilinePlaceholder script name word) :
    ∃ check, (name, check) ∈ multilinePlaceholders script ∧ check word = true := by
  rw [validateMultilinePlaceholder, Option.any_eq_true] at valid
  obtain ⟨check, found, holds⟩ := valid
  exact ⟨check, mem_of_lookup found, holds⟩

theorem not_multiline_of_plain {assignment : Text} (plain : plainAssignment assignment) :
    isMultiline assignment = false := by
  rw [plainAssignment, Bool.and_eq_true] at plain
  obtain ⟨check, mem, -⟩ := exists_of_validatePlaceholder plain.2
  have apart : ∀ name ∈ placeholders.map Prod.fst,
      (name ∈ blockTokens || name ∈ singleTokens) = false := by
    decide +kernel
  exact apart _ (List.mem_map.mpr ⟨_, mem, rfl⟩)

/-! ## One assignment -/

theorem substitute_of_not_once {entry : Entry Char} (once : entry.once = false) (rendered : Text) :
    substitute '@' entry rendered =
      if marker '@' entry.name <:+: rendered
        then some (replaceAll (marker '@' entry.name) entry.word rendered) else none := by
  rw [substitute]
  cases found : cut (marker '@' entry.name) rendered with
  | none => rw [if_neg ((cut_eq_none marker_ne_nil).mp found)]
  | some parts =>
      have occurs : marker '@' entry.name <:+: rendered := by
        by_contra absent
        rw [(cut_eq_none marker_ne_nil).mpr absent] at found
        cases found
      simp [once, occurs]

theorem substitute_of_once {entry : Entry Char} (once : entry.once = true) (rendered : Text) :
    substitute '@' entry rendered =
      match cut (marker '@' entry.name) rendered with
      | some (front, back) =>
        if marker '@' entry.name <:+: back then none else some (front ++ entry.word ++ back)
      | none => none := by
  rw [substitute]
  cases found : cut (marker '@' entry.name) rendered with
  | none => rfl
  | some parts =>
      obtain ⟨front, back⟩ := parts
      by_cases again : marker '@' entry.name <:+: back
      · simp [once, again]
      · rw [replaceAll_of_cut marker_ne_nil found, replaceAll_of_not_infix again]
        simp [once, again]

theorem renderAssignment_eq (rendered assignment : Text) :
    renderAssignment rendered assignment =
      if plainAssignment assignment then substitute '@' (entry assignment) rendered else none := by
  by_cases plain : plainAssignment assignment
  · have once : (entry assignment).once = false := by
      have multiline := not_multiline_of_plain plain
      rw [isMultiline, Bool.or_eq_false_iff] at multiline
      exact multiline.2
    rw [if_pos plain, substitute_of_not_once once]
    simp only [plainAssignment, Bool.and_eq_true, decide_eq_true_iff] at plain
    obtain ⟨⟨equals, single⟩, valid⟩ := plain
    by_cases occurs : marker '@' (token assignment) <:+: rendered
    · simp [renderAssignment, entry, equals, single, valid, occurs]
    · simp [renderAssignment, entry, occurs]
  · rw [if_neg plain, renderAssignment]
    simp only [plainAssignment, Bool.and_eq_true, decide_eq_true_iff] at plain
    split_ifs with malformed refused
    · rfl
    · rfl
    · push Not at malformed refused
      exact absurd ⟨malformed, refused.1⟩ plain

theorem attemptAssignment_eq (script rendered : Text) (basic : List Text) (assignment : Text) :
    attemptAssignment script (rendered, basic) assignment =
      if isMultiline assignment then
        if blockAssignment script assignment then
          (substitute '@' (entry assignment) rendered).map fun rendered => (rendered, basic)
        else none
      else if '=' ∈ assignment then some (rendered, basic ++ [assignment]) else none := by
  by_cases equals : '=' ∈ assignment
  · by_cases block : token assignment ∈ blockTokens
    · have once : (entry assignment).once = false := by
        have apart : ∀ name ∈ blockTokens, name ∉ singleTokens := by decide +kernel
        exact decide_eq_false (apart _ block)
      rw [substitute_of_not_once once]
      by_cases valid : validateMultilinePlaceholder script (token assignment) (value assignment)
      · by_cases occurs : marker '@' (token assignment) <:+: rendered
        · simp [attemptAssignment, isMultiline, blockAssignment, entry, equals, block, valid, occurs]
        · simp [attemptAssignment, isMultiline, blockAssignment, entry, equals, block, occurs]
      · simp [attemptAssignment, isMultiline, blockAssignment, equals, block, valid]
    · by_cases single : token assignment ∈ singleTokens
      · rw [substitute_of_once (decide_eq_true single)]
        by_cases valid : validateMultilinePlaceholder script (token assignment) (value assignment)
        · cases found : cut (marker '@' (token assignment)) rendered with
          | none =>
              simp [attemptAssignment, isMultiline, blockAssignment, entry, equals, block, single,
                valid, found]
          | some parts =>
              obtain ⟨front, back⟩ := parts
              by_cases again : marker '@' (token assignment) <:+: back
              · simp [attemptAssignment, isMultiline, blockAssignment, entry, equals, block, single,
                  valid, found, again]
              · simp [attemptAssignment, isMultiline, blockAssignment, entry, equals, block, single,
                  valid, found, again]
        · simp [attemptAssignment, isMultiline, blockAssignment, equals, block, single, valid]
      · simp [attemptAssignment, isMultiline, equals, block, single]
  · simp [attemptAssignment, blockAssignment, equals]

/-! ## Every assignment -/

theorem foldlM_renderAssignment (rendered : Text) (assignments : List Text) :
    assignments.foldlM renderAssignment rendered =
      if assignments.all plainAssignment then progress '@' (assignments.map entry) rendered
      else none := by
  induction assignments generalizing rendered with
  | nil => rfl
  | cons assignment assignments ih =>
      rw [List.foldlM_cons, renderAssignment_eq, List.all_cons]
      by_cases plain : plainAssignment assignment
      · rw [if_pos plain, plain, Bool.true_and]
        by_cases others : assignments.all plainAssignment
        · simp only [ih, others, if_true]
          rfl
        · simp only [ih, others]
          cases substitute '@' (entry assignment) rendered <;> rfl
      · rw [if_neg plain, eq_false_of_ne_true plain, Bool.false_and]
        rfl

theorem foldlM_attemptAssignment (script rendered : Text) (basic assignments : List Text) :
    assignments.foldlM (attemptAssignment script) (rendered, basic) =
      if (assignments.filter isMultiline).all (blockAssignment script) ∧
          ∀ assignment ∈ assignments, '=' ∈ assignment then
        (progress '@' ((assignments.filter isMultiline).map entry) rendered).map fun rendered =>
          (rendered, basic ++ assignments.filter fun assignment => !isMultiline assignment)
      else none := by
  induction assignments generalizing rendered basic with
  | nil => simp [progress]
  | cons assignment assignments ih =>
      rw [List.foldlM_cons, attemptAssignment_eq]
      by_cases multi : isMultiline assignment
      · by_cases valid : blockAssignment script assignment
        · have equals : '=' ∈ assignment := by
            rw [blockAssignment, Bool.and_eq_true, decide_eq_true_iff] at valid
            exact valid.1
          rw [if_pos multi, if_pos valid]
          cases next : substitute '@' (entry assignment) rendered with
          | none => simp [multi, progress, next]
          | some rendered' => simp [ih, multi, valid, equals, progress, next]
        · simp [multi, valid]
      · by_cases equals : '=' ∈ assignment
        · simp [multi, equals, ih]
        · simp [multi, equals]

theorem renderTemplate_eq (template : Text) (assignments : List Text) :
    renderTemplate template assignments =
      if assignments.all plainAssignment then
        (progress '@' (assignments.map entry) template).bind resolved
      else none := by
  rw [renderTemplate, foldlM_renderAssignment]
  split <;> rfl

theorem all_validAssignment (script : Text) (assignments : List Text) :
    assignments.all (validAssignment script .attempt) ↔
      ((assignments.filter isMultiline).all (blockAssignment script) ∧
        ∀ assignment ∈ assignments, '=' ∈ assignment) ∧
      (assignments.filter fun assignment => !isMultiline assignment).all plainAssignment := by
  simp only [List.all_eq_true, List.mem_filter, validAssignment]
  constructor
  · intro valid
    refine ⟨⟨fun assignment both => ?_, fun assignment mem => ?_⟩, fun assignment both => ?_⟩
    · simpa [both.2] using valid assignment both.1
    · have here := valid assignment mem
      split at here
      · exact equals_of_block here
      · exact equals_of_plain here
    · have not_multi : isMultiline assignment = false := by simpa using both.2
      simpa [not_multi] using valid assignment both.1
  · rintro ⟨⟨blocks, -⟩, plain⟩ assignment mem
    by_cases multi : isMultiline assignment
    · rw [if_pos multi]
      exact blocks assignment ⟨mem, multi⟩
    · rw [if_neg multi]
      exact plain assignment ⟨mem, by simpa using multi⟩

theorem progress_append (done rest : List (Entry Char)) (template : Text) :
    progress '@' (done ++ rest) template =
      (progress '@' done template).bind (progress '@' rest) := by
  rw [progress, List.foldlM_append]
  rfl

theorem render_eq (script : Text) (renderer : Renderer) (template : Text)
    (assignments : List Text) :
    render script renderer template assignments =
      if assignments.all (validAssignment script renderer) then
        (progress '@' ((renderer.schedule assignments).map entry)
          (renderer.source template)).bind resolved
      else none := by
  cases renderer with
  | template => exact renderTemplate_eq template assignments
  | attempt =>
      rw [render, renderAttemptTemplate, foldlM_attemptAssignment, List.nil_append]
      simp only [all_validAssignment script assignments]
      by_cases blocks : (assignments.filter isMultiline).all (blockAssignment script) ∧
          ∀ assignment ∈ assignments, '=' ∈ assignment
      · rw [if_pos blocks, Renderer.schedule, Renderer.source, List.map_append, progress_append]
        by_cases plain : (assignments.filter fun assignment => !isMultiline assignment).all
            plainAssignment
        · rw [if_pos ⟨blocks, plain⟩]
          cases progress '@' ((assignments.filter isMultiline).map entry)
            (stripNewlines template) with
          | none => rfl
          | some rendered => exact (renderTemplate_eq rendered _).trans (if_pos plain)
        · rw [if_neg fun both => plain both.2]
          cases progress '@' ((assignments.filter isMultiline).map entry)
            (stripNewlines template) with
          | none => rfl
          | some rendered => exact (renderTemplate_eq rendered _).trans (if_neg plain)
      · rw [if_neg blocks, if_neg fun both => blocks both.1]
        rfl

end StorageScaleTest.Templates
