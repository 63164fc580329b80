import StorageScaleTest.Proof.Templates.Values
import Mathlib.Data.List.Permutation

/-!
# Rendering against substitution

When a renderer that accepts its assignments replaces exactly the placeholders of the template.
-/

namespace StorageScaleTest.Templates
open Shell Targets Markers

/-- In any order of the assignments the renderer puts the values in the place of the placeholders
of the template, and on the way it replaces nothing else. -/
structure Simultaneous (script : Text) (renderer : Renderer) (template : Text)
    (assignments : List Text) : Prop where
  output : ∀ order, order.Perm assignments →
    render script renderer template order =
      some (substituted (renderer.source template) assignments)
  steps : ∀ order, order.Perm assignments →
    Stepwise '@' ((renderer.schedule order).map entry)
      (slots (renderer.source template) assignments)

/-- The substitution leaves no delimiters, and in no order of the assignments a slot that is still
to be replaced ends where another begins, but for the name of a third. -/
structure Unconfused (renderer : Renderer) (template : Text) (assignments : List Text) : Prop where
  closed : ¬['@', '@'] <:+: substituted (renderer.source template) assignments
  separate : ∀ order, order.Perm assignments →
    Separate '@' ((renderer.schedule order).map entry)
      (slots (renderer.source template) assignments)

variable {script : Text} {renderer : Renderer} {assignments order : List Text}

/-! ## Checked assignments -/

theorem proper_placeholders : ∀ name ∈ placeholders.map Prod.fst, name ≠ [] ∧ '@' ∉ name := by
  decide +kernel

theorem proper_multilinePlaceholders (script : Text) :
    ∀ name ∈ (multilinePlaceholders script).map Prod.fst, name ≠ [] ∧ '@' ∉ name := by
  rw [multilinePlaceholders]
  simp only [List.map_cons, List.map_nil]
  decide +kernel

theorem admissible_of_plain {assignment : Text} (plain : plainAssignment assignment) :
    (entry assignment).Admissible '@' := by
  rw [plainAssignment, Bool.and_eq_true] at plain
  obtain ⟨check, mem, holds⟩ := exists_of_validatePlaceholder plain.2
  exact ⟨proper_placeholders _ (List.mem_map.mpr ⟨_, mem, rfl⟩), safe_placeholders _ mem _ holds⟩

theorem admissible_of_block {assignment : Text} (block : blockAssignment script assignment) :
    (entry assignment).Admissible '@' := by
  rw [blockAssignment, Bool.and_eq_true] at block
  obtain ⟨check, mem, holds⟩ := exists_of_validateMultilinePlaceholder block.2
  exact ⟨proper_multilinePlaceholders script _ (List.mem_map.mpr ⟨_, mem, rfl⟩),
    safe_multilinePlaceholders script _ mem _ holds⟩

theorem admissible_of_valid {assignment : Text} (valid : validAssignment script renderer assignment) :
    (entry assignment).Admissible '@' := by
  cases renderer with
  | template => exact admissible_of_plain valid
  | attempt =>
      rw [validAssignment] at valid
      split at valid
      · exact admissible_of_block valid
      · exact admissible_of_plain valid

/-! ## Orders of the assignments -/

theorem schedule_perm (renderer : Renderer) (assignments : List Text) :
    (renderer.schedule assignments).Perm assignments := by
  cases renderer with
  | template => exact List.Perm.refl _
  | attempt => exact List.filter_append_perm _ _

def schedules (renderer : Renderer) (assignments : List Text) : Set (List (Entry Char)) :=
  { entries | ∃ order, order.Perm assignments ∧ entries = (renderer.schedule order).map entry }

theorem mem_schedules (perm : order.Perm assignments) :
    (renderer.schedule order).map entry ∈ schedules renderer assignments :=
  ⟨order, perm, rfl⟩

theorem perm_of_schedules {entries : List (Entry Char)}
    (mem : entries ∈ schedules renderer assignments) : entries.Perm (assignments.map entry) := by
  obtain ⟨order, perm, rfl⟩ := mem
  exact ((schedule_perm renderer order).trans perm).map entry

theorem text_slots (source : Text) : Markers.text '@' (slots source assignments) = source :=
  text_parse _ source

theorem substituted_eq (source : Text) {entries : List (Entry Char)}
    (distinct : (assignments.map token).Nodup) (perm : entries.Perm (assignments.map entry)) :
    Markers.text '@' (fill (table entries) (slots source assignments)) =
      substituted source assignments := by
  have names : ((assignments.map entry).map Entry.name).Nodup := by
    rw [List.map_map]
    exact distinct
  rw [substituted, table_perm names perm]

theorem resolved_eq_some {rendered result : Text} :
    resolved rendered = some result ↔ rendered = result ∧ ¬['@', '@'] <:+: result := by
  rw [resolved]
  split
  case isTrue left =>
    constructor
    · intro impossible
      cases impossible
    · intro ⟨eq, closed⟩
      exact absurd (eq ▸ left) closed
  case isFalse closed =>
    rw [Option.some.injEq]
    exact ⟨fun eq => ⟨eq, eq ▸ closed⟩, And.left⟩

theorem render_eq_some {template result : Text} :
    render script renderer template assignments = some result ↔
      assignments.all (validAssignment script renderer) ∧
        progress '@' ((renderer.schedule assignments).map entry) (renderer.source template) =
          some result ∧ ¬['@', '@'] <:+: result := by
  rw [render_eq]
  by_cases valid : assignments.all (validAssignment script renderer)
  · rw [if_pos valid, Option.bind_eq_some_iff]
    constructor
    · intro ⟨rendered, finished, last⟩
      obtain ⟨rfl, closed⟩ := resolved_eq_some.mp last
      exact ⟨valid, finished, closed⟩
    · intro ⟨_, finished, closed⟩
      exact ⟨result, finished, resolved_eq_some.mpr ⟨rfl, closed⟩⟩
  · simp [valid]

section

variable (valid : assignments.all (validAssignment script renderer))
include valid

theorem admissible_of_all {entries : List (Entry Char)}
    (mem : entries ∈ schedules renderer assignments) : ∀ e ∈ entries, e.Admissible '@' := by
  intro e in_
  obtain ⟨assignment, given, rfl⟩ :=
    List.mem_map.mp ((perm_of_schedules mem).mem_iff.mp in_)
  exact admissible_of_valid (List.all_eq_true.mp valid assignment given)

theorem proper_slots (source : Text) : ProperSlots '@' (slots source assignments) := by
  intro name mem
  obtain ⟨assignment, given, rfl⟩ := List.mem_map.mp (slot_mem_parseFrom mem)
  exact (admissible_of_valid (List.all_eq_true.mp valid assignment given)).proper

end

/-- A renderer that accepts its assignments substitutes all placeholders at once, whatever the order
of the assignments, exactly if no placeholders are confused on the way. -/
theorem rendering_simultaneous (script : Text) (renderer : Renderer) (template : Text)
    (assignments : List Text)
    (accepted : (render script renderer template assignments).isSome)
    (distinct : (assignments.map token).Nodup) :
    Simultaneous script renderer template assignments ↔
      Unconfused renderer template assignments := by
  obtain ⟨result, accepted⟩ := Option.isSome_iff_exists.mp accepted
  obtain ⟨valid, finished, -⟩ := render_eq_some.mp accepted
  set source := renderer.source template with source_eq
  have mine : (renderer.schedule assignments).map entry ∈ schedules renderer assignments :=
    mem_schedules (List.Perm.refl assignments)
  have perm := perm_of_schedules mine
  have names : (((renderer.schedule assignments).map entry).map Entry.name).Nodup := by
    rw [List.map_map]
    exact ((schedule_perm renderer assignments).map token).nodup_iff.mpr distinct
  have iff (closed : ¬['@', '@'] <:+: substituted source assignments) :
      (∀ entries ∈ schedules renderer assignments,
        Stepwise '@' entries (slots source assignments)) ↔
      ∀ entries ∈ schedules renderer assignments,
        Separate '@' entries (slots source assignments) :=
    stepwise_iff (proper_slots valid source) (admissible_of_all valid mine) names
      (fun entries mem => (perm_of_schedules mem).trans perm.symm) mine
      ((text_slots source).symm ▸ finished) ((substituted_eq source distinct perm).symm ▸ closed)
  constructor
  · intro simultaneous
    have closed := (render_eq_some.mp (simultaneous.output assignments (List.Perm.refl _))).2.2
    refine ⟨closed, fun order perm => (iff closed).mp ?_ _ (mem_schedules perm)⟩
    rintro _ ⟨order, perm, rfl⟩
    exact simultaneous.steps order perm
  · intro unconfused
    have steps (order : List Text) (perm : order.Perm assignments) :
        Stepwise '@' ((renderer.schedule order).map entry) (slots source assignments) := by
      refine (iff unconfused.closed).mpr ?_ _ (mem_schedules perm)
      rintro _ ⟨order, perm, rfl⟩
      exact unconfused.separate order perm
    refine ⟨fun order perm => ?_, steps⟩
    have whole := steps order perm _ [] (List.append_nil _).symm
    rw [text_slots, substituted_eq source distinct (perm_of_schedules (mem_schedules perm))] at whole
    refine render_eq_some.mpr ⟨?_, whole, unconfused.closed⟩
    rw [List.all_eq_true] at valid ⊢
    exact fun assignment mem => valid assignment (perm.mem_iff.mp mem)

def podTemplate : Text := "image: @@IMAGE@@ id: @@ATTEMPT_ID@@".toList

def podImage : Text := "IMAGE=registry/elbencho:3".toList

def markedImage : Text := "IMAGE=x@@ATTEMPT_ID@@".toList

def podAttempt : Text := "ATTEMPT_ID=01234567".toList

theorem infix_of_confusable {name : Text} {items : List (Item Char)}
    (confusable : Confusable '@' name items) : name.map Item.char <:+: items := by
  obtain ⟨front, other, _, rfl, -, before, after, next, rest, -, -, rfl⟩ := confusable
  refine ⟨front ++ .slot other :: before.map .char, after.map .char ++ .slot next :: rest, ?_⟩
  simp only [List.map_append, List.append_assoc, List.cons_append]

theorem separate_pair {a b : Markers.Entry Char} {items : List (Item Char)}
    (first : ¬a.name.map Item.char <:+: items)
    (second : ¬b.name.map Item.char <:+: fill (table [a]) items) : Separate '@' [a, b] items := by
  intro done entry rest split confusable
  have spelled := infix_of_confusable confusable
  match done with
  | [] =>
      obtain ⟨same, -⟩ := List.cons.inj split
      rw [fill_table_nil, ← same] at spelled
      exact first spelled
  | [a'] =>
      obtain ⟨same, tail⟩ := List.cons.inj split
      obtain ⟨same', -⟩ := List.cons.inj tail
      rw [← same, ← same'] at spelled
      exact second spelled
  | _ :: _ :: done => simp at split

theorem rendering_simultaneous_pod :
    Unconfused .template podTemplate [podImage, podAttempt] ∧
      Simultaneous [] .template podTemplate [podImage, podAttempt] := by
  have unconfused : Unconfused .template podTemplate [podImage, podAttempt] := by
    refine ⟨by decide +kernel, fun order perm => ?_⟩
    rcases List.perm_pair.mp perm with rfl | rfl
    · exact separate_pair (by decide +kernel) (by decide +kernel)
    · exact separate_pair (by decide +kernel) (by decide +kernel)
  exact ⟨unconfused, (rendering_simultaneous [] .template podTemplate [podImage, podAttempt]
    (by decide +kernel) (by decide +kernel)).mpr unconfused⟩

/-- The attempt is substituted in the name of the image, and the other order is refused. -/
theorem rendering_marked_image :
    ([markedImage, podAttempt].map token).Nodup ∧
      render [] .template podTemplate [markedImage, podAttempt] =
        some "image: x01234567 id: 01234567".toList ∧
      substituted podTemplate [markedImage, podAttempt] =
        "image: x@@ATTEMPT_ID@@ id: 01234567".toList ∧
      render [] .template podTemplate [podAttempt, markedImage] = none ∧
      ¬Simultaneous [] .template podTemplate [markedImage, podAttempt] := by
  have rendered : render [] .template podTemplate [markedImage, podAttempt] =
      some "image: x01234567 id: 01234567".toList := by
    decide +kernel
  have refused : render [] .template podTemplate [podAttempt, markedImage] = none := by
    decide +kernel
  refine ⟨by decide +kernel, rendered, by decide +kernel, refused, fun simultaneous => ?_⟩
  have accepted := simultaneous.output [podAttempt, markedImage] (List.Perm.swap _ _ _)
  rw [refused] at accepted
  cases accepted

end StorageScaleTest.Templates
