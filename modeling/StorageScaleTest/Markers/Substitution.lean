import StorageScaleTest.Markers.Template

/-!
# Replacement of a marker

In the text of a template without confusable names the replacement of a marker is the substitution
of its slots; with them it is not.
-/

namespace Markers

variable {α : Type} {d : α} {name other word : List α} {item : Item α} {items : List (Item α)}

/-! ## Parts of a template -/

theorem Unpaired.tail (unpaired : Unpaired d (item :: items)) : Unpaired d items :=
  fun pair => unpaired (pair.trans (List.suffix_cons item items).isInfix)

theorem Unpaired.head {a : α} (unpaired : Unpaired d (.char d :: .char a :: items)) : a ≠ d := by
  intro eq
  subst eq
  exact unpaired (List.prefix_append [Item.char a, Item.char a] items).isInfix

theorem ProperSlots.tail (proper : ProperSlots d (item :: items)) : ProperSlots d items :=
  fun name mem => proper name (List.mem_cons_of_mem _ mem)

theorem Proper.cons (proper : Proper d name) :
    ∃ a tail, name = a :: tail ∧ a ≠ d := by
  obtain ⟨a, tail, rfl⟩ := List.exists_cons_of_ne_nil proper.1
  exact ⟨a, tail, rfl, fun eq => proper.2 (eq ▸ List.mem_cons_self)⟩

theorem Confusable.cons (confusable : Confusable d name items) :
    Confusable d name (item :: items) := by
  obtain ⟨front, other, rest, rfl, ne, spells⟩ := confusable
  exact ⟨item :: front, other, rest, rfl, ne, spells⟩

theorem confusable_cons (confusable : Confusable d name (item :: items)) :
    (∃ other, item = .slot other ∧ other ≠ name ∧ Spells d name items) ∨
      Confusable d name items := by
  obtain ⟨front, other, rest, eq, ne, spells⟩ := confusable
  cases front with
  | nil =>
      cases eq
      exact Or.inl ⟨other, rfl, ne, spells⟩
  | cons _ front =>
      cases eq
      exact Or.inr ⟨front, other, rest, rfl, ne, spells⟩

/-! ## Names and delimiters -/

theorem opens (free : d ∉ name) (unpaired : Unpaired d items)
    (opening : name ++ [d, d] <+: text d items) :
    ∃ after next rest, after ∈ [[], [d]] ∧
      items = (name ++ after).map Item.char ++ .slot next :: rest := by
  induction name generalizing items with
  | nil =>
      match items with
      | [] => simp at opening
      | .slot next :: rest => exact ⟨[], next, rest, by simp, rfl⟩
      | [.char a] =>
          obtain ⟨-, short⟩ := List.cons_prefix_cons.mp opening
          simp at short
      | .char a :: .slot next :: rest =>
          obtain ⟨eq, -⟩ := List.cons_prefix_cons.mp opening
          subst eq
          exact ⟨[d], next, rest, by simp, rfl⟩
      | .char a :: .char b :: rest =>
          obtain ⟨eq, opening⟩ := List.cons_prefix_cons.mp opening
          obtain ⟨eq', -⟩ := List.cons_prefix_cons.mp opening
          subst eq
          exact absurd eq'.symm unpaired.head
  | cons a name ih =>
      rw [List.mem_cons, not_or] at free
      match items with
      | [] => simp at opening
      | .slot next :: rest =>
          obtain ⟨eq, -⟩ := List.cons_prefix_cons.mp opening
          exact absurd eq.symm free.1
      | .char b :: rest =>
          obtain ⟨eq, opening⟩ := List.cons_prefix_cons.mp opening
          obtain ⟨after, next, rest', short, eq'⟩ := ih free.2 unpaired.tail opening
          subst eq eq'
          exact ⟨after, next, rest', short, rfl⟩

theorem spells_of_opening (proper : Proper d name) (unpaired : Unpaired d items)
    (opening : name ++ [d, d] <+: text d items) : Spells d name items := by
  obtain ⟨after, next, rest, short, eq⟩ := opens proper.2 unpaired opening
  exact ⟨[], after, next, rest, by simp, short, eq⟩

theorem spells_of_delimiter (proper : Proper d name) (unpaired : Unpaired d items)
    (opening : d :: (name ++ [d, d]) <+: text d items) : Spells d name items := by
  match items with
  | [] => simp at opening
  | .slot next :: rest =>
      obtain ⟨a, tail, rfl, ne⟩ := proper.cons
      obtain ⟨-, opening⟩ := List.cons_prefix_cons.mp opening
      exact absurd (List.cons_prefix_cons.mp opening).1 ne
  | .char a :: rest =>
      obtain ⟨eq, opening⟩ := List.cons_prefix_cons.mp opening
      obtain ⟨after, next, rest', short, eq'⟩ := opens proper.2 unpaired.tail opening
      subst eq eq'
      exact ⟨[d], after, next, rest', by simp, short, rfl⟩

theorem front_eq {rest rest' : List α} (free : d ∉ name) (free' : d ∉ other)
    (eq : name ++ d :: rest = other ++ d :: rest') : name = other := by
  induction name generalizing other with
  | nil =>
      cases other with
      | nil => rfl
      | cons b other => exact absurd ((List.cons.inj eq).1 ▸ List.mem_cons_self) free'
  | cons a name ih =>
      cases other with
      | nil => exact absurd ((List.cons.inj eq).1 ▸ List.mem_cons_self) free
      | cons b other =>
          rw [List.mem_cons, not_or] at free free'
          obtain ⟨head, tail⟩ := List.cons.inj eq
          rw [head, ih free.2 free'.2 tail]

theorem not_marker_cons {a b : α} {back : List α} (ne : b ≠ d) :
    ¬marker d name <+: a :: b :: back := by
  intro occurs
  obtain ⟨-, occurs⟩ := List.cons_prefix_cons.mp occurs
  exact ne (List.cons_prefix_cons.mp occurs).1.symm

/-! ## Where no marker begins -/

theorem clear_of_notMem {front back : List α} (free : d ∉ front) :
    Clear (marker d name) front back := by
  induction front with
  | nil => trivial
  | cons a front ih =>
      rw [List.mem_cons, not_or] at free
      exact ⟨fun occurs => free.1 (List.cons_prefix_cons.mp occurs).1, ih free.2⟩

theorem clear_opening (proper : Proper d name) (proper' : Proper d other) (ne : other ≠ name)
    (back : List α) : Clear (marker d name) (d :: d :: other) (d :: back) := by
  refine ⟨fun occurs => ?_, ?_, clear_of_notMem proper'.2⟩
  · obtain ⟨-, occurs⟩ := List.cons_prefix_cons.mp occurs
    obtain ⟨-, rest, eq⟩ := List.cons_prefix_cons.mp occurs
    rw [List.append_assoc] at eq
    exact ne (front_eq proper.2 proper'.2 eq).symm
  · obtain ⟨b, tail, rfl, letter⟩ := proper'.cons
    exact not_marker_cons letter

theorem clear_marker (proper : Proper d name) (proper' : Proper d other) (ne : other ≠ name)
    {back : List α} (after : ¬name ++ [d, d] <+: back) (after' : ¬d :: (name ++ [d, d]) <+: back) :
    Clear (marker d name) (marker d other) back := by
  have split : marker d other = (d :: d :: other) ++ [d, d] := rfl
  rw [split, clear_append]
  refine ⟨clear_opening proper proper' ne _, fun occurs => ?_, fun occurs => ?_, trivial⟩
  · obtain ⟨-, occurs⟩ := List.cons_prefix_cons.mp occurs
    exact after (List.cons_prefix_cons.mp occurs).2
  · exact after' (List.cons_prefix_cons.mp occurs).2

theorem clear_item (proper : Proper d name) (slots : ProperSlots d (item :: items))
    (unpaired : Unpaired d (item :: items)) (ne : item ≠ .slot name)
    (apart : ∀ other, item = .slot other → ¬Spells d name items) :
    Clear (marker d name) (item.text d) (text d items) := by
  match item with
  | .slot other =>
      apply clear_marker proper (slots other List.mem_cons_self) fun eq => ne (eq ▸ rfl)
      · exact fun opening => apart other rfl (spells_of_opening proper unpaired.tail opening)
      · exact fun opening => apart other rfl (spells_of_delimiter proper unpaired.tail opening)
  | .char a =>
      refine ⟨fun occurs => ?_, trivial⟩
      obtain ⟨eq, opening⟩ := List.cons_prefix_cons.mp occurs
      subst eq
      match items with
      | [] => simp at opening
      | .char b :: rest => exact unpaired.head (List.cons_prefix_cons.mp opening).1.symm
      | .slot next :: rest =>
          obtain ⟨b, tail, rfl, letter⟩ := proper.cons
          obtain ⟨-, opening⟩ := List.cons_prefix_cons.mp opening
          exact letter (List.cons_prefix_cons.mp opening).1

/-! ## The substitution of one name -/

theorem text_fill_cons (value : List α → Option (List α)) :
    text d (fill value (item :: items)) =
      text d (fill value [item]) ++ text d (fill value items) := by
  rw [fill_cons, text_append]

variable [DecidableEq α]

theorem text_fill_slot : text d (fill (single name word) [.slot name]) = word := by
  simp [fill, single, text_map_char]

theorem text_fill_other (ne : item ≠ .slot name) :
    text d (fill (single name word) [item]) = item.text d := by
  match item with
  | .char a => rfl
  | .slot other =>
      have other_ne : other ≠ name := fun eq => ne (eq ▸ rfl)
      simp [fill, single, other_ne]

theorem replaceAll_text (proper : Proper d name) (slots : ProperSlots d items)
    (unpaired : Unpaired d items) (apart : ¬Confusable d name items) :
    replaceAll (marker d name) word (text d items) = text d (fill (single name word) items) := by
  induction items with
  | nil => rfl
  | cons item items ih =>
      have rest := ih slots.tail unpaired.tail fun confusable => apart confusable.cons
      rw [text_cons, text_fill_cons, ← rest]
      by_cases eq : item = .slot name
      · rw [eq, text_fill_slot]
        exact replaceAll_append marker_ne_nil _
      · have clear := clear_item proper slots unpaired eq fun other eq' spells =>
          apart ⟨[], other, items, by rw [eq']; rfl, fun same => eq (same ▸ eq'), spells⟩
        rw [clear.replaceAll, text_fill_other eq]

end Markers
