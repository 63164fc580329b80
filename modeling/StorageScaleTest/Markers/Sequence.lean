import StorageScaleTest.Markers.Substitution
import Mathlib.Data.List.Nodup

/-!
# Substitutions one after the other

Names are replaced in a text in turn, each in what the replacements before it have left. Exactly
where no names are confused on the way, every text is the template with the slots of the names so
far substituted.
-/

namespace Markers

variable {α : Type} [DecidableEq α] {d : α} {name other word : List α} {item : Item α}
  {items : List (Item α)}

/-! ## Occurrences -/

def occurrences (name : List α) : List (Item α) → Nat
  | [] => 0
  | .char _ :: items => occurrences name items
  | .slot other :: items => occurrences name items + if other = name then 1 else 0

theorem occurrences_append (front back : List (Item α)) :
    occurrences name (front ++ back) = occurrences name front + occurrences name back := by
  induction front with
  | nil => rw [List.nil_append, occurrences, Nat.zero_add]
  | cons item front ih =>
      cases item with
      | char a => exact ih
      | slot other => rw [List.cons_append, occurrences, occurrences, ih, Nat.add_right_comm]

theorem occurrences_pos : 0 < occurrences name items ↔ .slot name ∈ items := by
  induction items with
  | nil => simp [occurrences]
  | cons item items ih =>
      cases item with
      | char a => simp [occurrences, ih]
      | slot other =>
          by_cases eq : other = name
          · simp [occurrences, eq]
          · have ne : name ≠ other := fun same => eq same.symm
            simp [occurrences, eq, ne, ih]

theorem occurrences_fill {value : List α → Option (List α)} (pending : value name = none) :
    occurrences name (fill value items) = occurrences name items := by
  induction items with
  | nil => rfl
  | cons item items ih =>
      rw [fill_cons, occurrences_append, ih]
      have chars (word : List α) : occurrences name (word.map Item.char) = 0 := by
        induction word with
        | nil => rfl
        | cons a word ih => exact ih
      cases item with
      | char a => exact Nat.zero_add _
      | slot other =>
          by_cases eq : other = name
          · subst eq
            simp [fill, pending, occurrences, Nat.add_comm]
          · cases value_eq : value other with
            | none => simp [fill, value_eq, occurrences, eq]
            | some word => simp [fill, value_eq, occurrences, eq, chars]

theorem cut_text_none (proper : Proper d name) (slots : ProperSlots d items)
    (unpaired : Unpaired d items) (apart : ¬Confusable d name items)
    (absent : occurrences name items = 0) : cut (marker d name) (text d items) = none := by
  induction items with
  | nil => rfl
  | cons item items ih =>
      have ne : item ≠ .slot name := fun eq =>
        absurd (occurrences_pos.mpr (eq ▸ List.mem_cons_self)) (Nat.not_lt.mpr absent.le)
      have clear := clear_item proper slots unpaired ne fun other eq spells =>
        apart ⟨[], other, items, by rw [eq]; rfl, fun same => ne (same ▸ eq), spells⟩
      have rest : occurrences name items = 0 := by
        cases item with
        | char a => exact absent
        | slot other => exact (Nat.add_eq_zero_iff.mp absent).1
      rw [text_cons, clear.cut, ih slots.tail unpaired.tail (fun confusable =>
        apart confusable.cons) rest]
      rfl

theorem cut_text_some (proper : Proper d name) (slots : ProperSlots d items)
    (unpaired : Unpaired d items) (apart : ¬Confusable d name items)
    (present : 0 < occurrences name items) :
    ∃ front back, items = front ++ .slot name :: back ∧
      cut (marker d name) (text d items) = some (text d front, text d back) ∧
      occurrences name items = occurrences name back + 1 := by
  induction items with
  | nil => exact absurd present (Nat.lt_irrefl 0)
  | cons item items ih =>
      by_cases eq : item = .slot name
      · subst eq
        exact ⟨[], items, rfl, cut_append marker_ne_nil _, by simp [occurrences]⟩
      · have clear := clear_item proper slots unpaired eq fun other eq' spells =>
          apart ⟨[], other, items, by rw [eq']; rfl, fun same => eq (same ▸ eq'), spells⟩
        have same : occurrences name (item :: items) = occurrences name items := by
          cases item with
          | char a => rfl
          | slot other => simp [occurrences, show other ≠ name from fun same => eq (same ▸ rfl)]
        obtain ⟨front, back, split, found, count⟩ := ih slots.tail unpaired.tail
          (fun confusable => apart confusable.cons) (same ▸ present)
        refine ⟨item :: front, back, by rw [split]; rfl, ?_, same.trans count⟩
        rw [text_cons, clear.cut, found, text_cons]
        rfl

theorem infix_text_iff (proper : Proper d name) (slots : ProperSlots d items)
    (unpaired : Unpaired d items) (apart : ¬Confusable d name items) :
    marker d name <:+: text d items ↔ 0 < occurrences name items := by
  constructor
  · intro occurs
    by_contra absent
    have none := cut_text_none proper slots unpaired apart (Nat.eq_zero_of_not_pos absent)
    exact (cut_eq_none marker_ne_nil).mp none occurs
  · intro present
    obtain ⟨front, back, -, found, -⟩ := cut_text_some proper slots unpaired apart present
    exact ⟨text d front, text d back, (cut_eq_some found).symm⟩

/-! ## Confused names -/

omit [DecidableEq α] in
theorem not_marker_third (proper : Proper d name) (back : List α) :
    ¬marker d name <+: d :: d :: d :: back := by
  intro occurs
  obtain ⟨a, tail, rfl, ne⟩ := proper.cons
  obtain ⟨-, occurs⟩ := List.cons_prefix_cons.mp occurs
  obtain ⟨-, occurs⟩ := List.cons_prefix_cons.mp occurs
  exact ne (List.cons_prefix_cons.mp occurs).1

/-- What is left of the opening delimiters of the next slot, when the others are replaced. -/
theorem replaceAll_leftover (proper : Proper d other) {after : List α} (short : after ∈ [[], [d]])
    (back : List α) :
    ∃ b rest, b ≠ d ∧ replaceAll (marker d name) word (after ++ (other ++ back)) =
      after ++ b :: rest := by
  obtain ⟨b, tail, rfl, ne⟩ := proper.cons
  have first (rest : List α) : ¬marker d name <+: b :: rest := fun occurs =>
    ne (List.cons_prefix_cons.mp occurs).1.symm
  refine ⟨b, replaceAll (marker d name) word (tail ++ back), ne, ?_⟩
  rw [List.mem_cons, List.mem_singleton] at short
  rcases short with rfl | rfl
  · exact replaceAll_cons (first _)
  · rw [List.singleton_append, List.cons_append, replaceAll_cons (not_marker_cons ne),
      replaceAll_cons (first _)]
    rfl

/-- Where names are confused, the replacement of a marker takes delimiters of two slots. -/
theorem replaceAll_ne_of_spells (proper : Proper d name) (proper' : Proper d other)
    (slots : ProperSlots d items) (ne : other ≠ name) (spells : Spells d name items)
    (begins : word.head? ≠ some d) :
    replaceAll (marker d name) word (text d (.slot other :: items)) ≠
      text d (fill (single name word) (.slot other :: items)) := by
  obtain ⟨before, after, next, rest, short, short', rfl⟩ := spells
  have proper_next := slots next (List.mem_append_right _ List.mem_cons_self)
  have shift : [d, d] ++ before = before ++ [d, d] := by
    rw [List.mem_cons, List.mem_singleton] at short
    rcases short with rfl | rfl <;> rfl
  have shift' : after ++ [d, d] = [d, d] ++ after := by
    rw [List.mem_cons, List.mem_singleton] at short'
    rcases short' with rfl | rfl <;> rfl
  -- The marker of the name begins behind the opening delimiters of the slot and its name.
  have clear (back : List α) :
      Clear (marker d name) (d :: d :: other ++ before) (marker d name ++ back) := by
    rw [clear_append]
    rw [List.mem_cons, List.mem_singleton] at short
    rcases short with rfl | rfl
    · exact ⟨clear_opening proper proper' ne _, trivial⟩
    · exact ⟨clear_opening proper proper' ne _, not_marker_third proper _, trivial⟩
  have written : text d (.slot other :: ((before ++ name ++ after).map Item.char ++
        .slot next :: rest)) = d :: d :: other ++ before ++ (marker d name ++
          (after ++ (next ++ ([d, d] ++ text d rest)))) := by
    calc
      _ = d :: d :: other ++ (([d, d] ++ before) ++ (name ++ ((after ++ [d, d]) ++
            (next ++ ([d, d] ++ text d rest))))) := by
        rw [text_cons, text_append, text_map_char, text_cons]
        simp [Item.text, marker]
      _ = _ := by
        rw [shift, shift']
        simp [marker]
  have filled : ∃ back, text d (fill (single name word) (.slot other ::
      ((before ++ name ++ after).map Item.char ++ .slot next :: rest))) =
        d :: d :: other ++ before ++ d :: d :: back := by
    refine ⟨name ++ after ++ text d (fill (single name word) (.slot next :: rest)), ?_⟩
    calc
      _ = d :: d :: other ++ (([d, d] ++ before) ++ (name ++ after ++
            text d (fill (single name word) (.slot next :: rest)))) := by
        rw [text_fill_cons, text_fill_other fun eq => ne (Item.slot.inj eq), fill_append,
          fill_map_char, text_append, text_map_char]
        simp [Item.text, marker]
      _ = _ := by
        rw [shift]
        simp
  obtain ⟨back, filled⟩ := filled
  obtain ⟨b, left, letter, leftover⟩ : ∃ b left, b ≠ d ∧
      replaceAll (marker d name) word (after ++ (next ++ ([d, d] ++ text d rest))) =
        after ++ b :: left :=
    replaceAll_leftover proper_next short' _
  rw [written, filled, (clear _).replaceAll, replaceAll_append marker_ne_nil, leftover]
  intro same
  have same := List.append_cancel_left same
  cases word with
  | cons a word => exact begins (congrArg some (List.cons.inj same).1)
  | nil =>
      rw [List.mem_cons, List.mem_singleton] at short'
      rcases short' with rfl | rfl
      · exact letter (List.cons.inj same).1
      · exact letter (List.cons.inj (List.cons.inj same).2).1

theorem replaceAll_ne (proper : Proper d name) (slots : ProperSlots d items)
    (unpaired : Unpaired d items) (confusable : Confusable d name items)
    (begins : word.head? ≠ some d) :
    replaceAll (marker d name) word (text d items) ≠ text d (fill (single name word) items) := by
  induction items with
  | nil =>
      obtain ⟨front, other, rest, eq, -⟩ := confusable
      cases front <;> cases eq
  | cons item items ih =>
      by_cases here : ∃ other, item = .slot other ∧ other ≠ name ∧ Spells d name items
      · obtain ⟨other, rfl, ne, spells⟩ := here
        exact replaceAll_ne_of_spells proper (slots other List.mem_cons_self) slots.tail ne spells
          begins
      · have later := (confusable_cons confusable).resolve_left here
        intro same
        apply ih slots.tail unpaired.tail later
        rw [text_cons, text_fill_cons] at same
        by_cases eq : item = .slot name
        · rw [eq, text_fill_slot] at same
          exact List.append_cancel_left ((replaceAll_append marker_ne_nil _).symm.trans same)
        · have clear := clear_item proper slots unpaired eq fun other eq' spells =>
            here ⟨other, eq', fun same => eq (same ▸ eq'), spells⟩
          rw [clear.replaceAll, text_fill_other eq] at same
          exact List.append_cancel_left same

/-! ## Substitutions in turn -/

structure Entry (α : Type) where
  name : List α
  word : List α
  /-- A second marker is refused. -/
  once : Bool

def table (entries : List (Entry α)) (name : List α) : Option (List α) :=
  (entries.find? fun entry => entry.name = name).map Entry.word

variable (d)

def substitute (entry : Entry α) (rendered : List α) : Option (List α) :=
  match cut (marker d entry.name) rendered with
  | none => none
  | some (_, back) =>
    if entry.once ∧ marker d entry.name <:+: back then none
    else some (replaceAll (marker d entry.name) entry.word rendered)

def progress (entries : List (Entry α)) (template : List α) : Option (List α) :=
  entries.foldlM (fun rendered entry => substitute d entry rendered) template

/-- After any number of entries the text is the template with their slots substituted. -/
def Stepwise (entries : List (Entry α)) (items : List (Item α)) : Prop :=
  ∀ done rest, entries = done ++ rest →
    progress d done (text d items) = some (text d (fill (table done) items))

def Separate (entries : List (Entry α)) (items : List (Item α)) : Prop :=
  ∀ done entry rest, entries = done ++ entry :: rest →
    ¬Confusable d entry.name (fill (table done) items)

structure Entry.Admissible (entry : Entry α) : Prop where
  proper : Proper d entry.name
  begins : entry.word.head? ≠ some d

def Entry.Available (entry : Entry α) (items : List (Item α)) : Prop :=
  0 < occurrences entry.name items ∧ (entry.once → occurrences entry.name items = 1)

variable {d} {entry : Entry α} {entries done rest : List (Entry α)}

theorem table_append : table (done ++ rest) = fun name => (table done name).or (table rest name) := by
  funext name
  rw [table, List.find?_append, Option.map_or]
  rfl

theorem table_singleton : table [entry] = single entry.name entry.word := by
  funext name
  by_cases eq : entry.name = name
  · simp [table, single, eq]
  · simp [table, single, eq, Ne.symm eq]

theorem table_eq_none (new : name ∉ entries.map Entry.name) : table entries name = none := by
  rw [table, Option.map_eq_none_iff, List.find?_eq_none]
  intro entry mem
  rw [decide_eq_true_iff]
  exact fun eq => new (List.mem_map.mpr ⟨entry, mem, eq⟩)

theorem table_eq_some (distinct : (entries.map Entry.name).Nodup) :
    table entries name = some word ↔ ∃ entry ∈ entries, entry.name = name ∧ entry.word = word := by
  rw [table, Option.map_eq_some_iff]
  constructor
  · intro ⟨entry, found, eq⟩
    exact ⟨entry, List.mem_of_find?_eq_some found, of_decide_eq_true (List.find?_some found :), eq⟩
  · intro ⟨entry, mem, eq, eq'⟩
    have some_ : (entries.find? fun entry => entry.name = name).isSome :=
      List.find?_isSome.mpr ⟨entry, mem, decide_eq_true eq⟩
    obtain ⟨other, found⟩ := Option.isSome_iff_exists.mp some_
    have same : other = entry := List.inj_on_of_nodup_map distinct
      (List.mem_of_find?_eq_some found) mem
      ((of_decide_eq_true (List.find?_some found :) : other.name = name).trans eq.symm)
    exact ⟨other, found, same ▸ eq'⟩

theorem table_perm {order : List (Entry α)} (distinct : (entries.map Entry.name).Nodup)
    (perm : order.Perm entries) : table order = table entries := by
  funext name
  apply Option.ext
  intro word
  rw [table_eq_some distinct, table_eq_some ((perm.map Entry.name).nodup_iff.mpr distinct)]
  simp only [perm.mem_iff]

omit [DecidableEq α] in
theorem fill_fill (value value' : List α → Option (List α)) :
    fill value' (fill value items) = fill (fun name => (value name).or (value' name)) items := by
  induction items with
  | nil => rfl
  | cons item items ih =>
      rw [fill_cons, fill_append, ih, fill_cons _ item items]
      congr 1
      cases item with
      | char a => rfl
      | slot name =>
          cases eq : value name with
          | none => simp [fill, eq]
          | some word =>
              have chars := fill_map_char value' word
              simp only [fill, List.flatMap_cons, eq, Option.map_some, Option.getD_some,
                List.flatMap_nil, List.append_nil, Option.some_or] at chars ⊢
              exact chars

theorem fill_table_nil : fill (table ([] : List (Entry α))) items = items := by
  induction items with
  | nil => rfl
  | cons item items ih =>
      rw [fill_cons, ih]
      cases item <;> rfl

omit [DecidableEq α] in
theorem slot_mem_fill {value : List α → Option (List α)} (mem : .slot name ∈ fill value items) :
    Item.slot name ∈ items := by
  obtain ⟨item, here, mem⟩ := List.mem_flatMap.mp mem
  cases item with
  | char a => simp at mem
  | slot other =>
      cases eq : value other with
      | none =>
          simp [eq] at mem
          exact mem ▸ here
      | some word => simp [eq] at mem

omit [DecidableEq α] in
theorem Unpaired.of_fill {value : List α → Option (List α)} (unpaired : Unpaired d (fill value items)) :
    Unpaired d items :=
  fun pair => unpaired (List.IsInfix.flatMap pair _ : fill value [.char d, .char d] <:+: _)

omit [DecidableEq α] in
theorem Unpaired.of_text (unpaired : ¬[d, d] <:+: text d items) : Unpaired d items :=
  fun pair => unpaired (List.IsInfix.flatMap pair _ : text d [.char d, .char d] <:+: _)

/-! ## Every entry in turn -/

theorem substitute_eq {rendered result : List α} (done : substitute d entry rendered = some result) :
    result = replaceAll (marker d entry.name) entry.word rendered := by
  unfold substitute at done
  split at done
  · cases done
  · split at done
    · cases done
    · exact (Option.some.inj done).symm

theorem substitute_text (admissible : entry.Admissible d) (slots : ProperSlots d items)
    (unpaired : Unpaired d items) (apart : ¬Confusable d entry.name items) (result : List α) :
    substitute d entry (text d items) = some result ↔
      entry.Available items ∧ result = text d (fill (single entry.name entry.word) items) := by
  rw [← replaceAll_text admissible.proper slots unpaired apart]
  by_cases present : 0 < occurrences entry.name items
  · obtain ⟨front, back, split, found, count⟩ :=
      cut_text_some admissible.proper slots unpaired apart present
    have slots' : ProperSlots d back := fun name mem =>
      slots name (split ▸ List.mem_append_right _ (List.mem_cons_of_mem _ mem))
    have unpaired' : Unpaired d back := fun pair => unpaired
      (split ▸ (pair.trans ⟨front ++ [.slot entry.name], [], by simp⟩))
    have apart' : ¬Confusable d entry.name back := by
      intro ⟨front', other, rest, eq, ne, spells⟩
      exact apart ⟨front ++ .slot entry.name :: front', other, rest, by rw [split, eq]; simp, ne,
        spells⟩
    have again := infix_text_iff admissible.proper slots' unpaired' apart'
    simp only [substitute, found, again, Entry.Available]
    by_cases twice : entry.once ∧ 0 < occurrences entry.name back
    · have more : occurrences entry.name back ≠ 0 := twice.2.ne'
      simp [twice, count, more]
    · have once : entry.once → occurrences entry.name items = 1 := fun single => by
        have none : ¬0 < occurrences entry.name back := fun more => twice ⟨single, more⟩
        omega
      rw [if_neg twice, Option.some.injEq]
      exact ⟨fun eq => ⟨⟨present, once⟩, eq.symm⟩, fun ⟨_, eq⟩ => eq.symm⟩
  · have none := cut_text_none admissible.proper slots unpaired apart
      (Nat.eq_zero_of_not_pos present)
    simp [substitute, none, Entry.Available, present]

theorem progress_snoc (template : List α) :
    progress d (done ++ [entry]) template =
      (progress d done template).bind fun rendered => substitute d entry rendered := by
  rw [progress, List.foldlM_append]
  simp only [List.foldlM_cons, List.foldlM_nil, bind_pure]
  rfl

theorem available_fill (new : entry.name ∉ done.map Entry.name) :
    entry.Available (fill (table done) items) ↔ entry.Available items := by
  rw [Entry.Available, occurrences_fill (table_eq_none new)]
  rfl

theorem fill_snoc :
    fill (single entry.name entry.word) (fill (table done) items) =
      fill (table (done ++ [entry])) items := by
  rw [fill_fill, table_append, table_singleton]

theorem Unpaired.of_append (unpaired : Unpaired d (fill (table (done ++ rest)) items)) :
    Unpaired d (fill (table done) items) := by
  rw [table_append, ← fill_fill] at unpaired
  exact unpaired.of_fill

section

variable (slots : ProperSlots d items) (admissible : ∀ entry ∈ entries, entry.Admissible d)
  (distinct : (entries.map Entry.name).Nodup)
  (unpaired : Unpaired d (fill (table entries) items))

include slots admissible distinct unpaired

theorem substitute_next (split : entries = done ++ entry :: rest)
    (apart : ¬Confusable d entry.name (fill (table done) items)) (result : List α) :
    substitute d entry (text d (fill (table done) items)) = some result ↔
      entry.Available items ∧ result = text d (fill (table (done ++ [entry])) items) := by
  subst split
  rw [substitute_text (admissible entry (by simp)) (fun name mem => slots name (slot_mem_fill mem))
    unpaired.of_append apart, fill_snoc, available_fill]
  rw [List.map_append, List.map_cons, List.nodup_append] at distinct
  exact fun mem => distinct.2.2 _ mem _ List.mem_cons_self rfl

theorem progress_of_separate (separate : Separate d entries items) (split : entries = done ++ rest)
    {result : List α} (finished : progress d done (text d items) = some result) :
    result = text d (fill (table done) items) ∧ ∀ entry ∈ done, entry.Available items := by
  induction done using List.reverseRecOn generalizing rest result with
  | nil =>
      rw [fill_table_nil]
      exact ⟨(Option.some.inj finished).symm, by simp⟩
  | append_singleton done entry ih =>
      rw [List.append_assoc, List.singleton_append] at split
      rw [progress_snoc] at finished
      obtain ⟨rendered, before, last⟩ := Option.bind_eq_some_iff.mp finished
      obtain ⟨rfl, available⟩ := ih split before
      obtain ⟨here, eq⟩ := (substitute_next slots admissible distinct unpaired split
        (separate done entry rest split) result).mp last
      refine ⟨eq, fun other mem => ?_⟩
      rcases List.mem_append.mp mem with mem | mem
      · exact available other mem
      · exact List.mem_singleton.mp mem ▸ here

theorem stepwise_of_separate (separate : Separate d entries items)
    (available : ∀ entry ∈ entries, entry.Available items) : Stepwise d entries items := by
  intro done rest split
  induction done using List.reverseRecOn generalizing rest with
  | nil =>
      rw [fill_table_nil]
      rfl
  | append_singleton done entry ih =>
      rw [List.append_assoc, List.singleton_append] at split
      rw [progress_snoc, ih _ split, Option.bind_some]
      exact (substitute_next slots admissible distinct unpaired split
        (separate done entry rest split) _).mpr
          ⟨available entry (split ▸ List.mem_append_right _ List.mem_cons_self), rfl⟩

omit distinct in
theorem separate_of_stepwise (stepwise : Stepwise d entries items) : Separate d entries items := by
  intro done entry rest split confusable
  have before := stepwise done (entry :: rest) split
  have behind := stepwise (done ++ [entry]) rest (by simp [split])
  rw [progress_snoc, before, Option.bind_some] at behind
  have eq := substitute_eq behind
  rw [← fill_snoc] at eq
  have mine := admissible entry (split ▸ List.mem_append_right _ List.mem_cons_self)
  exact replaceAll_ne mine.proper (fun name mem => slots name (slot_mem_fill mem))
    (split ▸ unpaired : Unpaired d (fill (table (done ++ entry :: rest)) items)).of_append
    confusable mine.begins eq.symm

end

/-- A set of orders of some entries, one of which is accepted: in each of them the texts are the
template with slots substituted exactly if no delimiters are left, and no names are confused. -/
theorem stepwise_iff {orders : Set (List (Entry α))} (slots : ProperSlots d items)
    (admissible : ∀ entry ∈ entries, entry.Admissible d)
    (distinct : (entries.map Entry.name).Nodup) (perm : ∀ order ∈ orders, order.Perm entries)
    (mine : entries ∈ orders) {result : List α}
    (accepted : progress d entries (text d items) = some result)
    (closed : ¬[d, d] <:+: text d (fill (table entries) items)) :
    (∀ order ∈ orders, Stepwise d order items) ↔ ∀ order ∈ orders, Separate d order items := by
  have facts (order : List (Entry α)) (mem : order ∈ orders) :
      (∀ entry ∈ order, entry.Admissible d) ∧ (order.map Entry.name).Nodup ∧
        Unpaired d (fill (table order) items) :=
    ⟨fun entry in_ => admissible entry ((perm order mem).mem_iff.mp in_),
      ((perm order mem).map Entry.name).nodup_iff.mpr distinct,
      (table_perm distinct (perm order mem)).symm ▸ Unpaired.of_text closed⟩
  constructor
  · intro stepwise order mem
    obtain ⟨admissible', -, unpaired⟩ := facts order mem
    exact separate_of_stepwise slots admissible' unpaired (stepwise order mem)
  · intro separate order mem
    obtain ⟨admissible', distinct', unpaired⟩ := facts order mem
    have available := (progress_of_separate slots admissible distinct (Unpaired.of_text closed)
      (separate entries mine) (List.append_nil entries).symm accepted).2
    exact stepwise_of_separate slots admissible' distinct' unpaired (separate order mem)
      fun entry in_ => available entry ((perm order mem).mem_iff.mp in_)

end Markers
