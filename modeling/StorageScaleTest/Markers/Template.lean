import StorageScaleTest.Markers.Search

/-!
# Marked templates

A template is a text with slots, each written as a name between doubled delimiters. The replacement
of a marker in its text against the substitution of its slots.
-/

namespace Markers

variable {α : Type}

/-! ## Templates -/

inductive Item (α : Type)
  | char (a : α)
  | slot (name : List α)
  deriving DecidableEq

variable (d : α)

def marker (name : List α) : List α := d :: d :: (name ++ [d, d])

def Item.text : Item α → List α
  | .char a => [a]
  | .slot name => marker d name

def text (items : List (Item α)) : List α := items.flatMap (Item.text d)

def parseFrom [DecidableEq α] (names : List (List α)) : Nat → List α → List (Item α)
  | _, [] => []
  | skip + 1, _ :: rest => parseFrom names skip rest
  | 0, a :: rest =>
    match names.find? fun name => marker d name <+: a :: rest with
    | some name => .slot name :: parseFrom names ((marker d name).length - 1) rest
    | none => .char a :: parseFrom names 0 rest

def parse [DecidableEq α] (names : List (List α)) (text : List α) : List (Item α) :=
  parseFrom d names 0 text

def fill (value : List α → Option (List α)) (items : List (Item α)) : List (Item α) :=
  items.flatMap fun
    | .char a => [.char a]
    | .slot name => ((value name).map fun word => word.map Item.char).getD [.slot name]

def single [DecidableEq α] (name word : List α) : List α → Option (List α) := fun name' =>
  if name' = name then some word else none

def Unpaired (items : List (Item α)) : Prop := ¬[.char d, .char d] <:+: items

/-- The items between two slots that spell a name, with at most one delimiter on each side. -/
def Spells (name : List α) (items : List (Item α)) : Prop :=
  ∃ before after next rest, before ∈ [[], [d]] ∧ after ∈ [[], [d]] ∧
    items = (before ++ name ++ after).map Item.char ++ .slot next :: rest

/-- The closing delimiters of a slot and the opening ones of the next enclose the name of a third. -/
def Confusable (name : List α) (items : List (Item α)) : Prop :=
  ∃ front other rest, items = front ++ .slot other :: rest ∧ other ≠ name ∧ Spells d name rest

def Proper (name : List α) : Prop := name ≠ [] ∧ d ∉ name

def ProperSlots (items : List (Item α)) : Prop := ∀ name, .slot name ∈ items → Proper d name

variable {d} {name word : List α} {items : List (Item α)}

@[simp] theorem text_nil : text d [] = [] := rfl

@[simp] theorem text_cons (item : Item α) : text d (item :: items) = item.text d ++ text d items :=
  List.flatMap_cons

@[simp] theorem text_append (items' : List (Item α)) :
    text d (items ++ items') = text d items ++ text d items' :=
  List.flatMap_append

theorem text_map_char : text d (word.map Item.char) = word := by
  induction word with
  | nil => rfl
  | cons a word ih => rw [List.map_cons, text_cons, ih]; rfl

theorem fill_append (value : List α → Option (List α)) (front back : List (Item α)) :
    fill value (front ++ back) = fill value front ++ fill value back :=
  List.flatMap_append

theorem fill_cons (value : List α → Option (List α)) (item : Item α) (items : List (Item α)) :
    fill value (item :: items) = fill value [item] ++ fill value items :=
  fill_append value [item] items

theorem fill_map_char (value : List α → Option (List α)) (word : List α) :
    fill value (word.map Item.char) = word.map Item.char := by
  induction word with
  | nil => rfl
  | cons a word ih =>
      rw [List.map_cons, fill_cons, ih]
      rfl

theorem marker_ne_nil : marker d name ≠ [] := List.cons_ne_nil _ _

theorem text_parseFrom [DecidableEq α] (names : List (List α)) (skip : Nat) (template : List α) :
    text d (parseFrom d names skip template) = template.drop skip := by
  induction template generalizing skip with
  | nil => cases skip <;> rfl
  | cons a rest ih =>
      cases skip with
      | succ skip => exact ih skip
      | zero =>
          rw [parseFrom]
          split
          case h_1 name found =>
            have here : marker d name <+: a :: rest := of_decide_eq_true (List.find?_some found :)
            obtain ⟨back, eq⟩ := here
            rw [text_cons, ih, Item.text, List.drop_zero]
            have rest_eq : rest = d :: (name ++ [d, d]) ++ back := (List.cons.inj eq).2.symm
            conv_rhs => rw [← eq]
            rw [rest_eq]
            simp [marker]
          case h_2 =>
            rw [text_cons, ih]
            rfl

theorem text_parse [DecidableEq α] (names : List (List α)) (template : List α) :
    text d (parse d names template) = template :=
  text_parseFrom names 0 template

theorem slot_mem_parseFrom [DecidableEq α] {names : List (List α)} {skip : Nat}
    {template : List α} (mem : Item.slot name ∈ parseFrom d names skip template) : name ∈ names := by
  induction template generalizing skip with
  | nil => cases skip <;> cases mem
  | cons a rest ih =>
      cases skip with
      | succ skip => exact ih mem
      | zero =>
          rw [parseFrom] at mem
          split at mem
          case h_1 other found =>
            rcases List.mem_cons.mp mem with eq | mem
            · rw [Item.slot.inj eq]
              exact List.mem_of_find?_eq_some found
            · exact ih mem
          case h_2 =>
            rcases List.mem_cons.mp mem with eq | mem
            · cases eq
            · exact ih mem

end Markers
