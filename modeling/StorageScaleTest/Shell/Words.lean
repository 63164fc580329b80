import Mathlib.Data.List.TakeWhile
import Mathlib.Data.Nat.Digits.Defs

/-!
# Numbers and fields of the shell

What the shell reads from a string of digits, what `printf` writes, and how `read` splits a line
at a separator that is no blank.
-/

namespace Shell

instance lawfulBEqWord : @LawfulBEq (List Char) List.instBEq := List.instLawfulBEq

/-! ## Numbers -/

def isDigits (word : List Char) : Bool := word ≠ [] && word.all Char.isDigit

/-- Arithmetic is done in 64 bits. -/
def wrap (n : Int) : Int := (n + 2 ^ 63) % 2 ^ 64 - 2 ^ 63

/-- A string of digits in an arithmetic expression: octal after a leading zero. -/
def arithmetic (word : List Char) : Option Int :=
  match word with
  | '0' :: digits =>
    if digits.all (· < '8') then some (wrap (Nat.ofDigitChars 8 digits 0)) else none
  | digits => some (wrap (Nat.ofDigitChars 10 digits 0))

/-- `[[ a -lt b ]]`, which is false where an operand is no number. -/
def lessThan (a b : Option Int) : Bool :=
  match a, b with
  | some a, some b => a < b
  | _, _ => false

def equal (a b : Option Int) : Bool :=
  match a, b with
  | some a, some b => a = b
  | _, _ => false

/-- The number `printf` reads from a string of digits, up to the first that is no octal one after a
leading zero, and at most the largest integer. -/
def printfNumber (word : List Char) : Nat :=
  min (2 ^ 63 - 1) (match word with
    | '0' :: digits => Nat.ofDigitChars 8 (digits.takeWhile (· < '8')) 0
    | digits => Nat.ofDigitChars 10 digits 0)

/-- `%0<width>d` -/
def pad (width n : Nat) : List Char :=
  List.replicate (width - (Nat.toDigits 10 n).length) '0' ++ Nat.toDigits 10 n

theorem pad_digit {width n : Nat} {c : Char} (mem : c ∈ pad width n) : c.isDigit = true := by
  rcases List.mem_append.mp mem with zero | digit
  · rw [(List.mem_replicate.mp zero).2]
    rfl
  · exact Nat.isDigit_of_mem_toDigits (by decide) (by decide) digit

theorem ofDigitChars_pad (width n : Nat) : Nat.ofDigitChars 10 (pad width n) 0 = n := by
  rw [pad, Nat.ofDigitChars_append, Nat.ofDigitChars_replicate_zero, Nat.mul_zero]
  exact Nat.ofDigitChars_ten_toDigits

theorem pad_injective {width m n : Nat} (same : pad width m = pad width n) : m = n := by
  rw [← ofDigitChars_pad width m, same, ofDigitChars_pad]

/-! ## Shapes -/

/-- `^[0-9]{4}$` -/
def isCellId (id : List Char) : Bool := id.length = 4 && id.all Char.isDigit

/-- `^[0-9a-f]{<digits>}$` -/
def hex (digits : Nat) (word : List Char) : Bool :=
  word.length = digits && word.all fun c => c.isDigit || 'a' ≤ c && c ≤ 'f'

/-- `^[0-9]{8}Z[0-9]{6}$` -/
def isDatestamp (word : List Char) : Bool :=
  match word.drop 8 with
  | 'Z' :: time => (word.take 8).all Char.isDigit && time.length = 6 && time.all Char.isDigit
  | _ => false

/-- `[-A-Za-z0-9._/]` -/
def isPathChar (c : Char) : Bool :=
  c.isAlphanum || c = '.' || c = '_' || c = '/' || c = '-'

/-! ## Fields -/

/-- The first line of a value, which is all that `read` takes. -/
def firstLine (value : List Char) : List Char := value.takeWhile (· ≠ '\n')

/-- The fields of `IFS=<separator> read -ra`: a trailing separator ends the last field. -/
def fields (separator : Char) (value : List Char) : List (List Char) :=
  let parts := (firstLine value).splitOn separator
  if parts.getLast? = some [] then parts.dropLast else parts

def join (separator : Char) (words : List (List Char)) : List Char := [separator].intercalate words

theorem firstLine_eq {value : List Char} (single : '\n' ∉ value) : firstLine value = value := by
  apply List.takeWhile_eq_self_iff.mpr
  intro c mem
  have other : c ≠ '\n' := fun eq => single (eq ▸ mem)
  simpa using other

theorem not_mem_join {separator c : Char} {words : List (List Char)} (other : c ≠ separator)
    (absent : ∀ word ∈ words, c ∉ word) : c ∉ join separator words := by
  induction words with
  | nil => simp [join]
  | cons word rest ih =>
      have tail := ih fun word mem => absent word (List.mem_cons_of_mem _ mem)
      cases rest with
      | nil => simpa [join] using absent word List.mem_cons_self
      | cons next rest =>
          simp only [join, List.intercalate_cons_cons, List.mem_append, List.mem_singleton] at tail ⊢
          rintro ((first | sep) | later)
          · exact absent word List.mem_cons_self first
          · exact other sep
          · exact tail later

theorem fields_join {separator : Char} {words : List (List Char)} (newline : separator ≠ '\n')
    (some_ : words ≠ []) (nonempty : ∀ word ∈ words, word ≠ [])
    (plain : ∀ word ∈ words, separator ∉ word ∧ '\n' ∉ word) :
    fields separator (join separator words) = words := by
  have single : '\n' ∉ join separator words :=
    not_mem_join (Ne.symm newline) fun word mem => (plain word mem).2
  have parts : (join separator words).splitOn separator = words :=
    List.splitOn_intercalate separator (fun word mem => (plain word mem).1) some_
  unfold fields
  rw [firstLine_eq single, parts, if_neg]
  intro last
  exact nonempty [] (List.mem_of_getLast? last) rfl

theorem not_mem_of_mem_splitOn {separator : Char} {value part : List Char}
    (mem : part ∈ value.splitOn separator) : separator ∉ part := by
  induction value generalizing part with
  | nil =>
      rw [List.splitOn_nil, List.mem_singleton] at mem
      rw [mem]
      exact List.not_mem_nil
  | cons c rest ih =>
      rw [List.splitOn_cons_eq_if_modifyHead] at mem
      split at mem
      · rcases List.mem_cons.mp mem with rfl | mem
        · exact List.not_mem_nil
        · exact ih mem
      · rename_i other
        cases parts : rest.splitOn separator with
        | nil => exact absurd parts (List.splitOn_ne_nil _ _)
        | cons head tail =>
            rw [parts, List.modifyHead_cons] at mem
            rcases List.mem_cons.mp mem with rfl | mem
            · have absent := ih (parts ▸ List.mem_cons_self)
              simp only [List.mem_cons, not_or]
              exact ⟨fun eq => other (by simp [eq]), absent⟩
            · exact ih (parts ▸ List.mem_cons_of_mem _ mem)

/-! ## Separated prefixes -/

theorem append_separator_inj {separator : Char} {a b rest rest' : List Char} (left : separator ∉ a)
    (right : separator ∉ b) (same : a ++ separator :: rest = b ++ separator :: rest') :
    a = b ∧ rest = rest' := by
  induction a generalizing b with
  | nil =>
      cases b with
      | nil => exact ⟨rfl, (List.cons.inj same).2⟩
      | cons c b =>
          have eq := (List.cons.inj same).1
          exact absurd (eq ▸ List.mem_cons_self) right
  | cons c a ih =>
      cases b with
      | nil =>
          have eq := (List.cons.inj same).1
          exact absurd (eq ▸ List.mem_cons_self) left
      | cons d b =>
          obtain ⟨rfl, tail⟩ := List.cons.inj same
          obtain ⟨rfl, eq⟩ := ih (fun mem => left (List.mem_cons_of_mem _ mem))
            (fun mem => right (List.mem_cons_of_mem _ mem)) tail
          exact ⟨rfl, eq⟩

end Shell
