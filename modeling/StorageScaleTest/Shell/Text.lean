import StorageScaleTest.Shell.Utf8
import StorageScaleTest.Shell.Words

/-!
# Lines, quoting and words

How `awk`, `read` and Python split a file into lines, what `printf %q` writes, and the words that
`shlex.split` finds.
-/

namespace Shell

/-! ## Order of padded numbers -/

theorem ofDigitChars_bounds {digits : List Char} (all : ∀ c ∈ digits, c.isDigit = true) (start : Nat) :
    10 ^ digits.length * start ≤ Nat.ofDigitChars 10 digits start ∧
      Nat.ofDigitChars 10 digits start < 10 ^ digits.length * (start + 1) := by
  induction digits generalizing start with
  | nil => simp
  | cons c rest ih =>
      have digit : c.toNat - '0'.toNat ≤ 9 := by
        have first := all c List.mem_cons_self
        simp only [Char.isDigit, Bool.and_eq_true, decide_eq_true_eq] at first
        have high : c.toNat ≤ 57 := first.2
        have zero : '0'.toNat = 48 := rfl
        omega
      obtain ⟨low, high⟩ := ih (fun d mem => all d (List.mem_cons_of_mem _ mem))
        (10 * start + (c.toNat - '0'.toNat))
      rw [Nat.ofDigitChars_cons, List.length_cons, pow_succ]
      constructor
      · refine le_trans ?_ low
        rw [mul_assoc]
        exact Nat.mul_le_mul_left _ (by omega)
      · refine lt_of_lt_of_le high ?_
        rw [mul_assoc]
        exact Nat.mul_le_mul_left _ (by omega)

theorem ofDigitChars_lt {a b : List Char} (length : a.length = b.length)
    (left : ∀ c ∈ a, c.isDigit = true) (right : ∀ c ∈ b, c.isDigit = true) (lt : a < b)
    (start : Nat) : Nat.ofDigitChars 10 a start < Nat.ofDigitChars 10 b start := by
  induction a generalizing b start with
  | nil =>
      cases b with
      | nil => exact absurd lt (by simp)
      | cons d b => cases length
  | cons c a ih =>
      cases b with
      | nil => cases length
      | cons d b =>
          rw [Nat.ofDigitChars_cons, Nat.ofDigitChars_cons]
          have length' : a.length = b.length := Nat.succ.inj length
          have left' := fun e mem => left e (List.mem_cons_of_mem _ mem)
          have right' := fun e mem => right e (List.mem_cons_of_mem _ mem)
          rcases List.cons_lt_cons_iff.mp lt with first | ⟨rfl, later⟩
          · have low := left c List.mem_cons_self
            simp only [Char.isDigit, Bool.and_eq_true, decide_eq_true_eq] at low
            have zero : '0'.toNat ≤ c.toNat := low.1
            have less : c.toNat < d.toNat := first
            have upper := (ofDigitChars_bounds left' (10 * start + (c.toNat - '0'.toNat))).2
            have lower := (ofDigitChars_bounds right' (10 * start + (d.toNat - '0'.toNat))).1
            refine lt_of_lt_of_le upper (le_trans ?_ lower)
            rw [length']
            exact Nat.mul_le_mul_left _ (by omega)
          · exact ih length' left' right' later _

theorem length_pad {width n : Nat} (fits : n < 10 ^ width) (some_ : 0 < width) :
    (pad width n).length = width := by
  have short := Nat.toDigits_length 10 n width some_ fits
  simp only [pad, List.length_append, List.length_replicate]
  omega

theorem pad_not_lt {width m n : Nat} (le : m ≤ n) (fits : n < 10 ^ width) (some_ : 0 < width) :
    ¬pad width n < pad width m := by
  intro lt
  have length : (pad width n).length = (pad width m).length := by
    rw [length_pad fits some_, length_pad (lt_of_le_of_lt le fits) some_]
  have values := ofDigitChars_lt length (fun c => pad_digit) (fun c => pad_digit) lt 0
  rw [ofDigitChars_pad, ofDigitChars_pad] at values
  omega

/-! ## Lines -/

def unlines (lines : List (List Char)) : List Char := lines.flatMap (· ++ ['\n'])

/-- The records of `awk`: a last line need not be ended. -/
def records (text : List Char) : List (List Char) :=
  let parts := text.splitOn '\n'
  if parts.getLast? = some [] then parts.dropLast else parts

/-- The lines of a `while read` loop: a last line that is not ended is dropped. -/
def readLines (text : List Char) : List (List Char) := (text.splitOn '\n').dropLast

/-- The characters at which Python's `splitlines` ends a line. -/
def isLineBreak (c : Char) : Bool :=
  c ∈ ['\n', '\r', '\x0b', '\x0c', '\x1c', '\x1d', '\x1e', '\x85', '\u2028', '\u2029']

def splitlinesFrom (current : List Char) : List Char → List (List Char)
  | [] => if current = [] then [] else [current]
  | '\r' :: '\n' :: rest => current :: splitlinesFrom [] rest
  | c :: rest =>
    if isLineBreak c then current :: splitlinesFrom [] rest
    else splitlinesFrom (current ++ [c]) rest

def splitlines (text : List Char) : List (List Char) := splitlinesFrom [] text

theorem splitOn_unlines {lines : List (List Char)} (plain : ∀ line ∈ lines, '\n' ∉ line) :
    (unlines lines).splitOn '\n' = lines ++ [[]] := by
  have text : unlines lines = ['\n'].intercalate (lines ++ [[]]) := by
    induction lines with
    | nil => rfl
    | cons line rest ih =>
        have tail := ih fun other mem => plain other (List.mem_cons_of_mem _ mem)
        unfold unlines at tail ⊢
        rw [List.flatMap_cons, tail]
        cases rest with
        | nil => simp
        | cons next rest => simp [List.intercalate_cons_cons]
  rw [text]
  apply List.splitOn_intercalate
  · intro line mem
    rcases List.mem_append.mp mem with left | last
    · exact plain line left
    · rw [List.mem_singleton.mp last]
      exact List.not_mem_nil
  · simp

theorem records_unlines {lines : List (List Char)} (plain : ∀ line ∈ lines, '\n' ∉ line) :
    records (unlines lines) = lines := by
  unfold records
  rw [splitOn_unlines plain]
  simp

theorem readLines_unlines {lines : List (List Char)} (plain : ∀ line ∈ lines, '\n' ∉ line) :
    readLines (unlines lines) = lines := by
  rw [readLines, splitOn_unlines plain, List.dropLast_concat]

theorem splitlinesFrom_line {current line rest : List Char}
    (plain : ∀ c ∈ line, isLineBreak c = false) :
    splitlinesFrom current (line ++ '\n' :: rest) = (current ++ line) :: splitlinesFrom [] rest := by
  induction line generalizing current with
  | nil =>
      rw [List.nil_append, List.append_nil, splitlinesFrom]
      · rfl
      · intro rest' eq
        cases eq
  | cons c line ih =>
      have first := plain c List.mem_cons_self
      have tail := @ih (current ++ [c]) fun d mem => plain d (List.mem_cons_of_mem _ mem)
      rw [List.cons_append, splitlinesFrom]
      · rw [if_neg (by simp [first]), tail, List.append_assoc, List.singleton_append]
      · intro rest' eq _
        rw [eq] at first
        cases first

theorem splitlines_unlines {lines : List (List Char)}
    (plain : ∀ line ∈ lines, ∀ c ∈ line, isLineBreak c = false) :
    splitlines (unlines lines) = lines := by
  unfold splitlines unlines
  induction lines with
  | nil => rfl
  | cons line rest ih =>
      have tail := ih fun other mem => plain other (List.mem_cons_of_mem _ mem)
      rw [List.flatMap_cons, List.append_assoc, List.singleton_append,
        splitlinesFrom_line (plain line List.mem_cons_self), tail, List.nil_append]

/-! ## Separated fields -/

theorem splitOn_join {separator : Char} {words : List (List Char)} (some_ : words ≠ [])
    (plain : ∀ word ∈ words, separator ∉ word) :
    (join separator words).splitOn separator = words :=
  List.splitOn_intercalate separator plain some_

/-! ## Quoting -/

/-- The characters that `printf %q` escapes with a backslash. -/
def isSpecial (c : Char) : Bool := c ∈ " !\"$&'()*,;<>?[\\]^`\x7b|\x7d".toList

/-- A comment character or a tilde is escaped where it has a meaning. -/
def isEscaped (previous : Option Char) (c : Char) : Bool :=
  isSpecial c || c = '#' && previous = none ||
    c = '~' && (previous = none || previous = some ':' || previous = some '=')

def quoteFrom : Option Char → List Char → List Char
  | _, [] => []
  | previous, c :: rest =>
    (if isEscaped previous c then ['\\', c] else [c]) ++ quoteFrom (some c) rest

def isControl (c : Char) : Bool := c.toNat < 32 || c.toNat = 127

/-- The characters that the locale prints: of ASCII those that are no control characters. -/
class Ctype where
  printable : Char → Bool
  ascii : ∀ c : Char, c.toNat < 128 → printable c = !isControl c

/-- The locale that prints nothing but ASCII. -/
@[reducible] def posix : Ctype where
  printable c := 32 ≤ c.toNat && c.toNat < 127
  ascii c small := by
    simp only [isControl]
    grind

/-- The escape of a byte in `$'…'`. -/
def octal (byte : Nat) : List Char :=
  ['\\', Nat.digitChar (byte / 64), Nat.digitChar (byte / 8 % 8), Nat.digitChar (byte % 8)]

section

variable [Ctype]

/-- The escape of a character in `$'…'`: that of each byte where it is not printable. -/
def escape (c : Char) : List Char :=
  match c.toNat with
  | 7 => ['\\', 'a']
  | 8 => ['\\', 'b']
  | 9 => ['\\', 't']
  | 10 => ['\\', 'n']
  | 11 => ['\\', 'v']
  | 12 => ['\\', 'f']
  | 13 => ['\\', 'r']
  | 27 => ['\\', 'E']
  | 39 => ['\\', '\'']
  | 92 => ['\\', '\\']
  | _ => if Ctype.printable c then [c] else (utf8 c).flatMap octal

def unprintable (word : List Char) : Bool := word.any fun c => !Ctype.printable c

/-- `printf %q` -/
def quote (word : List Char) : List Char :=
  if word = [] then ['\'', '\'']
  else if unprintable word then '$' :: '\'' :: (word.flatMap escape ++ ['\''])
  else quoteFrom none word

end

/-- A character that no tool quotes, splits at or escapes. -/
def isPlain (c : Char) : Bool := c.isAlphanum || c = '/' || c = '-' || c = '_' || c = '.' || c = ':'

theorem none_of_all {p : Char → Bool} {l : List Char} (all : (l.all fun c => !p c) = true) :
    ∀ c ∈ l, p c = false := by
  intro c mem
  simpa using List.all_eq_true.mp all c mem

theorem not_escaped_of_plain {c : Char} (plain : isPlain c = true) (previous : Option Char) :
    isEscaped previous c = false := by
  by_contra escaped
  have none : ∀ c ∈ " !\"$&'()*,;<>?[\\]^`\x7b|\x7d#~".toList, isPlain c = false :=
    none_of_all (by decide +kernel)
  have mem : c ∈ " !\"$&'()*,;<>?[\\]^`\x7b|\x7d#~".toList := by
    simp only [isEscaped, isSpecial, Bool.not_eq_false, Bool.or_eq_true, Bool.and_eq_true,
      decide_eq_true_eq] at escaped
    rcases escaped with (special | ⟨rfl, -⟩) | ⟨rfl, -⟩
    · exact List.mem_append_left ['#', '~'] special
    · decide +kernel
    · decide +kernel
  rw [none c mem] at plain
  cases plain

theorem not_control_of_plain {c : Char} (plain : isPlain c = true) : isControl c = false := by
  by_contra control
  simp only [isControl, Bool.not_eq_false, Bool.or_eq_true, decide_eq_true_eq] at control
  rw [← Char.ofNat_toNat c] at plain
  have below : ∀ n < 32, isPlain (Char.ofNat n) = false := by decide
  rcases control with small | delete
  · rw [below _ small] at plain
    cases plain
  · rw [delete] at plain
    cases plain

theorem quoteFrom_plain {word : List Char} (plain : ∀ c ∈ word, isPlain c = true)
    (previous : Option Char) : quoteFrom previous word = word := by
  induction word generalizing previous with
  | nil => rfl
  | cons c rest ih =>
      have tail := ih (fun d mem => plain d (List.mem_cons_of_mem _ mem)) (some c)
      rw [quoteFrom, not_escaped_of_plain (plain c List.mem_cons_self), tail]
      rfl

theorem not_mem_quoteFrom {d : Char} {word : List Char} (backslash : d ≠ '\\') (absent : d ∉ word)
    (previous : Option Char) : d ∉ quoteFrom previous word := by
  induction word generalizing previous with
  | nil => exact List.not_mem_nil
  | cons c rest ih =>
      rw [List.mem_cons, not_or] at absent
      rw [quoteFrom, List.mem_append, not_or]
      refine ⟨?_, ih absent.2 _⟩
      split
      · simpa using ⟨backslash, absent.1⟩
      · simpa using absent.1

theorem not_control_digitChar : ∀ n < 8, isControl (Nat.digitChar n) = false := by decide

theorem mem_octal {byte : Nat} (small : byte < 256) {d : Char} (mem : d ∈ octal byte) :
    d = '\\' ∨ ∃ n < 8, d = Nat.digitChar n := by
  simp only [octal, List.mem_cons, List.not_mem_nil, or_false] at mem
  rcases mem with rfl | rfl | rfl | rfl
  · exact .inl rfl
  · exact .inr ⟨_, by omega, rfl⟩
  · exact .inr ⟨_, by omega, rfl⟩
  · exact .inr ⟨_, by omega, rfl⟩

section

variable [Ctype]

theorem printable_of_plain {c : Char} (plain : isPlain c = true) : Ctype.printable c = true := by
  have small : c.toNat < 128 := by
    have bounded (high : UInt32) (within : c.val ≤ high) (ascii : high.toNat < 128) :
        c.toNat < 128 := lt_of_le_of_lt within ascii
    have letters := plain
    simp only [isPlain, Bool.or_eq_true, decide_eq_true_eq] at letters
    rcases letters with ((((alphanum | rfl) | rfl) | rfl) | rfl) | rfl
    · rcases Bool.or_eq_true_iff.mp alphanum with alpha | digit
      · rcases Bool.or_eq_true_iff.mp alpha with upper | lower
        · exact bounded 'Z'.val (of_decide_eq_true upper).2 (by decide)
        · exact bounded 'z'.val (of_decide_eq_true (Bool.and_eq_true_iff.mp lower).2) (by decide)
      · exact bounded '9'.val (of_decide_eq_true (Bool.and_eq_true_iff.mp digit).2) (by decide)
    · decide
    · decide
    · decide
    · decide
    · decide
  rw [Ctype.ascii c small, not_control_of_plain plain]
  rfl

theorem not_control_of_printable {c : Char} (printable : Ctype.printable c = true) :
    isControl c = false := by
  by_contra control
  rw [Bool.not_eq_false] at control
  have small : c.toNat < 128 := by
    simp only [isControl, Bool.or_eq_true, decide_eq_true_eq] at control
    omega
  rw [Ctype.ascii c small, control] at printable
  cases printable

theorem printable_of_not_unprintable {word : List Char} (printable : ¬unprintable word = true) :
    ∀ c ∈ word, Ctype.printable c = true := by
  simpa [unprintable] using printable

theorem quote_plain {word : List Char} (some_ : word ≠ []) (plain : ∀ c ∈ word, isPlain c = true) :
    quote word = word := by
  unfold quote
  rw [if_neg some_, if_neg, quoteFrom_plain plain]
  intro other
  obtain ⟨c, mem, other⟩ := List.any_eq_true.mp other
  rw [printable_of_plain (plain c mem)] at other
  cases other

theorem not_control_escape {c d : Char} (mem : d ∈ escape c) : isControl d = false := by
  have letters : ∀ d ∈ "\\abtnvfrE'".toList, isControl d = false :=
    none_of_all (by decide +kernel)
  unfold escape at mem
  split at mem
  case h_11 =>
    split at mem
    · rename_i printable
      rw [List.mem_singleton.mp mem]
      exact not_control_of_printable printable
    · obtain ⟨byte, inside, mem⟩ := List.mem_flatMap.mp mem
      rcases mem_octal (byte_lt inside) mem with rfl | ⟨n, small, rfl⟩
      · decide
      · exact not_control_digitChar n small
  all_goals
    refine letters d ?_
    simp only [List.mem_cons, List.not_mem_nil, or_false] at mem
    rcases mem with rfl | rfl <;> decide +kernel

/-- `printf %q` writes no control characters. -/
theorem control_not_mem_quote {d : Char} (control : isControl d = true) (word : List Char) :
    d ∉ quote word := by
  have other {c : Char} (plain : isControl c = false) : d ≠ c := by
    rintro rfl
    rw [plain] at control
    cases control
  unfold quote
  split
  · have quotation : d ≠ '\'' := other (by decide)
    simpa using quotation
  · split
    · simp only [List.mem_cons, List.mem_append, List.mem_flatMap, not_or, not_exists, not_and,
        List.not_mem_nil, not_false_eq_true, and_true]
      refine ⟨other (by decide), other (by decide), fun c _ mem => ?_, other (by decide)⟩
      exact other (not_control_escape mem) rfl
    · rename_i printable
      have visible := printable_of_not_unprintable printable
      exact not_mem_quoteFrom (other (by decide))
        (fun mem => other (not_control_of_printable (visible d mem)) rfl) none

theorem newline_not_mem_quote (word : List Char) : '\n' ∉ quote word :=
  control_not_mem_quote (by decide) word

end

/-! ## Words -/

inductive Scanning
  | space
  | word (token : List Char)
  | quoted (delimiter : Char) (token : List Char)
  | escaped (within : Option Char) (token : List Char)
  deriving DecidableEq, Repr

/-- `shlex.split`: the words, or none where a quotation or an escape is not ended. -/
def shlexFrom : Scanning → List Char → Option (List (List Char))
  | .space, [] => some []
  | .word token, [] => some [token]
  | .quoted .., [] => none
  | .escaped .., [] => none
  | .space, c :: rest =>
    if c ∈ [' ', '\t', '\r', '\n'] then shlexFrom .space rest
    else if c = '\\' then shlexFrom (.escaped none []) rest
    else if c = '\'' || c = '"' then shlexFrom (.quoted c []) rest
    else shlexFrom (.word [c]) rest
  | .word token, c :: rest =>
    if c ∈ [' ', '\t', '\r', '\n'] then (shlexFrom .space rest).map (token :: ·)
    else if c = '\\' then shlexFrom (.escaped none token) rest
    else if c = '\'' || c = '"' then shlexFrom (.quoted c token) rest
    else shlexFrom (.word (token ++ [c])) rest
  | .quoted delimiter token, c :: rest =>
    if c = delimiter then shlexFrom (.word token) rest
    else if c = '\\' && delimiter = '"' then shlexFrom (.escaped (some delimiter) token) rest
    else shlexFrom (.quoted delimiter (token ++ [c])) rest
  | .escaped none token, c :: rest => shlexFrom (.word (token ++ [c])) rest
  | .escaped (some delimiter) token, c :: rest =>
    if c = '\\' || c = delimiter then shlexFrom (.quoted delimiter (token ++ [c])) rest
    else shlexFrom (.quoted delimiter (token ++ ['\\', c])) rest

def shlexSplit (text : List Char) : Option (List (List Char)) := shlexFrom .space text

theorem not_delimiter_of_plain {c : Char} (plain : isPlain c = true) :
    c ∉ [' ', '\t', '\r', '\n'] ∧ c ≠ '\\' ∧ (c = '\'' || c = '"') = false := by
  have none : ∀ c ∈ [' ', '\t', '\r', '\n', '\\', '\'', '"'], isPlain c = false :=
    none_of_all (by decide +kernel)
  refine ⟨fun mem => ?_, fun eq => ?_, ?_⟩
  · rw [none c (List.mem_append_left ['\\', '\'', '"'] mem)] at plain
    cases plain
  · rw [none c (by simp [eq])] at plain
    cases plain
  · by_contra delimiter
    rw [Bool.not_eq_false, Bool.or_eq_true, decide_eq_true_eq, decide_eq_true_eq] at delimiter
    have found : c ∈ [' ', '\t', '\r', '\n', '\\', '\'', '"'] := by
      rcases delimiter with rfl | rfl <;> simp
    rw [none c found] at plain
    cases plain

theorem shlexFrom_plain {token word : List Char} (plain : ∀ c ∈ word, isPlain c = true) :
    shlexFrom (.word token) word = some [token ++ word] := by
  induction word generalizing token with
  | nil => rw [shlexFrom, List.append_nil]
  | cons c rest ih =>
      obtain ⟨space, escape, delimiter⟩ := not_delimiter_of_plain (plain c List.mem_cons_self)
      rw [shlexFrom, if_neg space, if_neg escape, delimiter, if_neg (by decide),
        ih fun d mem => plain d (List.mem_cons_of_mem _ mem), List.append_assoc,
        List.singleton_append]

theorem shlexSplit_plain {word : List Char} (some_ : word ≠ [])
    (plain : ∀ c ∈ word, isPlain c = true) : shlexSplit word = some [word] := by
  cases word with
  | nil => exact absurd rfl some_
  | cons c rest =>
      obtain ⟨space, escape, delimiter⟩ := not_delimiter_of_plain (plain c List.mem_cons_self)
      rw [shlexSplit, shlexFrom, if_neg space, if_neg escape, delimiter, if_neg (by decide),
        shlexFrom_plain fun d mem => plain d (List.mem_cons_of_mem _ mem), List.singleton_append]

end Shell
