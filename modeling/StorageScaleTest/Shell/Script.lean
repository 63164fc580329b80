import Mathlib.Data.List.Induction
import StorageScaleTest.Shell.Text

/-!
# Scripts of assignments

What sourcing a script of comments and assignments sets, one assignment to a line. A word that
`printf %q` has written is read back; expansions have no meaning here.
-/

namespace Shell

/-! ## One word -/

inductive Reading
  | plain (token : List Char)
  | escape (token : List Char)
  | single (token : List Char)
  | dollar (token : List Char)
  /-- In `$'…'`, behind the first bytes of a character. -/
  | ansi (token : List Char) (bytes : List Nat)
  | ansiEscape (token : List Char) (bytes : List Nat)
  | octal (token : List Char) (bytes : List Nat) (value count : Nat)

def isEnd (c : Char) : Bool := c ∈ [' ', '\t', '\n', ')']

/-- A letter after the backslash in `$'…'`. -/
def letterEscape (c : Char) : Option Char :=
  match c with
  | 'a' => some (Char.ofNat 7)
  | 'b' => some (Char.ofNat 8)
  | 't' => some '\t'
  | 'n' => some '\n'
  | 'v' => some (Char.ofNat 11)
  | 'f' => some (Char.ofNat 12)
  | 'r' => some '\r'
  | 'E' | 'e' => some (Char.ofNat 27)
  | '\\' | '\'' | '"' | '?' => some c
  | _ => none

def octalDigit (c : Char) : Option Nat :=
  if '0' ≤ c ∧ c ≤ '7' then some (c.toNat - '0'.toNat) else none

def readWord : Reading → List Char → Option (List Char × List Char)
  | .plain token, [] => some (token, [])
  | .plain token, c :: rest =>
    if isEnd c then some (token, c :: rest)
    else if c = '\\' then readWord (.escape token) rest
    else if c = '\'' then readWord (.single token) rest
    else if c = '$' then readWord (.dollar token) rest
    else if isEscaped token.getLast? c then none
    else readWord (.plain (token ++ [c])) rest
  | .escape token, c :: rest =>
    -- An escaped newline continues the line.
    if c = '\n' then readWord (.plain token) rest else readWord (.plain (token ++ [c])) rest
  | .single token, c :: rest =>
    if c = '\'' then readWord (.plain token) rest else readWord (.single (token ++ [c])) rest
  | .dollar token, c :: rest => if c = '\'' then readWord (.ansi token []) rest else none
  | .ansi token bytes, c :: rest =>
    if c = '\\' then readWord (.ansiEscape token bytes) rest
    -- The bytes of a character that is not ended are no text.
    else if bytes ≠ [] then none
    else if c = '\'' then readWord (.plain token) rest
    else readWord (.ansi (token ++ [c]) []) rest
  | .ansiEscape token bytes, c :: rest =>
    match octalDigit c, letterEscape c with
    | some digit, _ => readWord (.octal token bytes digit 1) rest
    | none, some letter =>
      if bytes ≠ [] then none else readWord (.ansi (token ++ [letter]) []) rest
    | none, none => none
  | .octal token bytes value count, c :: rest =>
    match octalDigit c with
    | some digit =>
      if count = 2 then
        match decodeUtf8 (bytes ++ [8 * value + digit]) with
        | some ended => readWord (.ansi (token ++ [ended]) []) rest
        | none => readWord (.ansi token (bytes ++ [8 * value + digit])) rest
      else readWord (.octal token bytes (8 * value + digit) (count + 1)) rest
    | none =>
      if bytes ≠ [] then none
      else if c = '\'' then readWord (.plain (token ++ [Char.ofNat value])) rest
      else if c = '\\' then readWord (.ansiEscape (token ++ [Char.ofNat value]) []) rest
      else readWord (.ansi (token ++ [Char.ofNat value, c]) []) rest
  | _, [] => none

theorem special_mem {c : Char} (mem : c ∈ " !\"$&'()*,;<>?[\\]^`\x7b|\x7d".toList)
    (previous : Option Char) : isEscaped previous c = true := by
  have special : isSpecial c = true := decide_eq_true mem
  simp [isEscaped, special]

theorem not_end {c : Char} {previous : Option Char} (plain : isEscaped previous c = false)
    (printable : isControl c = false) :
    isEnd c = false ∧ c ≠ '\\' ∧ c ≠ '\'' ∧ c ≠ '$' := by
  have other (d : Char) (mem : d ∈ " !\"$&'()*,;<>?[\\]^`\x7b|\x7d".toList) : c ≠ d := by
    rintro rfl
    rw [special_mem mem] at plain
    exact Bool.false_ne_true plain.symm
  have visible (d : Char) (control : isControl d = true) : c ≠ d := by
    rintro rfl
    rw [printable] at control
    exact Bool.false_ne_true control
  refine ⟨?_, other _ (by decide +kernel), other _ (by decide +kernel), other _ (by decide +kernel)⟩
  simp only [isEnd, List.mem_cons, List.not_mem_nil, or_false, decide_eq_false_iff_not, not_or]
  exact ⟨other _ (by decide +kernel), visible _ (by decide), visible _ (by decide),
    other _ (by decide +kernel)⟩

theorem readWord_quoteFrom {word : List Char} (printable : ∀ c ∈ word, isControl c = false)
    (token rest : List Char) :
    readWord (.plain token) (quoteFrom token.getLast? word ++ rest) =
      readWord (.plain (token ++ word)) rest := by
  induction word generalizing token with
  | nil => rw [quoteFrom, List.nil_append, List.append_nil]
  | cons c word ih =>
      have here := printable c List.mem_cons_self
      have tail := ih (fun d mem => printable d (List.mem_cons_of_mem _ mem)) (token ++ [c])
      rw [List.getLast?_concat, List.append_assoc, List.singleton_append] at tail
      rw [quoteFrom, List.append_assoc]
      by_cases escaped : isEscaped token.getLast? c = true
      · have newline : c ≠ '\n' := by
          rintro rfl
          exact absurd here (by decide)
        rw [if_pos escaped, List.cons_append, List.singleton_append, readWord,
          if_neg (by decide), if_pos rfl, readWord, if_neg newline, tail]
      · obtain ⟨notEnd, backslash, single, dollar⟩ :=
          not_end (Bool.eq_false_of_not_eq_true escaped) here
        rw [if_neg escaped, List.singleton_append, readWord, notEnd, if_neg Bool.false_ne_true,
          if_neg backslash, if_neg single, if_neg dollar, if_neg escaped, tail]

theorem octalDigit_digitChar : ∀ n < 8, octalDigit (Nat.digitChar n) = some n := by decide

theorem readWord_octal {byte : Nat} (small : byte < 256) (token rest : List Char)
    (bytes : List Nat) : readWord (.ansi token bytes) (octal byte ++ rest) =
      match decodeUtf8 (bytes ++ [byte]) with
      | some ended => readWord (.ansi (token ++ [ended]) []) rest
      | none => readWord (.ansi token (bytes ++ [byte])) rest := by
  have value : 8 * (8 * (byte / 64) + byte / 8 % 8) + byte % 8 = byte := by omega
  rw [octal, List.cons_append, List.cons_append, List.cons_append, List.singleton_append, readWord,
    if_pos rfl, readWord, octalDigit_digitChar _ (by omega)]
  simp only [readWord, octalDigit_digitChar _ (show byte / 8 % 8 < 8 by omega),
    octalDigit_digitChar _ (show byte % 8 < 8 by omega)]
  rw [if_neg (by decide), if_pos trivial, value]

theorem readWord_bytes {front : List Nat} (small : ∀ byte ∈ front, byte < 256)
    (open_ : ∀ n, 0 < n → n ≤ front.length → decodeUtf8 (front.take n) = none)
    (token rest : List Char) : readWord (.ansi token []) (front.flatMap octal ++ rest) =
      readWord (.ansi token front) rest := by
  induction front using List.reverseRecOn generalizing rest with
  | nil => rfl
  | append_singleton front byte ih =>
      have whole := open_ (front.length + 1) (Nat.succ_pos _) (by simp)
      rw [List.take_of_length_le (by simp)] at whole
      have earlier : ∀ n, 0 < n → n ≤ front.length → decodeUtf8 (front.take n) = none := by
        intro n pos le
        have part := open_ n pos (le.trans (by simp))
        rwa [List.take_append_of_le_length le] at part
      rw [List.flatMap_append, List.flatMap_singleton, List.append_assoc,
        ih (fun other mem => small other (List.mem_append_left _ mem)) earlier,
        readWord_octal (small byte (by simp)), whole]

theorem readWord_utf8 (c : Char) (token rest : List Char) :
    readWord (.ansi token []) ((utf8 c).flatMap octal ++ rest) =
      readWord (.ansi (token ++ [c]) []) rest := by
  obtain ⟨front, last, bytes, whole, parts⟩ := utf8_eq c
  have small : ∀ byte ∈ front ++ [last], byte < 256 := fun byte mem =>
    byte_lt (c := c) (by rwa [bytes])
  rw [bytes, List.flatMap_append, List.flatMap_singleton, List.append_assoc,
    readWord_bytes (fun byte mem => small byte (List.mem_append_left _ mem)) parts,
    readWord_octal (small last (by simp)), whole]

variable [Ctype]

theorem readWord_escape (c : Char) (token rest : List Char) :
    readWord (.ansi token []) (escape c ++ rest) = readWord (.ansi (token ++ [c]) []) rest := by
  have letter (n : Nat) (d e : Char) (code : c.toNat = n) (digit : octalDigit d = none)
      (escape : letterEscape d = some e) (value : e.toNat = n) :
      readWord (.ansi token []) (['\\', d] ++ rest) = readWord (.ansi (token ++ [c]) []) rest := by
    have same : e = c := Char.toNat_inj.mp (value.trans code.symm)
    rw [List.cons_append, List.singleton_append, readWord, if_pos rfl, readWord, digit, escape,
      same]
    rfl
  unfold escape
  split
  case h_11 _ _ _ _ _ _ _ _ quote backslash =>
    split
    · have notQuote : c ≠ '\'' := by
        rintro rfl
        exact quote rfl
      have notBackslash : c ≠ '\\' := by
        rintro rfl
        exact backslash rfl
      rw [List.singleton_append, readWord, if_neg notBackslash, if_neg (not_not.mpr rfl),
        if_neg notQuote]
    · exact readWord_utf8 c token rest
  all_goals
    rename_i code
    exact letter _ _ _ code rfl rfl rfl

theorem readWord_flatMap (word token rest : List Char) :
    readWord (.ansi token []) (word.flatMap escape ++ '\'' :: rest) =
      readWord (.plain (token ++ word)) rest := by
  induction word generalizing token with
  | nil =>
      rw [List.flatMap_nil, List.nil_append, List.append_nil, readWord, if_neg (by decide),
        if_neg (not_not.mpr rfl), if_pos rfl]
  | cons c word ih =>
      rw [List.flatMap_cons, List.append_assoc, readWord_escape, ih, List.append_assoc,
        List.singleton_append]

theorem readWord_quote (word rest : List Char) :
    readWord (.plain []) (quote word ++ rest) = readWord (.plain word) rest := by
  unfold quote
  split
  · rename_i empty
    rw [empty, List.cons_append, List.singleton_append, readWord, if_neg (by decide),
      if_neg (by decide), if_pos rfl, readWord, if_pos rfl]
  · split
    · rw [List.cons_append, List.cons_append, List.append_assoc, List.singleton_append, readWord,
        if_neg (by decide), if_neg (by decide), if_neg (by decide), if_pos rfl, readWord, if_pos rfl,
        readWord_flatMap, List.nil_append]
    · rename_i printable
      exact readWord_quoteFrom (fun c mem =>
        not_control_of_printable (printable_of_not_unprintable printable c mem)) [] rest

/-! ## Words of an array -/

def readWords : Nat → List Char → Option (List (List Char))
  | 0, _ => none
  | fuel + 1, text =>
    if text = [')'] then some []
    else if text.head? = some ' ' then readWords fuel text.tail
    else
      match readWord (.plain []) text with
      | some (word, rest) => (readWords fuel rest).map (word :: ·)
      | none => none

theorem head?_quote (word : List Char) :
    ∃ c rest, quote word = c :: rest ∧ c ≠ ' ' ∧ c ≠ ')' := by
  unfold quote
  split
  · exact ⟨_, _, rfl, by decide, by decide⟩
  · split
    · exact ⟨_, _, rfl, by decide, by decide⟩
    · rename_i some_ _
      cases word with
      | nil => exact absurd rfl some_
      | cons c rest =>
          rw [quoteFrom]
          split
          · exact ⟨_, _, rfl, by decide, by decide⟩
          · rename_i plain
            refine ⟨c, _, rfl, ?_, ?_⟩
            · rintro rfl
              exact plain (special_mem (by decide +kernel) _)
            · rintro rfl
              exact plain (special_mem (by decide +kernel) _)

theorem readWords_quote {word rest : List Char} {fuel : Nat}
    (ends : rest.head?.all isEnd = true) :
    readWords (fuel + 1) (quote word ++ rest) = (readWords fuel rest).map (word :: ·) := by
  obtain ⟨c, tail, eq, blank, close⟩ := head?_quote word
  have first : quote word ++ rest ≠ [')'] := by
    rw [eq]
    intro same
    exact close (List.cons.inj same).1
  have second : (quote word ++ rest).head? ≠ some ' ' := by
    rw [eq]
    intro same
    exact blank (Option.some.inj same)
  have stop : readWord (.plain word) rest = some (word, rest) := by
    cases rest with
    | nil => rfl
    | cons d rest => rw [readWord, if_pos (by simpa using ends)]
  rw [readWords, if_neg first, if_neg second, readWord_quote, stop]

theorem readWords_join (words : List (List Char)) {fuel : Nat} (enough : 2 * words.length < fuel) :
    readWords fuel (join ' ' (words.map quote) ++ [')']) = some words := by
  induction words generalizing fuel with
  | nil =>
      obtain ⟨fuel, rfl⟩ := Nat.exists_eq_add_one_of_ne_zero (Nat.ne_of_gt enough)
      rfl
  | cons word rest ih =>
      rw [List.length_cons] at enough
      obtain ⟨fuel, rfl⟩ := Nat.exists_eq_add_one_of_ne_zero (Nat.ne_of_gt (Nat.zero_lt_of_lt enough))
      cases rest with
      | nil =>
          obtain ⟨fuel, rfl⟩ := Nat.exists_eq_add_one_of_ne_zero (show fuel ≠ 0 by omega)
          rw [List.map_singleton, join, List.intercalate_singleton, readWords_quote rfl]
          rfl
      | cons next rest =>
          obtain ⟨fuel, rfl⟩ := Nat.exists_eq_add_one_of_ne_zero (show fuel ≠ 0 by omega)
          have later := @ih fuel (by omega)
          rw [List.map_cons, List.map_cons, join, List.intercalate_cons_cons, List.append_assoc,
            List.append_assoc, List.singleton_append, readWords_quote rfl, readWords,
            if_neg (by simp), List.head?_cons, if_pos rfl, List.tail_cons]
          rw [List.map_cons, join] at later
          rw [later]
          rfl

/-! ## Assignments -/

inductive Assigned
  | scalar (value : List Char)
  | array (values : List (List Char))

def isName (name : List Char) : Bool := name.all fun c => c.isAlphanum || c = '_'

def readAssignment (line : List Char) : Option (List Char × Assigned) :=
  let name := line.takeWhile (· ≠ '=')
  let text := (line.dropWhile (· ≠ '=')).tail
  if '=' ∉ line ∨ ¬isName name then none
  else if text.head? = some '(' then
    (readWords (text.length + 1) text.tail).map fun words => (name, .array words)
  else
    match readWord (.plain []) text with
    | some (word, []) => some (name, .scalar word)
    | _ => none

omit [Ctype] in
theorem isName_append (a b : List Char) : isName (a ++ b) = (isName a && isName b) :=
  List.all_append ..

def assignments (text : List Char) : Option (List (List Char × Assigned)) :=
  ((text.splitOn '\n').filter fun line => line ≠ [] && line.head? ≠ some '#').mapM readAssignment

/-- `printf '<name>=%q\n'` -/
def scalarLine (name value : List Char) : List Char := name ++ '=' :: quote value

/-- `_emit_sh_array_assignment` -/
def arrayLine (name : List Char) (values : List (List Char)) : List Char :=
  name ++ '=' :: '(' :: (join ' ' (values.map quote) ++ [')'])

omit [Ctype] in
theorem splitName {name rest : List Char} (valid : isName name = true) :
    (name ++ '=' :: rest).takeWhile (· ≠ '=') = name ∧
      ((name ++ '=' :: rest).dropWhile (· ≠ '=')).tail = rest := by
  have other : ∀ c ∈ name, decide (c ≠ '=') = true := by
    intro c mem
    refine decide_eq_true fun eq => ?_
    have letter := List.all_eq_true.mp valid c mem
    rw [eq] at letter
    exact absurd letter (by decide)
  rw [List.takeWhile_append_of_pos other, List.dropWhile_append_of_pos other,
    List.takeWhile_cons_of_neg (by simp), List.dropWhile_cons_of_neg (by simp), List.append_nil]
  exact ⟨rfl, rfl⟩

theorem readAssignment_scalarLine {name : List Char} (valid : isName name = true)
    (value : List Char) :
    readAssignment (scalarLine name value) = some (name, .scalar value) := by
  obtain ⟨first, second⟩ := @splitName name (quote value) valid
  have word := readWord_quote value []
  rw [List.append_nil, readWord] at word
  obtain ⟨c, tail, eq, -, -⟩ := head?_quote value
  have notArray : (quote value).head? ≠ some '(' := by
    intro open_
    rw [eq] at open_ word
    rw [Option.some.inj open_, readWord, if_neg (by decide), if_neg (by decide),
      if_neg (by decide), if_neg (by decide), if_pos (special_mem (by decide +kernel) _)] at word
    cases word
  unfold readAssignment scalarLine
  simp only [first, second]
  rw [if_neg (by simp [valid]), if_neg notArray, word]

theorem length_le_join (words : List (List Char)) :
    2 * words.length ≤ (join ' ' (words.map quote)).length + 1 := by
  induction words with
  | nil => exact Nat.zero_le _
  | cons word rest ih =>
      obtain ⟨c, tail, eq, -, -⟩ := head?_quote word
      have some_ : 0 < (quote word).length := by simp [eq]
      cases rest with
      | nil =>
          rw [List.map_singleton, join, List.intercalate_singleton, List.length_singleton]
          omega
      | cons next rest =>
          rw [List.map_cons, List.map_cons, join, List.intercalate_cons_cons, List.length_append,
            List.length_append, List.length_cons]
          rw [List.map_cons, join] at ih
          rw [List.length_singleton]
          omega

theorem readAssignment_arrayLine {name : List Char} (valid : isName name = true)
    (values : List (List Char)) :
    readAssignment (arrayLine name values) = some (name, .array values) := by
  obtain ⟨first, second⟩ := @splitName name ('(' :: (join ' ' (values.map quote) ++ [')'])) valid
  have words := @readWords_join _ values ((join ' ' (values.map quote) ++ [')']).length + 1 + 1)
    (by
      have := length_le_join values
      rw [List.length_append, List.length_singleton]
      omega)
  unfold readAssignment arrayLine
  simp only [first, second]
  rw [if_neg (by simp [valid]), List.head?_cons, if_pos rfl, List.tail_cons, List.length_cons, words]
  rfl

def lineOf : List Char × Assigned → List Char
  | (name, .scalar value) => scalarLine name value
  | (name, .array values) => arrayLine name values

theorem readAssignment_lineOf {assignment : List Char × Assigned}
    (valid : isName assignment.1 = true) : readAssignment (lineOf assignment) = some assignment := by
  obtain ⟨name, value | values⟩ := assignment
  · exact readAssignment_scalarLine valid value
  · exact readAssignment_arrayLine valid values

theorem newline_not_mem_lineOf {assignment : List Char × Assigned}
    (valid : isName assignment.1 = true) : '\n' ∉ lineOf assignment := by
  obtain ⟨name, value | values⟩ := assignment
  all_goals
    have absent : '\n' ∉ name := fun mem => absurd (List.all_eq_true.mp valid _ mem) (by decide)
    simp only [lineOf, scalarLine, arrayLine, List.mem_append, List.mem_cons, List.not_mem_nil,
      or_false, not_or]
  · exact ⟨absent, by decide, newline_not_mem_quote value⟩
  · exact ⟨absent, by decide, by decide,
      not_mem_join (by decide) (List.forall_mem_map.mpr fun value _ => newline_not_mem_quote value),
      by decide⟩

theorem lineOf_kept {assignment : List Char × Assigned} (some_ : assignment.1 ≠ [])
    (valid : isName assignment.1 = true) :
    (lineOf assignment ≠ [] && (lineOf assignment).head? ≠ some '#') = true := by
  obtain ⟨name, value⟩ := assignment
  cases name with
  | nil => exact absurd rfl some_
  | cons c rest =>
      have letter := List.all_eq_true.mp valid c List.mem_cons_self
      have other : c ≠ '#' := by
        rintro rfl
        exact absurd letter (by decide)
      cases value <;> simpa [lineOf, scalarLine, arrayLine] using other

omit [Ctype] in
theorem mapM_lines {β : Type} {reader : List Char → Option β} {line : β → List Char}
    {comments : List (List Char)} {found : List β}
    (silent : ∀ line ∈ comments, line.head? = some '#' ∧ '\n' ∉ line)
    (reads : ∀ item ∈ found, reader (line item) = some item)
    (plain : ∀ item ∈ found, '\n' ∉ line item)
    (kept : ∀ item ∈ found, (line item ≠ [] && (line item).head? ≠ some '#') = true) :
    (((unlines (comments ++ found.map line)).splitOn '\n').filter fun line =>
      line ≠ [] && line.head? ≠ some '#').mapM reader = some found := by
  have plain' : ∀ text ∈ comments ++ found.map line, '\n' ∉ text := by
    intro text mem
    rcases List.mem_append.mp mem with comment | mem
    · exact (silent text comment).2
    · obtain ⟨item, inside, rfl⟩ := List.mem_map.mp mem
      exact plain item inside
  have dropped : (comments.filter fun line => line ≠ [] && line.head? ≠ some '#') = [] :=
    List.filter_eq_nil_iff.mpr fun line mem => by simp [(silent line mem).1]
  have kept' : ((found.map line).filter fun line => line ≠ [] && line.head? ≠ some '#') =
      found.map line :=
    List.filter_eq_self.mpr (List.forall_mem_map.mpr kept)
  have read : (found.map line).mapM reader = some found := by
    clear plain plain' kept kept'
    induction found with
    | nil => rfl
    | cons item rest ih =>
        rw [List.map_cons, List.mapM_cons, reads item List.mem_cons_self,
          ih fun other mem => reads other (List.mem_cons_of_mem _ mem)]
        rfl
  rw [splitOn_unlines plain', List.filter_append, List.filter_append, dropped, kept']
  exact (congrArg (List.mapM reader) (List.append_nil _)).trans read

theorem assignments_unlines {comments : List (List Char)} {found : List (List Char × Assigned)}
    (silent : ∀ line ∈ comments, line.head? = some '#' ∧ '\n' ∉ line)
    (names : ∀ assignment ∈ found, assignment.1 ≠ [] ∧ isName assignment.1 = true) :
    assignments (unlines (comments ++ found.map lineOf)) = some found :=
  mapM_lines silent (fun assignment mem => readAssignment_lineOf (names assignment mem).2)
    (fun assignment mem => newline_not_mem_lineOf (names assignment mem).2)
    fun assignment mem => lineOf_kept (names assignment mem).1 (names assignment mem).2

/-! ## Declarations -/

def declareWord : List Char := "declare -ga ".toList

def readDeclaration (line : List Char) : Option (List Char × Assigned) :=
  readAssignment (if declareWord <+: line then line.drop declareWord.length else line)

def declarations (text : List Char) : Option (List (List Char × Assigned)) :=
  ((text.splitOn '\n').filter fun line => line ≠ [] && line.head? ≠ some '#').mapM readDeclaration

/-- `declare -ga <name>=(`, then `printf ' %q'` for each value -/
def declareLine (name : List Char) (values : List (List Char)) : List Char :=
  declareWord ++ name ++ '=' :: '(' :: ((values.flatMap fun value => ' ' :: quote value) ++ " )".toList)

def declarationOf : List Char × Assigned → List Char
  | (name, .scalar value) => scalarLine name value
  | (name, .array values) => declareLine name values

theorem readWords_spaced (words : List (List Char)) {fuel : Nat}
    (enough : 2 * words.length + 1 < fuel) :
    readWords fuel ((words.flatMap fun word => ' ' :: quote word) ++ " )".toList) = some words := by
  induction words generalizing fuel with
  | nil =>
      obtain ⟨fuel, rfl⟩ := Nat.exists_eq_add_of_le enough
      rw [Nat.add_comm]
      rfl
  | cons word words ih =>
      rw [List.length_cons] at enough
      obtain ⟨fuel, rfl⟩ := Nat.exists_eq_add_of_le (show 2 ≤ fuel by omega)
      have later := @ih fuel (by omega)
      have ends : ((words.flatMap fun word => ' ' :: quote word) ++ " )".toList).head?.all isEnd := by
        cases words with
        | nil => rfl
        | cons next words => rfl
      rw [Nat.add_comm 2 fuel, List.flatMap_cons, List.cons_append, List.cons_append, readWords,
        if_neg (by simp), List.head?_cons, if_pos rfl, List.tail_cons, List.append_assoc,
        readWords_quote ends, later]
      rfl

omit [Ctype] in
theorem not_declareWord {name rest : List Char} (valid : isName name = true) :
    ¬declareWord <+: name ++ '=' :: rest := by
  intro ⟨tail, eq⟩
  have other : ∀ c ∈ declareWord, decide (c ≠ '=') = true :=
    List.all_eq_true.mp (by decide +kernel)
  have same : declareWord ++ tail.takeWhile (· ≠ '=') = name := by
    rw [← List.takeWhile_append_of_pos other, eq]
    exact (splitName valid).1
  have blank : ' ' ∈ name := same ▸ List.mem_append_left _ (by decide +kernel)
  exact absurd (List.all_eq_true.mp valid _ blank) (by decide)

theorem length_le_spaced (words : List (List Char)) :
    2 * words.length ≤ (words.flatMap fun word => ' ' :: quote word).length := by
  induction words with
  | nil => exact Nat.le_refl 0
  | cons word words ih =>
      obtain ⟨c, tail, eq, -, -⟩ := head?_quote word
      have some_ : 0 < (quote word).length := by simp [eq]
      rw [List.flatMap_cons, List.length_append, List.length_cons, List.length_cons]
      omega

theorem readDeclaration_declarationOf {assignment : List Char × Assigned}
    (valid : isName assignment.1 = true) :
    readDeclaration (declarationOf assignment) = some assignment := by
  obtain ⟨name, value | values⟩ := assignment
  · rw [readDeclaration, declarationOf, scalarLine, if_neg (not_declareWord valid)]
    exact readAssignment_scalarLine valid value
  · have words := @readWords_spaced _ values
      (((values.flatMap fun value => ' ' :: quote value) ++ " )".toList).length + 1 + 1) (by
        have := length_le_spaced values
        rw [List.length_append]
        omega)
    obtain ⟨first, second⟩ := @splitName name
      ('(' :: ((values.flatMap fun value => ' ' :: quote value) ++ " )".toList)) valid
    rw [readDeclaration, declarationOf, declareLine, List.append_assoc,
      if_pos (List.prefix_append _ _), List.drop_left]
    unfold readAssignment
    simp only [first, second]
    rw [if_neg (by simp [show isName name = true from valid]), List.head?_cons, if_pos rfl,
      List.tail_cons, List.length_cons, words]
    rfl

theorem not_mem_spaced {c : Char} (blank : c ≠ ' ') {values : List (List Char)}
    (absent : ∀ value ∈ values, c ∉ quote value) :
    c ∉ values.flatMap fun value => ' ' :: quote value := by
  intro mem
  obtain ⟨value, inside, mem⟩ := List.mem_flatMap.mp mem
  rcases List.mem_cons.mp mem with eq | mem
  · exact blank eq
  · exact absent value inside mem

theorem newline_not_mem_declarationOf {assignment : List Char × Assigned}
    (valid : isName assignment.1 = true) : '\n' ∉ declarationOf assignment := by
  obtain ⟨name, value | values⟩ := assignment
  · exact newline_not_mem_lineOf valid
  · have absent : '\n' ∉ name := fun mem => absurd (List.all_eq_true.mp valid _ mem) (by decide)
    simp only [declarationOf, declareLine, List.mem_append, List.mem_cons, not_or]
    exact ⟨⟨by decide +kernel, absent⟩, by decide, by decide,
      not_mem_spaced (by decide) fun value _ => newline_not_mem_quote value, by decide +kernel⟩

theorem declarationOf_kept {assignment : List Char × Assigned} (some_ : assignment.1 ≠ [])
    (valid : isName assignment.1 = true) :
    (declarationOf assignment ≠ [] && (declarationOf assignment).head? ≠ some '#') = true := by
  obtain ⟨name, value | values⟩ := assignment
  · exact lineOf_kept some_ valid
  · have word : declareWord = 'd' :: "eclare -ga ".toList := by decide +kernel
    simp [declarationOf, declareLine, word]

theorem declarations_unlines {comments : List (List Char)} {found : List (List Char × Assigned)}
    (silent : ∀ line ∈ comments, line.head? = some '#' ∧ '\n' ∉ line)
    (names : ∀ assignment ∈ found, assignment.1 ≠ [] ∧ isName assignment.1 = true) :
    declarations (unlines (comments ++ found.map declarationOf)) = some found :=
  mapM_lines silent (fun assignment mem => readDeclaration_declarationOf (names assignment mem).2)
    (fun assignment mem => newline_not_mem_declarationOf (names assignment mem).2)
    fun assignment mem => declarationOf_kept (names assignment mem).1 (names assignment mem).2

end Shell
