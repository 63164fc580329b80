import StorageScaleTest.Shell.Text

/-!
# Splitting quoted words

`shlex.split` knows backslashes and both quotation marks, but not the `$'…'` in which `printf %q`
writes a word that has unprintable characters.
-/

namespace Shell

variable {word : List Char}

/-! ## Printable words -/

theorem ordinary_of_unescaped {c : Char} {previous : Option Char}
    (plain : isEscaped previous c = false) (printable : isControl c = false) :
    c ∉ [' ', '\t', '\r', '\n'] ∧ c ≠ '\\' ∧ (c = '\'' || c = '"') = false := by
  have other (d : Char) (mem : d ∈ " !\"$&'()*,;<>?[\\]^`\x7b|\x7d".toList) : c ≠ d := by
    rintro rfl
    have special : isSpecial c = true := decide_eq_true mem
    simp [isEscaped, special] at plain
  have visible (d : Char) (control : isControl d = true) : c ≠ d := by
    rintro rfl
    rw [printable] at control
    exact Bool.false_ne_true control
  have blank : c ≠ ' ' := other _ (by decide +kernel)
  have tab : c ≠ '\t' := visible _ (by decide)
  have carriage : c ≠ '\r' := visible _ (by decide)
  have newline : c ≠ '\n' := visible _ (by decide)
  have single : c ≠ '\'' := other _ (by decide +kernel)
  have double : c ≠ '"' := other _ (by decide +kernel)
  exact ⟨by simp [blank, tab, carriage, newline], other _ (by decide +kernel),
    by simp [single, double]⟩

theorem shlexFrom_quoteFrom (printable : ∀ c ∈ word, isControl c = false)
    (previous : Option Char) (token : List Char) :
    shlexFrom (.word token) (quoteFrom previous word) = some [token ++ word] := by
  induction word generalizing previous token with
  | nil => rw [quoteFrom, shlexFrom, List.append_nil]
  | cons c rest ih =>
      have tail := ih (fun d mem => printable d (List.mem_cons_of_mem _ mem)) (some c)
        (token ++ [c])
      rw [List.append_assoc, List.singleton_append] at tail
      rw [quoteFrom]
      by_cases escaped : isEscaped previous c = true
      · rw [if_pos escaped, List.cons_append, List.singleton_append, shlexFrom,
          if_neg (by decide), if_pos rfl, shlexFrom, tail]
      · obtain ⟨space, backslash, delimiter⟩ := ordinary_of_unescaped
          (Bool.eq_false_of_not_eq_true escaped) (printable c List.mem_cons_self)
        rw [if_neg escaped, List.singleton_append, shlexFrom, if_neg space, if_neg backslash,
          delimiter, if_neg Bool.false_ne_true, tail]

theorem shlexSplit_quote_printable [Ctype] (printable : ¬unprintable word = true) :
    shlexSplit (quote word) = some [word] := by
  have visible : ∀ c ∈ word, isControl c = false := fun c mem =>
    not_control_of_printable (printable_of_not_unprintable printable c mem)
  rw [quote, if_neg printable]
  split
  · rename_i empty
    rw [empty]
    rfl
  · rename_i some_
    cases word with
    | nil => exact absurd rfl some_
    | cons c rest =>
        have tail := fun d mem => visible d (List.mem_cons_of_mem _ mem)
        rw [shlexSplit, quoteFrom]
        by_cases escaped : isEscaped none c = true
        · rw [if_pos escaped, List.cons_append, List.singleton_append, shlexFrom,
            if_neg (by decide), if_pos rfl, shlexFrom, List.nil_append,
            shlexFrom_quoteFrom tail, List.singleton_append]
        · obtain ⟨space, backslash, delimiter⟩ := ordinary_of_unescaped
            (Bool.eq_false_of_not_eq_true escaped) (visible c List.mem_cons_self)
          rw [if_neg escaped, List.singleton_append, shlexFrom, if_neg space, if_neg backslash,
            delimiter, if_neg Bool.false_ne_true, shlexFrom_quoteFrom tail,
            List.singleton_append]

/-! ## Words that are not printable -/

theorem quote_unprintable [Ctype] (hidden : unprintable word = true) :
    quote word = '$' :: '\'' :: (word.flatMap escape ++ ['\'']) := by
  rw [quote, if_neg, if_pos hidden]
  rintro rfl
  cases hidden

theorem shlexFrom_quoted {text : List Char} (free : '\'' ∉ text) (token rest : List Char) :
    shlexFrom (.quoted '\'' token) (text ++ '\'' :: rest) =
      shlexFrom (.word (token ++ text)) rest := by
  induction text generalizing token with
  | nil => rw [List.nil_append, List.append_nil, shlexFrom, if_pos rfl]
  | cons c text ih =>
      rw [List.mem_cons, not_or] at free
      rw [List.cons_append, shlexFrom, if_neg (Ne.symm free.1), if_neg (by simp), ih free.2,
        List.append_assoc, List.singleton_append]

theorem single_not_mem_octal {byte : Nat} (small : byte < 256) : '\'' ∉ octal byte := by
  intro mem
  have digit : ∀ n < 8, '\'' ≠ Nat.digitChar n := by decide
  rcases mem_octal small mem with slash | ⟨n, low, same⟩
  · exact absurd slash (by decide)
  · exact digit n low same

theorem single_mem_escape [Ctype] {c : Char} : '\'' ∈ escape c ↔ c = '\'' := by
  constructor
  · intro mem
    by_contra other
    unfold escape at mem
    split at mem
    case h_9 code => exact other (by rw [← Char.ofNat_toNat c, code])
    case h_11 =>
      split at mem
      · exact other (List.mem_singleton.mp mem).symm
      · obtain ⟨byte, inside, mem⟩ := List.mem_flatMap.mp mem
        exact single_not_mem_octal (byte_lt inside) mem
    all_goals simp at mem
  · rintro rfl
    simp [escape]

/-- Without an apostrophe, the escapes stand in one quotation behind the dollar sign. -/
theorem shlexSplit_quote_unprintable [Ctype] (hidden : unprintable word = true)
    (free : '\'' ∉ word) : shlexSplit (quote word) = some ['$' :: word.flatMap escape] := by
  have quiet : '\'' ∉ word.flatMap escape := by
    simpa [single_mem_escape] using free
  rw [quote_unprintable hidden, shlexSplit, shlexFrom, if_neg (by decide), if_neg (by decide),
    if_neg (by decide), shlexFrom, if_neg (by decide), if_neg (by decide), if_pos (by decide),
    shlexFrom_quoted quiet, shlexFrom]
  rfl

def Scanning.Outside : Scanning → Prop
  | .space => True
  | .word _ => True
  | .quoted delimiter _ => delimiter = '"'
  | .escaped .. => False

def Unsplit (text : List Char) : Prop := ∀ state : Scanning, state.Outside → shlexFrom state text = none

theorem unsplit_apostrophe : Unsplit ['\''] := by
  intro state outside
  cases state with
  | space => rfl
  | word token => rfl
  | quoted delimiter token =>
      cases outside
      rfl
  | escaped within token => cases outside

theorem Unsplit.cons {c : Char} {rest : List Char} (unsplit : Unsplit rest) (single : c ≠ '\'')
    (backslash : c ≠ '\\') : Unsplit (c :: rest) := by
  intro state outside
  cases state with
  | space =>
      rw [shlexFrom, if_neg backslash]
      split
      · exact unsplit _ trivial
      · split
        · rename_i delimiter
          exact unsplit _ (show c = '"' by simpa [single] using delimiter)
        · exact unsplit _ trivial
  | word token =>
      rw [shlexFrom, if_neg backslash]
      split
      · rw [unsplit .space trivial, Option.map_none]
      · split
        · rename_i delimiter
          exact unsplit _ (show c = '"' by simpa [single] using delimiter)
        · exact unsplit _ trivial
  | quoted delimiter token =>
      cases outside
      rw [shlexFrom, if_neg (show ¬(c = '\\' && '"' = '"') = true by simp [backslash])]
      split
      · exact unsplit _ trivial
      · exact unsplit _ rfl
  | escaped within token => cases outside

theorem Unsplit.escape {c : Char} {rest : List Char} (unsplit : Unsplit rest) :
    Unsplit ('\\' :: c :: rest) := by
  intro state outside
  cases state with
  | space => exact unsplit _ trivial
  | word token => exact unsplit _ trivial
  | quoted delimiter token =>
      cases outside
      rw [shlexFrom, if_neg (by decide), if_pos (by decide), shlexFrom]
      split
      · exact unsplit _ rfl
      · exact unsplit _ rfl
  | escaped within token => cases outside

theorem Unsplit.octal {rest : List Char} (unsplit : Unsplit rest) (byte : Nat) :
    Unsplit (Shell.octal byte ++ rest) := by
  have digit : ∀ n, Nat.digitChar (n % 8) ≠ '\'' ∧ Nat.digitChar (n % 8) ≠ '\\' := by
    have all : ∀ n < 8, Nat.digitChar n ≠ '\'' ∧ Nat.digitChar n ≠ '\\' := by decide
    exact fun n => all _ (Nat.mod_lt _ (by decide))
  have low := unsplit.cons (digit byte).1 (digit byte).2
  exact (low.cons (digit (byte / 8)).1 (digit (byte / 8)).2).escape

theorem Unsplit.escape_append [Ctype] {rest : List Char} (unsplit : Unsplit rest) (c : Char) :
    Unsplit (Shell.escape c ++ rest) := by
  unfold Shell.escape
  split
  case h_11 code code' =>
    split
    · refine unsplit.cons ?_ ?_
      · rintro rfl
        exact code rfl
      · rintro rfl
        exact code' rfl
    · induction utf8 c with
      | nil => exact unsplit
      | cons byte bytes ih =>
          rw [List.flatMap_cons, List.append_assoc]
          exact ih.octal byte
  all_goals exact unsplit.escape

/-- With an apostrophe, the quotation ends early and the last apostrophe begins one that is not
ended. -/
theorem shlexSplit_quote_none [Ctype] (hidden : unprintable word = true) (mem : '\'' ∈ word) :
    shlexSplit (quote word) = none := by
  obtain ⟨front, back, rfl, free⟩ := List.eq_append_cons_of_mem mem
  have quiet : '\'' ∉ front.flatMap escape ++ ['\\'] := by
    simpa [single_mem_escape] using free
  have unsplit : Unsplit (back.flatMap escape ++ ['\'']) := by
    clear mem hidden
    induction back with
    | nil => exact unsplit_apostrophe
    | cons c back ih =>
        rw [List.flatMap_cons, List.append_assoc]
        exact ih.escape_append c
  have text : (front ++ '\'' :: back).flatMap escape ++ ['\''] =
      (front.flatMap escape ++ ['\\']) ++
        '\'' :: (back.flatMap escape ++ ['\'']) := by
    simp [show escape '\'' = ['\\', '\''] from rfl]
  rw [quote_unprintable hidden, shlexSplit, shlexFrom, if_neg (by decide), if_neg (by decide),
    if_neg (by decide), shlexFrom, if_neg (by decide), if_neg (by decide), if_pos (by decide),
    text, shlexFrom_quoted quiet]
  exact unsplit _ trivial

end Shell
