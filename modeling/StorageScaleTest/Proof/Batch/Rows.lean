import Mathlib.Data.List.Range
import StorageScaleTest.Batch.Readers

/-!
# The rows of a committed batch

A ledger is the list of the committed groups. Its manifest has one row for each group and each
execution, and the readers split the text into these rows again.
-/

namespace StorageScaleTest.Batch

open Shell

variable {digest : Text → Text} {ds : Text}

abbrev Ledger := List ((kind : Kind) × StagedGroup kind)

def Ledger.total (ledger : Ledger) : Nat := (ledger.map (·.2.executions.length)).sum

def Submission.ledger (submission : Submission) : Ledger := submission.stages.map (⟨_, ·⟩)

theorem tag_ne : executionTag ≠ groupTag ∧ groupTag ≠ executionTag ∧ versionTag ≠ groupTag ∧
    versionTag ≠ executionTag ∧ versionTag ≠ revisionTag ∧ versionTag ≠ datestampTag ∧
    revisionTag ≠ groupTag ∧ revisionTag ≠ executionTag ∧ revisionTag ≠ datestampTag ∧
    revisionTag ≠ versionTag ∧ datestampTag ≠ groupTag ∧ datestampTag ≠ executionTag ∧
    datestampTag ≠ revisionTag ∧ datestampTag ≠ versionTag ∧ groupTag ≠ revisionTag ∧
    groupTag ≠ datestampTag ∧ groupTag ≠ versionTag ∧ executionTag ≠ revisionTag ∧
    executionTag ≠ datestampTag ∧ executionTag ≠ versionTag := by decide

/-! ## Rows -/

section

variable [Ctype]

def definitionText {kind : Kind} (ds gid id : Text) (environment : List Text)
    (execution : StagedExecution kind) : Text :=
  unlines environment ++ unlines [assignment groupName (quote gid),
    assignment relativeName (quote (groupRelative gid kind ds))] ++ reidentifyExecution execution ds id

def groupFields {kind : Kind} (digest : Text → Text) (ds gid : Text) (group : StagedGroup kind) :
    List Text :=
  [groupTag, gid, kind.text, groupRelative gid kind ds, digest (unlines group.environment),
    digest group.description]

def executionRows {kind : Kind} (digest : Text → Text) (ds gid : Text) (environment : List Text) :
    Nat → List (StagedExecution kind) → List (List Text)
  | _, [] => []
  | used, execution :: rest =>
    let id := pad 4 (used + 1)
    [executionTag, id, gid, digest (definitionText ds gid id environment execution)]
      :: executionRows digest ds gid environment (used + 1) rest

def ledgerRows (digest : Text → Text) (ds : Text) : Nat → Nat → Ledger → List (List Text)
  | _, _, [] => []
  | numbered, used, ⟨_, group⟩ :: rest =>
    groupFields digest ds (pad 4 (numbered + 1)) group
      :: executionRows digest ds (pad 4 (numbered + 1)) group.environment used group.executions
      ++ ledgerRows digest ds (numbered + 1) (used + group.executions.length) rest

def headerRows (ds : Text) (revision : Nat) : List (List Text) :=
  [[versionTag, ['1']], [revisionTag, Nat.toDigits 10 revision],
    [datestampTag, ds]]

def manifestRowsOf (digest : Text → Text) (ds : Text) (ledger : Ledger) : List (List Text) :=
  headerRows ds ledger.length ++ ledgerRows digest ds 0 0 ledger

def manifestText (digest : Text → Text) (ds : Text) (ledger : Ledger) : Text :=
  unlines ((manifestRowsOf digest ds ledger).map row)

end

/-! ## Fields that no reader splits -/

def PlainField (field : Text) : Prop := field ≠ [] ∧ ∀ c ∈ field, isPlain c = true

def PlainRow (fields : List Text) : Prop := fields ≠ [] ∧ ∀ field ∈ fields, PlainField field

theorem PlainField.of_all {field : Text} (some_ : field ≠ []) (all : field.all isPlain = true) :
    PlainField field :=
  ⟨some_, List.all_eq_true.mp all⟩

theorem isPlain_of_isDigit {c : Char} (digit : c.isDigit = true) : isPlain c = true := by
  simp [isPlain, Char.isAlphanum, digit]

theorem plain_pad (n : Nat) : PlainField (pad 4 n) := by
  refine ⟨?_, fun c mem => isPlain_of_isDigit (pad_digit mem)⟩
  unfold pad
  simp

theorem plain_digits (n : Nat) : PlainField (Nat.toDigits 10 n) := by
  refine ⟨by simp, fun c mem => ?_⟩
  exact isPlain_of_isDigit (Nat.isDigit_of_mem_toDigits (by decide) (by decide) mem)

theorem plain_hex {hash : Text} (hex : isHex64 hash = true) : PlainField hash := by
  unfold isHex64 Shell.hex at hex
  obtain ⟨length, chars⟩ := Bool.and_eq_true_iff.mp hex
  refine ⟨fun none => ?_, fun c mem => ?_⟩
  · rw [none] at length
    cases length
  · have char := List.all_eq_true.mp chars c mem
    simp only [Bool.or_eq_true, Bool.and_eq_true, decide_eq_true_eq] at char
    rcases char with digit | ⟨low, high⟩
    · exact isPlain_of_isDigit digit
    · have alpha : c.isAlphanum = true := by
        have lower : c.isLower = true := (Bool.and_eq_true ..).mpr ⟨decide_eq_true low,
          decide_eq_true (Char.le_trans high (show 'f' ≤ 'z' by decide))⟩
        show ((c.isUpper || c.isLower) || c.isDigit) = true
        simp [lower]
      simp [isPlain, alpha]

theorem plain_datestamp (valid : isDatestamp ds = true) : PlainField ds := by
  unfold isDatestamp at valid
  split at valid
  · rename_i time rest
    simp only [Bool.and_eq_true] at valid
    obtain ⟨⟨date, _⟩, time'⟩ := valid
    refine ⟨fun none => by simp [none] at rest, fun c mem => ?_⟩
    rw [← List.take_append_drop 8 ds, rest] at mem
    rcases List.mem_append.mp mem with left | right
    · exact isPlain_of_isDigit (List.all_eq_true.mp date c left)
    · rcases List.mem_cons.mp right with rfl | right
      · decide
      · exact isPlain_of_isDigit (List.all_eq_true.mp time' c right)
  · cases valid

theorem plain_basename (kind : Kind) : PlainField kind.basename := by
  cases kind <;> exact .of_all (by decide) (by decide)

theorem plain_kind (kind : Kind) : PlainField kind.text := by
  cases kind <;> exact .of_all (by decide) (by decide)

theorem plain_append {a b : Text} (left : ∀ c ∈ a, isPlain c = true)
    (right : ∀ c ∈ b, isPlain c = true) : ∀ c ∈ a ++ b, isPlain c = true := by
  intro c mem
  rcases List.mem_append.mp mem with mem | mem
  · exact left c mem
  · exact right c mem

theorem plain_cons {c : Char} {b : Text} (first : isPlain c = true)
    (right : ∀ c ∈ b, isPlain c = true) : ∀ d ∈ c :: b, isPlain d = true :=
  plain_append (a := [c]) (fun d mem => by rw [List.mem_singleton.mp mem]; exact first) right

theorem plain_outputName (kind : Kind) (valid : isDatestamp ds = true) :
    ∀ c ∈ outputName kind ds, isPlain c = true :=
  plain_append (plain_basename kind).2 (plain_cons (by decide) (plain_datestamp valid).2)

theorem plain_relative {gid : Text} (kind : Kind) (id : PlainField gid)
    (valid : isDatestamp ds = true) : PlainField (groupRelative gid kind ds) := by
  constructor
  · exact List.append_ne_nil_of_right_ne_nil _
      (List.append_ne_nil_of_right_ne_nil _ (List.cons_ne_nil _ _))
  · have groups : ∀ c ∈ groupsPrefix, isPlain c = true := List.all_eq_true.mp (by decide)
    exact plain_append groups (plain_append id.2 (plain_cons (by decide) (plain_outputName kind valid)))

theorem plainRow_two {a b : Text} (h : PlainField a) (h' : PlainField b) : PlainRow [a, b] := by
  refine ⟨by simp, fun field mem => ?_⟩
  simp only [List.mem_cons, List.not_mem_nil, or_false] at mem
  rcases mem with rfl | rfl <;> assumption

section

variable [Ctype]

theorem executionRows_plain {kind : Kind} {gid : Text} {environment : List Text}
    (hex : ∀ text, isHex64 (digest text) = true) (id : PlainField gid) (used : Nat)
    (executions : List (StagedExecution kind)) :
    ∀ fields ∈ executionRows digest ds gid environment used executions, PlainRow fields := by
  induction executions generalizing used with
  | nil => intro fields mem; cases mem
  | cons execution rest ih =>
      intro fields mem
      rcases List.mem_cons.mp mem with rfl | mem
      · refine ⟨by simp, fun field mem => ?_⟩
        simp only [List.mem_cons, List.not_mem_nil, or_false] at mem
        rcases mem with rfl | rfl | rfl | rfl
        · exact .of_all (by decide) (by decide)
        · exact plain_pad _
        · exact id
        · exact plain_hex (hex _)
      · exact ih (used + 1) fields mem

theorem ledgerRows_plain (hex : ∀ text, isHex64 (digest text) = true)
    (valid : isDatestamp ds = true) (numbered used : Nat) (ledger : Ledger) :
    ∀ fields ∈ ledgerRows digest ds numbered used ledger, PlainRow fields := by
  induction ledger generalizing numbered used with
  | nil => intro fields mem; cases mem
  | cons group rest ih =>
      intro fields mem
      obtain ⟨kind, group⟩ := group
      rcases List.mem_append.mp mem with first | later
      · rcases List.mem_cons.mp first with rfl | first
        · refine ⟨by simp [groupFields], fun field mem => ?_⟩
          simp only [groupFields, List.mem_cons, List.not_mem_nil, or_false] at mem
          rcases mem with rfl | rfl | rfl | rfl | rfl | rfl
          · exact .of_all (by decide) (by decide)
          · exact plain_pad _
          · exact plain_kind kind
          · exact plain_relative kind (plain_pad _) valid
          · exact plain_hex (hex _)
          · exact plain_hex (hex _)
        · exact executionRows_plain hex (plain_pad _) used group.executions fields first
      · exact ih _ _ fields later

theorem manifestRowsOf_plain (hex : ∀ text, isHex64 (digest text) = true)
    (valid : isDatestamp ds = true) (ledger : Ledger) :
    ∀ fields ∈ manifestRowsOf digest ds ledger, PlainRow fields := by
  intro fields mem
  rcases List.mem_append.mp mem with header | later
  · simp only [headerRows, List.mem_cons, List.not_mem_nil, or_false] at header
    rcases header with rfl | rfl | rfl
    · exact plainRow_two (.of_all (by decide) (by decide)) (.of_all (by decide) (by decide))
    · exact plainRow_two (.of_all (by decide) (by decide)) (plain_digits _)
    · exact plainRow_two (.of_all (by decide) (by decide)) (plain_datestamp valid)
  · exact ledgerRows_plain hex valid 0 0 ledger fields later

end

/-! ## Reading the rows back -/

theorem not_break_of_plain {c : Char} (plain : isPlain c = true) : isLineBreak c = false ∧ c ≠ '\t' := by
  have none : ∀ c ∈ ['\t', '\n', '\r', '\x0b', '\x0c', '\x1c', '\x1d', '\x1e', '\x85', '\u2028',
      '\u2029'], isPlain c = false := none_of_all (by decide +kernel)
  constructor
  · by_contra isBreak
    rw [Bool.not_eq_false, isLineBreak, decide_eq_true_eq] at isBreak
    rw [none c (List.mem_cons_of_mem _ isBreak)] at plain
    cases plain
  · rintro rfl
    cases plain

theorem PlainRow.no_tab {fields : List Text} (plain : PlainRow fields) :
    ∀ field ∈ fields, '\t' ∉ field := fun field mem tab =>
  (not_break_of_plain ((plain.2 field mem).2 '\t' tab)).2 rfl

theorem PlainRow.splitOn {fields : List Text} (plain : PlainRow fields) :
    (row fields).splitOn '\t' = fields := splitOn_join plain.1 plain.no_tab

theorem PlainRow.no_break {fields : List Text} (plain : PlainRow fields) :
    ∀ c ∈ row fields, isLineBreak c = false := by
  intro c mem
  by_contra isBreak
  rw [Bool.not_eq_false] at isBreak
  have other : c ≠ '\t' := by
    rintro rfl
    cases isBreak
  refine not_mem_join other (fun field inside mem => ?_) mem
  rw [(not_break_of_plain ((plain.2 field inside).2 c mem)).1] at isBreak
  cases isBreak

theorem PlainRow.no_newline {fields : List Text} (plain : PlainRow fields) : '\n' ∉ row fields :=
  fun mem => by
    have no := plain.no_break '\n' mem
    cases no

theorem PlainRow.recordFields {fields : List Text} (plain : PlainRow fields) :
    recordFields (row fields) = fields := by
  have some_ : row fields ≠ [] := by
    intro none
    have split := plain.splitOn
    rw [none, List.splitOn_nil] at split
    exact (plain.2 [] (split ▸ List.mem_singleton.mpr rfl)).1 rfl
  rw [Batch.recordFields, if_neg some_, plain.splitOn]

theorem PlainRow.readFields {fields : List Text} (plain : PlainRow fields) :
    readFields (row fields) = fields := by
  rw [Batch.readFields, plain.splitOn]
  apply List.filter_eq_self.mpr
  intro field mem
  exact decide_eq_true (plain.2 field mem).1

variable {rows : List (List Text)}

theorem no_newline_of_rows (plain : ∀ fields ∈ rows, PlainRow fields) :
    ∀ line ∈ rows.map row, '\n' ∉ line := by
  intro line inside
  obtain ⟨fields, mem, rfl⟩ := List.mem_map.mp inside
  exact (plain fields mem).no_newline

theorem map_row_inverse {f : Text → List Text} (inverse : ∀ fields ∈ rows, f (row fields) = fields) :
    (rows.map row).map f = rows := by
  rw [List.map_map]
  exact (List.map_congr_left inverse).trans (List.map_id rows)

theorem records_rows (plain : ∀ fields ∈ rows, PlainRow fields) :
    (records (unlines (rows.map row))).map recordFields = rows := by
  rw [records_unlines (no_newline_of_rows plain)]
  exact map_row_inverse fun fields mem => (plain fields mem).recordFields

theorem readLines_rows (plain : ∀ fields ∈ rows, PlainRow fields) :
    (readLines (unlines (rows.map row))).map readFields = rows := by
  rw [readLines_unlines (no_newline_of_rows plain)]
  exact map_row_inverse fun fields mem => (plain fields mem).readFields

theorem splitlines_rows (plain : ∀ fields ∈ rows, PlainRow fields) :
    (splitlines (unlines (rows.map row))).map (·.splitOn '\t') = rows := by
  rw [splitlines_unlines]
  · exact map_row_inverse fun fields mem => (plain fields mem).splitOn
  · intro line inside
    obtain ⟨fields, mem, rfl⟩ := List.mem_map.mp inside
    exact (plain fields mem).no_break

/-! ## Rows and appended groups -/

theorem unlines_append (a b : List Text) : unlines (a ++ b) = unlines a ++ unlines b :=
  List.flatMap_append

theorem countRows_append (tag : Text) (a b : List (List Text)) :
    countRows tag (a ++ b) = countRows tag a + countRows tag b := by
  simp [countRows]

variable [Ctype]

theorem ledgerRows_append (ledger more : Ledger) (numbered used : Nat) :
    ledgerRows digest ds numbered used (ledger ++ more) =
      ledgerRows digest ds numbered used ledger ++
        ledgerRows digest ds (numbered + ledger.length) (used + ledger.total) more := by
  induction ledger generalizing numbered used with
  | nil => simp [ledgerRows, Ledger.total]
  | cons group rest ih =>
      have total : Ledger.total (group :: rest) = group.2.executions.length + Ledger.total rest := by
        simp [Ledger.total]
      simp only [List.cons_append, ledgerRows, ih, List.append_assoc, List.length_cons, total]
      congr 3
      · congr 1 <;> omega

theorem count_executionRows {kind : Kind} {gid : Text} {environment : List Text} (used : Nat)
    (executions : List (StagedExecution kind)) :
    countRows groupTag (executionRows digest ds gid environment used executions) = 0 ∧
      countRows executionTag (executionRows digest ds gid environment used executions) =
        executions.length := by
  induction executions generalizing used with
  | nil => exact ⟨rfl, rfl⟩
  | cons execution rest ih =>
      obtain ⟨groups, executions⟩ := ih (used + 1)
      unfold countRows at groups executions ⊢
      simp only [executionRows]
      refine ⟨?_, ?_⟩
      · rw [List.filter_cons_of_neg (by simp [tag_ne]), groups]
      · rw [List.filter_cons_of_pos (by simp), List.length_cons, executions, List.length_cons]

theorem count_ledgerRows (numbered used : Nat) (ledger : Ledger) :
    countRows groupTag (ledgerRows digest ds numbered used ledger) = ledger.length ∧
      countRows executionTag (ledgerRows digest ds numbered used ledger) = ledger.total := by
  induction ledger generalizing numbered used with
  | nil => exact ⟨rfl, rfl⟩
  | cons group rest ih =>
      obtain ⟨kind, group⟩ := group
      obtain ⟨groups, executions⟩ := ih (numbered + 1) (used + group.executions.length)
      obtain ⟨none, all⟩ := @count_executionRows digest ds _ _
        (pad 4 (numbered + 1)) group.environment used group.executions
      have first : ∀ tag, countRows tag [groupFields digest ds (pad 4 (numbered + 1)) group] =
          if tag = groupTag then 1 else 0 := by
        intro tag
        by_cases eq : tag = groupTag
        · subst eq
          rfl
        · rw [if_neg eq]
          unfold countRows
          rw [List.filter_cons_of_neg]
          · rfl
          · simp only [groupFields, List.head?_cons, Option.some.injEq, decide_eq_true_eq]
            exact fun same => eq same.symm
      have rows : ledgerRows digest ds numbered used (⟨kind, group⟩ :: rest) =
          [groupFields digest ds (pad 4 (numbered + 1)) group] ++
          (executionRows digest ds (pad 4 (numbered + 1)) group.environment used group.executions ++
            ledgerRows digest ds (numbered + 1) (used + group.executions.length) rest) := rfl
      rw [rows]
      simp only [countRows_append, first, groups, executions, none, all, List.length_cons,
        Ledger.total, List.map_cons, List.sum_cons]
      refine ⟨?_, ?_⟩
      · simp
        omega
      · simp [tag_ne]

end StorageScaleTest.Batch
