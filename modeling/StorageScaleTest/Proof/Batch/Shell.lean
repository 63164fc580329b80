import StorageScaleTest.Proof.Batch.Publish

/-!
# The shell accepts a committed batch

`elbencho_batch_verify_manifest` row by row, and what the shell's lookups find in the rows.
-/

namespace StorageScaleTest.Batch

open Shell

variable {digest : Text → Text} {ds : Text} {files : Files} {ledger : Ledger}

/-! ## Numbering -/

theorem isPositive_concat {text : Text} {c : Char} (positive : isPositive text = true)
    (digit : c.isDigit = true) : isPositive (text ++ [c]) = true := by
  cases text with
  | nil => cases positive
  | cons d rest =>
      simp only [isPositive, Bool.and_eq_true] at positive
      simp [isPositive, positive, digit]

theorem isPositive_digits {n : Nat} (positive : 0 < n) : isPositive (Nat.toDigits 10 n) = true := by
  induction n using Nat.strongRecOn with
  | ind n ih =>
      by_cases small : n < 10
      · rw [Nat.toDigits_of_lt_base small]
        have digits : ∀ n < 10, 0 < n → isPositive [Nat.digitChar n] = true := by decide
        exact digits n small positive
      · rw [Nat.toDigits_of_base_le (by decide) (by omega)]
        apply isPositive_concat (ih (n / 10) (by omega) (by omega))
        have digits : ∀ n < 10, (Nat.digitChar n).isDigit = true := by decide
        exact digits (n % 10) (by omega)

theorem total_pos (some_ : ledger ≠ []) (inhabited : ∀ group ∈ ledger, group.2.executions ≠ []) :
    0 < ledger.total := by
  cases ledger with
  | nil => exact absurd rfl some_
  | cons group rest =>
      have first := List.length_pos_of_ne_nil (inhabited group List.mem_cons_self)
      rw [Ledger.total_cons]
      omega

theorem isLooseDatestamp_of (valid : isDatestamp ds = true) : isLooseDatestamp ds = true := by
  unfold isDatestamp at valid
  split at valid
  · rename_i time rest
    simp only [Bool.and_eq_true, decide_eq_true_eq] at valid
    obtain ⟨⟨date, length⟩, digits⟩ := valid
    have parts : ds = ds.take 8 ++ 'Z' :: time := by rw [← rest, List.take_append_drop]
    have first : ds.take 8 ≠ [] := by
      intro none
      have short := congrArg List.length rest
      have empty := congrArg List.length none
      simp only [List.length_take, List.length_nil, List.length_drop, List.length_cons] at empty short
      omega
    have later : time ≠ [] := by
      rintro rfl
      cases length
    have digit := List.all_eq_true.mp date
    have dropped : ds.dropWhile Char.isDigit = 'Z' :: time := by
      rw [parts, List.dropWhile_append_of_pos digit]
      rfl
    have taken : ds.takeWhile Char.isDigit = ds.take 8 := by
      conv_lhs => rw [parts, List.takeWhile_append_of_pos digit]
      simp
    simp [isLooseDatestamp, dropped, taken, first, later, digits]
  · cases valid

section

variable [Ctype]

theorem awkRows_executions {kind : Kind} {gid : Text} {environment : List Text} {groups used : Nat}
    {seen : List Text} {rest : List (List Text)} (known : gid ∈ seen)
    (executions : List (StagedExecution kind)) :
    awkRows groups used seen (executionRows digest ds gid environment used executions ++ rest) =
      awkRows groups (used + executions.length) seen rest := by
  induction executions generalizing used with
  | nil => rfl
  | cons execution tail ih =>
      simp only [executionRows, List.cons_append, awkRows]
      rw [if_pos ⟨trivial, trivial, known⟩, ih, List.length_cons]
      congr 1
      omega

theorem awkRows_ledger {numbered used : Nat} {seen : List Text} :
    awkRows numbered used seen (ledgerRows digest ds numbered used ledger) =
      some (numbered + ledger.length, used + ledger.total) := by
  induction ledger generalizing numbered used seen with
  | nil => rfl
  | cons group rest ih =>
      obtain ⟨kind, group⟩ := group
      have kinds : kind.text = Kind.io.text ∨ kind.text = Kind.mdtest.text := by
        cases kind
        · exact .inl rfl
        · exact .inr rfl
      simp only [ledgerRows, groupFields, List.cons_append, awkRows]
      rw [if_pos ⟨trivial, trivial, kinds⟩, awkRows_executions List.mem_cons_self, ih,
        Ledger.total_cons, List.length_cons]
      simp only [Option.some.injEq, Prod.mk.injEq]
      omega

theorem awkVerify_manifest (valid : isDatestamp ds = true) (some_ : ledger ≠ [])
    (inhabited : ∀ group ∈ ledger, group.2.executions ≠ []) (total : ledger.total ≤ 9999) :
    awkVerify (manifestRowsOf digest ds ledger) = true := by
  have positive := List.length_pos_of_ne_nil some_
  have executions := total_pos some_ inhabited
  simp only [manifestRowsOf, headerRows, List.cons_append, List.nil_append, awkVerify,
    isPositive_digits positive, isLooseDatestamp_of valid, awkRows_ledger, Nat.zero_add,
    Nat.ofDigitChars_ten_toDigits]
  simp only [decide_true, Bool.and_true, Bool.true_and, Bool.and_eq_true, decide_eq_true_eq]
  omega

theorem datestampOf_manifest : datestampOf (manifestRowsOf digest ds ledger) = ds := by
  have none : (ledgerRows digest ds 0 0 ledger).filter
      (fun fields => fields.head? = some datestampTag) = [] := by
    apply List.filter_eq_nil_iff.mpr
    intro fields mem
    rcases ledgerRows_head 0 0 ledger fields mem with head | head <;> simp [head, tag_ne]
  have found : (manifestRowsOf digest ds ledger).filter
      (fun fields => fields.head? = some datestampTag) = [[datestampTag, ds]] := by
    simp [manifestRowsOf, headerRows, none, tag_ne]
  rw [datestampOf, found]
  rfl

end

/-! ## Files -/

theorem hasDigest_of {path : Path} {content : Text} (hex : ∀ text, isHex64 (digest text) = true)
    (present : files path = some (.regular content)) :
    hasDigest digest files path (digest content) = true := by
  simp [hasDigest, present, hex]

theorem Unlinked.isLink (plain : Unlinked files) (path : Path) : isLink files path = false :=
  decide_eq_false (plain path)

theorem verifyGroup_fields {kind : Kind} {gid : Text} {group : StagedGroup kind}
    (hex : ∀ text, isHex64 (digest text) = true) (plain : Unlinked files)
    (present : PresentGroup ds gid group files) :
    verifyGroup digest ds files (groupFields digest ds gid group) = true := by
  have basename : (if kind.text = Kind.mdtest.text then Kind.mdtest.basename else Kind.io.basename) =
      kind.basename := by
    cases kind <;> rfl
  unfold verifyGroup groupFields
  simp only [List.getD_cons_succ, List.getD_cons_zero, basename, plain.isLink]
  have shell := hasDigest_of hex present.shell
  have yaml := hasDigest_of hex present.yaml
  unfold outputName at shell yaml
  rw [shell, yaml]
  simp [groupRelative, outputName]

theorem verifyLine_row {fields : List Text} (full : Bool) (plain : PlainRow fields) :
    verifyLine digest full ds files (row fields) =
      if fields.getD 0 [] = groupTag then verifyGroup digest ds files fields
      else if fields.getD 0 [] = executionTag then verifyExecution digest full files fields
      else true := by
  unfold verifyLine
  rw [plain.readFields]

variable [Ctype]

theorem verifyExecution_fields {kind : Kind} {gid : Text} {environment : List Text} {used : Nat}
    {executions : List (StagedExecution kind)} (hex : ∀ text, isHex64 (digest text) = true)
    (present : PresentExecutions ds gid environment files used executions) :
    ∀ fields ∈ executionRows digest ds gid environment used executions,
      verifyExecution digest true files fields = true := by
  induction executions generalizing used with
  | nil => intro fields mem; cases mem
  | cons execution rest ih =>
      obtain ⟨definition, status, later⟩ := present
      intro fields mem
      rcases List.mem_cons.mp mem with rfl | mem
      · unfold verifyExecution
        simp only [List.getD_cons_succ, List.getD_cons_zero, hex, hasDigest_of hex definition,
          status]
        have found : stripNewlines (unlines [pendingWord]) = pendingWord := by decide
        simp [found]
      · exact ih later fields mem

theorem verifyRows (hex : ∀ text, isHex64 (digest text) = true) (plain : Unlinked files)
    {numbered used : Nat} (present : Present ds files numbered used ledger) :
    ∀ fields ∈ ledgerRows digest ds numbered used ledger,
      (fields.getD 0 [] = groupTag → verifyGroup digest ds files fields = true) ∧
      (fields.getD 0 [] = executionTag → verifyExecution digest true files fields = true) := by
  induction ledger generalizing numbered used with
  | nil => intro fields mem; cases mem
  | cons group rest ih =>
      obtain ⟨kind, group⟩ := group
      obtain ⟨first, executions, later⟩ := present
      intro fields mem
      rcases List.mem_append.mp mem with mem | mem
      · rcases List.mem_cons.mp mem with rfl | mem
        · exact ⟨fun _ => verifyGroup_fields hex plain first, fun eq => absurd eq tag_ne.2.1⟩
        · refine ⟨fun eq => ?_, fun _ => verifyExecution_fields hex executions fields mem⟩
          have head := executionRows_head used group.executions fields mem
          cases fields with
          | nil => cases head
          | cons tag tail =>
              exact absurd (eq.symm.trans (Option.some.inj head)) tag_ne.2.1
      · exact ih later fields mem

theorem verifyManifest_holds (hex : ∀ text, isHex64 (digest text) = true)
    (valid : isDatestamp ds = true) (holds : Holds digest ds ledger files) (some_ : ledger ≠ []) :
    verifyManifest digest true files = true := by
  have plain := manifestRowsOf_plain hex valid ledger
  have rows := records_rows plain
  have lines : readLines (manifestText digest ds ledger) =
      (manifestRowsOf digest ds ledger).map row := readLines_unlines (no_newline_of_rows plain)
  have verified : ((manifestRowsOf digest ds ledger).map row).all (verifyLine digest true ds files) =
      true := by
    apply List.all_eq_true.mpr
    intro line inside
    obtain ⟨fields, mem, rfl⟩ := List.mem_map.mp inside
    rw [verifyLine_row true (plain fields mem)]
    rcases List.mem_append.mp mem with header | mem
    · simp only [headerRows, List.mem_cons, List.not_mem_nil, or_false] at header
      rcases header with rfl | rfl | rfl <;> simp [tag_ne]
    · have verified := verifyRows hex holds.unlinked holds.present fields mem
      split
      · rename_i group
        exact verified.1 group
      · split
        · rename_i execution
          exact verified.2 execution
        · rfl
  unfold verifyManifest
  rw [holds.manifest]
  simp only
  rw [lines, manifestText, rows, datestampOf_manifest, awkVerify_manifest valid some_ holds.inhabited
    holds.total, valid, verified, holds.profile, verifySeal, holds.unsealed, holds.executions]
  simp

end StorageScaleTest.Batch
