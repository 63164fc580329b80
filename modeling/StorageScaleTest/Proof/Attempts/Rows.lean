import StorageScaleTest.Attempts.Identity
import Mathlib.Data.List.Forall2

/-!
# Rows of claim tuples

A row that is written from a tuple is read back as the tuple, where no field holds a separator. What
is read otherwise is no tuple that was given.
-/

namespace StorageScaleTest.Attempts
open Shell Targets Templates

/-! ## Fields of a line -/

theorem readFields_tab (count : Nat) (line : Text) :
    readFields (count + 1) ('\t' :: line) = readFields (count + 1) line := by
  cases count <;> simp [readFields]

theorem readFields_nil (count : Nat) :
    readFields (count + 1) [] = List.replicate (count + 1) [] := by
  induction count with
  | zero => rfl
  | succ count ih =>
      rw [readFields, List.dropWhile_nil, List.takeWhile_nil, List.dropWhile_nil, ih]
      rfl

theorem readFields_ne_nil (count : Nat) (line : Text) : readFields (count + 1) line ≠ [] := by
  cases count <;> simp [readFields]

theorem dropWhile_cases (line : Text) :
    line.dropWhile (· ≠ '\t') = [] ∨
      ∃ rest, line.dropWhile (· ≠ '\t') = '\t' :: rest ∧
        line = line.takeWhile (· ≠ '\t') ++ '\t' :: rest := by
  cases eq : line.dropWhile (· ≠ '\t') with
  | nil => exact Or.inl rfl
  | cons c rest =>
      have stop := List.head_dropWhile_not (p := (· ≠ '\t')) (l := line)
        (eq ▸ List.cons_ne_nil c rest)
      simp only [eq, List.head_cons] at stop
      have tab : c = '\t' := not_not.mp (of_decide_eq_false stop)
      subst tab
      refine Or.inr ⟨rest, rfl, ?_⟩
      conv_lhs => rw [← List.takeWhile_append_dropWhile (p := (· ≠ '\t')) (l := line)]
      rw [eq]

theorem count_dropWhile_le (line : Text) : (line.dropWhile (· = '\t')).count '\t' ≤ line.count '\t' :=
  (List.dropWhile_sublist _).count_le '\t'

theorem tabs_of_readFields {count : Nat} {line : Text}
    (full : (readFields (count + 1) line).getLast? ≠ some []) : count ≤ line.count '\t' := by
  induction count generalizing line with
  | zero => exact Nat.zero_le _
  | succ count ih =>
      rw [readFields, List.getLast?_cons_of_ne_nil (readFields_ne_nil count _)] at full
      rcases dropWhile_cases (line.dropWhile (· = '\t')) with empty | ⟨rest, eq, whole⟩
      · rw [empty, readFields_nil] at full
        rw [List.getLast?_replicate] at full
        exact absurd (if_neg (Nat.succ_ne_zero count)) full
      · rw [eq, readFields_tab] at full
        calc
          count + 1 ≤ rest.count '\t' + 1 := Nat.succ_le_succ (ih full)
          _ = ('\t' :: rest).count '\t' := List.count_cons_self.symm
          _ ≤ (line.dropWhile (· = '\t')).count '\t' := by
            rw [whole, List.count_append]
            exact Nat.le_add_left _ _
          _ ≤ line.count '\t' := count_dropWhile_le line

/-- With no more separators than needed, every one of them ends a variable. -/
theorem readFields_exact {count : Nat} {line : Text}
    (full : (readFields (count + 1) line).getLast? ≠ some []) (tabs : line.count '\t' = count) :
    readFields (count + 1) line = line.splitOn '\t' := by
  induction count generalizing line with
  | zero =>
      have absent : '\t' ∉ line := List.count_eq_zero.mp tabs
      have other : ∀ c ∈ line, ¬decide (c = '\t') = true := fun c mem eq =>
        absent (of_decide_eq_true eq ▸ mem)
      have front : line.dropWhile (· = '\t') = line := by
        cases line with
        | nil => rfl
        | cons c line => exact List.dropWhile_cons_of_neg (other c List.mem_cons_self)
      have back : line.rdropWhile (· = '\t') = line := by
        rw [List.rdropWhile_eq_self_iff]
        exact fun some_ => other _ (List.getLast_mem some_)
      rw [readFields, front, back, List.splitOn_eq_singleton absent]
  | succ count ih =>
      have start : line.dropWhile (· = '\t') = line := by
        cases line with
        | nil => rfl
        | cons c line =>
            apply List.dropWhile_cons_of_neg
            intro tab
            rw [of_decide_eq_true tab] at full tabs
            rw [readFields_tab] at full
            rw [List.count_cons_self] at tabs
            have more := tabs_of_readFields full
            omega
      rw [readFields, start] at full ⊢
      rw [List.getLast?_cons_of_ne_nil (readFields_ne_nil count _)] at full
      rcases dropWhile_cases line with empty | ⟨rest, eq, whole⟩
      · rw [empty, readFields_nil] at full
        rw [List.getLast?_replicate] at full
        exact absurd (if_neg (Nat.succ_ne_zero count)) full
      · have free : '\t' ∉ line.takeWhile (· ≠ '\t') := fun mem => by
          simpa using List.mem_takeWhile_imp mem
        rw [eq, readFields_tab] at full ⊢
        rw [whole, List.count_append, List.count_eq_zero.mpr free, Nat.zero_add,
          List.count_cons_self] at tabs
        rw [ih full (Nat.succ.inj tabs)]
        conv_rhs => rw [whole]
        rw [List.splitOn_append_cons_of_beq _ _ (beq_self_eq_true '\t'),
          List.splitOn_eq_singleton free]
        rfl

/-! ## Lines of the sorted rows -/

variable {digest : Text → Option Text} {segments : List (Text × Text)}

def Claim.tuple (claim : Claim) : ClaimTuple :=
  ⟨claim.ns, claim.nsUid, claim.pv, claim.pvUid, claim.pvc, claim.pvcUid⟩

theorem validUids_of_lease {nsUid pvUid pvcUid lease : Text}
    (found : pvcLeaseName digest nsUid pvUid pvcUid = some lease) :
    validateUid nsUid ∧ validateUid pvUid ∧ validateUid pvcUid := by
  rw [pvcLeaseName] at found
  split at found
  case isTrue valid => exact valid
  case isFalse => cases found

theorem readRow_eq_some {line : Text} {claim : Claim}
    (read : readRow digest segments line = some claim) :
    readFields 6 line =
        [claim.ns, claim.pvc, claim.nsUid, claim.pv, claim.pvUid, claim.pvcUid] ∧
      pvcLeaseName digest claim.nsUid claim.pvUid claim.pvcUid = some claim.lease ∧
      claim.segment = ((segments.map Prod.fst).idxOf? claim.ns).elim [] (Nat.toDigits 10) := by
  rw [readRow] at read
  split at read
  case h_1 ns pvc nsUid pv pvUid pvcUid fields =>
    obtain ⟨lease, found, rfl⟩ := Option.map_eq_some_iff.mp read
    exact ⟨fields, found, rfl⟩
  case h_2 => cases read

theorem ne_nil_of_validateUid {uid : Text} (valid : validateUid uid) : uid ≠ [] := by
  rintro rfl
  cases valid

theorem full_of_readRow {line : Text} {claim : Claim}
    (read : readRow digest segments line = some claim) :
    (readFields (5 + 1) line).getLast? ≠ some [] := by
  obtain ⟨fields, lease, -⟩ := readRow_eq_some read
  rw [fields]
  intro last
  exact ne_nil_of_validateUid (validUids_of_lease lease).2.2 (Option.some.inj last)

theorem readLines_rows (rows : List Text) :
    readLines (unlines rows) = rows.flatMap fun row => row.splitOn '\n' := by
  have whole : (unlines rows).splitOn '\n' = (rows.flatMap fun row => row.splitOn '\n') ++ [[]] := by
    induction rows with
    | nil => rfl
    | cons row rows ih =>
        have split : unlines (row :: rows) = row ++ '\n' :: unlines rows := by simp [unlines]
        rw [split, List.splitOn_append_cons_of_beq _ _ (beq_self_eq_true '\n'), ih,
          List.flatMap_cons, List.append_assoc]
  rw [readLines, whole, List.dropLast_concat]

/-! ## Clean tuples -/

def separates (c : Char) : Bool := c = '\t' || c = '\n'

def ClaimTuple.Clean (t : ClaimTuple) : Prop :=
  ∀ uid ∈ [t.nsUid, t.pvUid, t.pvcUid], uid.any separates = false

instance (t : ClaimTuple) : Decidable t.Clean :=
  inferInstanceAs (Decidable (∀ uid ∈ [t.nsUid, t.pvUid, t.pvcUid], _))

theorem not_separates_of_uid {uid : Text} (valid : validateUid uid = true) :
    uid.any separates = false := by
  cases uid with
  | nil => rfl
  | cons c rest =>
      simp only [validateUid, uidWord, begins, Bool.and_eq_true, List.all_eq_true] at valid
      obtain ⟨-, first, others⟩ := valid
      rw [List.any_eq_false]
      intro d mem separator
      simp only [separates, Bool.or_eq_true, decide_eq_true_iff] at separator
      rcases List.mem_cons.mp mem with rfl | mem
      · rcases separator with rfl | rfl <;> exact absurd first (by decide)
      · have letter := others d mem
        rcases separator with rfl | rfl <;> exact absurd letter (by decide)

theorem ClaimTuple.Clean.tab {t : ClaimTuple} (clean : t.Clean) {uid : Text}
    (mem : uid ∈ [t.nsUid, t.pvUid, t.pvcUid]) : '\t' ∉ uid := by
  intro tab
  have none := clean uid mem
  rw [List.any_eq_false] at none
  exact none '\t' tab rfl

theorem count_row {t : ClaimTuple} (plain : '\t' ∉ t.ns ∧ '\t' ∉ t.pv ∧ '\t' ∉ t.pvc)
    (clean : t.Clean) : t.row.count '\t' = 5 := by
  have nsUid : '\t' ∉ t.nsUid := clean.tab (by simp)
  have pvUid : '\t' ∉ t.pvUid := clean.tab (by simp)
  have pvcUid : '\t' ∉ t.pvcUid := clean.tab (by simp)
  simp [ClaimTuple.row, join, List.intercalate_cons_cons, List.count_append,
    List.count_eq_zero.mpr plain.1, List.count_eq_zero.mpr plain.2.1,
    List.count_eq_zero.mpr plain.2.2, List.count_eq_zero.mpr nsUid,
    List.count_eq_zero.mpr pvUid, List.count_eq_zero.mpr pvcUid]

theorem newline_not_mem_row {row : Text} (tabs : row.count '\t' = 5)
    (reads : ∀ line ∈ row.splitOn '\n', (readRow digest segments line).isSome) : '\n' ∉ row := by
  have enough (line : Text) (mem : line ∈ row.splitOn '\n') : 5 ≤ line.count '\t' := by
    obtain ⟨claim, read⟩ := Option.isSome_iff_exists.mp (reads line mem)
    exact tabs_of_readFields (full_of_readRow read)
  intro mem
  obtain ⟨front, back, rfl, absent⟩ := List.eq_append_cons_of_mem mem
  rw [List.splitOn_append_cons_of_beq _ _ (beq_self_eq_true '\n'),
    List.splitOn_eq_singleton absent] at enough
  have first := enough front List.mem_cons_self
  have second : 5 ≤ back.count '\t' := by
    by_cases more : '\n' ∈ back
    · obtain ⟨middle, rest, rfl, absent'⟩ := List.eq_append_cons_of_mem more
      rw [List.splitOn_append_cons_of_beq _ _ (beq_self_eq_true '\n'),
        List.splitOn_eq_singleton absent'] at enough
      rw [List.count_append]
      exact Nat.le_add_right_of_le (enough middle (by simp))
    · rw [List.splitOn_eq_singleton more] at enough
      exact enough back (by simp)
  rw [List.count_append, List.count_cons_of_ne (by decide)] at tabs
  omega

theorem tuple_of_readRow {t : ClaimTuple} {claim : Claim}
    (plain : '\t' ∉ t.ns ∧ '\t' ∉ t.pv ∧ '\t' ∉ t.pvc) (clean : t.Clean)
    (read : readRow digest segments t.row = some claim) : claim.tuple = t := by
  have fields := (readRow_eq_some read).1
  rw [readFields_exact (full_of_readRow read) (count_row plain clean), ClaimTuple.row,
    splitOn_join (by simp)] at fields
  · simp only [List.cons.injEq, and_true] at fields
    obtain ⟨ns, pvc, nsUid, pv, pvUid, pvcUid⟩ := fields
    rw [Claim.tuple, ← ns, ← pvc, ← nsUid, ← pv, ← pvUid, ← pvcUid]
  · simp only [List.forall_mem_cons]
    exact ⟨plain.1, plain.2.2, clean.tab (by simp), plain.2.1, clean.tab (by simp),
      clean.tab (by simp), by simp⟩

end StorageScaleTest.Attempts
