import StorageScaleTest.Proof.Attempts.Rows
import StorageScaleTest.Decimal.Numeral

/-!
# What the checks of an identity establish

The claims are in order and use no volume twice, and the segments and claims refer to each other.
-/

namespace StorageScaleTest.Attempts
open Shell Targets Templates

variable {digest : Text → Option Text} {identity : Identity}

/-! ## Numbers -/

theorem number_toDigits (n : Nat) : number (Nat.toDigits 10 n) = n := Nat.ofDigitChars_ten_toDigits

theorem toDigits_number {value : Text} (valid : positive value = true) :
    Nat.toDigits 10 (number value) = value := by
  cases value with
  | nil => cases valid
  | cons c rest =>
      simp only [positive, begins, Bool.and_eq_true, decide_eq_true_iff, List.all_eq_true] at valid
      obtain ⟨⟨digit, nonzero⟩, digits⟩ := valid
      have all : Decimal.IsDigits (c :: rest) := by
        intro d mem
        rcases List.mem_cons.mp mem with rfl | mem
        · exact digit
        · exact digits d mem
      exact Decimal.numeral_value all (Or.inl nonzero)

theorem toDigits_segmentIndex {value : Text} (valid : validateSegmentIndex value = true) :
    Nat.toDigits 10 (number value) = value := by
  simp only [validateSegmentIndex, Bool.and_eq_true, Bool.or_eq_true, decide_eq_true_iff] at valid
  rcases valid.1 with rfl | ⟨pos, -⟩
  · rfl
  · exact toDigits_number pos

/-! ## The loop over the claims -/

def Claim.key (claim : Claim) : Text := claim.ns ++ '\t' :: claim.pvc

theorem validateClaim_eq_some {seen seen' : Seen} {claim : Claim}
    (accepted : validateClaim digest identity seen claim = some seen') :
    validateClaimIdentityEntry digest identity claim = true ∧
      (seen.previous ≠ [] → seen.previous < claim.key) ∧
      (claim.pv ∉ seen.pvs ∧ claim.pvUid ∉ seen.pvUids ∧ claim.pvcUid ∉ seen.pvcUids) ∧
      seen' = ⟨claim.key, claim.pv :: seen.pvs, claim.pvUid :: seen.pvUids,
        claim.pvcUid :: seen.pvcUids, seen.used.insert claim.segment⟩ := by
  rw [validateClaim] at accepted
  split_ifs at accepted with entry order fresh
  push Not at order fresh
  exact ⟨entry, order, fresh, (Option.some.inj accepted).symm⟩

structure ClaimsChecked (digest : Text → Option Text) (identity : Identity) (seen seen' : Seen)
    (claims : List Claim) : Prop where
  entries : ∀ claim ∈ claims, validateClaimIdentityEntry digest identity claim = true
  later : seen.previous ≠ [] → ∀ claim ∈ claims, seen.previous < claim.key
  sorted : claims.Pairwise fun a b => a.key < b.key
  pvs : (claims.map Claim.pv).Nodup ∧ ∀ claim ∈ claims, claim.pv ∉ seen.pvs
  pvUids : (claims.map Claim.pvUid).Nodup ∧ ∀ claim ∈ claims, claim.pvUid ∉ seen.pvUids
  pvcUids : (claims.map Claim.pvcUid).Nodup ∧ ∀ claim ∈ claims, claim.pvcUid ∉ seen.pvcUids
  used : seen.used.Nodup → seen'.used.Nodup ∧
    ∀ segment, segment ∈ seen'.used ↔ segment ∈ seen.used ∨ ∃ claim ∈ claims, claim.segment = segment

theorem nodup_cons {field : Claim → Text} {claim : Claim} {claims : List Claim} {seen : List Text}
    (fresh : field claim ∉ seen)
    (later : (claims.map field).Nodup ∧ ∀ other ∈ claims, field other ∉ field claim :: seen) :
    ((claim :: claims).map field).Nodup ∧ ∀ other ∈ claim :: claims, field other ∉ seen := by
  refine ⟨?_, fun other mem => ?_⟩
  · rw [List.map_cons, List.nodup_cons]
    refine ⟨fun mem => ?_, later.1⟩
    obtain ⟨other, inside, eq⟩ := List.mem_map.mp mem
    exact later.2 other inside (eq ▸ List.mem_cons_self)
  · rcases List.mem_cons.mp mem with rfl | mem
    · exact fresh
    · exact fun old => later.2 other mem (List.mem_cons_of_mem _ old)

theorem claimsChecked {seen seen' : Seen} {claims : List Claim}
    (accepted : claims.foldlM (validateClaim digest identity) seen = some seen') :
    ClaimsChecked digest identity seen seen' claims := by
  induction claims generalizing seen with
  | nil =>
      cases accepted
      exact ⟨by simp, by simp, List.Pairwise.nil, by simp, by simp, by simp,
        fun distinct => ⟨distinct, by simp⟩⟩
  | cons claim claims ih =>
      rw [List.foldlM_cons] at accepted
      obtain ⟨next, first, rest⟩ := Option.bind_eq_some_iff.mp accepted
      obtain ⟨entry, order, ⟨pv, pvUid, pvcUid⟩, rfl⟩ := validateClaim_eq_some first
      have checked := ih rest
      have after : ∀ other ∈ claims, claim.key < other.key :=
        checked.later (List.append_ne_nil_of_right_ne_nil _ (List.cons_ne_nil _ _))
      refine ⟨?_, fun some_ other mem => ?_, List.pairwise_cons.mpr ⟨after, checked.sorted⟩,
        nodup_cons pv checked.pvs, nodup_cons pvUid checked.pvUids,
        nodup_cons pvcUid checked.pvcUids, fun distinct => ?_⟩
      · exact List.forall_mem_cons.mpr ⟨entry, checked.entries⟩
      · rcases List.mem_cons.mp mem with rfl | mem
        · exact order some_
        · exact lt_trans (order some_) (after other mem)
      · obtain ⟨distinct', all⟩ := checked.used (distinct.insert)
        refine ⟨distinct', fun segment => ?_⟩
        rw [all, List.mem_insert_iff]
        simp only [List.mem_cons, exists_eq_or_imp]
        constructor
        · rintro ((eq | old) | later)
          · exact Or.inr (Or.inl eq.symm)
          · exact Or.inl old
          · exact Or.inr (Or.inr later)
        · rintro (old | eq | later)
          · exact Or.inl (Or.inr old)
          · exact Or.inl (Or.inl eq.symm)
          · exact Or.inr later

/-! ## Checked identities -/

structure Checked (digest : Text → Option Text) (identity : Identity) : Prop where
  segmentCount : validateCount maxSegments identity.segmentCount = true
  claimCount : validateCount maxClaims identity.claimCount = true
  segmentArrays : ∀ array ∈ identity.segmentArrays,
    array.2.length = number identity.segmentCount
  claimArrays : ∀ array ∈ identity.claimArrays, array.2.length = number identity.claimCount
  segments : validateSegments [] [] (identity.segmentNamespaces.zip identity.segmentNamespaceUids)
  claims : ∃ seen, ClaimsChecked digest identity ⟨[], [], [], [], []⟩ seen identity.claims ∧
    seen.used.length = number identity.segmentCount

theorem checked_of_valid (valid : validateAttemptIdentityArrays digest identity = true) :
    Checked digest identity := by
  simp only [validateAttemptIdentityArrays, Bool.and_eq_true, decide_eq_true_iff, List.all_eq_true,
    Option.any_eq_true] at valid
  obtain ⟨⟨⟨⟨⟨⟨segmentCount, claimCount⟩, -⟩, segmentArrays⟩, claimArrays⟩, segments⟩, seen, fold,
    used⟩ := valid
  exact ⟨segmentCount, claimCount, segmentArrays, claimArrays, segments, seen, claimsChecked fold,
    used⟩

theorem valid_of_segments {namespaces uids : List Text} {segments : List (Text × Text)}
    (valid : validateSegments namespaces uids segments = true) :
    ∀ segment ∈ segments, validateNamespaceName segment.1 = true ∧ validateUid segment.2 = true := by
  induction segments generalizing namespaces uids with
  | nil => simp
  | cons segment segments ih =>
      obtain ⟨ns, uid⟩ := segment
      simp only [validateSegments, Bool.and_eq_true] at valid
      obtain ⟨⟨⟨⟨name, uid⟩, -⟩, -⟩, rest⟩ := valid
      exact List.forall_mem_cons.mpr ⟨⟨name, uid⟩, ih rest⟩

structure Entry (digest : Text → Option Text) (identity : Identity) (claim : Claim) : Prop where
  segment : Nat.toDigits 10 (number claim.segment) = claim.segment
  below : number claim.segment < number identity.segmentCount
  ns : identity.segmentNamespaces[number claim.segment]? = some claim.ns
  nsUid : identity.segmentNamespaceUids[number claim.segment]? = some claim.nsUid
  pvc : validateDnsSubdomain claim.pvc = true
  pvcUid : validateUid claim.pvcUid = true
  pv : validateDnsSubdomain claim.pv = true
  pvUid : validateUid claim.pvUid = true
  lease : pvcLeaseName digest claim.nsUid claim.pvUid claim.pvcUid = some claim.lease

theorem entry_of_valid {claim : Claim}
    (valid : validateClaimIdentityEntry digest identity claim = true) :
    Entry digest identity claim := by
  simp only [validateClaimIdentityEntry, Bool.and_eq_true, decide_eq_true_iff] at valid
  obtain ⟨⟨⟨⟨⟨⟨⟨⟨segment, below⟩, ns⟩, nsUid⟩, pvc⟩, pvcUid⟩, pv⟩, pvUid⟩, lease⟩ := valid
  exact ⟨toDigits_segmentIndex segment, below, ns, nsUid, pvc, pvcUid, pv, pvUid, lease⟩

section

variable (checked : Checked digest identity)
include checked

theorem Checked.entry {claim : Claim} (mem : claim ∈ identity.claims) :
    Entry digest identity claim := by
  obtain ⟨seen, claims, -⟩ := checked.claims
  exact entry_of_valid (claims.entries claim mem)

theorem Checked.segment {position : Nat} {ns uid : Text}
    (name : identity.segmentNamespaces[position]? = some ns)
    (uid_eq : identity.segmentNamespaceUids[position]? = some uid) :
    validateNamespaceName ns = true ∧ validateUid uid = true := by
  have both : (identity.segmentNamespaces.zip identity.segmentNamespaceUids)[position]? =
      some (ns, uid) :=
    List.getElem?_zip_eq_some.mpr ⟨name, uid_eq⟩
  exact valid_of_segments checked.segments (ns, uid) (List.mem_of_getElem? both)

theorem Checked.exists_claim {position : Nat} (below : position < number identity.segmentCount) :
    ∃ claim ∈ identity.claims, claim.segment = Nat.toDigits 10 position := by
  obtain ⟨seen, claims, used⟩ := checked.claims
  obtain ⟨distinct, all⟩ := claims.used List.nodup_nil
  have canonical : ∀ segment ∈ seen.used, Nat.toDigits 10 (number segment) = segment ∧
      number segment < number identity.segmentCount := by
    intro segment mem
    obtain ⟨claim, inside, rfl⟩ := ((all segment).mp mem).resolve_left List.not_mem_nil
    exact ⟨(checked.entry inside).segment, (checked.entry inside).below⟩
  have distinct' : (seen.used.map number).Nodup := by
    refine distinct.map_on fun a mem b mem' same => ?_
    rw [← (canonical a mem).1, same, (canonical b mem').1]
  have inside : seen.used.map number ⊆ List.range (number identity.segmentCount) := by
    intro n mem
    obtain ⟨segment, inside, rfl⟩ := List.mem_map.mp mem
    exact List.mem_range.mpr (canonical segment inside).2
  have perm : (seen.used.map number).Perm (List.range (number identity.segmentCount)) :=
    (List.subperm_of_subset distinct' inside).perm_of_length_le (by simp [used])
  obtain ⟨segment, mem, eq⟩ := List.mem_map.mp (perm.mem_iff.mpr (List.mem_range.mpr below))
  obtain ⟨claim, inside, rfl⟩ := ((all segment).mp mem).resolve_left List.not_mem_nil
  exact ⟨claim, inside, eq ▸ (canonical _ mem).1.symm⟩

end

/-! ## The order of the claims -/

theorem tab_lt_of_edge {c : Char} (plain : edge c = true ∨ c = '-') : '\t' < c := by
  by_contra before
  have small : c.toNat < 10 := Nat.lt_succ_of_le (Char.le_def.mp (not_lt.mp before))
  rw [← Char.ofNat_toNat c] at plain
  have below : ∀ n < 10, ¬(edge (Char.ofNat n) = true ∨ Char.ofNat n = '-') := by decide
  exact below _ small plain

theorem tab_lt_of_label {word : Text} (valid : label word = true) : ∀ c ∈ word, '\t' < c := by
  simp only [label, Bool.and_eq_true, List.all_eq_true, Bool.or_eq_true, decide_eq_true_iff] at valid
  exact fun c mem => tab_lt_of_edge (valid.2 c mem)

/-- Names in front of a separator below all their characters are compared first. -/
theorem lt_of_key_lt {a b p q : Text} (plain : ∀ c ∈ a, '\t' < c)
    (less : a ++ '\t' :: p < b ++ '\t' :: q) : a < b ∨ a = b ∧ p < q := by
  induction a generalizing b with
  | nil =>
      cases b with
      | nil =>
          rw [List.nil_append, List.nil_append, List.cons_lt_cons_iff] at less
          exact Or.inr ⟨rfl, (less.resolve_left (lt_irrefl _)).2⟩
      | cons d b => exact Or.inl (List.nil_lt_cons d b)
  | cons c a ih =>
      cases b with
      | nil =>
          rw [List.cons_append, List.nil_append, List.cons_lt_cons_iff] at less
          have above := plain c List.mem_cons_self
          rcases less with below | ⟨eq, -⟩
          · exact absurd below (lt_asymm above)
          · exact absurd eq (ne_of_gt above)
      | cons d b =>
          rw [List.cons_append, List.cons_append, List.cons_lt_cons_iff] at less
          rcases less with first | ⟨rfl, rest⟩
          · exact Or.inl (List.cons_lt_cons_iff.mpr (Or.inl first))
          · rcases ih (fun e mem => plain e (List.mem_cons_of_mem _ mem)) rest with before | ⟨rfl, later⟩
            · exact Or.inl (List.cons_lt_cons_iff.mpr (Or.inr ⟨rfl, before⟩))
            · exact Or.inr ⟨rfl, later⟩

theorem Checked.sorted (checked : Checked digest identity) :
    identity.claims.Pairwise fun a b => a.ns < b.ns ∨ a.ns = b.ns ∧ a.pvc < b.pvc := by
  obtain ⟨seen, claims, -⟩ := checked.claims
  refine claims.sorted.imp_of_mem fun {a b} mem _ less => ?_
  have entry := checked.entry mem
  have name := (checked.segment entry.ns entry.nsUid).1
  simp only [validateNamespaceName, Bool.and_eq_true] at name
  exact lt_of_key_lt (tab_lt_of_label name.2) less

end StorageScaleTest.Attempts
