import StorageScaleTest.Proof.Attempts.Validation

/-!
# Collected claim tuples

The segments are the namespaces in the order of their first appearance, and the claims are what is
read from the sorted rows.
-/

namespace StorageScaleTest.Attempts
open Shell Targets Templates

variable {digest : Text → Option Text}

/-! ## Segments -/

/-- The words of a list, each once, in the order in which they appear first. -/
structure FirstAppearances (words distinct : List Text) : Prop where
  mem : ∀ word, word ∈ distinct ↔ word ∈ words
  order : distinct.Pairwise fun a b => words.idxOf a < words.idxOf b

theorem FirstAppearances.again {words distinct : List Text} {word : Text}
    (first : FirstAppearances words distinct) (old : word ∈ distinct) :
    FirstAppearances (words ++ [word]) distinct where
  mem other := by
    rw [first.mem, List.mem_append, List.mem_singleton]
    exact ⟨Or.inl, fun either => either.elim id fun eq => eq ▸ (first.mem word).mp old⟩
  order := by
    refine first.order.imp_of_mem fun {a b} mem mem' less => ?_
    rwa [List.idxOf_append_of_mem ((first.mem a).mp mem),
      List.idxOf_append_of_mem ((first.mem b).mp mem')]

theorem FirstAppearances.append {words distinct : List Text} {word : Text}
    (first : FirstAppearances words distinct) (new : word ∉ distinct) :
    FirstAppearances (words ++ [word]) (distinct ++ [word]) where
  mem other := by rw [List.mem_append, List.mem_append, first.mem]
  order := by
    refine List.pairwise_append.mpr ⟨?_, List.pairwise_singleton _ _, fun a mem b last => ?_⟩
    · refine first.order.imp_of_mem fun {a b} mem mem' less => ?_
      rwa [List.idxOf_append_of_mem ((first.mem a).mp mem),
        List.idxOf_append_of_mem ((first.mem b).mp mem')]
    · have absent : word ∉ words := fun mem => new ((first.mem word).mpr mem)
      have present := (first.mem a).mp mem
      rw [List.mem_singleton.mp last, List.idxOf_append_of_mem present,
        List.idxOf_append_of_notMem absent, List.idxOf_cons_self, Nat.add_zero]
      exact List.idxOf_lt_length_of_mem present

theorem addTuple_eq_some {segments segments' : List (Text × Text)} {t : ClaimTuple}
    (added : addTuple segments t = some segments') :
    ('\t' ∉ t.ns ∧ '\t' ∉ t.pv ∧ '\t' ∉ t.pvc) ∧
      (t.ns ∈ segments.map Prod.fst ∧ segments' = segments ∨
        t.ns ∉ segments.map Prod.fst ∧ segments' = segments ++ [(t.ns, t.nsUid)]) := by
  rw [addTuple] at added
  split_ifs at added with tabs old
  · push Not at tabs
    exact ⟨tabs, Or.inl ⟨old, (Option.some.inj added).symm⟩⟩
  · push Not at tabs
    exact ⟨tabs, Or.inr ⟨old, (Option.some.inj added).symm⟩⟩

theorem foldlM_addTuple {tuples : List ClaimTuple} {segments : List (Text × Text)}
    (folded : tuples.foldlM addTuple [] = some segments) :
    (∀ t ∈ tuples, '\t' ∉ t.ns ∧ '\t' ∉ t.pv ∧ '\t' ∉ t.pvc) ∧
      FirstAppearances (tuples.map ClaimTuple.ns) (segments.map Prod.fst) := by
  induction tuples using List.reverseRecOn generalizing segments with
  | nil =>
      cases folded
      exact ⟨by simp, by simp, List.Pairwise.nil⟩
  | append_singleton tuples t ih =>
      rw [List.foldlM_append] at folded
      obtain ⟨earlier, before, last⟩ := Option.bind_eq_some_iff.mp folded
      rw [List.foldlM_cons] at last
      obtain ⟨added, step, eq⟩ := Option.bind_eq_some_iff.mp last
      cases eq
      obtain ⟨plain, first⟩ := ih before
      obtain ⟨tabs, cases_⟩ := addTuple_eq_some step
      refine ⟨fun other mem => ?_, ?_⟩
      · rcases List.mem_append.mp mem with mem | mem
        · exact plain other mem
        · exact List.mem_singleton.mp mem ▸ tabs
      · rw [List.map_append, List.map_singleton]
        rcases cases_ with ⟨old, rfl⟩ | ⟨new, rfl⟩
        · exact first.again old
        · rw [List.map_append, List.map_singleton]
          exact first.append new

/-! ## Claims -/

theorem claims_identityOf (segments : List (Text × Text)) (claims : List Claim) :
    (identityOf segments claims).claims = claims := by
  apply List.ext_getElem
  · rw [Identity.claims, List.length_map, List.length_range, identityOf, number_toDigits]
  · intro index range range'
    simp only [Identity.claims, List.getElem_map, List.getElem_range]
    simp [Identity.claim, identityOf, range']

theorem filterMap_of_mapM {α β : Type} {f : α → Option β} {xs : List α} {ys : List β}
    (mapped : xs.mapM f = some ys) : xs.filterMap f = ys ∧ ∀ x ∈ xs, (f x).isSome := by
  induction xs generalizing ys with
  | nil =>
      cases mapped
      exact ⟨rfl, by simp⟩
  | cons x xs ih =>
      rw [List.mapM_cons] at mapped
      obtain ⟨y, first, rest⟩ := Option.bind_eq_some_iff.mp mapped
      obtain ⟨others, later, eq⟩ := Option.bind_eq_some_iff.mp rest
      cases eq
      obtain ⟨same, all⟩ := ih later
      exact ⟨by rw [List.filterMap_cons, first, same],
        List.forall_mem_cons.mpr ⟨by rw [first]; rfl, all⟩⟩

theorem collect_eq_some {arguments : List Text} {identity : Identity}
    (collected : collectClaimTuples digest arguments = some identity) :
    ∃ tuples segments claims, tuplesOf arguments = some tuples ∧
      tuples.foldlM addTuple [] = some segments ∧
      ((readLines (unlines (tuples.map ClaimTuple.row))).insertionSort rowLe).mapM
        (readRow digest segments) = some claims ∧
      identity = identityOf segments claims := by
  simp only [collectClaimTuples, Option.bind_eq_bind] at collected
  obtain ⟨tuples, split, collected⟩ := Option.bind_eq_some_iff.mp collected
  split at collected
  case isTrue => cases collected
  case isFalse =>
    obtain ⟨segments, folded, collected⟩ := Option.bind_eq_some_iff.mp collected
    obtain ⟨claims, read, eq⟩ := Option.bind_eq_some_iff.mp collected
    exact ⟨tuples, segments, claims, split, folded, read, (Option.some.inj eq).symm⟩

theorem claims_perm_iff {tuples : List ClaimTuple} {segments : List (Text × Text)}
    {claims : List Claim}
    (plain : ∀ t ∈ tuples, '\t' ∉ t.ns ∧ '\t' ∉ t.pv ∧ '\t' ∉ t.pvc)
    (read : ((readLines (unlines (tuples.map ClaimTuple.row))).insertionSort rowLe).mapM
      (readRow digest segments) = some claims) :
    (claims.map Claim.tuple).Perm tuples ↔ ∀ t ∈ tuples, t.Clean := by
  obtain ⟨found, all⟩ := filterMap_of_mapM read
  have sorted := List.perm_insertionSort rowLe (readLines (unlines (tuples.map ClaimTuple.row)))
  constructor
  · intro perm t mem uid identifier
    obtain ⟨claim, inside, rfl⟩ := List.mem_map.mp (perm.mem_iff.mpr mem)
    rw [← found] at inside
    obtain ⟨line, -, read⟩ := List.mem_filterMap.mp inside
    obtain ⟨nsUid, pvUid, pvcUid⟩ := validUids_of_lease (readRow_eq_some read).2.1
    have valid : validateUid uid = true := by
      simp only [Claim.tuple, List.mem_cons, List.not_mem_nil, or_false] at identifier
      rcases identifier with rfl | rfl | rfl
      · exact nsUid
      · exact pvUid
      · exact pvcUid
    exact not_separates_of_uid valid
  · intro clean
    have lines : readLines (unlines (tuples.map ClaimTuple.row)) = tuples.map ClaimTuple.row := by
      apply readLines_unlines
      intro row mem
      obtain ⟨t, inside, rfl⟩ := List.mem_map.mp mem
      refine @newline_not_mem_row digest segments _ (count_row (plain t inside) (clean t inside))
        fun line part => all line (sorted.mem_iff.mpr ?_)
      rw [readLines_rows]
      exact List.mem_flatMap.mpr ⟨t.row, List.mem_map_of_mem inside, part⟩
    rw [lines] at sorted found all
    have perm := (sorted.filterMap (readRow digest segments)).map Claim.tuple
    rw [found, List.filterMap_map, List.map_filterMap] at perm
    refine perm.trans (List.Perm.of_eq ?_)
    conv_rhs => rw [← List.filterMap_some (l := tuples)]
    refine List.filterMap_congr fun t mem => ?_
    have present : t.row ∈ (tuples.map ClaimTuple.row).insertionSort rowLe :=
      sorted.mem_iff.mpr (List.mem_map_of_mem mem)
    obtain ⟨claim, read⟩ := Option.isSome_iff_exists.mp (all t.row present)
    rw [Function.comp_apply, read, Option.map_some, tuple_of_readRow (plain t mem) (clean t mem) read]

end StorageScaleTest.Attempts
