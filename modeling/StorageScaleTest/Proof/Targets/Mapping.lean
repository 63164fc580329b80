import StorageScaleTest.Proof.Targets.Paths
import Mathlib.Data.List.Nodup

/-!
# Logical paths and Pod paths

An accepted key has a normal form, and the Pod path of the key stays below the mount root of its
claim and leads back to that form.
-/

namespace StorageScaleTest.Targets
open Shell

/-! ## Names -/

variable {c separator : Char} {word namespace_ key claim : List Char} {root : Root}

theorem mem_of_label (ok : label word = true) (mem : c ∈ word) : (edge c || c = '-') = true := by
  simp only [label, Bool.and_eq_true, List.all_eq_true] at ok
  exact ok.2 c mem

theorem mem_of_subdomain (ok : subdomain word = true) (mem : c ∈ word) :
    (edge c || c = '-' || c = '.') = true := by
  simp only [subdomain, Bool.and_eq_true, List.all_eq_true] at ok
  exact ok.2 c mem

theorem label_of_namespace (ok : validateNamespaceName word = true) : label word = true := by
  simp only [validateNamespaceName, Bool.and_eq_true] at ok
  exact ok.2

theorem subdomain_of_claim (ok : validateDnsSubdomain word = true) : subdomain word = true := by
  simp only [validateDnsSubdomain, Bool.and_eq_true] at ok
  exact ok.1.2

theorem namespace_absent (ok : validateNamespaceName word = true)
    (other : (edge c || c = '-') = false) : c ∉ word := by
  intro mem
  rw [mem_of_label (label_of_namespace ok) mem] at other
  exact Bool.false_ne_true other.symm

theorem claim_absent (ok : validateDnsSubdomain word = true)
    (other : (edge c || c = '-' || c = '.') = false) : c ∉ word := by
  intro mem
  rw [mem_of_subdomain (subdomain_of_claim ok) mem] at other
  exact Bool.false_ne_true other.symm

theorem head_of_claim (ok : validateDnsSubdomain word = true) : word.head?.any edge = true := by
  have ok := subdomain_of_claim ok
  simp only [subdomain, Bool.and_eq_true] at ok
  exact ok.1.1

/-! ## Separators -/

theorem before_append {first rest : List Char} (absent : separator ∉ first) :
    before separator (first ++ separator :: rest) = first := by
  unfold before
  rw [List.takeWhile_append_of_pos, List.takeWhile_cons_of_neg (by simp), List.append_nil]
  intro c mem
  have other : c ≠ separator := fun eq => absent (eq ▸ mem)
  simpa using other

theorem after_append {first rest : List Char} (absent : separator ∉ first) :
    after separator (first ++ separator :: rest) = rest := by
  unfold after
  rw [List.dropWhile_append_of_pos, List.dropWhile_cons_of_neg (by simp), List.tail_cons]
  intro c mem
  have other : c ≠ separator := fun eq => absent (eq ▸ mem)
  simpa using other

theorem before_after (mem : separator ∈ word) :
    word = before separator word ++ separator :: after separator word := by
  induction word with
  | nil => exact absurd mem List.not_mem_nil
  | cons c rest ih =>
      by_cases eq : c = separator
      · simp [before, after, eq]
      · have later : separator ∈ rest := (List.mem_cons.mp mem).resolve_left (Ne.symm eq)
        have split := ih later
        simp only [before, after] at split ⊢
        rw [List.takeWhile_cons_of_pos (by simpa using eq),
          List.dropWhile_cons_of_pos (by simpa using eq), List.cons_append, ← split]

/-! ## Splitting -/

def named (namespace_ key : List Char) : List Char × List Char :=
  let qualifier := before ':' key
  if '/' ∈ qualifier then (before '/' qualifier, after '/' qualifier) else (namespace_, qualifier)

def normalRoot (namespace_ key : List Char) : Root :=
  ⟨(named namespace_ key).1, (named namespace_ key).2, join '/' (components (after ':' key))⟩

structure KeyAccepted (namespace_ key : List Char) : Prop where
  colon : ':' ∈ key
  ns : validateNamespaceName (named namespace_ key).1 = true
  claim : validateDnsSubdomain (named namespace_ key).2 = true
  path : PathAccepted (after ':' key)

instance (namespace_ key : List Char) : Decidable (KeyAccepted namespace_ key) :=
  decidable_of_iff (':' ∈ key ∧ validateNamespaceName (named namespace_ key).1 = true ∧
      validateDnsSubdomain (named namespace_ key).2 = true ∧ PathAccepted (after ':' key))
    ⟨fun ⟨colon, ns, claim, path⟩ => ⟨colon, ns, claim, path⟩,
      fun ⟨colon, ns, claim, path⟩ => ⟨colon, ns, claim, path⟩⟩

theorem splitTestDirKey_eq_some :
    splitTestDirKey namespace_ key = some root ↔
      KeyAccepted namespace_ key ∧ root = normalRoot namespace_ key := by
  have slash (accepted : KeyAccepted namespace_ key) : '/' ∉ (named namespace_ key).2 :=
    claim_absent accepted.claim rfl
  have pair : (if '/' ∈ before ':' key then (before '/' (before ':' key), after '/' (before ':' key))
      else (namespace_, before ':' key)) = named namespace_ key := rfl
  have refused (failed : ¬KeyAccepted namespace_ key) :
      none = some root ↔ KeyAccepted namespace_ key ∧ root = normalRoot namespace_ key :=
    ⟨fun eq => absurd eq (by simp), fun both => absurd both.1 failed⟩
  unfold splitTestDirKey
  simp only [pair, normalizeClaimPath_eq]
  by_cases colon : ':' ∈ key
  · rw [if_neg (not_not.mpr colon)]
    by_cases ns : ('/' ∉ before ':' key ∧ (named namespace_ key).1 = []) ∨
        ¬validateNamespaceName (named namespace_ key).1
    · rw [if_pos ns]
      refine refused fun accepted => ns.elim (fun both => ?_) fun bad => bad accepted.ns
      have valid := accepted.ns
      rw [both.2] at valid
      exact absurd valid (by decide)
    · rw [if_neg ns]
      by_cases claim : '/' ∈ (named namespace_ key).2 ∨ ¬validateDnsSubdomain (named namespace_ key).2
      · rw [if_pos claim]
        exact refused fun accepted => claim.elim (slash accepted) fun bad => bad accepted.claim
      · rw [if_neg claim]
        by_cases path : PathAccepted (after ':' key)
        · have accepted : KeyAccepted namespace_ key :=
            ⟨colon, not_not.mp (not_or.mp ns).2, not_not.mp (not_or.mp claim).2, path⟩
          rw [if_pos path, Option.map_some, Option.some.injEq]
          exact ⟨fun eq => ⟨accepted, eq.symm⟩, fun both => both.2.symm⟩
        · rw [if_neg path]
          exact refused fun accepted => path accepted.path
  · rw [if_pos colon]
    exact refused fun accepted => colon accepted.colon

theorem KeyAccepted.split (accepted : KeyAccepted namespace_ key) :
    splitTestDirKey namespace_ key = some (normalRoot namespace_ key) :=
  splitTestDirKey_eq_some.mpr ⟨accepted, rfl⟩

theorem KeyAccepted.of_split (split : splitTestDirKey namespace_ key = some root) :
    KeyAccepted namespace_ key := (splitTestDirKey_eq_some.mp split).1

/-! ## Normal forms -/

theorem named_text (ns : '/' ∉ root.ns ∧ ':' ∉ root.ns) (claim : ':' ∉ root.claim) :
    named namespace_ root.text = (root.ns, root.claim) ∧ after ':' root.text = root.path := by
  have shape : root.text = (root.ns ++ '/' :: root.claim) ++ ':' :: root.path := by simp [Root.text]
  have absent : ':' ∉ root.ns ++ '/' :: root.claim := by simp [ns.2, claim]
  rw [named, shape, before_append absent, after_append absent]
  simp [before_append ns.1, after_append ns.1]

theorem normalRoot_text (ns : '/' ∉ (normalRoot namespace_ key).ns ∧ ':' ∉ (normalRoot namespace_ key).ns)
    (claim : ':' ∉ (normalRoot namespace_ key).claim) (path : PathAccepted (after ':' key))
    (other : List Char) : normalRoot other (normalRoot namespace_ key).text = normalRoot namespace_ key := by
  obtain ⟨names, rest⟩ := @named_text other (normalRoot namespace_ key) ns claim
  have same : components (normalRoot namespace_ key).path = components (after ':' key) := path.joined.1
  rw [normalRoot, names, rest, same]
  rfl

theorem KeyAccepted.normal (accepted : KeyAccepted namespace_ key) (other : List Char) :
    splitTestDirKey other (normalRoot namespace_ key).text = some (normalRoot namespace_ key) := by
  obtain ⟨-, ns, claim, path⟩ := accepted
  have absent : '/' ∉ (normalRoot namespace_ key).ns ∧ ':' ∉ (normalRoot namespace_ key).ns :=
    ⟨namespace_absent ns rfl, namespace_absent ns rfl⟩
  have colon : ':' ∉ (normalRoot namespace_ key).claim := claim_absent claim rfl
  obtain ⟨names, rest⟩ := @named_text other (normalRoot namespace_ key) absent colon
  refine splitTestDirKey_eq_some.mpr ⟨⟨?_, ?_, ?_, ?_⟩, (normalRoot_text absent colon path other).symm⟩
  · simp [Root.text]
  · rwa [names]
  · rwa [names]
  · rw [rest]
    exact path.joined.2

theorem normal_iff {key' : List Char} (accepted : KeyAccepted namespace_ key)
    (accepted' : KeyAccepted namespace_ key') :
    normalizeLogicalPath namespace_ key = normalizeLogicalPath namespace_ key' ↔
      normalRoot namespace_ key = normalRoot namespace_ key' := by
  unfold normalizeLogicalPath
  rw [accepted.split, accepted'.split]
  constructor
  · intro same
    have again := accepted.normal namespace_
    rw [Option.some.inj same, accepted'.normal namespace_] at again
    exact (Option.some.inj again).symm
  · intro same
    rw [same]

/-! ## Pod paths -/

theorem mapLogicalPath_iff {key' : List Char} (mountRoot : List Char)
    (accepted : KeyAccepted namespace_ key) (accepted' : KeyAccepted namespace_ key')
    (together : (normalRoot namespace_ key).ns = (normalRoot namespace_ key').ns) :
    mapLogicalPath mountRoot namespace_ key = mapLogicalPath mountRoot namespace_ key' ↔
      normalRoot namespace_ key = normalRoot namespace_ key' := by
  unfold mapLogicalPath
  rw [accepted.split, accepted'.split]
  constructor
  · intro same
    have tail := Option.some.inj same
    simp only [List.append_assoc, List.cons_append, List.append_cancel_left_eq, List.cons.injEq,
      true_and] at tail
    have parts := append_separator_inj (claim_absent accepted.claim rfl)
      (claim_absent accepted'.claim rfl) tail
    rw [Root.mk.injEq]
    exact ⟨together, parts.1, parts.2⟩
  · intro same
    rw [same]

/-- A component that neither leaves its directory nor names the control tree. -/
def Confined (component : List Char) : Prop :=
  component ≠ [] ∧ component ≠ ['.'] ∧ component ≠ ['.', '.'] ∧ component ≠ reserved ∧
    '/' ∉ component

theorem Fine.confined {component : List Char} (fine : Fine component) : Confined component := by
  have other := fine.1
  simp only [List.mem_cons, List.not_mem_nil, or_false, not_or] at other
  exact ⟨plain_ne_nil fine.2, other.1, other.2.1, other.2.2, fine.absent rfl⟩

theorem claim_confined (ok : validateDnsSubdomain claim = true) : Confined claim := by
  have first := head_of_claim ok
  refine ⟨?_, ?_, ?_, ?_, claim_absent ok rfl⟩
  all_goals
    rintro rfl
    exact absurd first (by decide)

/-! ## The way back -/

theorem mem_claimNamespaces {keys found : List (List Char)}
    (ran : claimNamespaces namespace_ claim keys = some found) :
    found.Nodup ∧ ∀ ns, ns ∈ found ↔ ∃ key ∈ keys,
      (normalRoot namespace_ key).claim = claim ∧ (normalRoot namespace_ key).ns = ns := by
  induction keys generalizing found with
  | nil =>
      rw [← Option.some.inj ran]
      simp
  | cons key keys ih =>
      rw [claimNamespaces, Option.bind_eq_bind, Option.bind_eq_some_iff] at ran
      obtain ⟨root, split, ran⟩ := ran
      rw [Option.bind_eq_bind, Option.bind_eq_some_iff] at ran
      obtain ⟨others, later, ran⟩ := ran
      have ⟨distinct, members⟩ := ih later
      rw [(splitTestDirKey_eq_some.mp split).2] at ran
      rw [← Option.some.inj ran]
      split
      · rename_i here
        refine ⟨List.Nodup.insert distinct, fun ns => ?_⟩
        simp [members, here, eq_comm]
      · rename_i elsewhere
        refine ⟨distinct, fun ns => ?_⟩
        simp [members, elsewhere]

theorem claimNamespaces_isSome {keys : List (List Char)}
    (accepted : ∀ key ∈ keys, KeyAccepted namespace_ key) :
    ∃ found, claimNamespaces namespace_ claim keys = some found := by
  induction keys with
  | nil => exact ⟨[], rfl⟩
  | cons key keys ih =>
      obtain ⟨found, ran⟩ := ih fun other mem => accepted other (List.mem_cons_of_mem _ mem)
      rw [claimNamespaces, (accepted key List.mem_cons_self).split, ran]
      exact ⟨_, rfl⟩

theorem readFromLogicalPath_eq {keys : List (List Char)} (mountRoot : List Char) (mem : key ∈ keys)
    (accepted : ∀ key ∈ keys, KeyAccepted namespace_ key)
    (together : ∀ other ∈ keys, (normalRoot namespace_ other).claim = (normalRoot namespace_ key).claim →
      (normalRoot namespace_ other).ns = (normalRoot namespace_ key).ns) :
    readFromLogicalPath mountRoot namespace_ keys (mountRoot ++ '/' ::
        (normalRoot namespace_ key).claim ++ '/' :: (normalRoot namespace_ key).path) =
      some (normalRoot namespace_ key).text := by
  let root := normalRoot namespace_ key
  have slash : '/' ∉ root.claim := claim_absent (accepted key mem).claim rfl
  obtain ⟨found, ran⟩ := @claimNamespaces_isSome namespace_ root.claim keys accepted
  have only : found = [root.ns] := by
    have ⟨distinct, members⟩ := mem_claimNamespaces ran
    have inside : root.ns ∈ found := (members root.ns).mpr ⟨key, mem, rfl, rfl⟩
    have every : ∀ ns ∈ found, ns = root.ns := by
      intro ns found
      obtain ⟨other, there, same, eq⟩ := (members ns).mp found
      rw [← eq]
      exact together other there same
    exact List.perm_singleton.mp <| (List.perm_ext_iff_of_nodup distinct (List.nodup_singleton _)).mpr
      fun ns => ⟨fun mem => List.mem_singleton.mpr (every ns mem),
        fun eq => List.mem_singleton.mp eq ▸ inside⟩
  have rest : (mountRoot ++ '/' :: root.claim ++ '/' :: root.path).drop (mountRoot.length + 1) =
      root.claim ++ '/' :: root.path := by
    simp [← List.drop_drop]
  unfold readFromLogicalPath
  change (if _ then _ else _) = some root.text
  rw [if_neg (not_not.mpr ⟨root.claim ++ '/' :: root.path, by simp [root]⟩)]
  simp only [show (mountRoot ++ '/' :: (normalRoot namespace_ key).claim ++
    '/' :: (normalRoot namespace_ key).path).drop (mountRoot.length + 1) = _ from rest,
    before_append slash, after_append slash, ran, only]
  simp

/-! ## The mapping -/

/-- Every accepted key has one Pod path below the mount root of its claim, which stands for the
normal form of the key alone and leads back to it. -/
theorem logical_path_mapping (mountRoot namespace_ key : List Char) (root : Root)
    (split : splitTestDirKey namespace_ key = some root) :
    normalizeLogicalPath namespace_ key = some root.text ∧
    (∀ other, normalizeLogicalPath other root.text = some root.text) ∧
    (∃ mount parts, claimMountRoot mountRoot root.claim = some mount ∧ parts ≠ [] ∧
      mapLogicalPath mountRoot namespace_ key = some (mount ++ '/' :: join '/' parts) ∧
      ∀ component ∈ root.claim :: parts, Confined component) ∧
    (∀ key' root', splitTestDirKey namespace_ key' = some root' → root'.ns = root.ns →
      (mapLogicalPath mountRoot namespace_ key = mapLogicalPath mountRoot namespace_ key' ↔
        normalizeLogicalPath namespace_ key = normalizeLogicalPath namespace_ key')) ∧
    (∀ keys, key ∈ keys → (∀ key' ∈ keys, ∃ root', splitTestDirKey namespace_ key' = some root' ∧
        (root'.claim = root.claim → root'.ns = root.ns)) →
      ∃ mapped back, mapLogicalPath mountRoot namespace_ key = some mapped ∧
        readFromLogicalPath mountRoot namespace_ keys mapped = some back ∧
        normalizeLogicalPath namespace_ back = some root.text) := by
  obtain ⟨accepted, rfl⟩ := splitTestDirKey_eq_some.mp split
  have normal (other : List Char) :
      normalizeLogicalPath other (normalRoot namespace_ key).text =
        some (normalRoot namespace_ key).text := by
    rw [normalizeLogicalPath, accepted.normal]
    rfl
  have mapped : mapLogicalPath mountRoot namespace_ key =
      some (mountRoot ++ '/' :: (normalRoot namespace_ key).claim ++
        '/' :: (normalRoot namespace_ key).path) := by
    rw [mapLogicalPath, split]
    rfl
  refine ⟨by rw [normalizeLogicalPath, split]; rfl, normal, ?_, ?_, ?_⟩
  · refine ⟨mountRoot ++ '/' :: (normalRoot namespace_ key).claim, components (after ':' key),
      if_pos accepted.claim, accepted.path.2.1, mapped, ?_⟩
    intro component mem
    rcases List.mem_cons.mp mem with rfl | mem
    · exact claim_confined accepted.claim
    · exact (accepted.path.2.2 component mem).confined
  · intro key' root' split' together
    obtain ⟨accepted', rfl⟩ := splitTestDirKey_eq_some.mp split'
    rw [mapLogicalPath_iff mountRoot accepted accepted' together.symm, normal_iff accepted accepted']
  · intro keys mem every
    refine ⟨_, _, mapped, readFromLogicalPath_eq mountRoot mem ?_ ?_, normal namespace_⟩
    · intro other there
      obtain ⟨_, split', -⟩ := every other there
      exact KeyAccepted.of_split split'
    · intro other there same
      obtain ⟨_, split', together⟩ := every other there
      obtain ⟨-, rfl⟩ := splitTestDirKey_eq_some.mp split'
      exact together same

/-- A key without a namespace, with repeated slashes. -/
theorem logical_path_mapping_slashes :
    ∃ mapped back, mapLogicalPath "/mnt".toList "ns".toList "a:/b//c/".toList = some mapped ∧
      readFromLogicalPath "/mnt".toList "ns".toList ["a:/b//c/".toList, "t/e:d".toList] mapped =
        some back ∧ normalizeLogicalPath "ns".toList back = some "ns/a:b/c".toList :=
  (logical_path_mapping "/mnt".toList "ns".toList "a:/b//c/".toList
    ⟨"ns".toList, "a".toList, "b/c".toList⟩ (by decide +kernel)).2.2.2.2
    ["a:/b//c/".toList, "t/e:d".toList] (by decide) (by
      intro key mem
      rcases List.mem_pair.mp mem with rfl | rfl
      · exact ⟨⟨"ns".toList, "a".toList, "b/c".toList⟩, by decide +kernel, by decide⟩
      · exact ⟨⟨"t".toList, "e".toList, "d".toList⟩, by decide +kernel, by decide⟩)

end StorageScaleTest.Targets
