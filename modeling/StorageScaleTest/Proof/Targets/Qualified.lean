import StorageScaleTest.Proof.Targets.Mapping

/-!
# Qualified roots in both languages

Python lets a newline end the namespace or the claim of a key. The languages agree about every
other key.
-/

namespace StorageScaleTest.Targets
open Shell

variable {c : Char} {word namespace_ key : List Char}

/-! ## A newline at the end -/

def chomp (word : List Char) : List Char :=
  if word.getLast? = some '\n' then word.dropLast else word

theorem chomp_or (word : List Char) :
    (word.getLast? ≠ some '\n' ∧ chomp word = word) ∨ word = chomp word ++ ['\n'] := by
  by_cases last : word.getLast? = some '\n'
  · right
    rw [chomp, if_pos last, List.dropLast_append_getLast? _ last]
  · exact .inl ⟨last, if_neg last⟩

theorem chomp_absent (other : c ≠ '\n') (absent : c ∉ chomp word) : c ∉ word := by
  rcases chomp_or word with ⟨-, same⟩ | split
  · rwa [same] at absent
  · rw [split]
    simp [absent, other]

theorem chomp_concat (word : List Char) : chomp (word ++ ['\n']) = word := by
  simp [chomp]

theorem matchLine_eq {pattern : List Char → Bool}
    (single : ∀ word, pattern word = true → '\n' ∉ word) (word : List Char) :
    matchLine pattern word = pattern (chomp word) := by
  rcases chomp_or word with ⟨last, same⟩ | split
  · simp [matchLine, last, same]
  · have refused : pattern word = false := by
      refine Bool.eq_false_of_not_eq_true fun ok => single word ok ?_
      rw [split]
      simp
    rw [matchLine, refused, split, chomp_concat]
    simp

theorem label_single (ok : label word = true) : '\n' ∉ word := by
  intro mem
  exact absurd (mem_of_label ok mem) (by decide)

theorem subdomain_single (ok : subdomain word = true) : '\n' ∉ word := by
  intro mem
  exact absurd (mem_of_subdomain ok mem) (by decide)

theorem label_ne_nil (ok : label (chomp word) = true) : word ≠ [] := by
  rintro rfl
  exact absurd ok (by decide)

theorem splitOn_concat {separator x : Char} (other : x ≠ separator) (word : List Char) :
    ∃ init last, word.splitOn separator = init ++ [last] ∧
      (word ++ [x]).splitOn separator = init ++ [last ++ [x]] := by
  induction word with
  | nil => exact ⟨[], [], rfl, by simp [List.splitOn_cons_eq_if_modifyHead, other]⟩
  | cons c rest ih =>
      obtain ⟨init, last, parts, parts'⟩ := ih
      rw [List.cons_append]
      simp only [List.splitOn_cons_eq_if_modifyHead, parts, parts']
      split
      · exact ⟨[] :: init, last, rfl, rfl⟩
      · cases init with
        | nil => exact ⟨[], c :: last, rfl, rfl⟩
        | cons first init => exact ⟨(c :: first) :: init, last, rfl, rfl⟩

theorem map_chomp {parts : List (List Char)} (single : ∀ part ∈ parts, '\n' ∉ part) :
    parts.map chomp = parts := by
  conv_rhs => rw [← List.map_id parts]
  refine List.map_congr_left fun part mem => ?_
  exact if_neg fun last => single part mem (List.mem_of_getLast? last)

theorem chomp_splitOn (single : '\n' ∉ chomp word) :
    (chomp word).splitOn '.' = (word.splitOn '.').map chomp := by
  rcases chomp_or word with ⟨-, same⟩ | split
  · rw [same] at single ⊢
    exact (map_chomp fun part mem inside => single (mem_of_mem_splitOn mem inside)).symm
  · obtain ⟨init, last, parts, parts'⟩ := splitOn_concat (show '\n' ≠ '.' by decide) (chomp word)
    have plain (part : List Char) (mem : part ∈ init) : '\n' ∉ part := fun inside =>
      single (mem_of_mem_splitOn (parts ▸ List.mem_append_left _ mem) inside)
    rw [← split] at parts'
    rw [parts', parts, List.map_append, List.map_singleton, chomp_concat, map_chomp plain]

/-! ## Names that Python accepts -/

theorem fields_of_subdomain (ok : subdomain word = true) : fields '.' word = word.splitOn '.' := by
  have single := subdomain_single ok
  unfold fields
  simp only [firstLine_eq single]
  refine if_neg fun last => ?_
  rcases List.eq_nil_or_concat word with rfl | ⟨init, x, rfl⟩
  · exact absurd ok (by decide)
  · rw [List.concat_eq_append] at ok last
    simp only [subdomain, List.getLast?_concat, Option.any_some, Bool.and_eq_true] at ok
    have other : x ≠ '.' := by
      rintro rfl
      exact absurd ok.1.2 (by decide)
    obtain ⟨_, part, -, parts⟩ := splitOn_concat other init
    rw [parts, List.getLast?_concat] at last
    simp at last

theorem validateDnsSubdomain_iff :
    validateDnsSubdomain word = true ↔ word.length ≤ 253 ∧ subdomain word = true ∧
      ∀ part ∈ word.splitOn '.', part.length ≤ 63 ∧ label part = true := by
  have nonempty (part : List Char) (ok : label part = true) : part ≠ [] := by
    rintro rfl
    exact absurd ok (by decide)
  unfold validateDnsSubdomain
  simp only [Bool.and_eq_true, decide_eq_true_eq, List.all_eq_true]
  constructor
  · rintro ⟨⟨⟨-, short⟩, ok⟩, parts⟩
    rw [fields_of_subdomain ok] at parts
    exact ⟨short, ok, fun part mem => ⟨(parts part mem).1.2, (parts part mem).2⟩⟩
  · rintro ⟨short, ok, parts⟩
    have some_ : word ≠ [] := by
      rintro rfl
      exact absurd ok (by decide)
    rw [fields_of_subdomain ok]
    exact ⟨⟨⟨some_, short⟩, ok⟩, fun part mem =>
      ⟨⟨nonempty part (parts part mem).2, (parts part mem).1⟩, (parts part mem).2⟩⟩

def LooseNamespace (ns : List Char) : Prop := ns.length ≤ 63 ∧ label (chomp ns) = true

def LooseClaim (claim : List Char) : Prop :=
  claim.length ≤ 253 ∧ (∀ part ∈ claim.splitOn '.', part.length ≤ 63) ∧
    validateDnsSubdomain (chomp claim) = true

theorem chomp_length (word : List Char) : (chomp word).length ≤ word.length := by
  unfold chomp
  split <;> simp

theorem validClaim_iff (claim : List Char) : validClaim claim = true ↔ LooseClaim claim := by
  unfold validClaim LooseClaim
  simp only [matchLine_eq fun _ => subdomain_single, matchLine_eq fun _ => label_single,
    Bool.and_eq_true, Bool.not_eq_true', Bool.or_eq_false_iff, Bool.not_eq_false',
    decide_eq_false_iff_not, decide_eq_true_eq, not_lt, List.all_eq_true,
    validateDnsSubdomain_iff]
  constructor
  · rintro ⟨⟨⟨some_, short⟩, ok⟩, parts⟩
    refine ⟨short, fun part mem => (parts part mem).1.2, (chomp_length claim).trans short, ok, ?_⟩
    rw [chomp_splitOn (subdomain_single ok)]
    refine List.forall_mem_map.mpr fun part mem => ⟨?_, (parts part mem).2⟩
    exact (chomp_length part).trans (parts part mem).1.2
  · rintro ⟨short, small, -, ok, parts⟩
    rw [chomp_splitOn (subdomain_single ok)] at parts
    have labels := List.forall_mem_map.mp parts
    have some_ : claim ≠ [] := by
      rintro rfl
      exact absurd ok (by decide)
    exact ⟨⟨⟨some_, short⟩, ok⟩, fun part mem =>
      ⟨⟨label_ne_nil (labels part mem).2, small part mem⟩, (labels part mem).2⟩⟩

/-! ## Keys -/

structure KeyLoose (namespace_ key : List Char) : Prop where
  colon : ':' ∈ key
  ns : LooseNamespace (named namespace_ key).1
  claim : LooseClaim (named namespace_ key).2
  path : PathAccepted (after ':' key)

def Dangling (namespace_ key : List Char) : Prop :=
  (named namespace_ key).1.getLast? = some '\n' ∨ (named namespace_ key).2.getLast? = some '\n'

instance (ns : List Char) : Decidable (LooseNamespace ns) :=
  inferInstanceAs (Decidable (ns.length ≤ 63 ∧ label (chomp ns) = true))

instance (claim : List Char) : Decidable (LooseClaim claim) :=
  inferInstanceAs (Decidable (claim.length ≤ 253 ∧ (∀ part ∈ claim.splitOn '.', part.length ≤ 63) ∧
    validateDnsSubdomain (chomp claim) = true))

instance (namespace_ key : List Char) : Decidable (Dangling namespace_ key) :=
  inferInstanceAs (Decidable ((named namespace_ key).1.getLast? = some '\n' ∨
    (named namespace_ key).2.getLast? = some '\n'))

instance (namespace_ key : List Char) : Decidable (KeyLoose namespace_ key) :=
  decidable_of_iff (':' ∈ key ∧ LooseNamespace (named namespace_ key).1 ∧
      LooseClaim (named namespace_ key).2 ∧ PathAccepted (after ':' key))
    ⟨fun ⟨colon, ns, claim, path⟩ => ⟨colon, ns, claim, path⟩,
      fun ⟨colon, ns, claim, path⟩ => ⟨colon, ns, claim, path⟩⟩

theorem LooseNamespace.absent {ns : List Char} (ok : LooseNamespace ns) (newline : c ≠ '\n')
    (other : (edge c || c = '-') = false) : c ∉ ns := by
  refine chomp_absent newline fun mem => ?_
  rw [mem_of_label ok.2 mem] at other
  exact Bool.false_ne_true other.symm

theorem LooseClaim.absent {claim : List Char} (ok : LooseClaim claim) (newline : c ≠ '\n')
    (other : (edge c || c = '-' || c = '.') = false) : c ∉ claim :=
  chomp_absent newline (claim_absent ok.2.2 other)

theorem qualifiedRoot_eq_some {text : List Char} :
    qualifiedRoot key namespace_ = some text ↔
      KeyLoose namespace_ key ∧ text = (normalRoot namespace_ key).text := by
  have pair : (if '/' ∈ before ':' key then (before '/' (before ':' key), after '/' (before ':' key))
      else (namespace_, before ':' key)) = named namespace_ key := rfl
  have refused (failed : ¬KeyLoose namespace_ key) :
      none = some text ↔ KeyLoose namespace_ key ∧ text = (normalRoot namespace_ key).text :=
    ⟨fun eq => absurd eq (by simp), fun both => absurd both.1 failed⟩
  unfold qualifiedRoot
  simp only [pair, claimPath_eq, normalizeClaimPath_eq, matchLine_eq fun _ => label_single]
  by_cases colon : ':' ∈ key
  · rw [if_neg (not_not.mpr colon)]
    by_cases ns : (named namespace_ key).1 = [] ∨ (named namespace_ key).1.length > 63 ∨
        ¬label (chomp (named namespace_ key).1)
    · rw [if_pos ns]
      refine refused fun loose => ?_
      rcases ns with empty | long | bad
      · exact label_ne_nil loose.ns.2 empty
      · exact absurd loose.ns.1 (not_le.mpr long)
      · exact bad loose.ns.2
    · rw [if_neg ns]
      simp only [not_or, not_not, not_lt, gt_iff_lt] at ns
      by_cases claim : '/' ∈ (named namespace_ key).2 ∨ ¬validClaim (named namespace_ key).2
      · rw [if_pos claim]
        exact refused fun loose => claim.elim (loose.claim.absent (by decide) rfl)
          fun bad => bad ((validClaim_iff _).mpr loose.claim)
      · rw [if_neg claim]
        simp only [not_or, not_not] at claim
        by_cases path : PathAccepted (after ':' key)
        · have loose : KeyLoose namespace_ key :=
            ⟨colon, ⟨ns.2.1, ns.2.2⟩, (validClaim_iff _).mp claim.2, path⟩
          rw [if_pos path, Option.map_some, Option.some.injEq]
          exact ⟨fun eq => ⟨loose, eq.symm⟩, fun both => both.2.symm⟩
        · rw [if_neg path]
          exact refused fun loose => path loose.path
  · rw [if_pos colon]
    exact refused fun loose => colon loose.colon

theorem keyAccepted_iff :
    KeyAccepted namespace_ key ↔ KeyLoose namespace_ key ∧ ¬Dangling namespace_ key := by
  constructor
  · rintro ⟨colon, ns, claim, path⟩
    have first := label_of_namespace ns
    have second := validateDnsSubdomain_iff.mp claim
    have last (word : List Char) (single : '\n' ∉ word) : word.getLast? ≠ some '\n' :=
      fun eq => single (List.mem_of_getLast? eq)
    have nsLast := last _ (label_single first)
    have claimLast := last _ (subdomain_single second.2.1)
    refine ⟨⟨colon, ⟨?_, ?_⟩, ⟨second.1, fun part mem => (second.2.2 part mem).1, ?_⟩, path⟩, ?_⟩
    · simp only [validateNamespaceName, Bool.and_eq_true, decide_eq_true_eq] at ns
      exact ns.1.2
    · rwa [chomp, if_neg nsLast]
    · rwa [chomp, if_neg claimLast]
    · exact fun dangling => dangling.elim nsLast claimLast
  · rintro ⟨⟨colon, ⟨short, ok⟩, ⟨-, -, claim⟩, path⟩, whole⟩
    obtain ⟨nsLast, claimLast⟩ := not_or.mp whole
    have some_ := label_ne_nil ok
    rw [chomp, if_neg nsLast] at ok
    rw [chomp, if_neg claimLast] at claim
    exact ⟨colon, by simp [validateNamespaceName, some_, short, ok], claim, path⟩

theorem KeyLoose.qualified (loose : KeyLoose namespace_ key) :
    qualifiedRoot key namespace_ = some (normalRoot namespace_ key).text :=
  qualifiedRoot_eq_some.mpr ⟨loose, rfl⟩

theorem qualifiedRoot_eq_none (refused : ¬KeyLoose namespace_ key) :
    qualifiedRoot key namespace_ = none :=
  Option.eq_none_iff_forall_ne_some.mpr fun _ eq => refused (qualifiedRoot_eq_some.mp eq).1

theorem splitTestDirKey_eq_none (refused : ¬KeyAccepted namespace_ key) :
    splitTestDirKey namespace_ key = none :=
  Option.eq_none_iff_forall_ne_some.mpr fun _ eq => refused (splitTestDirKey_eq_some.mp eq).1

theorem qualifiedRoot_agrees :
    qualifiedRoot key namespace_ = (splitTestDirKey namespace_ key).map Root.text ↔
      ¬(KeyLoose namespace_ key ∧ Dangling namespace_ key) := by
  by_cases loose : KeyLoose namespace_ key
  · by_cases dangling : Dangling namespace_ key
    · have refused : ¬KeyAccepted namespace_ key := fun ok => (keyAccepted_iff.mp ok).2 dangling
      rw [loose.qualified, splitTestDirKey_eq_none refused]
      simp [loose, dangling]
    · rw [loose.qualified, (keyAccepted_iff.mpr ⟨loose, dangling⟩).split]
      simp [dangling]
  · have refused : ¬KeyAccepted namespace_ key := fun ok => loose (keyAccepted_iff.mp ok).1
    rw [qualifiedRoot_eq_none loose, splitTestDirKey_eq_none refused]
    simp [loose]

end StorageScaleTest.Targets
