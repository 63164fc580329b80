import StorageScaleTest.Proof.Targets.Qualified

/-!
# The name of a storage target in both languages
-/

namespace StorageScaleTest.Targets
open Shell

/-! ## Sorted sets -/

theorem le_total (a b : List Char) : (decide (a ≤ b) || decide (b ≤ a)) = true := by
  simpa using Std.le_total (a := a) (b := b)

theorem pairwise_mergeSort (roots : List (List Char)) :
    (roots.mergeSort fun a b => decide (a ≤ b)).Pairwise (· ≤ ·) := by
  have sorted := @List.pairwise_mergeSort (List Char) (fun a b => decide (a ≤ b))
    (fun a b c first second => by
      simpa using Std.le_trans (of_decide_eq_true first) (of_decide_eq_true second)) le_total roots
  exact sorted.imp of_decide_eq_true

theorem eq_of_sorted {a b : List (List Char)} (sorted : a.Pairwise (· ≤ ·))
    (sorted' : b.Pairwise (· ≤ ·)) (distinct : a.Nodup) (distinct' : b.Nodup)
    (same : ∀ word, word ∈ a ↔ word ∈ b) : a = b :=
  ((List.perm_ext_iff_of_nodup distinct distinct').mpr same).eq_of_pairwise
    (fun _ _ _ _ first second => Std.le_antisymm first second) sorted sorted'

theorem mem_sortedSet {roots : List (List Char)} {root : List Char} :
    root ∈ sortedSet roots ↔ root ∈ roots := by
  rw [sortedSet, List.mem_mergeSort, List.mem_dedup]

theorem nodup_sortedSet (roots : List (List Char)) : (sortedSet roots).Nodup :=
  (List.mergeSort_perm _ _).nodup_iff.mpr (List.nodup_dedup roots)

theorem sortedSet_inj {roots roots' : List (List Char)} :
    sortedSet roots = sortedSet roots' ↔ ∀ root, root ∈ roots ↔ root ∈ roots' := by
  constructor
  · intro same root
    rw [← mem_sortedSet, same, mem_sortedSet]
  · intro same
    refine eq_of_sorted (pairwise_mergeSort _) (pairwise_mergeSort _) (nodup_sortedSet _)
      (nodup_sortedSet _) fun root => ?_
    rw [mem_sortedSet, mem_sortedSet, same]

theorem sortUnique_eq (roots : List (List Char)) : sortUnique roots = sortedSet roots := by
  refine eq_of_sorted ((pairwise_mergeSort roots).sublist (List.dedup_sublist _))
    (pairwise_mergeSort _) (List.nodup_dedup _) (nodup_sortedSet _) fun root => ?_
  rw [sortUnique, List.mem_dedup, List.mem_mergeSort, mem_sortedSet]

theorem join_sortedSet {roots roots' : List (List Char)} (some_ : roots ≠ []) (some_' : roots' ≠ [])
    (plain : ∀ root ∈ roots, ',' ∉ root) (plain' : ∀ root ∈ roots', ',' ∉ root) :
    join ',' (sortedSet roots) = join ',' (sortedSet roots') ↔
      ∀ root, root ∈ roots ↔ root ∈ roots' := by
  have nonempty {words : List (List Char)} (some_ : words ≠ []) : sortedSet words ≠ [] := by
    obtain ⟨word, mem⟩ := List.exists_mem_of_ne_nil _ some_
    exact List.ne_nil_of_mem (mem_sortedSet.mpr mem)
  rw [← sortedSet_inj]
  constructor
  · intro same
    rw [← splitOn_join (nonempty some_) fun root mem => plain root (mem_sortedSet.mp mem), same,
      splitOn_join (nonempty some_') fun root mem => plain' root (mem_sortedSet.mp mem)]
  · exact congrArg _

/-! ## Roots of loose keys -/

variable {c : Char} {namespace_ key : List Char} {keys keys' : List (List Char)}

theorem rdropWhile_append {a b : List Char} (other : c ≠ '/') :
    (a ++ c :: b).rdropWhile (· = '/') = a ++ c :: b.rdropWhile (· = '/') := by
  induction b using List.reverseRecOn with
  | nil => exact List.rdropWhile_concat_neg _ _ _ (by simpa using other)
  | append_singleton b x ih =>
      rw [← List.cons_append, ← List.append_assoc]
      by_cases slash : x = '/'
      · rw [List.rdropWhile_concat_pos _ _ _ (by simpa using slash), ih,
          List.rdropWhile_concat_pos _ _ _ (by simpa using slash)]
      · rw [List.rdropWhile_concat_neg _ _ _ (by simpa using slash),
          List.rdropWhile_concat_neg _ _ _ (by simpa using slash)]
        simp

theorem stripSlashes_eq (colon : ':' ∈ key) :
    stripSlashes key = before ':' key ++ ':' :: (after ':' key).rdropWhile (· = '/') := by
  unfold stripSlashes
  conv_lhs => rw [before_after colon]
  rw [rdropWhile_append (by decide)]
  exact if_neg (by simp)

theorem normalRoot_stripSlashes (colon : ':' ∈ key) :
    normalRoot namespace_ (stripSlashes key) = normalRoot namespace_ key := by
  have absent : ':' ∉ before ':' key := fun mem => by
    simpa using List.mem_takeWhile_imp mem
  rw [stripSlashes_eq colon, normalRoot, normalRoot, named, named, before_append absent,
    after_append absent, components_rdropWhile]

theorem KeyLoose.normalRoot_text (loose : KeyLoose namespace_ key) (other : List Char) :
    normalRoot other (normalRoot namespace_ key).text = normalRoot namespace_ key := by
  obtain ⟨-, ns, claim, path⟩ := loose
  exact Targets.normalRoot_text ⟨ns.absent (by decide) rfl, ns.absent (by decide) rfl⟩
    (claim.absent (by decide) rfl) path other

theorem KeyLoose.comma_root (loose : KeyLoose namespace_ key) :
    ',' ∉ (normalRoot namespace_ key).text := by
  have path : ',' ∉ join '/' (components (after ':' key)) :=
    not_mem_join (by decide) fun word mem => (loose.path.2.2 word mem).absent rfl
  simp only [Root.text, normalRoot, List.mem_append, List.mem_cons, not_or]
  exact ⟨⟨loose.ns.absent (by decide) rfl, by decide, loose.claim.absent (by decide) rfl⟩,
    by decide, path⟩

theorem comma_path {value : List Char} (accepted : PathAccepted value) : ',' ∉ value := by
  have whole : ['/'].intercalate (value.splitOn '/') = value := List.intercalate_splitOn '/'
  rw [← whole]
  refine not_mem_join (by decide) fun word mem => ?_
  by_cases empty : word = []
  · rw [empty]
    exact List.not_mem_nil
  · exact (accepted.2.2 word (List.mem_filter.mpr ⟨mem, by simpa using empty⟩)).absent rfl

theorem KeyLoose.comma_strip (loose : KeyLoose namespace_ key) : ',' ∉ stripSlashes key := by
  have claim : ',' ∉ (named namespace_ key).2 := loose.claim.absent (by decide) rfl
  have ns : ',' ∉ (named namespace_ key).1 := loose.ns.absent (by decide) rfl
  have qualifier : ',' ∉ before ':' key := by
    by_cases slash : '/' ∈ before ':' key
    · rw [named, if_pos slash] at claim ns
      rw [before_after slash]
      simp only [List.mem_append, List.mem_cons, not_or]
      exact ⟨ns, by decide, claim⟩
    · rwa [named, if_neg slash] at claim
  have path : ',' ∉ (after ':' key).rdropWhile (· = '/') :=
    fun mem => comma_path loose.path ((List.rdropWhile_prefix _ _).subset mem)
  rw [stripSlashes_eq loose.colon]
  simp only [List.mem_append, List.mem_cons, not_or]
  exact ⟨qualifier, by decide, path⟩

/-! ## Names -/

theorem mapM_eq_some {α β : Type} {f : α → Option β} {g : α → β} {words : List α}
    (every : ∀ word ∈ words, f word = some (g word)) : words.mapM f = some (words.map g) := by
  induction words with
  | nil => rfl
  | cons word words ih =>
      rw [List.mapM_cons, every word List.mem_cons_self,
        ih fun other mem => every other (List.mem_cons_of_mem _ mem)]
      rfl

theorem mapM_eq_none {α β : Type} {f : α → Option β} {words : List α} {word : α}
    (mem : word ∈ words) (refused : f word = none) : words.mapM f = none := by
  induction words with
  | nil => exact absurd mem List.not_mem_nil
  | cons first words ih =>
      rw [List.mapM_cons]
      rcases List.mem_cons.mp mem with rfl | later
      · rw [refused]
        rfl
      · rw [ih later]
        cases f first <;> rfl

def writtenName (keys : List (List Char)) : List Char := join ',' (sortedSet (keys.map stripSlashes))

def normalName (namespace_ : List Char) (keys : List (List Char)) : List Char :=
  join ',' (sortedSet (keys.map fun key => (normalRoot namespace_ key).text))

theorem writtenName_perm (order : keys'.Perm keys) : writtenName keys' = writtenName keys :=
  congrArg (join ',') (sortedSet_inj.mpr fun _ => (order.map _).mem_iff)

theorem normalName_perm (order : keys'.Perm keys) :
    normalName namespace_ keys' = normalName namespace_ keys :=
  congrArg (join ',') (sortedSet_inj.mpr fun _ => (order.map _).mem_iff)

theorem testDirsTargetName_eq (some_ : keys ≠ []) (nonempty : ∀ key ∈ keys, key ≠ []) :
    testDirsTargetName keys = some (writtenName keys) := by
  have whole : keys.filter (· ≠ []) = keys :=
    List.filter_eq_self.mpr fun key mem => by simpa using nonempty key mem
  unfold testDirsTargetName
  simp only [whole, List.map_eq_nil_iff, some_, if_false, writtenName]

theorem storageTargetNameDefault_eq {substrate : List Char} (some_ : keys ≠ [])
    (nonempty : ∀ key ∈ keys, key ≠ []) :
    storageTargetNameDefault substrate namespace_ keys =
      some (if substrate = "kubectl".toList ∧ ∀ key ∈ keys, KeyAccepted namespace_ key then
        normalName namespace_ keys else writtenName keys) := by
  classical
  have whole : keys.filter (· ≠ []) = keys :=
    List.filter_eq_self.mpr fun key mem => by simpa using nonempty key mem
  unfold storageTargetNameDefault
  simp only [if_neg some_, whole, sortUnique_eq]
  by_cases kubectl : substrate = "kubectl".toList
  · by_cases every : ∀ key ∈ keys, KeyAccepted namespace_ key
    · have split := mapM_eq_some fun key mem => (every key mem).split
      simp only [if_pos kubectl, split, List.map_map, List.map_eq_nil_iff, if_neg some_]
      rw [if_pos ⟨kubectl, every⟩]
      rfl
    · obtain ⟨key, mem, refused⟩ : ∃ key ∈ keys, ¬KeyAccepted namespace_ key := by
        simpa using every
      have split := mapM_eq_none mem (splitTestDirKey_eq_none refused)
      simp only [if_pos kubectl, split, List.map_eq_nil_iff, if_neg some_]
      rw [if_neg fun both => every both.2]
      rfl
  · simp only [if_neg kubectl, List.map_eq_nil_iff, if_neg some_]
    rw [if_neg fun both => kubectl both.1]
    rfl

theorem defaultStorageTargetName_eq {substrate : List Char} (some_ : keys ≠ [])
    (nonempty : ∀ key ∈ keys, key ≠ []) :
    defaultStorageTargetName substrate namespace_ keys =
      some (if substrate = "kubectl".toList ∧ ∀ key ∈ keys, KeyLoose namespace_ key then
        normalName namespace_ keys else writtenName keys) := by
  classical
  unfold defaultStorageTargetName qualifiedRootsName
  rw [testDirsTargetName_eq some_ nonempty]
  by_cases kubectl : substrate = "kubectl".toList
  · by_cases every : ∀ key ∈ keys, KeyLoose namespace_ key
    · have split := mapM_eq_some (f := fun key => qualifiedRoot key namespace_)
        fun key mem => (every key mem).qualified
      rw [if_pos kubectl, if_neg some_, split, if_pos ⟨kubectl, every⟩]
      rfl
    · obtain ⟨key, mem, refused⟩ : ∃ key ∈ keys, ¬KeyLoose namespace_ key := by
        simpa using every
      have split := mapM_eq_none (f := fun key => qualifiedRoot key namespace_) mem
        (qualifiedRoot_eq_none refused)
      rw [if_pos kubectl, if_neg some_, split, if_neg fun both => every both.2]
      rfl
  · rw [if_neg kubectl, if_neg fun both => kubectl both.1]

/-! ## Agreement -/

/-- Roots that Python alone accepts, and whose normal forms do not give the name that their texts
give. -/
def Misread (namespace_ : List Char) (keys : List (List Char)) : Prop :=
  (∀ key ∈ keys, KeyLoose namespace_ key) ∧ (∃ key ∈ keys, Dangling namespace_ key) ∧
    ∃ key ∈ keys, stripSlashes key ≠ (normalRoot namespace_ key).text

theorem writtenName_eq_normalName (some_ : keys ≠ [])
    (loose : ∀ key ∈ keys, KeyLoose namespace_ key) :
    writtenName keys = normalName namespace_ keys ↔
      ∀ key ∈ keys, stripSlashes key = (normalRoot namespace_ key).text := by
  unfold writtenName normalName
  rw [join_sortedSet (by simpa using some_) (by simpa using some_)
    (List.forall_mem_map.mpr fun key mem => (loose key mem).comma_strip)
    (List.forall_mem_map.mpr fun key mem => (loose key mem).comma_root)]
  constructor
  · intro same key mem
    -- The text of a key is the normal form of another one, and so its own normal form.
    obtain ⟨other, there, eq⟩ := List.mem_map.mp
      ((same (stripSlashes key)).mp (List.mem_map_of_mem mem))
    have again := (loose other there).normalRoot_text namespace_
    rw [eq, normalRoot_stripSlashes (loose key mem).colon] at again
    rw [again, eq]
  · intro same root
    rw [List.map_congr_left same]

/-- Both languages read a key alike unless a newline ends one of its names, and give the roots one
name unless such a key changes it. -/
theorem target_names_agree (substrate namespace_ : List Char) (keys keys' : List (List Char))
    (order : keys'.Perm keys) (nonempty : ∀ key ∈ keys, key ≠ []) :
    (∀ key ∈ keys, qualifiedRoot key namespace_ = (splitTestDirKey namespace_ key).map Root.text ↔
      ¬(KeyLoose namespace_ key ∧ Dangling namespace_ key)) ∧
    (defaultStorageTargetName substrate namespace_ keys' =
        storageTargetNameDefault substrate namespace_ keys ↔
      ¬(substrate = "kubectl".toList ∧ Misread namespace_ keys)) := by
  classical
  refine ⟨fun _ _ => qualifiedRoot_agrees, ?_⟩
  by_cases some_ : keys = []
  · subst some_
    rw [List.perm_nil.mp order]
    have python : defaultStorageTargetName substrate namespace_ [] = none := by
      unfold defaultStorageTargetName
      split <;> rfl
    refine iff_of_true python fun misread => ?_
    obtain ⟨key, mem, -⟩ := misread.2.2.1
    exact absurd mem List.not_mem_nil
  have loose : (∀ key ∈ keys', KeyLoose namespace_ key) ↔ ∀ key ∈ keys, KeyLoose namespace_ key := by
    simp only [order.mem_iff]
  have accepted : (∀ key ∈ keys, KeyAccepted namespace_ key) ↔
      (∀ key ∈ keys, KeyLoose namespace_ key) ∧ ¬∃ key ∈ keys, Dangling namespace_ key := by
    simp only [keyAccepted_iff, not_exists, not_and]
    exact ⟨fun every => ⟨fun key mem => (every key mem).1, fun key mem => (every key mem).2⟩,
      fun both key mem => ⟨both.1 key mem, both.2 key mem⟩⟩
  have some_' : keys' ≠ [] := fun empty => some_ (List.nil_perm.mp (empty ▸ order))
  rw [defaultStorageTargetName_eq some_' fun key mem => nonempty key (order.mem_iff.mp mem),
    storageTargetNameDefault_eq some_ nonempty, Option.some.injEq, writtenName_perm order,
    normalName_perm order, Misread]
  simp only [loose, accepted]
  by_cases every : substrate = "kubectl".toList ∧ ∀ key ∈ keys, KeyLoose namespace_ key
  · rw [if_pos every]
    by_cases dangling : ∃ key ∈ keys, Dangling namespace_ key
    · rw [if_neg fun both => both.2.2 dangling, eq_comm, writtenName_eq_normalName some_ every.2]
      constructor
      · intro written misread
        obtain ⟨key, mem, differs⟩ := misread.2.2.2
        exact differs (written key mem)
      · intro fine key mem
        exact of_not_not fun differs => fine ⟨every.1, every.2, dangling, key, mem, differs⟩
    · rw [if_pos ⟨every.1, every.2, dangling⟩]
      exact iff_of_true rfl fun misread => dangling misread.2.2.1
  · rw [if_neg every, if_neg fun both => every ⟨both.1, both.2.1⟩]
    exact iff_of_true rfl fun misread => every ⟨misread.1, misread.2.1⟩

/-- Trailing slashes and a default namespace leave one name. -/
theorem target_names_agree_slashes :
    defaultStorageTargetName "kubectl".toList "ns".toList ["b/a:x".toList, "c:y//".toList] =
      storageTargetNameDefault "kubectl".toList "ns".toList ["c:y//".toList, "b/a:x".toList] :=
  (target_names_agree "kubectl".toList "ns".toList ["c:y//".toList, "b/a:x".toList]
    ["b/a:x".toList, "c:y//".toList] (by decide +kernel) (by decide)).2.mpr fun misread => by
      obtain ⟨key, mem, dangling⟩ := misread.2.2.1
      revert key
      decide +kernel

/-- The claim `c`, a newline and a path. -/
theorem target_names_newline :
    qualifiedRoot "c\n:y".toList "ns".toList = some "ns/c\n:y".toList ∧
      splitTestDirKey "ns".toList "c\n:y".toList = none ∧
      defaultStorageTargetName "kubectl".toList "ns".toList ["c\n:y".toList] =
        some "ns/c\n:y".toList ∧
      storageTargetNameDefault "kubectl".toList "ns".toList ["c\n:y".toList] =
        some "c\n:y".toList := by
  decide +kernel

end StorageScaleTest.Targets
