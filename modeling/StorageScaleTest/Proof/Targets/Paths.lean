import StorageScaleTest.Shell.Text
import StorageScaleTest.Targets.Keys

/-!
# Paths below a claim

Both languages normalize a path to the components between its slashes.
-/

namespace StorageScaleTest.Targets
open Shell

/-! ## Components -/

def components (value : List Char) : List (List Char) := (value.splitOn '/').filter (· ≠ [])

theorem components_slash (first rest : List Char) :
    components (first ++ '/' :: rest) = components first ++ components rest := by
  rw [components, List.splitOn_append_cons_self, List.filter_append]
  rfl

@[simp] theorem components_dropWhile (value : List Char) :
    components (value.dropWhile (· = '/')) = components value := by
  induction value with
  | nil => rfl
  | cons c rest ih =>
      by_cases slash : c = '/'
      · rw [List.dropWhile_cons_of_pos (by simpa using slash), ih, slash]
        exact (components_slash [] rest).symm
      · rw [List.dropWhile_cons_of_neg (by simpa using slash)]

@[simp] theorem components_rdropWhile (value : List Char) :
    components (value.rdropWhile (· = '/')) = components value := by
  induction value using List.reverseRecOn with
  | nil => rfl
  | append_singleton rest c ih =>
      by_cases slash : c = '/'
      · rw [List.rdropWhile_concat_pos _ _ _ (by simpa using slash), ih, slash, components_slash]
        exact (List.append_nil _).symm
      · rw [List.rdropWhile_concat_neg _ _ _ (by simpa using slash)]

theorem components_join {words : List (List Char)}
    (regular : ∀ word ∈ words, word ≠ [] ∧ '/' ∉ word) : components (join '/' words) = words := by
  by_cases empty : words = []
  · rw [empty]
    rfl
  · rw [components, splitOn_join empty fun word mem => (regular word mem).2]
    exact List.filter_eq_self.mpr fun word mem => by simpa using (regular word mem).1

theorem mem_of_mem_splitOn {separator c : Char} {value part : List Char}
    (mem : part ∈ value.splitOn separator) (inside : c ∈ part) : c ∈ value := by
  have whole : [separator].intercalate (value.splitOn separator) = value :=
    List.intercalate_splitOn separator
  rw [← whole]
  generalize value.splitOn separator = parts at mem
  induction parts with
  | nil => exact absurd mem List.not_mem_nil
  | cons first rest ih =>
      cases rest with
      | nil =>
          rw [List.mem_singleton.mp mem] at inside
          simpa using inside
      | cons next rest =>
          rw [List.intercalate_cons_cons, List.append_assoc]
          rcases List.mem_cons.mp mem with rfl | later
          · exact List.mem_append_left _ inside
          · exact List.mem_append_right _ (List.mem_append_right _ (ih later))

theorem filter_fields {value : List Char} (single : '\n' ∉ value) :
    (fields '/' value).filter (· ≠ []) = components value := by
  unfold fields components
  simp only [firstLine_eq single]
  split
  · rename_i last
    have parts := List.dropLast_append_getLast? [] last
    conv_rhs => rw [← parts]
    simp
  · rfl

/-! ## Regular components -/

def Fine (component : List Char) : Prop :=
  component ∉ [['.'], ['.', '.'], reserved] ∧ plain component = true

instance : DecidablePred Fine := fun component =>
  inferInstanceAs (Decidable (component ∉ [['.'], ['.', '.'], reserved] ∧ plain component = true))

theorem plain_ne_nil {component : List Char} (ok : plain component = true) : component ≠ [] := by
  simp only [plain, Bool.and_eq_true, decide_eq_true_eq] at ok
  exact ok.1

theorem plain_absent {component : List Char} {c : Char} (ok : plain component = true)
    (other : (c.isAlphanum || c = '.' || c = '_' || c = '-') = false) : c ∉ component := by
  intro mem
  simp only [plain, Bool.and_eq_true, List.all_eq_true] at ok
  have inside := ok.2 c mem
  rw [other] at inside
  exact Bool.false_ne_true inside

theorem matchLine_of_not_mem {pattern : List Char → Bool} {word : List Char} (single : '\n' ∉ word) :
    matchLine pattern word = pattern word := by
  have last : word.getLast? ≠ some '\n' := fun eq => single (List.mem_of_getLast? eq)
  simp [matchLine, last]

theorem foldlM_addComponent (parts normalized : List (List Char)) :
    parts.foldlM addComponent normalized =
      if ∀ component ∈ parts.filter (· ≠ []), Fine component then
        some (normalized ++ parts.filter (· ≠ [])) else none := by
  induction parts generalizing normalized with
  | nil => simp
  | cons component rest ih =>
      rw [List.foldlM_cons]
      by_cases empty : component = []
      · simp [addComponent, empty, ih]
      · by_cases fine : Fine component
        · have added : addComponent normalized component = some (normalized ++ [component]) := by
            obtain ⟨other, ok⟩ := fine
            simp only [List.mem_cons, List.not_mem_nil, or_false, not_or] at other
            simp [addComponent, empty, other, ok]
          rw [added, Option.bind_eq_bind, Option.bind_some, ih]
          simp [empty, fine]
        · have refused : addComponent normalized component = none := by
            simp only [Fine, List.mem_cons, List.not_mem_nil, or_false, not_or] at fine
            unfold addComponent
            split_ifs <;> first | rfl | simp_all
          rw [refused, if_neg]
          · rfl
          · intro every
            exact fine (every component (by simp [empty]))

/-! ## Accepted paths -/

def PathAccepted (value : List Char) : Prop :=
  value.any broken = false ∧ components value ≠ [] ∧ ∀ component ∈ components value, Fine component

instance : DecidablePred PathAccepted := fun value =>
  inferInstanceAs (Decidable (value.any broken = false ∧ components value ≠ [] ∧
    ∀ component ∈ components value, Fine component))

theorem not_newline {value : List Char} (unbroken : value.any broken = false) : '\n' ∉ value := by
  intro mem
  have := List.any_eq_false.mp unbroken '\n' mem
  exact this rfl

theorem Fine.absent {component : List Char} {c : Char} (fine : Fine component)
    (other : (c.isAlphanum || c = '.' || c = '_' || c = '-') = false) : c ∉ component :=
  plain_absent fine.2 other

theorem normalizeClaimPath_eq (value : List Char) :
    normalizeClaimPath value =
      if PathAccepted value then some (join '/' (components value)) else none := by
  unfold normalizeClaimPath
  by_cases stop : value = [] ∨ value.any broken
  · rw [if_pos stop, if_neg]
    rintro ⟨unbroken, some_, -⟩
    rcases stop with rfl | stop
    · exact some_ rfl
    · exact absurd stop (by simp [unbroken])
  · rw [if_neg stop, foldlM_addComponent, filter_fields, components_dropWhile, List.nil_append]
    · simp only [not_or, Bool.not_eq_true] at stop
      by_cases fine : ∀ component ∈ components value, Fine component
      · rw [if_pos fine]
        by_cases some_ : components value = []
        · rw [some_, if_neg fun accepted => accepted.2.1 some_]
        · rw [if_pos ⟨stop.2, some_, fine⟩]
          split <;> simp_all
      · rw [if_neg fine, if_neg fun accepted => fine accepted.2.2]
    · exact fun mem => not_newline (by simpa using (not_or.mp stop).2) (List.dropWhile_subset _ mem)

theorem join_eq_nil {words : List (List Char)} (nonempty : ∀ word ∈ words, word ≠ []) :
    join '/' words = [] ↔ words = [] := by
  cases words with
  | nil => simp [join]
  | cons first rest =>
      have some_ := nonempty first List.mem_cons_self
      cases rest <;> simp [join, List.intercalate_cons_cons, some_]

theorem claimPath_eq (value : List Char) : claimPath value = normalizeClaimPath value := by
  rw [normalizeClaimPath_eq]
  unfold claimPath
  by_cases stop : value = [] ∨ value.any broken
  · rw [if_pos stop, if_neg]
    rintro ⟨unbroken, some_, -⟩
    rcases stop with rfl | stop
    · exact some_ rfl
    · exact absurd stop (by simp [unbroken])
  · have unbroken : value.any broken = false := by simpa using (not_or.mp stop).2
    have bad : ((components value).any fun component =>
        component ∈ [['.'], ['.', '.'], reserved] || !matchLine plain component) = true ↔
          ¬∀ component ∈ components value, Fine component := by
      rw [List.any_eq_true]
      simp only [not_forall, exists_prop]
      refine exists_congr fun component => and_congr_right fun mem => ?_
      have single : '\n' ∉ component := fun inside =>
        not_newline unbroken (mem_of_mem_splitOn (List.mem_of_mem_filter mem) inside)
      rw [matchLine_of_not_mem single, Fine, not_and_or, not_not]
      simp
    have empty : join '/' (components value) = [] ↔ components value = [] :=
      join_eq_nil fun word mem => by simpa using (List.mem_filter.mp mem).2
    rw [if_neg stop]
    change (if ((components value).any _) = true then _ else
      if join '/' (components value) = [] then _ else _) = _
    by_cases fine : ∀ component ∈ components value, Fine component
    · rw [if_neg fun refused => bad.mp refused fine]
      by_cases some_ : components value = []
      · rw [if_pos (empty.mpr some_), if_neg fun accepted => accepted.2.1 some_]
      · rw [if_neg fun nil => some_ (empty.mp nil), if_pos ⟨unbroken, some_, fine⟩]
        rfl
    · rw [if_pos (bad.mpr fine), if_neg fun accepted => fine accepted.2.2]

theorem PathAccepted.joined {value : List Char} (accepted : PathAccepted value) :
    components (join '/' (components value)) = components value ∧
      PathAccepted (join '/' (components value)) := by
  obtain ⟨-, some_, fine⟩ := accepted
  have same : components (join '/' (components value)) = components value :=
    components_join fun word mem => ⟨plain_ne_nil (fine word mem).2, (fine word mem).absent rfl⟩
  refine ⟨same, ?_, by rwa [same], by rwa [same]⟩
  refine List.any_eq_false.mpr fun c mem bad => ?_
  have absent : c ∉ join '/' (components value) := by
    simp only [broken, Bool.or_eq_true, decide_eq_true_eq] at bad
    rcases bad with (rfl | rfl) | rfl
    all_goals exact not_mem_join (by decide) fun word mem => (fine word mem).absent rfl
  exact absent mem

end StorageScaleTest.Targets
