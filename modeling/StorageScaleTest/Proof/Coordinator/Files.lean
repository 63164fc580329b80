import StorageScaleTest.Coordinator.Publication

namespace StorageScaleTest.Coordinator

/-! ## Directories -/

namespace Directory

theorem lookup_filter_ne (entries : List (String × Bytes)) (name key : String) :
    (entries.filter fun entry => entry.1 ≠ name).lookup key =
      if key = name then none else entries.lookup key := by
  induction entries with
  | nil => simp
  | cons entry rest ih =>
      obtain ⟨file, bytes⟩ := entry
      by_cases same : file = name
      · rw [List.filter_cons_of_neg (by simp [same]), ih, List.lookup_cons]
        by_cases hk : key = name
        · simp [hk]
        · simp [hk, same, beq_eq_false_iff_ne.mpr hk]
      · rw [List.filter_cons_of_pos (by simp [same]), List.lookup_cons, List.lookup_cons, ih]
        by_cases hk : key = file
        · simp [hk, same]
        · simp [beq_eq_false_iff_ne.mpr hk]

theorem get?_remove (d : Directory) (name key : String) :
    (d.remove name).get? key = if key = name then none else d.get? key :=
  lookup_filter_ne d.entries name key

theorem get?_put (d : Directory) (name key : String) (bytes : Bytes) :
    (d.put name bytes).get? key = if key = name then some bytes else d.get? key := by
  by_cases same : key = name
  · simp [get?, put, same]
  · have different : (key == name) = false := by simp [same]
    have rest := get?_remove d name key
    rw [if_neg same] at rest ⊢
    simpa [get?, put, List.lookup_cons, different] using rest

theorem get?_rename (d : Directory) (source destination key : String) (bytes : Bytes)
    (found : d.get? source = some bytes) :
    (d.rename source destination).get? key =
      if key = destination then some bytes else if key = source then none else d.get? key := by
  rw [rename, found]
  simp only [get?_put, get?_remove]

theorem mem_names {d : Directory} {name : String} :
    name ∈ d.names ↔ (d.get? name).isSome := by
  have entry : name ∈ d.names ↔ name ∈ d.entries.map Prod.fst :=
    (List.perm_insertionSort (· ≤ ·) (d.entries.map Prod.fst)).mem_iff
  rw [entry, get?, List.lookup_isSome_iff]
  simp

theorem names_nodup (d : Directory) : d.names.Nodup :=
  (List.perm_insertionSort (· ≤ ·) (d.entries.map Prod.fst)).nodup_iff.mpr d.nodup

theorem names_sorted (d : Directory) : d.names.Pairwise (· ≤ ·) :=
  List.pairwise_insertionSort _ _

theorem names_strict (d : Directory) : d.names.Pairwise (· < ·) :=
  (d.names_sorted.and d.names_nodup).imp fun h => lt_of_le_of_ne h.1 h.2

end Directory

/-! ## Names -/

theorem splitOn_append_tail (l s : List Char) (plain : '/' ∉ s) :
    ∃ init last, l.splitOn '/' = init ++ [last] ∧ (l ++ s).splitOn '/' = init ++ [last ++ s] := by
  induction l with
  | nil => exact ⟨[], [], by simp [List.splitOn_nil], by simp [List.splitOn_eq_singleton plain]⟩
  | cons c l ih =>
      obtain ⟨init, last, hl, hs⟩ := ih
      rw [List.cons_append, List.splitOn_cons_eq_if_modifyHead,
        List.splitOn_cons_eq_if_modifyHead, hl, hs]
      by_cases slash : c = '/'
      · exact ⟨[] :: init, last, by simp [slash], by simp [slash]⟩
      · cases init with
        | nil => exact ⟨[], c :: last, by simp [slash], by simp [slash]⟩
        | cons part init => exact ⟨(c :: part) :: init, last, by simp [slash], by simp [slash]⟩

def regularPart (part : List Char) : Bool := part ≠ [] && part ≠ ['.'] && part ≠ ['.', '.']

theorem components_append_tail (l s : List Char) (plain : '/' ∉ s) (long : 3 ≤ s.length)
    (parts : (components l).all regularPart = true) :
    (components (l ++ s)).all regularPart = true := by
  obtain ⟨init, last, hl, hs⟩ := splitOn_append_tail l s plain
  have full : ∀ extra, 3 ≤ extra.length → regularPart extra = true := by
    intro extra h
    have h0 : extra ≠ [] := by rintro rfl; simp at h
    have h1 : extra ≠ ['.'] := by rintro rfl; simp at h
    have h2 : extra ≠ ['.', '.'] := by rintro rfl; simp at h
    simp [regularPart, h0, h1, h2]
  have nonempty : last ++ s ≠ [] := by
    intro h
    have := congrArg List.length h
    simp only [List.length_append, List.length_nil] at this
    omega
  have front : init.all regularPart = true := by
    simp only [components, hl] at parts
    by_cases empty : last = []
    · simpa [empty] using parts
    · simp only [List.getLast?_append, List.getLast?_singleton, Option.some_or,
        Option.some.injEq, empty, if_false, List.all_append, Bool.and_eq_true] at parts
      exact parts.1
  have tail := full (last ++ s) (by simp only [List.length_append]; omega)
  simp only [components, hs, List.getLast?_append, List.getLast?_singleton, Option.some_or,
    Option.some.injEq, nonempty, if_false, List.all_append, front, Bool.true_and]
  simpa using tail

theorem regularRelativePath_iff (value : String) :
    regularRelativePath value = true ↔
      value.toList ≠ [] ∧ value.toList.head? ≠ some '/' ∧
        (∀ c ∈ value.toList, c ≠ '\n' ∧ c ≠ '\r' ∧ c ≠ '\t') ∧
        value.toList ≠ ['.'] ∧ value.toList ≠ ['.', '.'] ∧
        (components value.toList).all regularPart = true := by
  have empty : value = "" ↔ value.toList = [] := by rw [← String.toList_inj]; simp
  have dot : value = "." ↔ value.toList = ['.'] := by rw [← String.toList_inj]; simp
  have dots : value = ".." ↔ value.toList = ['.', '.'] := by rw [← String.toList_inj]; simp
  simp only [regularRelativePath, empty, dot, dots, ne_eq, decide_not, Bool.and_eq_true,
    Bool.not_eq_true', decide_eq_false_iff_not, List.all_eq_true, and_assoc, regularPart]

theorem digits_plain (n : Nat) : ∀ c ∈ (toString n).toList, c.isDigit = true := by
  intro c mem
  have h : c ∈ Nat.toDigits 10 n := by simpa using mem
  exact Nat.isDigit_of_mem_toDigits (by decide) (by decide) h

def temporarySuffix (tag : Nat × Nat) : List Char :=
  ['.', 't', 'm', 'p', '.'] ++ (toString tag.1).toList ++ ['.'] ++ (toString tag.2).toList

theorem temporaryName_toList (name : String) (tag : Nat × Nat) :
    (temporaryName name tag).toList = name.toList ++ temporarySuffix tag := by
  simp [temporaryName, temporarySuffix]

theorem temporarySuffix_plain (tag : Nat × Nat) :
    ∀ c ∈ temporarySuffix tag, c ≠ '/' ∧ c ≠ '\n' ∧ c ≠ '\r' ∧ c ≠ '\t' := by
  have digit : ∀ c : Char, c.isDigit = true → c ≠ '/' ∧ c ≠ '\n' ∧ c ≠ '\r' ∧ c ≠ '\t' := by
    intro c h
    refine ⟨?_, ?_, ?_, ?_⟩ <;> (rintro rfl; exact absurd h (by decide))
  intro c mem
  simp only [temporarySuffix, List.mem_append, List.mem_cons, List.not_mem_nil, or_false] at mem
  rcases mem with (((rfl | rfl | rfl | rfl | rfl) | mem) | rfl) | mem
  · decide
  · decide
  · decide
  · decide
  · decide
  · exact digit c (digits_plain _ c mem)
  · decide
  · exact digit c (digits_plain _ c mem)

/-- The temporary a killed copy leaves behind is still a name the manifest can list. -/
theorem temporaryName_regular (name : String) (tag : Nat × Nat)
    (regular : regularRelativePath name = true) :
    regularRelativePath (temporaryName name tag) = true := by
  rw [regularRelativePath_iff] at regular ⊢
  obtain ⟨nonempty, relative, control, -, -, parts⟩ := regular
  have plain := temporarySuffix_plain tag
  have long : 5 ≤ (temporarySuffix tag).length := by simp [temporarySuffix]
  rw [temporaryName_toList]
  refine ⟨by simp [nonempty], ?_, ?_, ?_, ?_, ?_⟩
  · cases h : name.toList with
    | nil => exact absurd h nonempty
    | cons c rest => simpa [h] using relative
  · intro c mem
    rcases List.mem_append.mp mem with mem | mem
    · exact control c mem
    · exact (plain c mem).2
  · intro h
    have := congrArg List.length h
    simp only [List.length_append, List.length_cons, List.length_nil] at this
    omega
  · intro h
    have := congrArg List.length h
    simp only [List.length_append, List.length_cons, List.length_nil] at this
    omega
  · exact components_append_tail _ _ (fun mem => (plain _ mem).1 rfl) (by omega) parts

theorem lt_temporaryName (name : String) (tag : Nat × Nat) : name < temporaryName name tag := by
  rw [String.lt_iff_toList_lt, temporaryName_toList]
  induction name.toList with
  | nil => simp [temporarySuffix]
  | cons c rest ih => exact List.Lex.cons ih

end StorageScaleTest.Coordinator
