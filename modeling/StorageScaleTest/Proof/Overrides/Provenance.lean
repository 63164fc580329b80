import StorageScaleTest.Overrides.Provenance
import Mathlib.Data.List.Induction

/-!
# A snapshot and its provenance

A snapshot with arrays restores what was recorded. One with scalars alone can take the arrays of
an earlier snapshot for its own.
-/

namespace StorageScaleTest.Overrides
open Shell

/-! ## Normalization -/

def Agreeing (p : Provenance) : Prop :=
  p.file ≠ [] ∧ p.sha256s.length = p.files.length ∧ p.fileVars.length = p.files.length ∧
    p.files.getLast? = some p.file ∧ p.sha256s.getLast? = some p.sha256 ∧ union p.fileVars = p.vars

instance (p : Provenance) : Decidable (Agreeing p) :=
  inferInstanceAs (Decidable (p.file ≠ [] ∧ p.sha256s.length = p.files.length ∧
    p.fileVars.length = p.files.length ∧ p.files.getLast? = some p.file ∧
      p.sha256s.getLast? = some p.sha256 ∧ union p.fileVars = p.vars))

theorem getD_last {entries : List (List Char)} {n : Nat} (length : entries.length = n)
    (some_ : 0 < n) : entries.getLast? = some (entries.getD (n - 1) []) := by
  rw [List.getLast?_eq_getElem?, length, List.getD_eq_getElem?_getD,
    List.getElem?_eq_getElem (by omega)]
  rfl

theorem normalize_eq (p : Provenance) : normalize p = if Agreeing p then p else rebuild p := by
  unfold normalize
  by_cases shape : p.files ≠ [] ∧ p.file ≠ [] ∧ p.sha256s.length = p.files.length ∧
      p.fileVars.length = p.files.length
  · obtain ⟨some_, file, shas, vars⟩ := shape
    have last := List.getLast?_eq_some_getLast some_
    have sha := getD_last shas (List.length_pos_of_ne_nil some_)
    have refreshed : refresh p = { p with
        file := p.files.getLast some_
        sha256 := p.sha256s.getD (p.files.length - 1) []
        vars := union p.fileVars } := by
      rw [refresh, last]
    rw [if_pos ⟨some_, file, shas, vars⟩]
    simp only [refreshed]
    by_cases agree : Agreeing p
    · obtain ⟨-, -, -, lastFile, lastSha, same⟩ := agree
      rw [last] at lastFile
      rw [sha] at lastSha
      rw [if_pos ⟨Option.some.inj lastFile, Option.some.inj lastSha, same⟩,
        if_pos ⟨file, shas, vars, last.trans lastFile, sha.trans lastSha, same⟩,
        Option.some.inj lastFile, Option.some.inj lastSha, same]
    · rw [if_neg agree, if_neg]
      rintro ⟨lastFile, lastSha, same⟩
      exact agree ⟨file, shas, vars, last.trans (congrArg some lastFile),
        sha.trans (congrArg some lastSha), same⟩
  · rw [if_neg shape, if_neg]
    rintro ⟨file, shas, vars, last, -, -⟩
    refine shape ⟨?_, file, shas, vars⟩
    rintro empty
    rw [empty] at last
    cases last

theorem rebuild_scalars (p : Provenance) :
    (rebuild p).file = p.file ∧ (rebuild p).sha256 = p.sha256 ∧ (rebuild p).vars = p.vars := by
  unfold rebuild
  split <;> exact ⟨rfl, rfl, rfl⟩

theorem normalize_scalars (p : Provenance) :
    (normalize p).file = p.file ∧ (normalize p).sha256 = p.sha256 ∧ (normalize p).vars = p.vars := by
  rw [normalize_eq]
  split
  · exact ⟨rfl, rfl, rfl⟩
  · exact rebuild_scalars p

theorem rebuild_rebuild (p : Provenance) : rebuild (rebuild p) = rebuild p := by
  by_cases empty : p.file = [] <;> simp [rebuild, empty]

theorem normalize_normalize (p : Provenance) : normalize (normalize p) = normalize p := by
  rw [normalize_eq p]
  split
  · rename_i agree
    rw [normalize_eq, if_pos agree]
  · rw [normalize_eq, rebuild_rebuild, ite_self]

/-! ## Recording -/

theorem record_agreeing (p : Provenance) (override : Override) (label : override.label ≠ [])
    (shas : p.sha256s.length = p.files.length) (vars : p.fileVars.length = p.files.length) :
    Agreeing (record p override) := by
  have last : (p.files ++ [override.label]).getLast? = some override.label := List.getLast?_concat
  have sha : (p.sha256s ++ [override.sha256]).getD (p.files.length + 1 - 1) [] = override.sha256 := by
    rw [Nat.add_sub_cancel, ← shas, List.getD_eq_getElem?_getD, List.getElem?_concat_length]
    rfl
  unfold record refresh
  simp only [last, List.length_append, List.length_singleton, sha]
  refine ⟨label, ?_, ?_, last, List.getLast?_concat, rfl⟩
  · simp [shas]
  · simp [vars]

theorem record_arrays (p : Provenance) (override : Override) :
    (record p override).files = p.files ++ [override.label] ∧
      (record p override).sha256s = p.sha256s ++ [override.sha256] ∧
      (record p override).fileVars = p.fileVars ++ [override.vars] := by
  unfold record refresh
  split <;> exact ⟨rfl, rfl, rfl⟩

def recorded (overrides : List Override) : Provenance := overrides.foldl record reset

theorem recorded_arrays (overrides : List Override) :
    (recorded overrides).files = overrides.map Override.label ∧
      (recorded overrides).sha256s = overrides.map Override.sha256 ∧
      (recorded overrides).fileVars = overrides.map Override.vars := by
  induction overrides using List.reverseRecOn with
  | nil => exact ⟨rfl, rfl, rfl⟩
  | append_singleton overrides override ih =>
      have step : recorded (overrides ++ [override]) = record (recorded overrides) override :=
        List.foldl_concat ..
      obtain ⟨files, shas, vars⟩ := record_arrays (recorded overrides) override
      rw [step, files, shas, vars, ih.1, ih.2.1, ih.2.2, List.map_append, List.map_append,
        List.map_append]
      exact ⟨rfl, rfl, rfl⟩

theorem normalize_recorded {overrides : List Override}
    (labels : ∀ override ∈ overrides, override.label ≠ []) :
    normalize (recorded overrides) = recorded overrides := by
  rcases List.eq_nil_or_concat overrides with rfl | ⟨before, last, rfl⟩
  · rfl
  · rw [List.concat_eq_append] at labels ⊢
    have step : recorded (before ++ [last]) = record (recorded before) last := List.foldl_concat ..
    obtain ⟨files, shas, vars⟩ := recorded_arrays before
    rw [normalize_eq, if_pos]
    rw [step]
    exact record_agreeing _ last (labels last (by simp)) (by rw [files, shas]; simp)
      (by rw [files, vars]; simp)

/-! ## Snapshots -/

def scalarsOf (p : Provenance) : List (List Char × Assigned) :=
  [(fileName, .scalar p.file), (sha256Name, .scalar p.sha256), (varsName, .scalar p.vars)]

def arraysOf (p : Provenance) : List (List Char × Assigned) :=
  [(filesName, .array p.files), (sha256sName, .array p.sha256s), (fileVarsName, .array p.fileVars)]

theorem names_valid (p : Provenance) :
    ∀ assignment ∈ scalarsOf p ++ arraysOf p, assignment.1 ≠ [] ∧ isName assignment.1 = true := by
  have start : isName "STORAGE_SCALE_TEST_ENV_OVERRIDE_".toList = true := by decide +kernel
  have suffixes : ∀ suffix ∈ ["FILE".toList, "SHA256".toList, "VARIABLES".toList, "FILES".toList,
      "SHA256S".toList, "FILE_VARIABLES".toList], suffix ≠ [] ∧ isName suffix = true := by
    decide +kernel
  intro assignment mem
  have named : assignment.1 ∈ ["FILE".toList, "SHA256".toList, "VARIABLES".toList, "FILES".toList,
      "SHA256S".toList, "FILE_VARIABLES".toList].map overrideName :=
    List.mem_map_of_mem (f := Prod.fst) mem
  obtain ⟨suffix, inside, eq⟩ := List.mem_map.mp named
  obtain ⟨some_, valid⟩ := suffixes suffix inside
  refine eq ▸ ⟨fun empty => some_ (List.append_eq_nil_iff.mp empty).2, ?_⟩
  exact (isName_append ..).trans (Bool.and_eq_true_iff.mpr ⟨start, valid⟩)

theorem overrideName_ne {a b : List Char} (differ : a ≠ b) : overrideName a ≠ overrideName b :=
  fun same => differ (List.append_cancel_left same)

theorem assign_scalars (p q : Provenance) :
    (scalarsOf p).foldl assign q = { q with file := p.file, sha256 := p.sha256, vars := p.vars } := by
  have second : sha256Name ≠ fileName := overrideName_ne (by decide +kernel)
  have third : varsName ≠ fileName ∧ varsName ≠ sha256Name :=
    ⟨overrideName_ne (by decide +kernel), overrideName_ne (by decide +kernel)⟩
  simp only [scalarsOf, List.foldl_cons, List.foldl_nil, assign, if_true, if_neg second,
    if_neg third.1, if_neg third.2]

theorem assign_arrays (p q : Provenance) :
    (arraysOf p).foldl assign q =
      { q with files := p.files, sha256s := p.sha256s, fileVars := p.fileVars } := by
  have second : sha256sName ≠ filesName := overrideName_ne (by decide +kernel)
  have third : fileVarsName ≠ filesName ∧ fileVarsName ≠ sha256sName :=
    ⟨overrideName_ne (by decide +kernel), overrideName_ne (by decide +kernel)⟩
  simp only [arraysOf, List.foldl_cons, List.foldl_nil, assign, if_true, if_neg second,
    if_neg third.1, if_neg third.2]

section

variable [Ctype]

theorem source_emit (p previous : Provenance) : source (emit p) previous = some (normalize p) := by
  have script := @assignments_unlines _ ["# --env-override provenance (empty when none was used).".toList]
    _ (by decide +kernel) (names_valid (normalize p))
  have found : source (emit p) previous =
      (some (scalarsOf (normalize p) ++ arraysOf (normalize p))).map fun found =>
        found.foldl assign previous := by
    rw [← script]
    rfl
  rw [found, Option.map_some, List.foldl_append, assign_scalars, assign_arrays]

def withScalars (p : Provenance) (file sha256 vars : List Char) : Provenance :=
  { p with file := file, sha256 := sha256, vars := vars }

theorem source_emitLegacy (file sha256 vars : List Char) (previous : Provenance) :
    source (emitLegacy file sha256 vars) previous = some (withScalars previous file sha256 vars) := by
  let p := withScalars previous file sha256 vars
  have script := @assignments_unlines _ [] (scalarsOf p) (by simp)
    fun assignment mem => names_valid p assignment (List.mem_append_left _ mem)
  have found : source (emitLegacy file sha256 vars) previous =
      (some (scalarsOf p)).map fun found => found.foldl assign previous := by
    rw [← script]
    rfl
  rw [found, Option.map_some, assign_scalars]
  rfl

/-! ## Snapshots with and without arrays -/

/-- A snapshot with arrays restores the overrides that were recorded. One without restores one entry
for its file, and none without a file, unless arrays that reproduce its scalars are in memory and are
other ones. Neither changes its scalars, and nothing is left to normalize. -/
theorem snapshot_provenance (overrides : List Override) (previous : Provenance)
    (file sha256 vars : List Char) (labels : ∀ override ∈ overrides, override.label ≠ []) :
    ((source (emit (recorded overrides)) previous).map normalize = some (recorded overrides) ∧
      (recorded overrides).files = overrides.map Override.label ∧
      (recorded overrides).sha256s = overrides.map Override.sha256 ∧
      (recorded overrides).fileVars = overrides.map Override.vars) ∧
    (source (emitLegacy file sha256 vars) previous = some (withScalars previous file sha256 vars) ∧
      (normalize (withScalars previous file sha256 vars) =
          rebuild (withScalars previous file sha256 vars) ↔
        ¬(Agreeing (withScalars previous file sha256 vars) ∧
          withScalars previous file sha256 vars ≠ rebuild (withScalars previous file sha256 vars))) ∧
      (normalize (withScalars previous file sha256 vars)).file = file ∧
      (normalize (withScalars previous file sha256 vars)).sha256 = sha256 ∧
      (normalize (withScalars previous file sha256 vars)).vars = vars) ∧
    normalize (normalize previous) = normalize previous := by
  refine ⟨⟨?_, recorded_arrays overrides⟩, ⟨source_emitLegacy file sha256 vars previous, ?_,
    normalize_scalars _⟩, normalize_normalize previous⟩
  · rw [source_emit, Option.map_some, normalize_normalize, normalize_recorded labels]
  · rw [normalize_eq]
    split
    · rename_i agree
      simp [agree]
    · rename_i differ
      simp [differ]

end

local instance snapshotLocale : Ctype := posix

/-- Two overrides, over a snapshot of another. -/
theorem snapshot_provenance_two :
    (source (emit (recorded [⟨['a'], ['0'], ['X']⟩, ⟨['b'], ['1'], ['Y']⟩]))
        (recorded [⟨['c'], ['2'], ['Z']⟩])).map normalize =
      some (recorded [⟨['a'], ['0'], ['X']⟩, ⟨['b'], ['1'], ['Y']⟩]) :=
  (snapshot_provenance [⟨['a'], ['0'], ['X']⟩, ⟨['b'], ['1'], ['Y']⟩]
    (recorded [⟨['c'], ['2'], ['Z']⟩]) [] [] [] (by decide)).1.1

/-- A legacy snapshot of the second of two files takes both from memory. -/
theorem snapshot_provenance_inherited :
    let previous := recorded [⟨['a'], ['0'], ['X']⟩, ⟨['b'], ['1'], ['Y']⟩]
    let legacy := withScalars previous ['b'] ['1'] ['X', ' ', 'Y']
    source (emitLegacy ['b'] ['1'] ['X', ' ', 'Y']) previous = some legacy ∧
      (normalize legacy).files = [['a'], ['b']] ∧ (rebuild legacy).files = [['b']] := by
  have found : words [['X'], ['Y']] = [['X'], ['Y']] := by decide +kernel
  have sorted : sortUnique [['X'], ['Y']] = [['X'], ['Y']] := by
    rw [sortUnique, List.mergeSort_of_pairwise (by decide)]
    decide
  intro previous legacy
  have arrays := recorded_arrays [⟨['a'], ['0'], ['X']⟩, ⟨['b'], ['1'], ['Y']⟩]
  have agree : Agreeing legacy := by
    have files : legacy.files = [['a'], ['b']] := arrays.1
    have shas : legacy.sha256s = [['0'], ['1']] := arrays.2.1
    have vars : legacy.fileVars = [['X'], ['Y']] := arrays.2.2
    rw [Agreeing, files, shas, vars, union, found, sorted]
    exact ⟨by decide, rfl, rfl, rfl, rfl, rfl⟩
  refine ⟨source_emitLegacy .., ?_, rfl⟩
  rw [normalize_eq, if_pos agree]
  exact arrays.1

end StorageScaleTest.Overrides
