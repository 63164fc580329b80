import Mathlib.Data.List.Nodup
import StorageScaleTest.Proof.Sweep.Ledger

/-!
# The result files of a reified sweep

Two executions share their result files exactly if `printf` writes the same coordinates for both.
-/

namespace StorageScaleTest.Sweep

open Shell

variable {fuel : Nat} {sweep : Specification} {counts : List Word} {ledger : List Execution}
  {a b : Execution} {c d : Cell} {outputDir : Word}

/-! ## Coordinates -/

def Cell.key (cell : Cell) : Word × Nat × Nat × Nat :=
  (cell.ioSize, printfNumber cell.nodes, printfNumber cell.threadCount, printfNumber cell.ioDepth)

theorem not_mem_pad {c : Char} (other : c.isDigit = false) (width n : Nat) : c ∉ pad width n := by
  intro mem
  rw [pad_digit mem] at other
  cases other

theorem mem_dropLast_or_last {c : Char} {word : Word} (mem : c ∈ word) :
    c ∈ word.dropLast ∨ word.getLast? = some c := by
  have nonempty := List.ne_nil_of_mem mem
  rw [← List.dropLast_concat_getLast nonempty] at mem
  rcases List.mem_append.mp mem with first | last
  · exact .inl first
  · rw [List.getLast?_eq_some_getLast nonempty, List.mem_singleton.mp last]
    exact .inr rfl

theorem validSize_char {size : Word} (valid : validSize size = true) {c : Char} (mem : c ∈ size) :
    c.isDigit = true ∨ c ∈ ['r', 'K', 'M', 'G'] := by
  simp only [validSize, isDigits, Bool.and_eq_true, List.all_eq_true] at valid
  obtain ⟨⟨-, digits⟩, unit⟩ := valid
  have plain : c = 'r' ∨ c ∈ if size.head? = some 'r' then size.tail else size := by
    split
    · cases size with
      | nil => cases mem
      | cons first rest =>
          rename_i random
          rw [List.head?_cons, Option.some.injEq] at random
          rw [← random]
          exact List.mem_cons.mp mem
    · exact .inr mem
  rcases plain with rfl | mem
  · exact .inr List.mem_cons_self
  · rcases mem_dropLast_or_last mem with digit | last
    · exact .inl (digits c digit)
    · simp only [last, Option.any_some, List.contains_eq_mem, decide_eq_true_eq] at unit
      exact .inr (List.mem_cons_of_mem _ unit)

theorem ioSize_char {sizes : List Word} (valid : validateIoSizes sizes = true) {size : Word}
    (mem : size ∈ sizes) {c : Char} (c_mem : c ∈ size) :
    c.isDigit = true ∨ c ∈ ['r', 'K', 'M', 'G', ','] := by
  have widen : ∀ {part : Word}, validSize part = true → c ∈ part →
      c.isDigit = true ∨ c ∈ ['r', 'K', 'M', 'G', ','] := fun valid mem =>
    (validSize_char valid mem).imp_right fun letter => by
      simp only [List.mem_cons, List.not_mem_nil, or_false] at letter ⊢
      tauto
  rw [validateIoSizes, Bool.and_eq_true, List.all_eq_true] at valid
  have accepted := valid.2 size mem
  rw [← @List.intercalate_splitOn _ size _ _ ','] at c_mem
  generalize size.splitOn ',' = parts at accepted c_mem
  split at accepted
  · simp at c_mem
    exact widen accepted c_mem
  · rw [Bool.and_eq_true] at accepted
    simp at c_mem
    rcases c_mem with write | rfl | read
    · exact widen accepted.1 write
    · exact .inr (by simp)
    · exact widen accepted.2 read
  · cases accepted

structure Cell.Plain (cell : Cell) : Prop where
  dash : '-' ∉ cell.ioSize
  letter : 't' ∉ cell.ioSize

theorem plain_of_valid (valid : sweep.valid = true) (mem : c ∈ cells counts sweep) : c.Plain := by
  simp only [Specification.valid, Bool.and_eq_true] at valid
  simp only [cells, List.mem_flatMap, List.mem_map] at mem
  obtain ⟨nodes, -, ioSize, mem, threadCount, -, ioDepth, -, rfl⟩ := mem
  have characters := fun c => ioSize_char valid.1.1 mem (c := c)
  constructor
  · intro dash
    exact absurd (characters '-' dash) (by decide)
  · intro letter
    exact absurd (characters 't' letter) (by decide)

theorem coordinates_inj (left : '-' ∉ c.ioSize) (right : '-' ∉ d.ioSize) {rest rest' : Word}
    (same : coordinates c ++ '_' :: rest = coordinates d ++ '_' :: rest') :
    c.key = d.key ∧ rest = rest' := by
  have dash := fun n => not_mem_pad (c := '-') rfl 3 n
  have underscore := fun n => not_mem_pad (c := '_') rfl 3 n
  simp only [coordinates, List.append_assoc] at same
  obtain ⟨ioSize, same⟩ := append_separator_inj left right same
  obtain ⟨nodes, same⟩ := append_separator_inj (dash _) (dash _)
    (List.append_cancel_left same)
  obtain ⟨threads, same⟩ := append_separator_inj (dash _) (dash _)
    (List.append_cancel_left same)
  obtain ⟨depth, same⟩ := append_separator_inj (underscore _) (underscore _)
    (List.append_cancel_left same)
  refine ⟨?_, same⟩
  simp only [Cell.key, ioSize, pad_injective nodes, pad_injective threads, pad_injective depth]

theorem coordinates_congr (same : c.key = d.key) : coordinates c = coordinates d := by
  simp only [Cell.key, Prod.mk.injEq] at same
  obtain ⟨ioSize, nodes, threads, depth⟩ := same
  simp only [coordinates, ioSize, nodes, threads, depth]

/-! ## Result files -/

inductive Names (e : Execution) : Word → Prop
  | file (rest : Word) :
      Names e ("/elbencho-".toList ++ (coordinates e.cell ++ '_' :: rest))
  | tree (rest : Word) :
      Names e ("/elbencho-treescan-".toList ++ (coordinates e.cell ++ '_' :: rest))
  | cell (rest : Word) : Names e ("/executions/".toList ++ (e.id ++ '.' :: rest))

theorem resultArtifacts_names {path : Word} (mem : path ∈ resultArtifacts outputDir a) :
    ∃ name, path = outputDir ++ name ∧ Names a name := by
  simp only [resultArtifacts, List.mem_cons, List.not_mem_nil, or_false] at mem
  have file : ∀ extension, stem outputDir (datestamp outputDir) a.cell ++ extension =
      outputDir ++ ("/elbencho-".toList ++
        (coordinates a.cell ++ '_' :: (datestamp outputDir ++ extension))) := by
    intro extension
    simp [stem]
  have cell : ∀ extension, outputDir ++ "/executions/".toList ++ a.id ++ '.' :: extension =
      outputDir ++ ("/executions/".toList ++ (a.id ++ '.' :: extension)) := by
    intro extension
    simp
  rcases mem with rfl | rfl | rfl | rfl | rfl | rfl | rfl | rfl | rfl
  · exact ⟨_, file _, .file _⟩
  · exact ⟨_, file _, .file _⟩
  · exact ⟨_, file _, .file _⟩
  · exact ⟨_, file _, .file _⟩
  · refine ⟨_, ?_, .tree (datestamp outputDir ++ ".txt".toList)⟩
    simp [treeStem]
  · exact ⟨_, cell _, .cell _⟩
  · exact ⟨_, cell _, .cell _⟩
  · exact ⟨_, cell _, .cell _⟩
  · exact ⟨_, cell _, .cell _⟩

theorem coordinates_not_treescan (plain : c.Plain) {rest rest' : Word} :
    coordinates c ++ rest ≠ "treescan-".toList ++ rest' := by
  intro same
  have split : c.ioSize ++ '-' :: ("c_".toList ++ pad 3 (printfNumber c.nodes) ++
      "-s_".toList ++ pad 3 (printfNumber c.threadCount) ++
      "-d_".toList ++ pad 3 (printfNumber c.ioDepth) ++ rest) =
      "treescan".toList ++ '-' :: rest' := by
    simpa [coordinates] using same
  have ioSize := (append_separator_inj plain.dash (by decide) split).1
  apply plain.letter
  rw [ioSize]
  decide

/-- One name belongs to two executions only if they have the same coordinates or the same id. -/
theorem Names.shared {name : Word} (left : Names a name) (right : Names b name)
    (plain : a.cell.Plain) (plain' : b.cell.Plain) (dot : '.' ∉ a.id) (dot' : '.' ∉ b.id) :
    a.cell.key = b.cell.key ∨ a.id = b.id := by
  generalize same : name = other at right
  cases left with
  | file rest =>
      cases right with
      | file rest' =>
          exact .inl (coordinates_inj plain.dash plain'.dash (List.append_cancel_left same)).1
      | tree rest' =>
          exact absurd (List.append_cancel_left same)
            (coordinates_not_treescan plain)
      | cell rest' => simp at same
  | tree rest =>
      cases right with
      | file rest' =>
          exact absurd (@List.append_cancel_left _ "/elbencho-".toList _ _ same).symm
            (coordinates_not_treescan plain')
      | tree rest' =>
          exact .inl (coordinates_inj plain.dash plain'.dash (List.append_cancel_left same)).1
      | cell rest' => simp at same
  | cell rest =>
      cases right with
      | file rest' => simp at same
      | tree rest' => simp at same
      | cell rest' =>
          exact .inr (append_separator_inj dot dot' (List.append_cancel_left same)).1

theorem stem_congr (same : a.cell.key = b.cell.key) :
    ∃ path ∈ resultArtifacts outputDir a, path ∈ resultArtifacts outputDir b := by
  refine ⟨_, List.mem_cons_self, ?_⟩
  simp only [stem, coordinates_congr same]
  exact List.mem_cons_self

/-! ## The law -/

/-- No two executions of the output directory have a result file in common. -/
def OwnEvidence (outputDir : Word) (ledger : List Execution) : Prop :=
  ∀ a ∈ ledger, ∀ b ∈ ledger, a.id ≠ b.id →
    List.Disjoint (resultArtifacts outputDir a) (resultArtifacts outputDir b)

theorem ownEvidence_iff (outputDir : Word) {cells : List Cell} (plain : ∀ c ∈ cells, c.Plain) :
    OwnEvidence outputDir (numbered 1 cells) ↔ (cells.map Cell.key).Nodup := by
  have dot := fun n => not_mem_pad (c := '.') rfl 4 n
  constructor
  · intro own
    apply List.nodup_iff_getElem?_ne_getElem?.mpr
    intro i j lt inside same
    have boundJ : j < cells.length := by simpa using inside
    simp only [List.getElem?_map, List.getElem?_eq_getElem boundJ,
      List.getElem?_eq_getElem (lt.trans boundJ), Option.map_some, Option.some.injEq] at same
    have member : ∀ i (lt : i < cells.length),
        (⟨pad 4 (1 + i), cells[i], 1 + i - 1⟩ : Execution) ∈ numbered 1 cells := fun i lt =>
      mem_numbered.mpr ⟨i, _, List.getElem?_eq_getElem lt, rfl⟩
    have ids : pad 4 (1 + i) ≠ pad 4 (1 + j) := fun eq => by
      have := pad_injective eq
      omega
    obtain ⟨path, left, right⟩ := stem_congr
      (a := ⟨pad 4 (1 + i), cells[i], 1 + i - 1⟩) (b := ⟨pad 4 (1 + j), cells[j], 1 + j - 1⟩) same
    exact own _ (member i (lt.trans boundJ)) _ (member j boundJ) ids left right
  · intro distinct a memA b memB ids path left right
    obtain ⟨i, c, atI, rfl⟩ := mem_numbered.mp memA
    obtain ⟨j, d, atJ, rfl⟩ := mem_numbered.mp memB
    obtain ⟨name, rfl, namesA⟩ := resultArtifacts_names left
    obtain ⟨name', same, namesB⟩ := resultArtifacts_names right
    obtain rfl := List.append_cancel_left same
    rcases namesA.shared namesB (plain c (List.mem_of_getElem? atI))
      (plain d (List.mem_of_getElem? atJ)) (dot _) (dot _) with key | id
    · have keys : (cells.map Cell.key)[i]? = (cells.map Cell.key)[j]? := by
        rw [List.getElem?_map, List.getElem?_map, atI, atJ]
        exact congrArg some key
      have inside : i < (cells.map Cell.key).length := by
        rw [List.length_map]
        exact (List.getElem?_eq_some_iff.mp atI).1
      have index := (List.getElem?_inj inside distinct).mp keys
      exact ids (by rw [index])
    · exact ids id

theorem nodup_product_iff {α β : Type} {l : List α} {m : List β} (left : l ≠ []) (right : m ≠ []) :
    (l ×ˢ m).Nodup ↔ l.Nodup ∧ m.Nodup := by
  constructor
  · intro distinct
    have parts := List.nodup_flatMap.mp (show (l.flatMap fun a => m.map (Prod.mk a)).Nodup from distinct)
    obtain ⟨a, mem⟩ := List.exists_mem_of_ne_nil l left
    obtain ⟨b, member⟩ := List.exists_mem_of_ne_nil m right
    refine ⟨parts.2.imp fun apart => ?_, (parts.1 a mem).of_map _⟩
    rintro rfl
    exact apart (List.mem_map_of_mem member) (List.mem_map_of_mem member)
  · rintro ⟨first, second⟩
    exact List.Nodup.product first second

/-- No list names a coordinate twice, numbers being compared as `printf` reads them. -/
def DistinctCoordinates (counts : List Word) (sweep : Specification) : Prop :=
  (counts.map printfNumber).Nodup ∧ sweep.ioSizes.Nodup ∧
    (sweep.threadList.map printfNumber).Nodup ∧ (sweep.iodepthList.map printfNumber).Nodup

theorem map_key_cells (counts : List Word) (sweep : Specification) :
    (cells counts sweep).map Cell.key = ((counts.map printfNumber) ×ˢ sweep.ioSizes ×ˢ
      (sweep.threadList.map printfNumber) ×ˢ (sweep.iodepthList.map printfNumber)).map
        fun key => (key.2.1, key.1, key.2.2) := by
  simp [cells, List.product, SProd.sprod, List.map_flatMap, List.flatMap_map, Function.comp_def,
    Cell.key]

theorem nodup_keys_iff (valid : sweep.valid = true) (some_ : counts ≠ []) :
    ((cells counts sweep).map Cell.key).Nodup ↔ DistinctCoordinates counts sweep := by
  simp only [Specification.valid, validateIoSizes, validateIntegerArray, Bool.and_eq_true,
    ne_eq, decide_eq_true_eq] at valid
  obtain ⟨⟨⟨ioSizes, -⟩, ⟨threads, -⟩⟩, ⟨depths, -⟩⟩ := valid
  have swap : Function.Injective fun key : Nat × Word × Nat × Nat =>
      (key.2.1, key.1, key.2.2) := by
    rintro ⟨_, _, _⟩ ⟨_, _, _⟩ same
    simp_all
  have product : ∀ {α β : Type} {l : List α} {m : List β}, l ≠ [] → m ≠ [] → l ×ˢ m ≠ [] := by
    intro α β l m left right none
    have length := congrArg List.length none
    simp [List.length_product, left, right] at length
  rw [map_key_cells, List.nodup_map_iff swap, nodup_product_iff (by simpa using some_)
    (product ioSizes (product (by simpa using threads) (by simpa using depths))),
    nodup_product_iff ioSizes (product (by simpa using threads) (by simpa using depths)),
    nodup_product_iff (by simpa using threads) (by simpa using depths)]
  exact Iff.rfl

theorem mapfile_ne_nil (counts : List Word) : mapfile counts ≠ [] := by
  unfold mapfile
  split
  · exact List.cons_ne_nil _ _
  · assumption

/-- The ledger numbers the product of the four lists, and each execution has its own result files
exactly if no coordinate is repeated. -/
theorem reified_own_evidence (fuel : Nat) (sweep : Specification) (valid : sweep.valid = true)
    {counts : List Word} (accepted : nodeCountsOf fuel sweep.nodesSpec = some counts)
    (reified : reifyAll fuel sweep = some ledger) (outputDir : Word) :
    (ledger = numbered 1 (cells (mapfile counts) sweep) ∧ OwnEvidence outputDir ledger) ↔
      DistinctCoordinates (mapfile counts) sweep := by
  obtain ⟨counts', accepted', -, rfl⟩ := reifyAll_eq_some.mp reified
  obtain rfl : counts = counts' := Option.some.inj (accepted.symm.trans accepted')
  rw [and_iff_right rfl, ownEvidence_iff outputDir fun c mem => plain_of_valid valid mem]
  exact nodup_keys_iff valid (mapfile_ne_nil counts)

def octalSweep : Specification :=
  ⟨"1".toList, ["4K".toList], ["8".toList, "010".toList], ["1".toList]⟩

theorem reified_own_evidence_sample :
    ([⟨"0001".toList, ⟨"1".toList, "4K".toList, "8".toList, "1".toList⟩, 0⟩,
      ⟨"0002".toList, ⟨"1".toList, "4K".toList, "010".toList, "1".toList⟩, 1⟩] =
        numbered 1 (cells (mapfile ["1".toList]) octalSweep) ∧
      OwnEvidence "out-20260101Z000000".toList
        [⟨"0001".toList, ⟨"1".toList, "4K".toList, "8".toList, "1".toList⟩, 0⟩,
          ⟨"0002".toList, ⟨"1".toList, "4K".toList, "010".toList, "1".toList⟩, 1⟩]) ↔
      DistinctCoordinates (mapfile ["1".toList]) octalSweep :=
  reified_own_evidence 1 octalSweep (by decide +kernel) rfl rfl _

/-- The thread counts `8` and `010` give two executions one set of result files. -/
theorem reified_shared_evidence : octalSweep.valid = true ∧ ∃ a b path,
    reifyAll 1 octalSweep = some [a, b] ∧ a.id ≠ b.id ∧
      path ∈ resultArtifacts "out-20260101Z000000".toList a ∧
      path ∈ resultArtifacts "out-20260101Z000000".toList b := by
  refine ⟨by decide +kernel, _, _, _, rfl, by decide, List.mem_cons_self, ?_⟩
  decide +kernel

end StorageScaleTest.Sweep
