import Mathlib
import StorageScaleTest.Proof.Sweep.Ledger
import StorageScaleTest.Results.Coordinates
import StorageScaleTest.Shell.Splitting

/-!
# The exports of a definition

The lines of an execution definition as Python reads them, and the last value of each name.
-/

namespace StorageScaleTest.Readback

open Shell Sweep

/-! ## Lines -/

theorem universalNewlines_append (afterReturn : Bool) (a b : Word) :
    universalNewlines afterReturn (a ++ '\n' :: b) =
      universalNewlines afterReturn (a ++ ['\n']) ++ universalNewlines false b := by
  induction a generalizing afterReturn with
  | nil =>
      cases afterReturn with
      | true => rfl
      | false => rfl
  | cons c rest ih =>
      rw [List.cons_append, List.cons_append, universalNewlines, universalNewlines]
      split
      · exact ih false
      · split
        · rw [ih, List.cons_append]
        · rw [ih, List.cons_append]

def Single (text : Word) : Prop := '\n' ∉ text ∧ '\r' ∉ text

instance (text : Word) : Decidable (Single text) := inferInstanceAs (Decidable (_ ∧ _))

theorem universalNewlines_single {text : Word} (single : Single text) (rest : Word) :
    universalNewlines false (text ++ rest) = text ++ universalNewlines false rest := by
  induction text with
  | nil => rfl
  | cons c text ih =>
      obtain ⟨newline, carriage⟩ := single
      rw [List.mem_cons, not_or] at newline carriage
      rw [List.cons_append, universalNewlines, Bool.false_and, if_neg Bool.false_ne_true,
        if_neg (Ne.symm carriage.1), ih ⟨newline.2, carriage.2⟩, List.cons_append]

theorem universalNewlines_end (afterReturn : Bool) (text : Word) : ∃ front,
    (if afterReturn then ['\n'] else []) ++ universalNewlines afterReturn (text ++ ['\n']) =
      front ++ ['\n'] := by
  induction text generalizing afterReturn with
  | nil =>
      cases afterReturn with
      | true => exact ⟨[], rfl⟩
      | false => exact ⟨[], rfl⟩
  | cons c rest ih =>
      obtain ⟨plain, plain_eq⟩ := ih false
      obtain ⟨behind, behind_eq⟩ := ih true
      rw [if_neg Bool.false_ne_true, List.nil_append] at plain_eq
      rw [if_pos rfl, List.singleton_append] at behind_eq
      rw [List.cons_append, universalNewlines]
      generalize (if afterReturn then ['\n'] else []) = before
      split
      · exact ⟨before ++ plain, by rw [plain_eq, List.append_assoc]⟩
      · split
        · exact ⟨before ++ behind, by rw [behind_eq, List.append_assoc]⟩
        · exact ⟨before ++ c :: plain, by rw [plain_eq, List.append_assoc, List.cons_append]⟩

def lineSplit (text : Word) : List Word := (textLines (text ++ ['\n'])).dropLast

theorem textLines_append (a b : Word) :
    textLines (a ++ '\n' :: b) = lineSplit a ++ textLines b := by
  obtain ⟨front, eq⟩ := universalNewlines_end false a
  rw [if_neg Bool.false_ne_true, List.nil_append] at eq
  rw [lineSplit, textLines, universalNewlines_append, textLines, eq, List.append_assoc,
    List.singleton_append, List.splitOn_append_cons_self, List.splitOn_append_cons_self,
    List.splitOn_nil, List.dropLast_concat]
  rfl

theorem textLines_unlines (lines : List Word) :
    textLines (unlines lines) = lines.flatMap lineSplit ++ [[]] := by
  induction lines with
  | nil => rfl
  | cons line rest ih =>
      have text : unlines (line :: rest) = line ++ '\n' :: unlines rest := by
        simp [unlines]
      rw [text, textLines_append, ih, List.flatMap_cons, List.append_assoc]

theorem lineSplit_single {line : Word} (single : Single line) : lineSplit line = [line] := by
  have last : universalNewlines false ['\n'] = ['\n'] := rfl
  rw [lineSplit, textLines, universalNewlines_single single, last,
    List.splitOn_append_cons_self_of_not_mem single.1]
  rfl

theorem flatMap_lineSplit {lines : List Word} (single : ∀ line ∈ lines, Single line) :
    lines.flatMap lineSplit = lines := by
  induction lines with
  | nil => rfl
  | cons line rest ih =>
      rw [List.flatMap_cons, lineSplit_single (single line List.mem_cons_self),
        ih fun other mem => single other (List.mem_cons_of_mem _ mem), List.singleton_append]

/-! ## Matching -/

theorem dropLiteral_append (literal rest : Word) :
    dropLiteral literal (literal ++ rest) = some rest := by
  rw [dropLiteral, if_pos (List.isPrefixOf_iff_prefix.mpr (List.prefix_append _ _)),
    List.drop_left]

theorem takeRun_append {p : Char → Bool} {run rest : Word} (some_ : run ≠ [])
    (all : ∀ c ∈ run, p c = true) (stop : rest.head?.all (!p ·) = true) :
    takeRun p (run ++ rest) = some (run, rest) := by
  have ends : rest.takeWhile p = [] ∧ rest.dropWhile p = rest := by
    cases rest with
    | nil => exact ⟨rfl, rfl⟩
    | cons c rest =>
        have other : ¬p c = true := by simpa using stop
        exact ⟨List.takeWhile_cons_of_neg other, List.dropWhile_cons_of_neg other⟩
  rw [takeRun, List.takeWhile_append_of_pos all, List.dropWhile_append_of_pos all, ends.1, ends.2,
    List.append_nil, if_neg some_]

structure Readable (cell : Cell) : Prop where
  nodes : isDigits cell.nodes = true
  ioSize : cell.ioSize ≠ [] ∧ ∀ c ∈ cell.ioSize, isSpace c = false
  threadCount : isDigits cell.threadCount = true
  ioDepth : isDigits cell.ioDepth = true

theorem takeRun_digits {digits rest : Word} (valid : isDigits digits = true)
    (stop : rest.head?.all (!Char.isDigit ·) = true) :
    takeRun Char.isDigit (digits ++ rest) = some (digits, rest) := by
  simp only [isDigits, Bool.and_eq_true, decide_eq_true_eq, List.all_eq_true] at valid
  exact takeRun_append valid.1 valid.2 stop

theorem matchCoords_line {cell : Cell} (readable : Readable cell) :
    matchCoords (coordsLine cell) = some cell := by
  have depth : takeRun Char.isDigit cell.ioDepth = some (cell.ioDepth, []) := by
    have last := @takeRun_digits _ [] readable.ioDepth rfl
    rwa [List.append_nil] at last
  have beforeSize : " io_size=".toList = ' ' :: "io_size=".toList := by decide_cbv
  have beforeThreads : " thread_count=".toList = ' ' :: "thread_count=".toList := by decide_cbv
  have beforeDepth : " io_depth=".toList = ' ' :: "io_depth=".toList := by decide_cbv
  have nodes (rest : Word) : takeRun Char.isDigit (cell.nodes ++ (" io_size=".toList ++ rest)) =
      some (cell.nodes, " io_size=".toList ++ rest) :=
    takeRun_digits readable.nodes (by rw [beforeSize]; rfl)
  have threads (rest : Word) :
      takeRun Char.isDigit (cell.threadCount ++ (" io_depth=".toList ++ rest)) =
        some (cell.threadCount, " io_depth=".toList ++ rest) :=
    takeRun_digits readable.threadCount (by rw [beforeDepth]; rfl)
  have size (rest : Word) :
      takeRun (!isSpace ·) (cell.ioSize ++ (" thread_count=".toList ++ rest)) =
        some (cell.ioSize, " thread_count=".toList ++ rest) :=
    takeRun_append readable.ioSize.1 (fun c mem => by simp [readable.ioSize.2 c mem])
      (by rw [beforeThreads]; rfl)
  unfold matchCoords coordsLine
  clear beforeSize beforeThreads beforeDepth
  generalize " io_size=".toList = sizeLiteral at *
  generalize " thread_count=".toList = threadsLiteral at *
  generalize " io_depth=".toList = depthLiteral at *
  generalize "# Auto-generated; do not edit. Coords: nodes=".toList = nodesLiteral
  simp only [List.append_assoc, dropLiteral_append, Option.bind_eq_bind, Option.bind_some, nodes,
    size, threads, depth]
  rfl

/-! ## Exports -/

def ProperName (name : Word) : Bool :=
  name ≠ [] && name.all isNameChar && !name.head?.any Char.isDigit

def readItem (item : Word × Word) : Option (Word × Word) :=
  (shlexSplit item.2).map fun parsed => (item.1, joinWith [' '] parsed)

theorem readExport_line {item : Word × Word} (proper : ProperName item.1 = true) :
    readExport (exportLine item) = readItem item := by
  simp only [ProperName, Bool.and_eq_true, decide_eq_true_eq, List.all_eq_true,
    Bool.not_eq_true'] at proper
  obtain ⟨⟨some_, letters⟩, digit⟩ := proper
  have run : takeRun isNameChar (item.1 ++ '=' :: item.2) = some (item.1, '=' :: item.2) :=
    takeRun_append some_ letters rfl
  have equals : dropLiteral ['='] ('=' :: item.2) = some item.2 := dropLiteral_append ['='] item.2
  have found : matchExport (exportLine item) = some item := by
    unfold matchExport exportLine
    generalize "export ".toList = literal
    simp only [List.append_assoc, dropLiteral_append, Option.bind_eq_bind, Option.bind_some, run,
      equals, digit]
    rfl
  rw [readExport, found, readItem]
  simp only [Option.bind_eq_bind, Option.bind_some]
  rw [Option.map_eq_bind]
  rfl

theorem readExport_comment (rest : Word) : readExport ('#' :: rest) = none := by
  have first : "export ".toList = 'e' :: "xport ".toList := by decide_cbv
  unfold readExport matchExport dropLiteral
  rw [first]
  generalize "xport ".toList = literal
  rfl

theorem get_append (a b : Exports) (name : Word) :
    Exports.get (a ++ b) name = (Exports.get b name).or (Exports.get a name) := by
  rw [Exports.get, List.reverse_append, List.lookup_append]
  rfl

theorem get_items_of_notMem {items : List (Word × Word)} {name : Word}
    (absent : name ∉ items.map Prod.fst) : Exports.get (items.filterMap readItem) name = none := by
  rw [Exports.get, List.lookup_eq_none_iff]
  intro found mem
  obtain ⟨item, inside, read⟩ := List.mem_filterMap.mp (List.mem_reverse.mp mem)
  obtain ⟨parsed, -, rfl⟩ := Option.map_eq_some_iff.mp read
  refine bne_iff_ne.mpr fun eq => absent ?_
  rw [eq]
  exact List.mem_map.mpr ⟨item, inside, rfl⟩

theorem get_items {items : List (Word × Word)} {name value : Word}
    (distinct : (items.map Prod.fst).Nodup) (mem : (name, value) ∈ items) :
    Exports.get (items.filterMap readItem) name = (shlexSplit value).map (joinWith [' ']) := by
  obtain ⟨front, back, rfl⟩ := List.append_of_mem mem
  rw [List.map_append, List.map_cons, List.nodup_append, List.nodup_cons] at distinct
  obtain ⟨-, ⟨behind, -⟩, others⟩ := distinct
  have before : name ∉ front.map Prod.fst := fun inside =>
    others name inside name List.mem_cons_self rfl
  have one : Exports.get ([(name, value)].filterMap readItem) name =
      (shlexSplit value).map (joinWith [' ']) := by
    cases parsed : shlexSplit value with
    | none => simp [readItem, parsed, Exports.get]
    | some words => simp [readItem, parsed, Exports.get]
  rw [List.filterMap_append, ← List.singleton_append, List.filterMap_append, get_append,
    get_append, get_items_of_notMem before, get_items_of_notMem behind, one, Option.none_or,
    Option.or_none]

/-! ## The lines of a definition -/

def modeNames : List Word :=
  ["dio_or_bio".toList, "use_random".toList, "ELBENCHO_SWEEP_WRITE_ONLY".toList,
    "ELBENCHO_SWEEP_WRITE_NO_READ".toList, "ELBENCHO_SWEEP_READ_FROM".toList]

section

variable (settings : Settings) (modes : Modes) (sweep : Specification) (date : Word)

def commentLines : List Word :=
  (generatedLine date :: compactSummary settings modes sweep).flatMap lineSplit

variable [Ctype]

/-- The lines of the settings, some of which are written without quotes and may have line ends. -/
def settingLines : List Word := ((settingExports settings).map exportLine).flatMap lineSplit

def settingExport (name : Word) : Option Word :=
  Exports.get (ledgerExports (settingLines settings)) name

def flagBehind (name : Word) (written : Bool) : Bool :=
  (settingExport settings name).getD (flag written) = ['1']

end

theorem Single.append {a b : Word} (left : Single a) (right : Single b) : Single (a ++ b) := by
  simp only [Single, List.mem_append, not_or]
  exact ⟨⟨left.1, right.1⟩, left.2, right.2⟩

theorem single_of_free {text : Word} (free : ∀ c ∈ text, isControl c = false) : Single text := by
  have other (c : Char) (control : isControl c = true) : c ∉ text := fun mem => by
    rw [free c mem] at control
    cases control
  exact ⟨other _ (by decide), other _ (by decide)⟩

theorem single_literal {text : Word} (free : (text.all fun c => !isControl c) = true) :
    Single text :=
  single_of_free (none_of_all free)

theorem single_digits {digits : Word} (valid : isDigits digits = true) : Single digits := by
  simp only [isDigits, Bool.and_eq_true, List.all_eq_true] at valid
  refine single_of_free fun c mem => not_control_of_plain ?_
  simp [isPlain, Char.isAlphanum, valid.2 c mem]

theorem single_orDefault {value default : Word} (single : Single value) (other : Single default) :
    Single (orDefault value default) := by
  rw [orDefault]
  split
  · exact other
  · exact single

theorem single_exportLine {item : Word × Word} (proper : ProperName item.1 = true)
    (value : Single item.2) : Single (exportLine item) := by
  simp only [ProperName, Bool.and_eq_true, List.all_eq_true] at proper
  have name : Single item.1 := by
    refine single_of_free fun c mem => not_control_of_plain ?_
    have letter := proper.1.2 c mem
    simp only [isNameChar, Bool.or_eq_true, decide_eq_true_eq] at letter
    rcases letter with letter | rfl
    · simp [isPlain, letter]
    · decide
  have equals : Single ['='] := by decide
  have literal : Single "export ".toList := single_literal (by decide_cbv)
  exact (literal.append name).append (equals.append value)

/-! ## The names of a definition -/

def coordinateNames : List Word :=
  ["ELBENCHO_EXECUTION_KIND".toList, "nodes".toList, "io_size".toList, "thread_count".toList,
    "io_depth".toList, "ELBENCHO_READ_HOST_ROTATE_STEPS".toList,
    "ELBENCHO_RUN_TEST_DIR_SUFFIX".toList, "ELBENCHO_RUN_GENERATED_TEST_DIRS_CSV".toList,
    "ELBENCHO_RUN_GENERATED_TEST_ROOT".toList]

def sweepNames : List Word :=
  ["dio_or_bio".toList, "use_random".toList, "run_to_completion".toList,
    "ELBENCHO_SWEEP_WRITE_ONLY".toList, "ELBENCHO_SWEEP_WRITE_NO_READ".toList,
    "ELBENCHO_SWEEP_READ_FROM".toList, "ELBENCHO_TREEFILE_CACHE_PATH".toList]

def settingNames : List Word :=
  ["ELBENCHO_SCALE_READ_WRITE_DURATION".toList, "ELBENCHO_LIVE_CSV_EXTENDED".toList,
    "ELBENCHO_LIVEINT".toList, "ELBENCHO_FILE_SIZE_MULTIPLIER".toList,
    "ELBENCHO_FILE_LAYOUT".toList, "ELBENCHO_FILES_PER_NODE".toList, "ELBENCHO_FILE_SIZE".toList,
    "ELBENCHO_READ_AFTER_WRITE_PAUSE".toList, "FS_MAX_AGG_THROUGHPUT".toList,
    "FS_MAX_NODE_THROUGHPUT_GBPS".toList, "FS_MAX_NODE_IOPS".toList,
    "ELBENCHO_SINGLE_BIG_FILE".toList, "ELBENCHO_SINGLE_BIG_FILE_BASENAME".toList,
    "ELBENCHO_SINGLE_BIG_FILE_SIZE".toList, "ELBENCHO_ALL_NODES_ACCESS_ALL_DATA".toList]

theorem sweepNames_nodup : sweepNames.Nodup := by decide_cbv

theorem proper_of_names {names : List Word} {items : List (Word × Word)}
    (eq : items.map Prod.fst = names) (all : names.all ProperName = true)
    {item : Word × Word} (mem : item ∈ items) : ProperName item.1 = true := by
  refine List.all_eq_true.mp all _ ?_
  rw [← eq]
  exact List.mem_map.mpr ⟨item, mem, rfl⟩

theorem single_flag (value : Bool) : Single (flag value) := by
  cases value with
  | true => decide
  | false => decide

theorem single_size {ioSize : Word} (visible : ∀ c ∈ ioSize, isSpace c = false) :
    Single ioSize := by
  have other (c : Char) (space : isSpace c = true) : c ∉ ioSize := fun mem => by
    rw [visible c mem] at space
    cases space
  exact ⟨other _ (by decide), other _ (by decide)⟩

theorem single_coordsLine {cell : Cell} (readable : Readable cell) : Single (coordsLine cell) := by
  have nodes := single_digits readable.nodes
  have size := single_size readable.ioSize.2
  have threads := single_digits readable.threadCount
  have depth := single_digits readable.ioDepth
  have first : Single "# Auto-generated; do not edit. Coords: nodes=".toList :=
    single_literal (by decide_cbv)
  have second : Single " io_size=".toList := single_literal (by decide_cbv)
  have third : Single " thread_count=".toList := single_literal (by decide_cbv)
  have fourth : Single " io_depth=".toList := single_literal (by decide_cbv)
  exact ((((((first.append nodes).append second).append size).append third).append threads).append
    fourth).append depth

theorem single_doubleQuoted {value : Word} (single : Single value) :
    Single (doubleQuoted value) := by
  have mark : Single ['"'] := by decide
  exact (mark.append single).append mark

theorem flatMap_exportLines {items : List (Word × Word)}
    (proper : ∀ item ∈ items, ProperName item.1 = true)
    (single : ∀ item ∈ items, Single item.2) :
    (items.map exportLine).flatMap lineSplit = items.map exportLine := by
  refine flatMap_lineSplit fun line mem => ?_
  obtain ⟨item, inside, rfl⟩ := List.mem_map.mp mem
  exact single_exportLine (proper item inside) (single item inside)

theorem filterMap_exportLines {items : List (Word × Word)}
    (proper : ∀ item ∈ items, ProperName item.1 = true) :
    (items.map exportLine).filterMap readExport = items.filterMap readItem := by
  rw [List.filterMap_map]
  exact List.filterMap_congr fun item mem => readExport_line (proper item mem)

theorem readExport_coordsLine (cell : Cell) : readExport (coordsLine cell) = none := by
  have first : "# Auto-generated; do not edit. Coords: nodes=".toList =
      '#' :: " Auto-generated; do not edit. Coords: nodes=".toList := by decide_cbv
  unfold coordsLine
  rw [first]
  generalize " Auto-generated; do not edit. Coords: nodes=".toList = literal
  exact readExport_comment _

theorem joined_flag (value : Bool) : (shlexSplit (flag value)).map (joinWith [' ']) =
    some (flag value) := by
  cases value with
  | true => decide
  | false => decide

variable [Ctype] {settings : Settings} {modes : Modes} {sweep : Specification} {date : Word}
  {execution : Execution}

theorem single_quote (word : Word) : Single (quote word) :=
  ⟨control_not_mem_quote (by decide) word, control_not_mem_quote (by decide) word⟩

theorem names_coordinateExports :
    (coordinateExports settings execution).map Prod.fst = coordinateNames := by
  simp only [coordinateExports, coordinateNames, List.map_cons, List.map_nil]

theorem names_modeExports : (modeExports settings modes).map Prod.fst = sweepNames := by
  simp only [modeExports, sweepNames, List.map_cons, List.map_nil]

theorem names_settingExports : (settingExports settings).map Prod.fst = settingNames := by
  simp only [settingExports, settingNames, List.map_cons, List.map_nil]

theorem proper_coordinateExports {item : Word × Word}
    (mem : item ∈ coordinateExports settings execution) : ProperName item.1 = true :=
  proper_of_names names_coordinateExports (by decide_cbv) mem

theorem proper_modeExports {item : Word × Word} (mem : item ∈ modeExports settings modes) :
    ProperName item.1 = true :=
  proper_of_names names_modeExports (by decide_cbv) mem

theorem proper_settingExports {item : Word × Word} (mem : item ∈ settingExports settings) :
    ProperName item.1 = true :=
  proper_of_names names_settingExports (by decide_cbv) mem

theorem single_coordinateExports (readable : Readable execution.cell) {item : Word × Word}
    (mem : item ∈ coordinateExports settings execution) : Single item.2 := by
  have steps : Single (Nat.toDigits 10 execution.rotateSteps) := by
    refine single_of_free fun c mem => not_control_of_plain ?_
    simp [isPlain, Char.isAlphanum, Nat.isDigit_of_mem_toDigits (by decide) (by decide) mem]
  have kind : Single "io".toList := single_literal (by decide_cbv)
  simp only [coordinateExports, List.mem_cons, List.not_mem_nil, or_false] at mem
  rcases mem with rfl | rfl | rfl | rfl | rfl | rfl | rfl | rfl | rfl <;> dsimp only
  · exact kind
  · exact single_digits readable.nodes
  · exact single_doubleQuoted (single_size readable.ioSize.2)
  · exact single_digits readable.threadCount
  · exact single_digits readable.ioDepth
  · exact steps
  · exact single_quote _
  · exact single_quote _
  · exact single_quote _

theorem single_modeExports {item : Word × Word} (mem : item ∈ modeExports settings modes) :
    Single item.2 := by
  have mode : Single modes.dioOrBio := by
    rw [Modes.dioOrBio]
    split
    · exact single_literal (by decide_cbv)
    · exact single_literal (by decide_cbv)
  simp only [modeExports, List.mem_cons, List.not_mem_nil, or_false] at mem
  rcases mem with rfl | rfl | rfl | rfl | rfl | rfl | rfl <;> dsimp only
  · exact single_doubleQuoted mode
  · exact single_flag _
  · exact single_flag _
  · exact single_flag _
  · exact single_flag _
  all_goals exact single_quote _

theorem single_settingExports (unquoted : ∀ value ∈ settings.unquoted, Single value)
    {item : Word × Word} (mem : item ∈ settingExports settings) : Single item.2 := by
  simp only [Settings.unquoted, List.forall_mem_cons] at unquoted
  obtain ⟨duration, liveCsv, liveint, multiplier, pause, agg, gbps, iops, bigFile, allNodes, -⟩ :=
    unquoted
  have thousand : Single "1000".toList := single_literal (by decide_cbv)
  have factor : Single "1024".toList := single_literal (by decide_cbv)
  simp only [settingExports, List.mem_cons, List.not_mem_nil, or_false] at mem
  rcases mem with rfl | rfl | rfl | rfl | rfl | rfl | rfl | rfl | rfl | rfl | rfl | rfl | rfl |
    rfl | rfl <;> dsimp only
  · exact duration
  · exact single_orDefault liveCsv (by decide)
  · exact single_orDefault liveint thousand
  · exact single_orDefault multiplier factor
  · exact single_quote _
  · exact single_quote _
  · exact single_quote _
  · exact single_orDefault pause (by decide)
  · exact agg
  · exact gbps
  · exact iops
  · exact single_orDefault bigFile (by decide)
  · exact single_quote _
  · exact single_quote _
  · exact single_orDefault allNodes (by decide)

theorem settingExport_eq_none (unquoted : ∀ value ∈ settings.unquoted, Single value) {name : Word}
    (mode : name ∈ modeNames) : settingExport settings name = none := by
  have own := @flatMap_exportLines (settingExports settings) (fun _ => proper_settingExports)
    fun _ => single_settingExports unquoted
  have apart : ∀ name ∈ modeNames, name ∉ settingNames := by decide_cbv
  rw [settingExport, settingLines, own, ledgerExports,
    filterMap_exportLines fun _ => proper_settingExports]
  refine get_items_of_notMem ?_
  rw [names_settingExports]
  exact apart name mode

/-! ## The lines of a definition -/

theorem textLines_definition (readable : Readable execution.cell) :
    textLines (definition settings modes sweep date execution) =
      coordsLine execution.cell :: (commentLines settings modes sweep date ++
        (['#'] :: coordinatesTitle :: (coordinateExports settings execution).map exportLine) ++
        (['#'] :: scalarsTitle :: ((modeExports settings modes).map exportLine ++
          settingLines settings)) ++ [[]]) := by
  have hash : Single ['#'] := by decide
  have title : Single coordinatesTitle := single_literal (by decide_cbv)
  have title' : Single scalarsTitle := single_literal (by decide_cbv)
  have cell := @flatMap_exportLines (coordinateExports settings execution)
    (fun _ => proper_coordinateExports) (fun _ => single_coordinateExports readable)
  have later := @flatMap_exportLines (modeExports settings modes)
    (fun _ => proper_modeExports) (fun _ => single_modeExports)
  rw [definition, textLines_unlines, List.map_append, List.flatMap_append, List.flatMap_append]
  iterate 6 rw [List.flatMap_cons]
  rw [lineSplit_single (single_coordsLine readable), lineSplit_single hash,
    lineSplit_single title, lineSplit_single title', List.flatMap_append, cell, later]
  rfl

/-! ## The exports that are read -/

theorem ledgerExports_definition (readable : Readable execution.cell) :
    ledgerExports (textLines (definition settings modes sweep date execution)) =
      ledgerExports (commentLines settings modes sweep date) ++
        (coordinateExports settings execution).filterMap readItem ++
        (modeExports settings modes).filterMap readItem ++
          ledgerExports (settingLines settings) := by
  have hash : readExport ['#'] = none := readExport_comment []
  have title : readExport coordinatesTitle = none := by decide_cbv
  have title' : readExport scalarsTitle = none := by decide_cbv
  have last : readExport [] = none := by decide_cbv
  have own := @filterMap_exportLines (coordinateExports settings execution)
    fun _ => proper_coordinateExports
  have later := @filterMap_exportLines (modeExports settings modes) fun _ => proper_modeExports
  rw [textLines_definition readable, ledgerExports, List.filterMap_cons, readExport_coordsLine]
  simp only [List.filterMap_append, List.filterMap_cons, List.filterMap_nil, hash, title, title',
    last, own, later, List.append_nil, ledgerExports, List.append_assoc]

/-- A mode has the value of the last setting line that exports it, else the one that is written, else
one from the comments. -/
theorem get_definition (readable : Readable execution.cell) {name value : Word}
    (mem : (name, value) ∈ modeExports settings modes) (mode : name ∈ modeNames) :
    Exports.get (ledgerExports (textLines (definition settings modes sweep date execution))) name =
      (settingExport settings name).or (((shlexSplit value).map (joinWith [' '])).or
        (Exports.get (ledgerExports (commentLines settings modes sweep date)) name)) := by
  have distinct : ((modeExports settings modes).map Prod.fst).Nodup := by
    rw [names_modeExports]
    exact sweepNames_nodup
  have apart : ∀ name ∈ modeNames, name ∉ coordinateNames := by decide_cbv
  have absent : name ∉ (coordinateExports settings execution).map Prod.fst := by
    rw [names_coordinateExports]
    exact apart name mode
  rw [ledgerExports_definition readable, get_append, get_append, get_append,
    get_items distinct mem, get_items_of_notMem absent, Option.none_or]
  rfl

structure ReadModes (settings : Settings) (modes : Modes) (exports : Exports)
    (readFrom : Option Word) : Prop where
  direct : exports.get "dio_or_bio".toList =
    some ((settingExport settings "dio_or_bio".toList).getD modes.dioOrBio)
  useRandom : exportFlag exports "use_random".toList =
    flagBehind settings "use_random".toList modes.useRandom
  writeOnly : exportFlag exports "ELBENCHO_SWEEP_WRITE_ONLY".toList =
    flagBehind settings "ELBENCHO_SWEEP_WRITE_ONLY".toList modes.writeOnly
  writeNoRead : exportFlag exports "ELBENCHO_SWEEP_WRITE_NO_READ".toList =
    flagBehind settings "ELBENCHO_SWEEP_WRITE_NO_READ".toList modes.writeNoRead
  readFrom : exports.get "ELBENCHO_SWEEP_READ_FROM".toList =
    (settingExport settings "ELBENCHO_SWEEP_READ_FROM".toList).or readFrom

theorem exportFlag_definition (readable : Readable execution.cell) {name : Word} {value : Bool}
    (mem : (name, flag value) ∈ modeExports settings modes) (mode : name ∈ modeNames) :
    exportFlag (ledgerExports (textLines (definition settings modes sweep date execution))) name =
      flagBehind settings name value := by
  rw [exportFlag, flagBehind, get_definition readable mem mode, joined_flag]
  cases settingExport settings name with
  | none => simp
  | some other => simp

theorem readModes_definition (readable : Readable execution.cell) :
    ReadModes settings modes
      (ledgerExports (textLines (definition settings modes sweep date execution)))
      (((shlexSplit (quote modes.readFrom)).map (joinWith [' '])).or
        (Exports.get (ledgerExports (commentLines settings modes sweep date))
          "ELBENCHO_SWEEP_READ_FROM".toList)) := by
  have joined : (shlexSplit (doubleQuoted modes.dioOrBio)).map (joinWith [' ']) =
      some modes.dioOrBio := by
    rw [Modes.dioOrBio]
    cases modes.bio with
    | true => decide_cbv
    | false => decide_cbv
  exact
    { direct := by
        have inside : ("dio_or_bio".toList, doubleQuoted modes.dioOrBio) ∈
            modeExports settings modes := .head _
        rw [get_definition readable inside (by simp [modeNames]), joined, Option.some_or]
        cases settingExport settings "dio_or_bio".toList with
        | none => rfl
        | some other => rfl
      useRandom := exportFlag_definition readable (.tail _ (.head _)) (by simp [modeNames])
      writeOnly := exportFlag_definition readable (.tail _ (.tail _ (.tail _ (.head _))))
        (by simp [modeNames])
      writeNoRead := exportFlag_definition readable
        (.tail _ (.tail _ (.tail _ (.tail _ (.head _))))) (by simp [modeNames])
      readFrom := by
        have inside : ("ELBENCHO_SWEEP_READ_FROM".toList, quote modes.readFrom) ∈
            modeExports settings modes :=
          .tail _ (.tail _ (.tail _ (.tail _ (.tail _ (.head _)))))
        rw [get_definition readable inside (by simp [modeNames])] }

end StorageScaleTest.Readback
