import Mathlib.Data.List.DropRight
import StorageScaleTest.Shell.Text
import StorageScaleTest.Sweep.Reify

/-!
# Execution definitions

The text of `executions/NNNN.sh` that `reify_elbencho_execution` writes, and what
`run_elbencho_io_sweep_iteration` makes of an IO size.
-/

namespace StorageScaleTest.Sweep

open Shell

/-! ## The modes of a sweep -/

inductive Phase
  | write
  | read
  deriving DecidableEq, Repr

inductive PhasePlan
  | writeRead
  | writeOnly
  | writeNoRead
  | readFrom
  deriving DecidableEq, Repr

/-- `plan_runs_phase` -/
def PhasePlan.runs (plan : PhasePlan) : Phase → Bool
  | .write => plan ≠ .readFrom
  | .read => plan = .writeRead || plan = .readFrom

structure Modes where
  bio : Bool
  useRandom : Bool
  runToCompletion : Bool
  writeOnly : Bool
  writeNoRead : Bool
  readFrom : Word

/-- At most one of `--write-only`, `--write-no-read` and `--read-from`. -/
def Modes.exclusive (modes : Modes) : Bool :=
  [modes.writeOnly, modes.writeNoRead, modes.readFrom ≠ []].count true ≤ 1

/-- The phases of a run, in the order in which it looks at the modes. -/
def Modes.plan (modes : Modes) : PhasePlan :=
  if modes.readFrom ≠ [] then .readFrom
  else if modes.writeOnly then .writeOnly
  else if modes.writeNoRead then .writeNoRead
  else .writeRead

def flag (value : Bool) : Word := if value then ['1'] else ['0']

def Modes.dioOrBio (modes : Modes) : Word := if modes.bio then "bio".toList else "dio".toList

/-! ## The block sizes of a run -/

structure Blocks where
  writeSize : Word
  readSize : Word
  randomWrite : Bool
  randomRead : Bool
  deriving DecidableEq, Repr

def stripRandom (component : Word) : Word :=
  if component.head? = some 'r' then component.tail else component

def components (ioSize : Word) : Option (Word × Word) :=
  if ',' ∈ ioSize then
    let write := ioSize.takeWhile (· ≠ ',')
    let read := ioSize.rtakeWhile (· ≠ ',')
    if write = [] ∨ read = [] then none else some (write, read)
  else some (ioSize, ioSize)

def runBlocks (ioSize : Word) (useRandom : Bool) : Option Blocks :=
  (components ioSize).map fun (write, read) =>
    { writeSize := stripRandom write
      readSize := stripRandom read
      randomWrite := useRandom || write.head? = some 'r'
      randomRead := useRandom || read.head? = some 'r' }

def Blocks.size (blocks : Blocks) : Phase → Word
  | .write => blocks.writeSize
  | .read => blocks.readSize

def Blocks.random (blocks : Blocks) : Phase → Bool
  | .write => blocks.randomWrite
  | .read => blocks.randomRead

def unitBytes : Char → Nat
  | 'K' => 1024
  | 'M' => 1048576
  | 'G' => 1073741824
  | _ => 1

/-- The bytes of a block of this `--block` size. -/
def blockBytes (size : Word) : Nat :=
  Nat.ofDigitChars 10 size.dropLast 0 * unitBytes (size.getLastD 'K')

/-- `elbencho_size_string_to_bytes` -/
def sizeStringToBytes (size : Word) : Option Int :=
  let suffix := (size.getLastD ' ').toUpper
  if isDigits size.dropLast ∧ suffix ∈ ['K', 'M', 'G'] then
    (arithmetic size.dropLast).map fun number => wrap (number * unitBytes suffix)
  else none

/-! ## The definition of an execution -/

/-- The settings that a definition records, where an unset one is empty. -/
structure Settings where
  ds : Word
  duration : Word
  liveCsvExtended : Word
  liveint : Word
  fileSizeMultiplier : Word
  fileLayout : Word
  filesPerNode : Word
  fileSize : Word
  readAfterWritePause : Word
  maxAggThroughput : Word
  maxNodeThroughputGbps : Word
  maxNodeIops : Word
  singleBigFile : Word
  singleBigFileBasename : Word
  singleBigFileSize : Word
  allNodesAccessAllData : Word
  /-- The roots of `TEST_DIRS` with their weights, in the order of the shell. -/
  testDirs : List (Word × Nat)

/-- `${value:-<default>}` -/
def orDefault (value default : Word) : Word := if value = [] then default else value

/-- `generate_fs_test_directories` -/
def generateTestDirectories (testDirs : List (Word × Nat)) (segment suffix : Word) : List Word :=
  testDirs.flatMap fun (root, weight) => (List.range weight).map fun i =>
    root ++ '/' :: segment ++ "-target-".toList ++ Nat.toDigits 10 (i + 1) ++ suffix

/-- `_join_with` -/
def joinWith (separator : Word) (values : List Word) : Word := separator.intercalate values

section

variable [Ctype] (settings : Settings) (modes : Modes) (sweep : Specification)

/-- What `mapfile` reads back of the directories of an execution. -/
def runTestDirs (suffix : Word) : List Word :=
  let text := unlines (generateTestDirectories settings.testDirs "elbencho-sweep".toList suffix)
  records text

def treefileCachePath : Word :=
  if modes.readFrom ≠ [] ∧ orDefault settings.singleBigFile ['0'] ≠ ['1'] then
    modes.readFrom ++ "/.storage-scale-test-elbencho-treefile.txt".toList
  else []

def generatedTestRoot : Word :=
  if orDefault settings.fileLayout "worker-directories".toList = "shared-directory".toList then
    (settings.testDirs.getLast?.map Prod.fst).getD []
  else []

/-- `print_elbencho_sweep_compact_summary` behind `# ` -/
def compactSummary : List Word :=
  let completed := modes.runToCompletion ∨ modes.readFrom = [] ∧
    orDefault settings.fileLayout "worker-directories".toList = "shared-directory".toList ∧
    settings.filesPerNode ≠ []
  let fsMul := if modes.readFrom ≠ [] then "N/A".toList
    else orDefault settings.fileSizeMultiplier "N/A".toList
  let tail := " fs_mul=".toList ++ fsMul ++
    " single_big=".toList ++ orDefault settings.singleBigFile ['0'] ++
    " wro=".toList ++ flag modes.writeOnly ++ " wnr=".toList ++ flag modes.writeNoRead ++
    (if modes.useRandom then " rand=1".toList else []) ++
    (if modes.readFrom ≠ [] then " rf=".toList ++ modes.readFrom else [])
  [(if completed then
      "# elbencho-".toList ++ settings.ds ++ " configured_dur: ".toList ++
        orDefault settings.duration ['?'] ++ " (inactive; completion-based) nodes_spec: ".toList
    else
      "# elbencho-".toList ++ settings.ds ++ " dur: ".toList ++
        orDefault settings.duration ['?'] ++ "s nodes_spec: ".toList) ++ sweep.nodesSpec,
    "#     ".toList ++ modes.dioOrBio.map Char.toUpper ++
      " io_size(".toList ++ joinWith ", ".toList sweep.ioSizes ++
      ") threads(".toList ++ joinWith ", ".toList sweep.threadList ++
      ") io_depth(".toList ++ joinWith ", ".toList sweep.iodepthList ++ [')'],
    (if modes.readFrom ≠ [] then
      "#     layout=staged-tree files_per_node=N/A".toList
    else
      "#     layout=".toList ++ orDefault settings.fileLayout "worker-directories".toList ++
        " files_per_node=".toList ++ orDefault settings.filesPerNode "N/A".toList ++
        " file_size=".toList ++ orDefault settings.fileSize "derived".toList) ++ tail]

def coordsLine (cell : Cell) : Word :=
  "# Auto-generated; do not edit. Coords: nodes=".toList ++ cell.nodes ++
    " io_size=".toList ++ cell.ioSize ++ " thread_count=".toList ++ cell.threadCount ++
    " io_depth=".toList ++ cell.ioDepth

def exportLine (item : Word × Word) : Word := "export ".toList ++ item.1 ++ '=' :: item.2

def doubleQuoted (value : Word) : Word := '"' :: value ++ ['"']

def coordinateExports (execution : Execution) : List (Word × Word) :=
  let suffix := '-' :: settings.ds ++ "-e".toList ++ execution.id
  let dirs := runTestDirs settings suffix
  [("ELBENCHO_EXECUTION_KIND".toList, "io".toList),
    ("nodes".toList, execution.cell.nodes),
    ("io_size".toList, doubleQuoted execution.cell.ioSize),
    ("thread_count".toList, execution.cell.threadCount),
    ("io_depth".toList, execution.cell.ioDepth),
    ("ELBENCHO_READ_HOST_ROTATE_STEPS".toList, Nat.toDigits 10 execution.rotateSteps),
    ("ELBENCHO_RUN_TEST_DIR_SUFFIX".toList, quote suffix),
    ("ELBENCHO_RUN_GENERATED_TEST_DIRS_CSV".toList, quote (join ',' dirs)),
    ("ELBENCHO_RUN_GENERATED_TEST_ROOT".toList, quote (generatedTestRoot settings))]

def modeExports : List (Word × Word) :=
  [("dio_or_bio".toList, doubleQuoted modes.dioOrBio),
    ("use_random".toList, flag modes.useRandom),
    ("run_to_completion".toList, flag modes.runToCompletion),
    ("ELBENCHO_SWEEP_WRITE_ONLY".toList, flag modes.writeOnly),
    ("ELBENCHO_SWEEP_WRITE_NO_READ".toList, flag modes.writeNoRead),
    ("ELBENCHO_SWEEP_READ_FROM".toList, quote modes.readFrom),
    ("ELBENCHO_TREEFILE_CACHE_PATH".toList, quote (treefileCachePath settings modes))]

def settingExports : List (Word × Word) :=
  [("ELBENCHO_SCALE_READ_WRITE_DURATION".toList, settings.duration),
    ("ELBENCHO_LIVE_CSV_EXTENDED".toList, orDefault settings.liveCsvExtended ['1']),
    ("ELBENCHO_LIVEINT".toList, orDefault settings.liveint "1000".toList),
    ("ELBENCHO_FILE_SIZE_MULTIPLIER".toList,
      orDefault settings.fileSizeMultiplier "1024".toList),
    ("ELBENCHO_FILE_LAYOUT".toList,
      quote (orDefault settings.fileLayout "worker-directories".toList)),
    ("ELBENCHO_FILES_PER_NODE".toList, quote settings.filesPerNode),
    ("ELBENCHO_FILE_SIZE".toList, quote settings.fileSize),
    ("ELBENCHO_READ_AFTER_WRITE_PAUSE".toList, orDefault settings.readAfterWritePause ['0']),
    ("FS_MAX_AGG_THROUGHPUT".toList, settings.maxAggThroughput),
    ("FS_MAX_NODE_THROUGHPUT_GBPS".toList, settings.maxNodeThroughputGbps),
    ("FS_MAX_NODE_IOPS".toList, settings.maxNodeIops),
    ("ELBENCHO_SINGLE_BIG_FILE".toList, orDefault settings.singleBigFile ['0']),
    ("ELBENCHO_SINGLE_BIG_FILE_BASENAME".toList,
      quote (orDefault settings.singleBigFileBasename "elbencho-bigfile".toList)),
    ("ELBENCHO_SINGLE_BIG_FILE_SIZE".toList, quote settings.singleBigFileSize),
    ("ELBENCHO_ALL_NODES_ACCESS_ALL_DATA".toList,
      orDefault settings.allNodesAccessAllData ['0'])]

def generatedLine (date : Word) : Word := "# Generated: ".toList ++ date

def coordinatesTitle : Word := "# Per-execution coordinates (vary across NNNN.sh files):".toList

def scalarsTitle : Word :=
  "# Sweep-level scalars (same across all NNNN.sh files in this run):".toList

/-- The file that `reify_elbencho_execution` writes at a date. -/
def definition (date : Word) (execution : Execution) : Word :=
  unlines ((coordsLine execution.cell :: generatedLine date :: compactSummary settings modes sweep) ++
    (['#'] :: coordinatesTitle :: (coordinateExports settings execution).map exportLine) ++
    (['#'] :: scalarsTitle :: (modeExports settings modes ++ settingExports settings).map exportLine))

def Settings.unquoted : List Word :=
  [settings.duration, settings.liveCsvExtended, settings.liveint, settings.fileSizeMultiplier,
    settings.readAfterWritePause, settings.maxAggThroughput, settings.maxNodeThroughputGbps,
    settings.maxNodeIops, settings.singleBigFile, settings.allNodesAccessAllData]

end

end StorageScaleTest.Sweep
