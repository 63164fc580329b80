import StorageScaleTest.Sweep.Definition

/-!
# Coordinates of an execution

What `definition_coordinates` reads from the text of an execution definition, and the key it builds.
-/

namespace StorageScaleTest.Readback

open Shell Sweep

/-! ## Reading the text -/

/-- The line ends of a text that Python has read, behind a carriage return or not. -/
def universalNewlines : Bool → Word → Word
  | _, [] => []
  | afterReturn, c :: rest =>
    if afterReturn && c = '\n' then universalNewlines false rest
    else if c = '\r' then '\n' :: universalNewlines true rest
    else c :: universalNewlines false rest

def textLines (text : Word) : List Word := (universalNewlines false text).splitOn '\n'

/-- The characters of `\s`. -/
def isSpace (c : Char) : Bool :=
  c = ' ' || 9 ≤ c.toNat && c.toNat ≤ 13 || 28 ≤ c.toNat && c.toNat ≤ 31 ||
    [0x85, 0xa0, 0x1680, 0x2028, 0x2029, 0x202f, 0x205f, 0x3000].contains c.toNat ||
    0x2000 ≤ c.toNat && c.toNat ≤ 0x200a

/-- `int` of a string of digits, which refuses more than 4300 of them. -/
def parseInt (digits : Word) : Option Nat :=
  if digits.length ≤ 4300 then some (Nat.ofDigitChars 10 digits 0) else none

def dropLiteral (literal text : Word) : Option Word :=
  if literal.isPrefixOf text then some (text.drop literal.length) else none

def takeRun (p : Char → Bool) (text : Word) : Option (Word × Word) :=
  if text.takeWhile p = [] then none else some (text.takeWhile p, text.dropWhile p)

/-- `_COORDS_RE` -/
def matchCoords (line : Word) : Option Cell := do
  let rest ← dropLiteral "# Auto-generated; do not edit. Coords: nodes=".toList line
  let (nodes, rest) ← takeRun Char.isDigit rest
  let rest ← dropLiteral " io_size=".toList rest
  let (ioSize, rest) ← takeRun (!isSpace ·) rest
  let rest ← dropLiteral " thread_count=".toList rest
  let (threadCount, rest) ← takeRun Char.isDigit rest
  let rest ← dropLiteral " io_depth=".toList rest
  let (ioDepth, rest) ← takeRun Char.isDigit rest
  if rest = [] then some ⟨nodes, ioSize, threadCount, ioDepth⟩ else none

def isNameChar (c : Char) : Bool := c.isAlphanum || c = '_'

/-- `_EXPORT_LINE_RE` -/
def matchExport (line : Word) : Option (Word × Word) := do
  let rest ← dropLiteral "export ".toList line
  let (name, rest) ← takeRun isNameChar rest
  let value ← dropLiteral ['='] rest
  if name.head?.any Char.isDigit then none else some (name, value)

/-- `_LAYOUT_RE` -/
def matchLayout (line : Word) : Option Word := do
  let rest ← dropLiteral "export ELBENCHO_FILE_LAYOUT=".toList line
  let layout ← match rest with
    | '\'' :: rest => if rest.getLast? = some '\'' then some rest.dropLast else none
    | '"' :: rest => if rest.getLast? = some '"' then some rest.dropLast else none
    | rest => some rest
  if layout ≠ [] ∧ layout.all fun c => c.isLower || c = '-' then some layout else none

/-! ## Exports -/

/-- One line of `ledger_exports`: a value that cannot be split is passed over. -/
def readExport (line : Word) : Option (Word × Word) := do
  let (name, raw) ← matchExport line
  let parsed ← shlexSplit raw
  some (name, joinWith [' '] parsed)

abbrev Exports := List (Word × Word)

/-- `ledger_exports` -/
def ledgerExports (lines : List Word) : Exports := lines.filterMap readExport

def Exports.get (exports : Exports) (name : Word) : Option Word := exports.reverse.lookup name

/-- `export_flag` -/
def exportFlag (exports : Exports) (name : Word) : Bool := exports.get name = some ['1']

/-- `phase_plan` -/
def phasePlan (exports : Exports) : PhasePlan :=
  if exportFlag exports "ELBENCHO_SWEEP_WRITE_ONLY".toList then .writeOnly
  else if exportFlag exports "ELBENCHO_SWEEP_WRITE_NO_READ".toList then .writeNoRead
  else if (exports.get "ELBENCHO_SWEEP_READ_FROM".toList).getD [] ≠ [] then .readFrom
  else .writeRead

/-! ## Coordinates -/

structure IoDefinition where
  cell : Cell
  nodes : Nat
  threads : Nat
  ioDepth : Nat
  configuredLayout : Word
  exports : Exports

/-- `parse_io_definition`; none also where a number is too long. -/
def parseIoDefinition (lines : List Word) : Option IoDefinition := do
  let cell ← lines.findSome? matchCoords
  let nodes ← parseInt cell.nodes
  let threads ← parseInt cell.threadCount
  let ioDepth ← parseInt cell.ioDepth
  some
    { cell, nodes, threads, ioDepth
      configuredLayout := (lines.findSome? matchLayout).getD []
      exports := ledgerExports lines }

/-- `_SIZE_UNIT_SHIFTS` -/
def sizeUnitShift (unit : Char) : Nat :=
  match unit.toUpper with
  | 'K' => 10
  | 'M' => 20
  | 'G' => 30
  | 'T' => 40
  | 'P' => 50
  | 'E' => 60
  | _ => 0

/-- `elbencho_size_bytes`: the outer option is none where a number is too long. -/
def elbenchoSizeBytes (token : Word) : Option (Option Nat) :=
  let token := (token.dropWhile isSpace).rdropWhile isSpace
  let digits := token.takeWhile Char.isDigit
  if digits = [] then some none
  else match token.dropWhile Char.isDigit with
    | [] => (parseInt digits).map some
    | [unit] =>
      if unit ∈ "KMGTPEkmgtpe".toList then
        (parseInt digits).map fun number => some (number <<< sizeUnitShift unit)
      else some none
    | _ => some none

inductive Access
  | random
  | sequential
  deriving DecidableEq, Repr

def access (random : Bool) : Access := if random then .random else .sequential

/-- `_split_size_spec`: the token of each phase, and whether it is random. -/
def splitSizeSpec (ioSize : Word) (useRandom : Bool) : Phase → Word × Bool :=
  let write := ioSize.takeWhile (· ≠ ',')
  let rest := (ioSize.dropWhile (· ≠ ',')).tail
  let read := if rest = [] then write else rest
  let side (part : Word) := (stripRandom part, useRandom || part.head? = some 'r')
  fun
    | .write => side write
    | .read => side read

structure Coordinates where
  nodes : Nat
  threadsPerNode : Nat
  ioDepth : Nat
  ioSizeSpec : Word
  phasePlan : PhasePlan
  blockSizeBytes : Phase → Option Nat
  access : Phase → Option Access
  directIo : Bool
  runToCompletion : Bool
  fileLayout : Word
  singleBigFile : Bool
  allNodesAllData : Bool

def keyPart (runs : Bool) (side : Word × Bool) : Word :=
  if runs then side.1 ++ if side.2 then "-rand".toList else "-seq".toList else "none".toList

def coordinateKey (nodes threads ioDepth : Nat) (plan : PhasePlan) (side : Phase → Word × Bool)
    (direct : Bool) : Word :=
  "io/c".toList ++ pad 3 nodes ++ "/s".toList ++ pad 3 threads ++ "/d".toList ++ pad 3 ioDepth ++
    "/w".toList ++ keyPart (plan.runs .write) (side .write) ++
    "/r".toList ++ keyPart (plan.runs .read) (side .read) ++
    '/' :: if direct then "dio".toList else "bio".toList

def orElse (text other : Word) : Word := if text = [] then other else text

/-- The block size of a phase, which is converted only if the plan runs it. -/
def phaseBytes (plan : PhasePlan) (side : Phase → Word × Bool) (phase : Phase) :
    Option (Option Nat) :=
  if plan.runs phase then elbenchoSizeBytes (side phase).1 else some none

/-- `io_coordinates` -/
def ioCoordinates (found : IoDefinition) : Option (Coordinates × Word) := do
  let exports := found.exports
  let plan := phasePlan exports
  let direct := decide ((exports.get "dio_or_bio".toList).getD "dio".toList = "dio".toList)
  let side := splitSizeSpec found.cell.ioSize (exportFlag exports "use_random".toList)
  let writeBytes ← phaseBytes plan side .write
  let readBytes ← phaseBytes plan side .read
  some
    ({ nodes := found.nodes
       threadsPerNode := found.threads
       ioDepth := found.ioDepth
       ioSizeSpec := found.cell.ioSize
       phasePlan := plan
       blockSizeBytes := fun | .write => writeBytes | .read => readBytes
       access := fun phase => if plan.runs phase then some (access (side phase).2) else none
       directIo := direct
       runToCompletion := exportFlag exports "run_to_completion".toList
       fileLayout := orElse ((exports.get "ELBENCHO_FILE_LAYOUT".toList).getD [])
         (orElse found.configuredLayout "worker-directories".toList)
       singleBigFile := exportFlag exports "ELBENCHO_SINGLE_BIG_FILE".toList
       allNodesAllData := exportFlag exports "ELBENCHO_ALL_NODES_ACCESS_ALL_DATA".toList },
      coordinateKey found.nodes found.threads found.ioDepth plan side direct)

/-- `definition_coordinates` of a definition of kind `io`, on the text read from its file -/
def definitionCoordinates (text : Word) : Option (Coordinates × Word) :=
  (parseIoDefinition (textLines text)).bind ioCoordinates

end StorageScaleTest.Readback
