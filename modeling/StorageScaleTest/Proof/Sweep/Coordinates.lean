import StorageScaleTest.Proof.Sweep.Artifacts
import StorageScaleTest.Shell.Arithmetic
import StorageScaleTest.Proof.Sweep.Definition

/-!
# Coordinates that are read back

The coordinates that `definition_coordinates` reads from a written definition against the ones with
which the execution runs.
-/

namespace StorageScaleTest.Readback

open Shell Sweep

/-! ## Sizes -/

structure SizeOf (component digits : Word) (unit : Char) : Prop where
  strip : stripRandom component = digits ++ [unit]
  digits : isDigits digits = true
  unit : unit = 'K' ∨ unit = 'M' ∨ unit = 'G'
  visible : ∀ c ∈ component, c ≠ ',' ∧ isSpace c = false

theorem digit_visible {c : Char} (digit : c.isDigit = true) : c ≠ ',' ∧ isSpace c = false := by
  simp only [Char.isDigit, Bool.and_eq_true, decide_eq_true_eq] at digit
  have low : 48 ≤ c.toNat := digit.1
  have high : c.toNat ≤ 57 := digit.2
  constructor
  · rintro rfl
    exact absurd low (by decide)
  · have all : ∀ n < 58, 48 ≤ n → isSpace (Char.ofNat n) = false := by decide
    rw [← Char.ofNat_toNat c]
    exact all _ (Nat.lt_succ_of_le high) low

theorem sizeOf_valid {component : Word} (valid : validSize component = true) :
    ∃ digits unit, SizeOf component digits unit := by
  obtain ⟨digits, last⟩ := Bool.and_eq_true_iff.mp valid
  change isDigits (stripRandom component).dropLast = true at digits
  change ((stripRandom component).getLast?.any fun unit => ['K', 'M', 'G'].contains unit) = true
    at last
  obtain ⟨unit, eq, known⟩ := (Option.any_eq_true _ _).mp last
  have units : unit = 'K' ∨ unit = 'M' ∨ unit = 'G' := by simpa using known
  have strip : stripRandom component = (stripRandom component).dropLast ++ [unit] :=
    (List.dropLast_append_getLast? unit eq).symm
  refine ⟨_, unit, strip, digits, units, fun c mem => ?_⟩
  rcases validSize_char valid mem with digit | letter
  · exact digit_visible digit
  · simp only [List.mem_cons, List.not_mem_nil, or_false] at letter
    rcases letter with rfl | rfl | rfl | rfl <;> decide

theorem strip_visible {token : Word} (visible : ∀ c ∈ token, isSpace c = false) :
    (token.dropWhile isSpace).rdropWhile isSpace = token := by
  have left : token.dropWhile isSpace = token := by
    cases token with
    | nil => rfl
    | cons c rest => exact List.dropWhile_cons_of_neg (by simp [visible c List.mem_cons_self])
  rw [left, List.rdropWhile_eq_self_iff]
  intro some_
  simp [visible _ (List.getLast_mem some_)]

theorem blockBytes_concat (digits : Word) (unit : Char) :
    blockBytes (digits ++ [unit]) = Nat.ofDigitChars 10 digits 0 * unitBytes unit := by
  rw [blockBytes, List.dropLast_concat, List.getLastD_concat]

theorem elbenchoSizeBytes_sizeOf {component digits : Word} {unit : Char}
    (size : SizeOf component digits unit) :
    elbenchoSizeBytes (stripRandom component) =
      (parseInt digits).map fun _ => some (blockBytes (stripRandom component)) := by
  have numbers := size.digits
  simp only [isDigits, Bool.and_eq_true, decide_eq_true_eq, List.all_eq_true] at numbers
  have known : unit ∈ "KMGTPEkmgtpe".toList ∧ unit.isDigit = false ∧ isSpace unit = false ∧
      unitBytes unit = 2 ^ sizeUnitShift unit := by
    rcases size.unit with rfl | rfl | rfl <;> decide_cbv
  have visible : ∀ c ∈ digits ++ [unit], isSpace c = false := by
    intro c mem
    rcases List.mem_append.mp mem with digit | last
    · exact (digit_visible (numbers.2 c digit)).2
    · rw [List.mem_singleton.mp last]
      exact known.2.2.1
  have stop : ¬unit.isDigit = true := by simp [known.2.1]
  have run : (digits ++ [unit]).takeWhile Char.isDigit = digits ∧
      (digits ++ [unit]).dropWhile Char.isDigit = [unit] := by
    rw [List.takeWhile_append_of_pos numbers.2, List.dropWhile_append_of_pos numbers.2,
      List.takeWhile_cons_of_neg stop, List.dropWhile_cons_of_neg stop, List.append_nil]
    exact ⟨rfl, rfl⟩
  rw [elbenchoSizeBytes, size.strip, strip_visible visible]
  simp only [run.1, run.2, if_neg numbers.1, if_pos known.1, blockBytes_concat]
  rw [parseInt]
  split
  · rw [Option.map_some, Option.map_some, Nat.shiftLeft_eq, known.2.2.2]
  · rfl

/-! ## Components -/

theorem components_cases {ioSize : Word} (valid : validateIoSizes [ioSize] = true) :
    ',' ∉ ioSize ∧ validSize ioSize = true ∨
      ∃ write read, ioSize = write ++ ',' :: read ∧ validSize write = true ∧
        validSize read = true := by
  have parts : [','].intercalate (ioSize.splitOn ',') = ioSize := List.intercalate_splitOn ','
  have plain {part : Word} (mem : part ∈ ioSize.splitOn ',') : ',' ∉ part :=
    not_mem_of_mem_splitOn mem
  simp only [validateIoSizes, List.all_cons, List.all_nil, Bool.and_true, Bool.and_eq_true] at valid
  replace valid := valid.2
  split at valid
  · rename_i eq
    rw [eq, List.intercalate_singleton] at parts
    exact Or.inl ⟨parts ▸ plain (eq ▸ List.mem_cons_self), parts ▸ valid⟩
  · rename_i write read eq
    rw [eq, List.intercalate_cons_cons, List.intercalate_singleton] at parts
    rw [Bool.and_eq_true] at valid
    exact Or.inr ⟨write, read, by simpa using parts.symm, valid⟩
  · cases valid

theorem SizeOf.ne_nil {component digits : Word} {unit : Char} (size : SizeOf component digits unit) :
    component ≠ [] := by
  rintro rfl
  exact absurd size.strip (by simp [stripRandom])

theorem SizeOf.comma {component digits : Word} {unit : Char} (size : SizeOf component digits unit) :
    ∀ c ∈ component, decide (c ≠ ',') = true := fun c mem => decide_eq_true (size.visible c mem).1

structure SizesOf (ioSize write read : Word) : Prop where
  writeSize : ∃ digits unit, SizeOf write digits unit
  readSize : ∃ digits unit, SizeOf read digits unit
  components : Sweep.components ioSize = some (write, read)
  first : ioSize.takeWhile (· ≠ ',') = write
  second : (let rest := (ioSize.dropWhile (· ≠ ',')).tail
    if rest = [] then write else rest) = read
  visible : ioSize ≠ [] ∧ ∀ c ∈ ioSize, isSpace c = false

theorem sizesOf_valid {ioSize : Word} (valid : validateIoSizes [ioSize] = true) :
    ∃ write read, SizesOf ioSize write read := by
  rcases components_cases valid with ⟨single, valid⟩ | ⟨write, read, rfl, left, right⟩
  · obtain ⟨digits, unit, size⟩ := sizeOf_valid valid
    exact ⟨ioSize, ioSize,
      { writeSize := ⟨digits, unit, size⟩
        readSize := ⟨digits, unit, size⟩
        components := if_neg single
        first := List.takeWhile_eq_self_iff.mpr size.comma
        second := by rw [List.dropWhile_eq_nil_iff.mpr size.comma]; rfl
        visible := ⟨size.ne_nil, fun c mem => (size.visible c mem).2⟩ }⟩
  · obtain ⟨digits, unit, size⟩ := sizeOf_valid left
    obtain ⟨digits', unit', size'⟩ := sizeOf_valid right
    have front : (write ++ ',' :: read).takeWhile (· ≠ ',') = write := by
      rw [List.takeWhile_append_of_pos size.comma, List.takeWhile_cons_of_neg (by simp),
        List.append_nil]
    have rest : (write ++ ',' :: read).dropWhile (· ≠ ',') = ',' :: read := by
      rw [List.dropWhile_append_of_pos size.comma, List.dropWhile_cons_of_neg (by simp)]
    have back : (write ++ ',' :: read).rtakeWhile (· ≠ ',') = read := by
      have all : ∀ c ∈ read.reverse, decide (c ≠ ',') = true := fun c mem =>
        size'.comma c (List.mem_reverse.mp mem)
      rw [List.rtakeWhile, List.reverse_append, List.reverse_cons, List.append_assoc,
        List.takeWhile_append_of_pos all, List.singleton_append,
        List.takeWhile_cons_of_neg (by simp), List.append_nil, List.reverse_reverse]
    exact ⟨write, read,
      { writeSize := ⟨digits, unit, size⟩
        readSize := ⟨digits', unit', size'⟩
        components := by
          rw [Sweep.components, if_pos (by simp), front, back]
          exact if_neg (not_or.mpr ⟨size.ne_nil, size'.ne_nil⟩)
        first := front
        second := by
          rw [rest]
          exact if_neg size'.ne_nil
        visible := by
          refine ⟨by simp, fun c mem => ?_⟩
          rcases List.mem_append.mp mem with mem | mem
          · exact (size.visible c mem).2
          · rcases List.mem_cons.mp mem with rfl | mem
            · decide
            · exact (size'.visible c mem).2 }⟩

theorem blocks_of_valid {ioSize : Word} (valid : validateIoSizes [ioSize] = true)
    (useRandom : Bool) : ∃ blocks, runBlocks ioSize useRandom = some blocks ∧
      (∀ phase, splitSizeSpec ioSize useRandom phase = (blocks.size phase, blocks.random phase)) ∧
      ∀ phase, ∃ component digits unit,
        SizeOf component digits unit ∧ blocks.size phase = stripRandom component := by
  obtain ⟨write, read, sizes⟩ := sizesOf_valid valid
  obtain ⟨digits, unit, size⟩ := sizes.writeSize
  obtain ⟨digits', unit', size'⟩ := sizes.readSize
  refine ⟨⟨stripRandom write, stripRandom read, useRandom || write.head? = some 'r',
    useRandom || read.head? = some 'r'⟩, by rw [runBlocks, sizes.components]; rfl, ?_, ?_⟩
  · intro phase
    have second := sizes.second
    cases phase with
    | write => rw [splitSizeSpec, sizes.first]; rfl
    | read =>
        dsimp only at second
        simp only [splitSizeSpec, sizes.first, second]
        rfl
  · intro phase
    cases phase with
    | write => exact ⟨write, digits, unit, size, rfl⟩
    | read => exact ⟨read, digits', unit', size', rfl⟩

/-! ## The mode that is read -/

section

variable (settings : Settings) (modes : Modes) (sweep : Specification) (date : Word)
  (execution : Execution)

/-- The read-from path of the comments, where its own export cannot be split. -/
def commentReadFrom : Word :=
  (Exports.get (ledgerExports (commentLines settings modes sweep date))
    "ELBENCHO_SWEEP_READ_FROM".toList).getD []

variable [Ctype]

/-- The read-from path is seen: a setting line that exports one has one as well, or else the path does
not both have a character that is not printable and an apostrophe, or a comment line exports one. -/
def ReadFromSeen : Prop :=
  (∀ path, settingExport settings "ELBENCHO_SWEEP_READ_FROM".toList = some path →
    (path ≠ [] ↔ modes.readFrom ≠ [])) ∧
  (settingExport settings "ELBENCHO_SWEEP_READ_FROM".toList = none →
    unprintable modes.readFrom = true ∧ '\'' ∈ modes.readFrom →
      commentReadFrom settings modes sweep date ≠ [])

structure PlanSeen : Prop where
  writeOnly : flagBehind settings "ELBENCHO_SWEEP_WRITE_ONLY".toList modes.writeOnly =
    modes.writeOnly
  writeNoRead : modes.writeOnly = false →
    flagBehind settings "ELBENCHO_SWEEP_WRITE_NO_READ".toList modes.writeNoRead =
      modes.writeNoRead
  readFrom : modes.writeOnly = false → modes.writeNoRead = false →
    ReadFromSeen settings modes sweep date

/-- The numbers that Python converts are nonnegative and short enough for it, and no line end in a
setting adds an export that changes a mode. -/
structure Legible : Prop where
  nodes : isDigits execution.cell.nodes = true
  nodesShort : execution.cell.nodes.length ≤ 4300
  threadsShort : execution.cell.threadCount.length ≤ 4300
  depthShort : execution.cell.ioDepth.length ≤ 4300
  sizeShort : ∀ blocks, runBlocks execution.cell.ioSize modes.useRandom = some blocks →
    ∀ phase, modes.plan.runs phase = true → (blocks.size phase).dropLast.length ≤ 4300
  plan : PlanSeen settings modes sweep date
  direct : (settingExport settings "dio_or_bio".toList).getD modes.dioOrBio = "dio".toList ↔
    modes.bio = false
  random : flagBehind settings "use_random".toList modes.useRandom = modes.useRandom ∨
    ∀ blocks, runBlocks execution.cell.ioSize false = some blocks →
      ∀ phase, modes.plan.runs phase = true → blocks.random phase = true

end

def decimal (word : Word) : Option Nat :=
  if isDigits word then some (Nat.ofDigitChars 10 word 0) else none

/-- The coordinates are the ones that were written, with the blocks of the phases that run. -/
structure ReadBack (modes : Modes) (cell : Cell) (found : Coordinates) : Prop where
  nodes : decimal cell.nodes = some found.nodes
  threads : decimal cell.threadCount = some found.threadsPerNode
  ioDepth : decimal cell.ioDepth = some found.ioDepth
  plan : found.phasePlan = modes.plan
  direct : found.directIo = !modes.bio
  blocks : ∃ blocks, runBlocks cell.ioSize modes.useRandom = some blocks ∧
    ∀ phase, modes.plan.runs phase = true →
      found.blockSizeBytes phase = some (blockBytes (blocks.size phase)) ∧
        found.access phase = some (access (blocks.random phase))

variable {settings : Settings} {modes : Modes} {sweep : Specification} {date : Word}
  {execution : Execution}

/-- At most one mode is chosen, so that the order in which they are looked at does not matter. -/
theorem plan_of_exclusive (exclusive : modes.exclusive = true) :
    modes.plan = if modes.writeOnly then .writeOnly else if modes.writeNoRead then .writeNoRead
      else if modes.readFrom ≠ [] then .readFrom else .writeRead := by
  rw [Modes.exclusive, decide_eq_true_eq] at exclusive
  rw [Modes.plan]
  by_cases path : modes.readFrom ≠ []
  · rw [decide_eq_true path] at exclusive
    cases only : modes.writeOnly with
    | true => cases noRead : modes.writeNoRead <;> simp [only, noRead] at exclusive
    | false =>
        cases noRead : modes.writeNoRead with
        | true => simp [only, noRead] at exclusive
        | false => rfl
  · rw [if_neg path, if_neg path]

theorem plan_eq_iff {only only' noRead noRead' : Bool} {path path' : Prop} [Decidable path]
    [Decidable path'] :
    (if only then PhasePlan.writeOnly else if noRead then .writeNoRead
      else if path then .readFrom else .writeRead) =
      (if only' then PhasePlan.writeOnly else if noRead' then .writeNoRead
        else if path' then .readFrom else .writeRead) ↔
      only = only' ∧ (only' = false → noRead = noRead') ∧
        (only' = false → noRead' = false → (path ↔ path')) := by
  cases only <;> cases only' <;> cases noRead <;> cases noRead' <;> by_cases one : path <;>
    by_cases other : path' <;> simp [one, other]

/-! ## One definition -/

theorem phaseBytes_valid {ioSize : Word} (valid : validateIoSizes [ioSize] = true)
    {useRandom : Bool} {blocks : Blocks} (blocks_eq : runBlocks ioSize useRandom = some blocks)
    (plan : PhasePlan) (phase : Phase) :
    phaseBytes plan (splitSizeSpec ioSize useRandom) phase =
      if plan.runs phase then
        (parseInt (blocks.size phase).dropLast).map fun _ => some (blockBytes (blocks.size phase))
      else some none := by
  obtain ⟨blocks', eq, sides, sizes⟩ := blocks_of_valid valid useRandom
  cases blocks_eq.symm.trans eq
  obtain ⟨component, digits, unit, size, same⟩ := sizes phase
  rw [phaseBytes, sides, same, elbenchoSizeBytes_sizeOf size, size.strip, List.dropLast_concat]

theorem readable_of_nodes {cell : Cell} (valid : validateIoSizes [cell.ioSize] = true)
    (threads : isDigits cell.threadCount = true) (depth : isDigits cell.ioDepth = true)
    (nodes : isDigits cell.nodes = true) : Readable cell := by
  obtain ⟨write, read, sizes⟩ := sizesOf_valid valid
  exact { nodes, ioSize := sizes.visible, threadCount := threads, ioDepth := depth }

structure Found (cell : Cell) (exports : Exports) (found : Coordinates) (key : Word) : Prop where
  nodes : parseInt cell.nodes = some found.nodes
  threads : parseInt cell.threadCount = some found.threadsPerNode
  ioDepth : parseInt cell.ioDepth = some found.ioDepth
  plan : found.phasePlan = phasePlan exports
  bytes : ∀ phase, phaseBytes (phasePlan exports)
    (splitSizeSpec cell.ioSize (exportFlag exports "use_random".toList)) phase =
      some (found.blockSizeBytes phase)
  access : ∀ phase, found.access phase = if (phasePlan exports).runs phase then
    some (access (splitSizeSpec cell.ioSize (exportFlag exports "use_random".toList) phase).2)
      else none
  direct : found.directIo =
    decide ((exports.get "dio_or_bio".toList).getD "dio".toList = "dio".toList)
  key : key = coordinateKey found.nodes found.threadsPerNode found.ioDepth (phasePlan exports)
    (splitSizeSpec cell.ioSize (exportFlag exports "use_random".toList)) found.directIo

theorem found_of_coordinates {parsed : IoDefinition}
    (nodes : parseInt parsed.cell.nodes = some parsed.nodes)
    (threads : parseInt parsed.cell.threadCount = some parsed.threads)
    (ioDepth : parseInt parsed.cell.ioDepth = some parsed.ioDepth)
    {found : Coordinates} {key : Word} (made : ioCoordinates parsed = some (found, key)) :
    Found parsed.cell parsed.exports found key := by
  unfold ioCoordinates at made
  dsimp only at made
  simp only [Option.bind_eq_bind, Option.bind_eq_some_iff] at made
  obtain ⟨writeBytes, write_eq, readBytes, read_eq, made⟩ := made
  cases made
  exact
    { nodes, threads, ioDepth, plan := rfl
      bytes := fun phase => by
        cases phase with
        | write => exact write_eq
        | read => exact read_eq
      access := fun _ => rfl
      direct := rfl
      key := rfl }

theorem splitSizeSpec_random (ioSize : Word) (useRandom : Bool) (phase : Phase) :
    splitSizeSpec ioSize useRandom phase = ((splitSizeSpec ioSize false phase).1,
      useRandom || (splitSizeSpec ioSize false phase).2) := by
  cases phase with
  | write => simp [splitSizeSpec]
  | read => simp [splitSizeSpec]

theorem phaseBytes_random (plan : PhasePlan) (ioSize : Word) (useRandom other : Bool)
    (phase : Phase) : phaseBytes plan (splitSizeSpec ioSize useRandom) phase =
      phaseBytes plan (splitSizeSpec ioSize other) phase := by
  rw [phaseBytes, phaseBytes, splitSizeSpec_random ioSize useRandom,
    splitSizeSpec_random ioSize other]

theorem access_injective : Function.Injective access := by
  intro a b same
  cases a <;> cases b <;> trivial

theorem access_iff {ioSize : Word} (valid : validateIoSizes [ioSize] = true) {blocks : Blocks}
    {useRandom other : Bool} (blocks_eq : runBlocks ioSize useRandom = some blocks)
    (plan : PhasePlan) :
    (∀ phase, plan.runs phase = true →
      access (splitSizeSpec ioSize other phase).2 = access (blocks.random phase)) ↔
      (other = useRandom ∨ ∀ blocks, runBlocks ioSize false = some blocks →
        ∀ phase, plan.runs phase = true → blocks.random phase = true) := by
  obtain ⟨own, own_eq, sides, -⟩ := blocks_of_valid valid useRandom
  cases blocks_eq.symm.trans own_eq
  obtain ⟨plain, plain_eq, plainSides, -⟩ := blocks_of_valid valid false
  have written (phase : Phase) : blocks.random phase = (useRandom || plain.random phase) := by
    have same := (sides phase).symm.trans (splitSizeSpec_random ioSize useRandom phase)
    rw [plainSides phase] at same
    exact (Prod.mk.inj same).2
  have seen (phase : Phase) : (splitSizeSpec ioSize other phase).2 = (other || plain.random phase) := by
    rw [splitSizeSpec_random, plainSides phase]
  constructor
  · intro same
    by_cases equal : other = useRandom
    · exact Or.inl equal
    · refine Or.inr fun found found_eq phase runs => ?_
      cases plain_eq.symm.trans found_eq
      have one := access_injective (same phase runs)
      by_contra silent
      rw [seen, written, Bool.eq_false_of_not_eq_true silent, Bool.or_false, Bool.or_false] at one
      exact equal one
  · rintro (rfl | all) phase runs
    · rw [seen, written]
    · rw [seen, written, all plain plain_eq phase runs, Bool.or_true, Bool.or_true]

theorem parseInt_isSome {digits : Word} : (parseInt digits).isSome = true ↔ digits.length ≤ 4300 := by
  rw [parseInt]
  split
  · rename_i short
    simpa using short
  · rename_i long
    simpa using long

theorem parseInt_short {digits : Word} (short : digits.length ≤ 4300) :
    parseInt digits = some (Nat.ofDigitChars 10 digits 0) := if_pos short

theorem decimal_digits {digits : Word} (valid : isDigits digits = true) :
    decimal digits = some (Nat.ofDigitChars 10 digits 0) := if_pos valid

theorem decimal_of_parseInt {digits : Word} {number : Nat} (valid : isDigits digits = true)
    (parsed : parseInt digits = some number) : decimal digits = some number := by
  have short := parseInt_isSome.mp (Option.isSome_of_eq_some parsed)
  rw [decimal_digits valid, ← parseInt_short short, parsed]

structure Accepted (cell : Cell) : Prop where
  ioSize : validateIoSizes [cell.ioSize] = true
  threadCount : isDigits cell.threadCount = true
  ioDepth : isDigits cell.ioDepth = true

theorem Accepted.readable {cell : Cell} (accepted : Accepted cell)
    (nodes : isDigits cell.nodes = true) : Readable cell :=
  readable_of_nodes accepted.ioSize accepted.threadCount accepted.ioDepth nodes

theorem accepted_of_ledger {fuel : Nat} {ledger : List Execution} (valid : sweep.valid = true)
    (reified : reifyAll fuel sweep = some ledger) {e : Execution} (mem : e ∈ ledger) :
    Accepted e.cell := by
  obtain ⟨counts, -, -, rfl⟩ := reifyAll_eq_some.mp reified
  obtain ⟨i, cell, at_, rfl⟩ := mem_numbered.mp mem
  have inside := List.mem_of_getElem? at_
  simp only [cells, List.mem_flatMap, List.mem_map] at inside
  obtain ⟨nodes, -, ioSize, size, threadCount, thread, ioDepth, depth, rfl⟩ := inside
  simp only [Specification.valid, validateIoSizes, validateIntegerArray, Bool.and_eq_true,
    List.all_eq_true] at valid
  exact
    { ioSize := by simpa [validateIoSizes] using valid.1.1.2 ioSize size
      threadCount := (valid.1.2.2 threadCount thread).1
      ioDepth := (valid.2.2 ioDepth depth).1 }

/-! ## Keys -/

theorem SizeOf.separators {component digits : Word} {unit : Char}
    (size : SizeOf component digits unit) :
    '/' ∉ stripRandom component ∧ '-' ∉ stripRandom component := by
  have numbers := size.digits
  simp only [isDigits, Bool.and_eq_true, List.all_eq_true] at numbers
  have other (c : Char) (plain : c.isDigit = false) (known : c ∉ ['K', 'M', 'G']) :
      c ∉ stripRandom component := by
    rw [size.strip, List.mem_append, not_or]
    constructor
    · intro mem
      rw [numbers.2 c mem] at plain
      cases plain
    · rw [List.mem_singleton]
      rintro rfl
      exact known (by simpa using size.unit)
  exact ⟨other '/' (by decide) (by decide), other '-' (by decide) (by decide)⟩

def Separable (side : Word × Bool) : Prop := '/' ∉ side.1 ∧ '-' ∉ side.1

theorem slash_not_mem_keyPart {side : Word × Bool} (separable : Separable side) (runs : Bool) :
    '/' ∉ keyPart runs side := by
  have none_ : '/' ∉ "none".toList := by decide_cbv
  have rand : '/' ∉ "-rand".toList := by decide_cbv
  have seq : '/' ∉ "-seq".toList := by decide_cbv
  rw [keyPart]
  split
  · rw [List.mem_append, not_or]
    refine ⟨separable.1, ?_⟩
    split
    · exact rand
    · exact seq
  · exact none_

theorem keyPart_inj {a b : Word × Bool} (left : Separable a) (right : Separable b)
    (same : keyPart true a = keyPart true b) : a = b := by
  have rand : "-rand".toList = '-' :: "rand".toList := by decide_cbv
  have seq : "-seq".toList = '-' :: "seq".toList := by decide_cbv
  have other : "rand".toList ≠ "seq".toList := by decide_cbv
  have form (side : Word × Bool) : keyPart true side =
      side.1 ++ '-' :: if side.2 then "rand".toList else "seq".toList := by
    rw [keyPart, if_pos rfl, rand, seq]
    split <;> rfl
  rw [form, form] at same
  obtain ⟨token, suffix⟩ := append_separator_inj left.2 right.2 same
  refine Prod.ext token ?_
  generalize "rand".toList = r at other suffix
  generalize "seq".toList = q at other suffix
  cases first : a.2 <;> cases second : b.2
  · rfl
  · rw [first, second, if_neg Bool.false_ne_true, if_pos rfl] at suffix
    exact absurd suffix.symm other
  · rw [first, second, if_neg Bool.false_ne_true, if_pos rfl] at suffix
    exact absurd suffix other
  · rfl

theorem slash_not_mem_pad (n : Nat) : '/' ∉ pad 3 n := not_mem_pad rfl 3 n

theorem coordinateKey_inj {nodes threads ioDepth nodes' threads' ioDepth' : Nat} {plan : PhasePlan}
    {side side' : Phase → Word × Bool} {direct : Bool}
    (left : ∀ phase, Separable (side phase)) (right : ∀ phase, Separable (side' phase))
    (same : coordinateKey nodes threads ioDepth plan side direct =
      coordinateKey nodes' threads' ioDepth' plan side' direct) :
    nodes = nodes' ∧ threads = threads' ∧ ioDepth = ioDepth' ∧
      ∀ phase, plan.runs phase = true → side phase = side' phase := by
  have second : "/s".toList = ['/', 's'] := by decide_cbv
  have third : "/d".toList = ['/', 'd'] := by decide_cbv
  have fourth : "/w".toList = ['/', 'w'] := by decide_cbv
  have fifth : "/r".toList = ['/', 'r'] := by decide_cbv
  unfold coordinateKey at same
  rw [second, third, fourth, fifth] at same
  generalize "io/c".toList = first at same
  generalize (if direct then "dio".toList else "bio".toList) = last at same
  simp only [List.append_assoc, List.cons_append, List.nil_append] at same
  obtain ⟨n, same⟩ := append_separator_inj (slash_not_mem_pad _) (slash_not_mem_pad _)
    (List.append_cancel_left same)
  obtain ⟨t, same⟩ := append_separator_inj (slash_not_mem_pad _) (slash_not_mem_pad _)
    (List.cons.inj same).2
  obtain ⟨d, same⟩ := append_separator_inj (slash_not_mem_pad _) (slash_not_mem_pad _)
    (List.cons.inj same).2
  obtain ⟨w, same⟩ := append_separator_inj (slash_not_mem_keyPart (left .write) _)
    (slash_not_mem_keyPart (right .write) _) (List.cons.inj same).2
  obtain ⟨r, -⟩ := append_separator_inj (slash_not_mem_keyPart (left .read) _)
    (slash_not_mem_keyPart (right .read) _) (List.cons.inj same).2
  refine ⟨pad_injective n, pad_injective t, pad_injective d, fun phase runs => ?_⟩
  cases phase with
  | write =>
      rw [runs] at w
      exact keyPart_inj (left _) (right _) w
  | read =>
      rw [runs] at r
      exact keyPart_inj (left _) (right _) r

/-- The coordinates that decide what an execution measures. -/
def Coordinates.effective (found : Coordinates) :
    Nat × Nat × Nat × PhasePlan × (Phase → Option Nat) × (Phase → Option Access) × Bool :=
  (found.nodes, found.threadsPerNode, found.ioDepth, found.phasePlan, found.blockSizeBytes,
    found.access, found.directIo)

theorem separable_of_valid {ioSize : Word} (valid : validateIoSizes [ioSize] = true)
    (useRandom : Bool) (phase : Phase) : Separable (splitSizeSpec ioSize useRandom phase) := by
  obtain ⟨blocks, -, sides, sizes⟩ := blocks_of_valid valid useRandom
  obtain ⟨component, digits, unit, size, same⟩ := sizes phase
  rw [sides, Separable, same]
  exact size.separators

theorem effective_of_key {cell cell' : Cell} {exports exports' : Exports}
    {found found' : Coordinates} {key : Word} (valid : validateIoSizes [cell.ioSize] = true)
    (valid' : validateIoSizes [cell'.ioSize] = true)
    (plans : phasePlan exports = phasePlan exports')
    (random : exportFlag exports "use_random".toList = exportFlag exports' "use_random".toList)
    (direct : exports.get "dio_or_bio".toList = exports'.get "dio_or_bio".toList)
    (made : Found cell exports found key) (made' : Found cell' exports' found' key) :
    found.effective = found'.effective := by
  have flags : found.directIo = found'.directIo := by
    rw [made.direct, made'.direct, direct]
  have same := made.key.symm.trans made'.key
  rw [plans, flags, random] at same
  obtain ⟨nodes, threads, depth, sides⟩ := coordinateKey_inj
    (separable_of_valid valid _) (separable_of_valid valid' _) same
  have bytes : found.blockSizeBytes = found'.blockSizeBytes := funext fun phase => by
    have left := made.bytes phase
    have right := made'.bytes phase
    rw [plans, phaseBytes, random] at left
    rw [phaseBytes] at right
    by_cases runs : (phasePlan exports').runs phase = true
    · rw [if_pos runs] at left right
      rw [sides phase runs, right] at left
      exact (Option.some.inj left).symm
    · rw [if_neg runs] at left right
      exact (Option.some.inj left).symm.trans (Option.some.inj right)
  have accesses : found.access = found'.access := funext fun phase => by
    rw [made.access, made'.access, plans, random]
    by_cases runs : (phasePlan exports').runs phase = true
    · rw [if_pos runs, if_pos runs, sides phase runs]
    · rw [if_neg runs, if_neg runs]
  have plan : found.phasePlan = found'.phasePlan := (made.plan.trans plans).trans made'.plan.symm
  rw [Coordinates.effective, Coordinates.effective, nodes, threads, depth, plan, bytes, accesses,
    flags]

/-! ## The bytes of the shell -/

theorem octal_le_decimal (digits : Word) {low high : Nat} (le : low ≤ high) :
    Nat.ofDigitChars 8 digits low ≤ Nat.ofDigitChars 10 digits high := by
  induction digits generalizing low high with
  | nil => exact le
  | cons c rest ih =>
      rw [Nat.ofDigitChars_cons, Nat.ofDigitChars_cons]
      exact ih (Nat.add_le_add_right (Nat.mul_le_mul (by decide) le) _)

/-- The shell reads the number of a size in base ten, and its bytes are in range. -/
def ShellReads (size : Word) : Prop :=
  arithmetic size.dropLast = some (Nat.ofDigitChars 10 size.dropLast 0 : Int) ∧
    blockBytes size < 2 ^ 63

/-- A number that is read as `wrap n`, with `n` at most the decimal one, gives the exact product only
if both are in range and the same. -/
theorem eq_of_wrap_mul {n d : Nat} {unit : Nat} (some_ : 0 < unit) (le : n ≤ d)
    (same : wrap (wrap n * unit) = ((d * unit : Nat) : Int)) :
    d * unit < 2 ^ 63 ∧ wrap n = d := by
  have fits := fits_wrap (wrap n * unit)
  rw [same, Fits] at fits
  have product : n * unit ≤ d * unit := Nat.mul_le_mul_right _ le
  rw [wrap_wrap_mul, wrap_of_fits (by rw [Fits]; omega)] at same
  have factor : n * unit = d * unit := by exact_mod_cast same
  have equal : n = d := Nat.eq_of_mul_eq_mul_right some_ factor
  have bound : d ≤ d * unit := Nat.le_mul_of_pos_right _ some_
  refine ⟨by omega, ?_⟩
  rw [equal, wrap_of_fits (by rw [Fits]; omega)]

theorem sizeStringToBytes_iff {component digits : Word} {unit : Char}
    (size : SizeOf component digits unit) :
    sizeStringToBytes (stripRandom component) = some (blockBytes (stripRandom component) : Int) ↔
      ShellReads (stripRandom component) := by
  have known : unit.toUpper = unit ∧ unit ∈ ['K', 'M', 'G'] ∧ 0 < unitBytes unit := by
    rcases size.unit with rfl | rfl | rfl <;> decide
  have read : sizeStringToBytes (digits ++ [unit]) =
      (arithmetic digits).map fun number => wrap (number * unitBytes unit) := by
    rw [sizeStringToBytes, List.dropLast_concat, List.getLastD_concat, known.1]
    exact if_pos ⟨size.digits, known.2.1⟩
  rw [size.strip, ShellReads, read, List.dropLast_concat, blockBytes_concat]
  constructor
  · intro same
    obtain ⟨number, number_eq, product⟩ := Option.map_eq_some_iff.mp same
    have form : ∃ n ≤ Nat.ofDigitChars 10 digits 0, number = wrap (n : Nat) := by
      unfold arithmetic at number_eq
      split at number_eq
      · rename_i rest
        split at number_eq
        · refine ⟨_, ?_, (Option.some.inj number_eq).symm⟩
          rw [Nat.ofDigitChars_cons]
          exact octal_le_decimal rest (Nat.zero_le _)
        · cases number_eq
      · exact ⟨_, le_rfl, (Option.some.inj number_eq).symm⟩
    obtain ⟨n, le, wrapped⟩ := form
    rw [wrapped] at product number_eq
    obtain ⟨bound, equal⟩ := eq_of_wrap_mul known.2.2 le product
    exact ⟨by rw [number_eq, equal], bound⟩
  · intro ⟨number, bound⟩
    rw [number, Option.map_some, wrap_of_fits (by rw [Fits]; push_cast; omega)]
    push_cast
    rfl

/-! ## What is read of a definition -/

section

variable [Ctype]

theorem joined_quote (path : Word) :
    (unprintable path = true ∧ '\'' ∈ path ∧ shlexSplit (quote path) = none) ∨
      ¬(unprintable path = true ∧ '\'' ∈ path) ∧
        ∃ text, (shlexSplit (quote path)).map (joinWith [' ']) = some text ∧ (text = [] ↔ path = []) := by
  by_cases control : unprintable path = true
  · by_cases mem : '\'' ∈ path
    · exact Or.inl ⟨control, mem, shlexSplit_quote_none control mem⟩
    · refine Or.inr ⟨fun both => mem both.2, _, by rw [shlexSplit_quote_unprintable control mem]; rfl, ?_⟩
      have some_ : path ≠ [] := by
        rintro rfl
        cases control
      simp [joinWith, some_]
  · refine Or.inr ⟨fun both => control both.1, path, ?_, Iff.rfl⟩
    rw [shlexSplit_quote_printable control, Option.map_some, joinWith,
      List.intercalate_singleton]

theorem readFromSeen_iff :
    ((((settingExport settings "ELBENCHO_SWEEP_READ_FROM".toList).or
      (((shlexSplit (quote modes.readFrom)).map (joinWith [' '])).or
        (Exports.get (ledgerExports (commentLines settings modes sweep date))
          "ELBENCHO_SWEEP_READ_FROM".toList))).getD [] ≠ []) ↔ modes.readFrom ≠ []) ↔
      ReadFromSeen settings modes sweep date := by
  rw [ReadFromSeen, commentReadFrom]
  generalize Exports.get (ledgerExports (commentLines settings modes sweep date))
    "ELBENCHO_SWEEP_READ_FROM".toList = comment
  cases settingExport settings "ELBENCHO_SWEEP_READ_FROM".toList with
  | some path => simp
  | none =>
      rw [Option.none_or, and_iff_right nofun, imp_iff_right rfl]
      rcases joined_quote modes.readFrom with ⟨control, mem, lost⟩ | ⟨kept, text, joined, some_⟩
      · have path : modes.readFrom ≠ [] := List.ne_nil_of_mem mem
        rw [lost, Option.map_none, Option.none_or]
        simp [control, mem, path]
      · rw [joined, Option.some_or, Option.getD_some]
        exact iff_of_true (not_congr some_) fun both => absurd both kept

theorem plan_iff (readable : Readable execution.cell) (exclusive : modes.exclusive = true) :
    phasePlan (ledgerExports (textLines (definition settings modes sweep date execution))) =
      modes.plan ↔ PlanSeen settings modes sweep date := by
  have read : ReadModes settings modes (ledgerExports
      (textLines (definition settings modes sweep date execution))) _ :=
    readModes_definition readable
  have seen := @readFromSeen_iff settings modes sweep date _
  rw [← read.readFrom] at seen
  rw [phasePlan, read.writeOnly, read.writeNoRead, plan_of_exclusive exclusive, plan_eq_iff]
  constructor
  · intro ⟨writeOnly, writeNoRead, readFrom⟩
    refine ⟨writeOnly, writeNoRead, fun only noRead => ?_⟩
    rw [← seen]
    exact readFrom only noRead
  · intro ⟨writeOnly, writeNoRead, readFrom⟩
    refine ⟨writeOnly, writeNoRead, fun only noRead => ?_⟩
    rw [seen]
    exact readFrom only noRead

theorem parseIoDefinition_definition (readable : Readable execution.cell)
    {found : IoDefinition} (parsed : parseIoDefinition
      (textLines (definition settings modes sweep date execution)) = some found) :
    found.cell = execution.cell ∧ parseInt execution.cell.nodes = some found.nodes ∧
      parseInt execution.cell.threadCount = some found.threads ∧
      parseInt execution.cell.ioDepth = some found.ioDepth ∧
      found.exports = ledgerExports (textLines (definition settings modes sweep date execution)) := by
  have first : (textLines (definition settings modes sweep date execution)).findSome? matchCoords =
      some execution.cell := by
    rw [textLines_definition readable, List.findSome?_cons, matchCoords_line readable]
  generalize textLines (definition settings modes sweep date execution) = lines at first parsed ⊢
  rw [parseIoDefinition, first] at parsed
  simp only [Option.bind_eq_bind, Option.bind_some, Option.bind_eq_some_iff] at parsed
  obtain ⟨nodes, nodes_eq, threads, threads_eq, depth, depth_eq, made⟩ := parsed
  cases made
  exact ⟨rfl, nodes_eq, threads_eq, depth_eq, rfl⟩

theorem found_of_definition (readable : Readable execution.cell)
    {found : Coordinates} {key : Word} (read : definitionCoordinates
      (definition settings modes sweep date execution) = some (found, key)) :
    Found execution.cell
      (ledgerExports (textLines (definition settings modes sweep date execution))) found key := by
  obtain ⟨parsed, parsed_eq, made⟩ := Option.bind_eq_some_iff.mp read
  obtain ⟨cell, nodes, threads, depth, exports⟩ :=
    parseIoDefinition_definition readable parsed_eq
  rw [← exports, ← cell]
  rw [← cell] at nodes threads depth
  exact found_of_coordinates nodes threads depth made

theorem definition_found (readable : Readable execution.cell)
    {nodes threads ioDepth : Nat} {bytes : Phase → Option Nat}
    (nodes_eq : parseInt execution.cell.nodes = some nodes)
    (threads_eq : parseInt execution.cell.threadCount = some threads)
    (depth_eq : parseInt execution.cell.ioDepth = some ioDepth)
    (bytes_eq : ∀ phase, phaseBytes
      (phasePlan (ledgerExports (textLines (definition settings modes sweep date execution))))
      (splitSizeSpec execution.cell.ioSize modes.useRandom) phase = some (bytes phase)) :
    ∃ found key, definitionCoordinates (definition settings modes sweep date execution) =
      some (found, key) := by
  have first : (textLines (definition settings modes sweep date execution)).findSome? matchCoords =
      some execution.cell := by
    rw [textLines_definition readable, List.findSome?_cons, matchCoords_line readable]
  rw [definitionCoordinates]
  generalize textLines (definition settings modes sweep date execution) = lines at *
  rw [parseIoDefinition, first]
  simp only [Option.bind_eq_bind, Option.bind_some, nodes_eq, threads_eq, depth_eq]
  unfold ioCoordinates
  dsimp only
  rw [phaseBytes_random _ _ _ modes.useRandom .write, phaseBytes_random _ _ _ modes.useRandom .read,
    bytes_eq, bytes_eq]
  exact ⟨_, _, rfl⟩

theorem direct_iff {exports : Exports} {readFrom : Option Word}
    (read : ReadModes settings modes exports readFrom) :
    decide ((exports.get "dio_or_bio".toList).getD "dio".toList = "dio".toList) = (!modes.bio) ↔
      ((settingExport settings "dio_or_bio".toList).getD modes.dioOrBio = "dio".toList ↔
        modes.bio = false) := by
  rw [read.direct, Option.getD_some, Bool.eq_iff_iff, decide_eq_true_iff, Bool.not_eq_true']

theorem legible_of_read (accepted : Accepted execution.cell)
    (exclusive : modes.exclusive = true) {found : Coordinates} {key : Word}
    (read : definitionCoordinates (definition settings modes sweep date execution) =
      some (found, key)) (back : ReadBack modes execution.cell found) :
    Legible settings modes sweep date execution := by
  have nodes : isDigits execution.cell.nodes = true := by
    by_contra other
    have numbered := back.nodes
    rw [decimal, if_neg other] at numbered
    cases numbered
  have readable := accepted.readable nodes
  have made := found_of_definition readable read
  have seen : ReadModes settings modes (ledgerExports
      (textLines (definition settings modes sweep date execution))) _ :=
    readModes_definition readable
  have plan : phasePlan (ledgerExports
      (textLines (definition settings modes sweep date execution))) = modes.plan :=
    made.plan.symm.trans back.plan
  obtain ⟨blocks, blocks_eq, phases⟩ := back.blocks
  exact
    { nodes
      nodesShort := parseInt_isSome.mp (Option.isSome_of_eq_some made.nodes)
      threadsShort := parseInt_isSome.mp (Option.isSome_of_eq_some made.threads)
      depthShort := parseInt_isSome.mp (Option.isSome_of_eq_some made.ioDepth)
      sizeShort := fun blocks eq phase runs => by
        have bytes := made.bytes phase
        rw [phaseBytes_random _ _ _ modes.useRandom, plan, phaseBytes_valid accepted.ioSize eq,
          if_pos runs] at bytes
        obtain ⟨number, parsed, -⟩ := Option.map_eq_some_iff.mp bytes
        exact parseInt_isSome.mp (Option.isSome_of_eq_some parsed)
      plan := (plan_iff readable exclusive).mp plan
      direct := (direct_iff seen).mp (made.direct.symm.trans back.direct)
      random := by
        rw [← seen.useRandom]
        refine (access_iff accepted.ioSize blocks_eq modes.plan).mp fun phase runs => ?_
        have same := made.access phase
        rw [(phases phase runs).2, plan, if_pos runs] at same
        exact (Option.some.inj same).symm }

theorem read_of_legible (accepted : Accepted execution.cell)
    (exclusive : modes.exclusive = true) (legible : Legible settings modes sweep date execution) :
    ∃ found key, definitionCoordinates (definition settings modes sweep date execution) =
      some (found, key) ∧ ReadBack modes execution.cell found := by
  have readable := accepted.readable legible.nodes
  have plan := (plan_iff readable exclusive).mpr legible.plan
  have seen : ReadModes settings modes (ledgerExports
      (textLines (definition settings modes sweep date execution))) _ :=
    readModes_definition readable
  obtain ⟨blocks, blocks_eq, -⟩ := blocks_of_valid accepted.ioSize modes.useRandom
  have bytes : ∀ phase, phaseBytes modes.plan (splitSizeSpec execution.cell.ioSize modes.useRandom)
      phase = some (if modes.plan.runs phase then some (blockBytes (blocks.size phase)) else none) := by
    intro phase
    rw [phaseBytes_valid accepted.ioSize blocks_eq]
    by_cases runs : modes.plan.runs phase = true
    · rw [if_pos runs, if_pos runs, parseInt_short (legible.sizeShort blocks blocks_eq phase runs)]
      rfl
    · rw [if_neg runs, if_neg runs]
  obtain ⟨found, key, read⟩ := definition_found readable
    (parseInt_short legible.nodesShort) (parseInt_short legible.threadsShort)
    (parseInt_short legible.depthShort) (fun phase => by rw [plan]; exact bytes phase)
  have made := found_of_definition readable read
  have random := legible.random
  rw [← seen.useRandom] at random
  have accesses := (access_iff accepted.ioSize blocks_eq modes.plan).mpr random
  refine ⟨found, key, read, ?_⟩
  exact
    { nodes := decimal_of_parseInt legible.nodes made.nodes
      threads := decimal_of_parseInt accepted.threadCount made.threads
      ioDepth := decimal_of_parseInt accepted.ioDepth made.ioDepth
      plan := made.plan.trans plan
      direct := made.direct.trans ((direct_iff seen).mpr legible.direct)
      blocks := by
        refine ⟨blocks, blocks_eq, fun phase runs => ⟨?_, ?_⟩⟩
        · have same := made.bytes phase
          rw [phaseBytes_random _ _ _ modes.useRandom, plan, bytes phase, if_pos runs] at same
          exact (Option.some.inj same).symm
        · rw [made.access phase, plan, if_pos runs, accesses phase runs] }

/-! ## The statement -/

omit [Ctype] in
theorem length_stripRandom (component : Word) : (stripRandom component).length ≤ component.length := by
  rw [stripRandom]
  split
  · rw [List.length_tail]
    exact Nat.sub_le _ _
  · exact le_rfl

omit [Ctype] in
theorem length_size {ioSize : Word} {useRandom : Bool} {blocks : Blocks}
    (blocks_eq : runBlocks ioSize useRandom = some blocks) (phase : Phase) :
    (blocks.size phase).length ≤ ioSize.length := by
  obtain ⟨⟨write, read⟩, parts, rfl⟩ := Option.map_eq_some_iff.mp blocks_eq
  have both : write.length ≤ ioSize.length ∧ read.length ≤ ioSize.length := by
    rw [Sweep.components] at parts
    split at parts
    · dsimp only at parts
      split at parts
      · cases parts
      · cases parts
        rw [List.rtakeWhile, List.length_reverse]
        exact ⟨(List.takeWhile_sublist _).length_le,
          (List.takeWhile_sublist _).length_le.trans (List.length_reverse).le⟩
    · cases parts
      exact ⟨le_rfl, le_rfl⟩
  cases phase with
  | write => exact (length_stripRandom write).trans both.1
  | read => exact (length_stripRandom read).trans both.2

theorem legible_of_single (unquoted : ∀ value ∈ settings.unquoted, Single value)
    (path : ¬(unprintable modes.readFrom = true ∧ '\'' ∈ modes.readFrom))
    (nodes : isDigits execution.cell.nodes = true)
    (short : ∀ number ∈ [execution.cell.nodes, execution.cell.threadCount, execution.cell.ioDepth,
      execution.cell.ioSize], number.length ≤ 4300) :
    Legible settings modes sweep date execution := by
  have absent {name : Word} (mode : name ∈ modeNames) : settingExport settings name = none :=
    settingExport_eq_none unquoted mode
  have kept {name : Word} {value : Bool} (mode : name ∈ modeNames) :
      flagBehind settings name value = value := by
    rw [flagBehind, absent mode]
    cases value <;> rfl
  simp only [List.forall_mem_cons] at short
  obtain ⟨nodesShort, threadsShort, depthShort, sizeShort, -⟩ := short
  exact
    { nodes, nodesShort, threadsShort, depthShort
      sizeShort := fun blocks eq phase _ => by
        rw [List.length_dropLast]
        exact (Nat.sub_le _ _).trans ((length_size eq phase).trans sizeShort)
      plan :=
        { writeOnly := kept (by simp [modeNames])
          writeNoRead := fun _ => kept (by simp [modeNames])
          readFrom := fun _ _ => by
            rw [ReadFromSeen, absent (by simp [modeNames])]
            refine ⟨fun _ found => ?_, fun _ both => absurd both path⟩
            cases found }
      direct := by
        rw [absent (by simp [modeNames]), Option.getD_none, Modes.dioOrBio]
        cases modes.bio with
        | true => decide_cbv
        | false => decide_cbv
      random := Or.inl (kept (by simp [modeNames])) }

/-- The coordinates of every definition of a sweep are read back and keys tell them apart exactly if
every definition is legible; the shell counts the same bytes for a block exactly if it reads the
number of its size in base ten. -/
theorem coordinates_read_back {fuel : Nat} {ledger : List Execution} (date : Execution → Word)
    (valid : sweep.valid = true) (exclusive : modes.exclusive = true)
    (reified : reifyAll fuel sweep = some ledger) :
    (((∀ e ∈ ledger, ∃ found key,
        definitionCoordinates (definition settings modes sweep (date e) e) = some (found, key) ∧
          ReadBack modes e.cell found) ∧
      ∀ e ∈ ledger, ∀ e' ∈ ledger, ∀ found found' key,
        definitionCoordinates (definition settings modes sweep (date e) e) = some (found, key) →
        definitionCoordinates (definition settings modes sweep (date e') e') = some (found', key) →
          found.effective = found'.effective) ↔
      ∀ e ∈ ledger, Legible settings modes sweep (date e) e) ∧
    ∀ e ∈ ledger, ∀ blocks, runBlocks e.cell.ioSize modes.useRandom = some blocks → ∀ phase,
      (sizeStringToBytes (blocks.size phase) = some (blockBytes (blocks.size phase) : Int) ↔
        ShellReads (blocks.size phase)) := by
  have accepted := fun e mem => @accepted_of_ledger sweep fuel ledger valid reified e mem
  refine ⟨⟨fun holds e mem => ?_, fun legible => ⟨fun e mem => ?_, ?_⟩⟩, ?_⟩
  · obtain ⟨found, key, read, back⟩ := holds.1 e mem
    exact legible_of_read (accepted e mem) exclusive read back
  · exact read_of_legible (accepted e mem) exclusive (legible e mem)
  · intro e mem e' mem' found found' key read read'
    have readable := (accepted e mem).readable (legible e mem).nodes
    have readable' := (accepted e' mem').readable (legible e' mem').nodes
    have plan := (plan_iff readable exclusive).mpr (legible e mem).plan
    have plan' := (plan_iff readable' exclusive).mpr (legible e' mem').plan
    have seen : ReadModes settings modes (ledgerExports
        (textLines (definition settings modes sweep (date e) e))) _ := readModes_definition readable
    have seen' : ReadModes settings modes (ledgerExports
        (textLines (definition settings modes sweep (date e') e'))) _ :=
      readModes_definition readable'
    exact effective_of_key (accepted e mem).ioSize (accepted e' mem').ioSize (plan.trans plan'.symm)
      (seen.useRandom.trans seen'.useRandom.symm) (seen.direct.trans seen'.direct.symm)
      (found_of_definition readable read) (found_of_definition readable' read')
  · intro e mem blocks eq phase
    obtain ⟨blocks', eq', -, sizes⟩ := blocks_of_valid (accepted e mem).ioSize modes.useRandom
    cases eq.symm.trans eq'
    obtain ⟨component, digits, unit, size, same⟩ := sizes phase
    rw [same]
    exact sizeStringToBytes_iff size

end

def sampleSettings : Settings :=
  { ds := "20260101Z000000".toList, duration := "60".toList, liveCsvExtended := [], liveint := []
    fileSizeMultiplier := [], fileLayout := [], filesPerNode := [], fileSize := []
    readAfterWritePause := [], maxAggThroughput := "10".toList
    maxNodeThroughputGbps := "40".toList, maxNodeIops := "10000".toList, singleBigFile := []
    singleBigFileBasename := [], singleBigFileSize := [], allNodesAccessAllData := []
    testDirs := [("/mnt".toList, 1)] }

def sampleModes (readFrom : Word) : Modes :=
  { bio := true, useRandom := false, runToCompletion := false, writeOnly := false
    writeNoRead := false, readFrom }

def sampleSweep : Specification :=
  ⟨['2'], ["4K".toList, "1M,r64K".toList], [['4'], ['8']], [['1']]⟩

def sampleLedger : List Execution :=
  [⟨"0001".toList, ⟨['2'], "4K".toList, ['4'], ['1']⟩, 0⟩,
    ⟨"0002".toList, ⟨['2'], "4K".toList, ['8'], ['1']⟩, 1⟩,
    ⟨"0003".toList, ⟨['2'], "1M,r64K".toList, ['4'], ['1']⟩, 2⟩,
    ⟨"0004".toList, ⟨['2'], "1M,r64K".toList, ['8'], ['1']⟩, 3⟩]

theorem sample_reified : reifyAll 10 sampleSweep = some sampleLedger := by decide +kernel

theorem sample_unquoted : ∀ value ∈ sampleSettings.unquoted, Single value := by
  intro value mem
  have all : sampleSettings.unquoted.all (fun value => decide (Single value)) = true := by
    decide +kernel
  exact of_decide_eq_true (List.all_eq_true.mp all value mem)

local instance sampleLocale : Ctype := posix

/-- Four executions that read a tree whose path is written with octal escapes. -/
theorem coordinates_read_back_sample :
    (let modes := sampleModes "/mnt/\u00e9t\u00e9".toList
    let read := fun e => definitionCoordinates (definition sampleSettings modes sampleSweep [] e)
    ((∀ e ∈ sampleLedger, ∃ found key, read e = some (found, key) ∧ ReadBack modes e.cell found) ∧
      ∀ e ∈ sampleLedger, ∀ e' ∈ sampleLedger, ∀ found found' key, read e = some (found, key) →
        read e' = some (found', key) → found.effective = found'.effective) ∧
      ∃ found key, read ⟨"0004".toList, ⟨['2'], "1M,r64K".toList, ['8'], ['1']⟩, 3⟩ =
          some (found, key) ∧
        found.nodes = 2 ∧ found.threadsPerNode = 8 ∧ found.phasePlan = .readFrom ∧
        found.directIo = false ∧ found.blockSizeBytes .read = some 65536 ∧
        found.access .read = some .random) := by
  have short : ∀ e ∈ sampleLedger, isDigits e.cell.nodes = true ∧ ∀ number ∈ [e.cell.nodes,
      e.cell.threadCount, e.cell.ioDepth, e.cell.ioSize], number.length ≤ 4300 := by
    decide +kernel
  have legible : ∀ e ∈ sampleLedger, Legible sampleSettings
      (sampleModes "/mnt/\u00e9t\u00e9".toList) sampleSweep [] e := fun e mem =>
    legible_of_single sample_unquoted (by decide +kernel) (short e mem).1 (short e mem).2
  have back := (coordinates_read_back (fun _ => []) (by decide +kernel) (by decide +kernel)
    sample_reified).1.mpr legible
  obtain ⟨found, key, read, last⟩ :=
    back.1 ⟨"0004".toList, ⟨['2'], "1M,r64K".toList, ['8'], ['1']⟩, 3⟩ (by simp [sampleLedger])
  have plan : (sampleModes "/mnt/\u00e9t\u00e9".toList).plan = .readFrom := by decide +kernel
  have sizes : runBlocks "1M,r64K".toList false = some ⟨"1M".toList, "64K".toList, false, true⟩ := by
    decide +kernel
  have bytes : blockBytes "64K".toList = 65536 := by decide +kernel
  obtain ⟨blocks, blocks_eq, phases⟩ := last.blocks
  cases sizes.symm.trans blocks_eq
  rw [plan] at phases
  obtain ⟨size, access⟩ := phases .read rfl
  exact ⟨back, found, key, read, (Option.some.inj last.nodes).symm,
    (Option.some.inj last.threads).symm, last.plan.trans plan, last.direct,
    size.trans (congrArg some bytes), access⟩

/-- A read-from path with a tab and an apostrophe is lost, and the coordinates are those of a run that
writes and reads. -/
theorem coordinates_lose_read_from :
    sampleSweep.valid = true ∧ (sampleModes "/mnt/a\tb's".toList).exclusive = true ∧
      reifyAll 10 sampleSweep = some sampleLedger ∧
      ¬∀ e ∈ sampleLedger, ∃ found key, definitionCoordinates
        (definition sampleSettings (sampleModes "/mnt/a\tb's".toList) sampleSweep [] e) =
          some (found, key) ∧ ReadBack (sampleModes "/mnt/a\tb's".toList) e.cell found := by
  have valid : sampleSweep.valid = true := by decide +kernel
  have exclusive : (sampleModes "/mnt/a\tb's".toList).exclusive = true := by decide +kernel
  refine ⟨valid, exclusive, sample_reified, fun all => ?_⟩
  obtain ⟨found, key, read, back⟩ := all _ List.mem_cons_self
  have accepted := accepted_of_ledger valid sample_reified List.mem_cons_self
  have seen := (legible_of_read accepted exclusive read back).plan.readFrom rfl rfl |>.2
  have lost : commentReadFrom sampleSettings (sampleModes "/mnt/a\tb's".toList) sampleSweep [] =
      [] := by decide +kernel
  exact seen (settingExport_eq_none sample_unquoted (by simp [modeNames])) (by decide +kernel) lost

end StorageScaleTest.Readback
