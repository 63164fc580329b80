import StorageScaleTest.Ranges.Specification

/-!
# Reification of an IO sweep

`reify_all_elbencho_executions`: the node specification, the product of the four lists, the
definition of each execution, its result files and the hosts of its read phase.
-/

namespace StorageScaleTest.Sweep

open Shell

abbrev Word := List Char

/-- The node counts that `parse_range_specification` prints; `none` where it fails or does not end. -/
def nodeCountsOf (fuel : Nat) (spec : Word) : Option (List Word) :=
  match Ranges.parseRangeSpecification fuel spec with
  | some ⟨true, lines⟩ => some lines
  | _ => none

/-! ## Validators -/

/-- `validate_integer_array` -/
def validateIntegerArray (values : List Word) : Bool :=
  values ≠ [] && values.all fun value => isDigits value && !value.all (· = '0')

/-- `r?[0-9]+[KMG]` -/
def validSize (size : Word) : Bool :=
  let rest := if size.head? = some 'r' then size.tail else size
  isDigits rest.dropLast && (rest.getLast?.any fun unit => ['K', 'M', 'G'].contains unit)

/-- `validate_elbencho_io_sizes` -/
def validateIoSizes (sizes : List Word) : Bool :=
  sizes ≠ [] && sizes.all fun size => match size.splitOn ',' with
    | [size] => validSize size
    | [write, read] => validSize write && validSize read
    | _ => false

/-! ## The ledger -/

structure Specification where
  nodesSpec : Word
  ioSizes : List Word
  threadList : List Word
  iodepthList : List Word

def Specification.valid (sweep : Specification) : Bool :=
  validateIoSizes sweep.ioSizes && validateIntegerArray sweep.threadList
    && validateIntegerArray sweep.iodepthList

structure Cell where
  nodes : Word
  ioSize : Word
  threadCount : Word
  ioDepth : Word
  deriving DecidableEq, Repr

/-- What `executions/NNNN.sh` says of one execution. -/
structure Execution where
  id : Word
  cell : Cell
  rotateSteps : Nat
  deriving DecidableEq, Repr

structure Progress where
  seq : Nat
  written : List Execution

def reifyExecution (cell : Cell) (progress : Progress) : Progress where
  seq := progress.seq + 1
  written := progress.written ++ [⟨pad 4 progress.seq, cell, progress.seq - 1⟩]

/-- `_reify_inner_threads_iodepth` -/
def reifyInner (sweep : Specification) (nodes ioSize : Word) (progress : Progress) : Progress :=
  sweep.threadList.foldl (fun progress threadCount =>
    sweep.iodepthList.foldl (fun progress ioDepth =>
      reifyExecution ⟨nodes, ioSize, threadCount, ioDepth⟩ progress) progress) progress

/-- What `mapfile` reads back from the printed node counts. -/
def mapfile (counts : List Word) : List Word := if counts = [] then [[]] else counts

/-- `reify_all_elbencho_executions` -/
def reifyAll (fuel : Nat) (sweep : Specification) : Option (List Execution) :=
  match nodeCountsOf fuel sweep.nodesSpec with
  | none => none
  | some counts =>
    let nodeCounts := mapfile counts
    if nodeCounts.length * sweep.ioSizes.length * sweep.threadList.length
        * sweep.iodepthList.length > 9999 then none
    else some (nodeCounts.foldl (fun progress nodes =>
      sweep.ioSizes.foldl (fun progress ioSize =>
        reifyInner sweep nodes ioSize progress) progress) ⟨1, []⟩).written

/-! ## Result files -/

def coordinates (cell : Cell) : Word :=
  cell.ioSize ++ "-c_".toList ++ pad 3 (printfNumber cell.nodes) ++
    "-s_".toList ++ pad 3 (printfNumber cell.threadCount) ++
    "-d_".toList ++ pad 3 (printfNumber cell.ioDepth)

def stem (outputDir ds : Word) (cell : Cell) : Word :=
  outputDir ++ "/elbencho-".toList ++ coordinates cell ++ '_' :: ds

def treeStem (outputDir ds : Word) (cell : Cell) : Word :=
  outputDir ++ "/elbencho-treescan-".toList ++ coordinates cell ++ '_' :: ds

/-- `${output_dir##*-}` -/
def datestamp (outputDir : Word) : Word := (outputDir.splitOn '-').getLast?.getD []

/-- `_elbencho_result_artifacts_for_execution` for an execution of kind `io` -/
def resultArtifacts (outputDir : Word) (execution : Execution) : List Word :=
  let ds := datestamp outputDir
  let file := stem outputDir ds execution.cell
  let cell := outputDir ++ "/executions/".toList ++ execution.id
  [file ++ ".out".toList, file ++ ".out.project-version".toList, file ++ ".csv".toList,
    file ++ ".live.csv".toList, treeStem outputDir ds execution.cell ++ ".txt".toList,
    cell ++ ".write.json".toList, cell ++ ".read.json".toList, cell ++ ".delete.json".toList,
    cell ++ ".workload.tsv".toList]

/-! ## Hosts of the read phase -/

/-- `rotate_csv_list` -/
def rotateCsvList (csv : Word) (positions : Nat) : Word :=
  if csv = [] then []
  else
    let arr := fields ',' csv
    if arr.length ≤ 1 then csv
    else
      let positions := positions % arr.length
      if positions = 0 then csv
      else join ',' ((List.range arr.length).map fun i =>
        arr.getD ((i + positions) % arr.length) [])

/-- `_elbencho_io_append_rotated_hosts_for_read`: the `--hosts` of the read phase. -/
def readHosts (nodeCount : Nat) (hostsCsv : Word) (rotateSteps : Nat) : Option Word :=
  if 1 < nodeCount then some (rotateCsvList hostsCsv (1 + rotateSteps)) else none

end StorageScaleTest.Sweep
