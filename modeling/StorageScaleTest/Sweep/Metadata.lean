import StorageScaleTest.Sweep.Reify

/-!
# The metadata benchmark

`run_elbencho_metadata_benchmark`: the CREATE, STAT and DELETE invocations of each iteration and
the hosts they are given.
-/

namespace StorageScaleTest.Sweep.Metadata

open Shell

inductive Phase
  | create
  | stat
  | delete
  deriving DecidableEq, Repr

/-- What the layout preparation sets: `-d` and `-D` belong to the standard layout only. -/
structure Layout where
  elbenchoPaths : List Word
  dirsPerThread : Word
  filesPerWorker : Word
  createExtraArgs : List Word
  deleteExtraArgs : List Word

structure Settings where
  nodeCount : Nat
  hostsCsv : Word
  tasksPerNode : Word
  baseResfile : Word
  layout : Layout

structure Invocation where
  iteration : Nat
  phase : Phase
  args : List Word

namespace Settings

variable (s : Settings)

def commonArgs : List Word :=
  ["-t".toList, s.tasksPerNode, "-n".toList, s.layout.dirsPerThread, "-N".toList,
    s.layout.filesPerWorker, "-s".toList, "0".toList, "--lat".toList, "--lathisto".toList,
    "--latpercent".toList, "--nolive".toList]

def iterOutputArgs (iteration : Nat) : List Word :=
  let base := s.baseResfile ++ "_iter".toList ++ Nat.toDigits 10 iteration
  ["--resfile=".toList ++ base ++ ".out".toList, "--csvfile=".toList ++ base ++ ".csv".toList]

/-- The hosts of STAT, which DELETE is given as well. -/
def rotatedHosts : Word := if 1 < s.nodeCount then rotateCsvList s.hostsCsv 1 else []

def createArgs (iteration : Nat) : List Word :=
  (if 1 < s.nodeCount then
    ["--hosts".toList, s.hostsCsv, "--rotatehosts".toList, "1".toList] else []) ++
    "-w".toList :: s.layout.createExtraArgs ++ s.commonArgs ++ s.iterOutputArgs iteration ++
    s.layout.elbenchoPaths

def statArgs (iteration : Nat) : List Word :=
  (if 1 < s.nodeCount then ["--hosts".toList, s.rotatedHosts] else []) ++
    "--stat".toList :: s.commonArgs ++ "--nocsvlabels".toList :: s.iterOutputArgs iteration ++
    s.layout.elbenchoPaths

def deleteArgs (iteration : Nat) : List Word :=
  (if 1 < s.nodeCount then ["--hosts".toList, s.rotatedHosts] else []) ++
    "-F".toList :: s.layout.deleteExtraArgs ++ s.commonArgs ++
    "--nocsvlabels".toList :: s.iterOutputArgs iteration ++ s.layout.elbenchoPaths

def phaseArgs (iteration : Nat) : Phase → List Word
  | .create => s.createArgs iteration
  | .stat => s.statArgs iteration
  | .delete => s.deleteArgs iteration

def runPhases (rc : Nat → Phase → Nat) (iteration : Nat) : List Phase → List Invocation × Nat
  | [] => ([], 0)
  | phase :: rest =>
    let invocation := ⟨iteration, phase, s.phaseArgs iteration phase⟩
    if rc iteration phase ≠ 0 then ([invocation], rc iteration phase)
    else
      let later := runPhases rc iteration rest
      (invocation :: later.1, later.2)

/-- The iterations from `iteration` on, with the exit status of every invocation. -/
def runIterations (rc : Nat → Phase → Nat) : Nat → Nat → List Invocation × Nat
  | 0, _ => ([], 0)
  | left + 1, iteration =>
    let now := s.runPhases rc iteration [.create, .stat, .delete]
    if now.2 ≠ 0 then now
    else
      let later := runIterations rc left (iteration + 1)
      (now.1 ++ later.1, later.2)

/-- `run_elbencho_metadata_benchmark`: its invocations and `overall_rc`. -/
def runMetadataBenchmark (rc : Nat → Phase → Nat) (iterations : Nat) : List Invocation × Nat :=
  s.runIterations rc iterations 1

end Settings

/-- The hosts of an invocation, in the order of its `--hosts`. -/
def Invocation.hostOrder (invocation : Invocation) : Option (List Word) :=
  if invocation.args.head? = some "--hosts".toList then
    invocation.args[1]?.map (fields ',')
  else none

end StorageScaleTest.Sweep.Metadata
