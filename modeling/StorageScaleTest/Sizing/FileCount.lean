import StorageScaleTest.Sizing.Sizes

/-!
# Files per thread for a duration

How many files keep the threads of a run busy for its duration, within the limits of the
filesystem.
-/

namespace StorageScaleTest.Sizing
open Shell Decimal

/-- `elbencho_size_str_to_int` -/
def elbenchoSizeStrToInt (size : List Char) : Option Int := do
  let suffix ← Suffix.ofChar? (← size.getLast?)
  let num ← arithmetic size.dropLast
  some (wrap (num * suffix.bytes))

def quotient (a b : Int) : Option Int := if b = 0 then none else some (wrap (a.tdiv b))

def successiveCeilings : Int → List Int → Option Int
  | targetFiles, [] => some targetFiles
  | targetFiles, divisor :: divisors =>
    if divisor > 0 then
      successiveCeilings (wrap (targetFiles.tdiv divisor +
        if targetFiles.tmod divisor ≠ 0 then 1 else 0)) divisors
    else none

/-- The variables `FS_MAX_*`. -/
structure Limits where
  nodeThroughputGbps : List Char
  nodeIops : List Char
  aggThroughput : List Char
  deriving DecidableEq, Repr

/-- `compute_target_file_count_per_thread`, where missing targets are empty. -/
def computeTargetFileCountPerThread (limits : Limits)
    (ioSize fileSize nodeCount threadCount duration targets : List Char) :
    Option (List Char) := do
  let maxNodeThroughput ← arithmetic limits.nodeThroughputGbps
  let maxNodeIops ← arithmetic limits.nodeIops
  let maxAggThroughput ← arithmetic limits.aggThroughput
  let maxNodeBytesPerSec ← quotient (wrap (wrap (wrap (maxNodeThroughput * 1024) * 1024) * 1024)) 8
  let maxAggBytesPerSec := wrap (wrap (wrap (maxAggThroughput * 1024) * 1024) * 1024)
  let ioBytes ← elbenchoSizeStrToInt ioSize
  let fileBytes ← elbenchoSizeStrToInt fileSize
  let ioBytes := if ioBytes > fileBytes then fileBytes else ioBytes
  let nodes ← arithmetic nodeCount
  let seconds ← arithmetic duration
  let nodeTotalBytes := wrap (wrap (maxNodeBytesPerSec * nodes) * seconds)
  let aggTotalBytes := wrap (maxAggBytesPerSec * seconds)
  let totalBytes := if nodeTotalBytes < aggTotalBytes then nodeTotalBytes else aggTotalBytes
  let iosPerFile ← quotient fileBytes ioBytes
  let maxIosByIops := wrap (wrap (maxNodeIops * nodes) * seconds)
  let maxIosByThroughput ← quotient totalBytes ioBytes
  let maxIos := if maxIosByIops < maxIosByThroughput then maxIosByIops else maxIosByThroughput
  let threads ← arithmetic threadCount
  let weighted ← arithmetic (if targets = [] then ['1'] else targets)
  let targetFiles ← successiveCeilings maxIos [iosPerFile, nodes, threads, weighted]
  some (numeral (if targetFiles < 1 then 1 else targetFiles).toNat)

end StorageScaleTest.Sizing
