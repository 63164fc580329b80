import StorageScaleTest.Bins.Swap
import StorageScaleTest.Iteration.Rounds
import Mathlib.Data.Finset.Card
import Mathlib.Data.Finset.Dedup

/-!
# Grouping nodes into bins

The nodes of a CSV with their Gbps, dealt into bins in a zigzag, balanced by swaps between the
heaviest and the lightest full bin, and reordered for a smooth cumulative sum.
-/

namespace StorageScaleTest.Bins

variable {Name : Type}

/-! ## Dealing -/

/-- The bin of the `i`-th node: every other cycle runs backwards. -/
def snakeIndex (nBins i : Nat) : Nat :=
  if i / nBins % 2 = 0 then i % nBins else nBins - 1 - i % nBins

def buildSnakeBins (sortedNodes : List (Node Name)) (nBins : Nat) : List (Bin Name) :=
  sortedNodes.zipIdx.foldl (fun bins (node, i) => bins.modify (snakeIndex nBins i) (· ++ [node]))
    (List.replicate nBins [])

/-! ## Balancing -/

def binCount (nodes binSize : Nat) : Nat := (nodes + binSize - 1) / binSize

/-- The bins that take part in the swaps: all but a last one that is meant to stay partial. -/
def fullBins (nodes binSize : Nat) : List Nat :=
  if nodes % binSize ≠ 0 then List.range (binCount nodes binSize - 1)
  else List.range (binCount nodes binSize)

def sortedNodes (nodes : List (Node Name)) : List (Node Name) :=
  nodes.mergeSort fun a b => decide (-a.2 ≤ -b.2)

def snakeBins (nodes : List (Node Name)) (binSize : Nat) : List (Bin Name) :=
  buildSnakeBins (sortedNodes nodes) (binCount nodes.length binSize)

def balance (full : List Nat) (bins : List (Bin Name)) : List (Bin Name) :=
  Iteration.untilNone (round full) potential (round_lowers full) bins

def partition (nodes : List (Node Name)) (binSize : Nat) : List (Bin Name) :=
  balance (fullBins nodes.length binSize) (snakeBins nodes binSize)

/-! ## Reordering -/

/-- The distance from the ideal ramp after a bin has been placed. -/
def deviation (target cumulative : Int) (step : Nat) (bin : Bin Name) : Int :=
  |cumulative + binSum bin - target * step|

variable [DecidableEq Name]

/-- The greedy order: at each step the first remaining bin with the smallest deviation. -/
def smoothOrder (target : Int) : Nat → Nat → Int → List (Bin Name) → List (Bin Name)
  | 0, _, _, _ => []
  | steps + 1, step, cumulative, remaining =>
    match @List.argmin (Bin Name) Int Int.instLinearOrder.toPreorder Int.decLt
        (deviation target cumulative step) remaining with
    | none => []
    | some best => best ::
        smoothOrder target steps (step + 1) (cumulative + binSum best) (remaining.erase best)

def hasPartial (bins : List (Bin Name)) : Bool := 1 < (bins.map List.length).toFinset.card

def reorderBinsForSmoothCumulative (bins : List (Bin Name)) (target : Int) : List (Bin Name) :=
  let full := if hasPartial bins then bins.dropLast else bins
  let partialBin := if hasPartial bins then bins.getLast?.toList else []
  smoothOrder target full.length 1 0 full ++ partialBin

def printedNames (bins : List (Bin Name)) : List Name := bins.flatMap fun bin => bin.map (·.1)

/-! ## The summary -/

structure Summary where
  fullBins : Nat
  partialBin : Option Nat
  nodeCounts : List Nat

/-- `range(bin_size, total_nodes, bin_size)`, closed by the total and sorted downwards. -/
def nodeCounts (totalNodes binSize : Nat) : List Nat :=
  let counts := ((List.range totalNodes).map fun i => (i + 1) * binSize).filter (· < totalNodes)
  let counts := if counts.getLast? = some totalNodes then counts else counts ++ [totalNodes]
  counts.mergeSort fun a b => decide (b ≤ a)

def printSummary (totalNodes binSize : Nat) : Summary where
  fullBins := totalNodes / binSize
  partialBin := if totalNodes % binSize = 0 then none else some (totalNodes % binSize)
  nodeCounts := nodeCounts totalNodes binSize

end StorageScaleTest.Bins
