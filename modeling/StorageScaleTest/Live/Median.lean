import Mathlib.Data.Rat.Floor
import Mathlib.Data.Fin.VecNotation
import Mathlib.Order.Interval.Finset.Defs

/-!
# The median estimator of the live report

`P2Median`: five markers that follow the median of a stream in constant memory, over exact
rationals. A division by zero is a failed computation.
-/

namespace StorageScaleTest.Live

def divide (a b : ℚ) : Option ℚ := if b = 0 then none else some (a / b)

/-- `percentile_from_sorted` -/
def percentileFromSorted (ordered : List ℚ) (percentile : ℚ) : ℚ :=
  match ordered with
  | [] => 0
  | [only] => only
  | ordered =>
    let position := ((ordered.length : ℚ) - 1) * percentile / 100
    let lower := ⌊position⌋
    let upper := ⌈position⌉
    if lower = upper then ordered.getD lower.toNat 0
    else
      let fraction := position - lower
      ordered.getD lower.toNat 0 * (1 - fraction) + ordered.getD upper.toNat 0 * fraction

def sorted (values : List ℚ) : List ℚ := values.mergeSort fun a b => decide (a ≤ b)

/-- `_percentile` -/
def percentile (values : List ℚ) (p : ℚ) : ℚ := percentileFromSorted (sorted values) p

structure Markers where
  heights : Fin 5 → ℚ
  positions : Fin 5 → ℤ
  desired : Fin 5 → ℚ

namespace Markers

def increments : Fin 5 → ℚ := ![0, 1 / 4, 1 / 2, 3 / 4, 1]

/-- `_initialize_markers` of five sorted observations. -/
def initializeMarkers (initial : List ℚ) : Markers where
  heights i := initial.getD i 0
  positions i := i + 1
  desired i := i + 1

variable (m : Markers)

/-- `_find_marker`, with the end that a new extreme moves. -/
def findMarker (value : ℚ) : Markers × Nat :=
  if value < m.heights 0 then ({ m with heights := Function.update m.heights 0 value }, 0)
  else if m.heights 4 ≤ value then ({ m with heights := Function.update m.heights 4 value }, 3)
  else
    (m, (([0, 1, 2, 3] : List (Fin 5)).find? fun i =>
      m.heights i ≤ value ∧ value < m.heights (i + 1)).elim 3 Fin.val)

/-- The markers above the found one move up, and every desired position by its increment. -/
def advance (marker : Nat) : Markers :=
  { m with
    positions := fun i => if marker < i then m.positions i + 1 else m.positions i
    desired := fun i => m.desired i + increments i }

/-- `_can_move` -/
def canMove (idx : Fin 5) (direction : ℤ) : Bool :=
  let nextGap := m.positions (idx + 1) - m.positions idx
  let prevGap := m.positions (idx - 1) - m.positions idx
  (0 < direction ∧ 1 < nextGap) ∨ (direction < 0 ∧ prevGap < -1)

/-- `_parabolic_height` -/
def parabolicHeight (idx : Fin 5) (direction : ℤ) : Option ℚ := do
  let left ← divide ((m.positions idx - m.positions (idx - 1) + direction) *
    (m.heights (idx + 1) - m.heights idx)) (m.positions (idx + 1) - m.positions idx)
  let right ← divide ((m.positions (idx + 1) - m.positions idx - direction) *
    (m.heights idx - m.heights (idx - 1))) (m.positions idx - m.positions (idx - 1))
  let slope ← divide (direction * (left + right))
    (m.positions (idx + 1) - m.positions (idx - 1))
  return m.heights idx + slope

/-- `_linear_height`, towards the neighbour in the direction of the move. -/
def linearHeight (idx : Fin 5) (direction : ℤ) : Option ℚ := do
  let neighbor := if 0 < direction then idx + 1 else idx - 1
  let slope ← divide (direction * (m.heights neighbor - m.heights idx))
    (m.positions neighbor - m.positions idx)
  return m.heights idx + slope

def direction (idx : Fin 5) : ℤ :=
  let delta := m.desired idx - m.positions idx
  if 1 ≤ delta then 1 else if delta ≤ -1 then -1 else 0

/-- The body of the loop of `_adjust_markers`. -/
def adjustMarker (idx : Fin 5) : Option Markers :=
  let direction := m.direction idx
  if direction = 0 ∨ ¬ m.canMove idx direction then some m
  else do
    let candidate ← m.parabolicHeight idx direction
    let height ← if m.heights (idx - 1) < candidate ∧ candidate < m.heights (idx + 1)
      then some candidate else m.linearHeight idx direction
    return { m with
      heights := Function.update m.heights idx height
      positions := Function.update m.positions idx (m.positions idx + direction) }

/-- `_adjust_markers` -/
def adjustMarkers : Option Markers := ([1, 2, 3] : List (Fin 5)).foldlM adjustMarker m

def add (value : ℚ) : Option Markers :=
  let (found, marker) := m.findMarker value
  (found.advance marker).adjustMarkers

end Markers

structure P2Median where
  initial : List ℚ
  markers : Option Markers

namespace P2Median

def empty : P2Median := ⟨[], none⟩

def add (e : P2Median) (value : ℚ) : Option P2Median :=
  if e.initial.length < 5 then
    let initial := e.initial ++ [value]
    if initial.length = 5 then some ⟨sorted initial, some (.initializeMarkers (sorted initial))⟩
    else some ⟨initial, none⟩
  else do
    let markers ← e.markers
    return { e with markers := ← markers.add value }

def value (e : P2Median) : Option ℚ :=
  if e.initial = [] then some 0
  else if e.initial.length < 5 then some (percentile e.initial 50)
  else e.markers.map (·.heights 2)

def feed (observations : List ℚ) : Option P2Median := observations.foldlM add empty

end P2Median

end StorageScaleTest.Live
