import Mathlib.Data.List.MinMax
import Mathlib.Data.Rat.Floor

/-!
# Data reduction for the report

`decimate` with exact bucket bounds. The rounding to significant figures is a parameter.
-/

namespace StorageScaleTest.Report

inductive Value where
  | missing
  | boolean (b : Bool)
  | nan
  | infinite (negative : Bool)
  | number (value : ℚ)

/-- `finite` -/
def finite : Value → Option ℚ
  | .number value => some value
  | _ => none

abbrev Point := ℚ × ℚ

def finitePoint (sample : Value × Value) : Option Point :=
  match finite sample.1, finite sample.2 with
  | some x, some y => some (x, y)
  | _, _ => none

def finitePoints (xs ys : List Value) : List Point := (xs.zip ys).filterMap finitePoint

/-- `min` with a key, which takes the first of equal ones. -/
def lowest {α : Type} (key : α → ℚ) (values : List α) : Option α :=
  @List.argmin α ℚ Rat.linearOrder.toPreorder Rat.linearOrder.toDecidableLT key values

/-- `max` with a key, which takes the first of equal ones. -/
def highest {α : Type} (key : α → ℚ) (values : List α) : Option α :=
  @List.argmax α ℚ Rat.linearOrder.toPreorder Rat.linearOrder.toDecidableLT key values

/-- `sorted({low, high})` -/
def sortedPair (low high : Nat) : List Nat :=
  if low = high then [low] else if low < high then [low, high] else [high, low]

def pointAt (points : List Point) (i : Nat) : Point := points.getD i (0, 0)

/-- `_bucket_extremes`, which is called with `start < stop` only. -/
def bucketExtremes (points : List Point) (start stop : Nat) : List Point :=
  let chunk := List.range' start (stop - start)
  match lowest (fun i => (pointAt points i).2) chunk, highest (fun i => (pointAt points i).2) chunk with
  | some low, some high => (sortedPair low high).map (pointAt points)
  | _, _ => []

/-- The points that `decimate` keeps. -/
def reduce (points : List Point) (limit : Int) : List Point :=
  if limit < 2 then if limit > 0 then (highest Prod.snd points).toList else []
  else if (points.length : Int) > limit then
    let buckets := (limit / 2).toNat
    let size : ℚ := points.length / buckets
    (List.range buckets).flatMap fun (bucket : Nat) =>
      let start := ⌊(bucket : ℚ) * size⌋₊
      let stop := ⌊((bucket + 1 : Nat) : ℚ) * size⌋₊
      if stop > start then bucketExtremes points start stop else []
  else points

/-- `decimate` -/
def decimate (sig : ℚ → ℚ) (xs ys : List Value) (limit : Int) : List Point :=
  (reduce (finitePoints xs ys) limit).map fun point => (sig point.1, sig point.2)

end StorageScaleTest.Report
