import StorageScaleTest.Grouping.Basic
import Mathlib.Data.List.Dedup
import Mathlib.Data.List.Sort
import Mathlib.Data.Prod.Lex

/-!
# Comparison sets

The sets of report sections that the report compares without a comparison file. The type of the
match key, and those of the orders of values and of sections, are parameters.
-/

namespace StorageScaleTest.Report
open Grouping

/-- `MAX_SERIES` -/
def maxSeries : Nat := 8

inductive Dimension where
  | ioMode
  | readFrom
  | target
  | testDir
  | fileSize
  | fileLayout
  deriving DecidableEq, Repr

/-- `DIMENSIONS` -/
def Dimension.all : List Dimension := [.ioMode, .readFrom, .target, .testDir, .fileSize, .fileLayout]

/-- `_IMPLIED` -/
def Dimension.implied : Dimension → List Dimension
  | .target => [.testDir, .readFrom]
  | _ => []

/-- `Value`, without its label -/
structure Compared (O : Type) where
  key : List Char
  order : O

structure Candidate (M O S : Type) where
  matchKey : M
  values : Dimension → Compared O
  settings : List (List Char × List Char)
  sortKey : S

structure CompareSet (M O S : Type) where
  members : List (Candidate M O S)
  dimension : Dimension
  part : Nat × Nat

variable {M O S : Type}

/-- `_compatible` -/
def compatible (first second : Candidate M O S) : Bool :=
  (first.settings.map Prod.fst).all fun key =>
    match first.settings.lookup key, second.settings.lookup key with
    | some a, some b => a = b
    | _, _ => true

/-- `_member_order` -/
def memberOrder (dimension : Dimension) (member : Candidate M O S) : Lex (O × S) :=
  toLex ((member.values dimension).order, member.sortKey)

/-- `len({m.values[dimension].key for m in cluster}) > 1` -/
def several (dimension : Dimension) (cluster : List (Candidate M O S)) : Bool :=
  (cluster.map fun m => (m.values dimension).key).dedup.length > 1

def Dimension.kept (dimension : Dimension) : List Dimension :=
  Dimension.all.filter (· ∉ dimension :: dimension.implied)

def keptKey (dimension : Dimension) (member : Candidate M O S) : List (List Char) :=
  dimension.kept.map fun name => (member.values name).key

/-- The members of each chunk of `n` members. -/
def chunkSize (n : Nat) : Nat :=
  let parts := (n + maxSeries - 1) / maxSeries
  (n + parts - 1) / parts

variable [LinearOrder O] [LinearOrder S]

def inOrder (dimension : Dimension) (members : List (Candidate M O S)) : List (Candidate M O S) :=
  members.insertionSort fun a b => memberOrder dimension a ≤ memberOrder dimension b

/-- `split` -/
def split (members : List (Candidate M O S)) (dimension : Dimension) : List (CompareSet M O S) :=
  let ordered := inOrder dimension members
  let parts := chunks (chunkSize ordered.length) ordered
  (parts.zipIdx 1).map fun (chunk, index) => ⟨chunk, dimension, (index, parts.length)⟩

/-- `_dimension_sets` -/
def dimensionSets (members : List (Candidate M O S)) (dimension : Dimension) :
    List (CompareSet M O S) :=
  (groupBy (keptKey dimension) members).flatMap fun (_, partition_) =>
    (clusters compatible partition_).flatMap fun cluster =>
      if several dimension cluster then split cluster dimension else []

/-- `automatic_sets` -/
def automaticSets [DecidableEq M] (found : List (Candidate M O S)) : List (CompareSet M O S) :=
  (groupBy Candidate.matchKey found).flatMap fun (_, members) =>
    if members.length > 1 then Dimension.all.flatMap (dimensionSets members) else []

end StorageScaleTest.Report
