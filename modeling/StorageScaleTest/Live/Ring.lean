import StorageScaleTest.Samples.Dict
import Mathlib.Data.Int.Order.Basic

/-!
# Sliding windows over interval snapshots

`_SnapshotRing`: the DoneBytes of the last intervals, each client's last sample and the interval
of its last counter reset.
-/

namespace StorageScaleTest.Live

open Samples

variable {Client : Type} [DecidableEq Client]

/-- The DoneBytes of the clients that have a row in an interval. -/
abbrev Snapshot (Client : Type) := Dict Client ℤ

structure SnapshotRing (Client : Type) where
  depth : Nat
  snapshots : Dict ℤ (Snapshot Client)
  lastDone : Dict Client ℤ
  resetAt : Dict Client ℤ

/-- `_window_deltas` -/
def windowDeltas (snapshot previous : Snapshot Client) (resets : Dict Client ℤ) (begin_ : ℤ) :
    Dict Client ℤ :=
  snapshot.filterMap fun client doneBytes =>
    match previous.get client with
    | none => none
    | some prior =>
      if doneBytes < prior then none
      else if resets.keys ≠ ∅ ∧ begin_ < (resets.get client).getD (-1) then none
      else some (doneBytes - prior)

namespace SnapshotRing

def new (depth : Nat) : SnapshotRing Client := ⟨depth, .empty, .empty, .empty⟩

variable (ring : SnapshotRing Client)

def add (interval : ℤ) (snapshot : Snapshot Client) : SnapshotRing Client :=
  let resets := snapshot.filterMap fun client doneBytes =>
    match ring.lastDone.get client with
    | none => none
    | some prior => if doneBytes < prior then some interval else none
  { ring with
    resetAt := ring.resetAt.update resets
    lastDone := ring.lastDone.update snapshot
    snapshots := (ring.snapshots.set interval snapshot).erase (interval - ring.depth - 1) }

/-- The baseline of a window: the one that is passed, else the ring's snapshot at its begin. -/
def baseline (begin_ : ℤ) (previous : Option (Snapshot Client)) : Option (Snapshot Client) :=
  match previous with
  | some previous => some previous
  | none => if 0 ≤ begin_ then ring.snapshots.get begin_ else none

/-- `deltas`: nothing where the interval itself is not held, and no window without a baseline. -/
def deltas (interval begin_ : ℤ) (previous : Option (Snapshot Client)) :
    Option (Option (Dict Client ℤ)) :=
  match ring.baseline begin_ previous with
  | none => some none
  | some previous => (ring.snapshots.get interval).map fun snapshot =>
      some (windowDeltas snapshot previous ring.resetAt begin_)

end SnapshotRing

/-- The ring after the first `n` intervals of a sequence. -/
def ringAfter (depth : Nat) (snapshots : Nat → Snapshot Client) : Nat → SnapshotRing Client
  | 0 => .new depth
  | n + 1 => (ringAfter depth snapshots n).add n (snapshots n)

end StorageScaleTest.Live
