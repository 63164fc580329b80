import Mathlib.Data.List.ProdSigma
import StorageScaleTest.Sweep.Reify

/-!
# The ledger of a reified sweep

The nested loops write one definition for each element of the product of the four lists.
-/

namespace StorageScaleTest.Sweep

open Shell

variable {fuel : Nat} {sweep : Specification} {counts : List Word} {ledger : List Execution}
  {e : Execution}

def cells (counts : List Word) (sweep : Specification) : List Cell :=
  counts.flatMap fun nodes => sweep.ioSizes.flatMap fun ioSize =>
    sweep.threadList.flatMap fun threadCount =>
      sweep.iodepthList.map fun ioDepth => ⟨nodes, ioSize, threadCount, ioDepth⟩

def numbered (seq : Nat) (cells : List Cell) : List Execution :=
  cells.mapIdx fun i cell => ⟨pad 4 (seq + i), cell, seq + i - 1⟩

theorem reifyExecution_foldl (cells : List Cell) (seq : Nat) (written : List Execution) :
    cells.foldl (fun progress cell => reifyExecution cell progress) ⟨seq, written⟩ =
      ⟨seq + cells.length, written ++ numbered seq cells⟩ := by
  induction cells generalizing seq written with
  | nil => simp [numbered]
  | cons cell rest ih =>
      rw [List.foldl_cons, reifyExecution, ih]
      congr 1
      · simp only [List.length_cons]
        omega
      · simp [numbered, List.mapIdx_cons, Nat.add_assoc, Nat.add_comm 1]

theorem loops_eq (counts : List Word) (sweep : Specification) (progress : Progress) :
    counts.foldl (fun progress nodes => sweep.ioSizes.foldl (fun progress ioSize =>
      reifyInner sweep nodes ioSize progress) progress) progress =
    (cells counts sweep).foldl (fun progress cell => reifyExecution cell progress) progress := by
  simp only [cells, reifyInner, List.foldl_flatMap, List.foldl_map]

theorem length_cells (counts : List Word) (sweep : Specification) : (cells counts sweep).length =
    counts.length * sweep.ioSizes.length * sweep.threadList.length * sweep.iodepthList.length := by
  simp [cells, List.length_flatMap, List.map_const', Nat.mul_assoc]

theorem reifyAll_eq_some : reifyAll fuel sweep = some ledger ↔
    ∃ counts, nodeCountsOf fuel sweep.nodesSpec = some counts ∧
      (cells (mapfile counts) sweep).length ≤ 9999 ∧
      ledger = numbered 1 (cells (mapfile counts) sweep) := by
  unfold reifyAll
  cases nodeCountsOf fuel sweep.nodesSpec with
  | none => simp
  | some counts =>
      simp only [Option.some.injEq, exists_eq_left', length_cells]
      rw [loops_eq, reifyExecution_foldl]
      split
      · simp
        omega
      · rename_i small
        simp [not_lt.mp small, eq_comm]

theorem mem_numbered {seq : Nat} {cells : List Cell} : e ∈ numbered seq cells ↔
    ∃ i cell, cells[i]? = some cell ∧ e = ⟨pad 4 (seq + i), cell, seq + i - 1⟩ := by
  unfold numbered
  rw [List.mem_mapIdx]
  constructor
  · rintro ⟨i, lt, rfl⟩
    exact ⟨i, _, List.getElem?_eq_getElem lt, rfl⟩
  · rintro ⟨i, cell, at_, rfl⟩
    obtain ⟨lt, rfl⟩ := List.getElem?_eq_some_iff.mp at_
    exact ⟨i, lt, rfl⟩

end StorageScaleTest.Sweep
