import StorageScaleTest.Bins.Partition

/-!
# The zigzag deal

Every node is dealt to one bin, and the size of a bin depends on its place in the last cycle.
-/

namespace StorageScaleTest.Bins

variable {Name : Type}

theorem snakeIndex_lt {nBins : Nat} (some : 0 < nBins) (i : Nat) : snakeIndex nBins i < nBins := by
  have inside := Nat.mod_lt i some
  simp only [snakeIndex]
  split <;> omega

theorem buildSnakeBins_nil (nBins : Nat) :
    buildSnakeBins ([] : List (Node Name)) nBins = List.replicate nBins [] := rfl

theorem buildSnakeBins_append (nodes : List (Node Name)) (node : Node Name) (nBins : Nat) :
    buildSnakeBins (nodes ++ [node]) nBins =
      (buildSnakeBins nodes nBins).modify (snakeIndex nBins nodes.length) (· ++ [node]) := by
  simp only [buildSnakeBins, List.zipIdx_append, List.foldl_append, Nat.zero_add,
    List.zipIdx_singleton, List.foldl_cons, List.foldl_nil]

theorem length_buildSnakeBins (nodes : List (Node Name)) (nBins : Nat) :
    (buildSnakeBins nodes nBins).length = nBins := by
  induction nodes using List.reverseRecOn with
  | nil => rw [buildSnakeBins_nil, List.length_replicate]
  | append_singleton nodes node ih => rw [buildSnakeBins_append, List.length_modify, ih]

theorem flatten_modify_append {α : Type} (bins : List (List α)) {i : Nat} (inside : i < bins.length)
    (a : α) : (bins.modify i (· ++ [a])).flatten.Perm (bins.flatten ++ [a]) := by
  induction bins generalizing i with
  | nil => simp at inside
  | cons bin bins ih =>
      cases i with
      | zero =>
          simp only [List.modify_zero_cons, List.flatten_cons, List.append_assoc]
          exact List.perm_append_comm.append_left bin
      | succ i =>
          simp only [List.modify_succ_cons, List.flatten_cons, List.append_assoc]
          exact (ih (by simpa using inside)).append_left bin

theorem buildSnakeBins_perm (nodes : List (Node Name)) {nBins : Nat} (some : 0 < nBins) :
    (buildSnakeBins nodes nBins).flatten.Perm nodes := by
  induction nodes using List.reverseRecOn with
  | nil => simp [buildSnakeBins_nil]
  | append_singleton nodes node ih =>
      rw [buildSnakeBins_append]
      have inside : snakeIndex nBins nodes.length < (buildSnakeBins nodes nBins).length := by
        rw [length_buildSnakeBins]
        exact snakeIndex_lt some _
      exact (flatten_modify_append _ inside node).trans (ih.append_right [node])

/-! ## The size of a dealt bin -/

/-- The nodes that bin `j` has after `dealt` nodes: one a cycle, and one more when the unfinished
cycle has passed it. -/
def share (nBins dealt j : Nat) : Nat :=
  dealt / nBins + if (dealt / nBins % 2 = 0 ∧ j < dealt % nBins) ∨
    (dealt / nBins % 2 = 1 ∧ nBins - 1 - j < dealt % nBins) then 1 else 0

theorem share_of_cycle {nBins cycle rest : Nat} (inside : rest < nBins) (j : Nat) :
    share nBins (nBins * cycle + rest) j =
      cycle + if (cycle % 2 = 0 ∧ j < rest) ∨ (cycle % 2 = 1 ∧ nBins - 1 - j < rest)
        then 1 else 0 := by
  have positive : 0 < nBins := by omega
  rw [share, Nat.mul_add_div positive, Nat.div_eq_of_lt inside, Nat.mul_add_mod_self_left,
    Nat.mod_eq_of_lt inside, Nat.add_zero]

theorem snakeIndex_of_cycle {nBins cycle rest : Nat} (inside : rest < nBins) :
    snakeIndex nBins (nBins * cycle + rest) =
      if cycle % 2 = 0 then rest else nBins - 1 - rest := by
  have positive : 0 < nBins := by omega
  rw [snakeIndex, Nat.mul_add_div positive, Nat.div_eq_of_lt inside, Nat.mul_add_mod_self_left,
    Nat.mod_eq_of_lt inside, Nat.add_zero]

theorem share_succ {nBins j : Nat} (bin : j < nBins) (dealt : Nat) :
    share nBins (dealt + 1) j = share nBins dealt j + if snakeIndex nBins dealt = j then 1 else 0 := by
  have positive : 0 < nBins := by omega
  obtain ⟨cycle, rest, inside, rfl⟩ : ∃ cycle rest, rest < nBins ∧ dealt = nBins * cycle + rest :=
    ⟨dealt / nBins, dealt % nBins, Nat.mod_lt _ positive, (Nat.div_add_mod _ _).symm⟩
  rw [share_of_cycle inside, snakeIndex_of_cycle inside]
  by_cases more : rest + 1 < nBins
  · rw [Nat.add_assoc, share_of_cycle more]
    split_ifs <;> omega
  · have next : nBins * cycle + rest + 1 = nBins * (cycle + 1) + 0 := by
      rw [Nat.mul_add, Nat.mul_one]
      omega
    rw [next, share_of_cycle positive]
    split_ifs <;> omega

theorem length_dealt (nodes : List (Node Name)) {nBins j : Nat} (bin : j < nBins) :
    ((buildSnakeBins nodes nBins).map List.length)[j]? = some (share nBins nodes.length j) := by
  induction nodes using List.reverseRecOn with
  | nil => simp [buildSnakeBins_nil, bin, share]
  | append_singleton nodes node ih =>
      rw [buildSnakeBins_append, List.length_append, List.length_singleton, share_succ bin]
      rw [List.getElem?_map] at ih ⊢
      by_cases here : snakeIndex nBins nodes.length = j
      · rw [here, List.getElem?_modify_eq]
        obtain ⟨old, entry, size⟩ := Option.map_eq_some_iff.mp ih
        simp [entry, size]
      · rw [List.getElem?_modify_ne _ _ here, ih]
        simp [here]

theorem snakeBins_lengths (nodes : List (Node Name)) (binSize : Nat) :
    (snakeBins nodes binSize).map List.length =
      (List.range (binCount nodes.length binSize)).map
        (share (binCount nodes.length binSize) nodes.length) := by
  apply List.ext_getElem?
  intro j
  by_cases bin : j < binCount nodes.length binSize
  · rw [snakeBins, length_dealt _ bin, List.getElem?_map, List.getElem?_range bin, sortedNodes,
      List.length_mergeSort, Option.map_some]
  · rw [List.getElem?_eq_none, List.getElem?_eq_none]
    · simpa using bin
    · simpa [snakeBins, length_buildSnakeBins] using bin

theorem binCount_pos {nodes binSize : Nat} (sized : 1 ≤ binSize) (enough : binSize ≤ nodes) :
    0 < binCount nodes binSize := by
  apply (Nat.one_le_div_iff sized).mpr
  omega

theorem snakeBins_perm (nodes : List (Node Name)) {binSize : Nat} (sized : 1 ≤ binSize)
    (enough : binSize ≤ nodes.length) : (snakeBins nodes binSize).flatten.Perm nodes :=
  (buildSnakeBins_perm _ (binCount_pos sized enough)).trans (List.mergeSort_perm _ _)

end StorageScaleTest.Bins
