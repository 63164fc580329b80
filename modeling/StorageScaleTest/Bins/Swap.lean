import Mathlib.Data.List.MinMax
import Mathlib.Data.List.Flatten
import Mathlib.Data.Int.Order.Basic
import Mathlib.Algebra.BigOperators.Group.List.Basic
import Mathlib.Algebra.Order.BigOperators.Group.List
import Mathlib.Tactic.Ring
import Mathlib.Tactic.Linarith

/-!
# Swapping nodes between bins

The body of the balancing loop: the best exchange between the heaviest and the lightest full
bin, and the potential that every exchange lowers.
-/

namespace StorageScaleTest.Bins

variable {Name : Type}

abbrev Node (Name : Type) := Name × Int
abbrev Bin (Name : Type) := List (Node Name)

def binSum (bin : Bin Name) : Int := (bin.map (·.2)).sum

/-- How much closer the sums of two bins are after `nodeA` and `nodeB` have changed places. -/
def swapGain (sumA sumB : Int) (nodeA nodeB : Node Name) : Int :=
  let delta := nodeA.2 - nodeB.2
  (sumA - sumB) - |(sumA - delta) - (sumB + delta)|

def pairs (binA binB : Bin Name) : List ((Node Name × Nat) × (Node Name × Nat)) :=
  binA.zipIdx.flatMap fun a => binB.zipIdx.map fun b => (a, b)

def bestOf {α β : Type} (gain : α → Int) (choice : α → β) (best : Int × Option β) (a : α) :
    Int × Option β :=
  if gain a > best.1 then (gain a, some (choice a)) else best

def findBestSwap (binA binB : Bin Name) (sumA sumB : Int) : Option (Nat × Nat) :=
  ((pairs binA binB).foldl (bestOf (fun p => swapGain sumA sumB p.1.1 p.2.1)
    (fun p => (p.1.2, p.2.2))) (0, none)).2

/-- The assignment that exchanges position `ai` of one bin and `bi` of the other. -/
def exchange (bins : List (Bin Name)) (hi lo ai bi : Nat) : List (Bin Name) :=
  match (bins.getD hi [])[ai]?, (bins.getD lo [])[bi]? with
  | some nodeA, some nodeB =>
    (bins.set hi ((bins.getD hi []).set ai nodeB)).set lo ((bins.getD lo []).set bi nodeA)
  | _, _ => bins

def sumAt (bins : List (Bin Name)) (i : Nat) : Int := binSum (bins.getD i [])

def maxIdx (fullBins : List Nat) (bins : List (Bin Name)) : Option Nat :=
  @List.argmax Nat Int Int.instLinearOrder.toPreorder Int.decLt (sumAt bins) fullBins

def minIdx (fullBins : List Nat) (bins : List (Bin Name)) : Option Nat :=
  @List.argmin Nat Int Int.instLinearOrder.toPreorder Int.decLt (sumAt bins) fullBins

/-- One round of the loop of `partition`, or nothing when the loop ends. -/
def round (fullBins : List Nat) (bins : List (Bin Name)) : Option (List (Bin Name)) :=
  match maxIdx fullBins bins, minIdx fullBins bins with
  | some hi, some lo =>
    if hi = lo then none
    else (findBestSwap (bins.getD hi []) (bins.getD lo []) (sumAt bins hi) (sumAt bins lo)).map
      fun (ai, bi) => exchange bins hi lo ai bi
  | _, _ => none

/-! ## The best exchange -/

section Best

variable {α β : Type} (gain : α → Int) (choice : α → β)

theorem foldl_bestOf (items : List α) (best : Int × Option β) :
    let result := items.foldl (bestOf gain choice) best
    best.1 ≤ result.1 ∧ (∀ a ∈ items, gain a ≤ result.1) ∧
      (result = best ∨ ∃ a ∈ items, best.1 < gain a ∧ result = (gain a, some (choice a))) := by
  induction items generalizing best with
  | nil => simp
  | cons a items ih =>
      obtain ⟨above, covers, origin⟩ := ih (bestOf gain choice best a)
      simp only [List.foldl_cons]
      by_cases better : best.1 < gain a
      · have taken : bestOf gain choice best a = (gain a, some (choice a)) := by
          simp [bestOf, better]
        rw [taken] at above covers origin ⊢
        refine ⟨by omega, ?_, ?_⟩
        · intro b member
          cases member with
          | head => exact above
          | tail _ member => exact covers b member
        · right
          rcases origin with same | ⟨b, member, higher, result⟩
          · exact ⟨a, by simp, better, same⟩
          · exact ⟨b, by simp [member], by omega, result⟩
      · have kept : bestOf gain choice best a = best := by simp [bestOf, better]
        rw [kept] at above covers origin ⊢
        refine ⟨above, ?_, ?_⟩
        · intro b member
          cases member with
          | head => omega
          | tail _ member => exact covers b member
        · rcases origin with same | ⟨b, member, higher, result⟩
          · exact .inl same
          · exact .inr ⟨b, by simp [member], higher, result⟩

end Best

theorem mem_pairs {binA binB : Bin Name} {p : (Node Name × Nat) × (Node Name × Nat)} :
    p ∈ pairs binA binB ↔ binA[p.1.2]? = some p.1.1 ∧ binB[p.2.2]? = some p.2.1 := by
  simp only [pairs, List.mem_flatMap, List.mem_map]
  constructor
  · rintro ⟨a, memberA, b, memberB, rfl⟩
    exact ⟨List.mem_zipIdx_iff_getElem?.mp memberA, List.mem_zipIdx_iff_getElem?.mp memberB⟩
  · rintro ⟨foundA, foundB⟩
    exact ⟨p.1, List.mem_zipIdx_iff_getElem?.mpr foundA, p.2,
      List.mem_zipIdx_iff_getElem?.mpr foundB, rfl⟩

theorem findBestSwap_some {binA binB : Bin Name} {sumA sumB : Int} {ai bi : Nat}
    (found : findBestSwap binA binB sumA sumB = some (ai, bi)) :
    ∃ nodeA nodeB, binA[ai]? = some nodeA ∧ binB[bi]? = some nodeB ∧
      0 < swapGain sumA sumB nodeA nodeB := by
  obtain ⟨_, _, origin⟩ := foldl_bestOf (fun p => swapGain sumA sumB p.1.1 p.2.1)
    (fun p => (p.1.2, p.2.2)) (pairs binA binB) (0, none)
  rcases origin with same | ⟨p, member, positive, result⟩
  · rw [findBestSwap, same] at found
    cases found
  · rw [findBestSwap, result] at found
    cases found
    obtain ⟨foundA, foundB⟩ := mem_pairs.mp member
    exact ⟨p.1.1, p.2.1, foundA, foundB, positive⟩

theorem findBestSwap_none {binA binB : Bin Name} {sumA sumB : Int}
    (nothing : findBestSwap binA binB sumA sumB = none) {nodeA nodeB : Node Name}
    (inA : nodeA ∈ binA) (inB : nodeB ∈ binB) : swapGain sumA sumB nodeA nodeB ≤ 0 := by
  obtain ⟨_, covers, origin⟩ := foldl_bestOf (fun p => swapGain sumA sumB p.1.1 p.2.1)
    (fun p => (p.1.2, p.2.2)) (pairs binA binB) (0, none)
  obtain ⟨ai, foundA⟩ := List.getElem?_of_mem inA
  obtain ⟨bi, foundB⟩ := List.getElem?_of_mem inB
  have bound := covers ((nodeA, ai), (nodeB, bi)) (mem_pairs.mpr ⟨foundA, foundB⟩)
  rcases origin with same | ⟨p, _, _, result⟩
  · rw [same] at bound
    exact bound
  · rw [findBestSwap, result] at nothing
    cases nothing

/-! ## One exchange -/

theorem sum_map_set {α : Type} (f : α → Int) (items : List α) {i : Nat} {a : α}
    (found : items[i]? = some a) (b : α) :
    ((items.set i b).map f).sum = (items.map f).sum - f a + f b := by
  induction items generalizing i with
  | nil => simp at found
  | cons head items ih =>
      cases i with
      | zero =>
          simp only [List.getElem?_cons_zero, Option.some.injEq] at found
          simp only [List.set_cons_zero, List.map_cons, List.sum_cons, found]
          ring
      | succ i =>
          simp only [List.set_cons_succ, List.map_cons, List.sum_cons, ih found]
          ring

structure Exchange (bins : List (Bin Name)) (hi lo ai bi : Nat) where
  binA : Bin Name
  binB : Bin Name
  nodeA : Node Name
  nodeB : Node Name
  apart : hi ≠ lo
  atHi : bins[hi]? = some binA
  atLo : bins[lo]? = some binB
  atA : binA[ai]? = some nodeA
  atB : binB[bi]? = some nodeB

namespace Exchange

variable {bins : List (Bin Name)} {hi lo ai bi : Nat}

theorem exchange_eq (x : Exchange bins hi lo ai bi) : exchange bins hi lo ai bi =
    (bins.set hi (x.binA.set ai x.nodeB)).set lo (x.binB.set bi x.nodeA) := by
  simp only [exchange, List.getD_eq_getElem?_getD, x.atHi, x.atLo, Option.getD_some, x.atA, x.atB]

theorem length_eq (x : Exchange bins hi lo ai bi) :
    (exchange bins hi lo ai bi).length = bins.length := by
  simp only [x.exchange_eq, List.length_set]

theorem getElem?_hi (x : Exchange bins hi lo ai bi) :
    (exchange bins hi lo ai bi)[hi]? = some (x.binA.set ai x.nodeB) := by
  obtain ⟨inside, _⟩ := List.getElem?_eq_some_iff.mp x.atHi
  rw [x.exchange_eq, List.getElem?_set_ne x.apart.symm, List.getElem?_set_self inside]

theorem getElem?_lo (x : Exchange bins hi lo ai bi) :
    (exchange bins hi lo ai bi)[lo]? = some (x.binB.set bi x.nodeA) := by
  obtain ⟨inside, _⟩ := List.getElem?_eq_some_iff.mp x.atLo
  rw [x.exchange_eq, List.getElem?_set_self (by simpa using inside)]

theorem getElem?_other (x : Exchange bins hi lo ai bi) {i : Nat} (notHi : i ≠ hi)
    (notLo : i ≠ lo) :
    (exchange bins hi lo ai bi)[i]? = bins[i]? := by
  rw [x.exchange_eq, List.getElem?_set_ne notLo.symm, List.getElem?_set_ne notHi.symm]

theorem sum_map (x : Exchange bins hi lo ai bi) (f : Bin Name → Int) :
    ((exchange bins hi lo ai bi).map f).sum =
    (bins.map f).sum + (f (x.binA.set ai x.nodeB) - f x.binA) +
      (f (x.binB.set bi x.nodeA) - f x.binB) := by
  have atLo : (bins.set hi (x.binA.set ai x.nodeB))[lo]? = some x.binB := by
    rw [List.getElem?_set_ne x.apart, x.atLo]
  rw [x.exchange_eq, sum_map_set f _ atLo, sum_map_set f _ x.atHi]
  ring

theorem sum_nodes (x : Exchange bins hi lo ai bi) (f : Node Name → Int) :
    ((exchange bins hi lo ai bi).flatten.map f).sum = (bins.flatten.map f).sum := by
  simp only [List.map_flatten, List.sum_flatten, List.map_map]
  rw [x.sum_map]
  simp only [Function.comp_apply, sum_map_set f _ x.atA, sum_map_set f _ x.atB]
  ring

theorem binSum_hi (x : Exchange bins hi lo ai bi) : binSum (x.binA.set ai x.nodeB) =
    binSum x.binA - (x.nodeA.2 - x.nodeB.2) := by
  rw [binSum, sum_map_set _ _ x.atA, binSum]
  ring

theorem binSum_lo (x : Exchange bins hi lo ai bi) : binSum (x.binB.set bi x.nodeA) =
    binSum x.binB + (x.nodeA.2 - x.nodeB.2) := by
  rw [binSum, sum_map_set _ _ x.atB, binSum]
  ring

end Exchange

/-! ## The potential -/

def squares (bins : List (Bin Name)) : Int := (bins.map fun bin => binSum bin ^ 2).sum

def potential (bins : List (Bin Name)) : Nat := (squares bins).toNat

theorem squares_nonneg (bins : List (Bin Name)) : 0 ≤ squares bins := by
  apply List.sum_nonneg
  intro s member
  obtain ⟨bin, _, rfl⟩ := List.mem_map.mp member
  exact sq_nonneg _

theorem gain_pos_iff (sumA sumB : Int) (nodeA nodeB : Node Name) :
    0 < swapGain sumA sumB nodeA nodeB ↔
      0 < nodeA.2 - nodeB.2 ∧ nodeA.2 - nodeB.2 < sumA - sumB := by
  simp only [swapGain]
  constructor
  · intro positive
    have below : |sumA - (nodeA.2 - nodeB.2) - (sumB + (nodeA.2 - nodeB.2))| < sumA - sumB := by
      omega
    rw [abs_lt] at below
    omega
  · intro between
    have below : |sumA - (nodeA.2 - nodeB.2) - (sumB + (nodeA.2 - nodeB.2))| < sumA - sumB := by
      rw [abs_lt]
      omega
    omega

theorem Exchange.squares_lt {bins : List (Bin Name)} {hi lo ai bi : Nat}
    (x : Exchange bins hi lo ai bi) (moves : 0 < x.nodeA.2 - x.nodeB.2)
    (inside : x.nodeA.2 - x.nodeB.2 < binSum x.binA - binSum x.binB) :
    squares (exchange bins hi lo ai bi) < squares bins := by
  rw [squares, x.sum_map, x.binSum_hi, x.binSum_lo, squares]
  nlinarith [mul_pos moves (sub_pos.mpr inside)]

/-! ## One round -/

/-- What one round does: an exchange between the heaviest and the lightest full bin that moves
some of their difference, and less than all of it. -/
structure Round (fullBins : List Nat) (bins after : List (Bin Name)) where
  hi : Nat
  lo : Nat
  ai : Nat
  bi : Nat
  heaviest : maxIdx fullBins bins = some hi
  lightest : minIdx fullBins bins = some lo
  swap : Exchange bins hi lo ai bi
  moves : 0 < swap.nodeA.2 - swap.nodeB.2
  inside : swap.nodeA.2 - swap.nodeB.2 < binSum swap.binA - binSum swap.binB
  result : after = exchange bins hi lo ai bi

theorem getElem?_getD_nil {items : List (Bin Name)} {i k : Nat} {a : Node Name}
    (found : (items.getD i [])[k]? = some a) : items[i]? = some (items.getD i []) := by
  cases entry : items[i]? with
  | none => simp [List.getD_eq_getElem?_getD, entry] at found
  | some bin => simp [List.getD_eq_getElem?_getD, entry]

theorem round_cases {fullBins : List Nat} {bins after : List (Bin Name)}
    (moved : round fullBins bins = some after) : Nonempty (Round fullBins bins after) := by
  cases heaviest : maxIdx fullBins bins with
  | none => simp [round, heaviest] at moved
  | some hi =>
    cases lightest : minIdx fullBins bins with
    | none => simp [round, heaviest, lightest] at moved
    | some lo =>
      by_cases same : hi = lo
      · simp [round, heaviest, lightest, same] at moved
      · simp only [round, heaviest, lightest, same, if_false, Option.map_eq_some_iff] at moved
        obtain ⟨⟨ai, bi⟩, found, result⟩ := moved
        obtain ⟨nodeA, nodeB, atA, atB, positive⟩ := findBestSwap_some found
        obtain ⟨moves, inside⟩ := (gain_pos_iff _ _ nodeA nodeB).mp positive
        exact ⟨{
          hi := hi, lo := lo, ai := ai, bi := bi
          heaviest := heaviest
          lightest := lightest
          swap := {
            binA := bins.getD hi [], binB := bins.getD lo [], nodeA := nodeA, nodeB := nodeB
            apart := same
            atHi := getElem?_getD_nil atA
            atLo := getElem?_getD_nil atB
            atA := atA
            atB := atB }
          moves := moves
          inside := inside
          result := result.symm }⟩

theorem round_lowers (fullBins : List Nat) (bins after : List (Bin Name))
    (moved : round fullBins bins = some after) : potential after < potential bins := by
  obtain ⟨r⟩ := round_cases moved
  have lower := r.swap.squares_lt r.moves r.inside
  rw [← r.result] at lower
  have nonneg := squares_nonneg after
  simp only [potential]
  omega

end StorageScaleTest.Bins
