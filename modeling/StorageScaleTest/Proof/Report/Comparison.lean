import StorageScaleTest.Proof.Report.Pairing

/-!
# Comparison sets that compare one thing

When every chunk of a cluster is a comparison of its own.
-/

namespace StorageScaleTest.Report
open Grouping

/-! ## Sizes of chunks -/

theorem chunkSize_bounds {n : Nat} (some_ : 0 < n) :
    0 < chunkSize n ∧ chunkSize n ≤ maxSeries ∧ chunkSize n ≤ n := by
  let parts := (n + maxSeries - 1) / maxSeries
  have series : 0 < maxSeries := by decide
  have one : 1 ≤ parts := (Nat.le_div_iff_mul_le series).mpr (by omega)
  have covers : n ≤ maxSeries * parts := by
    have below := Nat.div_add_mod (n + maxSeries - 1) maxSeries
    have rest := Nat.mod_lt (n + maxSeries - 1) series
    change maxSeries * parts + _ = _ at below
    omega
  have upper (bound : Nat) (fits : n ≤ bound * parts) : (n + parts - 1) / parts ≤ bound := by
    refine Nat.le_of_lt_succ ((Nat.div_lt_iff_lt_mul one).mpr ?_)
    rw [Nat.succ_mul]
    omega
  refine ⟨(Nat.le_div_iff_mul_le one).mpr (by omega), upper maxSeries covers, upper n ?_⟩
  exact Nat.le_mul_of_pos_right n one

variable {M O S : Type} [LinearOrder O] [LinearOrder S] {dimension : Dimension}
  {cluster : List (Candidate M O S)}

theorem inOrder_perm (dimension : Dimension) (cluster : List (Candidate M O S)) :
    (inOrder dimension cluster).Perm cluster := List.perm_insertionSort _ _

theorem inOrder_pairwise (dimension : Dimension) (cluster : List (Candidate M O S)) :
    (inOrder dimension cluster).Pairwise fun a b =>
      memberOrder dimension a ≤ memberOrder dimension b :=
  have : Std.Total fun a b : Candidate M O S => memberOrder dimension a ≤ memberOrder dimension b :=
    ⟨fun _ _ => le_total _ _⟩
  have : IsTrans (Candidate M O S) fun a b => memberOrder dimension a ≤ memberOrder dimension b :=
    ⟨fun _ _ _ => le_trans⟩
  List.pairwise_insertionSort _ cluster

/-! ## The sets of a cluster -/

theorem split_members (cluster : List (Candidate M O S)) (dimension : Dimension) :
    (split cluster dimension).map CompareSet.members =
      chunks (chunkSize cluster.length) (inOrder dimension cluster) := by
  have zipped {α : Type} (found : List α) (f : α × Nat → CompareSet M O S)
      (g : α → List (Candidate M O S)) (same : ∀ pair, (f pair).members = g pair.1) :
      ((found.zipIdx 1).map f).map CompareSet.members = found.map g := by
    rw [List.map_map, ← List.zipIdx_map_fst 1 found, List.map_map]
    simp only [List.zipIdx_map_fst]
    exact List.map_congr_left fun pair _ => same pair
  rw [split, (inOrder_perm dimension cluster).length_eq]
  exact (zipped _ _ id fun _ => rfl).trans (List.map_id _)

theorem split_dimension {set : CompareSet M O S} (mem : set ∈ split cluster dimension) :
    set.dimension = dimension := by
  obtain ⟨_, -, rfl⟩ := List.mem_map.mp mem
  rfl

theorem mem_split (some_ : 0 < cluster.length) {set : CompareSet M O S}
    (mem : set ∈ split cluster dimension) :
    ∃ i, i * chunkSize cluster.length < cluster.length ∧ ∀ m, m ∈ set.members ↔
      ∃ j, j / chunkSize cluster.length = i ∧ (inOrder dimension cluster)[j]? = some m := by
  have pos := (chunkSize_bounds some_).1
  have chunk := List.mem_map_of_mem (f := CompareSet.members) mem
  rw [split_members] at chunk
  obtain ⟨i, inside, eq⟩ := (mem_chunks pos).mp chunk
  rw [(inOrder_perm dimension cluster).length_eq] at inside
  exact ⟨i, inside, fun m => by rw [eq, mem_chunk pos]⟩

theorem exists_split (some_ : 0 < cluster.length) {i : Nat} (inside : i < cluster.length) :
    ∃ set ∈ split cluster dimension, ∀ m, m ∈ set.members ↔ ∃ j,
      j / chunkSize cluster.length = i / chunkSize cluster.length ∧
        (inOrder dimension cluster)[j]? = some m := by
  have pos := (chunkSize_bounds some_).1
  let size := chunkSize cluster.length
  have chunk : ((inOrder dimension cluster).drop (i / size * size)).take size ∈
      (split cluster dimension).map CompareSet.members := by
    rw [split_members]
    refine (mem_chunks pos).mpr ⟨i / size, ?_, rfl⟩
    rw [(inOrder_perm dimension cluster).length_eq]
    exact (Nat.div_mul_le_self i size).trans_lt inside
  obtain ⟨set, mem, eq⟩ := List.mem_map.mp chunk
  exact ⟨set, mem, fun m => by rw [eq, mem_chunk pos]⟩

/-! ## One thing -/

def TargetsAlike (a b : Candidate M O S) : Prop :=
  (a.values .target).key = (b.values .target).key →
    (a.values .testDir).key = (b.values .testDir).key ∧
      (a.values .readFrom).key = (b.values .readFrom).key

structure ComparesOneThing (set : CompareSet M O S) : Prop where
  two : 2 ≤ set.members.length
  few : set.members.length ≤ maxSeries
  comparable : Comparable set.dimension set.members
  targets : set.dimension = .target → ∀ a ∈ set.members, ∀ b ∈ set.members, TargetsAlike a b

/-- Sets that part a cluster in the order of its values, in sizes that differ by one at most. -/
structure Parted (dimension : Dimension) (cluster : List (Candidate M O S))
    (sets : List (CompareSet M O S)) : Prop where
  perm : (sets.flatMap CompareSet.members).Perm cluster
  ordered : (sets.flatMap CompareSet.members).Pairwise fun a b =>
    memberOrder dimension a ≤ memberOrder dimension b
  balanced : Balanced (sets.map CompareSet.members)

/-- Chunks of a cluster that come out even: the last one lacks at most one member, no value fills a
chunk alone, and no chunk of targets holds one target in two places. -/
structure EvenChunks (dimension : Dimension) (cluster : List (Candidate M O S)) : Prop where
  sizes : cluster.length % chunkSize cluster.length = 0 ∨
    cluster.length % chunkSize cluster.length + 1 = chunkSize cluster.length
  values : ∀ i a, (inOrder dimension cluster)[i]? = some a → ∃ j b,
    j / chunkSize cluster.length = i / chunkSize cluster.length ∧
      (inOrder dimension cluster)[j]? = some b ∧ (b.values dimension).key ≠ (a.values dimension).key
  targets : dimension = .target → ∀ i j a b,
    i / chunkSize cluster.length = j / chunkSize cluster.length →
      (inOrder dimension cluster)[i]? = some a → (inOrder dimension cluster)[j]? = some b →
        TargetsAlike a b

theorem two_le_length {α : Type} {members : List α} {a b : α} (first : a ∈ members)
    (second : b ∈ members) (differ : a ≠ b) : 2 ≤ members.length := by
  match members, first, second with
  | [m], first, second =>
    rw [List.mem_singleton.mp first, List.mem_singleton.mp second] at differ
    exact absurd rfl differ
  | _ :: _ :: _, _, _ => simp

theorem split_parted (some_ : 0 < cluster.length) :
    Parted dimension cluster (split cluster dimension) ↔
      cluster.length % chunkSize cluster.length = 0 ∨
        cluster.length % chunkSize cluster.length + 1 = chunkSize cluster.length := by
  obtain ⟨pos, -, fits⟩ := chunkSize_bounds some_
  have length := (inOrder_perm dimension cluster).length_eq
  have whole : (split cluster dimension).flatMap CompareSet.members = inOrder dimension cluster := by
    rw [List.flatMap_def, split_members, flatten_chunks pos]
  have even := @balanced_chunks _ _ (inOrder dimension cluster) pos (fits.trans length.ge)
  rw [length] at even
  constructor
  · intro parted
    have balanced := parted.balanced
    rw [split_members] at balanced
    exact even.mp balanced
  · intro sizes
    refine ⟨?_, ?_, ?_⟩
    · rw [whole]
      exact inOrder_perm dimension cluster
    · rw [whole]
      exact inOrder_pairwise dimension cluster
    · rw [split_members]
      exact even.mpr sizes

theorem evenChunks_iff (comparable : Comparable dimension cluster) :
    ((∀ set ∈ split cluster dimension, ComparesOneThing set) ∧
        Parted dimension cluster (split cluster dimension)) ↔ EvenChunks dimension cluster := by
  have some_ : 0 < cluster.length := by
    obtain ⟨a, mem, -⟩ := comparable.several
    exact List.length_pos_of_mem mem
  have length := (inOrder_perm dimension cluster).length_eq
  have inside {i : Nat} {a : Candidate M O S} (at_ : (inOrder dimension cluster)[i]? = some a) :
      i < cluster.length := length ▸ (List.getElem?_eq_some_iff.mp at_).1
  rw [split_parted some_]
  constructor
  · rintro ⟨every, sizes⟩
    refine ⟨sizes, ?_, ?_⟩
    · intro i a at_
      obtain ⟨set, mem, members⟩ := (exists_split some_ (inside at_) :
        ∃ set ∈ split cluster dimension, _)
      obtain ⟨b, inB, c, inC, differ⟩ := (every set mem).comparable.several
      rw [split_dimension mem] at differ
      obtain ⟨j, sameJ, atJ⟩ := (members b).mp inB
      obtain ⟨k, sameK, atK⟩ := (members c).mp inC
      by_cases eq : (b.values dimension).key = (a.values dimension).key
      · exact ⟨k, c, sameK, atK, fun eq' => differ (eq.trans eq'.symm)⟩
      · exact ⟨j, b, sameJ, atJ, eq⟩
    · intro target i j a b same atI atJ
      obtain ⟨set, mem, members⟩ := (exists_split some_ (inside atJ) :
        ∃ set ∈ split cluster dimension, _)
      refine (every set mem).targets ((split_dimension mem).trans target) a ?_ b ?_
      · exact (members a).mpr ⟨i, same, atI⟩
      · exact (members b).mpr ⟨j, rfl, atJ⟩
  · rintro ⟨sizes, values, targets⟩
    refine ⟨fun set mem => ?_, sizes⟩
    obtain ⟨pos, few, -⟩ := chunkSize_bounds some_
    obtain ⟨i, start, members⟩ := mem_split some_ mem
    have subset (m : Candidate M O S) (inSet : m ∈ set.members) : m ∈ cluster := by
      obtain ⟨j, -, at_⟩ := (members m).mp inSet
      exact (inOrder_perm dimension cluster).mem_iff.mp (List.mem_of_getElem? at_)
    obtain ⟨a, at_⟩ : ∃ a, (inOrder dimension cluster)[i * chunkSize cluster.length]? = some a :=
      ⟨_, List.getElem?_eq_getElem (length.symm ▸ start)⟩
    have quotient := Nat.mul_div_cancel i pos
    obtain ⟨j, b, same, atJ, differ⟩ := values _ a at_
    have inA := (members a).mpr ⟨_, quotient, at_⟩
    have inB := (members b).mpr ⟨j, same.trans quotient, atJ⟩
    have chunk := List.mem_map_of_mem (f := CompareSet.members) mem
    rw [split_members] at chunk
    obtain ⟨k, -, eq⟩ := (mem_chunks pos).mp chunk
    refine ⟨two_le_length inA inB fun eq => differ (eq ▸ rfl), ?_, ?_, ?_⟩
    · rw [eq, length_chunk]
      exact (Nat.min_le_left _ _).trans few
    · rw [split_dimension mem]
      exact ⟨fun a inA b inB => comparable.matchKey a (subset a inA) b (subset b inB),
        fun a inA b inB => comparable.settings a (subset a inA) b (subset b inB),
        fun a inA b inB => comparable.kept a (subset a inA) b (subset b inB),
        b, inB, a, inA, differ⟩
    · intro target a inA b inB
      obtain ⟨j, sameJ, atJ⟩ := (members a).mp inA
      obtain ⟨k, sameK, atK⟩ := (members b).mp inB
      exact targets ((split_dimension mem).symm.trans target) j k a b (sameJ.trans sameK.symm) atJ atK

/-! ## All candidates -/

/-- Every set compares one thing, and the sets of every cluster part it evenly, exactly where the
chunks of all clusters come out even. -/
theorem automatic_sets_compare_one_thing [DecidableEq M] (found : List (Candidate M O S)) :
    automaticSets found = ((comparedClusters found).flatMap fun cell => split cell.2 cell.1) ∧
    (((∀ set ∈ automaticSets found, ComparesOneThing set) ∧
        ∀ cell ∈ comparedClusters found, Parted cell.1 cell.2 (split cell.2 cell.1)) ↔
      ∀ cell ∈ comparedClusters found, EvenChunks cell.1 cell.2) := by
  refine ⟨automaticSets_eq found, ?_⟩
  have cells (cell : Dimension × List (Candidate M O S)) (mem : cell ∈ comparedClusters found) :=
    evenChunks_iff (comparedClusters_comparable (show (cell.1, cell.2) ∈ _ from mem))
  rw [automaticSets_eq]
  constructor
  · rintro ⟨every, parted⟩ cell mem
    exact (cells cell mem).mp ⟨fun set inside => every set (List.mem_flatMap.mpr ⟨cell, mem, inside⟩),
      parted cell mem⟩
  · intro even
    constructor
    · intro set mem
      obtain ⟨cell, inCells, inside⟩ := List.mem_flatMap.mp mem
      exact ((cells cell inCells).mpr (even cell inCells)).1 set inside
    · exact fun cell mem => ((cells cell mem).mpr (even cell mem)).2

/-! ## Sets that do not -/

def numbered (dimension : Dimension) (keys : List Nat) : List (Candidate Unit Nat Nat) :=
  keys.zipIdx.map fun (key, i) =>
    { matchKey := ()
      values := fun name => if name = dimension then ⟨Nat.toDigits 10 key, key⟩ else ⟨[], 0⟩
      settings := []
      sortKey := i }

def onTarget (target testDir : Nat) : Candidate Unit Nat Nat where
  matchKey := ()
  values
    | .target => ⟨Nat.toDigits 10 target, target⟩
    | .testDir => ⟨Nat.toDigits 10 testDir, testDir⟩
    | _ => ⟨[], 0⟩
  settings := []
  sortKey := testDir

def keysOf (dimension : Dimension) (sets : List (CompareSet Unit Nat Nat)) :
    List (List (List Char)) :=
  sets.map fun set => set.members.map fun m => (m.values dimension).key

/-- Two directories on one target, nine candidates with one value, and 25 candidates. -/
theorem automatic_sets_uneven :
    keysOf .target (automaticSets [onTarget 1 3, onTarget 1 4, onTarget 2 3]) =
        [[['1'], ['1'], ['2']], [['1'], ['1']]] ∧
      keysOf .testDir (automaticSets [onTarget 1 3, onTarget 1 4, onTarget 2 3]) =
        [[['3'], ['4'], ['3']], [['3'], ['4']]] ∧
      keysOf .ioMode (automaticSets (numbered .ioMode [1, 1, 1, 1, 1, 1, 1, 1, 1, 2])) =
        [[['1'], ['1'], ['1'], ['1'], ['1']], [['1'], ['1'], ['1'], ['1'], ['2']]] ∧
      (automaticSets (numbered .fileSize (List.range 25))).map (fun set => set.members.length) =
        [7, 7, 7, 4] := by
  decide +kernel

end StorageScaleTest.Report
