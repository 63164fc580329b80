import StorageScaleTest.Report.Pairing

/-!
# What a comparison set compares

The sets of a cluster share its match key, settings and kept dimensions. Whether each of them
compares several values, and alike targets alike, depends on how the cluster falls into chunks.
-/

namespace StorageScaleTest.Report
open Grouping

variable {M O S : Type}

/-! ## Settings -/

def SettingsAgree (a b : Candidate M O S) : Prop :=
  ∀ key v w, a.settings.lookup key = some v → b.settings.lookup key = some w → v = w

theorem mem_of_lookup {α β : Type} [BEq α] [LawfulBEq α] {entries : List (α × β)} {key : α} {value : β}
    (found : entries.lookup key = some value) : key ∈ entries.map Prod.fst := by
  induction entries with
  | nil => exact absurd found (by simp)
  | cons entry rest ih =>
      rw [List.lookup_cons] at found
      split at found
      · rename_i same
        exact List.mem_cons.mpr (.inl (by simpa using same))
      · exact List.mem_cons_of_mem _ (ih found)

theorem compatible_iff (a b : Candidate M O S) : compatible a b = true ↔ SettingsAgree a b := by
  simp only [compatible, List.all_eq_true]
  constructor
  · intro every key v w first second
    have agree := every key (mem_of_lookup first)
    rw [first, second] at agree
    exact of_decide_eq_true agree
  · intro agree key _
    split
    · rename_i v w first second
      exact decide_eq_true (agree key v w first second)
    · rfl

theorem compatible_symm (a b : Candidate M O S) (related : compatible a b = true) :
    compatible b a = true := by
  rw [compatible_iff] at related ⊢
  exact fun key v w first second => (related key w v second first).symm

theorem compatible_self (a : Candidate M O S) : compatible a a = true := by
  rw [compatible_iff]
  intro key v w first second
  rw [first] at second
  exact Option.some.inj second

/-! ## Clusters that are compared -/

theorem several_iff {dimension : Dimension} {cluster : List (Candidate M O S)} :
    several dimension cluster = true ↔
      ∃ a ∈ cluster, ∃ b ∈ cluster, (a.values dimension).key ≠ (b.values dimension).key := by
  let keys := cluster.map fun m => (m.values dimension).key
  have distinct : keys.dedup.Nodup := List.nodup_dedup keys
  have mem (key : List Char) : key ∈ keys.dedup ↔ ∃ m ∈ cluster, (m.values dimension).key = key := by
    rw [List.mem_dedup, List.mem_map]
  have unfolded : several dimension cluster = true ↔ 1 < keys.dedup.length := by
    simp [several, keys]
  rw [unfolded]
  constructor
  · intro long
    match dedup : keys.dedup, distinct, long with
    | first :: second :: _, distinct, _ =>
      obtain ⟨a, inA, eqA⟩ := (mem first).mp (dedup ▸ List.mem_cons_self)
      obtain ⟨b, inB, eqB⟩ := (mem second).mp (dedup ▸ List.mem_cons_of_mem _ List.mem_cons_self)
      refine ⟨a, inA, b, inB, ?_⟩
      rw [eqA, eqB]
      exact List.ne_of_not_mem_cons (List.nodup_cons.mp distinct).1
  · rintro ⟨a, inA, b, inB, differ⟩
    refine lt_of_not_ge fun short => differ ?_
    have first := (mem _).mpr ⟨a, inA, rfl⟩
    have second := (mem _).mpr ⟨b, inB, rfl⟩
    match dedup : keys.dedup, short with
    | [], _ => exact absurd (dedup ▸ first) List.not_mem_nil
    | [key], _ =>
      rw [dedup, List.mem_singleton] at first second
      rw [first, second]

/-- What the members of a cluster have in common, and that they have several values. -/
structure Comparable (dimension : Dimension) (cluster : List (Candidate M O S)) : Prop where
  matchKey : ∀ a ∈ cluster, ∀ b ∈ cluster, a.matchKey = b.matchKey
  settings : ∀ a ∈ cluster, ∀ b ∈ cluster, SettingsAgree a b
  kept : ∀ a ∈ cluster, ∀ b ∈ cluster, ∀ name ∉ dimension :: dimension.implied,
    (a.values name).key = (b.values name).key
  several : ∃ a ∈ cluster, ∃ b ∈ cluster, (a.values dimension).key ≠ (b.values dimension).key

variable [DecidableEq M]

def comparedClusters (found : List (Candidate M O S)) : List (Dimension × List (Candidate M O S)) :=
  (groupBy Candidate.matchKey found).flatMap fun group =>
    if group.2.length > 1 then
      Dimension.all.flatMap fun dimension =>
        (groupBy (keptKey dimension) group.2).flatMap fun partition_ =>
          ((clusters compatible partition_.2).filter (several dimension)).map (dimension, ·)
    else []

theorem comparedClusters_comparable {found : List (Candidate M O S)} {dimension : Dimension}
    {cluster : List (Candidate M O S)} (mem : (dimension, cluster) ∈ comparedClusters found) :
    Comparable dimension cluster := by
  obtain ⟨group, inGroups, mem⟩ := List.mem_flatMap.mp mem
  split at mem
  · obtain ⟨name, -, mem⟩ := List.mem_flatMap.mp mem
    obtain ⟨partition_, inPartitions, mem⟩ := List.mem_flatMap.mp mem
    obtain ⟨cluster', inClusters, eq⟩ := List.mem_map.mp mem
    obtain ⟨rfl, rfl⟩ := Prod.mk.inj eq
    obtain ⟨inClusters, some_⟩ := List.mem_filter.mp inClusters
    have ⟨inside, related⟩ := clusters_related compatible_symm compatible_self partition_.2 _ inClusters
    have matchKey := groupBy_keyed Candidate.matchKey found group inGroups
    have keptKeys := groupBy_keyed (keptKey name) group.2 partition_ inPartitions
    have shared (m : Candidate M O S) (mem : m ∈ cluster') : m.matchKey = group.1 :=
      matchKey m (mem_groupBy inPartitions (inside m mem))
    refine ⟨?_, ?_, ?_, several_iff.mp some_⟩
    · intro a inA b inB
      rw [shared a inA, shared b inB]
    · exact fun a inA b inB => (compatible_iff a b).mp (related a inA b inB)
    · intro a inA b inB other free
      have same : keptKey name a = keptKey name b := by
        rw [keptKeys a (inside a inA), keptKeys b (inside b inB)]
      refine List.map_inj_left.mp same other (List.mem_filter.mpr ⟨?_, by simpa using free⟩)
      cases other <;> simp [Dimension.all]
  · exact absurd mem List.not_mem_nil

variable [LinearOrder O] [LinearOrder S]

theorem automaticSets_eq (found : List (Candidate M O S)) :
    automaticSets found = (comparedClusters found).flatMap fun cell => split cell.2 cell.1 := by
  have filtered (dimension : Dimension) (found : List (List (Candidate M O S))) :
      (found.flatMap fun cluster => if several dimension cluster then split cluster dimension else []) =
        ((found.filter (several dimension)).map (dimension, ·)).flatMap fun cell =>
          split cell.2 cell.1 := by
    rw [List.flatMap_map]
    induction found with
    | nil => rfl
    | cons cluster rest ih =>
        rw [List.flatMap_cons, ih, List.filter_cons]
        split <;> rfl
  rw [automaticSets, comparedClusters, List.flatMap_assoc]
  refine List.flatMap_congr fun group _ => ?_
  obtain ⟨-, members⟩ := group
  by_cases long : members.length > 1
  · simp only [if_pos long, List.flatMap_assoc]
    refine List.flatMap_congr fun dimension _ => ?_
    rw [dimensionSets]
    exact List.flatMap_congr fun partition_ _ => filtered dimension _
  · simp only [if_neg long, List.flatMap_nil]

end StorageScaleTest.Report
