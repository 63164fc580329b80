import Mathlib.Data.List.Perm.Basic

/-!
# Groups, clusters and chunks

Members collected under a key in order of first appearance, greedy clusters of related members,
and runs of one size.
-/

namespace Grouping

variable {α κ : Type}

/-! ## Groups -/

section Groups

variable [DecidableEq κ]

def insert (key : κ) (member : α) : List (κ × List α) → List (κ × List α)
  | [] => [(key, [member])]
  | (other, members) :: rest =>
    if other = key then (other, members ++ [member]) :: rest
    else (other, members) :: insert key member rest

def groupBy (key : α → κ) (found : List α) : List (κ × List α) :=
  found.foldl (fun groups member => insert (key member) member groups) []

def Keyed (key : α → κ) (groups : List (κ × List α)) : Prop :=
  ∀ group ∈ groups, ∀ member ∈ group.2, key member = group.1

theorem Keyed.insert {key : α → κ} {groups : List (κ × List α)} (keyed : Keyed key groups)
    (member : α) : Keyed key (insert (key member) member groups) := by
  induction groups with
  | nil =>
      intro group mem other inside
      rw [List.mem_singleton.mp mem] at inside ⊢
      rw [List.mem_singleton.mp inside]
  | cons first rest ih =>
      have later : Keyed key rest := fun group mem => keyed group (List.mem_cons_of_mem _ mem)
      have here := keyed first List.mem_cons_self
      obtain ⟨other, members⟩ := first
      rw [Grouping.insert]
      split
      · rename_i same
        intro group mem
        rcases List.mem_cons.mp mem with rfl | mem
        · intro m inside
          rcases List.mem_append.mp inside with old | new
          · exact here m old
          · rw [List.mem_singleton.mp new, same]
        · exact later group mem
      · intro group mem
        rcases List.mem_cons.mp mem with rfl | mem
        · exact here
        · exact ih later group mem

theorem groupBy_keyed (key : α → κ) (found : List α) : Keyed key (groupBy key found) := by
  have run (found : List α) (groups : List (κ × List α)) (keyed : Keyed key groups) :
      Keyed key (found.foldl (fun groups m => Grouping.insert (key m) m groups) groups) := by
    induction found generalizing groups with
    | nil => exact keyed
    | cons member found ih => exact ih _ (keyed.insert member)
  exact run found [] fun group mem => absurd mem List.not_mem_nil

theorem mem_insert {key : κ} {member m : α} {groups : List (κ × List α)} {group : κ × List α}
    (mem : group ∈ insert key member groups) (inside : m ∈ group.2) :
    m = member ∨ ∃ old ∈ groups, m ∈ old.2 := by
  induction groups with
  | nil =>
      rw [List.mem_singleton.mp mem] at inside
      exact .inl (List.mem_singleton.mp inside)
  | cons first rest ih =>
      obtain ⟨other, members⟩ := first
      rw [insert] at mem
      split at mem
      · rcases List.mem_cons.mp mem with rfl | mem
        · rcases List.mem_append.mp inside with old | new
          · exact .inr ⟨_, List.mem_cons_self, old⟩
          · exact .inl (List.mem_singleton.mp new)
        · exact .inr ⟨group, List.mem_cons_of_mem _ mem, inside⟩
      · rcases List.mem_cons.mp mem with rfl | mem
        · exact .inr ⟨_, List.mem_cons_self, inside⟩
        · rcases ih mem with eq | ⟨old, there, inside⟩
          · exact .inl eq
          · exact .inr ⟨old, List.mem_cons_of_mem _ there, inside⟩

theorem mem_groupBy {key : α → κ} {found : List α} {group : κ × List α} {m : α}
    (mem : group ∈ groupBy key found) (inside : m ∈ group.2) : m ∈ found := by
  have run (found : List α) (groups : List (κ × List α))
      (mem : group ∈ found.foldl (fun groups m => insert (key m) m groups) groups) :
      m ∈ found ∨ ∃ old ∈ groups, m ∈ old.2 := by
    induction found generalizing groups with
    | nil => exact .inr ⟨group, mem, inside⟩
    | cons member found ih =>
        rcases ih _ mem with later | ⟨old, there, inside⟩
        · exact .inl (List.mem_cons_of_mem _ later)
        · rcases mem_insert there inside with rfl | old
          · exact .inl List.mem_cons_self
          · exact .inr old
  rcases run found [] mem with there | ⟨_, absent, -⟩
  · exact there
  · exact absurd absent List.not_mem_nil

end Groups

/-! ## Clusters -/

section Clusters

variable (related : α → α → Bool)

/-- The first cluster whose members are all related takes the member. -/
def join (member : α) : List (List α) → List (List α)
  | [] => [[member]]
  | cluster :: rest =>
    if cluster.all (related member) then (cluster ++ [member]) :: rest
    else cluster :: join member rest

def clusters (members : List α) : List (List α) :=
  members.foldl (fun found member => join related member found) []

def Related (members : List α) (found : List (List α)) : Prop :=
  ∀ cluster ∈ found, (∀ a ∈ cluster, a ∈ members) ∧
    ∀ a ∈ cluster, ∀ b ∈ cluster, related a b = true

variable {related}

theorem Related.join {members : List α} {found : List (List α)} {member : α}
    (symmetric : ∀ a b, related a b = true → related b a = true) (self : ∀ a, related a a = true)
    (here : member ∈ members) (good : Related related members found) :
    Related related members (join related member found) := by
  induction found with
  | nil =>
      intro cluster mem
      rw [List.mem_singleton.mp mem]
      simp only [List.mem_singleton]
      exact ⟨fun a eq => eq ▸ here, fun a first b second => first ▸ second ▸ self _⟩
  | cons first rest ih =>
      have later : Related related members rest := fun cluster mem =>
        good cluster (List.mem_cons_of_mem _ mem)
      have ⟨inside, pairs⟩ := good first List.mem_cons_self
      rw [Grouping.join]
      split
      · rename_i every
        have every := List.all_eq_true.mp every
        intro cluster mem
        rcases List.mem_cons.mp mem with rfl | mem
        · simp only [List.mem_append, List.mem_singleton]
          constructor
          · rintro a (old | rfl)
            · exact inside a old
            · exact here
          · rintro a (old | rfl) b (old' | rfl)
            · exact pairs a old b old'
            · exact symmetric _ _ (every a old)
            · exact every b old'
            · exact self _
        · exact later cluster mem
      · intro cluster mem
        rcases List.mem_cons.mp mem with rfl | mem
        · exact ⟨inside, pairs⟩
        · exact ih later cluster mem

theorem clusters_related (symmetric : ∀ a b, related a b = true → related b a = true)
    (self : ∀ a, related a a = true) (members : List α) :
    Related related members (clusters related members) := by
  have run (rest : List α) (found : List (List α)) (inside : ∀ a ∈ rest, a ∈ members)
      (good : Related related members found) :
      Related related members (rest.foldl (fun found member => join related member found) found) := by
    induction rest generalizing found with
    | nil => exact good
    | cons member rest ih =>
        exact ih _ (fun a mem => inside a (List.mem_cons_of_mem _ mem))
          (good.join symmetric self (inside member List.mem_cons_self))
  exact run members [] (fun a mem => mem) fun cluster mem => absurd mem List.not_mem_nil

end Clusters

/-! ## Chunks -/

def chunks (size : Nat) (members : List α) : List (List α) :=
  (List.range ((members.length + size - 1) / size)).map fun i =>
    (members.drop (i * size)).take size

variable {size : Nat} {members : List α}

theorem lt_count (pos : 0 < size) (n i : Nat) : i < (n + size - 1) / size ↔ i * size < n := by
  rw [← Nat.add_one_le_iff, Nat.le_div_iff_mul_le pos, Nat.add_mul]
  omega

theorem mem_chunks (pos : 0 < size) {chunk : List α} :
    chunk ∈ chunks size members ↔
      ∃ i, i * size < members.length ∧ chunk = (members.drop (i * size)).take size := by
  simp only [chunks, List.mem_map, List.mem_range, lt_count pos]
  exact exists_congr fun i => and_congr_right fun _ => eq_comm

theorem flatten_chunks (pos : 0 < size) : (chunks size members).flatten = members := by
  have taken (count : Nat) :
      ((List.range count).map fun i => (members.drop (i * size)).take size).flatten =
        members.take (count * size) := by
    induction count with
    | zero => simp
    | succ count ih =>
        rw [List.range_succ, List.map_append, List.flatten_append, ih, Nat.succ_mul, List.take_add]
        simp
  have whole : members.length ≤ (members.length + size - 1) / size * size := by
    have := mt (lt_count pos members.length _).mpr (Nat.lt_irrefl _)
    exact Nat.not_lt.mp this
  rw [chunks, taken, List.take_of_length_le whole]

theorem length_chunk (i : Nat) :
    ((members.drop (i * size)).take size).length = min size (members.length - i * size) := by
  rw [List.length_take, List.length_drop]

theorem mem_chunk (pos : 0 < size) {i : Nat} {m : α} :
    m ∈ (members.drop (i * size)).take size ↔
      ∃ j, j / size = i ∧ members[j]? = some m := by
  have quotient (j : Nat) : j / size = i ↔ i * size ≤ j ∧ j < i * size + size := by
    rw [Nat.div_eq_iff pos]
    omega
  simp only [quotient, List.mem_iff_getElem?, List.getElem?_take, List.getElem?_drop]
  constructor
  · rintro ⟨j, eq⟩
    split at eq
    · exact ⟨i * size + j, by omega, eq⟩
    · exact absurd eq (by simp)
  · rintro ⟨j, ⟨low, high⟩, eq⟩
    refine ⟨j - i * size, ?_⟩
    rw [if_pos (by omega), Nat.add_sub_of_le low]
    exact eq

def Balanced (found : List (List α)) : Prop :=
  ∀ a ∈ found, ∀ b ∈ found, a.length ≤ b.length + 1

theorem balanced_chunks (pos : 0 < size) (fits : size ≤ members.length) :
    Balanced (chunks size members) ↔
      members.length % size = 0 ∨ members.length % size + 1 = size := by
  let n := members.length
  have split : size * (n / size) + n % size = n := Nat.div_add_mod n size
  have below : n % size < size := Nat.mod_lt n pos
  constructor
  · intro balanced
    by_contra uneven
    obtain ⟨rest, short⟩ := not_or.mp uneven
    have last : n / size * size < n := by
      rw [Nat.mul_comm]
      have : n % size ≠ 0 := rest
      omega
    have order := balanced _ ((mem_chunks pos).mpr ⟨0, by omega, rfl⟩) _
      ((mem_chunks pos).mpr ⟨n / size, last, rfl⟩)
    rw [length_chunk, length_chunk, Nat.mul_comm (n / size)] at order
    have : n % size + 1 ≠ size := short
    change min size (n - 0 * size) ≤ min size (n - size * (n / size)) + 1 at order
    change size ≤ n at fits
    omega
  · intro even a first b second
    obtain ⟨i, -, rfl⟩ := (mem_chunks pos).mp first
    obtain ⟨j, inside, rfl⟩ := (mem_chunks pos).mp second
    rw [length_chunk, length_chunk]
    change j * size < n at inside
    change min size (n - i * size) ≤ min size (n - j * size) + 1
    by_cases whole : (j + 1) * size ≤ n
    · rw [Nat.succ_mul] at whole
      omega
    · have quotient : j = n / size := by
        refine (Nat.div_eq_of_lt_le (Nat.le_of_lt inside) ?_).symm
        rw [Nat.succ_mul] at whole ⊢
        omega
      have tail : n - j * size = n % size := by
        rw [quotient, Nat.mul_comm]
        omega
      have rest : n % size = 0 ∨ n % size + 1 = size := even
      omega

end Grouping
