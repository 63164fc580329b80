import Mathlib.Data.Finset.Basic
import Mathlib.Data.Finset.Filter
import Mathlib.Data.Finset.Insert
import Mathlib.Data.Multiset.Filter
import Mathlib.Data.List.Induction

/-!
# Dictionaries

Finite maps up to the order of their keys. A loop over the items of a dictionary that builds
another one is `filterMap`.
-/

namespace StorageScaleTest.Samples

structure Dict (K V : Type) where
  get : K → Option V
  keys : Finset K
  mem_keys : ∀ k, k ∈ keys ↔ (get k).isSome

namespace Dict

variable {K V W : Type}

theorem ext_get {d e : Dict K V} (same : ∀ k, d.get k = e.get k) : d = e := by
  obtain ⟨get, keys, mem⟩ := d
  obtain ⟨get', keys', mem'⟩ := e
  obtain rfl : get = get' := funext same
  obtain rfl : keys = keys' := by
    ext k
    rw [mem, mem']
  rfl

def empty : Dict K V := ⟨fun _ => none, ∅, by simp⟩

@[simp] theorem get_empty (k : K) : (empty : Dict K V).get k = none := rfl

section

variable [DecidableEq K]

def set (d : Dict K V) (k : K) (v : V) : Dict K V where
  get j := if j = k then some v else d.get j
  keys := insert k d.keys
  mem_keys j := by
    by_cases same : j = k
    · simp [same]
    · simp [same, d.mem_keys]

def erase (d : Dict K V) (k : K) : Dict K V where
  get j := if j = k then none else d.get j
  keys := d.keys.filter (· ≠ k)
  mem_keys j := by
    by_cases same : j = k
    · simp [same]
    · simp [same, d.mem_keys]

/-- The entries of `d`, overridden by those of `e`. -/
def update (d e : Dict K V) : Dict K V where
  get k := (e.get k).or (d.get k)
  keys := d.keys ∪ e.keys
  mem_keys k := by
    simp only [Finset.mem_union, d.mem_keys, e.mem_keys, Option.isSome_or, Bool.or_eq_true]
    exact or_comm

theorem get_set (d : Dict K V) (k : K) (v : V) (j : K) :
    (d.set k v).get j = if j = k then some v else d.get j := rfl

theorem get_erase (d : Dict K V) (k j : K) :
    (d.erase k).get j = if j = k then none else d.get j := rfl

@[simp] theorem get_set_self (d : Dict K V) (k : K) (v : V) : (d.set k v).get k = some v :=
  if_pos rfl

theorem get_set_of_ne (d : Dict K V) {k j : K} (v : V) (other : j ≠ k) :
    (d.set k v).get j = d.get j := if_neg other

@[simp] theorem get_update (d e : Dict K V) (k : K) :
    (d.update e).get k = (e.get k).or (d.get k) := rfl

def setAll (d : Dict K V) (entries : List (K × V)) : Dict K V :=
  entries.foldl (fun d entry => d.set entry.1 entry.2) d

theorem setAll_append (d : Dict K V) (entries : List (K × V)) (entry : K × V) :
    d.setAll (entries ++ [entry]) = (d.setAll entries).set entry.1 entry.2 := by
  rw [setAll, List.foldl_append]
  rfl

theorem get_setAll (d : Dict K V) (entries : List (K × V)) (k : K) : (d.setAll entries).get k =
    ((entries.filter (·.1 = k)).getLast?.map (·.2)).or (d.get k) := by
  induction entries using List.reverseRecOn with
  | nil => rfl
  | append_singleton entries entry ih =>
      rw [setAll_append, get_set, List.filter_append]
      by_cases here : entry.1 = k
      · rw [if_pos here.symm, List.filter_cons_of_pos (by simpa using here)]
        simp
      · rw [if_neg (Ne.symm here), ih, List.filter_cons_of_neg (by simpa using here)]
        simp

theorem get_setAll_of_notMem {d : Dict K V} {entries : List (K × V)} {k : K}
    (absent : ∀ v, (k, v) ∉ entries) : (d.setAll entries).get k = d.get k := by
  induction entries using List.reverseRecOn with
  | nil => rfl
  | append_singleton entries entry ih =>
      have other : k ≠ entry.1 := by
        rintro rfl
        exact absent entry.2 (by simp)
      rw [setAll_append, get_set_of_ne _ _ other,
        ih fun v member => absent v (List.mem_append_left _ member)]

theorem get_setAll_of_mem {d : Dict K V} {entries : List (K × V)} {k : K} {v : V}
    (member : (k, v) ∈ entries) (same : ∀ w, (k, w) ∈ entries → w = v) :
    (d.setAll entries).get k = some v := by
  induction entries using List.reverseRecOn with
  | nil => cases member
  | append_singleton entries entry ih =>
      rw [setAll_append, get_set]
      by_cases here : k = entry.1
      · rw [if_pos here]
        obtain rfl := here
        exact congrArg some (same entry.2 (by simp))
      · rw [if_neg here]
        apply ih
        · rcases List.mem_append.mp member with inside | last
          · exact inside
          · rw [List.mem_singleton] at last
            exact absurd (congrArg Prod.fst last) here
        · exact fun w inside => same w (List.mem_append_left _ inside)

theorem mem_of_get_setAll {entries : List (K × V)} {k : K} {v : V}
    (found : (empty.setAll entries).get k = some v) : (k, v) ∈ entries := by
  induction entries using List.reverseRecOn with
  | nil => cases found
  | append_singleton entries entry ih =>
      rw [setAll_append, get_set] at found
      split at found
      · rename_i here
        cases found
        rw [here]
        exact List.mem_append_right _ List.mem_cons_self
      · exact List.mem_append_left _ (ih found)

theorem get_setAll_filter {d e : Dict K V} {k : K} (same : d.get k = e.get k) {p : K → Bool}
    (kept : p k = true) (entries : List (K × V)) :
    (d.setAll (entries.filter fun entry => p entry.1)).get k = (e.setAll entries).get k := by
  induction entries generalizing d e with
  | nil => exact same
  | cons entry entries ih =>
      cases here : p entry.1 with
      | true =>
          rw [List.filter_cons_of_pos (by simpa using here)]
          apply ih
          rw [get_set, get_set, same]
      | false =>
          rw [List.filter_cons_of_neg (by simp [here])]
          apply ih
          have other : k ≠ entry.1 := by
            rintro rfl
            rw [kept] at here
            cases here
          rw [get_set_of_ne e entry.2 other, same]

end

def filterMap (d : Dict K V) (f : K → V → Option W) : Dict K W where
  get k := (d.get k).bind (f k)
  keys := d.keys.filter fun k => ((d.get k).bind (f k)).isSome
  mem_keys k := by
    simp only [Finset.mem_filter, d.mem_keys, and_iff_right_iff_imp, Option.isSome_iff_exists]
    rintro ⟨w, found⟩
    obtain ⟨v, held, _⟩ := Option.bind_eq_some_iff.mp found
    exact ⟨v, held⟩

@[simp] theorem get_filterMap (d : Dict K V) (f : K → V → Option W) (k : K) :
    (d.filterMap f).get k = (d.get k).bind (f k) := rfl

def values (d : Dict K V) : Multiset V := d.keys.val.filterMap d.get

theorem mem_values {d : Dict K V} {v : V} : v ∈ d.values ↔ ∃ k, d.get k = some v := by
  simp only [values, Multiset.mem_filterMap, Finset.mem_val, d.mem_keys]
  constructor
  · rintro ⟨k, _, found⟩
    exact ⟨k, found⟩
  · rintro ⟨k, found⟩
    exact ⟨k, by rw [found]; rfl, found⟩

end Dict

end StorageScaleTest.Samples
