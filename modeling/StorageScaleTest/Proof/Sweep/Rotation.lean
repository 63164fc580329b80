import Mathlib.Data.Nat.ModEq
import Mathlib.Data.List.Rotate
import StorageScaleTest.Proof.Sweep.Ledger

/-!
# Hosts of the read phase

The read phase rotates the hosts of the write phase by the sequence number of its execution.
-/

namespace StorageScaleTest.Sweep

open Shell

variable {fuel : Nat} {sweep : Specification} {ledger : List Execution} {e : Execution}
  {hosts : List Word} {s : Nat}

structure Hosts where
  names : List Word
  several : 2 ≤ names.length
  distinct : names.Nodup
  valid : ∀ name ∈ names, name ≠ [] ∧ ',' ∉ name ∧ '\n' ∉ name

namespace Hosts

def csv (hosts : Hosts) : Word := join ',' hosts.names

theorem ne_nil (hosts : Hosts) : hosts.names ≠ [] := by
  intro none
  have several := hosts.several
  simp [none] at several

theorem fields_csv (hosts : Hosts) : fields ',' hosts.csv = hosts.names :=
  fields_join (by decide) hosts.ne_nil (fun name mem => (hosts.valid name mem).1)
    fun name mem => (hosts.valid name mem).2

theorem csv_ne_nil (hosts : Hosts) : hosts.csv ≠ [] := by
  intro none
  have parts := hosts.fields_csv
  rw [none] at parts
  have several := hosts.several
  rw [← parts] at several
  simp [fields, firstLine] at several

end Hosts

theorem rotated_eq_rotate (arr : List Word) (positions : Nat) :
    (List.range arr.length).map (fun i => arr.getD ((i + positions) % arr.length) []) =
      arr.rotate positions := by
  apply List.ext_getElem
  · simp
  · intro i left right
    have lt : i < arr.length := by simpa using left
    have bound : (i + positions) % arr.length < arr.length := Nat.mod_lt _ (by omega)
    simp [List.getElem_rotate, List.getElem?_eq_getElem bound]

theorem rotateCsvList_csv (hosts : Hosts) (positions : Nat) :
    fields ',' (rotateCsvList hosts.csv positions) = hosts.names.rotate positions := by
  have several := hosts.several
  unfold rotateCsvList
  rw [if_neg hosts.csv_ne_nil, hosts.fields_csv]
  simp only
  rw [if_neg (by omega)]
  split
  · rename_i zero
    rw [hosts.fields_csv, ← List.rotate_mod, zero, List.rotate_zero]
  · rw [rotated_eq_rotate, List.rotate_mod]
    have perm := List.rotate_perm hosts.names positions
    refine fields_join (by decide) ?_ (fun name mem => (hosts.valid name (perm.mem_iff.mp mem)).1)
      fun name mem => (hosts.valid name (perm.mem_iff.mp mem)).2
    intro none
    exact hosts.ne_nil (List.nil_perm.mp (none ▸ perm))

theorem rotate_moves_iff {α : Type} {l : List α} (distinct : l.Nodup) (nonempty : l ≠ [])
    (n : Nat) : (∀ i, i < l.length → (l.rotate n)[i]? ≠ l[i]?) ↔ ¬l.length ∣ n := by
  have positive : 0 < l.length := List.length_pos_iff.mpr nonempty
  constructor
  · rintro moves ⟨k, rfl⟩
    exact moves 0 positive (by rw [List.rotate_length_mul])
  · intro other i lt same
    rw [List.getElem?_rotate lt, List.getElem?_eq_getElem (Nat.mod_lt _ positive),
      List.getElem?_eq_getElem lt, Option.some.injEq] at same
    have index := (distinct.getElem_inj_iff).mp same
    apply other
    have shifted : (i + n) % l.length = (i + 0) % l.length := by
      rw [index, Nat.add_zero, Nat.mod_eq_of_lt lt]
    have cancelled : n % l.length = 0 % l.length := Nat.ModEq.add_left_cancel' i shifted
    exact Nat.dvd_of_mod_eq_zero (by simpa using cancelled)

/-- The hosts of the read phase are those of the write phase, none in its own position. -/
def ReadsElsewhere (hosts : Hosts) (rotateSteps : Nat) : Prop :=
  ∃ read, (readHosts hosts.names.length hosts.csv rotateSteps).map (fields ',') = some read ∧
    read.Perm hosts.names ∧ ∀ i, i < hosts.names.length → read[i]? ≠ hosts.names[i]?

theorem readsElsewhere_iff (hosts : Hosts) (rotateSteps : Nat) :
    ReadsElsewhere hosts rotateSteps ↔ ¬hosts.names.length ∣ 1 + rotateSteps := by
  have several := hosts.several
  have read : (readHosts hosts.names.length hosts.csv rotateSteps).map (fields ',') =
      some (hosts.names.rotate (1 + rotateSteps)) := by
    rw [readHosts, if_pos (by omega), Option.map_some, rotateCsvList_csv]
  unfold ReadsElsewhere
  simp only [read, Option.some.injEq, exists_eq_left',
    rotate_moves_iff hosts.distinct hosts.ne_nil]
  exact and_iff_right (List.rotate_perm _ _)

/-- The execution with sequence number `s` reads elsewhere unless `s` is a multiple of the number
of its hosts. -/
theorem reified_reads_elsewhere (reified : reifyAll fuel sweep = some ledger)
    (member : ledger[s - 1]? = some e) (positive : 0 < s) (hosts : Hosts) :
    e.id = pad 4 s ∧ (ReadsElsewhere hosts e.rotateSteps ↔ ¬hosts.names.length ∣ s) := by
  obtain ⟨counts, -, -, rfl⟩ := reifyAll_eq_some.mp reified
  obtain ⟨cell, -, rfl⟩ : ∃ cell, (cells (mapfile counts) sweep)[s - 1]? = some cell ∧
      e = ⟨pad 4 s, cell, s - 1⟩ := by
    simp only [numbered, List.getElem?_mapIdx, Option.map_eq_some_iff] at member
    obtain ⟨cell, at_, rfl⟩ := member
    exact ⟨cell, at_, by simp [Nat.add_sub_cancel' positive]⟩
  rw [readsElsewhere_iff, Nat.add_sub_cancel' positive]
  exact ⟨rfl, Iff.rfl⟩

/-! ## A sweep of two cells on two hosts -/

def sampleSweep : Specification :=
  ⟨"2".toList, ["4K".toList], ["1".toList, "2".toList], ["1".toList]⟩

def sampleHosts : Hosts where
  names := ["a".toList, "b".toList]
  several := by decide
  distinct := by decide
  valid := by decide

theorem reified_reads_elsewhere_sample : ("0001".toList = pad 4 1 ∧
    (ReadsElsewhere sampleHosts 0 ↔ ¬sampleHosts.names.length ∣ 1)) :=
  @reified_reads_elsewhere 1 sampleSweep _
    ⟨"0001".toList, ⟨"2".toList, "4K".toList, "1".toList, "1".toList⟩, 0⟩ 1 rfl rfl (by decide)
    sampleHosts

/-- The second of two cells on two hosts reads from the hosts that wrote. -/
theorem reified_reads_in_place : ∃ ledger e, reifyAll 1 sampleSweep = some ledger ∧
    ledger[1]? = some e ∧ e.id = pad 4 2 ∧ ¬ReadsElsewhere sampleHosts e.rotateSteps ∧
    readHosts 2 sampleHosts.csv e.rotateSteps = some sampleHosts.csv := by
  refine ⟨_, _, rfl, rfl, by decide, ?_, by decide⟩
  rw [readsElsewhere_iff]
  decide

end StorageScaleTest.Sweep
