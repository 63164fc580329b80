import StorageScaleTest.Live.FirstPass

/-!
# Streams in order

A row stream whose intervals are contiguous runs of one RuntimeMS, strictly increasing from run to
run.
-/

namespace StorageScaleTest.Live

variable {Client : Type}

structure Interval (Client : Type) where
  runtimeMs : ℤ
  rows : List (Row Client)
  nonempty : rows ≠ []
  same : ∀ row ∈ rows, row.runtimeMs = runtimeMs

structure Stream (Client : Type) where
  intervals : List (Interval Client)
  increasing : (intervals.map (·.runtimeMs)).Pairwise (· < ·)

def Stream.rows (s : Stream Client) : List (Row Client) := s.intervals.flatMap (·.rows)

/-! ## Every stream of nondecreasing RuntimeMS -/

theorem exists_cons {row : Row Client} {s : Stream Client}
    (first : ∀ later ∈ s.rows, row.runtimeMs ≤ later.runtimeMs) :
    ∃ t : Stream Client, t.rows = row :: s.rows := by
  obtain ⟨intervals, increasing⟩ := s
  cases intervals with
  | nil =>
      exact ⟨⟨[⟨row.runtimeMs, [row], by simp, by simp⟩], by simp⟩, rfl⟩
  | cons head rest =>
      obtain ⟨held, held_mem⟩ := List.exists_mem_of_ne_nil _ head.nonempty
      have le : row.runtimeMs ≤ head.runtimeMs := by
        rw [← head.same held held_mem]
        exact first held (List.mem_flatMap.mpr ⟨head, List.mem_cons_self, held_mem⟩)
      rw [List.map_cons, List.pairwise_cons] at increasing
      by_cases same : row.runtimeMs = head.runtimeMs
      · refine ⟨⟨⟨head.runtimeMs, row :: head.rows, by simp, ?_⟩ :: rest, ?_⟩, rfl⟩
        · intro other member
          rcases List.mem_cons.mp member with rfl | inHead
          · exact same
          · exact head.same other inHead
        · rw [List.map_cons, List.pairwise_cons]
          exact increasing
      · refine ⟨⟨⟨row.runtimeMs, [row], by simp, by simp⟩ :: head :: rest, ?_⟩, rfl⟩
        have lt := lt_of_le_of_ne le same
        rw [List.map_cons, List.pairwise_cons, List.map_cons, List.pairwise_cons]
        refine ⟨?_, increasing⟩
        intro later member
        rcases List.mem_cons.mp member with rfl | inRest
        · exact lt
        · exact lt.trans (increasing.1 later inRest)

theorem exists_stream (rows : List (Row Client))
    (ordered : rows.Pairwise (·.runtimeMs ≤ ·.runtimeMs)) :
    ∃ s : Stream Client, s.rows = rows := by
  induction rows with
  | nil => exact ⟨⟨[], List.Pairwise.nil⟩, rfl⟩
  | cons row rows ih =>
      obtain ⟨first, rest⟩ := List.pairwise_cons.mp ordered
      obtain ⟨s, rfl⟩ := ih rest
      exact exists_cons first

/-! ## Intervals and samples -/

variable [DecidableEq Client]

def Interval.buffer (interval : Interval Client) : IntervalBuffer Client :=
  interval.rows.foldl .addRow
    (.new interval.runtimeMs (interval.rows.head interval.nonempty).isoTimestamp)

def Interval.snapshot (interval : Interval Client) : Snapshot Client := interval.buffer.clientRows

/-- The sample of a client in the `i`-th interval. -/
def Stream.sample (s : Stream Client) (client : Client) (i : Nat) : Option ℤ :=
  s.intervals[i]?.bind fun interval => interval.snapshot.get client

/-- The RuntimeMS of the `i`-th interval. -/
def Stream.runtime (s : Stream Client) (i : Nat) : ℤ := (s.intervals.map (·.runtimeMs)).getD i 0

omit [DecidableEq Client] in
theorem Stream.map_runtime (s : Stream Client) :
    s.intervals.map (·.runtimeMs) = (List.range s.intervals.length).map s.runtime := by
  apply List.ext_getElem
  · rw [List.length_map, List.length_map, List.length_range]
  · intro i inside _
    rw [List.getElem_map, List.getElem_map, List.getElem_range, Stream.runtime, List.getD_eq_getElem?_getD,
      List.getElem?_eq_getElem inside, Option.getD_some, List.getElem_map]

end StorageScaleTest.Live
