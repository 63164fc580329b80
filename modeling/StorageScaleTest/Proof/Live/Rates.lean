import StorageScaleTest.Proof.Live.Sidecar

/-!
# Agreement of the passes

When the first pass, the selected detail and the sidecar have the same rate of a client in an
interval.
-/

namespace StorageScaleTest.Live

open Samples

variable {Client : Type} [DecidableEq Client]

def recordedRate (rows : List (Row Client)) (client : Client) (i : Nat) : Option ℚ :=
  (analyzeLiveCsv rows).rates[i]?.bind (·.get client)

def collectedRate (rows : List (Row Client)) (selected : List Client) (client : Client) (i : Nat) :
    Option ℚ :=
  ((collectSelectedClientDetail (analyzeLiveCsv rows) selected rows).ratesByClient client)[i]?.join

def sidecarRate (rows : List (Row Client)) (ordered : List Client) (client : Client) (i : Nat) :
    Option ℤ :=
  ((iterIntervalSamples (analyzeLiveCsv rows) ordered rows)[i]?.bind fun line =>
    line.rates[ordered.idxOf client]?).join

def RatesAgree (rows : List (Row Client)) (selected ordered : List Client) (client : Client)
    (i : Nat) : Prop :=
  collectedRate rows selected client i = recordedRate rows client i ∧
    sidecarRate rows ordered client i = bytesPerS (recordedRate rows client i)

variable {s : Stream Client} {selected ordered : List Client} {client : Client}

theorem recordedRate_rows (i : Nat) :
    recordedRate s.rows client i = rateAt s.intervals client i := by
  rw [recordedRate, analyzeLiveCsv_rows, rates_flushed]

theorem doneAt_eq_nil {intervals : List (Interval Client)} {i : Nat}
    (outside : intervals.length ≤ i) : doneAt intervals client i = [] := by
  rw [doneAt, List.getElem?_eq_none outside]
  rfl

theorem collectedRate_rows (chosen : client ∈ selected) (i : Nat) :
    collectedRate s.rows selected client i = firstRate s.intervals client i := by
  rw [collectedRate, collectSelected_rows s chosen, List.getElem?_map]
  by_cases inside : i < s.intervals.length
  · rw [List.getElem?_range inside]
    rfl
  · rw [List.getElem?_eq_none (by simpa using inside), firstRate,
      doneAt_eq_nil (not_lt.mp inside)]
    rfl

theorem sidecarRate_rows (listed : client ∈ ordered) (i : Nat) :
    sidecarRate s.rows ordered client i = writtenRate s.intervals client i := by
  rw [sidecarRate, iterIntervalSamples_rows, List.getElem?_map]
  by_cases inside : i < s.intervals.length
  · rw [List.getElem?_range inside]
    simp only [Option.map_some, Option.bind_some, writtenLine, List.getElem?_map,
      List.getElem?_idxOf listed, Option.join_some]
  · rw [List.getElem?_eq_none (by simpa using inside), writtenRate,
      doneAt_eq_nil (not_lt.mp inside)]
    rfl

theorem deriveRate_eq_none_iff {i : Nat} (inside : i < s.intervals.length) (doneBytes : ℤ) :
    deriveRate (priorAt s.intervals client i) doneBytes
        ((s.intervals.map (·.runtimeMs)).getD i 0) i = none ↔
      ∀ j p, i = j + 1 → sampleIn s.intervals client j = some p → doneBytes < p := by
  cases i with
  | zero => simp [priorAt, lastBefore, deriveRate]
  | succ j =>
      have grows : (s.intervals.map (·.runtimeMs)).getD j 0 <
          (s.intervals.map (·.runtimeMs)).getD (j + 1) 0 := by
        have increasing := List.pairwise_iff_getElem.mp s.increasing j (j + 1)
          (by simpa using Nat.lt_of_succ_lt inside) (by simpa using inside) (Nat.lt_succ_self j)
        rw [List.getD_eq_getElem?_getD, List.getD_eq_getElem?_getD,
          List.getElem?_eq_getElem (by simpa using Nat.lt_of_succ_lt inside),
          List.getElem?_eq_getElem (by simpa using inside)]
        exact increasing
      rw [priorAt_succ]
      cases held : sampleIn s.intervals client j with
      | some p =>
          simp only [Option.map_some, Option.some_or, deriveRate]
          constructor
          · intro absent k q next sample
            obtain rfl : j = k := by omega
            rw [held] at sample
            cases sample
            split at absent
            · next apart => exact absurd rfl apart
            · split at absent
              · omega
              · cases absent
          · intro below
            have lower := below j p rfl held
            rw [if_neg (not_not.mpr rfl), if_pos (by omega)]
      | none =>
          constructor
          · intro _ k q next sample
            obtain rfl : j = k := by omega
            rw [held] at sample
            cases sample
          · intro _
            simp only [Option.map_none, Option.none_or, priorAt]
            cases last : lastBefore (sampleIn s.intervals client) j with
            | none => rfl
            | some p =>
                have before := (lastBefore_eq_some.mp last).1
                simp only [Option.map_some, deriveRate]
                rw [if_pos (by omega)]

/-- The client has at most one row in the interval, or its first and its last row in it are both
below its sample in the interval before, if it has one there. -/
def RepeatsReset (s : Stream Client) (client : Client) (i : Nat) : Prop :=
  (doneAt s.intervals client i).length < 2 ∨
    ∀ j p, i = j + 1 → sampleIn s.intervals client j = some p →
      (∀ first ∈ (doneAt s.intervals client i).head?, first < p) ∧
        ∀ last ∈ (doneAt s.intervals client i).getLast?, last < p

/-- The passes agree on a client in an interval exactly when it has no more than one row there or
its rows do not give a rate. -/
theorem rates_agree_iff (s : Stream Client) (selected ordered : List Client) (client : Client)
    (i : Nat) (chosen : client ∈ selected) (listed : client ∈ ordered) :
    RatesAgree s.rows selected ordered client i ↔ RepeatsReset s client i := by
  rw [RatesAgree, collectedRate_rows chosen, sidecarRate_rows listed, recordedRate_rows]
  rw [rateAt_eq, firstRate, writtenRate, RepeatsReset]
  by_cases inside : i < s.intervals.length
  · cases rows : doneAt s.intervals client i with
    | nil => simp [bytesPerS]
    | cons first rest =>
        cases rest with
        | nil => simp
        | cons second rest =>
            obtain ⟨last, isLast⟩ : ∃ last, (first :: second :: rest).getLast? = some last :=
              ⟨_, List.getLast?_eq_some_getLast (by simp)⟩
            have firstNone := @deriveRate_eq_none_iff _ _ _ client _ inside first
            have lastNone := @deriveRate_eq_none_iff _ _ _ client _ inside last
            simp only [List.head?_cons, isLast, Option.bind_some, List.length_cons,
              Option.mem_some_iff, forall_eq']
            constructor
            · rintro ⟨same, written⟩
              have absent : deriveRate (priorAt s.intervals client i) last
                  ((s.intervals.map (·.runtimeMs)).getD i 0) i = none := by
                rw [bytesPerS, eq_comm, Option.map_eq_none_iff] at written
                exact written
              right
              intro j p next sample
              exact ⟨firstNone.mp (same.trans absent) j p next sample,
                lastNone.mp absent j p next sample⟩
            · rintro (few | below)
              · omega
              · rw [firstNone.mpr fun j p next sample => (below j p next sample).1,
                  lastNone.mpr fun j p next sample => (below j p next sample).2]
                exact ⟨rfl, rfl⟩
  · rw [doneAt_eq_nil (not_lt.mp inside)]
    simp [bytesPerS]

/-! ## Clients with one row in each interval -/

def doneRow (runtimeMs : ℤ) (client : Char) (doneBytes : ℤ) : Row Char :=
  ⟨runtimeMs, "", .client client (some doneBytes)⟩

/-- The second client starts again between its rows. -/
def paced : Stream Char where
  intervals := [⟨1000, [doneRow 1000 'a' 0, doneRow 1000 'b' 5], by decide, by simp [doneRow]⟩,
    ⟨3000, [doneRow 3000 'a' 2097152, doneRow 3000 'b' 2], by decide, by simp [doneRow]⟩]
  increasing := by decide

theorem rates_agree_paced : RatesAgree paced.rows ['a', 'b'] ['b', 'a'] 'a' 1 ∧
    recordedRate paced.rows 'a' 1 = some 1 := by
  have recorded : recordedRate paced.rows 'a' 1 = some 1 := by
    rw [recordedRate_rows]
    decide +kernel
  exact ⟨(rates_agree_iff paced ['a', 'b'] ['b', 'a'] 'a' 1 (by decide) (by decide)).mpr
    (.inl (by decide)), recorded⟩

/-! ## A client with two rows in one interval -/

def repeated : Stream Char where
  intervals := [⟨1000, [doneRow 1000 'a' 0], by decide, by simp [doneRow]⟩,
    ⟨2000, [doneRow 2000 'a' 1048576, doneRow 2000 'a' 2097152], by simp,
      by simp [doneRow]⟩]
  increasing := by decide

/-- The first pass has 2 MiB/s, the selected detail 1 MiB/s and the sidecar nothing. -/
theorem repeated_rates : recordedRate repeated.rows 'a' 1 = some 2 ∧
    collectedRate repeated.rows ['a'] 'a' 1 = some 1 ∧
    sidecarRate repeated.rows ['a'] 'a' 1 = none ∧
    ¬RatesAgree repeated.rows ['a'] ['a'] 'a' 1 := by
  have recorded : recordedRate repeated.rows 'a' 1 = some 2 := by
    rw [recordedRate_rows]
    decide +kernel
  have collected : collectedRate repeated.rows ['a'] 'a' 1 = some 1 := by
    rw [collectedRate_rows (by decide)]
    decide +kernel
  refine ⟨recorded, collected, ?_, ?_⟩
  · rw [sidecarRate_rows (by decide)]
    rfl
  · rintro ⟨same, _⟩
    rw [recorded, collected] at same
    exact absurd same (by decide)

end StorageScaleTest.Live
