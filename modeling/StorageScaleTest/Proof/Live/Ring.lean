import StorageScaleTest.Live.Ring
import StorageScaleTest.Samples.Stream

/-!
# The bytes of a window

What the ring remembers of each client's samples, and that it suffices for every window no longer
than its depth.
-/

namespace StorageScaleTest.Live

open Samples

variable {Client : Type} [DecidableEq Client] {depth : Nat} {snapshots : Nat → Snapshot Client}

def samplesOf (snapshots : Nat → Snapshot Client) (client : Client) (i : Nat) : Option ℤ :=
  (snapshots i).get client

/-! ## What the ring remembers -/

theorem depth_ringAfter (n : Nat) : (ringAfter depth snapshots n).depth = depth := by
  induction n with
  | zero => rfl
  | succ n ih => exact ih

theorem lastDone_ringAfter (n : Nat) (client : Client) :
    (ringAfter depth snapshots n).lastDone.get client =
      (lastBefore (samplesOf snapshots client) n).map (·.2) := by
  induction n with
  | zero => rfl
  | succ n ih =>
      simp only [ringAfter, SnapshotRing.add, Dict.get_update, ih, lastBefore]
      cases here : (snapshots n).get client with
      | none => simp [samplesOf, here]
      | some v => simp [samplesOf, here]

theorem resetAt_ringAfter (n : Nat) (client : Client) :
    (ringAfter depth snapshots n).resetAt.get client =
      (lastReset (samplesOf snapshots client) n).map (fun r : Nat => (r : ℤ)) := by
  induction n with
  | zero => rfl
  | succ n ih =>
      simp only [ringAfter, SnapshotRing.add, Dict.get_update, Dict.get_filterMap, ih,
        lastDone_ringAfter, lastReset]
      cases here : (snapshots n).get client with
      | none =>
          have calm : resetsAt (samplesOf snapshots client) n = false := by
            simp [resetsAt, samplesOf, here]
          simp [calm]
      | some v =>
          cases last : lastBefore (samplesOf snapshots client) n with
          | none =>
              have calm : resetsAt (samplesOf snapshots client) n = false := by
                simp [resetsAt, samplesOf, here, last]
              simp [calm]
          | some p =>
              have reset : resetsAt (samplesOf snapshots client) n = decide (v < p.2) := by
                simp [resetsAt, samplesOf, here, last]
              by_cases lower : v < p.2
              · simp [reset, lower]
              · simp [reset, lower]

/-- The ring holds the last `depth + 1` snapshots. -/
theorem snapshots_ringAfter (n i : Nat) :
    (ringAfter depth snapshots n).snapshots.get i =
      if i < n ∧ n ≤ i + depth + 1 then some (snapshots i) else none := by
  induction n with
  | zero => simp [ringAfter, SnapshotRing.new]
  | succ n ih =>
      simp only [ringAfter, SnapshotRing.add, Dict.get_erase, Dict.get_set, depth_ringAfter, ih]
      by_cases evicted : (i : ℤ) = n - depth - 1
      · rw [if_pos evicted, if_neg (by omega)]
      · rw [if_neg evicted]
        by_cases here : i = n
        · subst here
          rw [if_pos rfl, if_pos (by omega)]
        · rw [if_neg (by exact_mod_cast here)]
          split_ifs <;> first | rfl | omega

/-! ## Windows -/

theorem reset_after_iff (n b : Nat) (client : Client) :
    ((ringAfter depth snapshots n).resetAt.keys ≠ ∅ ∧
      (b : ℤ) < ((ringAfter depth snapshots n).resetAt.get client).getD (-1)) ↔
    ∃ r, b < r ∧ r < n ∧ resetsAt (samplesOf snapshots client) r = true := by
  rw [← lastReset_after_iff, resetAt_ringAfter]
  cases last : lastReset (samplesOf snapshots client) n with
  | none =>
      simp only [Option.map_none, Option.getD_none, reduceCtorEq, false_and, exists_false, iff_false]
      omega
  | some r =>
      have held : (ringAfter depth snapshots n).resetAt.keys ≠ ∅ := by
        intro none
        have member := ((ringAfter depth snapshots n).resetAt.mem_keys client).mpr (by
          rw [resetAt_ringAfter, last]
          rfl)
        rw [none] at member
        exact absurd member (Finset.notMem_empty client)
      simp [held]

theorem get_windowDeltas_iff {t b : Nat} (le : b ≤ t) (client : Client) (bytes : ℤ) :
    (windowDeltas (snapshots t) (snapshots b) (ringAfter depth snapshots (t + 1)).resetAt b).get
      client = some bytes ↔
    ∃ first last, samplesOf snapshots client b = some first ∧
      samplesOf snapshots client t = some last ∧
      NeverDecreases (samplesOf snapshots client) b t ∧ bytes = last - first := by
  simp only [windowDeltas, Dict.get_filterMap, ← samplesOf.eq_1 snapshots client]
  cases stop : samplesOf snapshots client t with
  | none => simp
  | some last =>
    cases start : samplesOf snapshots client b with
    | none => simp
    | some first =>
        have calm := neverDecreases_iff (b := t) start
        have seen := @reset_after_iff _ _ depth snapshots (t + 1) b client
        simp only [Option.bind_some, Option.some.injEq]
        by_cases resets : ∃ r, b < r ∧ r < t + 1 ∧ resetsAt (samplesOf snapshots client) r = true
        · have never : ¬NeverDecreases (samplesOf snapshots client) b t := by
            intro never
            obtain ⟨r, after, within, reset⟩ := resets
            rw [calm.mp never r after (by omega)] at reset
            cases reset
          simp [seen.mpr resets, never]
        · have never : NeverDecreases (samplesOf snapshots client) b t := by
            apply calm.mpr
            intro r after within
            by_contra reset
            exact resets ⟨r, after, by omega, Bool.eq_true_of_not_eq_false reset⟩
          have grows := le_of_neverDecreases never le start stop
          rw [if_neg (not_lt.mpr grows), if_neg (mt seen.mp resets), Option.some.injEq]
          constructor
          · rintro rfl
            exact ⟨first, last, rfl, rfl, never, rfl⟩
          · rintro ⟨_, _, rfl, rfl, _, rfl⟩
            rfl

/-- Every window no longer than the ring's depth finds its baseline and has the exact bytes of
each client that has both samples and was not reset between them. -/
theorem deltas_exact (depth : Nat) (snapshots : Nat → Snapshot Client) (t L : Nat)
    (fits : L ≤ depth) (inside : L ≤ t) :
    (ringAfter depth snapshots (t + 1)).snapshots.get ((t - L : Nat) : ℤ) =
      some (snapshots (t - L)) ∧
    ∃ window, (ringAfter depth snapshots (t + 1)).deltas t (t - L) none = some (some window) ∧
      ∀ client bytes, window.get client = some bytes ↔
        ∃ first last, (snapshots (t - L)).get client = some first ∧
          (snapshots t).get client = some last ∧
          NeverDecreases (fun i => (snapshots i).get client) (t - L) t ∧
          bytes = last - first := by
  have begin_ : ((t : ℤ) - L) = ((t - L : Nat) : ℤ) := by omega
  have base : (ringAfter depth snapshots (t + 1)).snapshots.get ((t - L : Nat) : ℤ) =
      some (snapshots (t - L)) := by
    rw [snapshots_ringAfter, if_pos (by omega)]
  have here : (ringAfter depth snapshots (t + 1)).snapshots.get (t : ℤ) = some (snapshots t) := by
    rw [snapshots_ringAfter, if_pos (by omega)]
  refine ⟨base, windowDeltas (snapshots t) (snapshots (t - L))
    (ringAfter depth snapshots (t + 1)).resetAt (t - L : Nat), ?_, ?_⟩
  · rw [begin_]
    simp only [SnapshotRing.deltas, SnapshotRing.baseline, Int.natCast_nonneg, if_true, base, here,
      Option.map_some]
  · intro client bytes
    exact get_windowDeltas_iff (Nat.sub_le t L) client bytes

/-- A client that gains ten bytes in every interval. -/
def steadyGain (i : Nat) : Snapshot Char := Dict.empty.set 'a' (10 * i)

theorem deltas_exact_sample : ∃ window,
    (ringAfter 2 steadyGain 4).deltas 3 (3 - 2) none = some (some window) ∧
      window.get 'a' = some 20 := by
  obtain ⟨_, window, found, exact_⟩ := deltas_exact 2 steadyGain 3 2 (by decide) (by decide)
  refine ⟨window, found, (exact_ 'a' 20).mpr ⟨10, 30, rfl, rfl, ?_, by decide⟩⟩
  intro i j u v _ before _ held here _
  simp only [steadyGain, Dict.get_set_self, Option.some.injEq] at held here
  omega

end StorageScaleTest.Live
