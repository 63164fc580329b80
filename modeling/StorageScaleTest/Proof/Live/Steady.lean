import StorageScaleTest.Proof.Live.Snapshots

/-!
# The second pass

What the pass holds after each interval: its ring, the last samples, the two bounds of the steady
window and the recorded windows.
-/

namespace StorageScaleTest.Live

open Samples

variable {Client : Type} [DecidableEq Client] {settings : SteadySettings} {runtimes : List ℤ}
  {snapshots : Nat → Snapshot Client}

/-! ## Last samples and resets -/

def seenAfter (runtimes : List ℤ) (snapshots : Nat → Snapshot Client) :
    Nat → Dict Client (ℤ × ℤ)
  | 0 => .empty
  | n + 1 => (seenAfter runtimes snapshots n).update ((snapshots n).filterMap fun _ doneBytes =>
      some (doneBytes, runtimes.getD n 0))

theorem get_seenAfter (n : Nat) (client : Client) :
    (seenAfter runtimes snapshots n).get client =
      (lastBefore (samplesOf snapshots client) n).map fun last =>
        (last.2, runtimes.getD last.1 0) := by
  induction n with
  | zero => rfl
  | succ n ih =>
      simp only [seenAfter, Dict.get_update, Dict.get_filterMap, ih, lastBefore]
      cases here : (snapshots n).get client with
      | none => simp [samplesOf, here]
      | some doneBytes => simp [samplesOf, here]

def resetAfter (snapshots : Nat → Snapshot Client) (depth start n : Nat) : Finset Client :=
  (ringAfter depth snapshots n).resetAt.keys.filter fun client =>
    ((ringAfter depth snapshots n).resetAt.get client).any ((start : ℤ) < ·)

theorem mem_resetAfter {depth start n : Nat} {client : Client} :
    client ∈ resetAfter snapshots depth start n ↔
      ∃ r, start < r ∧ r < n ∧ resetsAt (samplesOf snapshots client) r = true := by
  rw [← lastReset_after_iff, resetAfter, Finset.mem_filter, Dict.mem_keys, resetAt_ringAfter]
  cases lastReset (samplesOf snapshots client) n with
  | none => simp
  | some r => simp

/-! ## One window -/

theorem resetAt_congr (depth other n : Nat) :
    (ringAfter depth snapshots n).resetAt = (ringAfter other snapshots n).resetAt := by
  apply Dict.ext_get
  intro client
  rw [resetAt_ringAfter, resetAt_ringAfter]

/-- The bytes of the window of `length` intervals that ends at `t`. -/
def windowAt (snapshots : Nat → Snapshot Client) (length t : Nat) : Dict Client ℤ :=
  windowDeltas (snapshots t) (snapshots (t - length)) (ringAfter 0 snapshots (t + 1)).resetAt
    (t - length : Nat)

theorem deltas_ringAfter {depth length : Nat} (fits : length ≤ depth) (t : Nat) :
    (ringAfter depth snapshots (t + 1)).deltas t (t - length) none =
      some (if length ≤ t then some (windowAt snapshots length t) else none) := by
  by_cases inside : length ≤ t
  · have begin_ : ((t : ℤ) - length) = ((t - length : Nat) : ℤ) := by omega
    have base : (ringAfter depth snapshots (t + 1)).snapshots.get ((t - length : Nat) : ℤ) =
        some (snapshots (t - length)) := by
      rw [snapshots_ringAfter, if_pos (by omega)]
    have here : (ringAfter depth snapshots (t + 1)).snapshots.get (t : ℤ) =
        some (snapshots t) := by
      rw [snapshots_ringAfter, if_pos (by omega)]
    rw [if_pos inside, begin_, windowAt, resetAt_congr 0 depth]
    simp only [SnapshotRing.deltas, SnapshotRing.baseline, Int.natCast_nonneg, if_true, base, here,
      Option.map_some]
  · have before : ¬(0 : ℤ) ≤ t - length := by omega
    rw [if_neg inside]
    simp only [SnapshotRing.deltas, SnapshotRing.baseline, if_neg before]

theorem get_windowAt_congr {other : Nat → Snapshot Client} {client : Client}
    (same : samplesOf snapshots client = samplesOf other client) (length t : Nat) :
    (windowAt snapshots length t).get client = (windowAt other length t).get client := by
  apply Option.ext
  intro bytes
  rw [windowAt, windowAt, get_windowDeltas_iff (Nat.sub_le t length),
    get_windowDeltas_iff (Nat.sub_le t length), same]

/-! ## Recording the windows of an interval -/

theorem lengthIntervals_le_depth (label : WindowLabel) :
    settings.lengthIntervals label ≤ settings.depth := by
  cases label <;> simp [SteadySettings.depth]

def pointAt (settings : SteadySettings) (runtimes : List ℤ) (snapshots : Nat → Snapshot Client)
    (label : WindowLabel) (t : Nat) : WindowPoint :=
  windowPoint settings runtimes (settings.lengthIntervals label) t
    (windowAt snapshots (settings.lengthIntervals label) t)

def noted (settings : SteadySettings) (runtimes : List ℤ) (snapshots : Nat → Snapshot Client)
    (t : Nat) (label : WindowLabel) (pass : SteadyPass Client) : SteadyPass Client :=
  if settings.lengthIntervals label ≤ t then
    pass.record settings runtimes label t (windowAt snapshots (settings.lengthIntervals label) t)
  else pass

theorem recordWindow_eq {pass : SteadyPass Client} {t : Nat}
    (ring : pass.ring = ringAfter settings.depth snapshots (t + 1)) (label : WindowLabel) :
    pass.recordWindow settings runtimes t label =
      some (noted settings runtimes snapshots t label pass) := by
  rw [SteadyPass.recordWindow, ring, deltas_ringAfter (lengthIntervals_le_depth label), noted]
  split <;> rfl

section

variable (t : Nat) (label : WindowLabel) (pass : SteadyPass Client)

@[simp] theorem ring_noted : (noted settings runtimes snapshots t label pass).ring = pass.ring := by
  unfold noted
  split <;> rfl

@[simp] theorem lastSeen_noted :
    (noted settings runtimes snapshots t label pass).lastSeen = pass.lastSeen := by
  unfold noted
  split <;> rfl

@[simp] theorem atStart_noted :
    (noted settings runtimes snapshots t label pass).atStart = pass.atStart := by
  unfold noted
  split <;> rfl

@[simp] theorem atEnd_noted :
    (noted settings runtimes snapshots t label pass).atEnd = pass.atEnd := by
  unfold noted
  split <;> rfl

@[simp] theorem steadyResets_noted :
    (noted settings runtimes snapshots t label pass).steadyResets = pass.steadyResets := by
  unfold noted
  split <;> rfl

end

def notedAll (settings : SteadySettings) (runtimes : List ℤ) (snapshots : Nat → Snapshot Client)
    (t : Nat) (pass : SteadyPass Client) : SteadyPass Client :=
  noted settings runtimes snapshots t .thirtySeconds
    (noted settings runtimes snapshots t .fiveSeconds
      (noted settings runtimes snapshots t .interval pass))

theorem complete_eq {pass : SteadyPass Client} {t : Nat}
    (ring : pass.ring = ringAfter settings.depth snapshots t) :
    pass.complete settings runtimes t (snapshots t) =
      some (notedAll settings runtimes snapshots t
        (((pass.captureWindow settings (t - 1)).addSnapshot runtimes t (snapshots t)).captureWindow
          settings t)) := by
  have captured : ∀ (pass : SteadyPass Client) (completed : ℤ),
      (pass.captureWindow settings completed).ring = pass.ring := by
    intro pass completed
    unfold SteadyPass.captureWindow
    split <;> rfl
  have added : ((((pass.captureWindow settings (t - 1)).addSnapshot runtimes t
      (snapshots t)).captureWindow settings t)).ring = ringAfter settings.depth snapshots (t + 1) := by
    rw [captured, SteadyPass.addSnapshot, captured, ring]
    rfl
  simp only [SteadyPass.complete, List.foldlM_cons, List.foldlM_nil]
  rw [recordWindow_eq added]
  simp only [Option.bind_eq_bind, Option.bind_some]
  rw [recordWindow_eq (by simpa using added)]
  simp only [Option.bind_some]
  rw [recordWindow_eq (by simpa using added)]
  rfl

/-! ## The invariant of the pass -/

/-- What the pass holds after `n` intervals. -/
structure Follows (settings : SteadySettings) (runtimes : List ℤ)
    (snapshots : Nat → Snapshot Client) (n : Nat) (pass : SteadyPass Client) : Prop where
  ring : pass.ring = ringAfter settings.depth snapshots n
  lastSeen : pass.lastSeen = seenAfter runtimes snapshots n
  atStart : ∀ window, settings.window = some window → pass.atStart =
    if window.startInterval < n then some (seenAfter runtimes snapshots (window.startInterval + 1))
    else none
  atEnd : ∀ window, settings.window = some window → pass.atEnd =
    if window.endInterval < n then some (seenAfter runtimes snapshots (window.endInterval + 1))
    else none
  steadyResets : ∀ window, settings.window = some window → window.endInterval < n →
    pass.steadyResets =
      resetAfter snapshots settings.depth window.startInterval (window.endInterval + 1)

namespace Follows

variable {pass : SteadyPass Client} {n : Nat}

theorem new (clients : Dict Client ClientSummary) :
    Follows settings runtimes snapshots 0 (.new settings clients) :=
  ⟨rfl, rfl, fun _ _ => by simp [SteadyPass.new], fun _ _ => by simp [SteadyPass.new],
    fun _ _ before => absurd before (Nat.not_lt_zero _)⟩

theorem captureWindow_before (follows : Follows settings runtimes snapshots n pass) :
    pass.captureWindow settings (n - 1) = pass := by
  unfold SteadyPass.captureWindow
  split
  · rfl
  · rename_i window held
    have start := follows.atStart window held
    have stop := follows.atEnd window held
    have startHeld : ¬(pass.atStart = none ∧ (window.startInterval : ℤ) ≤ n - 1) := by
      rintro ⟨none, le⟩
      rw [start, if_pos (by omega)] at none
      cases none
    have stopHeld : ¬(pass.atEnd = none ∧ (window.endInterval : ℤ) ≤ n - 1) := by
      rintro ⟨none, le⟩
      rw [stop, if_pos (by omega)] at none
      cases none
    simp only [SteadyPass.captureBounds, if_neg startHeld, if_neg stopHeld]

theorem step (follows : Follows settings runtimes snapshots n pass) :
    Follows settings runtimes snapshots (n + 1)
      ((pass.addSnapshot runtimes n (snapshots n)).captureWindow settings n) := by
  have ring : (pass.addSnapshot runtimes n (snapshots n)).ring =
      ringAfter settings.depth snapshots (n + 1) := by
    rw [SteadyPass.addSnapshot, follows.ring]
    rfl
  have seen : (pass.addSnapshot runtimes n (snapshots n)).lastSeen =
      seenAfter runtimes snapshots (n + 1) := by
    rw [SteadyPass.addSnapshot, follows.lastSeen]
    rfl
  cases held : settings.window with
  | none =>
      simp only [SteadyPass.captureWindow, held]
      refine ⟨ring, seen, ?_, ?_, ?_⟩ <;> simp [held]
  | some window =>
      have start := follows.atStart window held
      have stop := follows.atEnd window held
      simp only [SteadyPass.captureWindow, held, SteadyPass.captureBounds]
      refine ⟨ring, seen, ?_, ?_, ?_⟩
      · intro window' same
        cases held.symm.trans same
        simp only [seen]
        rw [SteadyPass.addSnapshot, start]
        by_cases before : window.startInterval < n
        · rw [if_pos before, if_neg (by simp), if_pos (by omega)]
        · rw [if_neg before]
          by_cases here : window.startInterval = n
          · rw [if_pos ⟨rfl, by omega⟩, if_pos (by omega), here]
          · rw [if_neg (by omega), if_neg (by omega)]
      · intro window' same
        cases held.symm.trans same
        simp only [seen]
        rw [SteadyPass.addSnapshot, stop]
        by_cases before : window.endInterval < n
        · rw [if_pos before, if_neg (by simp), if_pos (by omega)]
        · rw [if_neg before]
          by_cases here : window.endInterval = n
          · rw [if_pos ⟨rfl, by omega⟩, if_pos (by omega), here]
          · rw [if_neg (by omega), if_neg (by omega)]
      · intro window' same within
        cases held.symm.trans same
        simp only [ring]
        rw [SteadyPass.addSnapshot, stop]
        by_cases before : window.endInterval < n
        · rw [if_pos before, if_neg (by simp)]
          exact follows.steadyResets window held before
        · rw [if_neg before, if_pos ⟨rfl, by omega⟩]
          have here : window.endInterval = n := by omega
          rw [here]
          rfl

theorem noted (follows : Follows settings runtimes snapshots n pass) (t : Nat)
    (label : WindowLabel) :
    Follows settings runtimes snapshots n (noted settings runtimes snapshots t label pass) :=
  ⟨by simpa using follows.ring, by simpa using follows.lastSeen, by simpa using follows.atStart,
    by simpa using follows.atEnd, by simpa using follows.steadyResets⟩

end Follows

def passAfter (settings : SteadySettings) (clients : Dict Client ClientSummary)
    (runtimes : List ℤ) (snapshots : Nat → Snapshot Client) : Nat → SteadyPass Client
  | 0 => .new settings clients
  | n + 1 => notedAll settings runtimes snapshots n
      (((passAfter settings clients runtimes snapshots n).addSnapshot runtimes n
        (snapshots n)).captureWindow settings n)

theorem follows_passAfter (clients : Dict Client ClientSummary) (n : Nat) :
    Follows settings runtimes snapshots n (passAfter settings clients runtimes snapshots n) := by
  induction n with
  | zero => exact .new clients
  | succ n ih => exact ((ih.step.noted n .interval).noted n .fiveSeconds).noted n .thirtySeconds

theorem foldlM_complete (clients : Dict Client ClientSummary) (n : Nat) :
    ((List.range n).map fun i => (i, snapshots i)).foldlM
      (fun pass entry => SteadyPass.complete pass settings runtimes entry.1 entry.2)
      (.new settings clients) = some (passAfter settings clients runtimes snapshots n) := by
  induction n with
  | zero => rfl
  | succ n ih =>
      have follows : Follows settings runtimes snapshots n
        (passAfter settings clients runtimes snapshots n) := follows_passAfter clients n
      rw [List.range_succ, List.map_append, List.foldlM_append, ih]
      simp only [List.map_cons, List.map_nil, List.foldlM_cons, List.foldlM_nil,
        Option.bind_eq_bind, Option.bind_some, Option.pure_def]
      rw [complete_eq follows.ring, follows.captureWindow_before]
      rfl

theorem steadyPass_eq {rows : List (Row Client)} (ordered : InOrder rows) :
    steadyPass settings (analyzeLiveCsv rows) rows =
      some (passAfter settings (analyzeLiveCsv rows).clients (analyzeLiveCsv rows).intervalTimes
        (snapshotOf (samplesRead (analyzeLiveCsv rows) rows))
        (analyzeLiveCsv rows).intervalTimes.length) := by
  rw [steadyPass, iterIntervalSnapshots_none ordered]
  exact foldlM_complete _ _

end StorageScaleTest.Live
