import StorageScaleTest.Proof.Coordinator.Outcome

/-!
# Signals

The handler can start in every durable state. What it may break is said by the two flags of
`Move`: a published success, and the exit code recorded for a cell that had failed before.
-/

namespace StorageScaleTest.Coordinator

open Interruptible Interruptible.Program

variable {a : Attempt} {overwrites recodes : Prop} {m m' : Machine} {id : ExecutionId}

structure Signalled (a : Attempt) (rc : Nat) (m m' : Machine) : Prop where
  runStatus : m'.ledger.runStatus = .failed
  code : m'.ledger.summary.bind (·.exitCode) = some rc
  published : manifestRows a m'.ledger = some m'.ledger.manifest
  recorded : m.ledger.recordedFailure ≠ none → m'.ledger.recordedFailure = some rc

theorem activeRunning_eq_some :
    activeRunning m = some id ↔ m.process.activeId = some id ∧
      m.ledger.status id = some .running := by
  simp [activeRunning, Option.filter_eq_some_iff]

theorem publishSignal_meets (env : Environment) {rc : Nat} (h : Durable a m)
    (begun : m.ledger.runStatus ≠ .prepared) (failure : rc ≠ 0)
    (kept : overwrites ∨ m.ledger.runStatus ≠ .success)
    (recoded : recodes ∨ m.ledger.recordedFailure = some rc) :
    Meets (Durable a) (Move a overwrites recodes) (publishSignal a env rc)
      (fun _ m' => Signalled a rc m m') m := by
  have outcome : ∀ m' m'', (m.ledger.recordedFailure ≠ none → m'.ledger.recordedFailure ≠ none) →
      Outcome a .failed rc m' m'' → Signalled a rc m m'' := fun m' m'' before done =>
    ⟨done.runStatus, done.code, done.published, fun recorded => done.recorded (before recorded)⟩
  refine .look h (.stutter m) ?_
  cases active : activeRunning m with
  | none =>
      have stopped : ∀ id, m.ledger.status id ≠ some .running := fun id running => by
        have some := activeRunning_eq_some.mpr ⟨h.active id running, running⟩
        exact absurd (active.symm.trans some) (by simp)
      refine ignored_meets ((finalizeRun_failure h begun stopped failure kept
        (recoded.imp_right fun recorded code eq => .inl ?_)).weaken ?_)
      · exact Option.some.inj (recorded.symm.trans eq)
      · exact fun _ m'' _ done => outcome m m'' id done.2
  | some id =>
      obtain ⟨hasId, running⟩ := activeRunning_eq_some.mp active
      have unrecorded := h.recordedFailure_running running
      have code : nonzero rc = rc := if_neg failure
      have finish : Meets (InCell a id) (Move a overwrites recodes) _ _ m :=
        finishPrebenchmarkFailure_meets env (InCell.of_running h running) running rc
      refine Meets.bind_of (finish.mono
        (R := fun rc' m => rc' = 0 ∧ InCell a id m ∧ Ended id (nonzero rc) m)
        (fun _ h => h.durable) (fun _ _ _ _ mv => mv) fun _ _ inCell done =>
          ⟨done.1, inCell, done.2⟩) ?_
      rintro rc' m' - ⟨rfl, inCell, ended⟩
      rw [code] at ended
      rw [if_neg (by simp), hasId, ← inCell.active]
      have failed : m'.ledger.status id ≠ some .running := by
        simp [ended.status, failure]
      refine ignored_meets ((finalizeRun_failure inCell.durable (by simp [inCell.begun])
        (inCell.stopped failed) failure (.inr (by simp [inCell.begun]))
        (.inr fun c eq => .inl ?_)).weaken ?_)
      · rw [ended.recorded, if_neg failure] at eq
        exact Option.some.inj eq
      · exact fun _ m'' _ done => outcome m' m'' (fun recorded => absurd unrecorded recorded) done.2

theorem signal_code_ne_zero (signal : Signal) : signal.code ≠ 0 := by
  cases signal <;> simp [Signal.code]

theorem signalHandler_ignored (a : Attempt) (env : Environment) (signal : Signal)
    (untrapped : m.process.trap = false) (h : Durable a m) :
    Meets (Durable a) (Move a overwrites recodes) (signalHandler a env signal)
      (fun _ m' => m' = m) m := by
  refine .look h (.stutter m) ?_
  rw [if_pos (by simp [untrapped])]
  exact ⟨h, rfl⟩

theorem handleSignal_meets (env : Environment) (signal : Signal) (child : Bool) (h : Durable a m)
    (begun : m.ledger.runStatus ≠ .prepared)
    (kept : overwrites ∨ m.ledger.runStatus ≠ .success)
    (recoded : recodes ∨ (child = true → m.ledger.recordedFailure = some Signal.term.code) ∧
      m.ledger.recordedFailure = some signal.code) :
    Meets (Durable a) (Move a overwrites recodes) (handleSignal a env signal child)
      (fun _ m' => Signalled a signal.code m m') m := by
  cases child with
  | false =>
      refine Meets.bind_of (publishSignal_meets env h begun (signal_code_ne_zero signal) kept
        (recoded.imp_right (·.2))) ?_
      exact fun _ m' inLast done => ⟨inLast, done⟩
  | true =>
      have reap := h.process_move overwrites recodes { m.process with childTrap := false } rfl
        (fun trapped => trapped)
      have reaped := h.move reap
      refine .step h reap (Meets.bind_of (publishSignal_meets env reaped begun
        (signal_code_ne_zero .term) kept (recoded.imp_right fun codes => codes.1 rfl)) ?_)
      rintro - m' inLast first
      refine Meets.bind_of (publishSignal_meets env inLast (by simp [first.runStatus])
        (signal_code_ne_zero signal) (.inr (by simp [first.runStatus])) ?_) ?_
      · refine recoded.imp_right fun codes => ?_
        have same : Signal.term.code = signal.code :=
          Option.some.inj ((codes.1 rfl).symm.trans codes.2)
        rw [← same]
        exact first.recorded (by simp [codes.2])
      · rintro - m'' inEnd second
        refine ⟨inEnd, second.runStatus, second.code, second.published, fun recorded => ?_⟩
        exact second.recorded (by simp [first.recorded recorded])

def hasChild (m : Machine) : Bool := m.process.activePid && m.process.childTrap

def withoutTrap (m : Machine) : Machine :=
  withProcess m { m.process with trap := false }

theorem signalHandler_trapped (env : Environment) (signal : Signal)
    (trap : m.process.trap = true) :
    (signalHandler a env signal).trace m =
      m :: m :: (handleSignal a env signal (hasChild m)).trace (withoutTrap m) := by
  show m :: Program.trace (if _ then _ else _) m = _
  rw [if_neg (by simp [trap])]
  rfl

theorem signalHandler_meets (env : Environment) (signal : Signal) (h : Durable a m)
    (trap : m.process.trap = true) (kept : overwrites ∨ m.ledger.runStatus ≠ .success)
    (recoded : recodes ∨ (hasChild m = true →
      m.ledger.recordedFailure = some Signal.term.code) ∧
      m.ledger.recordedFailure = some signal.code) :
    Meets (Durable a) (Move a overwrites recodes) (signalHandler a env signal)
      (fun _ m' => Signalled a signal.code m m') m := by
  have untrap := h.process_move overwrites recodes { m.process with trap := false } rfl
    (fun trapped => by cases trapped)
  refine .look h (.stutter m) ?_
  rw [if_neg (by simp [trap])]
  refine .step h untrap ((handleSignal_meets env signal _ (h.move untrap) (h.trapped trap) kept
    recoded).weaken ?_)
  exact fun _ m' _ done => ⟨done.runStatus, done.code, done.published, done.recorded⟩

/-! ## Whole runs -/

/-- Every state in which a coordinator can be killed is durable, and every action is a move. -/
theorem coordinator_meets (a : Attempt) (env : Environment) (delivery : Option Delivery) :
    Meets (Durable a) (fun m m' => ∃ recodes, Move a True recodes m m')
      (coordinator a env delivery) (fun _ _ => True) .submitted := by
  have main : Meets (Durable a) (fun m m' => ∃ recodes, Move a True recodes m m')
      (coordinatorMain a env) (fun _ _ => True) .submitted :=
    (coordinatorMain_meets env).mono (fun _ h => h) (fun _ _ _ _ mv => ⟨False, mv⟩)
      fun _ _ _ _ => trivial
  cases delivery with
  | none => exact main
  | some delivery =>
      obtain ⟨actions, signal⟩ := delivery
      refine main.interrupt actions fun m' _ h => ?_
      have handler : Meets (Durable a) (Move a True True) (signalHandler a env signal)
          (fun _ _ => True) m' := by
        cases trap : m'.process.trap with
        | false => exact (signalHandler_ignored a env signal trap h).weaken fun _ _ _ _ => trivial
        | true => exact (signalHandler_meets env signal h trap (.inl trivial)
            (.inl trivial)).weaken fun _ _ _ _ => trivial
      exact handler.mono (fun _ h => h) (fun _ _ _ _ mv => ⟨True, mv⟩) fun _ _ _ h => h

theorem killStates_durable {env : Environment} {delivery : Option Delivery}
    (h : m ∈ killStates a env delivery) : Durable a m :=
  (coordinator_meets a env delivery).trace m h

end StorageScaleTest.Coordinator
