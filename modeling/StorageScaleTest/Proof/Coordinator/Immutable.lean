import StorageScaleTest.Proof.Coordinator.Commit

/-!
# Terminal outcomes and signals

Without a signal a coordinator never changes a terminal outcome or lets a signal's code replace the
exit code of a failed cell. With one, exactly the signals that find a published success or the
recorded failure of a cell break this.
-/

namespace StorageScaleTest.Coordinator

open Interruptible Interruptible.Program

/-- The exit code of a failed cell, recorded while no handler had taken over, is not replaced by
that of a signal. -/
def FailureCodeKept (m m' : Machine) : Prop :=
  m.process.trap = true → ∀ code, m.ledger.recordedFailure = some code →
    ∀ code', m'.ledger.summary.bind (·.exitCode) = some code' → code' = code ∨ ¬signalCode code'

def OutcomeImmutable (states : List Machine) : Prop :=
  states.Pairwise fun m m' => OutcomeKept m.ledger m'.ledger ∧ FailureCodeKept m m'

/-- A signal that a coordinator in state `m` survives without breaking what it has published. -/
def Harmless (m : Machine) (signal : Signal) : Prop :=
  m.process.trap = true → m.ledger.runStatus ≠ .success ∧
    ∀ code, m.ledger.recordedFailure = some code →
      (hasChild m = true → code = Signal.term.code) ∧ code = signal.code

variable {a : Attempt} {overwrites recodes : Prop} {m m' : Machine}

/-! ## Moves -/

theorem move_outcomeKept (h : Durable a m) (mv : Move a False recodes m m') :
    OutcomeKept m.ledger m'.ledger := by
  intro terminal
  cases mv with
  | begin ready fresh => simp [fresh, RunStatus.terminal] at terminal
  | succeedRun ready all open_ => exact absurd terminal open_
  | failRun ready stopped evidence kept =>
      cases status : m.ledger.runStatus with
      | success => exact absurd status (kept.resolve_left id)
      | failed => rfl
      | cancelled => exact absurd status h.notCancelled
      | prepared => simp [status, RunStatus.terminal] at terminal
      | running => simp [status, RunStatus.terminal] at terminal
  | _ => rfl

theorem move_failureKept (mv : Move a overwrites False m m') :
    FailureKept m.ledger m'.ledger := by
  cases mv with
  | summary summary cause kept => exact kept.resolve_left id
  | _ => exact fun code eq => ⟨code, eq, .inl rfl⟩

theorem move_trap (mv : Move a overwrites True m m') (trap : m'.process.trap = true) :
    m.process.trap = true := by
  cases mv with
  | process p active trapped arms => exact (arms trap).resolve_right fun h => h trivial
  | _ => exact trap

instance : IsTrans Machine fun m m' => OutcomeKept m.ledger m'.ledger where
  trans _ _ _ first second terminal :=
    (second (by rw [first terminal]; exact terminal)).trans (first terminal)

instance : IsTrans Machine fun m m' => FailureKept m.ledger m'.ledger where
  trans _ _ _ first second code recorded := by
    obtain ⟨code', recorded', kept⟩ := first code recorded
    obtain ⟨code'', recorded'', kept'⟩ := second code' recorded'
    exact ⟨code'', recorded'', kept'.elim (fun eq => eq ▸ kept) .inr⟩

instance : IsTrans Machine fun m m' => m'.process.trap = true → m.process.trap = true where
  trans _ _ _ first second trap := first (second trap)

theorem recordedFailure_code {l : Ledger} {code : Nat} (h : l.recordedFailure = some code) :
    l.summary.bind (·.exitCode) = some code := by
  unfold Ledger.recordedFailure at h
  split at h
  · rename_i eq
    simpa [eq] using h
  · cases h

theorem FailureKept.codeKept (h : FailureKept m.ledger m'.ledger) : FailureCodeKept m m' := by
  intro _ code recorded code' written
  obtain ⟨kept, recorded', same⟩ := h code recorded
  obtain rfl : kept = code' :=
    Option.some.inj ((recordedFailure_code recorded').symm.trans written)
  exact same

/-! ## Runs -/

theorem immutable_of_meets {α : Type} {p : Action α} {Q : α → Machine → Prop}
    (h : Meets (Durable a) (Move a False False) p Q m) : OutcomeImmutable (p.trace m) := by
  have outcome := (h.mono (H := fun m m' => OutcomeKept m.ledger m'.ledger) (fun _ h => h)
    (fun _ _ h _ mv => move_outcomeKept h mv) fun _ _ _ h => h).pairwise
  have failure := (h.mono (H := fun m m' => FailureKept m.ledger m'.ledger) (fun _ h => h)
    (fun _ _ _ _ mv => move_failureKept mv) fun _ _ _ h => h).pairwise
  exact outcome.imp₂ (fun _ _ outcome failure => ⟨outcome, failure.codeKept⟩) failure

theorem mainMeets (a : Attempt) (env : Environment) :
    Meets (Durable a) (Move a False False) (coordinatorMain a env) (fun _ m' => Settled a m')
      .submitted :=
  (coordinatorMain_meets env).weaken fun _ _ _ exited => exited.1

theorem unrecorded_while_trapped {env : Environment} {actions : Nat} {signal : Signal}
    (stopped : ((coordinatorMain a env).cut actions).run .submitted = (none, m))
    (h : Durable a m) (trap : m.process.trap = true)
    (unrecorded : m.ledger.recordedFailure = none) (x : Machine)
    (mem : x ∈ killStates a env (some (actions, signal))) (trapped : x.process.trap = true) :
    x.ledger.recordedFailure = none := by
  have states : killStates a env (some (actions, signal)) = _ := interrupt_trace stopped
  rw [states, List.mem_append, signalHandler_trapped env signal trap] at mem
  rcases mem with before | mem
  · have main := ((mainMeets a env).cut actions).mono
      (H := fun m m' => FailureKept m.ledger m'.ledger) (fun _ h => h)
      (fun _ _ _ _ mv => move_failureKept mv) fun _ _ _ h => h
    have whole := dropLast_trace ((coordinatorMain a env).cut actions) .submitted
    rw [stopped] at whole
    have pairs := main.pairwise
    rw [← whole, List.pairwise_append] at pairs
    by_contra recorded
    obtain ⟨code, eq⟩ := Option.ne_none_iff_exists'.mp recorded
    obtain ⟨code', eq', -⟩ := pairs.2.2 x before m (by simp) code eq
    exact absurd (unrecorded.symm.trans eq') (by simp)
  · rcases List.mem_cons.mp mem with rfl | mem
    · exact unrecorded
    rcases List.mem_cons.mp mem with rfl | mem
    · exact unrecorded
    have untrap : Move a True True m (withoutTrap m) :=
      h.process_move True True { m.process with trap := false } rfl (fun trapped => by cases trapped)
    have moves : Meets (Durable a) (Move a True True) (handleSignal a env signal (hasChild m)) _
        (withoutTrap m) :=
      handleSignal_meets env signal (hasChild m) (h.move untrap) (h.trapped trap) (.inl trivial)
        (.inl trivial)
    have handler := moves.mono (H := fun m m' => m'.process.trap = true → m.process.trap = true)
      (fun _ h => h) (fun _ _ _ _ mv => move_trap mv) fun _ _ _ h => h
    have pairs := handler.pairwise
    obtain ⟨rest, head⟩ := (handleSignal a env signal (hasChild m)).trace_head (withoutTrap m)
    rw [head] at pairs mem
    rcases List.mem_cons.mp mem with rfl | mem
    · cases trapped
    · exact absurd ((List.pairwise_cons.mp pairs).1 x mem trapped) (by simp [withoutTrap,
        withProcess])

theorem immutable_of_harmless {env : Environment} {actions : Nat} {signal : Signal}
    (stopped : ((coordinatorMain a env).cut actions).run .submitted = (none, m))
    (harmless : Harmless m signal) :
    OutcomeImmutable (killStates a env (some (actions, signal))) := by
  have h : Durable a m := by
    have cut := ((mainMeets a env).cut actions).trace _ (run_mem_trace _ _)
    rwa [stopped] at cut
  have same : ∀ m', ((coordinatorMain a env).cut actions).run .submitted = (none, m') → m' = m :=
    fun m' eq => congrArg Prod.snd (eq.symm.trans stopped)
  have main {recodes : Prop} (hmain : Meets (Durable a) (Move a False recodes)
      (coordinatorMain a env) (fun _ m' => Settled a m') .submitted)
      (handler : Meets (Durable a) (Move a False recodes) (signalHandler a env signal)
        (fun _ _ => True) m) :
      Meets (Durable a) (Move a False recodes) (coordinator a env (some (actions, signal)))
        (fun _ _ => True) .submitted :=
    (hmain.weaken fun _ _ _ _ => trivial).interrupt actions fun m' eq _ => same m' eq ▸ handler
  cases trap : m.process.trap with
  | false =>
      exact immutable_of_meets (main (mainMeets a env)
        ((signalHandler_ignored a env signal trap h).weaken fun _ _ _ _ => trivial))
  | true =>
      obtain ⟨unsuccessful, codes⟩ := harmless trap
      cases recorded : m.ledger.recordedFailure with
      | some code =>
          obtain ⟨child, own⟩ := codes code recorded
          refine immutable_of_meets (main (mainMeets a env) ((signalHandler_meets env signal h trap
            (.inr unsuccessful) (.inr ⟨fun has => ?_, ?_⟩)).weaken fun _ _ _ _ => trivial))
          · rw [recorded, child has]
          · rw [recorded, own]
      | none =>
          -- Here the handler may record its own failure, but none was recorded before it.
          have handler : Meets (Durable a) (Move a False True) (signalHandler a env signal) _ m :=
            signalHandler_meets env signal h trap (.inr unsuccessful) (.inl trivial)
          have outcome := ((mainMeets a env).mono
            (H := fun m m' => OutcomeKept m.ledger m'.ledger) (fun _ h => h)
            (fun _ _ h _ mv => move_outcomeKept h mv) (R := fun _ _ => True)
            fun _ _ _ _ => trivial).interrupt actions fun m' eq _ =>
              same m' eq ▸ handler.mono (fun _ h => h)
                (fun _ _ h _ mv => move_outcomeKept h mv) fun _ _ _ _ => trivial
          refine outcome.pairwise.imp_of_mem fun mem _ kept => ⟨kept, fun trapped code eq => ?_⟩
          have none := unrecorded_while_trapped stopped h trap recorded _ mem trapped
          exact absurd (none.symm.trans eq) (by simp)

theorem kept_by_handler {env : Environment} {actions : Nat} {signal : Signal}
    (stopped : ((coordinatorMain a env).cut actions).run .submitted = (none, m))
    (trap : m.process.trap = true)
    (immutable : OutcomeImmutable (killStates a env (some (actions, signal)))) (x : Machine)
    (mem : x ∈ (handleSignal a env signal (hasChild m)).trace (withoutTrap m)) :
    OutcomeKept m.ledger x.ledger ∧ FailureCodeKept m x := by
  have states : killStates a env (some (actions, signal)) = _ := interrupt_trace stopped
  rw [states, signalHandler_trapped env signal trap] at immutable
  have pairs := (List.pairwise_append.mp immutable).2.1
  exact (List.pairwise_cons.mp pairs).1 x (List.mem_cons_of_mem _ mem)

theorem signalCode_code (signal : Signal) : signalCode signal.code := by
  cases signal
  · exact .inr rfl
  · exact .inl rfl

theorem harmless_of_immutable {env : Environment} {actions : Nat} {signal : Signal}
    (stopped : ((coordinatorMain a env).cut actions).run .submitted = (none, m))
    (immutable : OutcomeImmutable (killStates a env (some (actions, signal)))) :
    Harmless m signal := by
  intro trap
  have h : Durable a m := by
    have cut := ((mainMeets a env).cut actions).trace _ (run_mem_trace _ _)
    rwa [stopped] at cut
  have untrap : Move a True True m (withoutTrap m) :=
    h.process_move True True { m.process with trap := false } rfl (fun trapped => by cases trapped)
  have durable := h.move untrap
  have moves : Meets (Durable a) (Move a True True) (handleSignal a env signal (hasChild m)) _
      (withoutTrap m) :=
    handleSignal_meets env signal (hasChild m) durable (h.trapped trap) (.inl trivial)
      (.inl trivial)
  have kept := kept_by_handler stopped trap immutable _ (run_mem_trace _ _)
  have done := moves.run
  refine ⟨fun success => ?_, fun code recorded => ⟨fun child => ?_, ?_⟩⟩
  · have same := kept.1 (by simp [success, RunStatus.terminal])
    rw [done.runStatus, success] at same
    cases same
  · -- The child's own handler publishes TERM's code before the parent goes on.
    have reap := durable.process_move True True { m.process with trap := false, childTrap := false }
      rfl (fun trapped => by cases trapped)
    have first : Meets (Durable a) (Move a True True) (publishSignal a env Signal.term.code) _
        (withProcess m { m.process with trap := false, childTrap := false }) :=
      publishSignal_meets env (durable.move reap) (h.trapped trap) (signal_code_ne_zero .term)
        (.inl trivial) (.inl trivial)
    have mem : ((publishSignal a env Signal.term.code).run
        (withProcess m { m.process with trap := false, childTrap := false })).2 ∈
        (handleSignal a env signal (hasChild m)).trace (withoutTrap m) := by
      rw [child]
      have own := mem_trace_bind (k := fun _ => (publishSignal a env signal.code).bind
        fun _ => Program.done signal.code) (run_mem_trace (publishSignal a env Signal.term.code)
          (withProcess m { m.process with trap := false, childTrap := false }))
      exact List.mem_cons_of_mem _ own
    have between := (kept_by_handler stopped trap immutable _ mem).2 trap code recorded _
      first.run.code
    exact between.elim Eq.symm fun not => absurd (signalCode_code .term) not
  · have last := kept.2 trap code recorded _ done.code
    exact last.elim Eq.symm fun not => absurd (signalCode_code signal) not

theorem outcome_immutable_iff (a : Attempt) (env : Environment) (delivery : Option Delivery) :
    OutcomeImmutable (killStates a env delivery) ↔
      ∀ actions signal, delivery = some (actions, signal) → ∀ m,
        ((coordinatorMain a env).cut actions).run .submitted = (none, m) → Harmless m signal := by
  cases delivery with
  | none =>
      refine ⟨fun _ _ _ eq => (by cases eq), fun _ => ?_⟩
      exact immutable_of_meets (mainMeets a env)
  | some delivery =>
      obtain ⟨actions, signal⟩ := delivery
      constructor
      · rintro immutable actions' signal' eq m stopped
        obtain ⟨rfl, rfl⟩ := Prod.mk.inj (Option.some.inj eq)
        exact harmless_of_immutable stopped immutable
      · intro harmless
        cases stopped : ((coordinatorMain a env).cut actions).run .submitted with
        | mk result m =>
            cases result with
            | none => exact immutable_of_harmless stopped (harmless actions signal rfl m stopped)
            | some rc =>
                have states : killStates a env (some (actions, signal)) = _ :=
                  interrupt_finished stopped
                rw [states]
                exact immutable_of_meets ((mainMeets a env).cut actions)

/-- TERM between the last two writes of a successful run: `run.status` goes from SUCCESS to
FAILED. -/
theorem outcome_replaced_by_term :
    ¬OutcomeImmutable (killStates sampleAttempt (sampleEnvironment 0) (some (72, .term))) := by
  intro immutable
  have kept : ((killStates sampleAttempt (sampleEnvironment 0) (some (72, .term))).map
      (·.ledger.runStatus)).Pairwise fun status status' => status.terminal → status' = status :=
    List.pairwise_map.mpr (immutable.imp fun kept => kept.1)
  exact absurd kept (by decide +kernel)

end StorageScaleTest.Coordinator
