import StorageScaleTest.Proof.Coordinator.Recovery

/-!
# The progress of cells

Through a coordinator that is killed anywhere and the recovery after it, cells only advance, and
the run's outcome says whether all of them succeeded.
-/

namespace StorageScaleTest.Coordinator

open Interruptible Interruptible.Program

variable {a : Attempt} {op : Invocation} {m m' : Machine} {id : ExecutionId}

theorem killedAfter_consistent (a : Attempt) (env : Environment) (delivery : Option Delivery)
    (actions : Nat) : Durable a (killedAfter a env delivery actions) :=
  killStates_durable mem_trace_of_cut

theorem recoverLost_meets (h : Consistent a m.ledger) :
    Recovers a .recoverLost (recoverLost a) (fun _ _ => True) m := by
  cases terminal : m.ledger.runStatus.terminal with
  | true => exact (recoverLost_terminal h terminal).weaken fun _ _ _ _ => trivial
  | false => exact (recoverLost_nonterminal h terminal).weaken fun _ _ _ _ => trivial

/-- Everything a coordinator killed after `actions` and a recovery started then go through. -/
def history (a : Attempt) (env : Environment) (delivery : Option Delivery) (actions : Nat) :
    List Machine :=
  ((coordinator a env delivery).cut actions).trace .submitted ++
    (recoverLost a).trace (killedAfter a env delivery actions).restart

/-- The cells of a ledger in the order of their ids: what precedes a failed one has succeeded, what
follows it is pending, and it is the only one. -/
def FailureOrdered (a : Attempt) (l : Ledger) : Prop :=
  ∀ id, l.status id = some .failed →
    (∀ i ∈ a.executions, i < id → l.status i = some .success) ∧
    (∀ j ∈ a.executions, id < j → l.status j = some .pending) ∧
    ∀ other, l.status other = some .failed → other = id

theorem Consistent.failureOrdered {l : Ledger} (h : Consistent a l) : FailureOrdered a l := by
  intro id failed
  obtain ⟨-, before, after⟩ := h.failed_shape failed
  exact ⟨before, after, fun other failed' => h.failed_unique failed failed'⟩

theorem RecoveryMove.pending_kept (mv : RecoveryMove a op m m')
    (pending : m.ledger.status id = some .pending) : m'.ledger.status id = some .pending := by
  cases mv with
  | create other mem missing =>
      rw [setStatus_apply, if_neg]
      · exact pending
      · rintro rfl
        simp [missing] at pending
  | lose other running =>
      rw [setStatus_apply, if_neg]
      · exact pending
      · rintro rfl
        simp [running] at pending
  | _ => exact pending

theorem recovery_pending_kept (h : Consistent a m.ledger)
    (pending : m.ledger.status id = some .pending) :
    ∀ m' ∈ (recoverLost a).trace m.restart, m'.ledger.status id = some .pending := by
  have start : Consistent a m.restart.ledger := h
  have kept : IsTrans Machine fun m m' =>
      m.ledger.status id = some .pending → m'.ledger.status id = some .pending :=
    ⟨fun _ _ _ first second now => second (first now)⟩
  have moves := ((recoverLost_meets start).mono (H := fun m m' =>
    m.ledger.status id = some .pending → m'.ledger.status id = some .pending) (fun _ h => h)
    (fun _ _ _ _ mv pending => mv.pending_kept pending) fun _ _ _ h => h).pairwise
  obtain ⟨rest, head⟩ := (recoverLost a).trace_head m.restart
  rw [head] at moves ⊢
  intro m' mem
  rcases List.mem_cons.mp mem with rfl | mem
  · exact pending
  · exact (List.pairwise_cons.mp moves).1 m' mem pending

theorem history_steps (a : Attempt) (env : Environment) (delivery : Option Delivery)
    (actions : Nat) : (history a env delivery actions).IsChain CellStep := by
  have durable := killedAfter_consistent a env delivery actions
  have start : Consistent a (killedAfter a env delivery actions).restart.ledger :=
    durable.consistent
  have run := ((coordinator_meets a env delivery).cut actions).mono (H := CellStep)
    (fun _ h => h) (fun _ _ _ _ mv => mv.choose_spec.cellStep) fun _ _ _ h => h
  have recovery := (recoverLost_meets start).mono (H := CellStep) (fun _ h => h)
    (fun _ _ _ _ mv => mv.cellStep) fun _ _ _ h => h
  refine List.IsChain.append run.chain recovery.chain ?_
  intro last inRun first inRecovery
  rw [← dropLast_trace, List.getLast?_append] at inRun
  obtain ⟨rest, head⟩ := (recoverLost a).trace_head (killedAfter a env delivery actions).restart
  rw [head] at inRecovery
  obtain rfl : killedAfter a env delivery actions = last := by simpa [killedAfter] using inRun
  obtain rfl : (killedAfter a env delivery actions).restart = first := by simpa using inRecovery
  exact fun _ => .inl rfl

theorem recovered_outcome (h : Durable a m) (open_ : m.ledger.runStatus.terminal = false) :
    ((recoverLost a).run m.restart).1 = 0 ∧
      (((recoverLost a).run m.restart).2.ledger.runStatus =
        if ∀ id ∈ a.executions, ((recoverLost a).run m.restart).2.ledger.status id = some .success
        then .success else .failed) := by
  have start : Consistent a m.restart.ledger := h.consistent
  have done := (recoverLost_nonterminal start open_).run
  have coded : FailuresCoded m.ledger := h.failed
  refine ⟨done.succeeds.mpr coded.recorded, ?_⟩
  have same : (∀ id ∈ a.executions,
      ((recoverLost a).run m.restart).2.ledger.status id = some .success) ↔
        ∀ id ∈ a.executions, m.ledger.status id = some .success := by
    refine forall₂_congr fun id mem => ?_
    have kept : (m.ledger.lose a.executions).status id = some .success ↔
        m.ledger.status id = some .success := lose_status_eq_some (by simp) (by simp)
    rw [done.status id mem, ← kept]
    cases lost : (m.ledger.lose a.executions).status id <;> simp [Machine.restart, lost]
  rcases done.runStatus with ⟨success, all⟩ | ⟨failed, some⟩
  · rw [if_pos (same.mpr all), success]
  · rw [if_neg fun all => some (same.mp all), failed]

theorem cells_progress (a : Attempt) (env : Environment) (delivery : Option Delivery)
    (actions : Nat) :
    (history a env delivery actions).IsChain CellStep ∧
    (∀ m ∈ history a env delivery actions, FailureOrdered a m.ledger) ∧
    (∀ id, (killedAfter a env delivery actions).ledger.status id = some .pending →
      ∀ m ∈ (recoverLost a).trace (killedAfter a env delivery actions).restart,
        m.ledger.status id = some .pending) ∧
    ((killedAfter a env delivery actions).ledger.runStatus.terminal = false →
      ∀ rc m, (recoverLost a).run (killedAfter a env delivery actions).restart = (rc, m) →
        rc = 0 ∧ m.ledger.runStatus =
          if ∀ id ∈ a.executions, m.ledger.status id = some .success then .success
          else .failed) := by
  have durable := killedAfter_consistent a env delivery actions
  have start : Consistent a (killedAfter a env delivery actions).restart.ledger :=
    durable.consistent
  refine ⟨history_steps a env delivery actions, fun m mem => ?_, fun id pending => ?_, ?_⟩
  · rcases List.mem_append.mp mem with run | recovery
    · have states := ((coordinator_meets a env delivery).cut actions).trace m run
      exact states.consistent.failureOrdered
    · exact ((recoverLost_meets start).trace m recovery).failureOrdered
  · exact recovery_pending_kept durable.consistent pending
  · intro open_ rc m eq
    have outcome := recovered_outcome durable open_
    rwa [eq] at outcome

end StorageScaleTest.Coordinator
