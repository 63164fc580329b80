import StorageScaleTest.Proof.Coordinator.Commit
import StorageScaleTest.Proof.Coordinator.Progress

/-!
# Interrupted recoveries

Which ledgers an uninterrupted `--recover-lost` or `--finalize-cancelled` can finish and repeat,
however often the same operation was killed on them before.
-/

namespace StorageScaleTest.Coordinator

open Interruptible Interruptible.Program

structure Finished (a : Attempt) (l : Ledger) : Prop where
  terminal : l.runStatus.terminal
  stopped : ∀ id, l.status id ≠ some .running
  recorded : ∀ id, l.status id = some .success ∨ l.status id = some .failed →
    (l.exitcode id).isSome
  manifest : manifestRows a l = some l.manifest

/-- The next invocation succeeds, and one more succeeds without changing anything. -/
def Restarts (a : Attempt) (op : Invocation) (m : Machine) : Prop :=
  ∀ rc m' rc' m'', (op.program a).run m.restart = (rc, m') →
    (op.program a).run m'.restart = (rc', m'') →
      rc = 0 ∧ Finished a m'.ledger ∧ rc' = 0 ∧ m''.ledger.status = m'.ledger.status ∧
        m''.ledger.exitcode = m'.ledger.exitcode ∧ m''.ledger.runStatus = m'.ledger.runStatus

def Explained (a : Attempt) (l : Ledger) : Prop :=
  l.runStatus = .cancelled ∨ l.startupError.isSome ∨
    (∃ id, l.status id = some .running ∨ l.status id = some .failed) ∨
    l.runStatus ≠ .failed ∧ ∀ id ∈ a.executions, l.status id = some .success

def FailureStands (l : Ledger) : Prop :=
  Evident l ∧ ∀ id, l.status id = some .failed → l.exitcode id ≠ some 143 ∧ l.exitcode id ≠ some 130

def Restartable (a : Attempt) (l : Ledger) : Invocation → Prop
  | .recoverLost => FailuresCoded l ∧ Explained a l
  | .finalizeCancelled => FailuresCoded l ∧ (∀ id ∈ a.executions, (l.status id).isSome) ∧
      (l.runStatus = .failed → failedBySignal l = false → FailureStands l)

variable {a : Attempt} {m m' : Machine} {rc : Nat} {l l' : Ledger}

/-! ## Ledgers after one invocation -/

theorem Consistent.finished (h : Consistent a l) (terminal : l.runStatus.terminal)
    (recorded : FailuresRecorded l) (manifest : manifestRows a l = some l.manifest) :
    Finished a l := by
  refine ⟨terminal, h.stopped terminal, fun id ended => ?_, manifest⟩
  rcases ended with success | failed
  · simp [(h.success id success).1]
  · exact recorded id failed

theorem Repaired.ledger (h : Repaired a rc m m') :
    m'.ledger.status = m.ledger.status ∧ m'.ledger.exitcode = m.ledger.exitcode ∧
      m'.ledger.runStatus = m.ledger.runStatus ∧
      m'.ledger.startupError = m.ledger.startupError := by
  obtain ⟨summary, rows, rfl⟩ := h.kept
  exact ⟨rfl, rfl, rfl, rfl⟩

theorem Repaired.finished (h : Repaired a 0 m m') (consistent : Consistent a m'.ledger)
    (terminal : m.ledger.runStatus.terminal) : Finished a m'.ledger := by
  obtain ⟨status, exitcode, runStatus, -⟩ := h.ledger
  refine consistent.finished (by rw [runStatus]; exact terminal) ?_ (h.manifest rfl)
  intro id
  rw [status, exitcode]
  exact (h.succeeds.mp rfl).1.recorded id

theorem failuresCoded_congr (status : ∀ id, l'.status id = some .failed ↔
    l.status id = some .failed) (exitcode : l'.exitcode = l.exitcode) :
    FailuresCoded l' ↔ FailuresCoded l :=
  forall_congr' fun id => by rw [status, exitcode]

theorem Repaired.coded_iff (h : Repaired a rc m m') :
    FailuresCoded m'.ledger ↔ FailuresCoded m.ledger := by
  obtain ⟨status, exitcode, -⟩ := h.ledger
  exact failuresCoded_congr (fun id => by rw [status]) exitcode

theorem Repaired.evident_iff (h : Repaired a rc m m') :
    Evident m'.ledger ↔ Evident m.ledger := by
  obtain ⟨status, -, -, startup⟩ := h.ledger
  unfold Evident
  rw [status, startup]

theorem Recovered.failed_iff (h : Recovered a rc l l') (consistent : Consistent a l)
    (consistent' : Consistent a l') (id : ExecutionId) : l'.status id = some .failed ↔
      (l.lose a.executions).status id = some .failed := by
  by_cases mem : id ∈ a.executions
  · rw [h.status id mem]
    cases lost : (l.lose a.executions).status id <;> simp
  · have missing : l.status id = none := by
      by_contra present
      exact mem (consistent.member id present)
    have missing' : l'.status id = none := by
      by_contra present
      exact mem (consistent'.member id present)
    simp [missing', Ledger.lose, missing]

theorem Recovered.coded_iff (h : Recovered a rc l l') (consistent : Consistent a l)
    (consistent' : Consistent a l') : FailuresCoded l' ↔ FailuresCoded l :=
  (failuresCoded_congr (h.failed_iff consistent consistent') h.exitcode).trans lose_failuresCoded

/-! ## Recovery -/

theorem explained_terminal (h : Consistent a l) (terminal : l.runStatus.terminal) :
    Explained a l ↔ (l.runStatus = .failed → Evident l) := by
  constructor
  · intro explained failed
    rcases explained with cancelled | startup | ⟨id, running | cell⟩ | ⟨other, -⟩
    · simp [failed] at cancelled
    · exact .inl startup
    · exact absurd running (h.stopped terminal id)
    · exact .inr ⟨id, cell⟩
    · exact absurd failed other
  · intro evident
    cases status : l.runStatus with
    | success => exact .inr (.inr (.inr ⟨by simp [status], h.runSuccess status⟩))
    | cancelled => exact .inl status
    | failed =>
        rcases evident status with startup | ⟨id, cell⟩
        · exact .inr (.inl startup)
        · exact .inr (.inr (.inl ⟨id, .inr cell⟩))
    | prepared => simp [status, RunStatus.terminal] at terminal
    | running => simp [status, RunStatus.terminal] at terminal

theorem Recovered.explained (h : Recovered a rc l l') (consistent : Consistent a l)
    (consistent' : Consistent a l') (open_ : l.runStatus.terminal = false) :
    (l'.runStatus = .failed → Evident l') ↔ Explained a l := by
  have failed : (∃ id, l'.status id = some .failed) ↔
      ∃ id, l.status id = some .running ∨ l.status id = some .failed := by
    refine exists_congr fun id => ?_
    rw [h.failed_iff consistent consistent', lose_failed, or_comm]
    refine or_congr_left (and_iff_right_of_imp fun running => ?_)
    exact consistent.member id (by simp [running])
  have nonterminal : l.runStatus ≠ .cancelled ∧ l.runStatus ≠ .failed := by
    constructor <;> intro status <;> simp [status, RunStatus.terminal] at open_
  unfold Evident Explained
  rw [failed, h.startupError]
  rcases h.runStatus with ⟨success, all⟩ | ⟨ended, some⟩
  · refine iff_of_true (by simp [success]) (.inr (.inr (.inr ⟨nonterminal.2, all⟩)))
  · simp [ended, some, nonterminal.1]

theorem recoverLost_consistent (h : Consistent a m.ledger) :
    Consistent a ((recoverLost a).run m.restart).2.ledger :=
  (recoverLost_meets (m := m.restart) h).trace _ (run_mem_trace _ _)

theorem recoverLost_repairs (h : Consistent a m.ledger) (terminal : m.ledger.runStatus.terminal)
    (run : (recoverLost a).run m.restart = (rc, m')) : Repaired a rc m.restart m' := by
  have done := (recoverLost_terminal (m := m.restart) h terminal).run
  rwa [run] at done

theorem restarts_iff (op : Invocation) {rc rc' : Nat} {m m' m'' : Machine}
    (run : (op.program a).run m.restart = (rc, m'))
    (again : (op.program a).run m'.restart = (rc', m'')) :
    Restarts a op m ↔ rc = 0 ∧ Finished a m'.ledger ∧ rc' = 0 ∧
      m''.ledger.status = m'.ledger.status ∧ m''.ledger.exitcode = m'.ledger.exitcode ∧
        m''.ledger.runStatus = m'.ledger.runStatus := by
  constructor
  · intro restarts
    exact restarts rc m' rc' m'' run again
  · intro facts _ _ _ _ run' again'
    obtain ⟨rfl, rfl⟩ := Prod.mk.inj (run.symm.trans run')
    obtain ⟨rfl, rfl⟩ := Prod.mk.inj (again.symm.trans again')
    exact facts

theorem recoverLost_restarts (h : Consistent a m.ledger) :
    Restarts a .recoverLost m ↔ Restartable a m.ledger .recoverLost := by
  obtain ⟨rc, m', run⟩ : ∃ rc m', (recoverLost a).run m.restart = (rc, m') := ⟨_, _, rfl⟩
  obtain ⟨rc', m'', again⟩ : ∃ rc' m'', (recoverLost a).run m'.restart = (rc', m'') := ⟨_, _, rfl⟩
  have h' : Consistent a m'.ledger := by
    have kept := recoverLost_consistent h
    rwa [run] at kept
  rw [restarts_iff (a := a) .recoverLost run again]
  cases terminal : m.ledger.runStatus.terminal with
  | true =>
      have first := recoverLost_repairs h terminal run
      have terminal' : m'.ledger.runStatus.terminal := by rw [first.ledger.2.2.1]; exact terminal
      have second := recoverLost_repairs h' terminal' again
      have condition : Restartable a m.ledger .recoverLost ↔ rc = 0 :=
        (and_congr_right fun _ => explained_terminal h terminal).trans first.succeeds.symm
      rw [condition]
      refine ⟨fun facts => facts.1, fun zero => ?_⟩
      subst zero
      have both := first.succeeds.mp rfl
      have again_zero : rc' = 0 := by
        refine second.succeeds.mpr ⟨first.coded_iff.mpr both.1, fun failed => ?_⟩
        exact first.evident_iff.mpr (both.2 (first.ledger.2.2.1.symm.trans failed))
      exact ⟨rfl, first.finished h' terminal, again_zero, second.ledger.1, second.ledger.2.1,
        second.ledger.2.2.1⟩
  | false =>
      have first : Recovered a rc m.ledger m'.ledger := by
        have done := (recoverLost_nonterminal (m := m.restart) h terminal).run
        rwa [run] at done
      have terminal' : m'.ledger.runStatus.terminal := by
        rcases first.runStatus with ⟨success, -⟩ | ⟨failed, -⟩
        · rw [success]
          rfl
        · rw [failed]
          rfl
      have second := recoverLost_repairs h' terminal' again
      have condition : Restartable a m.ledger .recoverLost ↔ rc' = 0 := by
        refine Iff.trans ?_ second.succeeds.symm
        exact and_congr (first.coded_iff h h').symm (first.explained h h' terminal).symm
      rw [condition]
      refine ⟨fun facts => facts.2.2.1, fun zero => ?_⟩
      have coded' := (second.succeeds.mp zero).1
      have coded := (first.coded_iff h h').mp coded'
      have succeeded := first.succeeds.mpr coded.recorded
      exact ⟨succeeded, h'.finished terminal' coded'.recorded (first.manifest succeeded), zero,
        second.ledger.1, second.ledger.2.1, second.ledger.2.2.1⟩

/-! ## Cancellation -/

theorem finalizeCancelled_meets (h : Consistent a m.ledger) :
    Recovers a .finalizeCancelled (finalizeCancelled a) (fun _ _ => True) m := by
  cases settled : settledOutcome m.ledger with
  | true => exact (finalizeCancelled_settled h settled).weaken fun _ _ _ _ => trivial
  | false => exact (finalizeCancelled_open h settled).weaken fun _ _ _ _ => trivial

theorem settledOutcome_terminal (settled : settledOutcome l) : l.runStatus.terminal := by
  cases status : l.runStatus <;> simp [settledOutcome, status] at settled ⊢ <;> rfl

theorem settledOutcome_failed (settled : settledOutcome l) (failed : l.runStatus = .failed) :
    failedBySignal l = false := by
  simpa [settledOutcome, failed] using settled

theorem settledOutcome_of_not_failed (terminal : l.runStatus.terminal)
    (other : l.runStatus ≠ .failed) : settledOutcome l := by
  cases status : l.runStatus <;> simp_all [settledOutcome, RunStatus.terminal]

theorem finalize_settled_run (h : Consistent a m.ledger) (settled : settledOutcome m.ledger)
    (run : (finalizeCancelled a).run m.restart = (rc, m')) : Repaired a rc m.restart m' := by
  have done := (finalizeCancelled_settled (m := m.restart) h settled).run
  rwa [run] at done

theorem finalize_open_run (h : Consistent a m.ledger)
    (open_ : settledOutcome m.ledger = false)
    (run : (finalizeCancelled a).run m.restart = (rc, m')) :
    CancelledTo a rc m.ledger m'.ledger := by
  have done := (finalizeCancelled_open (m := m.restart) h open_).run
  rwa [run] at done

/-- A repaired failure is left alone again exactly if its exit code is not that of a signal. -/
theorem Repaired.stands (h : Repaired a 0 m m') (failed : m.ledger.runStatus = .failed) :
    failedBySignal m'.ledger = false ↔ FailureStands m.ledger := by
  obtain ⟨code, written, cells, startup⟩ := h.code rfl failed
  have evident := (h.succeeds.mp rfl).2 failed
  have read : failedBySignal m'.ledger = (decide (code = 143) || decide (code = 130)) := by
    unfold failedBySignal
    rw [written]
  rw [read]
  by_cases found : ∃ id, m.ledger.status id = some .failed
  · obtain ⟨id, cell⟩ := found
    constructor
    · intro other
      refine ⟨evident, fun id' cell' => ?_⟩
      rw [cells id' cell']
      simpa using other
    · intro stands
      have own := stands.2 id cell
      rw [cells id cell] at own
      simpa using own
  · have unfailed : ∀ id, m.ledger.status id ≠ some .failed := fun id cell => found ⟨id, cell⟩
    rw [startup unfailed]
    exact iff_of_true rfl ⟨evident, fun id cell => absurd cell (unfailed id)⟩

theorem CancelledTo.coded_iff {l l' : Ledger} (h : CancelledTo a rc l l') :
    FailuresCoded l' ↔ FailuresCoded l :=
  (failuresCoded_congr (fun id => by rw [h.status]) h.exitcode).trans lose_failuresCoded

theorem finalizeCancelled_restarts (h : Consistent a m.ledger) :
    Restarts a .finalizeCancelled m ↔ Restartable a m.ledger .finalizeCancelled := by
  obtain ⟨rc, m', run⟩ : ∃ rc m', (finalizeCancelled a).run m.restart = (rc, m') := ⟨_, _, rfl⟩
  obtain ⟨rc', m'', again⟩ : ∃ rc' m'', (finalizeCancelled a).run m'.restart = (rc', m'') :=
    ⟨_, _, rfl⟩
  rw [restarts_iff (a := a) .finalizeCancelled run again]
  have h' : Consistent a m'.ledger := by
    have kept := (finalizeCancelled_meets (m := m.restart) h).trace _ (run_mem_trace _ _)
    rwa [run] at kept
  cases settled : settledOutcome m.ledger with
  | true =>
      have terminal := settledOutcome_terminal settled
      have statuses := (h.initialized (RunStatus.not_prepared terminal)).statuses
      have first := finalize_settled_run h settled run
      obtain ⟨status, exitcode, runStatus, -⟩ := first.ledger
      constructor
      · rintro ⟨rfl, -, zero, -, -, kept⟩
        refine ⟨(first.succeeds.mp rfl).1, statuses, fun failed _ => ?_⟩
        refine (first.stands failed).mp ?_
        by_contra signalled
        -- The repeated cancellation would turn the failure into a cancellation.
        have second := finalize_open_run h' (by
          simp [settledOutcome, runStatus.trans failed, Bool.not_eq_false _ ▸ signalled]) again
        have cancelled := second.runStatus zero
        rw [kept, runStatus.trans failed] at cancelled
        cases cancelled
      · rintro ⟨coded, -, stands⟩
        have evident : m.ledger.runStatus = .failed → Evident m.ledger := fun failed =>
          (stands failed (settledOutcome_failed settled failed)).1
        obtain rfl : rc = 0 := first.succeeds.mpr ⟨coded, evident⟩
        have settled' : settledOutcome m'.ledger := by
          by_cases failed : m.ledger.runStatus = .failed
          · have other := (first.stands failed).mpr
              (stands failed (settledOutcome_failed settled failed))
            simp [settledOutcome, other, runStatus.trans failed]
          · exact settledOutcome_of_not_failed (by rw [runStatus]; exact terminal)
              (by rw [runStatus]; exact failed)
        have second := finalize_settled_run h' settled' again
        have zero : rc' = 0 := second.succeeds.mpr ⟨first.coded_iff.mpr coded, fun failed =>
          first.evident_iff.mpr (evident (runStatus.symm.trans failed))⟩
        exact ⟨rfl, first.finished h' terminal, zero, second.ledger.1, second.ledger.2.1,
          second.ledger.2.2.1⟩
  | false =>
      have first := finalize_open_run h settled run
      have condition : Restartable a m.ledger .finalizeCancelled ↔
          FailuresCoded m.ledger ∧ ∀ id ∈ a.executions, (m.ledger.status id).isSome := by
        refine and_congr_right fun _ => and_iff_left fun failed other => ?_
        simp [settledOutcome, failed, other] at settled
      rw [condition]
      constructor
      · rintro ⟨rfl, finished, zero, -⟩
        have cancelled := first.runStatus rfl
        have settled' := settledOutcome_of_not_failed finished.terminal (by simp [cancelled])
        have second := finalize_settled_run h' settled' again
        exact ⟨first.coded_iff.mp (second.succeeds.mp zero).1, (first.succeeds.mp rfl).1⟩
      · rintro ⟨coded, statuses⟩
        obtain rfl : rc = 0 := first.succeeds.mpr ⟨statuses, coded.recorded⟩
        have cancelled := first.runStatus rfl
        have coded' := first.coded_iff.mpr coded
        have terminal' : m'.ledger.runStatus.terminal := by
          rw [cancelled]
          rfl
        have settled' := settledOutcome_of_not_failed terminal' (by simp [cancelled])
        have second := finalize_settled_run h' settled' again
        have zero : rc' = 0 := second.succeeds.mpr ⟨coded', fun failed => by
          simp [Machine.restart, cancelled] at failed⟩
        exact ⟨rfl, h'.finished terminal' coded'.recorded (first.manifest rfl), zero,
          second.ledger.1, second.ledger.2.1, second.ledger.2.2.1⟩

/-! ## Interrupted invocations -/

theorem program_meets (op : Invocation) (h : Consistent a m.ledger) :
    Recovers a op (op.program a) (fun _ _ => True) m := by
  cases op with
  | recoverLost => exact recoverLost_meets h
  | finalizeCancelled => exact finalizeCancelled_meets h

/-- The machine left by a coordinator killed after `actions` and by invocations of one operation,
each killed after as many actions as `kills` says. -/
def leftBy (a : Attempt) (env : Environment) (delivery : Option Delivery) (actions : Nat)
    (op : Invocation) (kills : List Nat) : Machine :=
  (op.program a).restarts Machine.restart kills (killedAfter a env delivery actions)

theorem leftBy_consistent (env : Environment) (delivery : Option Delivery) (actions : Nat)
    (op : Invocation) (kills : List Nat) :
    Consistent a (leftBy a env delivery actions op kills).ledger :=
  Meets.restarts (I := fun m : Machine => Consistent a m.ledger)
    (fun m h => program_meets (m := m.restart) op h) kills
    (killedAfter_consistent a env delivery actions).consistent

theorem restarts_iff_restartable (a : Attempt) (env : Environment) (delivery : Option Delivery)
    (actions : Nat) (op : Invocation) (kills : List Nat) :
    Restarts a op (leftBy a env delivery actions op kills) ↔
      Restartable a (leftBy a env delivery actions op kills).ledger op := by
  have h := leftBy_consistent (a := a) env delivery actions op kills
  cases op with
  | recoverLost => exact recoverLost_restarts h
  | finalizeCancelled => exact finalizeCancelled_restarts h

/-- A coordinator killed right after `run.status` became `RUNNING`: recovery publishes `FAILED`
without a failed cell or a startup error, which it then cannot repair. -/
theorem recovery_unrepeatable : ¬Restarts sampleAttempt .recoverLost
    (leftBy sampleAttempt (sampleEnvironment 0) none 12 .recoverLost []) := by
  intro restarts
  have again := (restarts _ _ _ _ rfl rfl).2.2.1
  exact absurd again (by decide +kernel)

end StorageScaleTest.Coordinator
