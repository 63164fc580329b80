import StorageScaleTest.Proof.Coordinator.Signal

/-!
# Ledgers that recovery can meet

`Consistent` is what is left of `Durable` once the coordinator's process is gone. It holds in every
state in which a coordinator can be killed, and the writes of recovery and cancellation keep it.
-/

namespace StorageScaleTest.Coordinator

open Interruptible Interruptible.Program

section

variable (a : Attempt)

structure Consistent (l : Ledger) : Prop where
  initialized : l.runStatus ≠ .prepared → Initialized a l
  unstarted : l.runStatus = .prepared → ∀ id, l.status id = none ∨ l.status id = some .pending
  member : ∀ id, l.status id ≠ none → id ∈ a.executions
  snapshotted : ∀ id, l.status id ≠ none → ∀ name ∈ a.snapshots, name ∈ l.snapshots
  ordered : ∀ i ∈ a.executions, ∀ j ∈ a.executions, i < j → l.status j ≠ none →
    l.status j ≠ some .pending → l.status i = some .success
  success : ∀ id, l.status id = some .success → l.exitcode id = some 0 ∧ (l.workers id).isSome ∧
    ∀ name ∈ requiredArtifacts id (a.workload id), ((l.results id).get? name).isSome
  runSuccess : l.runStatus = .success → ∀ id ∈ a.executions, l.status id = some .success
  stopped : l.runStatus.terminal → ∀ id, l.status id ≠ some .running
  regular : ∀ id, RegularNames (l.results id)

variable (op : Invocation)

def Invocation.concludes (l : Ledger) (final : RunStatus) : Invocation → Prop
  | .recoverLost => l.runStatus.terminal = false ∧ final ≠ .cancelled
  | .finalizeCancelled => l.runStatus ≠ .success ∧ final = .cancelled

inductive RecoveryMove : Machine → Machine → Prop
  | stutter (m) : RecoveryMove m m
  | lock (m) (lock : Lock) (fresh : m.ledger.runStatus = .prepared) :
      RecoveryMove m { m with ledger := { m.ledger with lock := lock } }
  | snapshot (m) (name : String) :
      RecoveryMove m { m with ledger := { m.ledger with snapshots := name :: m.ledger.snapshots } }
  | create (m) (id : ExecutionId) (mem : id ∈ a.executions)
      (missing : m.ledger.status id = none)
      (snapshots : ∀ name ∈ a.snapshots, name ∈ m.ledger.snapshots)
      (recovers : op = .recoverLost) :
      RecoveryMove m { m with ledger := m.ledger.setStatus id .pending }
  | lose (m) (id : ExecutionId) (running : m.ledger.status id = some .running) :
      RecoveryMove m { m with ledger := m.ledger.setStatus id .failed }
  | exitcode (m) (id : ExecutionId) (rc : Nat) (failed : m.ledger.status id = some .failed) :
      RecoveryMove m { m with ledger := m.ledger.setExitcode id rc }
  | loss (m) (loss : CoordinatorLoss) :
      RecoveryMove m { m with ledger := { m.ledger with coordinatorLoss := some loss } }
  | summary (m) (summary : Summary) :
      RecoveryMove m { m with ledger := { m.ledger with summary := some summary } }
  | finish (m) (final : RunStatus) (terminal : final.terminal) (ready : Initialized a m.ledger)
      (stopped : ∀ id, m.ledger.status id ≠ some .running)
      (all : final = .success → ∀ id ∈ a.executions, m.ledger.status id = some .success)
      (concludes : op.concludes m.ledger final) :
      RecoveryMove m { m with ledger := { m.ledger with runStatus := final } }
  | publish (m) (rows : List Row) (complete : manifestRows a m.ledger = some rows) :
      RecoveryMove m { m with ledger := { m.ledger with manifest := rows } }

end

/-! ## Single steps of a cell -/

inductive CellAdvance : Option CellStatus → Option CellStatus → Prop
  | create : CellAdvance none (some .pending)
  | start : CellAdvance (some .pending) (some .running)
  | succeed : CellAdvance (some .running) (some .success)
  | fail : CellAdvance (some .running) (some .failed)

def CellStep (m m' : Machine) : Prop :=
  ∀ id, m'.ledger.status id = m.ledger.status id ∨
    CellAdvance (m.ledger.status id) (m'.ledger.status id)

variable {a : Attempt} {op : Invocation} {overwrites recodes : Prop} {m m' : Machine}
  {id : ExecutionId}

theorem cellStep_setStatus (m : Machine) (id : ExecutionId) {status : CellStatus}
    (advance : CellAdvance (m.ledger.status id) (some status)) :
    CellStep m { m with ledger := m.ledger.setStatus id status } := by
  intro other
  rw [setStatus_apply]
  by_cases same : other = id
  · subst same
    rw [if_pos rfl]
    exact .inr advance
  · rw [if_neg same]
    exact .inl rfl

theorem Move.cellStep (mv : Move a overwrites recodes m m') : CellStep m m' := by
  cases mv with
  | create id mem missing => exact cellStep_setStatus m id (missing ▸ .create)
  | start id mem begun pending => exact cellStep_setStatus m id (pending ▸ .start)
  | succeed id running => exact cellStep_setStatus m id (running ▸ .succeed)
  | fail id rc running => exact cellStep_setStatus m id (running ▸ .fail)
  | _ => exact fun _ => .inl rfl

theorem RecoveryMove.cellStep (mv : RecoveryMove a op m m') : CellStep m m' := by
  cases mv with
  | create id mem missing snapshots recovers => exact cellStep_setStatus m id (missing ▸ .create)
  | lose id running => exact cellStep_setStatus m id (running ▸ .fail)
  | _ => exact fun _ => .inl rfl

theorem RecoveryMove.outcome (mv : RecoveryMove a op m m') :
    m'.ledger.runStatus = m.ledger.runStatus ∨ op.concludes m.ledger m'.ledger.runStatus := by
  cases mv with
  | finish final terminal ready stopped all concludes => exact .inr concludes
  | _ => exact .inl rfl

/-! ## Consistency -/

theorem requiredArtifacts_present {scratch : Option Scratch} (h :
    requireSuccessArtifacts a id scratch = true) {name : String}
    (mem : name ∈ requiredArtifacts id (a.workload id)) :
    (scratch.bind (·.files.get? name)).isSome := by
  have present := List.all_eq_true.mp (Bool.and_eq_true_iff.mp h).1 name mem
  cases found : scratch.bind (·.files.get? name) with
  | none => simp [found] at present
  | some bytes => rfl

theorem Durable.consistent (h : Durable a m) : Consistent a m.ledger where
  initialized := h.initialized
  unstarted := h.unstarted
  member := h.member
  snapshotted := h.snapshotted
  ordered := h.ordered
  success id success := by
    obtain ⟨zero, workers, ⟨tree, left, -, copied⟩, required⟩ := h.success id success
    refine ⟨zero, workers, fun name mem => ?_⟩
    obtain ⟨bytes, found⟩ := Option.isSome_iff_exists.mp (requiredArtifacts_present required mem)
    rw [left] at found
    simp [copied name bytes found]
  runSuccess := h.runSuccess
  stopped terminal id running := by
    have begun := (h.running_facts running).2.1
    simp [begun, RunStatus.terminal] at terminal
  regular := h.regular

namespace Consistent

variable {l : Ledger}

theorem setStatus (h : Consistent a l) {status : CellStatus} (mem : id ∈ a.executions)
    (snapshots : ∀ name ∈ a.snapshots, name ∈ l.snapshots)
    (open_ : ∀ s, l.status id = some s → ¬s.ended) (neither : status = .pending ∨ status = .failed)
    (fresh : l.runStatus = .prepared → status = .pending)
    (before : status ≠ .pending → ∀ i ∈ a.executions, i < id → l.status i = some .success) :
    Consistent a (l.setStatus id status) := by
  have notSuccess : l.status id ≠ some .success := fun eq => open_ _ eq (.inl rfl)
  have kept : ∀ {other s}, (l.setStatus id status).status other = some s →
      s = .running ∨ s = .success → l.status other = some s := by
    intro other s eq which
    rw [setStatus_apply] at eq
    split at eq
    · obtain rfl := Option.some.inj eq
      rcases neither with rfl | rfl <;> rcases which with eq | eq <;> cases eq
    · exact eq
  exact {
    initialized := fun begun => initialized_setStatus (h.initialized begun) id status
    unstarted := fun prepared other => by
      rw [setStatus_apply]
      split
      · exact .inr (congrArg some (fresh prepared))
      · exact h.unstarted prepared other
    member := fun other present => by
      rw [setStatus_apply] at present
      split at present
      · rename_i same
        exact same ▸ mem
      · exact h.member other present
    snapshotted := fun _ _ => snapshots
    ordered := fun i hi j hj lt present started => by
      have earlier : l.status i = some .success := by
        rw [setStatus_apply] at present started
        split at started
        · rename_i same
          subst same
          exact before (fun eq => started (congrArg _ eq)) i hi lt
        · rename_i other
          rw [if_neg other] at present
          exact h.ordered i hi j hj lt present started
      rw [setStatus_apply, if_neg]
      · exact earlier
      · rintro rfl
        exact notSuccess earlier
    success := fun other eq => h.success other (kept eq (.inr rfl))
    runSuccess := fun all => absurd (h.runSuccess all id mem) notSuccess
    stopped := fun terminal other eq => h.stopped terminal other (kept eq (.inl rfl))
    regular := h.regular }

theorem move (h : Consistent a m.ledger) (mv : RecoveryMove a op m m') : Consistent a m'.ledger := by
  cases mv with
  | stutter => exact h
  | lock lock fresh => exact { h with initialized := fun begun => absurd fresh begun }
  | snapshot name =>
      refine { h with
        snapshotted := fun id present other mem =>
          List.mem_cons_of_mem _ (h.snapshotted id present other mem)
        initialized := fun begun => ?_ }
      have ready := h.initialized begun
      exact ⟨ready.lock, fun other mem => List.mem_cons_of_mem _ (ready.snapshots other mem),
        ready.statuses⟩
  | create id mem missing snapshots recovers =>
      exact h.setStatus mem snapshots (by simp [missing]) (.inl rfl) (fun _ => rfl)
        fun other => absurd rfl other
  | lose id running =>
      have mem := h.member id (by simp [running])
      refine h.setStatus mem (h.snapshotted id (by simp [running])) (fun s eq => ?_) (.inr rfl)
        (fun prepared => ?_) fun _ i hi lt => ?_
      · obtain rfl : CellStatus.running = s := Option.some.inj (running.symm.trans eq)
        rintro (ended | ended) <;> cases ended
      · simpa [running] using h.unstarted prepared id
      · exact h.ordered i hi id mem lt (by simp [running]) (by simp [running])
  | exitcode id rc failed =>
      refine { h with
        initialized := fun begun => initialized_congr (h.initialized begun) rfl rfl rfl
        success := fun other eq => ?_ }
      have different : other ≠ id := by
        rintro rfl
        have both := failed.symm.trans eq
        cases both
      rw [setExitcode_apply, if_neg different]
      exact h.success other eq
  | finish final terminal ready stopped all concludes =>
      exact { h with
        initialized := fun _ => initialized_congr ready rfl rfl rfl
        unstarted := fun prepared => by
          obtain rfl : final = .prepared := prepared
          cases terminal
        runSuccess := all
        stopped := fun _ => stopped }
  | _ =>
      exact { h with
        initialized := fun begun => initialized_congr (h.initialized begun) rfl rfl rfl }

theorem failed_shape (h : Consistent a l) (failed : l.status id = some .failed) :
    id ∈ a.executions ∧ (∀ i ∈ a.executions, i < id → l.status i = some .success) ∧
      ∀ j ∈ a.executions, id < j → l.status j = some .pending := by
  have mem := h.member id (by simp [failed])
  refine ⟨mem, fun i hi lt => h.ordered i hi id mem lt (by simp [failed]) (by simp [failed]),
    fun j hj lt => ?_⟩
  have begun : l.runStatus ≠ .prepared := fun prepared => by
    simpa [failed] using h.unstarted prepared id
  have present := Option.isSome_iff_ne_none.mp ((h.initialized begun).statuses j hj)
  by_contra other
  simpa [failed] using h.ordered id mem j hj lt present other

theorem failed_unique (h : Consistent a l) (failed : l.status id = some .failed)
    {other : ExecutionId} (failed' : l.status other = some .failed) : other = id := by
  obtain ⟨-, before, after⟩ := h.failed_shape failed
  have mem := (h.failed_shape failed').1
  rcases lt_trichotomy other id with lt | eq | lt
  · simpa [failed'] using before other mem lt
  · exact eq
  · simpa [failed'] using after other mem lt

end Consistent

end StorageScaleTest.Coordinator
