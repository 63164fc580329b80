import StorageScaleTest.Proof.Coordinator.Consistent

/-!
# What recovery and cancellation leave

From a consistent ledger every write of `--recover-lost` and `--finalize-cancelled` is a move, and
each invocation has one theorem saying when it succeeds and which ledger it leaves.
-/

namespace StorageScaleTest.Coordinator

open Interruptible Interruptible.Program

variable {a : Attempt} {op : Invocation} {m m' : Machine} {id : ExecutionId} {l : Ledger}

abbrev Recovers {α : Type} (a : Attempt) (op : Invocation) (p : Action α)
    (Q : α → Machine → Prop) (m : Machine) : Prop :=
  Meets (fun m => Consistent a m.ledger) (RecoveryMove a op) p Q m

def FailuresCoded (l : Ledger) : Prop :=
  ∀ id, l.status id = some .failed → ∃ rc, l.exitcode id = some rc ∧ rc ≠ 0

def FailuresRecorded (l : Ledger) : Prop :=
  ∀ id, l.status id = some .failed → (l.exitcode id).isSome

theorem FailuresCoded.recorded (h : FailuresCoded l) : FailuresRecorded l := by
  intro id failed
  obtain ⟨rc, eq, -⟩ := h id failed
  simp [eq]

/-! ## Publishing -/

theorem Consistent.publishable_iff (h : Consistent a l)
    (statuses : ∀ id ∈ a.executions, (l.status id).isSome) (summary : l.summary.isSome) :
    (∃ rows, manifestRows a l = some rows) ↔ FailuresRecorded l := by
  constructor
  · rintro ⟨rows, complete⟩ id failed
    have mem := h.member id (by simp [failed])
    obtain ⟨cells, parts, -⟩ := manifestRows_eq_some.mp complete
    obtain ⟨part, defined⟩ := Option.isSome_iff_exists.mp ((appendRows_eq_some.mp parts).1 id mem)
    obtain ⟨status, eq, -, -, exitcode, ended, -⟩ := executionRows_eq_some.mp defined
    obtain rfl : .failed = status := Option.some.inj (failed.symm.trans eq)
    rw [exitcodeRows_eq_some, if_pos (.inr rfl)] at ended
    obtain ⟨row, found, -⟩ := ended
    obtain ⟨content, file, -⟩ := ledgerRow_eq_some.mp found
    cases code : l.exitcode id with
    | none => simp [Ledger.file?, code] at file
    | some rc => rfl
  · intro recorded
    obtain ⟨id, mem⟩ := List.exists_mem_of_ne_nil _ a.nonempty
    have snapshots := h.snapshotted id (Option.isSome_iff_ne_none.mp (statuses id mem))
    refine manifestRows_isSome statuses (fun id _ ended => ?_) (fun id _ => h.regular id) summary
      snapshots
    rcases ended with success | failed
    · simp [(h.success id success).1]
    · exact recorded id failed

theorem writeSummary_missing {terminal : RunStatus} {failedId : Option ExecutionId}
    {code : Option Nat} (h : Consistent a m.ledger) (mem : id ∈ a.executions)
    (missing : m.ledger.status id = none) :
    Recovers a op (writeSummary a terminal failedId code) (fun rc m' => rc = 1 ∧ m' = m) m := by
  have absent : (a.executions.any fun id => (m.ledger.status id).isNone) = true :=
    List.any_eq_true.mpr ⟨id, mem, by simp [missing]⟩
  refine .look h (.stutter m) ?_
  rw [if_pos absent]
  exact ⟨h, rfl, rfl⟩

theorem publishManifest_recovers (h : Consistent a m.ledger)
    (statuses : ∀ id ∈ a.executions, (m.ledger.status id).isSome)
    (summary : m.ledger.summary.isSome) :
    Recovers a op (publishManifest a) (fun rc m' => (∃ rows, m' = withManifest m rows) ∧
      (rc = 0 ↔ FailuresRecorded m.ledger) ∧
      (rc = 0 → manifestRows a m'.ledger = some m'.ledger.manifest)) m := by
  have defined := h.publishable_iff statuses summary
  cases complete : manifestRows a m.ledger with
  | some rows =>
      have publish : RecoveryMove a op m (withManifest m rows) := .publish m rows complete
      refine (publishManifest_meets h (.stutter m) complete publish (h.move publish)).weaken ?_
      intro rc m' _ done
      obtain ⟨rfl, rfl⟩ := done
      exact ⟨⟨rows, rfl⟩, iff_of_true rfl (defined.mp ⟨rows, complete⟩), fun _ => complete⟩
  | none =>
      refine .look h (.stutter m) ?_
      simp only [complete]
      refine ⟨h, ⟨m.ledger.manifest, rfl⟩, iff_of_false one_ne_zero fun recorded => ?_, nofun⟩
      obtain ⟨rows, eq⟩ := defined.mpr recorded
      simp [complete] at eq

/-- The end of an invocation: it publishes exactly if the exit codes of all failures are there. -/
structure Concluded (a : Attempt) (final : RunStatus) (code rc : Nat) (m m' : Machine) : Prop where
  kept : ∃ s rows, s.exitCode = some code ∧
    m' = withManifest (withRunStatus (withSummary m s) final) rows
  succeeds : rc = 0 ↔ FailuresRecorded m.ledger
  manifest : rc = 0 → manifestRows a m'.ledger = some m'.ledger.manifest

theorem conclude_recovers {terminal : RunStatus} {failedId : Option ExecutionId} {code : Nat}
    (h : Consistent a m.ledger) (statuses : ∀ id ∈ a.executions, (m.ledger.status id).isSome)
    (stopped : ∀ id, m.ledger.status id ≠ some .running) :
    Recovers a op (checked (writeSummary a terminal failedId (some code)) (publishManifest a))
      (fun rc m' => Concluded a m.ledger.runStatus code rc m m') m := by
  have summary : RecoveryMove a op m
      (withSummary m (summaryOf a m.ledger terminal failedId (some code))) := .summary m _
  have next := h.move summary
  refine checked_meets (writeSummary_meets h (.stutter m) statuses (fun _ => stopped) summary next)
    ?_ fun rc m' _ failed done => absurd done.1 failed
  intro m' _ done
  obtain ⟨-, rfl⟩ := done
  refine (publishManifest_recovers next statuses rfl).weaken ?_
  intro rc m' _ published
  obtain ⟨⟨rows, rfl⟩, succeeds, manifest⟩ := published
  exact ⟨⟨_, rows, rfl, rfl⟩, succeeds, manifest⟩

theorem writeOutcome_recovers (op : Invocation) {final : RunStatus} {failedId : Option ExecutionId} {code : Nat}
    (h : Consistent a m.ledger) (terminal : final.terminal) (ready : Initialized a m.ledger)
    (stopped : ∀ id, m.ledger.status id ≠ some .running)
    (all : final = .success → ∀ id ∈ a.executions, m.ledger.status id = some .success)
    (concludes : op.concludes m.ledger final) :
    Recovers a op (writeOutcome a final failedId code)
      (fun rc m' => Concluded a final code rc m m') m := by
  have summary : RecoveryMove a op m
      (withSummary m (summaryOf a m.ledger final failedId (some code))) := .summary m _
  have next := h.move summary
  refine checked_meets (writeSummary_meets h (.stutter m) ready.statuses (fun _ => stopped) summary
    next) ?_ fun rc m' _ failed done => absurd done.1 failed
  intro m' _ done
  obtain ⟨-, rfl⟩ := done
  have finish : RecoveryMove a op _ (withRunStatus
      (withSummary m (summaryOf a m.ledger final failedId (some code))) final) :=
    .finish _ final terminal (initialized_congr ready rfl rfl rfl) stopped all concludes
  have ended := next.move finish
  refine .step next finish ((publishManifest_recovers ended ready.statuses rfl).weaken ?_)
  intro rc m' _ published
  obtain ⟨⟨rows, rfl⟩, succeeds, manifest⟩ := published
  exact ⟨⟨_, rows, rfl, rfl⟩, succeeds, manifest⟩

/-! ## Repair -/

theorem repairScan_append (l : Ledger) (ids rest : List ExecutionId) (scan : RepairScan) :
    repairScan l (ids ++ rest) scan = (repairScan l ids scan).bind (repairScan l rest) := by
  induction ids generalizing scan with
  | nil => rfl
  | cons id ids ih =>
      simp only [List.cons_append, repairScan]
      cases l.status id with
      | none => rfl
      | some status =>
          cases status with
          | running => rfl
          | failed => simp only [ih]; split <;> [rfl; split <;> rfl]
          | _ => exact ih _

theorem repairScan_unfailed {ids : List ExecutionId}
    (h : ∀ id ∈ ids, l.status id = some .success ∨ l.status id = some .pending)
    (scan : RepairScan) :
    repairScan l ids scan = some { scan with
      pending := scan.pending + ids.countP fun id => l.status id = some .pending } := by
  induction ids generalizing scan with
  | nil => rfl
  | cons id ids ih =>
      have rest := ih fun other mem => h other (List.mem_cons_of_mem _ mem)
      rcases h id List.mem_cons_self with eq | eq
      · simp [repairScan, eq, rest]
      · simp [repairScan, eq, rest, Nat.add_assoc, Nat.add_comm 1]

theorem statusIds_eq (statuses : ∀ id ∈ a.executions, (l.status id).isSome) :
    statusIds a l = a.executions :=
  List.filter_eq_self.mpr statuses

theorem ended_status
    (statuses : ∀ id ∈ a.executions, (l.status id).isSome)
    (stopped : ∀ id, l.status id ≠ some .running) (mem : id ∈ a.executions)
    (unfailed : l.status id ≠ some .failed) :
    l.status id = some .success ∨ l.status id = some .pending := by
  obtain ⟨status, eq⟩ := Option.isSome_iff_exists.mp (statuses id mem)
  cases status with
  | success => exact .inl eq
  | pending => exact .inr eq
  | running => exact absurd eq (stopped id)
  | failed => exact absurd eq unfailed

theorem repairScan_none (statuses : ∀ id ∈ a.executions, (l.status id).isSome)
    (stopped : ∀ id, l.status id ≠ some .running) (unfailed : ∀ id, l.status id ≠ some .failed) :
    repairScan l (statusIds a l) ⟨none, 0, 0, 0⟩ = some ⟨none, 0, countCells a l .pending, 0⟩ := by
  rw [statusIds_eq statuses, repairScan_unfailed fun id mem =>
    ended_status statuses stopped mem (unfailed id)]
  simp [countCells]

theorem repairScan_failed (h : Consistent a l)
    (statuses : ∀ id ∈ a.executions, (l.status id).isSome)
    (stopped : ∀ id, l.status id ≠ some .running) (failed : l.status id = some .failed) :
    ∃ pending, repairScan l (statusIds a l) ⟨none, 0, 0, 0⟩ =
      if (l.exitcode id).getD 0 = 0 then none
      else some ⟨some id, (l.exitcode id).getD 0, pending, 1⟩ := by
  have nodup := executions_nodup a
  obtain ⟨before, after, split⟩ := List.append_of_mem (h.failed_shape failed).1
  rw [split, List.nodup_append] at nodup
  obtain ⟨-, nodup, apart⟩ := nodup
  have other : ∀ i ∈ a.executions, i ≠ id →
      l.status i = some .success ∨ l.status i = some .pending := fun i mem different =>
    ended_status statuses stopped mem fun eq => different (h.failed_unique failed eq)
  have first : ∀ i ∈ before, l.status i = some .success ∨ l.status i = some .pending :=
    fun i mem => other i (by simp [split, mem]) (apart i mem id List.mem_cons_self)
  have last : ∀ i ∈ after, l.status i = some .success ∨ l.status i = some .pending :=
    fun i mem => other i (by simp [split, mem]) fun same =>
      (List.nodup_cons.mp nodup).1 (same ▸ mem)
  rw [statusIds_eq statuses, split, repairScan_append, repairScan_unfailed first]
  simp only [Option.bind_some, repairScan, failed]
  by_cases uncoded : (l.exitcode id).getD 0 = 0
  · exact ⟨0, by simp [uncoded]⟩
  · exact ⟨_, by rw [if_neg (by simp), if_neg uncoded, if_neg uncoded, repairScan_unfailed last]⟩

/-- A `FAILED` run says why: a cell that failed, or a startup error. -/
def Evident (l : Ledger) : Prop := l.startupError.isSome ∨ ∃ id, l.status id = some .failed

structure Repaired (a : Attempt) (rc : Nat) (m m' : Machine) : Prop where
  kept : ∃ summary rows, m' =
    { m with ledger := { m.ledger with summary := summary, manifest := rows } }
  succeeds : rc = 0 ↔ FailuresCoded m.ledger ∧ (m.ledger.runStatus = .failed → Evident m.ledger)
  manifest : rc = 0 → manifestRows a m'.ledger = some m'.ledger.manifest
  code : rc = 0 → m.ledger.runStatus = .failed →
    ∃ code, m'.ledger.summary.bind (·.exitCode) = some code ∧
      (∀ id, m.ledger.status id = some .failed → m.ledger.exitcode id = some code) ∧
      ((∀ id, m.ledger.status id ≠ some .failed) → code = 1)

theorem Repaired.of_failure {rc : Nat} (failure : rc ≠ 0)
    (cause : ¬(FailuresCoded m.ledger ∧ (m.ledger.runStatus = .failed → Evident m.ledger))) :
    Repaired a rc m m :=
  ⟨⟨_, _, rfl⟩, iff_of_false failure cause, fun zero => absurd zero failure,
    fun zero => absurd zero failure⟩

theorem Repaired.of_concluded {code rc : Nat} (h : Concluded a m.ledger.runStatus code rc m m')
    (coded : FailuresCoded m.ledger) (evident : m.ledger.runStatus = .failed → Evident m.ledger)
    (failed : m.ledger.runStatus = .failed →
      (∀ id, m.ledger.status id = some .failed → m.ledger.exitcode id = some code) ∧
        ((∀ id, m.ledger.status id ≠ some .failed) → code = 1)) : Repaired a rc m m' := by
  obtain ⟨s, rows, eq, rfl⟩ := h.kept
  refine ⟨⟨some s, rows, rfl⟩, iff_of_true (h.succeeds.mpr coded.recorded) ⟨coded, evident⟩,
    h.manifest, fun _ status => ⟨code, eq, failed status⟩⟩

section

variable (h : Consistent a m.ledger) (terminal : m.ledger.runStatus.terminal)

include h terminal

theorem terminal_statuses : ∀ id ∈ a.executions, (m.ledger.status id).isSome := by
  apply (h.initialized _).statuses
  intro prepared
  rw [prepared] at terminal
  cases terminal

theorem conclude_repair (op : Invocation) (failedId : Option ExecutionId) (code : Nat)
    (coded : FailuresCoded m.ledger) (evident : m.ledger.runStatus = .failed → Evident m.ledger)
    (failed : m.ledger.runStatus = .failed →
      (∀ id, m.ledger.status id = some .failed → m.ledger.exitcode id = some code) ∧
        ((∀ id, m.ledger.status id ≠ some .failed) → code = 1)) :
    Recovers a op (checked (writeSummary a m.ledger.runStatus failedId (some code))
      (publishManifest a)) (fun rc m' => Repaired a rc m m') m :=
  (conclude_recovers h (terminal_statuses h terminal) (h.stopped terminal)).weaken
    fun _ _ _ done => .of_concluded done coded evident failed

theorem repair_failed (failed : m.ledger.status id = some .failed) :
    Recovers a op (repairTerminalPublication a m.ledger.runStatus)
      (fun rc m' => Repaired a rc m m') m := by
  have statuses := terminal_statuses h terminal
  obtain ⟨pending, scan⟩ := repairScan_failed h statuses (h.stopped terminal) failed
  refine .look h (.stutter m) ?_
  simp only [scan]
  by_cases uncoded : (m.ledger.exitcode id).getD 0 = 0
  · rw [if_pos uncoded]
    refine ⟨h, .of_failure one_ne_zero fun both => ?_⟩
    obtain ⟨rc, eq, nonzero⟩ := both.1 id failed
    exact nonzero (by simpa [eq] using uncoded)
  · rw [if_neg uncoded]
    obtain ⟨rc, eq⟩ : ∃ rc, m.ledger.exitcode id = some rc := by
      cases code : m.ledger.exitcode id with
      | none => simp [code] at uncoded
      | some rc => exact ⟨rc, rfl⟩
    rw [eq, Option.getD_some] at uncoded ⊢
    have only : ∀ other, m.ledger.status other = some .failed →
        m.ledger.exitcode other = some rc := fun other failed' => by
      rw [h.failed_unique failed failed', eq]
    have coded : FailuresCoded m.ledger := fun other failed' => ⟨rc, only other failed', uncoded⟩
    have conclude := fun code cause => conclude_repair h terminal op (some id) code
      coded (fun _ => .inr ⟨id, failed⟩) cause
    cases status : m.ledger.runStatus with
    | success =>
        have success := h.runSuccess status id (h.failed_shape failed).1
        simp [failed] at success
    | failed =>
        rw [status] at conclude
        exact conclude rc fun _ => ⟨only, fun unfailed => absurd failed (unfailed id)⟩
    | cancelled =>
        rw [status] at conclude
        exact conclude 143 nofun
    | prepared => simp [status, RunStatus.terminal] at terminal
    | running => simp [status, RunStatus.terminal] at terminal

theorem repair_unfailed (unfailed : ∀ id, m.ledger.status id ≠ some .failed) :
    Recovers a op (repairTerminalPublication a m.ledger.runStatus)
      (fun rc m' => Repaired a rc m m') m := by
  have statuses := terminal_statuses h terminal
  have coded : FailuresCoded m.ledger := fun id failed => absurd failed (unfailed id)
  have conclude := fun code => conclude_repair h terminal op none code coded
  refine .look h (.stutter m) ?_
  simp only [repairScan_none statuses (h.stopped terminal) unfailed]
  cases status : m.ledger.runStatus with
  | success =>
      have none : countCells a m.ledger .pending = 0 := by
        simp only [countCells, List.countP_eq_zero]
        intro id mem pending
        simp [h.runSuccess status id mem] at pending
      rw [status] at conclude
      simp only [repairCode, none]
      exact conclude 0 (fun failed => by cases failed) fun failed => by cases failed
  | failed =>
      rw [status] at conclude
      cases startup : m.ledger.startupError with
      | none =>
          simp only [repairCode, startup]
          refine ⟨h, .of_failure one_ne_zero fun both => ?_⟩
          rcases both.2 status with message | ⟨id, failed⟩
          · simp [startup] at message
          · exact unfailed id failed
      | some text =>
          simp only [repairCode, startup]
          exact conclude 1 (fun _ => .inl (by simp [startup])) fun _ =>
            ⟨fun id failed => absurd failed (unfailed id), fun _ => rfl⟩
  | cancelled =>
      rw [status] at conclude
      exact conclude 143 (fun failed => by cases failed) fun failed => by cases failed
  | prepared => simp [status, RunStatus.terminal] at terminal
  | running => simp [status, RunStatus.terminal] at terminal

theorem repair_recovers :
    Recovers a op (repairTerminalPublication a m.ledger.runStatus)
      (fun rc m' => Repaired a rc m m') m := by
  by_cases found : ∃ id, m.ledger.status id = some .failed
  · obtain ⟨id, failed⟩ := found
    exact repair_failed h terminal failed
  · exact repair_unfailed h terminal fun id failed => found ⟨id, failed⟩

end

/-! ## The lock -/

def withLedger (m : Machine) (l : Ledger) : Machine := { m with ledger := l }

theorem ensureRecoveryLock_recovers (h : Consistent a m.ledger) :
    Recovers a op (ensureRecoveryLock m.ledger.runStatus)
      (fun rc m' => rc = 0 ∧ m' = withLedger m { m.ledger with lock := .owned }) m := by
  have fresh : m.ledger.lock ≠ .owned → m.ledger.runStatus = .prepared := fun other => by
    by_contra begun
    exact other (h.initialized begun).lock
  refine .look h (.stutter m) ?_
  cases lock : m.ledger.lock with
  | owned => exact ⟨h, rfl, by rw [← lock]; rfl⟩
  | directory =>
      have prepared := fresh (by simp [lock])
      have owner : RecoveryMove a op m _ := .lock m .owned prepared
      dsimp only
      rw [if_neg (by simp [prepared])]
      exact .step h owner ⟨h.move owner, rfl, rfl⟩
  | absent =>
      have prepared := fresh (by simp [lock])
      have directory : RecoveryMove a op m _ := .lock m .directory prepared
      have owner : RecoveryMove a op { m with ledger := { m.ledger with lock := .directory } } _ :=
        .lock _ .owned prepared
      have held := h.move directory
      dsimp only
      rw [if_neg (by simp [prepared])]
      exact .step h directory (.step held owner ⟨held.move owner, rfl, rfl⟩)

/-! ## Cells found running -/

def Ledger.lose (l : Ledger) (ids : List ExecutionId) : Ledger :=
  { l with
    status := fun id =>
      if id ∈ ids ∧ l.status id = some .running then some .failed else l.status id
    exitcode := fun id =>
      if id ∈ ids ∧ l.status id = some .running then some 143 else l.exitcode id }

theorem lose_nil (l : Ledger) : l.lose [] = l := by
  simp [Ledger.lose]

theorem lose_cons_running (running : l.status id = some .running) (rest : List ExecutionId) :
    ((l.setStatus id .failed).setExitcode id 143).lose rest = l.lose (id :: rest) := by
  have eq : ∀ other, (l.setStatus id .failed).status other =
      if other = id then some .failed else l.status other := fun other => setStatus_apply ..
  unfold Ledger.lose
  congr 1
  · funext other
    show (if other ∈ rest ∧ (l.setStatus id .failed).status other = _ then _ else
      (l.setStatus id .failed).status other) = _
    by_cases same : other = id <;> simp [eq, same, running]
  · funext other
    show (if other ∈ rest ∧ (l.setStatus id .failed).status other = _ then _ else
      ((l.setStatus id .failed).setExitcode id 143).exitcode other) = _
    rw [setExitcode_apply]
    by_cases same : other = id <;> simp [same, running, Ledger.setStatus]

theorem lose_cons_other (other : l.status id ≠ some .running) (rest : List ExecutionId) :
    l.lose rest = l.lose (id :: rest) := by
  have eq : ∀ z, (z ∈ rest ∧ l.status z = some .running) ↔
      (z ∈ id :: rest ∧ l.status z = some .running) := by
    intro z
    refine and_congr_left fun running => ?_
    have different : z ≠ id := fun same => other (same ▸ running)
    simp [different]
  unfold Ledger.lose
  simp only [eq]

theorem failRunning_recovers (h : Consistent a m.ledger)
    (running : m.ledger.status id = some .running) :
    Recovers a op (failRunning id) (fun _ m' =>
      m' = withLedger m ((m.ledger.setStatus id .failed).setExitcode id 143)) m := by
  have lose : RecoveryMove a op m _ := .lose m id running
  have failed := h.move lose
  have exitcode : RecoveryMove a op { m with ledger := m.ledger.setStatus id .failed } _ :=
    .exitcode _ id 143 (by simp [setStatus_apply])
  exact .step h lose ⟨failed, exitcode, failed.move exitcode, rfl⟩

structure Scanned (status : ExecutionId → Option CellStatus) (ids : List ExecutionId)
    (scan scan' : RecoveryScan) : Prop where
  changed : scan'.changed = true ↔ scan.changed = true ∨ ∃ id ∈ ids, status id = some .running
  failed : scan'.terminalFailedId.isSome ↔
    scan.terminalFailedId.isSome ∨ ∃ id ∈ ids, status id = some .failed
  pending : scan'.firstPending.isSome ↔
    scan.firstPending.isSome ∨ ∃ id ∈ ids, status id = some .pending

section

variable {status status' : ExecutionId → Option CellStatus} {ids : List ExecutionId}
  {scan scan' scan'' : RecoveryScan}

theorem Scanned.cons (head : Scanned status [id] scan scan')
    (tail : Scanned status ids scan' scan'') : Scanned status (id :: ids) scan scan'' where
  changed := by simp [tail.changed, head.changed, or_assoc]
  failed := by simp [tail.failed, head.failed, or_assoc]
  pending := by simp [tail.pending, head.pending, or_assoc]

theorem Scanned.congr (h : Scanned status' ids scan scan')
    (same : ∀ id ∈ ids, status' id = status id) : Scanned status ids scan scan' := by
  have found : ∀ s, (∃ id ∈ ids, status' id = some s) ↔ ∃ id ∈ ids, status id = some s :=
    fun s => exists_congr fun id => and_congr_right fun mem => by rw [same id mem]
  exact ⟨by rw [h.changed, found], by rw [h.failed, found], by rw [h.pending, found]⟩

end

theorem recoverCells_recovers {ids : List ExecutionId} (h : Consistent a m.ledger)
    (present : ∀ id ∈ ids, (m.ledger.status id).isSome) (nodup : ids.Nodup)
    (scan : RecoveryScan) :
    Recovers a op (recoverCells ids scan) (fun result m' => m' = withLedger m (m.ledger.lose ids) ∧
      ∃ scan', result = some scan' ∧ Scanned m.ledger.status ids scan scan') m := by
  induction ids generalizing m scan with
  | nil => exact ⟨h, by rw [lose_nil]; rfl, scan, rfl, by simp, by simp, by simp⟩
  | cons id rest ih =>
      have rest_present := fun other mem => present other (List.mem_cons_of_mem id mem)
      obtain ⟨fresh, nodup⟩ := List.nodup_cons.mp nodup
      obtain ⟨status, eq⟩ := Option.isSome_iff_exists.mp (present id List.mem_cons_self)
      refine .look h (.stutter m) ?_
      by_cases running : status = .running
      · subst running
        simp only [eq]
        refine (failRunning_recovers h eq).bind_of fun _ m' next lost => ?_
        subst lost
        have same : ∀ other ∈ rest, ((m.ledger.setStatus id .failed).setExitcode id 143).status
            other = m.ledger.status other := fun other mem =>
          (setStatus_apply ..).trans (if_neg fun same : other = id => fresh (same ▸ mem))
        refine (ih next (fun other mem => ?_) nodup _).weaken fun result m' _ done => ?_
        · rw [withLedger, same other mem]
          exact rest_present other mem
        · obtain ⟨rfl, scan', rfl, scanned⟩ := done
          refine ⟨by rw [← lose_cons_running eq rest]; rfl, scan', rfl, .cons ?_
            (scanned.congr same)⟩
          exact ⟨by simp [eq], by simp [eq], by simp [eq]⟩
      · have other : m.ledger.status id ≠ some .running := fun same =>
          running (Option.some.inj (eq.symm.trans same))
        have finish : ∀ scan', Scanned m.ledger.status [id] scan scan' →
            Recovers a op (recoverCells rest scan') (fun result m' =>
              m' = withLedger m (m.ledger.lose (id :: rest)) ∧ ∃ scan', result = some scan' ∧
                Scanned m.ledger.status (id :: rest) scan scan') m := fun scan' head => by
          refine (ih h rest_present nodup scan').weaken fun result m' _ done => ?_
          obtain ⟨rfl, scan'', rfl, tail⟩ := done
          exact ⟨by rw [lose_cons_other other], scan'', rfl, head.cons tail⟩
        cases status with
        | running => exact absurd rfl running
        | pending =>
            simp only [eq]
            exact finish _ ⟨by simp [eq], by simp [eq], by simp [eq]⟩
        | success =>
            simp only [eq]
            exact finish _ ⟨by simp [eq], by simp [eq], by simp [eq]⟩
        | failed =>
            simp only [eq]
            exact finish _ ⟨by simp [eq], by simp [eq], by simp [eq]⟩

theorem cancelCells_recovers {ids : List ExecutionId} (h : Consistent a m.ledger)
    (present : ∀ id ∈ ids, (m.ledger.status id).isSome) (failedId : Option ExecutionId) :
    Recovers a op (cancelCells ids failedId) (fun result m' =>
      m' = withLedger m (m.ledger.lose ids) ∧ result.isSome) m := by
  induction ids generalizing m failedId with
  | nil => exact ⟨h, by rw [lose_nil]; rfl, rfl⟩
  | cons id rest ih =>
      have rest_present := fun other mem => present other (List.mem_cons_of_mem id mem)
      refine .look h (.stutter m) ?_
      obtain ⟨status, eq⟩ := Option.isSome_iff_exists.mp (present id List.mem_cons_self)
      by_cases running : status = .running
      · subst running
        simp only [eq]
        refine (failRunning_recovers h eq).bind_of fun _ m' next lost => ?_
        subst lost
        refine (ih next (fun other mem => ?_) _).weaken fun result m' _ done => ?_
        · show ((m.ledger.setStatus id .failed).status other).isSome
          rw [setStatus_apply]
          split
          · rfl
          · exact rest_present other mem
        · obtain ⟨rfl, some⟩ := done
          exact ⟨by rw [← lose_cons_running eq rest]; rfl, some⟩
      · have other : m.ledger.status id ≠ some .running := fun same =>
          running (Option.some.inj (eq.symm.trans same))
        rw [← lose_cons_other other]
        cases status with
        | running => exact absurd rfl running
        | pending => simpa only [eq] using ih h rest_present failedId
        | success => simpa only [eq] using ih h rest_present failedId
        | failed => simpa only [eq] using ih h rest_present failedId

/-! ## Whole invocations -/

theorem Consistent.stopped_lose (h : Consistent a l) (id : ExecutionId) :
    (l.lose a.executions).status id ≠ some .running := by
  show (if _ then _ else _) ≠ _
  split
  · simp
  · rename_i kept
    intro running
    exact kept ⟨h.member id (by simp [running]), running⟩

theorem lose_status_eq_some {ids : List ExecutionId} {status : CellStatus}
    (other : status ≠ .running) (notFailed : status ≠ .failed) :
    (l.lose ids).status id = some status ↔ l.status id = some status := by
  show (if _ then _ else _) = _ ↔ _
  split
  · rename_i lost
    simp [lost.2, other.symm, notFailed.symm]
  · rfl

theorem lose_failed {ids : List ExecutionId} :
    (l.lose ids).status id = some .failed ↔
      l.status id = some .failed ∨ id ∈ ids ∧ l.status id = some .running := by
  show (if _ then _ else _) = _ ↔ _
  split
  · rename_i lost
    simp [lost]
  · rename_i kept
    simp [kept]

theorem lose_exitcode_failed (ids : List ExecutionId) (failed : l.status id = some .failed) :
    (l.lose ids).exitcode id = l.exitcode id :=
  if_neg fun lost => by simp [failed] at lost

theorem lose_failuresCoded {ids : List ExecutionId} :
    FailuresCoded (l.lose ids) ↔ FailuresCoded l := by
  constructor
  · intro coded id failed
    rw [← lose_exitcode_failed ids failed]
    exact coded id (lose_failed.mpr (.inl failed))
  · intro coded id failed
    by_cases lost : id ∈ ids ∧ l.status id = some .running
    · exact ⟨143, if_pos lost, by simp⟩
    · rcases lose_failed.mp failed with failed | running
      · rw [lose_exitcode_failed ids failed]
        exact coded id failed
      · exact absurd running lost

theorem lose_failuresRecorded {ids : List ExecutionId} :
    FailuresRecorded (l.lose ids) ↔ FailuresRecorded l := by
  constructor
  · intro recorded id failed
    rw [← lose_exitcode_failed ids failed]
    exact recorded id (lose_failed.mpr (.inl failed))
  · intro recorded id failed
    by_cases lost : id ∈ ids ∧ l.status id = some .running
    · rw [show (l.lose ids).exitcode id = some 143 from if_pos lost]
      rfl
    · rcases lose_failed.mp failed with failed | running
      · rw [lose_exitcode_failed ids failed]
        exact recorded id failed
      · exact absurd running lost

/-- A nonterminal ledger after `--recover-lost`: missing cells are pending, running ones failed,
and the run succeeded exactly if all its cells did. -/
structure Recovered (a : Attempt) (rc : Nat) (l l' : Ledger) : Prop where
  status : ∀ id ∈ a.executions,
    l'.status id = some (((l.lose a.executions).status id).getD .pending)
  exitcode : l'.exitcode = (l.lose a.executions).exitcode
  startupError : l'.startupError = l.startupError
  runStatus : l'.runStatus = .success ∧ (∀ id ∈ a.executions, l.status id = some .success) ∨
    l'.runStatus = .failed ∧ ¬∀ id ∈ a.executions, l.status id = some .success
  succeeds : rc = 0 ↔ FailuresRecorded l
  manifest : rc = 0 → manifestRows a l' = some l'.manifest

theorem publishRecovery_recovers {observed : RunStatus} {scan : RecoveryScan}
    (h : Consistent a m.ledger) (open_ : m.ledger.runStatus.terminal = false)
    (ready : Initialized a m.ledger)
    (stopped : ∀ id, m.ledger.status id ≠ some .running)
    (success : (recoveryOutcome m.ledger scan).terminal = .success →
      ∀ id ∈ a.executions, m.ledger.status id = some .success) :
    Recovers a .recoverLost (publishRecovery a observed scan) (fun rc m' => ∃ loss,
      Concluded a (recoveryOutcome m.ledger scan).terminal
        (recoveryOutcome m.ledger scan).exitCode rc
        (withLedger m { m.ledger with coordinatorLoss := some loss }) m') m := by
  have loss : RecoveryMove a .recoverLost m _ :=
    .loss m (lossOf a observed (recoveryOutcome m.ledger scan))
  have outcome : (recoveryOutcome m.ledger scan).terminal = .success ∨
      (recoveryOutcome m.ledger scan).terminal = .failed := by
    unfold recoveryOutcome
    split
    · exact .inr rfl
    · split <;> simp
  have terminal : (recoveryOutcome m.ledger scan).terminal.terminal := by
    rcases outcome with eq | eq <;> rw [eq] <;> rfl
  have concludes : Invocation.recoverLost.concludes m.ledger
      (recoveryOutcome m.ledger scan).terminal :=
    ⟨open_, by rcases outcome with eq | eq <;> simp [eq]⟩
  refine .look h (.stutter m) (.step h loss ?_)
  refine (writeOutcome_recovers .recoverLost (h.move loss) terminal (initialized_congr ready rfl rfl rfl)
    stopped success concludes).weaken fun rc m' _ done => ?_
  exact ⟨_, done⟩

theorem recoveryOutcome_success {ids : List ExecutionId} {status : ExecutionId → Option CellStatus}
    {scan : RecoveryScan} (scanned : Scanned status ids ⟨none, none, none, false⟩ scan)
    (present : ∀ id ∈ ids, (status id).isSome) :
    (recoveryOutcome l scan).terminal =
      if ∀ id ∈ ids, status id = some .success then .success else .failed := by
  have changed := scanned.changed
  have failed := scanned.failed
  have pending := scanned.pending
  have other : (¬∀ id ∈ ids, status id = some .success) →
      (∃ id ∈ ids, status id = some .running) ∨ (∃ id ∈ ids, status id = some .failed) ∨
        ∃ id ∈ ids, status id = some .pending := by
    intro some
    push Not at some
    obtain ⟨id, mem, different⟩ := some
    obtain ⟨s, eq⟩ := Option.isSome_iff_exists.mp (present id mem)
    cases s with
    | running => exact .inl ⟨id, mem, eq⟩
    | failed => exact .inr (.inl ⟨id, mem, eq⟩)
    | pending => exact .inr (.inr ⟨id, mem, eq⟩)
    | success => exact absurd eq different
  have none : (∀ id ∈ ids, status id = some .success) → ∀ s, s ≠ .success →
      ¬∃ id ∈ ids, status id = some s := by
    intro all s different ⟨id, mem, eq⟩
    exact different (Option.some.inj (eq.symm.trans (all id mem)))
  simp only [Bool.false_eq_true, Option.isSome_none, false_or] at changed failed pending
  by_cases all : ∀ id ∈ ids, status id = some .success
  · rw [if_pos all]
    have quiet : scan.changed = false := by
      simpa using mt changed.mp (none all .running (by simp))
    have unfailed : scan.terminalFailedId = Option.none := by
      simpa using mt failed.mp (none all .failed (by simp))
    have empty : scan.firstPending = Option.none := by
      simpa using mt pending.mp (none all .pending (by simp))
    simp [recoveryOutcome, quiet, unfailed, empty]
  · rw [if_neg all]
    unfold recoveryOutcome
    split
    · rfl
    · rename_i quiet
      split
      · rfl
      · rfl
      · rename_i unfailed empty
        rw [← changed, ← failed, ← pending] at other
        have found := other all
        simp [unfailed, empty, quiet] at found

theorem Filled.status_eq_some {m m' : Machine} {ids : List ExecutionId} (h : Filled ids m m')
    (id : ExecutionId) {status : CellStatus} (other : status ≠ .pending) :
    m'.ledger.status id = some status ↔ m.ledger.status id = some status := by
  by_cases missing : m.ledger.status id = none
  · rw [h.created id missing, missing]
    split <;> simp [other.symm]
  · rw [h.kept id missing]

theorem Filled.lose_status {m m' : Machine} (h : Filled a.executions m m')
    (mem : id ∈ a.executions) : (m'.ledger.lose a.executions).status id =
      some (((m.ledger.lose a.executions).status id).getD .pending) := by
  by_cases missing : m.ledger.status id = none
  · have created : m'.ledger.status id = some .pending := by rw [h.created id missing, if_pos mem]
    simp [Ledger.lose, missing, created]
  · obtain ⟨status, eq⟩ := Option.ne_none_iff_exists'.mp missing
    have kept : m'.ledger.status id = some status := (h.kept id missing).trans eq
    by_cases running : status = .running <;> simp [Ledger.lose, eq, kept, mem, running]

theorem Filled.lose_exitcode {m m' : Machine} (h : Filled a.executions m m') :
    (m'.ledger.lose a.executions).exitcode = (m.ledger.lose a.executions).exitcode := by
  have same : m'.ledger.exitcode = m.ledger.exitcode := by rw [h.rest]
  have running : ∀ id, m'.ledger.status id = some .running ↔ m.ledger.status id = some .running :=
    fun id => h.status_eq_some id (by simp)
  funext id
  unfold Ledger.lose
  simp only [running, same]

def withSnapshots (m : Machine) (names : List String) : Machine :=
  { m with ledger := { m.ledger with snapshots := names } }

theorem initialize_recovers {allow : Bool} {p : Action Nat} {Q : Nat → Machine → Prop}
    (h : Consistent a m.ledger)
    (creates : allow = true ∨ (∀ name ∈ a.snapshots, name ∈ m.ledger.snapshots) ∧
      ∀ id ∈ a.executions, (m.ledger.status id).isSome)
    (next : ∀ present m', Consistent a m'.ledger →
      (∀ name ∈ a.snapshots, name ∈ m'.ledger.snapshots) →
      Filled a.executions (withSnapshots m present) m' →
      Recovers a .recoverLost p Q m') :
    Recovers a .recoverLost (checked (initializeSnapshots allow a.snapshots)
      (checked (initializeExecutionStates allow a.executions) p)) Q m := by
  apply checked_meets (initializeSnapshots_meets h .stutter (fun m name h => ?_)
    (creates.imp_right (·.1)))
  · intro m' h' done
    obtain ⟨-, present, rfl, -, all⟩ := done
    have fill : Meets (fun m => Consistent a m.ledger ∧
        ∀ name ∈ a.snapshots, name ∈ m.ledger.snapshots) (RecoveryMove a .recoverLost)
        (initializeExecutionStates allow a.executions)
        (fun rc m' => rc = 0 ∧ Filled a.executions (withSnapshots m present) m')
        (withSnapshots m present) := by
      refine initializeExecutionStates_meets ⟨h', all⟩ .stutter (fun m id h mem missing => ?_)
        (creates.imp_right (·.2))
      have create : RecoveryMove a .recoverLost m (withStatus m id .pending) :=
        .create m id mem missing h.2 rfl
      exact ⟨create, h.1.move create, h.2⟩
    refine checked_meets (fill.mono (R := fun rc m' => rc = 0 ∧
      (∀ name ∈ a.snapshots, name ∈ m'.ledger.snapshots) ∧
        Filled a.executions (withSnapshots m present) m')
      (fun _ h => h.1) (fun _ _ _ _ mv => mv) fun rc m' h done => ⟨done.1, h.2, done.2⟩) ?_ ?_
    · exact fun m' h' done => next present m' h' done.2.1 done.2.2
    · exact fun rc m' _ failed done => absurd done.1 failed
  · exact fun rc m' _ failed done => absurd done.1 failed
  · have snapshot : RecoveryMove a .recoverLost m _ := .snapshot m name
    exact ⟨snapshot, h.move snapshot⟩

theorem recoverNonterminal_recovers (h : Consistent a m.ledger)
    (open_ : m.ledger.runStatus.terminal = false) (owned : m.ledger.lock = .owned) :
    Recovers a .recoverLost (recoverNonterminal a m.ledger.runStatus)
      (fun rc m' => Recovered a rc m.ledger m'.ledger) m := by
  apply initialize_recovers h
  · by_cases prepared : m.ledger.runStatus = .prepared
    · exact .inl (by simp [prepared])
    · exact .inr ⟨(h.initialized prepared).snapshots, (h.initialized prepared).statuses⟩
  intro present m' h' snapshots filled
  have statuses : ∀ id ∈ a.executions, (m'.ledger.status id).isSome := fun id mem => by
    by_cases missing : m.ledger.status id = none
    · rw [filled.created id missing, if_pos mem]
      rfl
    · rw [filled.kept id missing]
      exact Option.isSome_iff_ne_none.mpr missing
  have ready : Initialized a (m'.ledger.lose a.executions) := by
    refine ⟨by rw [filled.rest]; exact owned, snapshots, fun id mem => ?_⟩
    rw [filled.lose_status mem]
    rfl
  refine .look h' (.stutter m') ?_
  rw [statusIds_eq statuses]
  refine (recoverCells_recovers h' statuses (executions_nodup a) _).bind_of ?_
  intro result last h'' done
  obtain ⟨rfl, scan, rfl, scanned⟩ := done
  have outcome := recoveryOutcome_success (l := m'.ledger.lose a.executions) scanned statuses
  have success : ∀ id ∈ a.executions, m'.ledger.status id = some .success ↔
      m.ledger.status id = some .success := fun id _ => filled.status_eq_some id (by simp)
  have unended : m'.ledger.runStatus.terminal = false := by
    rw [filled.rest]
    exact open_
  refine (publishRecovery_recovers h'' unended ready h'.stopped_lose fun all => ?_).weaken ?_
  · intro id mem
    have all := outcome.symm.trans all
    split at all
    · rename_i every
      exact (lose_status_eq_some (by simp) (by simp)).mpr (every id mem)
    · cases all
  · intro rc final _ concluded
    obtain ⟨loss, kept, succeeds, manifest⟩ := concluded
    obtain ⟨s, rows, -, rfl⟩ := kept
    have startup : m'.ledger.startupError = m.ledger.startupError := by
      rw [filled.rest]
      rfl
    refine ⟨fun id mem => filled.lose_status mem, filled.lose_exitcode, startup, ?_, ?_, manifest⟩
    · by_cases every : ∀ id ∈ a.executions, m'.ledger.status id = some .success
      · exact .inl ⟨outcome.trans (if_pos every), fun id mem => (success id mem).mp (every id mem)⟩
      · refine .inr ⟨outcome.trans (if_neg every), fun all => every fun id mem => ?_⟩
        exact (success id mem).mpr (all id mem)
    · have same : m'.ledger.exitcode = m.ledger.exitcode := by
        rw [filled.rest]
        rfl
      rw [succeeds]
      refine lose_failuresRecorded.trans (forall_congr' fun id => ?_)
      rw [filled.status_eq_some id (by simp), same]
      exact Iff.rfl

theorem recoverLost_nonterminal (h : Consistent a m.ledger)
    (open_ : m.ledger.runStatus.terminal = false) :
    Recovers a .recoverLost (recoverLost a) (fun rc m' => Recovered a rc m.ledger m'.ledger) m := by
  refine .look h (.stutter m) (checked_meets (ensureRecoveryLock_recovers h) ?_ ?_)
  · intro m' h' locked
    obtain ⟨-, rfl⟩ := locked
    rw [if_neg (by simp [open_])]
    exact (recoverNonterminal_recovers h' open_ rfl).weaken fun rc last _ done =>
      ⟨done.status, done.exitcode, done.startupError, done.runStatus, done.succeeds, done.manifest⟩
  · exact fun rc m' _ failed locked => absurd locked.1 failed

theorem withLedger_owned (h : Consistent a m.ledger) (begun : m.ledger.runStatus ≠ .prepared) :
    withLedger m { m.ledger with lock := .owned } = m := by
  unfold withLedger
  rw [← (h.initialized begun).lock]

theorem RunStatus.not_prepared {status : RunStatus} (terminal : status.terminal) :
    status ≠ .prepared := by
  intro prepared
  rw [prepared] at terminal
  cases terminal

theorem recoverLost_terminal (h : Consistent a m.ledger)
    (terminal : m.ledger.runStatus.terminal) :
    Recovers a .recoverLost (recoverLost a) (fun rc m' => Repaired a rc m m') m := by
  refine .look h (.stutter m) (checked_meets (ensureRecoveryLock_recovers h) ?_ ?_)
  · intro m' h' locked
    obtain ⟨-, rfl⟩ := locked
    rw [withLedger_owned h (RunStatus.not_prepared terminal), if_pos terminal]
    exact repair_recovers h terminal
  · exact fun rc m' _ failed locked => absurd locked.1 failed

structure CancelledTo (a : Attempt) (rc : Nat) (l l' : Ledger) : Prop where
  status : l'.status = (l.lose a.executions).status
  exitcode : l'.exitcode = (l.lose a.executions).exitcode
  succeeds : rc = 0 ↔ (∀ id ∈ a.executions, (l.status id).isSome) ∧ FailuresRecorded l
  runStatus : rc = 0 → l'.runStatus = .cancelled
  manifest : rc = 0 → manifestRows a l' = some l'.manifest

theorem lose_statusIds (a : Attempt) (l : Ledger) : l.lose (statusIds a l) = l.lose a.executions := by
  have same : ∀ id, id ∈ statusIds a l ∧ l.status id = some .running ↔
      id ∈ a.executions ∧ l.status id = some .running := by
    intro id
    refine and_congr_left fun running => ?_
    simp [statusIds, running]
  unfold Ledger.lose
  simp only [same]

theorem lose_isSome {ids : List ExecutionId} :
    ((l.lose ids).status id).isSome ↔ (l.status id).isSome := by
  show (if _ then _ else _ : Option CellStatus).isSome ↔ _
  split
  · rename_i lost
    simp [lost.2]
  · rfl

theorem publishCancellation_recovers (h : Consistent a m.ledger)
    (open_ : m.ledger.runStatus ≠ .success) (owned : m.ledger.lock = .owned) :
    Recovers a .finalizeCancelled (publishCancellation a) (fun rc m' => CancelledTo a rc m.ledger m'.ledger) m := by
  have present : ∀ id ∈ statusIds a m.ledger, (m.ledger.status id).isSome := fun id mem =>
    (List.mem_filter.mp mem).2
  refine .look h (.stutter m) ((cancelCells_recovers h present none).bind_of ?_)
  intro result m' h' done
  rw [lose_statusIds] at done
  obtain ⟨rfl, found⟩ := done
  obtain ⟨failedId, rfl⟩ := Option.isSome_iff_exists.mp found
  by_cases statuses : ∀ id ∈ a.executions, (m.ledger.status id).isSome
  · obtain ⟨id, mem⟩ := List.exists_mem_of_ne_nil _ a.nonempty
    have snapshots := h.snapshotted id (Option.isSome_iff_ne_none.mp (statuses id mem))
    have ready : Initialized a (m.ledger.lose a.executions) :=
      ⟨owned, snapshots, fun id mem => lose_isSome.mpr (statuses id mem)⟩
    have terminal : RunStatus.cancelled.terminal := rfl
    refine (writeOutcome_recovers .finalizeCancelled h' terminal ready h.stopped_lose nofun
      ⟨open_, rfl⟩).weaken ?_
    intro rc last _ concluded
    obtain ⟨⟨s, rows, -, rfl⟩, succeeds, manifest⟩ := concluded
    refine ⟨rfl, rfl, ?_, fun _ => rfl, manifest⟩
    rw [succeeds, and_iff_right statuses]
    exact lose_failuresRecorded
  · have missing : ∃ id ∈ a.executions, m.ledger.status id = none := by
      push Not at statuses
      simpa using statuses
    obtain ⟨id, mem, none⟩ := missing
    refine checked_meets (writeSummary_missing h' mem ?_) ?_ ?_
    · simp [withLedger, Ledger.lose, none]
    · exact fun _ _ failed => absurd failed.1 (by simp)
    · intro rc last _ _ failed
      obtain ⟨-, rfl⟩ := failed
      exact ⟨rfl, rfl, iff_of_false one_ne_zero fun both => statuses both.1, nofun, nofun⟩

def settledOutcome (l : Ledger) : Bool :=
  l.runStatus = .success || l.runStatus = .cancelled || l.runStatus = .failed && !failedBySignal l

theorem finalizeCancelled_settled (h : Consistent a m.ledger) (settled : settledOutcome m.ledger) :
    Recovers a .finalizeCancelled (finalizeCancelled a) (fun rc m' => Repaired a rc m m') m := by
  have terminal : m.ledger.runStatus.terminal := by
    cases status : m.ledger.runStatus <;> simp [settledOutcome, status] at settled ⊢ <;> rfl
  refine .look h (.stutter m) (checked_meets (ensureRecoveryLock_recovers h) ?_ ?_)
  · intro m' h' locked
    obtain ⟨-, rfl⟩ := locked
    rw [withLedger_owned h (RunStatus.not_prepared terminal)]
    split
    · exact repair_recovers h terminal
    · rename_i other
      have failed : m.ledger.runStatus = .failed ∧ failedBySignal m.ledger = false := by
        cases status : m.ledger.runStatus <;> simp_all [settledOutcome]
      rw [if_pos (by simp [failed])]
      exact failed.1 ▸ repair_recovers h terminal
  · exact fun rc m' _ failed locked => absurd locked.1 failed

theorem finalizeCancelled_open (h : Consistent a m.ledger)
    (open_ : settledOutcome m.ledger = false) :
    Recovers a .finalizeCancelled (finalizeCancelled a) (fun rc m' => CancelledTo a rc m.ledger m'.ledger) m := by
  refine .look h (.stutter m) (checked_meets (ensureRecoveryLock_recovers h) ?_ ?_)
  · intro m' h' locked
    obtain ⟨-, rfl⟩ := locked
    simp only [settledOutcome, Bool.or_eq_false_iff] at open_
    rw [if_neg (by simpa using open_.1), if_neg (by simpa [withLedger, failedBySignal] using open_.2)]
    exact (publishCancellation_recovers h' (fun success => by simp_all [withLedger]) rfl).weaken fun rc last _ done =>
      ⟨done.status, done.exitcode, done.succeeds, done.runStatus, done.manifest⟩
  · exact fun rc m' _ failed locked => absurd locked.1 failed

end StorageScaleTest.Coordinator
