import StorageScaleTest.Coordinator.Recovery
import StorageScaleTest.Proof.Coordinator.Manifest

/-!
# The moves of a coordinator process

`Move` is the abstract protocol: what one atomic write of a coordinator may do to its ledger, and
when. `Durable` is the invariant it keeps. That the coordinator's program only makes such moves is
proved in the modules after this one.
-/

namespace StorageScaleTest.Coordinator

def CellStatus.ended (status : CellStatus) : Prop := status = .success ∨ status = .failed

def Ledger.recordedFailure (l : Ledger) : Option Nat :=
  match l.summary with
  | some ⟨_, .failed, _, _, _, _, some _, code⟩ => code
  | _ => none

def signalCode (code : Nat) : Prop := code = Signal.term.code ∨ code = Signal.int.code

/-- A cell's recorded failure stays recorded, and a signal's exit code never replaces its own. -/
def FailureKept (l l' : Ledger) : Prop :=
  ∀ code, l.recordedFailure = some code →
    ∃ code', l'.recordedFailure = some code' ∧ (code' = code ∨ ¬signalCode code')

def OutcomeKept (l l' : Ledger) : Prop :=
  l.runStatus.terminal → l'.runStatus = l.runStatus

def Copied (m : Machine) (id : ExecutionId) : Prop :=
  ∃ tree, m.scratch id = some tree ∧ tree.symlink = false ∧
    ∀ name bytes, tree.files.get? name = some bytes →
      (m.ledger.results id).get? name = some bytes

section

variable (a : Attempt)

structure Initialized (l : Ledger) : Prop where
  lock : l.lock = .owned
  snapshots : ∀ name ∈ a.snapshots, name ∈ l.snapshots
  statuses : ∀ id ∈ a.executions, (l.status id).isSome

def Ledger.blames (l : Ledger) (id : ExecutionId) : Prop :=
  ∃ s, l.summary = some s ∧ s.runStatus = .failed ∧ s.failedExecution = some id

/-- `overwrites` allows replacing a published success, and `recodes` replacing a recorded failure,
which only a signal handler does, after it has dropped the traps for good. -/
inductive Move (overwrites recodes : Prop) : Machine → Machine → Prop
  | stutter (m) : Move overwrites recodes m m
  | process (m) (p : Process)
      (active : ∀ id, m.ledger.status id = some .running ∨ m.ledger.blames id →
        p.activeId = some id)
      (trapped : p.trap = true → m.ledger.runStatus ≠ .prepared)
      (arms : p.trap = true → m.process.trap = true ∨ ¬recodes) :
      Move overwrites recodes m { m with process := p }
  | lock (m) (lock : Lock) (fresh : m.ledger.runStatus = .prepared) :
      Move overwrites recodes m { m with ledger := { m.ledger with lock := lock } }
  | snapshot (m) (name : String) :
      Move overwrites recodes m
        { m with ledger := { m.ledger with snapshots := name :: m.ledger.snapshots } }
  | create (m) (id : ExecutionId) (mem : id ∈ a.executions)
      (missing : m.ledger.status id = none)
      (snapshots : ∀ name ∈ a.snapshots, name ∈ m.ledger.snapshots) :
      Move overwrites recodes m { m with ledger := m.ledger.setStatus id .pending }
  | begin (m) (ready : Initialized a m.ledger) (fresh : m.ledger.runStatus = .prepared) :
      Move overwrites recodes m { m with ledger := { m.ledger with runStatus := .running } }
  | start (m) (id : ExecutionId) (mem : id ∈ a.executions)
      (begun : m.ledger.runStatus = .running) (pending : m.ledger.status id = some .pending)
      (before : ∀ i ∈ a.executions, i < id → m.ledger.status i = some .success)
      (after : ∀ j ∈ a.executions, id < j → m.ledger.status j = some .pending)
      (active : m.process.activeId = some id) :
      Move overwrites recodes m { m with ledger := m.ledger.setStatus id .running }
  | scratch (m) (id : ExecutionId) (tree : Scratch) (running : m.ledger.status id = some .running) :
      Move overwrites recodes m { m with scratch := Function.update m.scratch id (some tree) }
  | copy (m) (id : ExecutionId) (files : Directory) (temporaries : Nat)
      (running : m.ledger.status id = some .running) (regular : RegularNames files) :
      Move overwrites recodes m { m with
        ledger := m.ledger.setResults id files
        process := { m.process with temporaries := temporaries } }
  | workers (m) (id : ExecutionId) (rows : List String)
      (running : m.ledger.status id = some .running) :
      Move overwrites recodes m { m with ledger := m.ledger.setWorkers id rows }
  | exitcode (m) (id : ExecutionId) (rc : Nat) (running : m.ledger.status id = some .running) :
      Move overwrites recodes m { m with ledger := m.ledger.setExitcode id rc }
  | succeed (m) (id : ExecutionId) (running : m.ledger.status id = some .running)
      (zero : m.ledger.exitcode id = some 0) (workers : (m.ledger.workers id).isSome)
      (copied : Copied m id)
      (required : requireSuccessArtifacts a id (m.scratch id) = true) :
      Move overwrites recodes m { m with ledger := m.ledger.setStatus id .success }
  | fail (m) (id : ExecutionId) (rc : Nat) (running : m.ledger.status id = some .running)
      (code : m.ledger.exitcode id = some rc) (nonzero : rc ≠ 0) :
      Move overwrites recodes m { m with ledger := m.ledger.setStatus id .failed }
  | startupError (m) (text : String) :
      Move overwrites recodes m { m with ledger := { m.ledger with startupError := some text } }
  | summary (m) (summary : Summary)
      (cause : summary.runStatus = .failed → ∀ id, summary.failedExecution = some id →
        m.ledger.status id = some .failed ∧ m.process.activeId = some id)
      (kept : recodes ∨ FailureKept m.ledger { m.ledger with summary := some summary }) :
      Move overwrites recodes m { m with ledger := { m.ledger with summary := some summary } }
  | succeedRun (m) (ready : Initialized a m.ledger)
      (all : ∀ id ∈ a.executions, m.ledger.status id = some .success)
      (open_ : ¬m.ledger.runStatus.terminal) :
      Move overwrites recodes m { m with ledger := { m.ledger with runStatus := .success } }
  | failRun (m) (ready : Initialized a m.ledger)
      (stopped : ∀ id, m.ledger.status id ≠ some .running)
      (evidence : (∃ id, m.ledger.status id = some .failed) ∨ m.ledger.startupError.isSome)
      (kept : overwrites ∨ m.ledger.runStatus ≠ .success) :
      Move overwrites recodes m { m with ledger := { m.ledger with runStatus := .failed } }
  | publish (m) (rows : List Row) (complete : manifestRows a m.ledger = some rows) :
      Move overwrites recodes m { m with ledger := { m.ledger with manifest := rows } }

/-- What holds whenever a coordinator can be killed or signalled. -/
structure Durable (m : Machine) : Prop where
  initialized : m.ledger.runStatus ≠ .prepared → Initialized a m.ledger
  unstarted : m.ledger.runStatus = .prepared →
    ∀ id, m.ledger.status id = none ∨ m.ledger.status id = some .pending
  member : ∀ id, m.ledger.status id ≠ none → id ∈ a.executions
  snapshotted : ∀ id, m.ledger.status id ≠ none →
    ∀ name ∈ a.snapshots, name ∈ m.ledger.snapshots
  ordered : ∀ i ∈ a.executions, ∀ j ∈ a.executions, i < j → m.ledger.status j ≠ none →
    m.ledger.status j ≠ some .pending → m.ledger.status i = some .success
  success : ∀ id, m.ledger.status id = some .success →
    m.ledger.exitcode id = some 0 ∧ (m.ledger.workers id).isSome ∧ Copied m id ∧
      requireSuccessArtifacts a id (m.scratch id) = true
  failed : ∀ id, m.ledger.status id = some .failed →
    ∃ rc, m.ledger.exitcode id = some rc ∧ rc ≠ 0
  runSuccess : m.ledger.runStatus = .success →
    ∀ id ∈ a.executions, m.ledger.status id = some .success
  runFailed : m.ledger.runStatus = .failed →
    (∀ id, m.ledger.status id ≠ some .running) ∧
      ((∃ id, m.ledger.status id = some .failed) ∨ m.ledger.startupError.isSome)
  notCancelled : m.ledger.runStatus ≠ .cancelled
  active : ∀ id, m.ledger.status id = some .running → m.process.activeId = some id
  regular : ∀ id, RegularNames (m.ledger.results id)
  cause : ∀ id, m.ledger.blames id →
    m.ledger.status id = some .failed ∧ m.process.activeId = some id
  trapped : m.process.trap = true → m.ledger.runStatus ≠ .prepared
  publishedSuccess : ∀ id, .execution id .success ∈ m.ledger.manifest →
    m.ledger.status id = some .success ∧
      some (m.ledger.manifest.filter (Row.resultOf id)) = resultRows a m.ledger id
  publishedFailure : ∀ id, .execution id .failed ∈ m.ledger.manifest →
    m.ledger.status id = some .failed

end

/-! ## Consequences of one move -/

variable {a : Attempt} {overwrites recodes : Prop} {m m' : Machine}

theorem setStatus_apply (l : Ledger) (id other : ExecutionId) (status : CellStatus) :
    (l.setStatus id status).status other = if other = id then some status else l.status other := by
  simp [Ledger.setStatus, Function.update_apply]

theorem setExitcode_apply (l : Ledger) (id other : ExecutionId) (rc : Nat) :
    (l.setExitcode id rc).exitcode other = if other = id then some rc else l.exitcode other := by
  simp [Ledger.setExitcode, Function.update_apply]

theorem setResults_apply (l : Ledger) (id other : ExecutionId) (files : Directory) :
    (l.setResults id files).results other = if other = id then files else l.results other := by
  simp [Ledger.setResults, Function.update_apply]

theorem setWorkers_apply (l : Ledger) (id other : ExecutionId) (rows : List String) :
    (l.setWorkers id rows).workers other = if other = id then some rows else l.workers other := by
  simp [Ledger.setWorkers, Function.update_apply]

theorem resultRows_congr {l l' : Ledger} {id : ExecutionId} (h : l'.results id = l.results id) :
    resultRows a l' id = resultRows a l id := by
  simp only [resultRows, resultRow, fileRow, Ledger.file?, h]

theorem initialized_congr {l l' : Ledger} (h : Initialized a l) (lock : l'.lock = l.lock)
    (snapshots : l'.snapshots = l.snapshots) (status : l'.status = l.status) :
    Initialized a l' :=
  ⟨lock ▸ h.lock, snapshots ▸ h.snapshots, status ▸ h.statuses⟩

theorem initialized_setStatus {l : Ledger} (h : Initialized a l) (id : ExecutionId)
    (status : CellStatus) : Initialized a (l.setStatus id status) := by
  refine ⟨h.lock, h.snapshots, fun other mem => ?_⟩
  rw [setStatus_apply]
  split
  · rfl
  · exact h.statuses other mem

namespace Durable

theorem published_setStatus (h : Durable a m) {id : ExecutionId} (status : CellStatus)
    (open_ : ∀ s, m.ledger.status id = some s → ¬s.ended) :
    (∀ other, .execution other .success ∈ m.ledger.manifest →
      (m.ledger.setStatus id status).status other = some .success ∧
        some (m.ledger.manifest.filter (Row.resultOf other)) =
          resultRows a (m.ledger.setStatus id status) other) ∧
    ∀ other, .execution other .failed ∈ m.ledger.manifest →
      (m.ledger.setStatus id status).status other = some .failed := by
  constructor
  · intro other mem
    obtain ⟨success, rows⟩ := h.publishedSuccess other mem
    have different : other ≠ id := by
      rintro rfl
      exact open_ _ success (.inl rfl)
    rw [setStatus_apply, if_neg different]
    exact ⟨success, rows⟩
  · intro other mem
    have failed := h.publishedFailure other mem
    have different : other ≠ id := by
      rintro rfl
      exact open_ _ failed (.inr rfl)
    rw [setStatus_apply, if_neg different]
    exact failed

theorem cause_setStatus (h : Durable a m) {id : ExecutionId} (status : CellStatus)
    (open_ : ∀ s, m.ledger.status id = some s → ¬s.ended) :
    ∀ other, (m.ledger.setStatus id status).blames other →
      (m.ledger.setStatus id status).status other = some .failed ∧
        m.process.activeId = some other := by
  intro other blamed
  obtain ⟨failed, active⟩ := h.cause other blamed
  have different : other ≠ id := by
    rintro rfl
    exact open_ _ failed (.inr rfl)
  rw [setStatus_apply, if_neg different]
  exact ⟨failed, active⟩

theorem recordedFailure_blames {l : Ledger} {code : Nat} (h : l.recordedFailure = some code) :
    ∃ id, l.blames id := by
  unfold Ledger.recordedFailure at h
  split at h
  · rename_i id _ eq
    exact ⟨id, _, eq, rfl, rfl⟩
  · cases h

theorem running_facts (h : Durable a m) {id : ExecutionId}
    (running : m.ledger.status id = some .running) :
    id ∈ a.executions ∧ m.ledger.runStatus = .running ∧
      (∀ i ∈ a.executions, i < id → m.ledger.status i = some .success) ∧
      ∀ j ∈ a.executions, id < j → m.ledger.status j = none ∨ m.ledger.status j = some .pending := by
  have mem := h.member id (by simp [running])
  refine ⟨mem, ?_, ?_, ?_⟩
  · cases status : m.ledger.runStatus with
    | prepared => simpa [running] using h.unstarted status id
    | running => rfl
    | success => simpa [running] using h.runSuccess status id mem
    | failed => exact absurd running ((h.runFailed status).1 id)
    | cancelled => exact absurd status h.notCancelled
  · intro i hi lt
    exact h.ordered i hi id mem lt (by simp [running]) (by simp [running])
  · intro j hj lt
    by_contra other
    push Not at other
    simpa [running] using h.ordered id mem j hj lt other.1 other.2

theorem setStatus (h : Durable a m) {id : ExecutionId} {status : CellStatus}
    (mem : id ∈ a.executions) (snapshots : ∀ name ∈ a.snapshots, name ∈ m.ledger.snapshots)
    (open_ : ∀ s, m.ledger.status id = some s → ¬s.ended)
    (fresh : m.ledger.runStatus = .prepared → status = .pending)
    (before : status ≠ .pending → ∀ i ∈ a.executions, i < id → m.ledger.status i = some .success)
    (success : status = .success → m.ledger.exitcode id = some 0 ∧ (m.ledger.workers id).isSome ∧
      Copied m id ∧ requireSuccessArtifacts a id (m.scratch id) = true)
    (failed : status = .failed → ∃ rc, m.ledger.exitcode id = some rc ∧ rc ≠ 0)
    (running : status = .running →
      m.process.activeId = some id ∧ m.ledger.runStatus ≠ .failed) :
    Durable a { m with ledger := m.ledger.setStatus id status } := by
  have published := h.published_setStatus status open_
  have notSuccess : m.ledger.status id ≠ some .success := fun eq => open_ _ eq (.inl rfl)
  have notFailed : m.ledger.status id ≠ some .failed := fun eq => open_ _ eq (.inr rfl)
  exact {
    initialized := fun begun => initialized_setStatus (h.initialized begun) id status
    unstarted := fun prepared other => by
      rw [setStatus_apply]
      split
      · exact .inr (congrArg some (fresh prepared))
      · exact h.unstarted prepared other
    member := fun other present => by
      rw [setStatus_apply] at present
      split at present
      · rename_i same
        exact same ▸ mem
      · exact h.member other present
    snapshotted := fun _ _ => snapshots
    ordered := fun i hi j hj lt present started => by
      have earlier : i ≠ id ∧ m.ledger.status i = some .success := by
        rw [setStatus_apply] at present started
        split at started
        · rename_i same
          subst same
          exact ⟨ne_of_lt lt, before (fun eq => started (congrArg _ eq)) i hi lt⟩
        · rename_i other
          rw [if_neg other] at present
          have success := h.ordered i hi j hj lt present started
          exact ⟨fun same => notSuccess (same ▸ success), success⟩
      rw [setStatus_apply, if_neg earlier.1]
      exact earlier.2
    success := fun other eq => by
      rw [setStatus_apply] at eq
      split at eq
      · rename_i same
        subst same
        exact success (Option.some.inj eq)
      · exact h.success other eq
    failed := fun other eq => by
      rw [setStatus_apply] at eq
      split at eq
      · rename_i same
        subst same
        exact failed (Option.some.inj eq)
      · exact h.failed other eq
    runSuccess := fun all _ _ => absurd (h.runSuccess all id mem) notSuccess
    runFailed := fun ended => by
      obtain ⟨stopped, evidence⟩ := h.runFailed ended
      refine ⟨fun other eq => ?_, evidence.imp_left ?_⟩
      · rw [setStatus_apply] at eq
        split at eq
        · exact (running (Option.some.inj eq)).2 ended
        · exact stopped other eq
      · rintro ⟨other, eq⟩
        refine ⟨other, ?_⟩
        rw [setStatus_apply, if_neg]
        · exact eq
        · rintro rfl
          exact notFailed eq
    notCancelled := h.notCancelled
    active := fun other eq => by
      rw [setStatus_apply] at eq
      split at eq
      · rename_i same
        exact same ▸ (running (Option.some.inj eq)).1
      · exact h.active other eq
    regular := h.regular
    cause := h.cause_setStatus status open_
    trapped := h.trapped
    publishedSuccess := published.1
    publishedFailure := published.2 }

theorem move (h : Durable a m) (mv : Move a overwrites recodes m m') : Durable a m' := by
  cases mv with
  | stutter => exact h
  | process p active trapped arms =>
      exact { h with
        active := fun id running => active id (.inl running)
        cause := fun id blamed => ⟨(h.cause id blamed).1, active id (.inr blamed)⟩
        trapped }
  | lock lock fresh => exact { h with initialized := fun begun => absurd fresh begun }
  | snapshot name =>
      refine { h with
        snapshotted := fun id present other mem =>
          List.mem_cons_of_mem _ (h.snapshotted id present other mem)
        initialized := fun begun => ?_ }
      have ready := h.initialized begun
      exact ⟨ready.lock, fun other mem => List.mem_cons_of_mem _ (ready.snapshots other mem),
        ready.statuses⟩
  | create id mem missing snapshots =>
      exact h.setStatus mem snapshots (by simp [missing]) (fun _ => rfl) (by simp) (by simp) (by simp)
        (by simp)
  | begin ready fresh =>
      exact { h with
        initialized := fun _ => initialized_congr ready rfl rfl rfl
        trapped := by simp
        unstarted := by simp
        runSuccess := by simp
        runFailed := by simp
        notCancelled := by simp }
  | start id mem begun pending before after active =>
      refine h.setStatus mem (h.snapshotted id (by simp [pending])) ?_ (by simp [begun])
        (fun _ => before) (by simp) (by simp) fun _ => ⟨active, by simp [begun]⟩
      intro s eq
      obtain rfl : s = .pending := by simpa [pending] using eq.symm
      rintro (ended | ended) <;> cases ended
  | scratch id tree running =>
      refine { h with success := fun other eq => ?_ }
      have different : other ≠ id := by
        rintro rfl
        simp [running] at eq
      simpa [Copied, Function.update_of_ne different] using h.success other eq
  | copy id files temporaries running regular =>
      have different : ∀ other, m.ledger.status other = some .success → other ≠ id := by
        rintro other eq rfl
        simp [running] at eq
      have same : ∀ other, m.ledger.status other = some .success →
          (m.ledger.setResults id files).results other = m.ledger.results other :=
        fun other eq => by rw [setResults_apply, if_neg (different other eq)]
      exact { h with
        initialized := fun begun => initialized_congr (h.initialized begun) rfl rfl rfl
        success := fun other eq => by
          obtain ⟨zero, workers, ⟨tree, left, plain, copies⟩, required⟩ := h.success other eq
          refine ⟨zero, workers, ⟨tree, left, plain, fun name bytes found => ?_⟩, required⟩
          rw [same other eq]
          exact copies name bytes found
        active := h.active
        regular := fun other => by
          rw [setResults_apply]
          split
          · exact regular
          · exact h.regular other
        publishedSuccess := fun other published => by
          obtain ⟨success, rows⟩ := h.publishedSuccess other published
          exact ⟨success, rows.trans (resultRows_congr (same other success)).symm⟩ }
  | workers id rows running =>
      refine { h with
        initialized := fun begun => initialized_congr (h.initialized begun) rfl rfl rfl
        success := fun other eq => ?_ }
      obtain ⟨zero, workers, rest⟩ := h.success other eq
      refine ⟨zero, ?_, rest⟩
      rw [setWorkers_apply]
      split
      · rfl
      · exact workers
  | exitcode id rc running =>
      have different : ∀ other status, m.ledger.status other = some status → status.ended →
          (m.ledger.setExitcode id rc).exitcode other = m.ledger.exitcode other := by
        intro other status eq ended
        rw [setExitcode_apply, if_neg]
        rintro rfl
        obtain rfl : .running = status := Option.some.inj (running.symm.trans eq)
        rcases ended with ended | ended <;> cases ended
      exact { h with
        initialized := fun begun => initialized_congr (h.initialized begun) rfl rfl rfl
        success := fun other eq => by
          rw [different other _ eq (.inl rfl)]
          exact h.success other eq
        failed := fun other eq => by
          rw [different other _ eq (.inr rfl)]
          exact h.failed other eq }
  | succeed id running zero workers copied required =>
      obtain ⟨mem, begun, before, -⟩ := h.running_facts running
      refine h.setStatus mem (h.snapshotted id (by simp [running])) ?_ (by simp [begun])
        (fun _ => before) (fun _ => ⟨zero, workers, copied, required⟩) (by simp) (by simp)
      intro s eq
      obtain rfl : s = .running := by simpa [running] using eq.symm
      rintro (ended | ended) <;> cases ended
  | fail id rc running code nonzero =>
      obtain ⟨mem, begun, before, -⟩ := h.running_facts running
      refine h.setStatus mem (h.snapshotted id (by simp [running])) ?_ (by simp [begun])
        (fun _ => before) (by simp) (fun _ => ⟨rc, code, nonzero⟩) (by simp)
      intro s eq
      obtain rfl : s = .running := by simpa [running] using eq.symm
      rintro (ended | ended) <;> cases ended
  | startupError text =>
      exact { h with
        initialized := fun begun => initialized_congr (h.initialized begun) rfl rfl rfl
        runFailed := fun failed => ⟨(h.runFailed failed).1, .inr rfl⟩ }
  | summary summary cause kept =>
      exact { h with
        initialized := fun begun => initialized_congr (h.initialized begun) rfl rfl rfl
        cause := by
          rintro id ⟨s, eq, failed, blamed⟩
          obtain rfl := Option.some.inj eq
          exact cause failed id blamed }
  | succeedRun ready all open_ =>
      exact { h with
        initialized := fun _ => initialized_congr ready rfl rfl rfl
        trapped := by simp
        unstarted := by simp
        runSuccess := fun _ => all
        runFailed := by simp
        notCancelled := by simp }
  | failRun ready stopped evidence kept =>
      exact { h with
        initialized := fun _ => initialized_congr ready rfl rfl rfl
        trapped := by simp
        unstarted := by simp
        runSuccess := by simp
        runFailed := fun _ => ⟨stopped, evidence⟩
        notCancelled := by simp }
  | publish rows complete =>
      exact { h with
        initialized := fun begun => initialized_congr (h.initialized begun) rfl rfl rfl
        publishedSuccess := fun id mem => by
          obtain ⟨inList, eq⟩ := (manifestRows_execution complete).mp mem
          exact ⟨eq, manifestRows_results complete inList⟩
        publishedFailure := fun id mem => ((manifestRows_execution complete).mp mem).2 }

/-- Only the last cell that was started can have been blamed, so none is running. -/
theorem recordedFailure_running (h : Durable a m) {id : ExecutionId}
    (running : m.ledger.status id = some .running) : m.ledger.recordedFailure = none := by
  by_contra recorded
  obtain ⟨code, eq⟩ := Option.ne_none_iff_exists'.mp recorded
  obtain ⟨other, blamed⟩ := recordedFailure_blames eq
  obtain ⟨failed, active⟩ := h.cause other blamed
  obtain rfl : other = id := Option.some.inj (active.symm.trans (h.active id running))
  simp [running] at failed

end Durable

end StorageScaleTest.Coordinator
