import StorageScaleTest.Proof.Coordinator.Process

/-!
# Terminal outcomes, signals and whole runs

`coordinator_meets` puts the moves together: every state in which a coordinator can be killed,
with or without a signal delivered at any of its actions, is durable.
-/

namespace StorageScaleTest.Coordinator

open Interruptible Interruptible.Program

variable {a : Attempt} {overwrites recodes : Prop} {m m' : Machine} {id : ExecutionId}

/-! ## Terminal outcomes -/

def withRunStatus (m : Machine) (status : RunStatus) : Machine :=
  { m with ledger := { m.ledger with runStatus := status } }

def withStartupError (m : Machine) (text : String) : Machine :=
  { m with ledger := { m.ledger with startupError := some text } }

/-- The manifest, once the run is terminal, is that of the ledger as it stands. -/
def Settled (a : Attempt) (m : Machine) : Prop :=
  m.ledger.runStatus.terminal → manifestRows a m.ledger = some m.ledger.manifest

structure Outcome (a : Attempt) (final : RunStatus) (rc : Nat) (m m' : Machine) : Prop where
  runStatus : m'.ledger.runStatus = final
  code : m'.ledger.summary.bind (·.exitCode) = some rc
  status : m'.ledger.status = m.ledger.status
  published : manifestRows a m'.ledger = some m'.ledger.manifest
  process : m'.process = m.process
  recorded : m.ledger.recordedFailure ≠ none → m'.ledger.recordedFailure = some rc

theorem writeOutcome_meets {final : RunStatus} {failedId : Option ExecutionId} {rc : Nat}
    (h : Durable a m) (begun : m.ledger.runStatus ≠ .prepared) (terminal : final ≠ .prepared)
    (stopped : ∀ id, m.ledger.status id ≠ some .running)
    (summary : Move a overwrites recodes m
      (withSummary m (summaryOf a m.ledger final failedId (some rc))))
    (status : Move a overwrites recodes
      (withSummary m (summaryOf a m.ledger final failedId (some rc)))
      (withRunStatus (withSummary m (summaryOf a m.ledger final failedId (some rc))) final))
    (recorded : m.ledger.recordedFailure ≠ none → final = .failed ∧ failedId.isSome) :
    Meets (Durable a) (Move a overwrites recodes) (writeOutcome a final failedId rc)
      (fun rc' m' => rc' = 0 ∧ Outcome a final rc m m') m := by
  have ready := h.initialized begun
  have durable := h.move summary
  refine checked_meets (writeSummary_meets h (.stutter m) ready.statuses (fun _ => stopped)
    summary durable) ?_ ?_
  · rintro m' - ⟨-, rfl⟩
    have ended := durable.move status
    obtain ⟨rows, complete⟩ := ended.publishable terminal rfl
    have publish : Move a overwrites recodes _ (withManifest _ rows) := .publish _ rows complete
    refine .step durable status ?_
    refine (publishManifest_meets ended (.stutter _) complete publish
      (ended.move publish)).weaken ?_
    rintro rc' m' - ⟨zero, rfl⟩
    refine ⟨zero, rfl, rfl, rfl, complete, rfl, fun blamed => ?_⟩
    obtain ⟨rfl, some⟩ := recorded blamed
    obtain ⟨id, rfl⟩ := Option.isSome_iff_exists.mp some
    rfl
  · rintro rc' m' - failed ⟨zero, -⟩
    exact absurd zero failed

theorem Durable.failedStatus_of_recorded (h : Durable a m)
    (recorded : m.ledger.recordedFailure ≠ none) :
    failedStatus m.ledger m.process.activeId = true := by
  obtain ⟨code, eq⟩ := Option.ne_none_iff_exists'.mp recorded
  obtain ⟨id, blamed⟩ := recordedFailure_blames eq
  obtain ⟨failed, active⟩ := h.cause id blamed
  simp [failedStatus, active, failed]

theorem finalizeRun_failure {rc : Nat} (h : Durable a m) (begun : m.ledger.runStatus ≠ .prepared)
    (stopped : ∀ id, m.ledger.status id ≠ some .running) (failure : rc ≠ 0)
    (kept : overwrites ∨ m.ledger.runStatus ≠ .success) (waited : recodes ∨ Waited rc m) :
    Meets (Durable a) (Move a overwrites recodes) (finalizeRun a rc m.process.activeId)
      (fun rc' m' => rc' = 0 ∧ Outcome a .failed rc m m') m := by
  refine .look h (.stutter m) ?_
  rw [if_neg failure]
  by_cases failed : failedStatus m.ledger m.process.activeId = true
  · rw [if_pos failed]
    obtain ⟨id, active, cell⟩ : ∃ id, m.process.activeId = some id ∧
        m.ledger.status id = some .failed := by
      simpa [failedStatus, Option.bind_eq_some_iff] using failed
    rw [active]
    have summary : Move a overwrites recodes m
        (withSummary m (summaryOf a m.ledger .failed (some id) (some rc))) := by
      refine .summary m _ (fun _ other same => ?_) (waited.imp_right fun waited code eq => ?_)
      · obtain rfl : id = other := Option.some.inj same
        exact ⟨cell, active⟩
      · exact ⟨rc, rfl, waited code eq⟩
    exact writeOutcome_meets h begun (by simp) stopped summary
      (.failRun _ (initialized_congr (h.initialized begun) rfl rfl rfl) stopped
        (.inl ⟨id, cell⟩) kept) fun _ => ⟨rfl, rfl⟩
  · rw [if_neg failed]
    have unrecorded : m.ledger.recordedFailure = none := by
      by_contra recorded
      exact failed (h.failedStatus_of_recorded recorded)
    have evidence : Move a overwrites recodes m
        (withStartupError m (describe m.process.activeId rc)) := .startupError m _
    have durable := h.move evidence
    have summary : Move a overwrites recodes (withStartupError m (describe m.process.activeId rc))
        (withSummary (withStartupError m (describe m.process.activeId rc))
          (summaryOf a m.ledger .failed none (some rc))) := by
      refine .summary _ _ (fun _ _ same => by cases same) (.inr fun code eq => ?_)
      exact absurd (unrecorded.symm.trans eq) (by simp)
    refine .step h evidence ((writeOutcome_meets durable begun (by simp) stopped summary
      (.failRun _ (initialized_congr (h.initialized begun) rfl rfl rfl) stopped (.inr rfl) kept)
      fun recorded => absurd unrecorded recorded).weaken ?_)
    rintro rc' m' - ⟨zero, outcome⟩
    exact ⟨zero, outcome.runStatus, outcome.code, outcome.status, outcome.published,
      outcome.process, fun recorded => absurd unrecorded recorded⟩

theorem finalizeRun_success {failedId : Option ExecutionId} (h : Durable a m)
    (begun : m.ledger.runStatus = .running)
    (all : ∀ id ∈ a.executions, m.ledger.status id = some .success) :
    Meets (Durable a) (Move a overwrites recodes) (finalizeRun a 0 failedId)
      (fun rc' m' => rc' = 0 ∧ Outcome a .success 0 m m') m := by
  have status : ∀ id, m.ledger.status id = none ∨ m.ledger.status id = some .success := by
    intro id
    by_cases present : m.ledger.status id = none
    · exact .inl present
    · exact .inr (all id (h.member id present))
  have stopped : ∀ id, m.ledger.status id ≠ some .running := fun id running => by
    simpa [running] using status id
  have unrecorded := h.unrecorded fun id failed => by simpa [failed] using status id
  have ready := h.initialized (by simp [begun])
  refine .look h (.stutter m) ?_
  have summary : Move a overwrites recodes m
      (withSummary m (summaryOf a m.ledger .success failedId (some 0))) := by
    refine .summary m _ (fun failed => by cases failed) (.inr fun code eq => ?_)
    exact absurd (unrecorded.symm.trans eq) (by simp)
  refine writeOutcome_meets h (by simp [begun]) (by simp) stopped summary
    (.succeedRun _ (initialized_congr ready rfl rfl rfl) all ?_)
    fun recorded => absurd unrecorded recorded
  simp [withSummary, begun, RunStatus.terminal]

/-! ## Startup -/

theorem initializeSnapshots_meets {I : Machine → Prop} {G : Machine → Machine → Prop}
    {allow : Bool} {names : List String} {m : Machine} (hI : I m)
    (stay : ∀ m, G m m)
    (add : ∀ m name, I m → G m { m with ledger :=
        { m.ledger with snapshots := name :: m.ledger.snapshots } } ∧
      I { m with ledger := { m.ledger with snapshots := name :: m.ledger.snapshots } })
    (creates : allow = true ∨ ∀ name ∈ names, name ∈ m.ledger.snapshots) :
    Meets I G (initializeSnapshots allow names) (fun rc m' => rc = 0 ∧ ∃ present,
      m' = { m with ledger := { m.ledger with snapshots := present } } ∧
        (∀ name ∈ m.ledger.snapshots, name ∈ present) ∧ ∀ name ∈ names, name ∈ present) m := by
  induction names generalizing m with
  | nil => exact ⟨hI, rfl, m.ledger.snapshots, rfl, fun _ mem => mem, by simp⟩
  | cons name rest ih =>
      refine .look hI (stay m) ?_
      by_cases present : name ∈ m.ledger.snapshots
      · rw [if_pos present]
        refine (ih hI (creates.imp_right fun h other mem =>
          h other (List.mem_cons_of_mem _ mem))).weaken ?_
        rintro rc m' - ⟨zero, present', rfl, kept, all⟩
        exact ⟨zero, present', rfl, kept, List.forall_mem_cons.mpr ⟨kept name present, all⟩⟩
      · have allowed : allow = true := creates.resolve_right fun h =>
          present (h name List.mem_cons_self)
        rw [if_neg present, if_neg (by simp [allowed])]
        obtain ⟨mv, next⟩ := add m name hI
        refine .step hI mv ((ih next (.inl allowed)).weaken ?_)
        rintro rc m' - ⟨zero, present', rfl, kept, all⟩
        exact ⟨zero, present', rfl, fun other mem => kept other (List.mem_cons_of_mem _ mem),
          List.forall_mem_cons.mpr ⟨kept name List.mem_cons_self, all⟩⟩

structure Filled (ids : List ExecutionId) (m m' : Machine) : Prop where
  rest : m' = { m with ledger := { m.ledger with status := m'.ledger.status } }
  kept : ∀ id, m.ledger.status id ≠ none → m'.ledger.status id = m.ledger.status id
  created : ∀ id, m.ledger.status id = none →
    m'.ledger.status id = if id ∈ ids then some .pending else none

theorem initializeExecutionStates_meets {I : Machine → Prop} {G : Machine → Machine → Prop}
    {allow : Bool} {ids : List ExecutionId} {m : Machine} (hI : I m) (stay : ∀ m, G m m)
    (create : ∀ m id, I m → id ∈ ids → m.ledger.status id = none →
      G m (withStatus m id .pending) ∧ I (withStatus m id .pending))
    (creates : allow = true ∨ ∀ id ∈ ids, (m.ledger.status id).isSome) :
    Meets I G (initializeExecutionStates allow ids) (fun rc m' => rc = 0 ∧ Filled ids m m') m := by
  induction ids generalizing m with
  | nil => exact ⟨hI, rfl, rfl, fun _ _ => rfl, fun _ none => none⟩
  | cons id rest ih =>
      have later : ∀ m other, I m → other ∈ rest → m.ledger.status other = none →
          G m (withStatus m other .pending) ∧ I (withStatus m other .pending) :=
        fun m other h mem => create m other h (List.mem_cons_of_mem _ mem)
      refine .look hI (stay m) ?_
      by_cases present : (m.ledger.status id).isSome
      · rw [if_pos present]
        refine (ih hI later (creates.imp_right fun h other mem =>
          h other (List.mem_cons_of_mem _ mem))).weaken ?_
        rintro rc m' - ⟨zero, filled⟩
        refine ⟨zero, filled.rest, filled.kept, fun other none => ?_⟩
        have different : other ≠ id := by
          rintro rfl
          simp [none] at present
        simp [filled.created other none, different]
      · have allowed : allow = true := creates.resolve_right fun h =>
          present (h id List.mem_cons_self)
        have missing : m.ledger.status id = none := Option.not_isSome_iff_eq_none.mp present
        rw [if_neg present, if_neg (by simp [allowed])]
        obtain ⟨mv, next⟩ := create m id hI List.mem_cons_self missing
        refine .step hI mv ((ih next later (.inl allowed)).weaken ?_)
        rintro rc m' - ⟨zero, filled⟩
        have made : m'.ledger.status id = some .pending := by
          rw [filled.kept id (by simp)]
          simp
        have other : ∀ other, other ≠ id →
            (withStatus m id .pending).ledger.status other = m.ledger.status other :=
          fun other different => (setStatus_apply ..).trans (if_neg different)
        refine ⟨zero, filled.rest, fun z some => ?_, fun z none => ?_⟩
        · have different : z ≠ id := by
            rintro rfl
            exact some missing
          rw [filled.kept z (by rw [other z different]; exact some), other z different]
        · by_cases same : z = id
          · subst same
            rw [made, if_pos List.mem_cons_self]
          · rw [filled.created z (by rw [other z same]; exact none)]
            simp [same]

/-! ## The sweep -/

theorem Outcome.settled {final : RunStatus} {rc : Nat} (h : Outcome a final rc m m') :
    Settled a m' := fun _ => h.published

structure Ready (a : Attempt) (m : Machine) : Prop where
  durable : Durable a m
  fresh : m.ledger.runStatus = .prepared
  initialized : Initialized a m.ledger
  idle : m.process.activeId = none
  quiet : m.process.trap = false

namespace Ready

theorem pending (h : Ready a m) {id : ExecutionId} (mem : id ∈ a.executions) :
    m.ledger.status id = some .pending :=
  (h.durable.unstarted h.fresh id).resolve_left
    (Option.isSome_iff_ne_none.mp (h.initialized.statuses id mem))

theorem stopped (h : Ready a m) (id : ExecutionId) :
    m.ledger.status id ≠ some .running ∧ m.ledger.status id ≠ some .failed := by
  rcases h.durable.unstarted h.fresh id with eq | eq <;> simp [eq]

end Ready

def Exited (a : Attempt) (rc : Nat) (m : Machine) : Prop :=
  Settled a m ∧ (rc = 0 → m.ledger.runStatus = .success)

theorem sweep_meets (env : Environment) (h : Ready a m) :
    Meets (Durable a) (Move a overwrites False) (sweep a env) (Exited a) m := by
  have begin : Move a overwrites False m (withRunStatus m .running) :=
    .begin m h.initialized h.fresh
  have begun := h.durable.move begin
  have unrecorded := begun.unrecorded fun id => (h.stopped id).2
  have summary := summary_running_move overwrites False (a := a) unrecorded
  refine .step h.durable begin (checked_meets (writeSummary_meets begun (.stutter _)
    h.initialized.statuses (fun terminal => by cases terminal) summary (begun.move summary)) ?_ ?_)
  · rintro m' durable ⟨-, rfl⟩
    have trap : Move a overwrites False _ (withProcess _ { m.process with trap := true }) :=
      .process (withSummary (withRunStatus m .running)
        (summaryOf a (withRunStatus m .running).ledger .running none none)) _
        (fun id cause => by
          rcases cause with running | blamed
          · exact absurd running (h.stopped id).1
          · exact absurd (durable.cause id blamed).1 (h.stopped id).2)
        (fun _ => by simp [withSummary, withRunStatus])
        (fun _ => .inr id)
    have trapped := durable.move trap
    refine .step durable trap (Meets.bind_of (runCells_meets env ⟨trapped, rfl, h.idle,
      ⟨[], rfl, by simp⟩, fun id mem => h.pending mem⟩) ?_)
    rintro result m'' - ⟨rc, failedId, rfl, finished⟩
    obtain ⟨durable', begun', rfl, stopped, success, waited⟩ := finished
    have finalize : Meets (Durable a) (Move a overwrites False)
        (finalizeRun a rc m''.process.activeId)
        (fun rc' m => rc' = 0 ∧ Settled a m) m'' := by
      by_cases zero : rc = 0
      · subst zero
        exact (finalizeRun_success durable' begun' (success rfl)).weaken
          fun _ _ _ done => ⟨done.1, done.2.settled⟩
      · exact (finalizeRun_failure durable' (by simp [begun']) stopped zero
          (.inr (by simp [begun'])) (.inr waited)).weaken
          fun _ _ _ done => ⟨done.1, done.2.settled⟩
    refine checked_meets finalize ?_ ?_
    · rintro last inLast ⟨-, settled⟩
      refine .look inLast (.stutter _) ?_
      split
      · exact ⟨inLast, settled, nofun⟩
      · rename_i ended
        exact ⟨inLast, settled, fun zero => by simpa [zero] using ended⟩
    · rintro rc' last - failed ⟨zero, -⟩
      exact absurd zero failed
  · rintro rc m' - failed ⟨zero, -⟩
    exact absurd zero failed

theorem startupFailure_meets (message : String) (h : Ready a m) :
    Meets (Durable a) (Move a overwrites recodes) (startupFailure a message) (Exited a) m := by
  have unrecorded := h.durable.unrecorded fun id => (h.stopped id).2
  have evidence : Move a overwrites recodes m (withStartupError m message) := .startupError m _
  have summary : Move a overwrites recodes (withStartupError m message)
      (withSummary (withStartupError m message) (summaryOf a m.ledger .failed none (some 1))) := by
    refine .summary _ _ (fun _ _ same => by cases same) (.inr fun code eq => ?_)
    exact absurd (unrecorded.symm.trans eq) (by simp)
  have durable := h.durable.move evidence
  have stopped := fun id => (h.stopped id).1
  have ready := h.initialized
  have failed : Move a overwrites recodes
      (withSummary (withStartupError m message) (summaryOf a m.ledger .failed none (some 1)))
      (withRunStatus (withSummary (withStartupError m message)
        (summaryOf a m.ledger .failed none (some 1))) .failed) :=
    .failRun _ (initialized_congr ready rfl rfl rfl) stopped (.inr rfl)
      (.inr (by simp [withSummary, withStartupError, h.fresh]))
  -- The terminal status is the first write to leave PREPARED, so the manifest is checked after it.
  have durable' := durable.move summary
  have ended := durable'.move failed
  obtain ⟨rows, complete⟩ := ended.publishable (by simp [withRunStatus]) rfl
  have publish : Move a overwrites recodes _ (withManifest _ rows) := .publish _ rows complete
  refine Meets.bind_of (ignored_meets (Q := fun _ m => Settled a m) (.step h.durable evidence
    (checked_meets (writeSummary_meets durable (.stutter _) ready.statuses (fun _ => stopped)
      summary durable') ?_ ?_))) fun _ m' inLast settled => ⟨inLast, settled, nofun⟩
  · rintro m' - ⟨-, rfl⟩
    refine .step durable' failed ((publishManifest_meets ended (.stutter _) complete publish
      (ended.move publish)).weaken ?_)
    rintro rc m' - ⟨-, rfl⟩
    exact fun _ => complete
  · rintro rc m' - failed ⟨zero, -⟩
    exact absurd zero failed

theorem submitted_durable (a : Attempt) : Durable a .submitted where
  initialized begun := absurd rfl begun
  unstarted _ _ := .inl rfl
  member _ present := absurd rfl present
  snapshotted _ present := absurd rfl present
  ordered _ _ _ _ _ present := absurd rfl present
  success _ eq := by cases eq
  failed _ eq := by cases eq
  runSuccess eq := by cases eq
  runFailed eq := by cases eq
  notCancelled eq := by cases eq
  active _ eq := by cases eq
  regular _ name mem := by simp [Machine.submitted, Ledger.submitted, Directory.empty,
    Directory.names] at mem
  cause _ blamed := by
    obtain ⟨_, eq, -⟩ := blamed
    cases eq
  trapped eq := by cases eq
  publishedSuccess _ mem := by cases mem
  publishedFailure _ mem := by cases mem

theorem initializeState_meets (a : Attempt) :
    Meets (Durable a) (Move a overwrites recodes) (initializeState a)
      (fun rc m' => rc = 0 ∧ Ready a m') .submitted := by
  have h := submitted_durable a
  have directory : Move a overwrites recodes .submitted
      { Machine.submitted with ledger := { Ledger.submitted with lock := .directory } } :=
    .lock .submitted .directory rfl
  have held := h.move directory
  have owner : Move a overwrites recodes
      { Machine.submitted with ledger := { Ledger.submitted with lock := .directory } }
      { Machine.submitted with ledger := { Ledger.submitted with lock := .owned } } :=
    .lock _ .owned rfl
  have owned := held.move owner
  refine .look h (.stutter _) (.step h directory (.step held owner (checked_meets
    (initializeSnapshots_meets owned .stutter (fun m name h => ?_) (.inl rfl)) ?_ ?_)))
  · have mv : Move a overwrites recodes m _ := .snapshot m name
    exact ⟨mv, h.move mv⟩
  · rintro m' durable ⟨-, present, rfl, -, all⟩
    -- The states are created only once all snapshots are there.
    refine (initializeExecutionStates_meets (I := fun m => Durable a m ∧
      ∀ name ∈ a.snapshots, name ∈ m.ledger.snapshots) ⟨durable, all⟩ .stutter
      (fun m id h mem missing => ?_) (.inl rfl)).mono (fun _ h => h.1) (fun _ _ _ _ mv => mv) ?_
    · have mv : Move a overwrites recodes m (withStatus m id .pending) :=
        .create m id mem missing h.2
      exact ⟨mv, h.1.move mv, h.2⟩
    · rintro rc m' ⟨durable', -⟩ ⟨zero, filled⟩
      obtain ⟨rest, -, created⟩ := filled
      rw [rest] at durable' ⊢
      refine ⟨zero, durable', rfl, ⟨rfl, all, fun id mem => ?_⟩, rfl, rfl⟩
      simp [created id rfl, mem]
  · rintro rc m' - failed ⟨zero, -⟩
    exact absurd zero failed

theorem coordinatorMain_meets (env : Environment) :
    Meets (Durable a) (Move a overwrites False) (coordinatorMain a env) (Exited a) .submitted := by
  refine checked_meets (initializeState_meets a) ?_ ?_
  · rintro m - ⟨-, ready⟩
    split
    · exact startupFailure_meets _ ready
    · split
      · exact startupFailure_meets _ ready
      · split
        · exact startupFailure_meets _ ready
        · exact sweep_meets env ready
  · rintro rc m - failed ⟨zero, -⟩
    exact absurd zero failed

end StorageScaleTest.Coordinator
