import StorageScaleTest.Proof.Coordinator.Cell

/-!
# The coordinator process makes only moves of the protocol

The child of a cell, the parent's loop over the cells, the terminal outcome and the signal handler,
each with the facts its caller goes on with.
-/

namespace StorageScaleTest.Coordinator

open Interruptible Interruptible.Program

variable {a : Attempt} {overwrites recodes : Prop} {m m' : Machine} {id : ExecutionId}

/-! ## The child -/

def withProcess (m : Machine) (p : Process) : Machine := { m with process := p }

variable (overwrites recodes) in
theorem Durable.process_move (h : Durable a m) (p : Process)
    (active : p.activeId = m.process.activeId) (trap : p.trap = true → m.process.trap = true) :
    Move a overwrites recodes m (withProcess m p) := by
  refine .process m p (fun id cause => active.trans ?_)
    (fun trapped => h.trapped (trap trapped)) fun trapped => .inl (trap trapped)
  rcases cause with running | blamed
  · exact h.active id running
  · exact (h.cause id blamed).2

variable (overwrites recodes) in
theorem InCell.process_move (h : InCell a id m) (p : Process)
    (active : p.activeId = m.process.activeId) (trap : p.trap = true → m.process.trap = true) :
    Move a overwrites recodes m (withProcess m p) ∧ InCell a id (withProcess m p) := by
  have mv := h.durable.process_move overwrites recodes p active trap
  exact ⟨mv, h.step mv rfl active (fun _ _ => rfl) h.started h.recorded⟩

def ChildExit (id : ExecutionId) (rc : Nat) (m : Machine) : Prop :=
  (m.ledger.status id = some .running ∧ rc ≠ 0) ∨ Ended id rc m

theorem failBeforeBenchmark_meets (env : Environment) (h : InCell a id m)
    (running : m.ledger.status id = some .running) :
    Meets (InCell a id) (Move a overwrites recodes) (failBeforeBenchmark a env id)
      (ChildExit id) m := by
  have finish : Meets (InCell a id) (Move a overwrites recodes) _ _ m :=
    finishPrebenchmarkFailure_meets env h running 1
  refine Meets.bind_of (ignored_meets (Q := fun _ m => Ended id (nonzero 1) m)
    (finish.weaken fun _ _ _ ended => ended.2)) fun _ m' h' ended => ?_
  exact ⟨h', .inr ended⟩

variable (overwrites recodes) in
theorem setScratch_move (h : InCell a id m) (running : m.ledger.status id = some .running)
    (tree : Scratch) :
    Move a overwrites recodes m
        { m with scratch := Function.update m.scratch id (some tree) } ∧
      InCell a id { m with scratch := Function.update m.scratch id (some tree) } := by
  have mv : Move a overwrites recodes m _ := .scratch m id tree running
  exact ⟨mv, h.step mv rfl rfl (fun _ _ => rfl) h.started h.recorded⟩

theorem runBenchmark_meets (contents : List Scratch) (h : InCell a id m)
    (running : m.ledger.status id = some .running) :
    Meets (InCell a id) (Move a overwrites recodes) (runBenchmark id contents)
      (fun _ m' => m'.ledger = m.ledger) m := by
  induction contents generalizing m with
  | nil => exact ⟨h, rfl⟩
  | cons tree rest ih =>
      obtain ⟨mv, inCell⟩ := setScratch_move overwrites recodes h running tree
      exact .step h mv (ih inCell running)

def CellExit (id : ExecutionId) (l : Ledger) (rc : Nat) (m : Machine) : Prop :=
  (m.ledger.status id = some .running ∧ rc ≠ 0 ∧ m.ledger.workers = l.workers) ∨ Ended id rc m

theorem runCell_meets (env : Environment) (h : InCell a id m)
    (running : m.ledger.status id = some .running) (workers : (m.ledger.workers id).isSome) :
    Meets (InCell a id) (Move a overwrites recodes) (runCell a env id)
      (CellExit id m.ledger) m := by
  refine Meets.bind_of (runBenchmark_meets _ h running) fun _ m' h' same => ?_
  rw [← same] at running workers ⊢
  refine Meets.bind_of (resultPublicationHook_meets env h' running workers _)
    fun publication m'' h'' published => ⟨h'', ?_⟩
  rcases published with ⟨undecided, failed, -, workers⟩ | ⟨code, ended⟩
  · refine .inl ⟨undecided, ?_, workers⟩
    split
    · assumption
    · exact failed
  · by_cases ok : (env.cell id).benchmark = 0
    · rw [if_neg (by simp [ok])]
      exact .inr ended
    · have same : publication = (env.cell id).benchmark := by simpa [publishedCode, ok] using code
      rw [if_pos ok]
      exact .inr (same ▸ ended)

theorem runSelected_meets (env : Environment) (h : InCell a id m)
    (running : m.ledger.status id = some .running) (rows : List String) :
    Meets (InCell a id) (Move a overwrites recodes) (runSelected a env id rows)
      (ChildExit id) m := by
  have mv : Move a overwrites recodes m { m with ledger := m.ledger.setWorkers id rows } :=
    .workers m id rows running
  have inCell := h.step mv rfl rfl (fun _ _ => rfl) h.started h.recorded
  have workers : ((m.ledger.setWorkers id rows).workers id).isSome := by
    rw [setWorkers_apply, if_pos rfl]
    rfl
  refine .step h mv ?_
  split
  · exact failBeforeBenchmark_meets env inCell running
  · refine Meets.bind_of (runCell_meets env inCell running workers) fun rc m' h' exit => ?_
    refine .look h' (.stutter m') ?_
    rcases exit with ⟨undecided, failed, same⟩ | ended
    · split
      · refine Meets.bind_of (ignored_meets ((resultPublicationHook_meets env h' undecided
          (same ▸ workers) rc).weaken (R := fun _ m => ChildExit id rc m) ?_))
          fun _ m'' h'' exit => ⟨h'', exit⟩
        rintro rc' m'' - (⟨undecided, -⟩ | ⟨code, ended⟩)
        · exact .inl ⟨undecided, failed⟩
        · have same : rc' = rc := by simpa [publishedCode, failed] using code
          exact .inr (same ▸ ended)
      · exact ⟨h', .inl ⟨undecided, failed⟩⟩
    · have present : ¬(decide (rc ≠ 0) && (m'.ledger.exitcode id).isNone) = true := by
        simp [ended.exitcode]
      rw [if_neg present]
      exact ⟨h', .inr ended⟩

theorem runOne_meets (env : Environment) (h : InCell a id m)
    (running : m.ledger.status id = some .running) :
    Meets (InCell a id) (Move a overwrites recodes) (runOne a env id) (ChildExit id) m := by
  obtain ⟨mv, inCell⟩ := h.process_move overwrites recodes { m.process with childTrap := true }
    rfl fun trapped => trapped
  refine .step h mv ?_
  split
  · exact failBeforeBenchmark_meets env inCell running
  · obtain ⟨mv, inScratch⟩ := setScratch_move overwrites recodes inCell running ⟨.empty, false⟩
    refine .step inCell mv ?_
    split
    · exact failBeforeBenchmark_meets env inScratch running
    · refine .look inScratch (.stutter _) ?_
      split
      · exact failBeforeBenchmark_meets env inScratch running
      · split
        · exact failBeforeBenchmark_meets env inScratch running
        · exact runSelected_meets env inScratch running _

/-! ## The parent's cell loop -/

def Waited (rc : Nat) (m : Machine) : Prop :=
  ∀ code, m.ledger.recordedFailure = some code → rc = code ∨ ¬signalCode rc

theorem ChildExit.waited {rc : Nat} (h : InCell a id m) (exit : ChildExit id rc m) :
    Waited rc m := by
  intro code recorded
  rcases exit with ⟨running, -⟩ | ended
  · exact absurd ((h.durable.recordedFailure_running running).symm.trans recorded) (by simp)
  · rw [ended.recorded] at recorded
    split at recorded
    · cases recorded
    · exact .inl (Option.some.inj recorded)

theorem Death.not_signalCode (d : Death) : ¬signalCode d.code := by
  rintro (eq | eq)
  · exact d.uncaught.2 eq
  · exact d.uncaught.1 eq

theorem waitChild_meets (env : Environment) (h : InCell a id m)
    (running : m.ledger.status id = some .running) (death : Option Death) :
    Meets (InCell a id) (Move a overwrites recodes) (waitChild (runOne a env id) death)
      Waited m := by
  obtain ⟨mv, inCell⟩ := h.process_move overwrites recodes { m.process with activePid := true }
    rfl fun trapped => trapped
  have child : Meets (InCell a id) (Move a overwrites recodes) (runOne a env id) _ _ :=
    runOne_meets env inCell running
  refine .step h mv ?_
  cases death with
  | none => exact child.weaken fun _ _ inCell exit => exit.waited inCell
  | some death =>
      refine Meets.bind_of (child.cut death.actions) fun exited m' inCell' exit => ⟨inCell', ?_⟩
      cases exited with
      | none => exact fun _ _ => .inr death.not_signalCode
      | some rc => exact (exit rc rfl).waited inCell'

/-- How the parent leaves the cell it completes: `rc` is zero only after a success. -/
structure Completed (id : ExecutionId) (rc : Nat) (m : Machine) : Prop where
  stopped : m.ledger.status id ≠ some .running
  success : rc = 0 → m.ledger.status id = some .success
  waited : Waited rc m

theorem completeActiveExecution_meets (env : Environment) {waited : Nat} (h : InCell a id m)
    (exit : Waited waited m) :
    Meets (InCell a id) (Move a overwrites recodes) (completeActiveExecution a env waited)
      (fun rc m' => Completed id (if rc = 0 then waited else rc) m') m := by
  refine .look h (.stutter m) ?_
  obtain ⟨status, started, other⟩ := h.started
  simp only [h.active, started]
  cases status with
  | pending => exact absurd rfl other
  | running =>
      refine checked_meets (finishPrebenchmarkFailure_meets env h started (nonzero waited)) ?_ ?_
      · rintro m' h' ⟨-, ended⟩
        have code : nonzero (nonzero waited) = nonzero waited :=
          if_neg (nonzero_ne_zero waited)
        have failed : m'.ledger.status id = some .failed := by
          rw [ended.status, if_neg (nonzero_ne_zero _)]
        rw [code] at ended
        refine ⟨h', ?_⟩
        beta_reduce
        rw [if_neg (nonzero_ne_zero waited)]
        refine ⟨by simp [failed], fun zero => absurd zero (nonzero_ne_zero waited), ?_⟩
        exact ChildExit.waited h' (.inr ended)
      · rintro rc m' - failed ⟨zero, -⟩
        exact absurd zero failed
  | success =>
      refine ⟨h, ?_⟩
      beta_reduce
      rw [show (if waited = 0 then waited else waited) = waited by split <;> rfl]
      exact ⟨by simp [started], fun _ => started, exit⟩
  | failed =>
      obtain ⟨code, file, failed⟩ := h.durable.failed id started
      by_cases zero : waited = 0
      · rw [if_pos zero]
        refine ⟨h, ?_⟩
        have same : nonzero ((m.ledger.exitcode id).getD 0) = code := by
          simp [file, nonzero, failed]
        beta_reduce
        rw [if_neg (nonzero_ne_zero _), same]
        refine ⟨by simp [started], fun zero => absurd zero failed, fun c recorded => .inl ?_⟩
        exact Option.some.inj (file.symm.trans (h.recorded c recorded))
      · rw [if_neg zero]
        refine ⟨h, ?_⟩
        beta_reduce
        rw [if_neg zero]
        exact ⟨by simp [started], fun h => absurd h zero, exit⟩

structure AtLoop (a : Attempt) (rest : List ExecutionId) (m : Machine) : Prop where
  durable : Durable a m
  begun : m.ledger.runStatus = .running
  idle : m.process.activeId = none
  split : ∃ before, a.executions = before ++ rest ∧
    ∀ id ∈ before, m.ledger.status id = some .success
  pending : ∀ id ∈ rest, m.ledger.status id = some .pending

structure SweepEnd (a : Attempt) (rc : Nat) (failedId : Option ExecutionId) (m : Machine) :
    Prop where
  durable : Durable a m
  begun : m.ledger.runStatus = .running
  active : m.process.activeId = failedId
  stopped : ∀ id, m.ledger.status id ≠ some .running
  success : rc = 0 → ∀ id ∈ a.executions, m.ledger.status id = some .success
  waited : Waited rc m

theorem Durable.unrecorded (h : Durable a m) (clean : ∀ id, m.ledger.status id ≠ some .failed) :
    m.ledger.recordedFailure = none := by
  by_contra recorded
  obtain ⟨code, eq⟩ := Option.ne_none_iff_exists'.mp recorded
  obtain ⟨id, blamed⟩ := recordedFailure_blames eq
  exact clean id (h.cause id blamed).1

theorem AtLoop.status {rest : List ExecutionId} (h : AtLoop a rest m) (id : ExecutionId) :
    m.ledger.status id ≠ some .running ∧ m.ledger.status id ≠ some .failed := by
  by_cases present : m.ledger.status id = none
  · simp [present]
  · have mem := h.durable.member id present
    obtain ⟨before, eq, done⟩ := h.split
    rw [eq, List.mem_append] at mem
    rcases mem with mem | mem
    · simp [done id mem]
    · simp [h.pending id mem]

theorem AtLoop.unblamed {rest : List ExecutionId} (h : AtLoop a rest m) (id : ExecutionId) :
    ¬m.ledger.blames id := fun blamed =>
  (h.status id).2 (h.durable.cause id blamed).1

theorem executions_split {before rest : List ExecutionId}
    (eq : a.executions = before ++ id :: rest) :
    id ∈ a.executions ∧ (∀ i ∈ before, i < id) ∧ (∀ j ∈ rest, id < j) ∧
      (∀ i ∈ a.executions, i < id → i ∈ before) ∧ ∀ j ∈ a.executions, id < j → j ∈ rest := by
  have sorted := a.sorted
  rw [eq, List.pairwise_append, List.pairwise_cons] at sorted
  obtain ⟨-, ⟨after, -⟩, across⟩ := sorted
  have first : ∀ i ∈ before, i < id := fun i mem => across i mem id List.mem_cons_self
  refine ⟨by simp [eq], first, after, fun i mem lt => ?_, fun j mem lt => ?_⟩
  · rw [eq, List.mem_append, List.mem_cons] at mem
    rcases mem with mem | rfl | mem
    · exact mem
    · exact absurd lt (lt_irrefl _)
    · exact absurd (lt.trans (after i mem)) (lt_irrefl _)
  · rw [eq, List.mem_append, List.mem_cons] at mem
    rcases mem with mem | rfl | mem
    · exact absurd (lt.trans (first j mem)) (lt_irrefl _)
    · exact absurd lt (lt_irrefl _)
    · exact mem

theorem prepareActiveExecution_meets {rest : List ExecutionId} (h : AtLoop a (id :: rest) m) :
    Meets (Durable a) (Move a overwrites recodes) (prepareActiveExecution a id)
      (fun rc m' => rc = 0 ∧ InCell a id m' ∧ m'.ledger.status id = some .running) m := by
  obtain ⟨before, eq, done⟩ := h.split
  obtain ⟨mem, -, -, earlier, later⟩ := executions_split eq
  have activate : Move a overwrites recodes m
      (withProcess m { m.process with activeId := some id }) := by
    refine .process m _ (fun other cause => ?_) (fun trapped => h.durable.trapped trapped) .inl
    rcases cause with running | blamed
    · exact absurd running (h.status other).1
    · exact absurd blamed (h.unblamed other)
  have active := h.durable.move activate
  have start : Move a overwrites recodes (withProcess m { m.process with activeId := some id })
      (withStatus (withProcess m { m.process with activeId := some id }) id .running) :=
    .start _ id mem h.begun (h.pending id List.mem_cons_self)
      (fun i mem lt => done i (earlier i mem lt))
      (fun j mem lt => h.pending j (List.mem_cons_of_mem _ (later j mem lt))) rfl
  have started := active.move start
  have inCell := InCell.of_running started (withStatus_status ..)
  have unrecorded := started.recordedFailure_running (withStatus_status ..)
  refine .step h.durable activate (.step active start ?_)
  have summary := summary_running_move overwrites recodes (a := a) unrecorded
  refine (writeSummary_meets started (.stutter _) inCell.initialized.statuses
    (fun terminal => by cases terminal) summary (started.move summary)).weaken ?_
  rintro rc m' - ⟨zero, rfl⟩
  exact ⟨zero, inCell.step summary rfl rfl (fun _ _ => rfl) inCell.started (fun _ eq => by cases eq),
    withStatus_status ..⟩

def runActive (a : Attempt) (env : Environment) (id : ExecutionId) : Action Nat := do
  let waited ← waitChild (runOne a env id) (env.cell id).death
  setProcess fun p => { p with activePid := false, childTrap := false }
  let completed ← completeActiveExecution a env waited
  return if completed = 0 then waited else completed

theorem runActive_meets (env : Environment) (h : InCell a id m)
    (running : m.ledger.status id = some .running) :
    Meets (InCell a id) (Move a overwrites recodes) (runActive a env id) (Completed id) m := by
  refine Meets.bind_of (waitChild_meets env h running _) fun waited m' h' exit => ?_
  obtain ⟨mv, inCell⟩ := h'.process_move overwrites recodes
    { m'.process with activePid := false, childTrap := false } rfl fun trapped => trapped
  refine .step h' mv (Meets.bind_of (completeActiveExecution_meets env inCell exit) ?_)
  exact fun rc m'' h'' completed => ⟨h'', completed⟩

theorem runCells_cons (env : Environment) (id : ExecutionId) (rest : List ExecutionId) :
    runCells a env (id :: rest) = read.bind fun m =>
      match m.ledger.status id with
      | some .success => runCells a env rest
      | some .pending => (prepareActiveExecution a id).bind fun prepared =>
          if prepared ≠ 0 then .done none
          else (runActive a env id).bind fun rc =>
            if rc ≠ 0 then .done (some (rc, some id))
            else (setProcess fun p => { p with activeId := none }).bind fun _ =>
              runCells a env rest
      | _ => .done (some (1, some id)) := by
  rw [runCells, bind_eq]
  refine congrArg read.bind (funext fun m => ?_)
  cases m.ledger.status id with
  | none => rfl
  | some status =>
      cases status with
      | pending => simp only [runActive, bind_eq, pure_eq, bind_assoc, done_bind]
      | running => rfl
      | success => rfl
      | failed => rfl

theorem runCells_meets (env : Environment) {rest : List ExecutionId} (h : AtLoop a rest m) :
    Meets (Durable a) (Move a overwrites recodes) (runCells a env rest) (fun result m' =>
      ∃ rc failedId, result = some (rc, failedId) ∧ SweepEnd a rc failedId m') m := by
  induction rest generalizing m with
  | nil =>
      obtain ⟨before, eq, done⟩ := h.split
      have unrecorded := h.durable.unrecorded fun id => (h.status id).2
      refine ⟨h.durable, 0, none, rfl, h.durable, h.begun, h.idle, fun id => (h.status id).1,
        fun _ id mem => done id (by simpa [eq] using mem), fun code eq => ?_⟩
      exact absurd (unrecorded.symm.trans eq) (by simp)
  | cons id rest ih =>
      rw [runCells_cons]
      refine .look h.durable (.stutter m) ?_
      simp only [h.pending id List.mem_cons_self]
      refine Meets.bind_of (prepareActiveExecution_meets h) ?_
      rintro prepared m' - ⟨rfl, inCell, running⟩
      rw [if_neg (by simp)]
      have active : Meets (InCell a id) (Move a overwrites recodes) (runActive a env id) _ m' :=
        runActive_meets env inCell running
      refine Meets.bind_of (active.mono (R := fun rc m => InCell a id m ∧ Completed id rc m)
        (fun _ h => h.durable) (fun _ _ _ _ mv => mv) fun _ _ h done => ⟨h, done⟩) ?_
      rintro rc m'' - ⟨inCell', completed⟩
      by_cases failed : rc = 0
      · rw [if_neg (by simp [failed])]
        obtain ⟨before, eq, -⟩ := h.split
        obtain ⟨-, first, after, -, -⟩ := executions_split eq
        have success := completed.success failed
        have idle : Move a overwrites recodes m''
            (withProcess m'' { m''.process with activeId := none }) := by
          refine .process m'' _ (fun other cause => ?_) (fun t => inCell'.durable.trapped t) .inl
          rcases cause with running | blamed
          · exact absurd running (inCell'.stopped completed.stopped other)
          · have failed := (inCell'.durable.cause other blamed).1
            rw [inCell'.blamed blamed, success] at failed
            cases failed
        refine .step inCell'.durable idle (ih ⟨inCell'.durable.move idle, inCell'.begun, rfl,
          ⟨before ++ [id], by simp [eq], fun i mem => ?_⟩, fun j mem => ?_⟩)
        · rcases List.mem_append.mp mem with mem | mem
          · exact inCell'.durable.ordered i (by simp [eq, mem]) id inCell'.mem (first i mem)
              (by simp [success]) (by simp [success])
          · rw [List.mem_singleton.mp mem]
            exact success
        · exact inCell'.after j (by simp [eq, mem]) (after j mem)
      · rw [if_pos failed]
        exact ⟨inCell'.durable, rc, some id, rfl, inCell'.durable, inCell'.begun, inCell'.active,
          inCell'.stopped completed.stopped, fun zero => absurd zero failed, completed.waited⟩

end StorageScaleTest.Coordinator
