import StorageScaleTest.Proof.Collection.Acceptance
import StorageScaleTest.Proof.Coordinator.Immutable

/-!
# Terminal ledgers are collectible

A coordinator that published its last manifest, and a killed one whose ledger was recovered or
cancelled, leave a publication that the collector accepts with the outcome of the run.
-/

namespace StorageScaleTest.Collection

open Coordinator Interruptible Interruptible.Program

variable {a : Attempt} {env : Environment} {delivery : Option Delivery} {m : Machine}

/-- A signal, if one is delivered at all, finds the traps installed. -/
def Handled (a : Attempt) (env : Environment) (delivery : Option Delivery) : Prop :=
  ∀ actions signal m, delivery = some (actions, signal) →
    ((coordinatorMain a env).cut actions).run .submitted = (none, m) → m.process.trap = true

inductive FinishedWith (a : Attempt) (env : Environment) (delivery : Option Delivery) :
    Machine → Prop
  | ended (handled : Handled a env delivery) :
      FinishedWith a env delivery ((coordinator a env delivery).run .submitted).2
  | repaired (actions : Nat) (op : Invocation) :
      FinishedWith a env delivery
        ((op.program a).run (killedAfter a env delivery actions).restart).2

theorem coordinator_settled (handled : Handled a env delivery) :
    Settled a ((coordinator a env delivery).run .submitted).2 := by
  have main : Meets (Durable a) (fun _ _ => True) (coordinatorMain a env)
      (fun _ m => Settled a m) .submitted := by
    have moves : Meets (Durable a) (Move a True False) (coordinatorMain a env)
      (fun _ m => Settled a m) .submitted :=
    (coordinatorMain_meets env).weaken fun _ _ _ exited => exited.1
    exact moves.mono (fun _ h => h) (fun _ _ _ _ _ => trivial) fun _ _ _ h => h
  cases delivery with
  | none => exact main.run
  | some delivery =>
      obtain ⟨actions, signal⟩ := delivery
      have whole : Meets (Durable a) (fun _ _ => True)
          ((coordinatorMain a env).interrupt actions (signalHandler a env signal))
          (fun _ m => Settled a m) .submitted := by
        refine main.interrupt actions fun m stopped h => ?_
        have trap := handled actions signal m rfl stopped
        have handler : Meets (Durable a) (Move a True True) (signalHandler a env signal) _ m :=
          signalHandler_meets env signal h trap (.inl trivial) (.inl trivial)
        exact handler.mono (fun _ h => h) (fun _ _ _ _ _ => trivial)
          fun _ _ _ done _ => done.published
      exact whole.run

theorem publishable_of_manifest {l : Ledger} (h : Consistent a l) (terminal : l.runStatus.terminal)
    (recorded : FailuresRecorded l) {rows : List Row} (manifest : manifestRows a l = some rows) :
    Publishable a l := by
  have ready := h.initialized (RunStatus.not_prepared terminal)
  refine ⟨h, ready.statuses, ready.snapshots, ?_, recorded⟩
  obtain ⟨_, _, _, _, summary, found, -⟩ := manifestRows_eq_some.mp manifest
  obtain ⟨content, file, -⟩ := ledgerRow_eq_some.mp found
  cases present : l.summary with
  | none => simp [Ledger.file?, present] at file
  | some s => rfl

/-- What the ledger left by a whole invocation on a killed coordinator's looks like. -/
theorem repaired_ledger {actions : Nat} {op : Invocation} {rc : Nat}
    (run : (op.program a).run (killedAfter a env delivery actions).restart = (rc, m))
    (terminal : m.ledger.runStatus.terminal) :
    Consistent a m.ledger ∧ FailuresCoded m.ledger ∧
      manifestRows a m.ledger = some m.ledger.manifest := by
  have durable := killedAfter_consistent a env delivery actions
  generalize killedAfter a env delivery actions = killed at run durable
  have h := durable.consistent
  have coded : FailuresCoded killed.ledger := durable.failed
  have evident : killed.ledger.runStatus = .failed → Evident killed.ledger := fun failed =>
    (durable.runFailed failed).2.symm
  have h' : Consistent a m.ledger := by
    have kept := (program_meets (m := killed.restart) op h).trace _ (run_mem_trace _ _)
    rwa [run] at kept
  have settled : Repaired a rc killed.restart m → FailuresCoded m.ledger ∧
      manifestRows a m.ledger = some m.ledger.manifest := fun repaired =>
    ⟨repaired.coded_iff.mpr coded, repaired.manifest (repaired.succeeds.mpr ⟨coded, evident⟩)⟩
  refine ⟨h', ?_⟩
  cases op with
  | recoverLost =>
      cases before : killed.ledger.runStatus.terminal with
      | true => exact settled (recoverLost_repairs h before run)
      | false =>
          have recovered : Recovered a rc killed.ledger m.ledger := by
            have done := (recoverLost_nonterminal (m := killed.restart) h before).run
            rwa [show (recoverLost a).run killed.restart = (rc, m) from run] at done
          exact ⟨(recovered.coded_iff h h').mpr coded,
            recovered.manifest (recovered.succeeds.mpr coded.recorded)⟩
  | finalizeCancelled =>
      cases before : settledOutcome killed.ledger with
      | true => exact settled (finalize_settled_run h before run)
      | false =>
          have cancelled := finalize_open_run h before run
          -- A refused cancellation leaves the run prepared, so this one was not refused.
          have statuses : ∀ id ∈ a.executions, (killed.ledger.status id).isSome := fun id mem => by
            have present := (h'.initialized (RunStatus.not_prepared terminal)).statuses id mem
            rw [cancelled.status] at present
            exact lose_isSome.mp present
          exact ⟨cancelled.coded_iff.mpr coded,
            cancelled.manifest (cancelled.succeeds.mpr ⟨statuses, coded.recorded⟩)⟩

theorem terminal_collectible (finished : FinishedWith a env delivery m)
    (terminal : m.ledger.runStatus.terminal) (collectible : Collectible a m.ledger)
    (evident : m.ledger.runStatus = .failed → Evident m.ledger) :
    validateCollectedPublication a m.ledger = some m.ledger.runStatus := by
  have facts : Consistent a m.ledger ∧ FailuresCoded m.ledger ∧
      manifestRows a m.ledger = some m.ledger.manifest := by
    cases finished with
    | ended handled =>
        have durable := killStates_durable (run_mem_trace (coordinator a env delivery) .submitted)
        exact ⟨durable.consistent, durable.failed, coordinator_settled handled terminal⟩
    | repaired actions op => exact repaired_ledger rfl terminal
  obtain ⟨consistent, coded, manifest⟩ := facts
  exact accepted (publishable_of_manifest consistent terminal coded.recorded manifest) collectible
    manifest terminal coded evident

/-! ## Samples -/

def namedEnvironment : Environment :=
  { sampleEnvironment 0 with
    cell := fun id => { sampleCell 0 with
      contents := [⟨Directory.empty.put (id ++ ".csv") [7], false⟩] } }

def namedEnd : Machine := ((coordinator sampleAttempt namedEnvironment none).run .submitted).2

theorem namedEnd_artifact {id : ExecutionId} {name : String}
    (artifact : Artifact sampleAttempt namedEnd.ledger id name) :
    id = "0001" ∧ name = "0001.csv" ∨ id = "0002" ∧ name = "0002.csv" := by
  obtain ⟨mem, present⟩ := artifact
  have first : (namedEnd.ledger.results "0001").names = ["0001.csv"] := by decide +kernel
  have second : (namedEnd.ledger.results "0002").names = ["0002.csv"] := by decide +kernel
  have named := Directory.mem_names.mpr present
  have ids : id = "0001" ∨ id = "0002" := by simpa [sampleAttempt] using mem
  rcases ids with rfl | rfl
  · exact .inl ⟨rfl, by simpa [first] using named⟩
  · exact .inr ⟨rfl, by simpa [second] using named⟩

theorem render_head {path : StatePath} (plain : isResult path = false)
    (file : (namedEnd.ledger.file? path).isSome) :
    ∀ c, path.render.toList.head? = some c → c ≠ '0' := by
  have snapshots : namedEnd.ledger.snapshots = ["env_used.yaml", "env_used.sh"] := by
    decide +kernel
  intro c head
  cases path with
  | snapshot name =>
      have mem : name ∈ namedEnd.ledger.snapshots := by
        by_contra missing
        simp [Ledger.file?, missing] at file
      rw [snapshots] at mem
      simp only [List.mem_cons, List.not_mem_nil, or_false] at mem
      rcases mem with rfl | rfl <;>
        · obtain rfl := Option.some.inj head
          decide
  | result id relative => cases plain
  | status id => simp [StatePath.render] at head; simp [← head]
  | exitcode id => simp [StatePath.render] at head; simp [← head]
  | workers id => simp [StatePath.render] at head; simp [← head]
  | runStatus => simp [StatePath.render] at head; simp [← head]
  | runSummary => simp [StatePath.render] at head; simp [← head]
  | startupError => simp [StatePath.render] at head; simp [← head]
  | coordinatorLoss => simp [StatePath.render] at head; simp [← head]

theorem namedEnd_collectible : Collectible sampleAttempt namedEnd.ledger where
  safe id name artifact := by
    rcases namedEnd_artifact artifact with ⟨rfl, rfl⟩ | ⟨rfl, rfl⟩ <;> decide
  own batch := by cases batch
  distinct id name id' name' artifact artifact' same := by
    rcases namedEnd_artifact artifact with ⟨rfl, rfl⟩ | ⟨rfl, rfl⟩ <;>
      rcases namedEnd_artifact artifact' with ⟨rfl, rfl⟩ | ⟨rfl, rfl⟩
    · exact ⟨rfl, rfl⟩
    · exact absurd same (by decide)
    · exact absurd same (by decide)
    · exact ⟨rfl, rfl⟩
  apart id name artifact path plain file same := by
    rcases namedEnd_artifact artifact with ⟨rfl, rfl⟩ | ⟨rfl, rfl⟩ <;>
      exact render_head plain file '0' (by rw [← same]; rfl) rfl

theorem terminal_collectible_sample :
    validateCollectedPublication sampleAttempt namedEnd.ledger = some .success := by
  have success : namedEnd.ledger.runStatus = .success := by decide +kernel
  have accepted := terminal_collectible (.ended (a := sampleAttempt) (fun _ _ _ eq => by cases eq))
    (by rw [← namedEnd, success]; rfl) namedEnd_collectible
    (by rw [← namedEnd, success]; intro eq; cases eq)
  rwa [← namedEnd, success] at accepted

def unhealthyEnvironment : Environment :=
  { sampleEnvironment 0 with startupHealthy := false }

/-- Two cells that leave an artifact of the same name, and a coordinator killed between a terminal
`run.status` and its manifest, which no recovery for nonterminal runs would touch. -/
theorem terminal_not_collectible :
    ((sampleEnd 0).ledger.runStatus = .success ∧
      validateCollectedPublication sampleAttempt (sampleEnd 0).ledger = none) ∧
    (killedAfter sampleAttempt unhealthyEnvironment none 15).ledger.runStatus = .failed ∧
      validateCollectedPublication sampleAttempt
        (killedAfter sampleAttempt unhealthyEnvironment none 15).ledger = none := by
  decide +kernel

end StorageScaleTest.Collection
