import StorageScaleTest.Proof.Coordinator.Signal

/-!
# The manifest is a commit point

Whenever a coordinator is killed, the manifest it leaves names a cell `SUCCESS` or `FAILED` only
over evidence that is already durable.
-/

namespace StorageScaleTest.Coordinator

open Interruptible Interruptible.Program

def artifactRows (manifest : List Row) (id : ExecutionId) (name : String) : List Row :=
  manifest.filter fun
    | .file _ (.result owner relative) _ _ _ => owner = id && relative = name
    | _ => false

def artifactRow (a : Attempt) (id : ExecutionId) (name : String) (bytes : Bytes) : Row :=
  .file .result (.result id name) (a.outputRelative id ++ name)
    (a.checksums.size (.artifact bytes)) (a.checksums.digest (.artifact bytes))

/-- Every file in scratch is durable and has exactly one row, with its size and digest. -/
def Committed (a : Attempt) (m : Machine) (id : ExecutionId) : Prop :=
  ∃ tree, m.scratch id = some tree ∧ ∀ name bytes, tree.files.get? name = some bytes →
    (m.ledger.results id).get? name = some bytes ∧
      artifactRows m.ledger.manifest id name = [artifactRow a id name bytes]

variable {a : Attempt} {m : Machine} {id : ExecutionId}

theorem artifactRows_resultOf (manifest : List Row) (id : ExecutionId) (name : String) :
    artifactRows manifest id name = artifactRows (manifest.filter (Row.resultOf id)) id name := by
  unfold artifactRows
  rw [List.filter_filter]
  congr 1
  funext row
  cases row with
  | file role remote localPath size digest => cases remote <;> simp +contextual [Row.resultOf]
  | _ => simp

theorem artifactRows_resultRows {rows : List Row} (h : resultRows a m.ledger id = some rows)
    {name : String} {bytes : Bytes} (found : (m.ledger.results id).get? name = some bytes) :
    artifactRows rows id name = [artifactRow a id name bytes] := by
  obtain ⟨-, rfl⟩ := resultRows_eq_some.mp h
  have mem : name ∈ (m.ledger.results id).names :=
    Directory.mem_names.mpr (by simp [found])
  have row : ∀ other, ∀ r ∈ (resultRow a m.ledger id other).toList,
      ∃ localPath size digest, r = .file .result (.result id other) localPath size digest := by
    intro other r inRow
    obtain ⟨_, -, rfl⟩ := resultRow_eq_some.mp (by simpa using inRow)
    exact ⟨_, _, _, rfl⟩
  rw [artifactRows, List.filter_flatMap, flatMap_eq_of_unique (Directory.names_nodup _) mem]
  · rw [resultRow_eq_some.mpr ⟨bytes, found, rfl⟩]
    simp [artifactRow]
  · intro other _ different
    refine List.filter_eq_nil_iff.mpr fun r inRow => ?_
    obtain ⟨_, _, _, rfl⟩ := row other r inRow
    simp [different]

theorem Durable.committed (h : Durable a m) (published : .execution id .success ∈ m.ledger.manifest) :
    Committed a m id := by
  obtain ⟨success, rows⟩ := h.publishedSuccess id published
  obtain ⟨-, -, ⟨tree, left, -, copied⟩, -⟩ := h.success id success
  refine ⟨tree, left, fun name bytes found => ⟨copied name bytes found, ?_⟩⟩
  rw [artifactRows_resultOf]
  exact artifactRows_resultRows rows.symm (copied name bytes found)

theorem manifest_commits (a : Attempt) (env : Environment) (delivery : Option Delivery)
    (m : Machine) (killed : m ∈ killStates a env delivery) (id : ExecutionId) :
    (.execution id .success ∈ m.ledger.manifest → m.ledger.status id = some .success ∧
      m.ledger.exitcode id = some 0 ∧ Committed a m id) ∧
    (.execution id .failed ∈ m.ledger.manifest →
      ∃ rc, m.ledger.exitcode id = some rc ∧ rc ≠ 0) := by
  have h := killStates_durable killed
  constructor
  · intro published
    have success := (h.publishedSuccess id published).1
    exact ⟨success, (h.success id success).1, h.committed published⟩
  · intro published
    exact h.failed id (h.publishedFailure id published)

/-! ## A sample attempt -/

def sampleChecksums : Checksums where
  size _ := 1
  digest _ := "0123456789abcdef0123456789abcdef0123456789abcdef0123456789abcdef"
  digest_hex _ := by decide

def sampleAttempt : Attempt where
  attemptId := "0123abcd"
  executions := ["0001", "0002"]
  workload _ := .io false false false false false false
  batch := none
  checksums := sampleChecksums
  attemptId_valid := by decide
  nonempty := by simp
  sorted := by decide
  executions_valid := by decide
  output_mem := by simp

def sampleCell (rc : Nat) : CellRun where
  sourced := true
  rootsLoaded := true
  definitionValid := true
  workers := some ["node"]
  contextReady := true
  contents := [⟨Directory.empty.put "a.csv" [7], false⟩]
  benchmark := rc
  death := none

def sampleEnvironment (rc : Nat) : Environment where
  endpointRowsValid := true
  overlayValid := true
  startupHealthy := true
  cell id := sampleCell (if id = "0002" then rc else 0)
  temporaryTag n := (n, n)

def sampleEnd (rc : Nat) : Machine :=
  ((coordinator sampleAttempt (sampleEnvironment rc) none).run .submitted).2

theorem manifest_commits_sample :
    (sampleEnd 5).ledger.exitcode "0001" = some 0 ∧
      Committed sampleAttempt (sampleEnd 5) "0001" ∧
      ∃ rc, (sampleEnd 5).ledger.exitcode "0002" = some rc ∧ rc ≠ 0 := by
  have killed : sampleEnd 5 ∈ killStates sampleAttempt (sampleEnvironment 5) none :=
    run_mem_trace _ _
  have first := (manifest_commits _ _ none _ killed "0001").1 (by decide +kernel)
  exact ⟨first.2.1, first.2.2, (manifest_commits _ _ none _ killed "0002").2 (by decide +kernel)⟩

end StorageScaleTest.Coordinator
