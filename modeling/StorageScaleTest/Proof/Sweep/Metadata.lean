import StorageScaleTest.Sweep.Metadata
import StorageScaleTest.Proof.Sweep.Rotation

/-!
# Hosts of the metadata phases

STAT runs on the hosts of CREATE rotated by one, and DELETE on the very hosts of STAT.
-/

namespace StorageScaleTest.Sweep.Metadata

open Shell

def Apart (before after : Invocation) : Prop :=
  ∃ a b, before.hostOrder = some a ∧ after.hostOrder = some b ∧ a.length = b.length ∧
    ∀ i, i < a.length → b[i]? ≠ a[i]?

/-- Every invocation runs on all hosts, and each phase gives every position another host than the
phase before it in the same iteration. -/
structure PhasesRotate (hosts : Hosts) (run : List Invocation) : Prop where
  hosts : ∀ x ∈ run, ∃ order, x.hostOrder = some order ∧ order.Perm hosts.names
  stat : ∀ x ∈ run, ∀ y ∈ run, x.iteration = y.iteration → x.phase = .create → y.phase = .stat →
    Apart x y
  delete : ∀ x ∈ run, ∀ y ∈ run, x.iteration = y.iteration → x.phase = .stat →
    y.phase = .delete → Apart x y

/-- Every invocation runs on all hosts; STAT gives every position another host than CREATE, and
DELETE is given the very order of STAT. -/
structure PhasesShift (hosts : Hosts) (run : List Invocation) : Prop where
  hosts : ∀ x ∈ run, ∃ order, x.hostOrder = some order ∧ order.Perm hosts.names
  stat : ∀ x ∈ run, ∀ y ∈ run, x.iteration = y.iteration → x.phase = .create → y.phase = .stat →
    Apart x y
  delete : ∀ x ∈ run, ∀ y ∈ run, x.iteration = y.iteration → y.phase = .delete →
    (x.phase = .stat → y.hostOrder = x.hostOrder) ∧ (x.phase = .create → Apart x y)

variable {s : Settings} {hosts : Hosts} {rc : Nat → Phase → Nat}

/-! ## What a run invokes -/

theorem mem_runPhases {iteration : Nat} {phases : List Phase} {x : Invocation}
    (member : x ∈ (s.runPhases rc iteration phases).1) :
    x.iteration = iteration ∧ x.args = s.phaseArgs iteration x.phase := by
  induction phases with
  | nil => simp [Settings.runPhases] at member
  | cons phase phases ih =>
      simp only [Settings.runPhases] at member
      split at member
      · rw [List.mem_singleton] at member
        exact ⟨by rw [member], by rw [member]⟩
      · rcases List.mem_cons.mp member with rfl | later
        · exact ⟨rfl, rfl⟩
        · exact ih later

theorem mem_runIterations {left iteration : Nat} {x : Invocation}
    (member : x ∈ (s.runIterations rc left iteration).1) :
    x.args = s.phaseArgs x.iteration x.phase := by
  induction left generalizing iteration with
  | zero => simp [Settings.runIterations] at member
  | succ left ih =>
      simp only [Settings.runIterations] at member
      split at member
      · obtain ⟨same, args⟩ := mem_runPhases member
        rw [args, same]
      · rcases List.mem_append.mp member with now | later
        · obtain ⟨same, args⟩ := mem_runPhases now
          rw [args, same]
        · exact ih later

def ReachesDelete (rc : Nat → Phase → Nat) (iterations : Nat) : Prop :=
  iterations ≠ 0 ∧ rc 1 .create = 0 ∧ rc 1 .stat = 0

theorem mem_run_of_reaches {iterations : Nat} (reaches : ReachesDelete rc iterations) (phase : Phase) :
    ⟨1, phase, s.phaseArgs 1 phase⟩ ∈ (s.runMetadataBenchmark rc iterations).1 := by
  obtain ⟨some, created, statted⟩ := reaches
  obtain ⟨left, rfl⟩ := Nat.exists_eq_succ_of_ne_zero some
  have first : ⟨1, phase, s.phaseArgs 1 phase⟩ ∈
      (s.runPhases rc 1 [.create, .stat, .delete]).1 := by
    cases phase <;> simp [Settings.runPhases, created, statted]
    split <;> simp
  rw [Settings.runMetadataBenchmark, Settings.runIterations]
  simp only
  split
  · exact first
  · exact List.mem_append_left _ first

theorem not_delete_of_not_reaches {iterations : Nat} (stops : ¬ReachesDelete rc iterations)
    {x : Invocation} (member : x ∈ (s.runMetadataBenchmark rc iterations).1) :
    x.phase ≠ .delete := by
  cases iterations with
  | zero => simp [Settings.runMetadataBenchmark, Settings.runIterations] at member
  | succ left =>
      by_cases created : rc 1 .create = 0
      · have statted : rc 1 .stat ≠ 0 := fun statted =>
          stops ⟨Nat.succ_ne_zero left, created, statted⟩
        simp only [Settings.runMetadataBenchmark, Settings.runIterations, Settings.runPhases, created,
          statted, ne_eq, not_true, not_false_iff, if_true, if_false, List.mem_cons,
          List.not_mem_nil, or_false] at member
        rcases member with rfl | rfl <;> simp
      · simp only [Settings.runMetadataBenchmark, Settings.runIterations, Settings.runPhases, created,
          ne_eq, not_false_iff, if_true, List.mem_singleton] at member
        rw [member]
        simp

/-! ## The hosts of a phase -/

def Settings.OnHosts (s : Settings) (hosts : Hosts) : Prop :=
  s.nodeCount = hosts.names.length ∧ s.hostsCsv = hosts.csv

theorem hostOrder_eq (on : s.OnHosts hosts) {x : Invocation}
    (args : x.args = s.phaseArgs x.iteration x.phase) :
    x.hostOrder = some (if x.phase = .create then hosts.names else hosts.names.rotate 1) := by
  obtain ⟨count, csv⟩ := on
  have several : 1 < s.nodeCount := by
    rw [count]
    exact hosts.several
  unfold Invocation.hostOrder
  rw [args]
  cases x.phase with
  | create => simp [Settings.phaseArgs, Settings.createArgs, several, csv, hosts.fields_csv]
  | stat => simp [Settings.phaseArgs, Settings.statArgs, Settings.rotatedHosts, several, csv,
      rotateCsvList_csv]
  | delete => simp [Settings.phaseArgs, Settings.deleteArgs, Settings.rotatedHosts, several, csv,
      rotateCsvList_csv]

theorem apart_of_create (on : s.OnHosts hosts) {x y : Invocation}
    (argsX : x.args = s.phaseArgs x.iteration x.phase)
    (argsY : y.args = s.phaseArgs y.iteration y.phase) (create : x.phase = .create)
    (later : y.phase ≠ .create) : Apart x y := by
  have orderX := hostOrder_eq on argsX
  have orderY := hostOrder_eq on argsY
  rw [create, if_pos rfl] at orderX
  rw [if_neg later] at orderY
  refine ⟨_, _, orderX, orderY, (List.length_rotate _ _).symm, ?_⟩
  apply (rotate_moves_iff hosts.distinct hosts.ne_nil 1).mpr
  intro divides
  have several := hosts.several
  have one := Nat.le_of_dvd (by omega) divides
  omega

theorem not_apart_stat_delete (on : s.OnHosts hosts) {x y : Invocation}
    (argsX : x.args = s.phaseArgs x.iteration x.phase)
    (argsY : y.args = s.phaseArgs y.iteration y.phase) (stat : x.phase = .stat)
    (delete : y.phase = .delete) : ¬Apart x y := by
  have orderX := hostOrder_eq on argsX
  have orderY := hostOrder_eq on argsY
  rw [stat, if_neg (by simp)] at orderX
  rw [delete, if_neg (by simp)] at orderY
  rintro ⟨a, b, isA, isB, _, apart⟩
  rw [orderX] at isA
  rw [orderY] at isB
  cases isA
  cases isB
  have several := hosts.several
  exact apart 0 (by rw [List.length_rotate]; omega) rfl

theorem order_perm (on : s.OnHosts hosts) {x : Invocation}
    (args : x.args = s.phaseArgs x.iteration x.phase) :
    ∃ order, x.hostOrder = some order ∧ order.Perm hosts.names := by
  refine ⟨_, hostOrder_eq on args, ?_⟩
  split
  · exact .refl _
  · exact List.rotate_perm _ _

theorem phasesRotate_of_stops (on : s.OnHosts hosts) {iterations : Nat}
    (stops : ¬ReachesDelete rc iterations) :
    PhasesRotate hosts (s.runMetadataBenchmark rc iterations).1 := by
  constructor
  · exact fun x member => order_perm on (mem_runIterations member)
  · intro x inX y inY _ create stat
    exact apart_of_create on (mem_runIterations inX) (mem_runIterations inY) create (by simp [stat])
  · intro x _ y inY _ _ delete
    exact absurd delete (not_delete_of_not_reaches stops inY)

theorem not_phasesRotate_of_reaches (on : s.OnHosts hosts) {iterations : Nat}
    (reaches : ReachesDelete rc iterations) :
    ¬PhasesRotate hosts (s.runMetadataBenchmark rc iterations).1 := by
  intro rotate
  have apart := rotate.delete _ (mem_run_of_reaches reaches .stat) _
    (mem_run_of_reaches reaches .delete) rfl rfl rfl
  exact not_apart_stat_delete on rfl rfl rfl rfl apart

theorem phases_rotate_iff (s : Settings) (hosts : Hosts) (rc : Nat → Phase → Nat)
    (iterations : Nat) (on : s.OnHosts hosts) :
    PhasesRotate hosts (s.runMetadataBenchmark rc iterations).1 ↔
      iterations = 0 ∨ rc 1 .create ≠ 0 ∨ rc 1 .stat ≠ 0 := by
  have stops : (iterations = 0 ∨ rc 1 .create ≠ 0 ∨ rc 1 .stat ≠ 0) ↔
      ¬ReachesDelete rc iterations := by
    rw [ReachesDelete]
    omega
  rw [stops]
  constructor
  · intro rotate reaches
    exact not_phasesRotate_of_reaches on reaches rotate
  · exact phasesRotate_of_stops on

theorem phasesShift_run (on : s.OnHosts hosts) (iterations : Nat) :
    PhasesShift hosts (s.runMetadataBenchmark rc iterations).1 := by
  constructor
  · exact fun x member => order_perm on (mem_runIterations member)
  · intro x inX y inY _ create stat
    exact apart_of_create on (mem_runIterations inX) (mem_runIterations inY) create (by simp [stat])
  · intro x inX y inY _ delete
    constructor
    · intro stat
      rw [hostOrder_eq on (mem_runIterations inX), hostOrder_eq on (mem_runIterations inY), stat,
        delete, if_neg (by simp), if_neg (by simp)]
    · intro create
      exact apart_of_create on (mem_runIterations inX) (mem_runIterations inY) create
        (by simp [delete])

/-- STAT and DELETE run on the hosts of CREATE rotated by one; so the hosts rotate between all
phases exactly when the run never comes to a DELETE. -/
theorem phases_shift (s : Settings) (hosts : Hosts) (rc : Nat → Phase → Nat) (iterations : Nat)
    (on : s.OnHosts hosts) :
    PhasesShift hosts (s.runMetadataBenchmark rc iterations).1 ∧
      (PhasesRotate hosts (s.runMetadataBenchmark rc iterations).1 ↔
        iterations = 0 ∨ rc 1 .create ≠ 0 ∨ rc 1 .stat ≠ 0) :=
  ⟨phasesShift_run on iterations, phases_rotate_iff s hosts rc iterations on⟩

def threeHosts : Hosts where
  names := ["a".toList, "b".toList, "c".toList]
  several := by decide
  distinct := by decide
  valid := by decide

def settingsOn (hosts : Hosts) : Settings where
  nodeCount := hosts.names.length
  hostsCsv := hosts.csv
  tasksPerNode := "1".toList
  baseResfile := "r".toList
  layout := ⟨["t".toList], "1".toList, "1".toList, ["-d".toList], ["-D".toList]⟩

/-- Two iterations on three hosts whose invocations all succeed. -/
theorem phases_shift_three :
    let run := ((settingsOn threeHosts).runMetadataBenchmark (fun _ _ => 0) 2).1
    run.map (fun x => (x.iteration, x.phase)) =
      [(1, .create), (1, .stat), (1, .delete), (2, .create), (2, .stat), (2, .delete)] ∧
    run.map (fun x => x.hostOrder.map (·.map String.ofList)) =
      [["a", "b", "c"], ["b", "c", "a"], ["b", "c", "a"], ["a", "b", "c"], ["b", "c", "a"],
        ["b", "c", "a"]].map some ∧
    PhasesShift threeHosts run ∧ ¬PhasesRotate threeHosts run := by
  obtain ⟨shift, rotates⟩ :=
    phases_shift (settingsOn threeHosts) threeHosts (fun _ _ => 0) 2 ⟨rfl, rfl⟩
  refine ⟨by decide, by decide, shift, ?_⟩
  rw [rotates]
  decide

/-- On two hosts each one deletes what it has statted itself. -/
theorem deletes_where_statted :
    ¬PhasesRotate sampleHosts ((settingsOn sampleHosts).runMetadataBenchmark (fun _ _ => 0) 1).1 ∧
      ∃ x ∈ ((settingsOn sampleHosts).runMetadataBenchmark (fun _ _ => 0) 1).1,
        ∃ y ∈ ((settingsOn sampleHosts).runMetadataBenchmark (fun _ _ => 0) 1).1,
          x.phase = .stat ∧ y.phase = .delete ∧
            x.hostOrder = some ["b".toList, "a".toList] ∧ y.hostOrder = x.hostOrder := by
  have on : (settingsOn sampleHosts).OnHosts sampleHosts := ⟨rfl, rfl⟩
  have reaches : ReachesDelete (fun _ _ => 0) 1 := ⟨by decide, rfl, rfl⟩
  refine ⟨not_phasesRotate_of_reaches on reaches, _, mem_run_of_reaches reaches .stat, _,
    mem_run_of_reaches reaches .delete, rfl, rfl, ?_, ?_⟩
  · rw [hostOrder_eq on rfl]
    rfl
  · rw [hostOrder_eq on rfl, hostOrder_eq on rfl]
    rfl

end StorageScaleTest.Sweep.Metadata
