import StorageScaleTest.Proof.Coordinator.Moves

/-!
# The child of one cell

While a cell is the active one, every action of its child, of the parent that completes it and of
a handler that fails it is a move of the protocol. Each function has one theorem saying so.
-/

namespace StorageScaleTest.Coordinator

open Interruptible Interruptible.Program

section

variable {a : Attempt} {overwrites recodes : Prop} {m m' : Machine} {id : ExecutionId}

/-! ## Generic rules -/

theorem checked_meets {I : Machine → Prop} {G : Machine → Machine → Prop} {p q : Action Nat}
    {P Q : Nat → Machine → Prop} {m : Machine} (h : Meets I G p P m)
    (zero : ∀ m, I m → P 0 m → Meets I G q Q m)
    (fail : ∀ rc m, I m → rc ≠ 0 → P rc m → Q 1 m) : Meets I G (checked p q) Q m := by
  refine h.bind_of fun rc m hI hP => ?_
  by_cases ok : rc = 0
  · subst ok
    exact zero m hI hP
  · rw [if_neg ok]
    exact ⟨hI, fail rc m hI ok hP⟩

theorem ignored_meets {I : Machine → Prop} {G : Machine → Machine → Prop} {p : Action Nat}
    {Q : Unit → Machine → Prop} {m : Machine} (h : Meets I G p (fun _ m => Q () m) m) :
    Meets I G (ignored p) Q m :=
  h.bind_of fun _ _ hI hQ => ⟨hI, hQ⟩

def withSummary (m : Machine) (s : Summary) : Machine :=
  { m with ledger := { m.ledger with summary := some s } }

def withManifest (m : Machine) (rows : List Row) : Machine :=
  { m with ledger := { m.ledger with manifest := rows } }

variable (overwrites recodes) in
theorem summary_running_move (unrecorded : m.ledger.recordedFailure = none) :
    Move a overwrites recodes m
      (withSummary m (summaryOf a m.ledger .running none none)) := by
  refine .summary m _ (fun failed => by cases failed) (.inr fun code eq => ?_)
  exact absurd (unrecorded.symm.trans eq) (by simp)

theorem countCells_eq_zero {l : Ledger} {status : CellStatus}
    (h : ∀ id, l.status id ≠ some status) : countCells a l status = 0 := by
  simp [countCells, h]

theorem writeSummary_meets {I : Machine → Prop} {G : Machine → Machine → Prop}
    {terminal : RunStatus} {failedId : Option ExecutionId} {code : Option Nat} (hI : I m)
    (hG : G m m) (statuses : ∀ id ∈ a.executions, (m.ledger.status id).isSome)
    (stopped : terminal.terminal = true → ∀ id, m.ledger.status id ≠ some .running)
    (move : G m (withSummary m (summaryOf a m.ledger terminal failedId code)))
    (next : I (withSummary m (summaryOf a m.ledger terminal failedId code))) :
    Meets I G (writeSummary a terminal failedId code) (fun rc m' => rc = 0 ∧
      m' = withSummary m (summaryOf a m.ledger terminal failedId code)) m := by
  have present : ¬(a.executions.any fun id => (m.ledger.status id).isNone) = true := by
    simpa [Option.isSome_iff_ne_none] using statuses
  have quiet : ¬(terminal.terminal = true ∧ countCells a m.ledger .running ≠ 0) := fun h =>
    h.2 (countCells_eq_zero (stopped h.1))
  refine .look hI hG ?_
  simp only [present, quiet, Bool.and_eq_true, decide_eq_true_eq, if_false]
  exact .step hI move ⟨next, rfl, rfl⟩

theorem publishManifest_meets {I : Machine → Prop} {G : Machine → Machine → Prop}
    {rows : List Row} (hI : I m) (hG : G m m) (complete : manifestRows a m.ledger = some rows)
    (move : G m (withManifest m rows)) (next : I (withManifest m rows)) :
    Meets I G (publishManifest a) (fun rc m' => rc = 0 ∧ m' = withManifest m rows) m := by
  refine .look hI hG ?_
  simp only [complete]
  exact .step hI move ⟨next, rfl, rfl⟩

/-! ## The active cell -/

/-- `id` is the active cell: everything before it succeeded and nothing after it has started. -/
structure InCell (a : Attempt) (id : ExecutionId) (m : Machine) : Prop where
  durable : Durable a m
  mem : id ∈ a.executions
  begun : m.ledger.runStatus = .running
  active : m.process.activeId = some id
  started : ∃ status, m.ledger.status id = some status ∧ status ≠ .pending
  after : ∀ j ∈ a.executions, id < j → m.ledger.status j = some .pending
  recorded : ∀ code, m.ledger.recordedFailure = some code → m.ledger.exitcode id = some code

namespace InCell

theorem of_running (h : Durable a m) (running : m.ledger.status id = some .running) :
    InCell a id m := by
  obtain ⟨mem, begun, -, after⟩ := h.running_facts running
  have none := h.recordedFailure_running running
  refine ⟨h, mem, begun, h.active id running, ⟨_, running, by simp⟩, fun j hj lt => ?_, ?_⟩
  · have some := (h.initialized (by simp [begun])).statuses j hj
    exact (after j hj lt).resolve_left (Option.isSome_iff_ne_none.mp some)
  · simp [none]

theorem step (h : InCell a id m) (mv : Move a overwrites recodes m m')
    (begun : m'.ledger.runStatus = m.ledger.runStatus)
    (active : m'.process.activeId = m.process.activeId)
    (others : ∀ j, j ≠ id → m'.ledger.status j = m.ledger.status j)
    (started : ∃ status, m'.ledger.status id = some status ∧ status ≠ .pending)
    (recorded : ∀ code, m'.ledger.recordedFailure = some code →
      m'.ledger.exitcode id = some code) : InCell a id m' where
  durable := h.durable.move mv
  mem := h.mem
  begun := begun.trans h.begun
  active := active.trans h.active
  started := started
  after j hj lt := (others j (ne_of_gt lt)).trans (h.after j hj lt)
  recorded := recorded

theorem initialized (h : InCell a id m) : Initialized a m.ledger :=
  h.durable.initialized (by simp [h.begun])

theorem others_stopped (h : InCell a id m) {j : ExecutionId} (different : j ≠ id) :
    m.ledger.status j ≠ some .running := fun running =>
  different (Option.some.inj ((h.durable.active j running).symm.trans h.active))

theorem stopped (h : InCell a id m) (ended : m.ledger.status id ≠ some .running) :
    ∀ j, m.ledger.status j ≠ some .running := by
  intro j
  by_cases same : j = id
  · exact same ▸ ended
  · exact h.others_stopped same

theorem blamed (h : InCell a id m) {j : ExecutionId} (blamed : m.ledger.blames j) : j = id :=
  Option.some.inj ((h.durable.cause j blamed).2.symm.trans h.active)

end InCell

/-! ## Copying -/

def withResults (m : Machine) (id : ExecutionId) (files : Directory) (temporaries : Nat) :
    Machine :=
  { m with
    ledger := m.ledger.setResults id files
    process := { m.process with temporaries := temporaries } }

theorem withResults_self (m : Machine) (id : ExecutionId) :
    withResults m id (m.ledger.results id) m.process.temporaries = m := by
  simp [withResults, Ledger.setResults]

theorem withResults_again (m : Machine) (id : ExecutionId) (files files' : Directory)
    (temporaries temporaries' : Nat) :
    withResults (withResults m id files temporaries) id files' temporaries' =
      withResults m id files' temporaries' := by
  simp [withResults, Ledger.setResults]

@[simp] theorem withResults_results (m : Machine) (id : ExecutionId) (files : Directory)
    (temporaries : Nat) : (withResults m id files temporaries).ledger.results id = files := by
  simp [withResults, Ledger.setResults]

variable (overwrites recodes) in
theorem InCell.copy_move (h : InCell a id m) (running : m.ledger.status id = some .running)
    {files : Directory} (regular : RegularNames files) (temporaries : Nat) :
    Move a overwrites recodes m (withResults m id files temporaries) ∧
      InCell a id (withResults m id files temporaries) := by
  have mv : Move a overwrites recodes m (withResults m id files temporaries) :=
    .copy m id files temporaries running regular
  exact ⟨mv, h.step mv rfl rfl (fun _ _ => rfl) h.started h.recorded⟩

theorem regularNames_put {d : Directory} (h : RegularNames d) {name : String} (bytes : Bytes)
    (regular : regularRelativePath name = true) : RegularNames (d.put name bytes) := by
  intro other mem
  rw [Directory.mem_names, Directory.get?_put] at mem
  split at mem
  · rename_i same
    exact same ▸ regular
  · exact h other (Directory.mem_names.mpr mem)

theorem regularNames_rename {d : Directory} (h : RegularNames d) (source : String) {name : String}
    (regular : regularRelativePath name = true) : RegularNames (d.rename source name) := by
  cases found : d.get? source with
  | none => simpa [Directory.rename, found] using h
  | some bytes =>
      intro other mem
      rw [Directory.mem_names, Directory.get?_rename d source name other bytes found] at mem
      split at mem
      · rename_i same
        exact same ▸ regular
      · split at mem
        · cases mem
        · exact h other (Directory.mem_names.mpr mem)

theorem copyFile_meets (env : Environment) (h : InCell a id m)
    (running : m.ledger.status id = some .running) {tree : Scratch}
    (left : m.scratch id = some tree) {name : String} {bytes : Bytes}
    (found : tree.files.get? name = some bytes) (regular : regularRelativePath name = true) :
    Meets (InCell a id) (Move a overwrites recodes) (copyFile env id name) (fun rc m' => rc = 0 ∧
      ∃ files temporaries, m' = withResults m id files temporaries ∧
        files.get? name = some bytes ∧
        ∀ other, other < name → files.get? other = (m.ledger.results id).get? other) m := by
  let temporary := temporaryName name (env.temporaryTag m.process.temporaries)
  let staged := (m.ledger.results id).put temporary bytes
  have stagedFound : staged.get? temporary = some bytes := by simp [staged, Directory.get?_put]
  have stagedRegular : RegularNames staged := regularNames_put (h.durable.regular id) bytes
    (temporaryName_regular name _ regular)
  have copiedRegular : RegularNames (staged.rename temporary name) :=
    regularNames_rename stagedRegular temporary regular
  obtain ⟨stage, inStage⟩ := h.copy_move overwrites recodes running stagedRegular
    (m.process.temporaries + 1)
  obtain ⟨move, inMove⟩ := inStage.copy_move overwrites recodes running copiedRegular
    (m.process.temporaries + 1)
  have target : { withResults m id staged (m.process.temporaries + 1) with
      ledger := (withResults m id staged (m.process.temporaries + 1)).ledger.setResults id
        (((withResults m id staged (m.process.temporaries + 1)).ledger.results id).rename
          temporary name) } =
      withResults (withResults m id staged (m.process.temporaries + 1)) id
        (staged.rename temporary name) (m.process.temporaries + 1) := by
    rw [withResults_results]
    rfl
  refine .look h (.stutter m) ?_
  simp only [left, Option.bind_some, found]
  refine .step h stage (.step inStage ?_ ?_)
  · exact target ▸ move
  · refine (congrArg (Meets _ _ _ _) target).mpr ⟨inMove, rfl, staged.rename temporary name, _,
      withResults_again .., ?_, fun other lt => ?_⟩
    · simp [Directory.get?_rename _ _ _ _ _ stagedFound]
    · have later : other < temporary := lt.trans (lt_temporaryName name _)
      rw [Directory.get?_rename _ _ _ _ _ stagedFound, if_neg (ne_of_lt lt),
        if_neg (ne_of_lt later), Directory.get?_put, if_neg (ne_of_lt later)]

/-- Files are copied in order, so the temporary of a later file never hits an earlier one. -/
theorem copyFiles_meets (env : Environment) {tree : Scratch} {names : List String}
    (sorted : names.Pairwise (· < ·))
    (readable : ∀ name ∈ names, ∃ bytes, tree.files.get? name = some bytes ∧
      regularRelativePath name = true) (h : InCell a id m)
    (running : m.ledger.status id = some .running) (left : m.scratch id = some tree)
    (done : ∀ name bytes, tree.files.get? name = some bytes → name ∈ names ∨
      (m.ledger.results id).get? name = some bytes ∧ ∀ other ∈ names, name < other) :
    Meets (InCell a id) (Move a overwrites recodes) (copyFiles env id names) (fun rc m' => rc = 0 ∧
      ∃ files temporaries, m' = withResults m id files temporaries ∧
        ∀ name bytes, tree.files.get? name = some bytes → files.get? name = some bytes) m := by
  induction names generalizing m with
  | nil =>
      refine ⟨h, rfl, m.ledger.results id, m.process.temporaries, (withResults_self m id).symm, ?_⟩
      intro name bytes found
      exact (done name bytes found).elim (by simp) (·.1)
  | cons name names ih =>
      obtain ⟨first, sorted⟩ := List.pairwise_cons.mp sorted
      obtain ⟨bytes, found, regular⟩ := readable name List.mem_cons_self
      refine checked_meets (copyFile_meets env h running left found regular) ?_ ?_
      · rintro m' h' ⟨-, files, temporaries, rfl, copied, kept⟩
        refine (ih sorted (fun other mem => readable other (List.mem_cons_of_mem _ mem)) h'
          running left ?_).weaken ?_
        · intro other content foundOther
          rw [withResults_results]
          rcases done other content foundOther with mem | ⟨copiedBefore, before⟩
          · rcases List.mem_cons.mp mem with rfl | mem
            · obtain rfl : content = bytes := Option.some.inj (foundOther.symm.trans found)
              exact .inr ⟨copied, first⟩
            · exact .inl mem
          · have lt := before name List.mem_cons_self
            exact .inr ⟨(kept other lt).trans copiedBefore, fun z mem => lt.trans (first z mem)⟩
        · rintro rc m'' - ⟨zero, files', temporaries', rfl, all⟩
          exact ⟨zero, files', temporaries', withResults_again .., all⟩
      · rintro rc m' - failed ⟨zero, -⟩
        exact absurd zero failed

theorem copyScratchResults_meets (env : Environment) (h : InCell a id m)
    (running : m.ledger.status id = some .running) :
    Meets (InCell a id) (Move a overwrites recodes) (copyScratchResults env id) (fun rc m' =>
      (∃ files temporaries, m' = withResults m id files temporaries) ∧
        (rc = 0 → Copied m' id)) m := by
  refine .look h (.stutter m) ?_
  cases left : (m.scratch id).bind relativeFiles with
  | none =>
      exact ⟨h, ⟨_, _, (withResults_self m id).symm⟩, by simp⟩
  | some names =>
      obtain ⟨tree, hasTree, listed⟩ := Option.bind_eq_some_iff.mp left
      have plain : tree.symlink = false := by
        by_contra link
        simp [relativeFiles, link] at listed
      obtain ⟨files, symlink⟩ := tree
      obtain rfl : symlink = false := plain
      obtain ⟨regular, rfl⟩ := relativeFiles_eq_some.mp listed
      refine (copyFiles_meets env files.names_strict ?_ h running hasTree
        ?_).weaken ?_
      · intro name mem
        obtain ⟨bytes, found⟩ := Option.isSome_iff_exists.mp (Directory.mem_names.mp mem)
        exact ⟨bytes, found, regular name mem⟩
      · intro name bytes found
        exact .inl (Directory.mem_names.mpr (Option.isSome_iff_exists.mpr ⟨bytes, found⟩))
      · rintro rc m' - ⟨-, copied, temporaries, rfl, all⟩
        refine ⟨⟨copied, temporaries, rfl⟩, fun _ => ⟨_, hasTree, rfl, ?_⟩⟩
        simpa using all

/-! ## Publishing the cell -/

theorem Durable.publishable (h : Durable a m) (begun : m.ledger.runStatus ≠ .prepared)
    (summary : m.ledger.summary.isSome) : ∃ rows, manifestRows a m.ledger = some rows := by
  have ready := h.initialized begun
  refine manifestRows_isSome ready.statuses (fun id _ ended => ?_) (fun id _ => h.regular id)
    summary ready.snapshots
  rcases ended with success | failed
  · simp [(h.success id success).1]
  · obtain ⟨rc, eq, -⟩ := h.failed id failed
    simp [eq]

theorem InCell.publish_meets (h : InCell a id m) (summary : m.ledger.summary.isSome) :
    Meets (InCell a id) (Move a overwrites recodes) (publishManifest a) (fun rc m' => rc = 0 ∧
      ∃ rows, manifestRows a m.ledger = some rows ∧ m' = withManifest m rows) m := by
  obtain ⟨rows, complete⟩ := h.durable.publishable (by simp [h.begun]) summary
  have mv : Move a overwrites recodes m (withManifest m rows) := .publish m rows complete
  refine (publishManifest_meets h (.stutter m) complete mv ?_).weaken ?_
  · exact h.step mv rfl rfl (fun _ _ => rfl) h.started h.recorded
  · rintro rc m' - ⟨zero, rfl⟩
    exact ⟨zero, rows, complete, rfl⟩

structure Ended (id : ExecutionId) (rc : Nat) (m : Machine) : Prop where
  status : m.ledger.status id = some (if rc = 0 then .success else .failed)
  exitcode : m.ledger.exitcode id = some rc
  recorded : m.ledger.recordedFailure = if rc = 0 then none else some rc
  summary : m.ledger.summary.isSome

def withStatus (m : Machine) (id : ExecutionId) (status : CellStatus) : Machine :=
  { m with ledger := m.ledger.setStatus id status }

@[simp] theorem withStatus_status (m : Machine) (id : ExecutionId) (status : CellStatus) :
    (withStatus m id status).ledger.status id = some status := by
  simp [withStatus, Ledger.setStatus]

theorem InCell.ended (h : InCell a id m) (running : m.ledger.status id = some .running)
    {status : CellStatus} (ended : status.ended)
    (mv : Move a overwrites recodes m (withStatus m id status)) :
    InCell a id (withStatus m id status) ∧
      ∀ j, (withStatus m id status).ledger.status j ≠ some .running := by
  have unrecorded := h.durable.recordedFailure_running running
  have other : status ≠ .pending ∧ status ≠ .running := by
    rcases ended with rfl | rfl <;> simp
  have inCell : InCell a id (withStatus m id status) := by
    refine h.step mv rfl rfl (fun j different => ?_) ⟨status, by simp, other.1⟩ fun code eq => ?_
    · exact (setStatus_apply ..).trans (if_neg different)
    · exact absurd (unrecorded.symm.trans eq) (by simp)
  exact ⟨inCell, inCell.stopped (by simp [other.2])⟩

theorem publishCell_meets {rc : Nat} (h : InCell a id m)
    (running : m.ledger.status id = some .running) (code : m.ledger.exitcode id = some rc)
    (success : rc = 0 → (m.ledger.workers id).isSome ∧ Copied m id ∧
      requireSuccessArtifacts a id (m.scratch id) = true) :
    Meets (InCell a id) (Move a overwrites recodes) (publishCell a id rc)
      (fun rc' m' => rc' = 0 ∧ Ended id rc m') m := by
  have unrecorded := h.durable.recordedFailure_running running
  by_cases zero : rc = 0
  · subst zero
    obtain ⟨workers, copied, required⟩ := success rfl
    have mv : Move a overwrites recodes m (withStatus m id .success) :=
      .succeed m id running code workers copied required
    obtain ⟨inCell, -⟩ := h.ended running (.inl rfl) mv
    have summary := summary_running_move overwrites recodes (a := a)
      (m := withStatus m id .success) unrecorded
    have inSummary := inCell.step summary rfl rfl (fun _ _ => rfl) inCell.started
      (fun _ eq => by cases eq)
    rw [publishCell, if_pos rfl]
    refine .step h mv ((writeSummary_meets inCell (.stutter _) inCell.initialized.statuses
      (fun terminal => by cases terminal) summary inSummary).weaken ?_)
    rintro rc' m' - ⟨zero, rfl⟩
    exact ⟨zero, withStatus_status m id .success, code, rfl, rfl⟩
  · have mv : Move a overwrites recodes m (withStatus m id .failed) :=
      .fail m id rc running code zero
    obtain ⟨inCell, stopped⟩ := h.ended running (.inr rfl) mv
    have summary : Move a overwrites recodes (withStatus m id .failed)
        (withSummary (withStatus m id .failed)
          (summaryOf a (withStatus m id .failed).ledger .failed (some id) (some rc))) := by
      refine .summary _ _ (fun _ other same => ?_) (.inr fun c eq => ?_)
      · obtain rfl : id = other := Option.some.inj same
        exact ⟨withStatus_status .., h.active⟩
      · exact absurd (unrecorded.symm.trans eq) (by simp)
    have inSummary := inCell.step summary rfl rfl (fun _ _ => rfl) inCell.started
      (fun c eq => by rw [← eq]; exact code)
    rw [publishCell, if_neg zero]
    refine .step h mv ((writeSummary_meets inCell (.stutter _) inCell.initialized.statuses
      (fun _ => stopped) summary inSummary).weaken ?_)
    rintro rc' m' - ⟨done, rfl⟩
    refine ⟨done, ?_, code, ?_, rfl⟩
    · rw [if_neg zero]
      exact withStatus_status m id .failed
    · rw [if_neg zero]
      rfl

def withExitcode (m : Machine) (id : ExecutionId) (rc : Nat) : Machine :=
  { m with ledger := m.ledger.setExitcode id rc }

@[simp] theorem withExitcode_exitcode (m : Machine) (id : ExecutionId) (rc : Nat) :
    (withExitcode m id rc).ledger.exitcode id = some rc := by
  simp [withExitcode, Ledger.setExitcode]

variable (overwrites recodes) in
theorem InCell.exitcode_move (h : InCell a id m) (running : m.ledger.status id = some .running)
    (rc : Nat) : Move a overwrites recodes m (withExitcode m id rc) ∧
      InCell a id (withExitcode m id rc) := by
  have unrecorded := h.durable.recordedFailure_running running
  have mv : Move a overwrites recodes m (withExitcode m id rc) := .exitcode m id rc running
  refine ⟨mv, h.step mv rfl rfl (fun _ _ => rfl) h.started fun code eq => ?_⟩
  exact absurd (unrecorded.symm.trans eq) (by simp)

theorem Ended.manifest {rc : Nat} (h : Ended id rc m) (rows : List Row) :
    Ended id rc (withManifest m rows) :=
  ⟨h.status, h.exitcode, h.recorded, h.summary⟩

theorem publishEnded_meets {rc : Nat} (h : InCell a id m)
    (running : m.ledger.status id = some .running) (code : m.ledger.exitcode id = some rc)
    (success : rc = 0 → (m.ledger.workers id).isSome ∧ Copied m id ∧
      requireSuccessArtifacts a id (m.scratch id) = true) :
    Meets (InCell a id) (Move a overwrites recodes)
      (checked (publishCell a id rc) (publishManifest a))
      (fun rc' m' => rc' = 0 ∧ Ended id rc m') m := by
  refine checked_meets (publishCell_meets h running code success) ?_ ?_
  · rintro m' h' ⟨-, ended⟩
    refine (h'.publish_meets ended.summary).weaken ?_
    rintro rc' m'' - ⟨zero, rows, -, rfl⟩
    exact ⟨zero, ended.manifest rows⟩
  · rintro rc' m' - failed ⟨zero, -⟩
    exact absurd zero failed

/-- What the publication hook leaves: either the copy failed and nothing is decided, or the cell
has ended with the code the hook returns. -/
def Published (id : ExecutionId) (code : Nat) (m : Machine) (rc : Nat) (m' : Machine) : Prop :=
  (m'.ledger.status id = some .running ∧ rc ≠ 0 ∧ m'.ledger.exitcode = m.ledger.exitcode ∧
    m'.ledger.workers = m.ledger.workers) ∨ (rc = code ∧ Ended id rc m')

theorem publishedCode_eq_zero {scratch : Option Scratch} {benchmark : Nat}
    (h : publishedCode a id scratch benchmark = 0) :
    requireSuccessArtifacts a id scratch = true := by
  by_contra missing
  by_cases ok : benchmark = 0 <;> simp [publishedCode, ok, missing] at h

theorem resultPublicationHook_meets (env : Environment) (h : InCell a id m)
    (running : m.ledger.status id = some .running) (workers : (m.ledger.workers id).isSome)
    (benchmark : Nat) :
    Meets (InCell a id) (Move a overwrites recodes) (resultPublicationHook a env id benchmark)
      (Published id (publishedCode a id (m.scratch id) benchmark) m) m := by
  refine .look h (.stutter m) (checked_meets (copyScratchResults_meets env h running) ?_ ?_)
  · rintro m' h' ⟨⟨files, temporaries, rfl⟩, copied⟩
    obtain ⟨mv, inCell⟩ := h'.exitcode_move overwrites recodes running
      (publishedCode a id (m.scratch id) benchmark)
    have success : publishedCode a id (m.scratch id) benchmark = 0 → _ := fun zero =>
      And.intro workers (And.intro (copied rfl) (publishedCode_eq_zero zero))
    refine .step h' mv (checked_meets (publishCell_meets inCell running
      (withExitcode_exitcode ..) success) ?_ ?_)
    · rintro m'' h'' ⟨-, ended⟩
      refine checked_meets (h''.publish_meets ended.summary) ?_ ?_
      · rintro last inLast ⟨-, rows, -, rfl⟩
        exact ⟨inLast, .inr ⟨rfl, ended.manifest rows⟩⟩
      · rintro rc last - failed ⟨zero, -⟩
        exact absurd zero failed
    · rintro rc m'' - failed ⟨zero, -⟩
      exact absurd zero failed
  · rintro rc m' - - ⟨⟨files, temporaries, rfl⟩, -⟩
    exact .inl ⟨running, by simp, rfl, rfl⟩

theorem nonzero_ne_zero (rc : Nat) : nonzero rc ≠ 0 := by
  unfold nonzero
  split <;> simp_all

theorem finishPrebenchmarkFailure_meets (env : Environment) (h : InCell a id m)
    (running : m.ledger.status id = some .running) (rc : Nat) :
    Meets (InCell a id) (Move a overwrites recodes) (finishPrebenchmarkFailure a env id rc)
      (fun rc' m' => rc' = 0 ∧ Ended id (nonzero rc) m') m := by
  have publish : ∀ m', InCell a id m' → m'.ledger.status id = some .running →
      Meets (InCell a id) (Move a overwrites recodes) ((atomicWrite
        (·.setExitcode id (nonzero rc))).bind fun _ =>
          checked (publishCell a id (nonzero rc)) (publishManifest a))
      (fun rc' m' => rc' = 0 ∧ Ended id (nonzero rc) m') m' := by
    intro m' h' running'
    obtain ⟨mv, inCell⟩ := h'.exitcode_move overwrites recodes running' (nonzero rc)
    exact .step h' mv (publishEnded_meets inCell running' (withExitcode_exitcode ..)
      fun zero => absurd zero (nonzero_ne_zero rc))
  simp only [publishCell, nonzero_ne_zero, if_false] at publish
  refine .look h (.stutter m) ?_
  by_cases left : (m.scratch id).isSome
  · rw [if_pos left]
    refine Meets.bind_of (ignored_meets ((copyScratchResults_meets env h running).weaken ?_))
      fun _ m' h' running' => publish m' h' running'
    rintro rc' m' - ⟨⟨files, temporaries, rfl⟩, -⟩
    exact running
  · rw [if_neg left]
    exact publish m h running

end

end StorageScaleTest.Coordinator
