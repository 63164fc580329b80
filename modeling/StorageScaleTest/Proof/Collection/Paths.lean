import StorageScaleTest.Collection.Validation
import StorageScaleTest.Proof.Coordinator.Files

/-!
# The paths of a publication

Every file a coordinator publishes has a path the collector considers safe and can tell apart from
the others.
-/

namespace StorageScaleTest.Collection

open Coordinator
open Shell (isCellId isDatestamp isPathChar)

/-! ## Safe paths -/

def SafeParts (cs : List Char) : Prop :=
  (∀ c ∈ cs, isPathChar c = true) ∧ ∀ part ∈ cs.splitOn '/', regularPart part = true

theorem splitOn_slash (xs ys : List Char) :
    (xs ++ '/' :: ys).splitOn '/' = xs.splitOn '/' ++ ys.splitOn '/' :=
  List.splitOn_append_cons_of_beq xs ys (beq_self_eq_true '/')

theorem SafeParts.append_iff {xs ys : List Char} :
    SafeParts (xs ++ '/' :: ys) ↔ SafeParts xs ∧ SafeParts ys := by
  have slash : isPathChar '/' = true := by decide
  unfold SafeParts
  rw [splitOn_slash]
  simp only [List.mem_append, List.mem_cons, or_imp, forall_and, forall_eq, slash, true_and]
  tauto

theorem SafeParts.of_plain {cs : List Char} (plain : '/' ∉ cs)
    (chars : ∀ c ∈ cs, isPathChar c = true) (regular : regularPart cs = true) : SafeParts cs := by
  refine ⟨chars, fun part mem => ?_⟩
  rw [List.splitOn_eq_singleton plain] at mem
  obtain rfl := List.mem_singleton.mp mem
  exact regular

theorem regularPart_of_length {cs : List Char} (long : 3 ≤ cs.length) : regularPart cs = true := by
  have nonempty : cs ≠ [] := by rintro rfl; simp at long
  have dot : cs ≠ ['.'] := by rintro rfl; simp at long
  have dots : cs ≠ ['.', '.'] := by rintro rfl; simp at long
  simp [regularPart, nonempty, dot, dots]

theorem components_of_last {cs : List Char} (nonempty : cs ≠ [])
    (last : cs.getLast? ≠ some '/') : components cs = cs.splitOn '/' := by
  obtain ⟨front, c, rfl⟩ := List.eq_nil_or_concat cs |>.resolve_left nonempty
  have plain : '/' ∉ [c] := by
    intro mem
    simp only [List.mem_singleton] at mem
    simp [← mem] at last
  obtain ⟨init, part, -, eq⟩ := splitOn_append_tail front [c] plain
  unfold components
  rw [List.concat_eq_append, eq]
  simp

theorem safeRelativeFilePath_iff (path : String) :
    safeRelativeFilePath path = true ↔ SafeParts path.toList := by
  rw [safeRelativeFilePath]
  generalize path.toList = cs
  simp only [Import.safeRelativeFilePath, Import.safeArchiveMember, ne_eq, decide_not,
    Bool.and_eq_true, Bool.not_eq_true', decide_eq_false_iff_not, List.all_eq_true, SafeParts]
  have bad : regularPart [] = false := by decide
  constructor
  · rintro ⟨last, ⟨⟨nonempty, -⟩, chars⟩, parts⟩
    rw [components_of_last nonempty last] at parts
    exact ⟨chars, fun part mem => by simpa [regularPart] using parts part mem⟩
  · rintro ⟨chars, parts⟩
    have nonempty : cs ≠ [] := by
      rintro rfl
      have := parts [] (by simp [List.splitOn_nil])
      simp [bad] at this
    have last : cs.getLast? ≠ some '/' := by
      intro slash
      obtain ⟨front, rfl⟩ := List.getLast?_eq_some_iff.mp slash
      have := parts [] (by rw [splitOn_slash]; simp [List.splitOn_nil])
      simp [bad] at this
    have first : cs.head? ≠ some '/' := by
      intro slash
      obtain ⟨rest, rfl⟩ := List.head?_eq_some_iff.mp slash
      have := parts [] (by
        have split := splitOn_slash [] rest
        rw [List.nil_append] at split
        rw [split]
        simp [List.splitOn_nil])
      simp [bad] at this
    rw [components_of_last nonempty last]
    exact ⟨last, ⟨⟨nonempty, first⟩, chars⟩, fun part mem => by
      simpa [regularPart] using parts part mem⟩

theorem safeParts_literal (path : String)
    (ok : safeRelativeFilePath path = true := by decide) : SafeParts path.toList :=
  (safeRelativeFilePath_iff path).mp ok

/-! ## Ids -/

theorem isExecutionId_iff (id : String) :
    isExecutionId id = true ↔ id.toList.length = 4 ∧ ∀ c ∈ id.toList, c.isDigit = true := by
  simp [isExecutionId, isCellId]

theorem isPathChar_digit {c : Char} (digit : c.isDigit = true) : isPathChar c = true := by
  simp [isPathChar, Char.isAlphanum, digit]

theorem not_slash_digit {c : Char} (digit : c.isDigit = true) : c ≠ '/' := by
  rintro rfl
  exact absurd digit (by decide)

theorem SafeParts.id_suffix {id : String} (valid : isExecutionId id = true) {suffix : List Char}
    (plain : '/' ∉ suffix) (chars : ∀ c ∈ suffix, isPathChar c = true) :
    SafeParts (id.toList ++ suffix) := by
  obtain ⟨length, digits⟩ := (isExecutionId_iff id).mp valid
  apply SafeParts.of_plain
  · intro mem
    rcases List.mem_append.mp mem with mem | mem
    · exact not_slash_digit (digits _ mem) rfl
    · exact plain mem
  · intro c mem
    rcases List.mem_append.mp mem with mem | mem
    · exact isPathChar_digit (digits c mem)
    · exact chars c mem
  · apply regularPart_of_length
    simp only [List.length_append]
    omega

theorem SafeParts.id {id : String} (valid : isExecutionId id = true) : SafeParts id.toList := by
  have segment : SafeParts (id.toList ++ []) := .id_suffix valid (by simp) (by simp)
  rwa [List.append_nil] at segment

theorem isDatestamp_chars {ds : List Char} (valid : isDatestamp ds = true) :
    ∀ c ∈ ds, c.isDigit = true ∨ c = 'Z' := by
  unfold isDatestamp at valid
  split at valid
  · rename_i time rest
    simp only [Bool.and_eq_true, List.all_eq_true] at valid
    intro c mem
    rw [← List.take_append_drop 8 ds, rest] at mem
    rcases List.mem_append.mp mem with mem | mem
    · exact .inl (valid.1.1 c mem)
    · rcases List.mem_cons.mp mem with rfl | mem
      · exact .inr rfl
      · exact .inl (valid.2 c mem)
  · cases valid

theorem take_id {id : String} (valid : isExecutionId id = true) (rest : List Char) :
    (id.toList ++ rest).take 4 = id.toList ∧ (id.toList ++ rest).drop 4 = rest := by
  have length := ((isExecutionId_iff id).mp valid).1
  exact ⟨List.take_left' length, List.drop_left' length⟩

theorem numbered?_append {id : String} (valid : isExecutionId id = true) (start : List Char)
    (separator : Char) (rest : List Char) :
    Import.numbered? start separator (start ++ (id.toList ++ separator :: rest)) =
      some (id.toList, rest) := by
  obtain ⟨take, drop⟩ := take_id valid (separator :: rest)
  have next : (id.toList ++ separator :: rest)[4]? = some separator := by
    rw [← List.head?_drop, drop, List.head?_cons]
  have last : (id.toList ++ separator :: rest).drop 5 = rest := by
    rw [show (5 : Nat) = 4 + 1 from rfl, ← List.drop_drop, drop]
    rfl
  have front : start.isPrefixOf (start ++ (id.toList ++ separator :: rest)) = true :=
    List.isPrefixOf_iff_prefix.mpr (List.prefix_append ..)
  have named : isCellId id.toList = true := valid
  simp only [Import.numbered?, List.drop_left, take, next, last, front, named, Bool.and_self,
    decide_true, if_true]

theorem numbered?_none {start path : List Char} (separator : Char)
    (other : start.isPrefixOf path = false) : Import.numbered? start separator path = none := by
  simp only [Import.numbered?, other, Bool.false_and, Bool.false_eq_true, if_false]

theorem executionsStart_eq : "executions/".toList = Import.executionsStart := rfl

theorem resultsStart_eq : "results/".toList = Import.resultsStart := rfl

theorem executionPath?_render {id : String} (valid : isExecutionId id = true)
    {path : String} {suffix : List Char}
    (eq : path.toList = "executions/".toList ++ (id.toList ++ '.' :: suffix)) :
    executionPath? path = some (id, suffix) := by
  have read := numbered?_append valid Import.executionsStart '.' suffix
  rw [executionPath?, Import.executionPath?, eq, executionsStart_eq, read, Option.map_some,
    String.ofList_toList]

theorem render_status (id : ExecutionId) :
    (StatePath.status id).render = "executions/" ++ id ++ ".status" := rfl

theorem render_exitcode (id : ExecutionId) :
    (StatePath.exitcode id).render = "executions/" ++ id ++ ".exitcode" := rfl

theorem render_workers (id : ExecutionId) :
    (StatePath.workers id).render = "executions/" ++ id ++ ".workers.tsv" := rfl

theorem render_result (id : ExecutionId) (relative : String) :
    (StatePath.result id relative).render = "results/" ++ id ++ "/" ++ relative := rfl

theorem executionPath?_status {id : ExecutionId} (valid : isExecutionId id = true) :
    executionPath? (StatePath.status id).render = some (id, "status".toList) :=
  executionPath?_render valid (by simp [render_status])

theorem executionPath?_exitcode {id : ExecutionId} (valid : isExecutionId id = true) :
    executionPath? (StatePath.exitcode id).render = some (id, "exitcode".toList) :=
  executionPath?_render valid (by simp [render_exitcode])

theorem executionPath?_workers {id : ExecutionId} (valid : isExecutionId id = true) :
    executionPath? (StatePath.workers id).render = some (id, "workers.tsv".toList) :=
  executionPath?_render valid (by simp [render_workers])

theorem executionPath?_none {path : String}
    (other : "executions/".toList.isPrefixOf path.toList = false) : executionPath? path = none := by
  rw [executionsStart_eq] at other
  rw [executionPath?, Import.executionPath?, numbered?_none '.' other, Option.map_none]

theorem resultPath?_render {id relative : String} (valid : isExecutionId id = true)
    (nonempty : relative ≠ "") :
    resultPath? (StatePath.result id relative).render = some (id, relative) := by
  have eq : (StatePath.result id relative).render.toList =
      "results/".toList ++ (id.toList ++ '/' :: relative.toList) := by
    simp [render_result]
  have some : relative.toList ≠ [] := by
    intro empty
    exact nonempty (by rw [← String.toList_inj, empty]; rfl)
  have read := numbered?_append valid Import.resultsStart '/' relative.toList
  rw [resultPath?, Import.resultPath?, eq, resultsStart_eq, read,
    Option.filter_some_pos (by simpa using some), Option.map_some, String.ofList_toList,
    String.ofList_toList]

/-! ## Group directories -/

variable {a : Attempt} {b : Batch}

theorem outputDir_toList (b : Batch) (group : Group) :
    (b.outputDir group).toList = "groups".toList ++ '/' :: (group.id.toList ++ '/' ::
      ((if group.mdtest then "mdtest-elbencho-" else "elbencho-").toList ++ b.datestamp.toList)) := by
  unfold Batch.outputDir
  split <;> simp [*]

theorem safeParts_outputDir {group : Group} (valid : isExecutionId group.id = true) :
    SafeParts (b.outputDir group).toList := by
  have chars := isDatestamp_chars b.datestamp_valid
  have base : ∀ front : List Char, 3 ≤ front.length → '/' ∉ front →
      (∀ c ∈ front, isPathChar c = true) → SafeParts (front ++ b.datestamp.toList) := by
    intro front long plain safe
    apply SafeParts.of_plain
    · intro mem
      rcases List.mem_append.mp mem with mem | mem
      · exact plain mem
      · rcases chars _ mem with digit | eq
        · exact absurd digit (by decide)
        · exact absurd eq (by decide)
    · intro c mem
      rcases List.mem_append.mp mem with mem | mem
      · exact safe c mem
      · rcases chars c mem with digit | rfl
        · exact isPathChar_digit digit
        · decide
    · apply regularPart_of_length
      simp only [List.length_append]
      omega
  rw [outputDir_toList, SafeParts.append_iff, SafeParts.append_iff]
  refine ⟨safeParts_literal "groups", .id valid, ?_⟩
  split
  · exact base _ (by decide +kernel) (by decide +kernel) (List.all_eq_true.mp (by decide +kernel))
  · exact base _ (by decide +kernel) (by decide +kernel) (List.all_eq_true.mp (by decide +kernel))

theorem append_slash_toList (path name : String) :
    (path ++ "/" ++ name).toList = path.toList ++ '/' :: name.toList := by
  simp

theorem safeParts_outputRelative {id : ExecutionId} (mem : id ∈ a.executions) {name : String}
    (safe : SafeParts name.toList) : SafeParts (a.outputRelative id ++ name).toList := by
  unfold Attempt.outputRelative
  cases batch : a.batch with
  | none => simpa using safe
  | some b =>
      have valid := b.groups_valid _ (a.output_mem b batch id mem)
      simp only [append_slash_toList, SafeParts.append_iff]
      exact ⟨safeParts_outputDir valid, safe⟩

theorem mem_groupSnapshots {name : String} : name ∈ Attempt.groupSnapshots b ↔
    ∃ group ∈ b.groups, name = b.outputDir group ++ "/" ++ "env_used.sh" ∨
      name = b.outputDir group ++ "/" ++ "env_used.yaml" := by
  simp [Attempt.groupSnapshots, String.append_assoc]

theorem mem_snapshots {name : String} : name ∈ a.snapshots ↔
    name = "env_used.sh" ∨ name = "env_used.yaml" ∨ ∃ b, a.batch = some b ∧
      (name = "batch-manifest.tsv" ∨ name = "batch-sealed.sha256" ∨
        name ∈ Attempt.groupSnapshots b) := by
  unfold Attempt.snapshots
  cases a.batch <;> simp

theorem isSnapshotCore_of_mem {name : String} (mem : name ∈ a.snapshots) :
    isSnapshotCore name = true := by
  rcases mem_snapshots.mp mem with rfl | rfl | ⟨b, -, rfl | rfl | inBatch⟩
  · decide
  · decide
  · decide
  · decide
  · obtain ⟨group, -, rfl | rfl⟩ := mem_groupSnapshots.mp inBatch <;>
      · unfold isSnapshotCore
        rw [append_slash_toList, outputDir_toList]
        rfl

theorem safeParts_snapshot {name : String} (mem : name ∈ a.snapshots) :
    SafeParts name.toList := by
  rcases mem_snapshots.mp mem with rfl | rfl | ⟨b, -, rfl | rfl | mem⟩
  · exact safeParts_literal _
  · exact safeParts_literal _
  · exact safeParts_literal _
  · exact safeParts_literal _
  · obtain ⟨group, inBatch, rfl | rfl⟩ := mem_groupSnapshots.mp mem
    · rw [append_slash_toList, SafeParts.append_iff]
      exact ⟨safeParts_outputDir (b.groups_valid group inBatch), safeParts_literal _⟩
    · rw [append_slash_toList, SafeParts.append_iff]
      exact ⟨safeParts_outputDir (b.groups_valid group inBatch), safeParts_literal _⟩

theorem outputDir_id {group : Group} (valid : isExecutionId group.id = true) (rest : List Char) :
    (((b.outputDir group).toList ++ rest).drop 7).take 4 = group.id.toList := by
  rw [outputDir_toList, List.append_assoc, List.drop_append]
  simp only [List.cons_append, List.append_assoc]
  exact (take_id valid _).1

theorem groupSnapshots_nodup (b : Batch) : (Attempt.groupSnapshots b).Nodup := by
  unfold Attempt.groupSnapshots
  rw [List.nodup_flatMap]
  constructor
  · intro group _
    have different : b.outputDir group ++ "/env_used.sh" ≠ b.outputDir group ++ "/env_used.yaml" := by
      intro same
      have tail := congrArg String.toList same
      simp only [String.toList_append, List.append_cancel_left_eq] at tail
      exact absurd tail (by decide)
    simp [different]
  · refine (List.pairwise_map.mp b.groups_nodup).imp_of_mem ?_
    intro group group' mem mem' different name inFirst inSecond
    have id : ∀ g ∈ b.groups, name ∈ [b.outputDir g ++ "/env_used.sh",
        b.outputDir g ++ "/env_used.yaml"] → (name.toList.drop 7).take 4 = g.id.toList := by
      intro g inBatch inPair
      have valid := b.groups_valid g inBatch
      simp only [List.mem_cons, List.not_mem_nil, or_false] at inPair
      rcases inPair with rfl | rfl
      · rw [String.toList_append]
        exact outputDir_id valid _
      · rw [String.toList_append]
        exact outputDir_id valid _
    apply different
    rw [← String.toList_inj, ← id group mem inFirst, ← id group' mem' inSecond]

theorem groupSnapshots_head {name : String} (mem : name ∈ Attempt.groupSnapshots b) :
    name.toList.head? = some 'g' := by
  obtain ⟨group, -, rfl | rfl⟩ := mem_groupSnapshots.mp mem <;>
    rw [append_slash_toList, outputDir_toList] <;> rfl

theorem snapshots_nodup (a : Attempt) : a.snapshots.Nodup := by
  unfold Attempt.snapshots
  cases a.batch with
  | none => decide
  | some b =>
      have literal : ∀ name : String, name.toList.head? ≠ some 'g' →
          name ∉ Attempt.groupSnapshots b := fun name first mem => first (groupSnapshots_head mem)
      simp only [List.cons_append, List.nil_append, List.nodup_cons, List.mem_cons, not_or]
      exact ⟨⟨by decide, by decide, by decide, literal _ (by decide)⟩,
        ⟨by decide, by decide, literal _ (by decide)⟩, ⟨by decide, literal _ (by decide)⟩,
        literal _ (by decide), groupSnapshots_nodup b⟩

/-! ## Published paths -/

def Proper (a : Attempt) : StatePath → Prop
  | .status id | .exitcode id | .workers id => isExecutionId id = true
  | .result id relative => isExecutionId id = true ∧ safeRelativeFilePath relative = true
  | .snapshot name => name ∈ a.snapshots
  | .runStatus | .runSummary | .startupError | .coordinatorLoss => True

theorem safe_render {path : StatePath} (proper : Proper a path) :
    safeRelativeFilePath path.render = true := by
  rw [safeRelativeFilePath_iff]
  have cell : ∀ id suffix : String, isExecutionId id = true → '/' ∉ suffix.toList →
      (∀ c ∈ suffix.toList, isPathChar c = true) →
      SafeParts ("executions/" ++ id ++ suffix).toList := by
    intro id suffix valid plain chars
    have eq : ("executions/" ++ id ++ suffix).toList =
        "executions".toList ++ '/' :: (id.toList ++ suffix.toList) := by simp
    rw [eq, SafeParts.append_iff]
    exact ⟨safeParts_literal "executions", .id_suffix valid plain chars⟩
  cases path with
  | status id => exact cell id ".status" proper (by decide +kernel) (List.all_eq_true.mp (by decide +kernel))
  | exitcode id => exact cell id ".exitcode" proper (by decide +kernel) (List.all_eq_true.mp (by decide +kernel))
  | workers id => exact cell id ".workers.tsv" proper (by decide +kernel) (List.all_eq_true.mp (by decide +kernel))
  | runStatus => exact safeParts_literal _
  | runSummary => exact safeParts_literal _
  | startupError => exact safeParts_literal _
  | coordinatorLoss => exact safeParts_literal _
  | snapshot name => exact safeParts_snapshot proper
  | result id relative =>
      have eq : (StatePath.result id relative).render.toList =
          "results".toList ++ '/' :: (id.toList ++ '/' :: relative.toList) := by
        simp [render_result]
      rw [eq, SafeParts.append_iff, SafeParts.append_iff]
      exact ⟨safeParts_literal "results", .id proper.1, (safeRelativeFilePath_iff _).mp proper.2⟩

def decode (path : String) : StatePath :=
  match executionPath? path, resultPath? path with
  | some (id, suffix), _ =>
    if suffix = "status".toList then .status id
    else if suffix = "exitcode".toList then .exitcode id else .workers id
  | none, some (id, relative) => .result id relative
  | none, none =>
    if path = "run.status" then .runStatus
    else if path = "run-summary.tsv" then .runSummary
    else if path = "startup-error.txt" then .startupError
    else if path = "coordinator-loss.tsv" then .coordinatorLoss
    else .snapshot path

theorem resultPath?_none {path : String}
    (other : "results/".toList.isPrefixOf path.toList = false) : resultPath? path = none := by
  rw [resultsStart_eq] at other
  rw [resultPath?, Import.resultPath?, numbered?_none '/' other, Option.filter_none,
    Option.map_none]

theorem decode_snapshot {name : String} (mem : name ∈ a.snapshots) :
    decode name = .snapshot name := by
  rcases mem_snapshots.mp mem with rfl | rfl | ⟨b, -, rfl | rfl | mem⟩
  · decide
  · decide
  · decide
  · decide
  · obtain ⟨rest, eq⟩ : ∃ rest, name.toList = "groups".toList ++ rest := by
      obtain ⟨group, -, rfl | rfl⟩ := mem_groupSnapshots.mp mem <;>
        exact ⟨_, by rw [append_slash_toList, outputDir_toList, List.append_assoc]⟩
    have other : ∀ literal : String, literal.toList.head? ≠ some 'g' → name ≠ literal := by
      rintro literal first rfl
      exact first (by simp [eq])
    have noExecution : executionPath? name = none := executionPath?_none (by rw [eq]; rfl)
    have noResult : resultPath? name = none := resultPath?_none (by rw [eq]; rfl)
    simp only [decode, noExecution, noResult]
    rw [if_neg (other _ (by decide)), if_neg (other _ (by decide)), if_neg (other _ (by decide)),
      if_neg (other _ (by decide))]

theorem decode_render {path : StatePath} (proper : Proper a path) :
    decode path.render = path := by
  cases path with
  | status id =>
      simp only [decode, executionPath?_status proper]
      rw [if_pos trivial]
  | exitcode id =>
      simp only [decode, executionPath?_exitcode proper]
      rw [if_neg (by decide), if_pos trivial]
  | workers id =>
      simp only [decode, executionPath?_workers proper]
      rw [if_neg (by decide), if_neg (by decide)]
  | runStatus => decide
  | runSummary => decide
  | startupError => decide
  | coordinatorLoss => decide
  | snapshot name => exact decode_snapshot proper
  | result id relative =>
      have nonempty : relative ≠ "" := by
        rintro rfl
        exact absurd proper.2 (by decide)
      have noExecution : executionPath? (StatePath.result id relative).render = none :=
        executionPath?_none (by simp [render_result]; rfl)
      simp only [decode, noExecution, resultPath?_render proper.1 nonempty]

theorem render_injective {path path' : StatePath} (proper : Proper a path)
    (proper' : Proper a path') (eq : path.render = path'.render) : path = path' := by
  rw [← decode_render proper, ← decode_render proper', eq]

end StorageScaleTest.Collection
