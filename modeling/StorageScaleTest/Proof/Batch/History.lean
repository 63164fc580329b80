import Mathlib.Data.List.Nodup
import StorageScaleTest.Proof.Batch.Python

/-!
# Histories of publications

After any publications, each stopped anywhere, both readers accept what is committed and agree on
it, and a commit only appends.
-/

namespace StorageScaleTest.Batch

open Shell

section

variable [Ctype] {digest : Text → Text} {ds : Text} {files : Files} {ledger : Ledger}

/-! ## The lookups of the shell -/

def groupRow (group : BatchGroup) : List Text :=
  [groupTag, group.groupId, group.kind, group.outputRelative, group.shellDigest, group.yamlDigest]

def executionRow (execution : BatchExecution) : List Text :=
  [executionTag, execution.executionId, execution.groupId, execution.definitionDigest]

theorem executionRows_eq {kind : Kind} {gid : Text} {environment : List Text} {used : Nat}
    (executions : List (StagedExecution kind)) :
    executionRows digest ds gid environment used executions =
      (groupExecutions digest ds gid environment used executions).map executionRow := by
  induction executions generalizing used with
  | nil => rfl
  | cons execution rest ih =>
      rw [executionRows, groupExecutions, List.map_cons, ih]
      rfl

variable (digest ds ledger) in
theorem tagged_rows (tag : Text) {numbered used : Nat} :
    (ledgerRows digest ds numbered used ledger).filter (·.getD 0 [] = tag) =
      if tag = groupTag then (groupsOf digest ds numbered ledger).map groupRow
      else if tag = executionTag then (executionsOf digest ds numbered used ledger).map executionRow
      else [] := by
  have one : ∀ (executions : List BatchExecution), (executions.map executionRow).filter
      (·.getD 0 [] = tag) = if tag = executionTag then executions.map executionRow else [] := by
    intro executions
    by_cases same : tag = executionTag
    · rw [if_pos same]
      apply List.filter_eq_self.mpr
      intro fields mem
      obtain ⟨execution, _, rfl⟩ := List.mem_map.mp mem
      simp [executionRow, same]
    · rw [if_neg same]
      apply List.filter_eq_nil_iff.mpr
      intro fields mem
      obtain ⟨execution, _, rfl⟩ := List.mem_map.mp mem
      simpa [executionRow] using fun eq => same eq.symm
  induction ledger generalizing numbered used with
  | nil => simp [ledgerRows, groupsOf, executionsOf]
  | cons group rest ih =>
      obtain ⟨kind, group⟩ := group
      rw [ledgerRows, List.filter_append, List.filter_cons, ih, executionRows_eq, one]
      by_cases first : tag = groupTag
      · subst first
        simp [groupsOf, groupFields, groupRow, groupOf, tag_ne]
      · have other : groupTag ≠ tag := fun eq => first eq.symm
        by_cases second : tag = executionTag
        · subst second
          simp [executionsOf, groupFields, tag_ne]
        · simp [first, second, groupFields, other]

variable (digest ds ledger) in
theorem tagged_manifest {tag : Text} (mem : tag ∈ [groupTag, executionTag]) :
    (manifestRowsOf digest ds ledger).filter (·.getD 0 [] = tag) =
      (ledgerRows digest ds 0 0 ledger).filter (·.getD 0 [] = tag) := by
  have none : (headerRows ds ledger.length).filter (·.getD 0 [] = tag) = [] := by
    simp only [List.mem_cons, List.not_mem_nil, or_false] at mem
    rcases mem with rfl | rfl <;> simp [headerRows, tag_ne]
  rw [manifestRowsOf, List.filter_append, none, List.nil_append]

omit [Ctype] in
theorem filter_and {α : Type} (p q : α → Bool) (list : List α) :
    list.filter (fun a => p a && q a) = (list.filter p).filter q := by
  rw [List.filter_filter]
  exact List.filter_congr fun a _ => Bool.and_comm _ _

omit [Ctype] in
theorem filter_key {α β : Type} [DecidableEq β] {key : α → β} {list : List α}
    (nodup : (list.map key).Nodup) {x : α} (mem : x ∈ list) :
    list.filter (fun y => key y = key x) = [x] := by
  induction list with
  | nil => cases mem
  | cons y rest ih =>
      rw [List.map_cons, List.nodup_cons] at nodup
      rcases List.mem_cons.mp mem with rfl | mem
      · rw [List.filter_cons_of_pos (by simp)]
        congr 1
        apply List.filter_eq_nil_iff.mpr
        intro y mem' same
        exact nodup.1 (of_decide_eq_true same ▸ List.mem_map_of_mem mem')
      · have other : key y ≠ key x := fun same => nodup.1 (same ▸ List.mem_map_of_mem mem)
        rw [List.filter_cons_of_neg (by simpa using other), ih nodup.2 mem]

theorem groupExecutions_ids {kind : Kind} {gid : Text} {environment : List Text} (used : Nat)
    (executions : List (StagedExecution kind)) :
    (groupExecutions digest ds gid environment used executions).map (·.executionId) =
      (List.range' (used + 1) executions.length).map (pad 4) := by
  induction executions generalizing used with
  | nil => rfl
  | cons execution rest ih =>
      rw [groupExecutions, List.map_cons, ih, List.length_cons, List.range'_succ, List.map_cons]

variable (digest ds) in
theorem executionsOf_ids (numbered used : Nat) (ledger : Ledger) :
    (executionsOf digest ds numbered used ledger).map (·.executionId) =
      (List.range' (used + 1) ledger.total).map (pad 4) := by
  induction ledger generalizing numbered used with
  | nil => rfl
  | cons group rest ih =>
      rw [executionsOf, List.map_append, groupExecutions_ids, ih, Ledger.total_cons,
        ← List.map_append]
      congr 1
      rw [← List.range'_append_1]
      congr 2
      omega

omit [Ctype] in
theorem pads_nodup (start count : Nat) : ((List.range' start count).map (pad 4)).Nodup :=
  List.Nodup.map (fun _ _ same => pad_injective same) List.nodup_range'

omit [Ctype] in
theorem isDigits_pad (n : Nat) : isDigits (pad 4 n) = true := by
  unfold isDigits
  rw [Bool.and_eq_true, List.all_eq_true]
  exact ⟨decide_eq_true (plain_pad n).1, fun c mem => pad_digit mem⟩

omit [Ctype] in
theorem awkEqual_pad (m n : Nat) : awkEqual (pad 4 m) (pad 4 n) = decide (pad 4 m = pad 4 n) := by
  unfold awkEqual
  rw [isDigits_pad, isDigits_pad, if_pos (by decide), ofDigitChars_pad, ofDigitChars_pad]
  exact decide_eq_decide.mpr ⟨fun same => by rw [same], pad_injective⟩

theorem execution_group {numbered used : Nat} :
    ∀ execution ∈ executionsOf digest ds numbered used ledger,
      ∃ group ∈ groupsOf digest ds numbered ledger, group.groupId = execution.groupId := by
  have all : ∀ {kind : Kind} (gid : Text) (environment : List Text) (executions : List (StagedExecution kind))
      (used : Nat), ∀ execution ∈ groupExecutions digest ds gid environment used executions,
        execution.groupId = gid := by
    intro kind gid environment executions
    induction executions with
    | nil => intro used execution mem; cases mem
    | cons first rest ih =>
        intro used execution mem
        rcases List.mem_cons.mp mem with rfl | mem
        · rfl
        · exact ih _ execution mem
  induction ledger generalizing numbered used with
  | nil => intro execution mem; cases mem
  | cons group rest ih =>
      intro execution mem
      rcases List.mem_append.mp mem with first | later
      · exact ⟨_, List.mem_cons_self, (all _ _ _ _ execution first).symm⟩
      · obtain ⟨found, mem, same⟩ := ih execution later
        exact ⟨found, List.mem_cons_of_mem _ mem, same⟩

/-! ## What both readers find -/

structure Accepted (digest : Text → Text) (files : Files) (manifest : BatchManifest) : Prop where
  shell : verifyManifest digest true files = true
  python : readBatchManifest digest files = some manifest
  groups : shellGroups files =
    manifest.groups.map fun group => (group.groupId, group.kind, group.outputRelative)
  membership : ∀ execution ∈ manifest.executions, ∃ group ∈ manifest.groups,
    group.groupId = execution.groupId ∧
      executionOutput files execution.executionId = some group.outputRelative
  numbered : manifest.groups.map (·.groupId) =
    (List.range' 1 manifest.groups.length).map (pad 4)
  sequence : manifest.executions.map (·.executionId) =
    (List.range' 1 manifest.executions.length).map (pad 4)
  revision : manifest.revision = manifest.groups.length

theorem manifestRows_holds (hex : ∀ text, isHex64 (digest text) = true)
    (valid : isDatestamp ds = true) (holds : Holds digest ds ledger files) :
    manifestRows files = manifestRowsOf digest ds ledger := by
  unfold manifestRows contentOf
  rw [holds.manifest]
  exact records_rows (manifestRowsOf_plain hex valid ledger)

theorem shellGroups_holds (hex : ∀ text, isHex64 (digest text) = true)
    (valid : isDatestamp ds = true) (holds : Holds digest ds ledger files) :
    shellGroups files = (groupsOf digest ds 0 ledger).map fun group =>
      (group.groupId, group.kind, group.outputRelative) := by
  have rows : (readLines (contentOf files .manifest)).map readFields =
      manifestRowsOf digest ds ledger := by
    unfold contentOf
    rw [holds.manifest]
    exact readLines_rows (manifestRowsOf_plain hex valid ledger)
  have tagged := (tagged_manifest digest ds ledger (by simp)).trans
    (tagged_rows digest ds ledger groupTag)
  rw [if_pos rfl] at tagged
  have selected : ∀ rows : List (List Text), rows.filterMap (fun words =>
      if words.getD 0 [] = groupTag then some (words.getD 1 [], words.getD 2 [], words.getD 3 [])
      else none) = (rows.filter (·.getD 0 [] = groupTag)).map fun words =>
        (words.getD 1 [], words.getD 2 [], words.getD 3 []) := by
    intro rows
    induction rows with
    | nil => rfl
    | cons words rest ih =>
        by_cases group : words.getD 0 [] = groupTag
        · simp only [List.filterMap_cons, List.filter_cons, group, if_true, decide_true, ih,
            List.map_cons]
        · simp only [List.filterMap_cons, List.filter_cons, group, if_false, decide_false, ih]
          rfl
  unfold shellGroups
  rw [rows, selected, tagged, List.map_map]
  rfl

theorem executionOutput_holds (hex : ∀ text, isHex64 (digest text) = true)
    (valid : isDatestamp ds = true) (holds : Holds digest ds ledger files)
    {execution : BatchExecution} (mem : execution ∈ executionsOf digest ds 0 0 ledger) :
    ∃ group ∈ groupsOf digest ds 0 ledger, group.groupId = execution.groupId ∧
      executionOutput files execution.executionId = some group.outputRelative := by
  obtain ⟨group, inside, same⟩ := execution_group execution mem
  refine ⟨group, inside, same, ?_⟩
  have executions := (tagged_manifest digest ds ledger (by simp)).trans
    (tagged_rows digest ds ledger executionTag)
  have groups := (tagged_manifest digest ds ledger (by simp)).trans
    (tagged_rows digest ds ledger groupTag)
  rw [if_neg tag_ne.1, if_pos rfl] at executions
  rw [if_pos rfl] at groups
  have padded : ∀ other ∈ executionsOf digest ds 0 0 ledger,
      awkEqual other.executionId execution.executionId =
        decide (other.executionId = execution.executionId) := by
    have ids : ∀ other ∈ executionsOf digest ds 0 0 ledger, ∃ k, pad 4 k = other.executionId := by
      intro other mem
      have id := List.mem_map_of_mem (f := (·.executionId)) mem
      rw [executionsOf_ids] at id
      obtain ⟨k, _, eq⟩ := List.mem_map.mp id
      exact ⟨k, eq⟩
    intro other mem'
    obtain ⟨k, eq⟩ := ids other mem'
    obtain ⟨k', eq'⟩ := ids execution mem
    rw [← eq, ← eq', awkEqual_pad]
  have nodup : ((executionsOf digest ds 0 0 ledger).map (·.executionId)).Nodup := by
    rw [executionsOf_ids]
    exact pads_nodup _ _
  have nodup' : ((groupsOf digest ds 0 ledger).map (·.groupId)).Nodup := by
    rw [groupsOf_ids]
    exact pads_nodup _ _
  have found : (manifestRowsOf digest ds ledger).filter (fun fields =>
      fields.getD 0 [] = executionTag && awkEqual (fields.getD 1 []) execution.executionId) =
        [executionRow execution] := by
    rw [filter_and, executions, List.filter_map, List.filter_congr (q := fun other =>
      other.executionId = execution.executionId) padded, filter_key nodup mem]
    rfl
  have located : (manifestRowsOf digest ds ledger).filter (fun row =>
      row.getD 0 [] = groupTag && row.getD 1 [] = (executionRow execution).getD 2 []) =
        [groupRow group] := by
    rw [filter_and, groups, List.filter_map]
    have key := filter_key nodup' inside
    rw [same] at key
    exact congrArg (List.map groupRow) key
  unfold executionOutput
  rw [manifestRows_holds hex valid holds]
  simp only [found, located]
  rfl

theorem accepted_holds (hex : ∀ text, isHex64 (digest text) = true)
    (valid : isDatestamp ds = true) (holds : Holds digest ds ledger files) (some_ : ledger ≠ []) :
    Accepted digest files (manifestOf digest ds ledger) where
  shell := verifyManifest_holds hex valid holds some_
  python := readBatchManifest_holds hex valid holds some_
  groups := shellGroups_holds hex valid holds
  membership _ mem := executionOutput_holds hex valid holds mem
  numbered := by
    rw [manifestOf, groupsOf_length]
    exact groupsOf_ids 0 ledger
  sequence := by
    have ids := executionsOf_ids digest ds 0 0 ledger
    have length := congrArg List.length ids
    simp only [List.length_map, List.length_range'] at length
    rw [manifestOf, length]
    exact ids
  revision := (groupsOf_length 0 ledger).symm

/-! ## Commits -/

/-- What Python reads, or nothing before the first commit. -/
def committedGroups (digest : Text → Text) (files : Files) : List BatchGroup :=
  ((readBatchManifest digest files).map (·.groups)).getD []

def committedExecutions (digest : Text → Text) (files : Files) : List BatchExecution :=
  ((readBatchManifest digest files).map (·.executions)).getD []

def committedRows (files : Files) : List Text := (readLines (contentOf files .manifest)).drop 3

/-- All groups of the submission are appended, and nothing else changes. -/
structure Appends (digest : Text → Text) (files after : Files) (submission : Submission) : Prop where
  rows : committedRows files <+: committedRows after
  groups : ∃ new, committedGroups digest after = committedGroups digest files ++ new ∧
    new.map (·.kind) = submission.stages.map fun _ => submission.kind.text
  executions : ∃ new, committedExecutions digest after = committedExecutions digest files ++ new ∧
    new.map (·.groupId) =
      (submission.stages.zipIdx ((committedGroups digest files).length + 1)).flatMap fun stage =>
        List.replicate stage.1.executions.length (pad 4 stage.2)

theorem readBatchManifest_empty (hex : ∀ text, isHex64 (digest text) = true)
    (valid : isDatestamp ds = true) (holds : Holds digest ds [] files) :
    readBatchManifest digest files = none := by
  have rows := splitlines_rows (manifestRowsOf_plain hex valid [])
  have headers : validateHeaders [(versionTag, ['1']), (revisionTag, Nat.toDigits 10 0),
      (datestampTag, ds)] 0 = none := by
    have version : (versionTag == revisionTag) = false ∧ (versionTag == datestampTag) = false ∧
        (revisionTag == versionTag) = false ∧ (datestampTag == versionTag) = false ∧
        (datestampTag == revisionTag) = false := by decide
    have zero : isPositive (Nat.toDigits 10 0) = false := by decide
    simp only [validateHeaders, List.lookup_cons, version, beq_self_eq_true, zero, Option.bind_eq_bind,
      Option.bind_some]
    simp
  unfold readBatchManifest
  rw [holds.manifest]
  simp only
  rw [manifestText, rows, parse_manifest]
  simp only [Option.bind_eq_bind, Option.bind_some, groupsOf_length]
  rw [List.length_nil, headers]
  rfl

theorem committed_holds (hex : ∀ text, isHex64 (digest text) = true)
    (valid : isDatestamp ds = true) (holds : Holds digest ds ledger files) :
    committedGroups digest files = groupsOf digest ds 0 ledger ∧
      committedExecutions digest files = executionsOf digest ds 0 0 ledger := by
  unfold committedGroups committedExecutions
  cases ledger with
  | nil =>
      rw [readBatchManifest_empty hex valid holds]
      exact ⟨rfl, rfl⟩
  | cons group rest =>
      rw [readBatchManifest_holds hex valid holds (List.cons_ne_nil _ _)]
      exact ⟨rfl, rfl⟩

theorem committedRows_holds (hex : ∀ text, isHex64 (digest text) = true)
    (valid : isDatestamp ds = true) (holds : Holds digest ds ledger files) :
    committedRows files = (ledgerRows digest ds 0 0 ledger).map row := by
  unfold committedRows contentOf
  rw [holds.manifest]
  simp only
  rw [manifestText, readLines_unlines (no_newline_of_rows (manifestRowsOf_plain hex valid ledger))]
  rfl

theorem executionsOf_append (numbered used : Nat) (ledger more : Ledger) :
    executionsOf digest ds numbered used (ledger ++ more) =
      executionsOf digest ds numbered used ledger ++
        executionsOf digest ds (numbered + ledger.length) (used + ledger.total) more := by
  induction ledger generalizing numbered used with
  | nil => simp [executionsOf, Ledger.total]
  | cons group rest ih =>
      rw [List.cons_append, executionsOf, executionsOf, ih, List.append_assoc, List.length_cons,
        Ledger.total_cons]
      congr 3 <;> omega

theorem groupExecutions_groups {kind : Kind} {gid : Text} {environment : List Text} (used : Nat)
    (executions : List (StagedExecution kind)) :
    (groupExecutions digest ds gid environment used executions).map (·.groupId) =
      List.replicate executions.length gid := by
  induction executions generalizing used with
  | nil => rfl
  | cons execution rest ih =>
      rw [groupExecutions, List.map_cons, ih, List.length_cons, List.replicate_succ]

variable (digest ds) in
theorem executionsOf_stages {kind : Kind} (numbered used : Nat) (stages : List (StagedGroup kind)) :
    (executionsOf digest ds numbered used (stages.map (⟨kind, ·⟩))).map (·.groupId) =
      (stages.zipIdx (numbered + 1)).flatMap fun stage =>
        List.replicate stage.1.executions.length (pad 4 stage.2) := by
  induction stages generalizing numbered used with
  | nil => rfl
  | cons stage rest ih =>
      rw [List.map_cons, executionsOf, List.map_append, groupExecutions_groups, ih, List.zipIdx_cons,
        List.flatMap_cons]

omit [Ctype] in
theorem groupsOf_stages {kind : Kind} (numbered : Nat) (stages : List (StagedGroup kind)) :
    (groupsOf digest ds numbered (stages.map (⟨kind, ·⟩))).map (·.kind) =
      stages.map fun _ => kind.text := by
  induction stages generalizing numbered with
  | nil => rfl
  | cons stage rest ih =>
      rw [List.map_cons, groupsOf, List.map_cons, ih, List.map_cons]
      rfl

theorem appends_holds {after : Files} {submission : Submission}
    (hex : ∀ text, isHex64 (digest text) = true) (valid : isDatestamp ds = true)
    (holds : Holds digest ds ledger files)
    (holds' : Holds digest ds (ledger ++ submission.ledger) after) :
    Appends digest files after submission := by
  obtain ⟨groups, executions⟩ := committed_holds hex valid holds
  obtain ⟨groups', executions'⟩ := committed_holds hex valid holds'
  constructor
  · rw [committedRows_holds hex valid holds, committedRows_holds hex valid holds',
      ledgerRows_append, List.map_append]
    exact List.prefix_append _ _
  · refine ⟨groupsOf digest ds (0 + ledger.length) submission.ledger, ?_, ?_⟩
    · rw [groups, groups', groupsOf_append]
    · exact groupsOf_stages _ submission.stages
  · refine ⟨executionsOf digest ds (0 + ledger.length) (0 + ledger.total) submission.ledger, ?_, ?_⟩
    · rw [executions, executions', executionsOf_append]
    · rw [groups, groupsOf_length]
      have stages := executionsOf_stages digest ds (0 + ledger.length)
        (0 + ledger.total) submission.stages
      rw [Nat.zero_add] at stages ⊢
      exact stages

/-! ## The prepared batch -/

omit [Ctype] in
theorem plain_profile (hex : ∀ text, isHex64 (digest text) = true) (file : CommonFile)
    (content : Text) : PlainRow [file.relative, digest content] := by
  have name : PlainField file.relative := by
    cases file <;> exact .of_all (by decide) (by decide)
  exact plainRow_two name (plain_hex (hex content))

omit [Ctype] in
theorem verifyProfile_prepared (hex : ∀ text, isHex64 (digest text) = true)
    (common : CommonSettings) :
    verifyProfileFiles digest (prepared digest ds common) = true := by
  let lines : List Text := CommonFile.all.filterMap fun file =>
    (common.content file).map fun content => row [file.relative, digest content]
  have plain : ∀ line ∈ lines, '\n' ∉ line := by
    intro line mem
    obtain ⟨file, _, eq⟩ := List.mem_filterMap.mp mem
    obtain ⟨content, _, rfl⟩ := Option.map_eq_some_iff.mp eq
    exact (plain_profile hex file content).no_newline
  have read : ∀ file content, readFields (row [CommonFile.relative file, digest content]) =
      [file.relative, digest content] := fun file content => (plain_profile hex file content).readFields
  have verified : lines.all (verifyProfileLine digest (prepared digest ds common)) = true := by
    apply List.all_eq_true.mpr
    intro line mem
    obtain ⟨file, _, eq⟩ := List.mem_filterMap.mp mem
    obtain ⟨content, present, rfl⟩ := Option.map_eq_some_iff.mp eq
    have known : CommonFile.ofText file.relative = some file := by cases file <;> decide
    have stored : prepared digest ds common (.common file) = some (.regular content) := by
      simp [prepared, present]
    unfold verifyProfileLine
    simp only [read, List.getD_cons_zero, List.getD_cons_succ, known, hasDigest_of hex stored]
    rfl
  have counted : (lines.filter fun line => (readFields line).getD 0 [] ∈
      [CommonFile.environment.relative, CommonFile.fields.relative]).length = 2 := by
    have others : ∀ file ∈ [CommonFile.sshHostList, .slurmNodeIncludes, .slurmNodeIgnores],
        file.relative ∉ [CommonFile.environment.relative, CommonFile.fields.relative] := by decide
    have required : ∀ file ∈ [CommonFile.environment, .fields],
        file.relative ∈ [CommonFile.environment.relative, CommonFile.fields.relative] := by decide
    have rest : (([CommonFile.sshHostList, .slurmNodeIncludes, .slurmNodeIgnores].filterMap fun file =>
        (common.content file).map fun content => row [file.relative, digest content]).filter
          fun line => (readFields line).getD 0 [] ∈
            [CommonFile.environment.relative, CommonFile.fields.relative]) = [] := by
      apply List.filter_eq_nil_iff.mpr
      intro line inside
      obtain ⟨file, mem, eq⟩ := List.mem_filterMap.mp inside
      obtain ⟨content, _, rfl⟩ := Option.map_eq_some_iff.mp eq
      rw [read]
      exact fun counted => others file mem (of_decide_eq_true counted)
    have parts : lines = [row [CommonFile.environment.relative, digest common.environment],
        row [CommonFile.fields.relative, digest common.fields]] ++
          [CommonFile.sshHostList, .slurmNodeIncludes, .slurmNodeIgnores].filterMap fun file =>
            (common.content file).map fun content => row [file.relative, digest content] := rfl
    rw [parts, List.filter_append, rest, List.append_nil, List.filter_eq_self.mpr]
    · rfl
    · intro line mem
      simp only [List.mem_cons, List.not_mem_nil, or_false] at mem
      rcases mem with rfl | rfl
      · rw [read]
        exact decide_eq_true (required .environment (by simp))
      · rw [read]
        exact decide_eq_true (required .fields (by simp))
  unfold verifyProfileFiles
  simp only [prepared]
  change (((readLines (unlines lines)).all _ && decide ((List.filter _ (readLines (unlines lines))).length = 2))
    && true) = true
  rw [readLines_unlines plain, verified, counted]
  rfl

theorem prepared_holds (hex : ∀ text, isHex64 (digest text) = true) (common : CommonSettings) :
    Holds digest ds [] (prepared digest ds common) where
  manifest := rfl
  present := trivial
  total := Nat.zero_le _
  inhabited := fun _ mem => by cases mem
  executions := rfl
  unlinked path := by
    cases path <;> simp [prepared]
  unsealed := rfl
  profile := verifyProfile_prepared hex common

theorem length_committedExecutions (hex : ∀ text, isHex64 (digest text) = true)
    (valid : isDatestamp ds = true) (holds : Holds digest ds ledger files) :
    (committedExecutions digest files).length = ledger.total := by
  have ids := congrArg List.length (executionsOf_ids digest ds 0 0 ledger)
  rw [(committed_holds hex valid holds).2]
  simpa using ids

theorem history_holds (hex : ∀ text, isHex64 (digest text) = true) (valid : isDatestamp ds = true)
    (holds : Holds digest ds ledger files) (submissions : List (Submission × Nat)) :
    ∃ ledger', Holds digest ds ledger' (history digest ds files submissions) := by
  induction submissions generalizing files ledger with
  | nil => exact ⟨ledger, holds⟩
  | cons first rest ih =>
      rcases publish_holds hex valid holds first.1 first.2 with kept | committed
      · exact ih kept
      · exact ih committed

end

/-! ## A batch with one execution -/

local instance batchLocale : Ctype := posix

def oneExecution : StagedExecution .io where
  lines := [assignment kindName Kind.io.text]
  plain := by decide
  recorded := by decide
  unnumbered := by decide
  testDirectories suffix := "/data/elbencho-sweep".toList ++ suffix

def oneGroup : StagedGroup .io := ⟨[], by decide, [], [oneExecution]⟩

def oneSubmission : Submission := ⟨.io, [oneGroup], []⟩

def sampleStamp : Text := "20260101Z000000".toList

/-- The SHA-256 digests of the empty text, of two definitions, and of the manifests of one group
and of two. -/
def sampleDigest (text : Text) : Text :=
  if text = [] then
    "e3b0c44298fc1c149afbf4c8996fb92427ae41e4649b934ca495991b7852b855".toList
  else if text = definitionText sampleStamp (pad 4 1) (pad 4 1) [] oneExecution then
    "550722bcc42aef148773400bae221f2a592a735fcddc0fb6e481887eb6dd2eac".toList
  else if text = definitionText sampleStamp (pad 4 2) (pad 4 2) [] oneExecution then
    "0e3cd623e00c5f9cad1368f266a90bf0d57f21deed5ab4aeca0403a0066c8b76".toList
  else if (records text).length ≤ 5 then
    "6ecb2b4605260526743023febe9e026f9c636c63151c81f88cbec8ca0c3e94f1".toList
  else "e9c708976e4ab9ea031605e821bc37cc0aa75e2308847a47796a93f87d0bc696".toList

theorem sampleDigest_hex (text : Text) : isHex64 (sampleDigest text) = true := by
  unfold sampleDigest
  repeat' split
  all_goals decide +kernel

def sampleBatch (submissions : Nat) : Files :=
  history sampleDigest sampleStamp
    (prepared sampleDigest sampleStamp ⟨[], [], none, none, none⟩)
    (List.replicate submissions (oneSubmission, 10))

end StorageScaleTest.Batch
