import StorageScaleTest.Proof.Batch.Shell

/-!
# Python accepts a committed batch

`read_batch_manifest` returns the groups and executions of the ledger.
-/

namespace StorageScaleTest.Batch

open Shell

variable [Ctype] {digest : Text → Text} {ds : Text} {files : Files} {ledger : Ledger}

/-! ## What is returned -/

def groupOf {kind : Kind} (digest : Text → Text) (ds gid : Text) (group : StagedGroup kind) :
    BatchGroup :=
  ⟨gid, kind.text, groupRelative gid kind ds, digest (unlines group.environment),
    digest group.description⟩

def groupsOf (digest : Text → Text) (ds : Text) : Nat → Ledger → List BatchGroup
  | _, [] => []
  | numbered, ⟨_, group⟩ :: rest =>
    groupOf digest ds (pad 4 (numbered + 1)) group :: groupsOf digest ds (numbered + 1) rest

def groupExecutions {kind : Kind} (digest : Text → Text) (ds gid : Text) (environment : List Text) :
    Nat → List (StagedExecution kind) → List BatchExecution
  | _, [] => []
  | used, execution :: rest =>
    let id := pad 4 (used + 1)
    ⟨id, gid, digest (definitionText ds gid id environment execution)⟩
      :: groupExecutions digest ds gid environment (used + 1) rest

def executionsOf (digest : Text → Text) (ds : Text) : Nat → Nat → Ledger → List BatchExecution
  | _, _, [] => []
  | numbered, used, ⟨_, group⟩ :: rest =>
    groupExecutions digest ds (pad 4 (numbered + 1)) group.environment used group.executions
      ++ executionsOf digest ds (numbered + 1) (used + group.executions.length) rest

def manifestOf (digest : Text → Text) (ds : Text) (ledger : Ledger) : BatchManifest :=
  ⟨ledger.length, ds, groupsOf digest ds 0 ledger, executionsOf digest ds 0 0 ledger,
    digest (manifestText digest ds ledger)⟩

omit [Ctype] in
theorem groupsOf_length (numbered : Nat) (ledger : Ledger) :
    (groupsOf digest ds numbered ledger).length = ledger.length := by
  induction ledger generalizing numbered with
  | nil => rfl
  | cons group rest ih => exact congrArg (· + 1) (ih (numbered + 1))

/-! ## Parsing -/

theorem parse_executions {kind : Kind} {gid : Text} {environment : List Text} {used : Nat}
    {rest : List (List Text)} {parsed : Parsed} (later : parseRecords rest = some parsed)
    (executions : List (StagedExecution kind)) :
    parseRecords (executionRows digest ds gid environment used executions ++ rest) =
      some { parsed with
        executions := groupExecutions digest ds gid environment used executions
          ++ parsed.executions } := by
  induction executions generalizing used with
  | nil => exact later
  | cons execution tail ih =>
      simp only [executionRows, List.cons_append, parseRecords, ih, Option.bind_eq_bind,
        Option.bind_some, if_true, groupExecutions]

theorem parse_ledger {numbered used : Nat} :
    parseRecords (ledgerRows digest ds numbered used ledger) =
      some ⟨[], groupsOf digest ds numbered ledger, executionsOf digest ds numbered used ledger⟩ := by
  induction ledger generalizing numbered used with
  | nil => rfl
  | cons group rest ih =>
      obtain ⟨kind, group⟩ := group
      simp only [ledgerRows, groupFields, List.cons_append, parseRecords,
        parse_executions ih, Option.bind_eq_bind, Option.bind_some, if_true]
      rfl

theorem parse_manifest :
    parseRecords (manifestRowsOf digest ds ledger) =
      some ⟨[(versionTag, ['1']), (revisionTag, Nat.toDigits 10 ledger.length), (datestampTag, ds)],
        groupsOf digest ds 0 ledger, executionsOf digest ds 0 0 ledger⟩ := by
  simp only [manifestRowsOf, headerRows, List.cons_append, List.nil_append, parseRecords,
    parse_ledger, Option.bind_eq_bind, Option.bind_some]
  simp [tag_ne]

omit [Ctype] in
theorem validate_headers (valid : isDatestamp ds = true) (some_ : ledger ≠ []) :
    validateHeaders [(versionTag, ['1']), (revisionTag, Nat.toDigits 10 ledger.length),
      (datestampTag, ds)] ledger.length = some (ledger.length, ds) := by
  have positive := isPositive_digits (List.length_pos_of_ne_nil some_)
  have version : (versionTag == revisionTag) = false ∧ (versionTag == datestampTag) = false ∧
      (revisionTag == versionTag) = false ∧ (datestampTag == versionTag) = false ∧
      (datestampTag == revisionTag) = false := by decide
  simp [validateHeaders, List.lookup_cons, version, positive, Nat.ofDigitChars_ten_toDigits, valid]

/-! ## Groups -/

omit [Ctype] in
theorem verifyDigest_of {path : Path} {content : Text} (hex : ∀ text, isHex64 (digest text) = true)
    (present : files path = some (.regular content)) :
    verifyDigest digest files path (digest content) = some content := by
  simp [verifyDigest, present, hex]

omit [Ctype] in
theorem Unlinked.contained (plain : Unlinked files) (paths : List Path) :
    contained files paths = true := by
  apply List.all_eq_true.mpr
  intro path _
  rw [plain.isLink]
  rfl

omit [Ctype] in
theorem validateGroup_of {kind : Kind} {k : Nat} {group : StagedGroup kind}
    (hex : ∀ text, isHex64 (digest text) = true) (plain : Unlinked files)
    (present : PresentGroup ds (pad 4 k) group files) :
    validateGroup digest ds files k (groupOf digest ds (pad 4 k) group) = true := by
  have basename : (if kind.text = Kind.io.text then Kind.io.basename else Kind.mdtest.basename) =
      kind.basename := by
    cases kind <;> rfl
  have kinds : (kind.text = Kind.io.text || kind.text = Kind.mdtest.text) = true := by
    cases kind <;> decide
  have shell := verifyDigest_of hex present.shell
  have yaml := verifyDigest_of hex present.yaml
  have output := present.output
  unfold outputName at shell yaml output
  unfold validateGroup groupOf
  simp only [basename, kinds, plain.contained, shell, yaml, output]
  simp [groupRelative, outputName]

theorem validateGroups_of (hex : ∀ text, isHex64 (digest text) = true) (plain : Unlinked files)
    {numbered used : Nat} (present : Present ds files numbered used ledger) :
    validateGroups digest ds files (numbered + 1) (groupsOf digest ds numbered ledger) = true := by
  induction ledger generalizing numbered used with
  | nil => rfl
  | cons group rest ih =>
      obtain ⟨kind, group⟩ := group
      obtain ⟨first, _, later⟩ := present
      simp only [groupsOf, validateGroups, validateGroup_of hex plain first, ih later, Bool.and_self]

/-! ## Values of a definition -/

omit [Ctype] in
theorem exported_assignment (name value : Text) : exported name (assignment name value) = some value := by
  have parts : assignment name value = assignment name [] ++ value := by simp [assignment]
  unfold exported
  rw [parts, if_pos (List.isPrefixOf_iff_prefix.mpr (List.prefix_append _ _)), List.drop_left]

omit [Ctype] in
theorem exported_other {name other line value : Text} (apart : ¬assignment name [] <+: assignment other [])
    (apart' : ¬assignment other [] <+: assignment name []) (found : exported other line = some value) :
    exported name line = none := by
  unfold exported at found ⊢
  split at found
  · rename_i starts
    rw [if_neg]
    intro starts'
    rw [List.isPrefixOf_iff_prefix] at starts starts'
    rcases List.prefix_or_prefix_of_prefix starts' starts with le | le
    · exact apart le
    · exact apart' le
  · cases found

omit [Ctype] in
theorem exported_nil (name : Text) : exported name [] = none := by
  unfold exported
  rw [if_neg]
  intro starts
  have empty := List.prefix_nil.mp (List.isPrefixOf_iff_prefix.mp starts)
  simp [assignment] at empty

def identityLines {kind : Kind} (execution : StagedExecution kind) (ds id : Text) : List Text :=
  let suffix := '-' :: (ds ++ ("-e".toList ++ id))
  (execution.lines.filter fun line =>
      (exported suffixName line).isNone && (exported directoriesName line).isNone)
    ++ [assignment suffixName (quote suffix),
      assignment directoriesName (quote (execution.testDirectories suffix))]

theorem reidentifyExecution_eq {kind : Kind} (execution : StagedExecution kind) (id : Text) :
    reidentifyExecution execution ds id = unlines (identityLines execution ds id) :=
  (unlines_append _ _).symm

theorem exported_identity {kind : Kind} (execution : StagedExecution kind) (id : Text) {name : Text}
    (mem : name ∈ [groupName, relativeName, kindName]) :
    (identityLines execution ds id).filterMap (exported name) =
      execution.lines.filterMap (exported name) := by
  have known : ∀ name ∈ [groupName, relativeName, kindName], ∀ other ∈ [suffixName, directoriesName],
      ¬assignment name [] <+: assignment other [] ∧ ¬assignment other [] <+: assignment name [] := by
    decide
  have other : ∀ line other value, other ∈ [suffixName, directoriesName] →
      exported other line = some value → exported name line = none := fun line other value mem' =>
    exported_other (known name mem other mem').1 (known name mem other mem').2
  have suffix := fun value => other _ suffixName value (by simp) (exported_assignment suffixName value)
  have directories := fun value =>
    other _ directoriesName value (by simp) (exported_assignment directoriesName value)
  unfold identityLines
  rw [List.filterMap_append, List.filterMap_cons_none (suffix _),
    List.filterMap_cons_none (directories _), List.filterMap_nil, List.append_nil]
  induction execution.lines with
  | nil => rfl
  | cons line rest ih =>
      cases kept : (exported suffixName line).isNone && (exported directoriesName line).isNone with
      | true =>
          rw [List.filter_cons, if_pos kept, List.filterMap_cons, List.filterMap_cons, ih]
      | false =>
          rw [List.filter_cons, if_neg (by simp only [kept]; decide), ih]
          have none : exported name line = none := by
            cases first : exported suffixName line with
            | some value => exact other line _ value (by simp) first
            | none =>
                cases second : exported directoriesName line with
                | some value => exact other line _ value (by simp) second
                | none => simp [first, second] at kept
          rw [List.filterMap_cons_none none]

theorem newline_not_mem_assignment {name value : Text} (known : '\n' ∉ name) :
    '\n' ∉ assignment name (quote value) := by
  have word : '\n' ∉ exportWord := by decide
  unfold assignment
  simp only [List.mem_append, List.mem_cons, not_or]
  exact ⟨word, known, by decide, newline_not_mem_quote value⟩

def definitionLines {kind : Kind} (ds gid id : Text) (environment : List Text)
    (execution : StagedExecution kind) : List Text :=
  environment ++ [assignment groupName (quote gid),
    assignment relativeName (quote (groupRelative gid kind ds))] ++ identityLines execution ds id

theorem definitionText_eq {kind : Kind} (gid id : Text) (environment : List Text)
    (execution : StagedExecution kind) :
    definitionText ds gid id environment execution =
      unlines (definitionLines ds gid id environment execution) := by
  unfold definitionText definitionLines
  rw [reidentifyExecution_eq, unlines_append, unlines_append]

theorem definitionLines_plain {kind : Kind} (gid id : Text) {environment : List Text}
    (plain : ∀ line ∈ environment, '\n' ∉ line) (execution : StagedExecution kind) :
    ∀ line ∈ definitionLines ds gid id environment execution, '\n' ∉ line := by
  have names : '\n' ∉ groupName ∧ '\n' ∉ relativeName ∧ '\n' ∉ suffixName ∧
      '\n' ∉ directoriesName := by decide
  intro line mem
  rcases List.mem_append.mp mem with mem | mem
  · rcases List.mem_append.mp mem with mem | mem
    · exact plain line mem
    · rcases List.mem_cons.mp mem with rfl | mem
      · exact newline_not_mem_assignment names.1
      · rw [List.mem_singleton.mp mem]
        exact newline_not_mem_assignment names.2.1
  · rcases List.mem_append.mp mem with mem | mem
    · exact execution.plain line (List.mem_filter.mp mem).1
    · rcases List.mem_cons.mp mem with rfl | mem
      · exact newline_not_mem_assignment names.2.2.1
      · rw [List.mem_singleton.mp mem]
        exact newline_not_mem_assignment names.2.2.2

theorem exportValue_definition {kind : Kind} {gid id name raw : Text} {environment : List Text}
    (plain : ∀ line ∈ environment, '\n' ∉ line) {execution : StagedExecution kind}
    (last : ((definitionLines ds gid id environment execution).filterMap (exported name)).getLast? =
      some raw) (some_ : raw ≠ []) (word : ∀ c ∈ raw, isPlain c = true) :
    exportValue (definitionText ds gid id environment execution) name = some raw := by
  unfold exportValue
  rw [definitionText_eq, splitOn_unlines (definitionLines_plain gid id plain execution),
    List.filterMap_append, List.filterMap_cons_none (exported_nil name), List.filterMap_nil,
    List.append_nil, last]
  simp only [Option.bind_eq_bind, Option.bind_some, shlexSplit_plain some_ word]

theorem definition_values {kind : Kind} {gid : Text} (id : Text) {environment : List Text}
    (valid : isDatestamp ds = true) (number : PlainField gid)
    (plain : ∀ line ∈ environment, '\n' ∉ line) (execution : StagedExecution kind) :
    exportValue (definitionText ds gid id environment execution) kindName = some kind.text ∧
      exportValue (definitionText ds gid id environment execution) groupName = some gid ∧
      exportValue (definitionText ds gid id environment execution) relativeName =
        some (groupRelative gid kind ds) := by
  have relative := plain_relative kind number valid
  have identity := fun name => @exported_identity _ ds _ execution id name
  have unnumbered : execution.lines.filterMap (exported groupName) = [] ∧
      execution.lines.filterMap (exported relativeName) = [] := by
    constructor
    · exact List.filterMap_eq_nil_iff.mpr fun line mem => (execution.unnumbered line mem).1
    · exact List.filterMap_eq_nil_iff.mpr fun line mem => (execution.unnumbered line mem).2
  have quoted := quote_plain number.1 number.2
  have quoted' := quote_plain relative.1 relative.2
  have apart : ∀ value, exported relativeName (assignment groupName value) = none ∧
      exported groupName (assignment relativeName value) = none := fun value =>
    ⟨exported_other (by decide) (by decide) (exported_assignment groupName value),
      exported_other (by decide) (by decide) (exported_assignment relativeName value)⟩
  refine ⟨exportValue_definition plain ?_ (plain_kind kind).1 (plain_kind kind).2,
    exportValue_definition plain ?_ number.1 number.2,
    exportValue_definition plain ?_ relative.1 relative.2⟩
  · unfold definitionLines
    rw [List.filterMap_append, identity kindName (by simp), List.getLast?_append,
      execution.recorded]
    rfl
  · unfold definitionLines
    rw [List.filterMap_append, identity groupName (by simp), unnumbered.1, List.append_nil,
      List.filterMap_append, List.filterMap_cons_some (exported_assignment _ _), quoted,
      List.filterMap_cons_none (apart _).2, List.filterMap_nil]
    simp
  · unfold definitionLines
    rw [List.filterMap_append, identity relativeName (by simp), unnumbered.2, List.append_nil,
      List.filterMap_append, List.filterMap_cons_none (apart _).1,
      List.filterMap_cons_some (exported_assignment _ _), quoted', List.filterMap_nil]
    simp

/-! ## Executions -/

omit [Ctype] in
theorem groupsOf_append (numbered : Nat) (ledger more : Ledger) :
    groupsOf digest ds numbered (ledger ++ more) =
      groupsOf digest ds numbered ledger ++ groupsOf digest ds (numbered + ledger.length) more := by
  induction ledger generalizing numbered with
  | nil => rfl
  | cons group rest ih =>
      simp only [List.cons_append, groupsOf, ih, List.length_cons]
      congr 3
      omega

omit [Ctype] in
theorem groupsOf_ids (numbered : Nat) (ledger : Ledger) :
    (groupsOf digest ds numbered ledger).map (·.groupId) =
      (List.range' (numbered + 1) ledger.length).map (pad 4) := by
  induction ledger generalizing numbered with
  | nil => rfl
  | cons group rest ih =>
      rw [groupsOf, List.map_cons, ih, List.length_cons, List.range'_succ, List.map_cons]
      rfl

omit [Ctype] in
theorem find_group {before after : Ledger} {kind : Kind} {group : StagedGroup kind} :
    (groupsOf digest ds 0 (before ++ ⟨kind, group⟩ :: after)).find?
        (·.groupId = pad 4 (before.length + 1)) =
      some (groupOf digest ds (pad 4 (before.length + 1)) group) := by
  rw [groupsOf_append, List.find?_append, Nat.zero_add]
  have none : (groupsOf digest ds 0 before).find? (·.groupId = pad 4 (before.length + 1)) = none := by
    apply List.find?_eq_none.mpr
    intro found mem same
    have ids := List.mem_map_of_mem (f := (·.groupId)) mem
    rw [groupsOf_ids] at ids
    obtain ⟨k, range, eq⟩ := List.mem_map.mp ids
    have range := List.mem_range'_1.mp range
    have := pad_injective (eq.trans (of_decide_eq_true same))
    omega
  rw [none, Option.none_or, groupsOf, List.find?_cons_of_pos (by simp [groupOf])]

theorem validate_group_executions {kind : Kind} {k used : Nat} {group : StagedGroup kind}
    {groups : List BatchGroup} {executions : List (StagedExecution kind)}
    {rest : List BatchExecution} {previous : Text}
    (hex : ∀ text, isHex64 (digest text) = true) (valid : isDatestamp ds = true)
    (plain : Unlinked files) (number : k ≤ 9999) (total : used + executions.length ≤ 9999)
    (found : groups.find? (·.groupId = pad 4 k) = some (groupOf digest ds (pad 4 k) group))
    (ordered : ¬pad 4 k < previous)
    (present : PresentExecutions ds (pad 4 k) group.environment files used executions) :
    validateExecutions digest files groups (used + 1) previous
        (groupExecutions digest ds (pad 4 k) group.environment used executions ++ rest) =
      validateExecutions digest files groups (used + executions.length + 1)
        (if executions = [] then previous else pad 4 k) rest := by
  induction executions generalizing used previous with
  | nil => rfl
  | cons execution tail ih =>
      obtain ⟨definition, _, later⟩ := present
      rw [List.length_cons] at total
      have content := verifyDigest_of hex definition
      obtain ⟨kindValue, groupValue, relativeValue⟩ := definition_values (pad 4 (used + 1))
        valid (plain_pad k) group.plain execution
      have first : validateExecution digest files groups (used + 1) previous
          ⟨pad 4 (used + 1), pad 4 k, digest (definitionText ds (pad 4 k) (pad 4 (used + 1))
            group.environment execution)⟩ = true := by
        have bound : used + 1 ≤ 9999 := by omega
        unfold validateExecution
        simp only [found, content, plain.contained, ordered, kindValue, groupValue, relativeValue,
          groupOf, bound]
        decide
      have ordered' : ¬pad 4 k < pad 4 k := pad_not_lt (Nat.le_refl _) (by omega) (by decide)
      simp only [groupExecutions, List.cons_append, validateExecutions, first, Bool.true_and]
      rw [ih (by omega) ordered' later, List.length_cons, if_neg (List.cons_ne_nil _ _), ite_self]
      congr 1
      omega

theorem validateExecutions_of (hex : ∀ text, isHex64 (digest text) = true)
    (valid : isDatestamp ds = true) (plain : Unlinked files) {before after : Ledger} {used : Nat}
    {previous : Text} (number : (before ++ after).length ≤ 9999) (total : used + after.total ≤ 9999)
    (ordered : ∀ k, before.length < k → k ≤ 9999 → ¬pad 4 k < previous)
    (inhabited : ∀ group ∈ after, group.2.executions ≠ [])
    (present : Present ds files before.length used after) :
    validateExecutions digest files (groupsOf digest ds 0 (before ++ after)) (used + 1) previous
      (executionsOf digest ds before.length used after) = true := by
  induction after generalizing before used previous with
  | nil => rfl
  | cons group rest ih =>
      obtain ⟨kind, group⟩ := group
      obtain ⟨_, executions, later⟩ := present
      have shift : before ++ ⟨kind, group⟩ :: rest = (before ++ [⟨kind, group⟩]) ++ rest := by simp
      have length : (before ++ [(⟨kind, group⟩ : (kind : Kind) × StagedGroup kind)]).length =
          before.length + 1 := by simp
      have nonempty := inhabited _ List.mem_cons_self
      rw [Ledger.total_cons] at total
      rw [List.length_append, List.length_cons] at number
      dsimp only at total nonempty
      rw [executionsOf, validate_group_executions hex valid plain (by omega) (by omega) find_group
        (ordered _ (by omega) (by omega)) executions, if_neg nonempty, shift]
      have tail := @ih (before ++ [⟨kind, group⟩]) (used + group.executions.length)
        (pad 4 (before.length + 1)) (by rw [← shift, List.length_append, List.length_cons]; omega)
        (by omega)
        (fun k lt le => pad_not_lt (by omega) (by omega) (by decide))
        (fun group mem => inhabited group (List.mem_cons_of_mem _ mem)) (by rw [length]; exact later)
      rw [length] at tail
      exact tail

theorem groupExecutions_group {kind : Kind} {gid : Text} {environment : List Text} {used : Nat}
    {executions : List (StagedExecution kind)} (some_ : executions ≠ []) :
    (groupExecutions digest ds gid environment used executions).any (·.groupId = gid) = true := by
  cases executions with
  | nil => exact absurd rfl some_
  | cons execution rest => simp [groupExecutions]

theorem every_group_used (inhabited : ∀ group ∈ ledger, group.2.executions ≠ []) {numbered used : Nat} :
    ∀ group ∈ groupsOf digest ds numbered ledger,
      (executionsOf digest ds numbered used ledger).any (·.groupId = group.groupId) = true := by
  induction ledger generalizing numbered used with
  | nil => intro group mem; cases mem
  | cons group rest ih =>
      intro found mem
      rw [executionsOf, List.any_append, Bool.or_eq_true]
      rcases List.mem_cons.mp mem with rfl | mem
      · exact .inl (groupExecutions_group (inhabited _ List.mem_cons_self))
      · exact .inr (ih (fun group mem => inhabited group (List.mem_cons_of_mem _ mem)) found mem)

omit [Ctype] in
theorem length_le_total (inhabited : ∀ group ∈ ledger, group.2.executions ≠ []) :
    ledger.length ≤ ledger.total := by
  induction ledger with
  | nil => exact Nat.le_refl _
  | cons group rest ih =>
      have first := List.length_pos_of_ne_nil (inhabited group List.mem_cons_self)
      have later := ih fun group mem => inhabited group (List.mem_cons_of_mem _ mem)
      rw [List.length_cons, Ledger.total_cons]
      omega

theorem readBatchManifest_holds (hex : ∀ text, isHex64 (digest text) = true)
    (valid : isDatestamp ds = true) (holds : Holds digest ds ledger files) (some_ : ledger ≠ []) :
    readBatchManifest digest files = some (manifestOf digest ds ledger) := by
  have rows := splitlines_rows (manifestRowsOf_plain hex valid ledger)
  have groups := validateGroups_of hex holds.unlinked holds.present
  have number := (length_le_total holds.inhabited).trans holds.total
  have executions := @validateExecutions_of _ _ _ _ hex valid holds.unlinked [] ledger 0 []
    (by simpa using number) (by simpa using holds.total)
    (fun k _ _ => by simp) holds.inhabited (by simpa using holds.present)
  have used : (groupsOf digest ds 0 ledger).all (fun group =>
      (executionsOf digest ds 0 0 ledger).any (·.groupId = group.groupId)) = true :=
    List.all_eq_true.mpr (every_group_used holds.inhabited)
  unfold readBatchManifest
  rw [holds.manifest]
  simp only
  rw [manifestText, rows, parse_manifest]
  simp only [Option.bind_eq_bind, Option.bind_some, groupsOf_length, validate_headers valid some_,
    holds.unsealed]
  rw [if_pos]
  · rfl
  · simp only [Nat.zero_add, List.nil_append, List.length_nil] at groups executions
    simp only [groups, executions, used, Bool.and_self]

end StorageScaleTest.Batch
