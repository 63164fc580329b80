import StorageScaleTest.Shell.Text

/-!
# Publishing batch groups

The files of a prepared batch, and the writes by which `_elbencho_batch_publish_groups` stages new
groups beside the manifest and commits them with one rename.
-/

namespace StorageScaleTest.Batch

open Shell

abbrev Text := List Char

/-! ## Files -/

inductive Node
  | regular (content : Text)
  | directory
  | symlink
  deriving DecidableEq, Repr

inductive CommonFile
  | environment | fields | sshHostList | slurmNodeIncludes | slurmNodeIgnores
  deriving DecidableEq, Repr

def CommonFile.relative : CommonFile → Text
  | .environment => "common-env.sh".toList
  | .fields => "common-fields.tsv".toList
  | .sshHostList => "config/SSH_HOST_LIST".toList
  | .slurmNodeIncludes => "config/SLURM_NODE_INCLUDES".toList
  | .slurmNodeIgnores => "config/SLURM_NODE_IGNORES".toList

def CommonFile.all : List CommonFile :=
  [.environment, .fields, .sshHostList, .slurmNodeIncludes, .slurmNodeIgnores]

inductive Path
  | manifest | newManifest
  | groups | group (id : Text) | output (id name : Text)
  | snapshotShell (id name : Text) | snapshotYaml (id name : Text)
  | executions | definition (id : Text) | status (id : Text)
  | environment | config | common (file : CommonFile) | profile
  | seal | sealedEnvironment
  deriving DecidableEq, Repr

abbrev Files := Path → Option Node

def Path.inGroup (id : Text) : Path → Bool
  | .group id' | .output id' _ | .snapshotShell id' _ | .snapshotYaml id' _ => id' = id
  | _ => false

def contentOf (files : Files) (path : Path) : Text :=
  match files path with
  | some (.regular content) => content
  | _ => []

def store (files : Files) (path : Path) (content : Text) : Files := fun path' =>
  if path' = path then some (.regular content) else files path'

/-! ## Staged groups -/

inductive Kind
  | io | mdtest
  deriving DecidableEq, Repr

def Kind.text : Kind → Text
  | .io => "io".toList
  | .mdtest => "mdtest".toList

def Kind.basename : Kind → Text
  | .io => "elbencho".toList
  | .mdtest => "mdtest-elbencho".toList

def exportWord : Text := "export ".toList

/-- `export NAME=value` -/
def assignment (name value : Text) : Text := exportWord ++ (name ++ '=' :: value)

/-! The words of a manifest and of a status. -/

def versionTag : Text := "version".toList
def revisionTag : Text := "revision".toList
def datestampTag : Text := "datestamp".toList
def groupTag : Text := "group".toList
def executionTag : Text := "execution".toList
def groupsPrefix : Text := "groups/".toList
def pendingWord : Text := "PENDING".toList

def exported (name line : Text) : Option Text :=
  if (assignment name []).isPrefixOf line then some (line.drop (assignment name []).length)
  else none

def groupName : Text := "ELBENCHO_BATCH_GROUP_ID".toList
def relativeName : Text := "ELBENCHO_BATCH_OUTPUT_RELATIVE".toList
def kindName : Text := "ELBENCHO_EXECUTION_KIND".toList
def suffixName : Text := "ELBENCHO_RUN_TEST_DIR_SUFFIX".toList
def directoriesName : Text := "ELBENCHO_RUN_GENERATED_TEST_DIRS_CSV".toList

/-- An execution that a launcher has reified for a batch: it records its kind, and nothing of the
batch. `testDirectories` is what the staged environment generates for a suffix. -/
structure StagedExecution (kind : Kind) where
  lines : List Text
  plain : ∀ line ∈ lines, '\n' ∉ line
  recorded : (lines.filterMap (exported kindName)).getLast? = some kind.text
  unnumbered : ∀ line ∈ lines, exported groupName line = none ∧ exported relativeName line = none
  testDirectories : Text → Text

structure StagedGroup (kind : Kind) where
  environment : List Text
  plain : ∀ line ∈ environment, '\n' ∉ line
  description : Text
  executions : List (StagedExecution kind)

def outputName (kind : Kind) (ds : Text) : Text := kind.basename ++ '-' :: ds

/-- `_elbencho_batch_group_relative` -/
def groupRelative (gid : Text) (kind : Kind) (ds : Text) : Text :=
  groupsPrefix ++ (gid ++ '/' :: outputName kind ds)

/-- `_elbencho_batch_reidentify_execution` -/
def reidentifyExecution [Ctype] {kind : Kind} (execution : StagedExecution kind) (ds id : Text) : Text :=
  let suffix := '-' :: (ds ++ ("-e".toList ++ id))
  unlines (execution.lines.filter fun line =>
      (exported suffixName line).isNone && (exported directoriesName line).isNone)
    ++ unlines [assignment suffixName (quote suffix),
      assignment directoriesName (quote (execution.testDirectories suffix))]

/-! ## Writes -/

inductive Write
  | removeGroup (gid : Text)
  | startManifest (revision : Text)
  | makeOutput (gid name : Text)
  | copyShell (gid name content : Text)
  | copyYaml (gid name content : Text)
  | groupRow (gid : Text) (kind : Kind) (ds : Text)
  | definition (id gid : Text) (kind : Kind) (ds identity : Text)
  | pending (id : Text)
  | executionRow (id gid : Text)
  | commit
  | refreshUnion (environment : Text)
  deriving DecidableEq, Repr

/-- The fields of a record; `awk` finds none in an empty one. -/
def recordFields (record : Text) : List Text := if record = [] then [] else record.splitOn '\t'

def row (fields : List Text) : Text := join '\t' fields

/-- `$1=="revision" {$2=rev} {print}` -/
def setRevision (revision manifest : Text) : Text :=
  unlines ((records manifest).map fun record =>
    match recordFields record with
    | tag :: rest =>
      if tag = revisionTag then row (tag :: revision :: rest.drop 1) else record
    | [] => record)

variable [Ctype] (digest : Text → Text)

def appendRow (files : Files) (fields : List Text) : Files :=
  store files .newManifest (contentOf files .newManifest ++ unlines [row fields])

def Write.apply (files : Files) : Write → Files
  | .removeGroup gid => fun path => if path.inGroup gid then none else files path
  | .startManifest revision =>
    store files .newManifest (setRevision revision (contentOf files .manifest))
  | .makeOutput gid name => fun path =>
    if path = .groups ∨ path = .group gid ∨ path = .output gid name then
      (files path).or (some .directory)
    else files path
  | .copyShell gid name content => store files (.snapshotShell gid name) content
  | .copyYaml gid name content => store files (.snapshotYaml gid name) content
  | .groupRow gid kind ds =>
    appendRow files [groupTag, gid, kind.text, groupRelative gid kind ds,
      digest (contentOf files (.snapshotShell gid (outputName kind ds))),
      digest (contentOf files (.snapshotYaml gid (outputName kind ds)))]
  | .definition id gid kind ds identity =>
    store files (.definition id)
      (contentOf files (.snapshotShell gid (outputName kind ds))
        ++ unlines [assignment groupName (quote gid),
          assignment relativeName (quote (groupRelative gid kind ds))]
        ++ identity)
  | .pending id => store files (.status id) (unlines [pendingWord])
  | .executionRow id gid =>
    appendRow files [executionTag, id, gid, digest (contentOf files (.definition id))]
  | .commit => fun path =>
    if path = .manifest then files .newManifest
    else if path = .newManifest then none
    else files path
  | .refreshUnion environment => store files .environment environment

/-! ## The plan of a publication -/

def planExecutions {kind : Kind} (ds gid : Text) : Nat → List (StagedExecution kind) → List Write
  | _, [] => []
  | used, execution :: rest =>
    let id := pad 4 (used + 1)
    .definition id gid kind ds (reidentifyExecution execution ds id) :: .pending id
      :: .executionRow id gid :: planExecutions ds gid (used + 1) rest

/-- `_elbencho_batch_stage_group_rows` -/
def planGroup {kind : Kind} (ds gid : Text) (used : Nat) (stage : StagedGroup kind) : List Write :=
  .makeOutput gid (outputName kind ds)
    :: .copyShell gid (outputName kind ds) (unlines stage.environment)
    :: .copyYaml gid (outputName kind ds) stage.description
    :: .groupRow gid kind ds :: planExecutions ds gid used stage.executions

def planGroups {kind : Kind} (ds : Text) : Nat → Nat → List (StagedGroup kind) → List Write
  | _, _, [] => []
  | numbered, used, stage :: rest =>
    planGroup ds (pad 4 (numbered + 1)) used stage
      ++ planGroups ds (numbered + 1) (used + stage.executions.length) rest

structure Submission where
  kind : Kind
  stages : List (StagedGroup kind)
  /-- What the refresh of the union writes. -/
  union : Text

def manifestRows (files : Files) : List (List Text) :=
  (records (contentOf files .manifest)).map recordFields

def countRows (tag : Text) (rows : List (List Text)) : Nat :=
  (rows.filter fun fields => fields.head? = some tag).length

/-- `$1=="revision" {print $2+added}` -/
def addedRevision (rows : List (List Text)) (added : Nat) : Text :=
  match rows.find? fun fields => fields.head? = some revisionTag with
  | some fields =>
    Nat.toDigits 10 (Nat.ofDigitChars 10 ((fields.getD 1 []).takeWhile Char.isDigit) 0 + added)
  | none => []

/-- `_elbencho_batch_publish_groups`, or none where it is refused before the first write. -/
def publishGroups (ds : Text) (files : Files) (submission : Submission) : Option (List Write) :=
  let rows := manifestRows files
  let offset := countRows executionTag rows
  let groups := countRows groupTag rows
  let total := (submission.stages.map (·.executions.length)).sum
  if submission.stages.any (·.executions.isEmpty) then none
  else if offset + total > 9999 then none
  else some <|
    (List.range' (groups + 1) submission.stages.length).map (.removeGroup <| pad 4 ·)
      ++ .startManifest (addedRevision rows submission.stages.length)
      :: planGroups ds groups offset submission.stages
      ++ [.commit, .refreshUnion submission.union]

def perform (files : Files) (writes : List Write) : Files := writes.foldl (Write.apply digest) files

/-- A publication that is stopped after so many writes. -/
def publish (ds : Text) (files : Files) (submission : Submission) (stop : Nat) : Files :=
  match publishGroups ds files submission with
  | none => files
  | some writes => perform digest files (writes.take stop)

/-- What the groups of a batch share, with the list files that exist. -/
structure CommonSettings where
  environment : Text
  fields : Text
  sshHostList : Option Text
  slurmNodeIncludes : Option Text
  slurmNodeIgnores : Option Text

def CommonSettings.content (common : CommonSettings) : CommonFile → Option Text
  | .environment => some common.environment
  | .fields => some common.fields
  | .sshHostList => common.sshHostList
  | .slurmNodeIncludes => common.slurmNodeIncludes
  | .slurmNodeIgnores => common.slurmNodeIgnores

/-- The batch as `_elbencho_batch_prepare` makes it, before the first group. -/
def prepared (ds : Text) (common : CommonSettings) : Files
  | .manifest => some (.regular (unlines [row [versionTag, ['1']],
      row [revisionTag, ['0']], row [datestampTag, ds]]))
  | .executions | .config => some .directory
  | .common file => (common.content file).map .regular
  | .profile => some (.regular (unlines (CommonFile.all.filterMap fun file =>
      (common.content file).map fun content => row [file.relative, digest content])))
  | _ => none

def history (ds : Text) (files : Files) (submissions : List (Submission × Nat)) : Files :=
  submissions.foldl (fun files submission => publish digest ds files submission.1 submission.2) files

end StorageScaleTest.Batch
