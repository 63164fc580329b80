import StorageScaleTest.Batch.Publish
import StorageScaleTest.Shell.Paths

/-!
# The two readers of a batch manifest

`elbencho_batch_verify_manifest` with the shell's lookups, and `read_batch_manifest` of the
reports.
-/

namespace StorageScaleTest.Batch

open Shell

def isHex64 (text : Text) : Bool := hex 64 text

/-- `^[1-9][0-9]*$` -/
def isPositive : Text → Bool
  | c :: rest => '1' ≤ c && c ≤ '9' && rest.all Char.isDigit
  | [] => false

/-- `^[0-9]+Z[0-9]+$` -/
def isLooseDatestamp (text : Text) : Bool :=
  match text.dropWhile Char.isDigit with
  | 'Z' :: time => (text.takeWhile Char.isDigit) ≠ [] && time ≠ [] && time.all Char.isDigit
  | _ => false

variable [Ctype] (digest : Text → Text)

def isLink (files : Files) (path : Path) : Bool := files path = some .symlink

/-! ## The shell -/

/-- The rows after the headers: the groups and executions counted so far, and the groups seen. -/
def awkRows : Nat → Nat → List Text → List (List Text) → Option (Nat × Nat)
  | groups, executions, _, [] => some (groups, executions)
  | groups, executions, seen, fields :: rest =>
    match fields with
    | [tag, id, third, _, _, _] =>
      if tag = groupTag ∧ id = pad 4 (groups + 1)
          ∧ (third = Kind.io.text ∨ third = Kind.mdtest.text) then
        awkRows (groups + 1) executions (id :: seen) rest
      else none
    | [tag, id, gid, _] =>
      if tag = executionTag ∧ id = pad 4 (executions + 1) ∧ gid ∈ seen then
        awkRows groups (executions + 1) seen rest
      else none
    | _ => none

def awkVerify (rows : List (List Text)) : Bool :=
  match rows with
  | [version, one] :: [revision, number] :: [datestamp, ds] :: rest =>
    version = versionTag && one = ['1'] && revision = revisionTag
      && isPositive number && datestamp = datestampTag && isLooseDatestamp ds
      && match awkRows 0 0 [] rest with
        | some (groups, executions) =>
          groups ≠ 0 && executions ≠ 0 && executions ≤ 9999
            && Nat.ofDigitChars 10 number 0 = groups
        | none => false
  | _ => false

/-- The variables that `IFS=$'\t' read -r` sets from a line. -/
def readFields (line : Text) : List Text := (line.splitOn '\t').filter (· ≠ [])

/-- `awk '$1=="datestamp" {print $2}'` -/
def datestampOf (rows : List (List Text)) : Text :=
  match rows.filter fun fields => fields.head? = some datestampTag with
  | [fields] => fields.getD 1 []
  | _ => []

def hasDigest (files : Files) (path : Path) (hash : Text) : Bool :=
  match files path with
  | some (.regular content) => isHex64 hash && digest content = hash
  | _ => false

/-- `<root>/groups/<id>/<basename>-<datestamp>` holds the snapshots. -/
def verifyGroup (ds : Text) (files : Files) (words : List Text) : Bool :=
  let id := words.getD 1 []
  let basename := if words.getD 2 [] = Kind.mdtest.text then Kind.mdtest.basename
    else Kind.io.basename
  let name := basename ++ '-' :: ds
  words.getD 3 [] = groupsPrefix ++ (id ++ '/' :: name)
    && !isLink files .groups && !isLink files (.group id) && !isLink files (.output id name)
    && hasDigest digest files (.snapshotShell id name) (words.getD 4 [])
    && hasDigest digest files (.snapshotYaml id name) (words.getD 5 [])

def verifyExecution (full : Bool) (files : Files) (words : List Text) : Bool :=
  let id := words.getD 1 []
  let hash := words.getD 3 []
  isHex64 hash && ((!full && (files (.definition id)).isNone)
    || (hasDigest digest files (.definition id) hash
      && (!full || match files (.status id) with
        | some (.regular content) => stripNewlines content ∈
            [pendingWord, "RUNNING".toList, "SUCCESS".toList, "FAILED".toList]
        | _ => false)))

def verifyLine (full : Bool) (ds : Text) (files : Files) (line : Text) : Bool :=
  let words := readFields line
  if words.getD 0 [] = groupTag then verifyGroup digest ds files words
  else if words.getD 0 [] = executionTag then verifyExecution digest full files words
  else true

def verifySeal (files : Files) : Bool :=
  match files .seal with
  | none => true
  | some (.regular content) =>
    stripNewlines content = digest (contentOf files .manifest)
  | _ => false

def CommonFile.ofText (text : Text) : Option CommonFile :=
  CommonFile.all.find? (·.relative = text)

def verifyProfileLine (files : Files) (line : Text) : Bool :=
  let words := readFields line
  match CommonFile.ofText (words.getD 0 []) with
  | none => false
  | some file => !isLink files .config && hasDigest digest files (.common file) (words.getD 1 [])

/-- `_elbencho_batch_verify_profile_files` -/
def verifyProfileFiles (files : Files) : Bool :=
  match files .profile with
  | some (.regular profile) =>
    (readLines profile).all (verifyProfileLine digest files)
      && ((readLines profile).filter fun line => (readFields line).getD 0 [] ∈
        [CommonFile.environment.relative, CommonFile.fields.relative]).length = 2
      && (match files .seal with
        | some (.regular _) => match files .environment, files .sealedEnvironment with
          | some (.regular environment), some (.regular sealed) =>
            stripNewlines sealed = digest environment
          | _, _ => false
        | _ => true)
  | _ => false

/-- `elbencho_batch_verify_manifest`, in mode `full` or `subset` -/
def verifyManifest (full : Bool) (files : Files) : Bool :=
  match files .manifest with
  | some (.regular manifest) =>
    let rows := (records manifest).map recordFields
    let ds := datestampOf rows
    files .executions = some .directory && awkVerify rows && isDatestamp ds
      && (readLines manifest).all (verifyLine digest full ds files)
      && verifySeal digest files
      && (!full || (files (.common .environment)).isNone && (files .profile).isNone
        || verifyProfileFiles digest files)
  | _ => false

/-- The groups a `while read` loop over the manifest finds: their ids, kinds and outputs. -/
def shellGroups (files : Files) : List (Text × Text × Text) :=
  ((readLines (contentOf files .manifest)).map readFields).filterMap fun words =>
    if words.getD 0 [] = groupTag then
      some (words.getD 1 [], words.getD 2 [], words.getD 3 [])
    else none

/-- How `awk` compares an id with a field: as numbers where both are. -/
def awkEqual (a b : Text) : Bool :=
  if isDigits a && isDigits b then Nat.ofDigitChars 10 a 0 = Nat.ofDigitChars 10 b 0 else a = b

/-- `elbencho_batch_execution_output_dir`, relative to the root -/
def executionOutput (files : Files) (id : Text) : Option Text :=
  let rows := manifestRows files
  let found := rows.filter fun fields =>
    fields.getD 0 [] = executionTag && awkEqual (fields.getD 1 []) id
  match found with
  | [fields] =>
    ((rows.filter fun group => group.getD 0 [] = groupTag
      && group.getD 1 [] = fields.getD 2 []).getLast?).map (·.getD 3 [])
  | _ => none

/-! ## Python -/

structure BatchGroup where
  groupId : Text
  kind : Text
  outputRelative : Text
  shellDigest : Text
  yamlDigest : Text
  deriving DecidableEq, Repr

structure BatchExecution where
  executionId : Text
  groupId : Text
  definitionDigest : Text
  deriving DecidableEq, Repr

structure BatchManifest where
  revision : Nat
  datestamp : Text
  groups : List BatchGroup
  executions : List BatchExecution
  digest : Text
  deriving DecidableEq, Repr

structure Parsed where
  headers : List (Text × Text)
  groups : List BatchGroup
  executions : List BatchExecution

/-- `_parse_records` -/
def parseRecords : List (List Text) → Option Parsed
  | [] => some ⟨[], [], []⟩
  | fields :: rest => do
    let parsed ← parseRecords rest
    match fields with
    | [tag, value] =>
      if tag ∈ [versionTag, revisionTag, datestampTag]
          ∧ tag ∉ parsed.headers.map (·.1) then
        some { parsed with headers := (tag, value) :: parsed.headers }
      else none
    | [tag, id, kind, relative, shell, yaml] =>
      if tag = groupTag then
        some { parsed with groups := ⟨id, kind, relative, shell, yaml⟩ :: parsed.groups }
      else none
    | [tag, id, gid, hash] =>
      if tag = executionTag then
        some { parsed with executions := ⟨id, gid, hash⟩ :: parsed.executions }
      else none
    | _ => none

/-- `_validate_headers` -/
def validateHeaders (headers : List (Text × Text)) (groupCount : Nat) : Option (Nat × Text) := do
  let version ← headers.lookup versionTag
  let revision ← headers.lookup revisionTag
  let ds ← headers.lookup datestampTag
  if version = ['1'] ∧ isPositive revision ∧ Nat.ofDigitChars 10 revision 0 = groupCount
      ∧ isDatestamp ds then
    some (groupCount, ds)
  else none

/-- `_contained_path` of a path whose components are known to be names -/
def contained (files : Files) (paths : List Path) : Bool := paths.all fun path => !isLink files path

/-- `_verify_digest`: the content. -/
def verifyDigest (files : Files) (path : Path) (expected : Text) : Option Text :=
  match files path with
  | some (.regular content) =>
    if isHex64 expected ∧ digest content = expected then some content else none
  | _ => none

def validateGroup (ds : Text) (files : Files) (sequence : Nat) (group : BatchGroup) : Bool :=
  let name := (if group.kind = Kind.io.text then Kind.io.basename else Kind.mdtest.basename)
    ++ '-' :: ds
  let id := group.groupId
  id = pad 4 sequence && (group.kind = Kind.io.text || group.kind = Kind.mdtest.text)
    && group.outputRelative = groupsPrefix ++ (id ++ '/' :: name)
    && contained files [.groups, .group id, .output id name, .snapshotShell id name,
      .snapshotYaml id name]
    && (verifyDigest digest files (.snapshotShell id name) group.shellDigest).isSome
    && (verifyDigest digest files (.snapshotYaml id name) group.yamlDigest).isSome
    && files (.output id name) = some .directory

/-- `_validate_groups` -/
def validateGroups (ds : Text) (files : Files) : Nat → List BatchGroup → Bool
  | _, [] => true
  | sequence, group :: rest =>
    validateGroup digest ds files sequence group && validateGroups ds files (sequence + 1) rest

/-- `_export_value` -/
def exportValue (content name : Text) : Option Text := do
  let raw ← ((content.splitOn '\n').filterMap (exported name)).getLast?
  match shlexSplit raw with
  | some [value] => some value
  | _ => none

def validateExecution (files : Files) (groups : List BatchGroup) (sequence : Nat) (previous : Text)
    (execution : BatchExecution) : Bool :=
  sequence ≤ 9999 && execution.executionId = pad 4 sequence
    && match groups.find? (·.groupId = execution.groupId) with
      | none => false
      | some group =>
        !decide (execution.groupId < previous)
          && contained files [.executions, .definition execution.executionId]
          && match verifyDigest digest files (.definition execution.executionId)
              execution.definitionDigest with
            | none => false
            | some content => exportValue content kindName = some group.kind
                && exportValue content groupName = some group.groupId
                && exportValue content relativeName = some group.outputRelative

/-- The loop of `_validate_executions` -/
def validateExecutions (files : Files) (groups : List BatchGroup) :
    Nat → Text → List BatchExecution → Bool
  | _, _, [] => true
  | sequence, previous, execution :: rest =>
    validateExecution digest files groups sequence previous execution
      && validateExecutions files groups (sequence + 1) execution.groupId rest

/-- What Python's `strip` removes. -/
def isBlank (c : Char) : Bool := isLineBreak c || c ∈ [' ', '\t', '\x1f', '\u00a0']

/-- `read_batch_manifest` -/
def readBatchManifest (files : Files) : Option BatchManifest :=
  match files .manifest with
  | some (.regular manifest) => do
    let parsed ← parseRecords ((splitlines manifest).map (·.splitOn '\t'))
    let (revision, ds) ← validateHeaders parsed.headers parsed.groups.length
    if validateGroups digest ds files 1 parsed.groups
        && validateExecutions digest files parsed.groups 1 [] parsed.executions
        && parsed.groups.all (fun group => parsed.executions.any (·.groupId = group.groupId))
        && (match files .seal with
          | none => true
          | some (.regular content) =>
            (content.dropWhile isBlank).rdropWhile isBlank = digest manifest
          | _ => false) then
      some ⟨revision, ds, parsed.groups, parsed.executions, digest manifest⟩
    else none
  | _ => none

end StorageScaleTest.Batch
