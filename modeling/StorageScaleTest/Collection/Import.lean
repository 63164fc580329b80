import Mathlib.Logic.Function.Basic
import StorageScaleTest.Collection.Paths
import StorageScaleTest.Coordinator.Recovery
import StorageScaleTest.Shell.Paths
import StorageScaleTest.Shell.Text

/-!
# Importing what an attempt published

The archive of a state directory as it comes from the volume, with any manifest in it: the checks
of its names and of the publication, and the files that `_kubectl_merge_collected_results` creates,
replaces and removes below the results root.
-/

namespace StorageScaleTest.Import

open Coordinator Shell

/-! ## The archive -/

inductive Member
  | regular (content : Text)
  | directory
  deriving DecidableEq, Repr

structure Archive where
  members : List (Text × Member)

/-- `_kubectl_validate_archive_names_stream` -/
def archiveNamesAccepted (attemptId : Text) (maxMembers : Nat) (archive : Archive) : Bool :=
  hex 8 attemptId
    && archive.members.all (fun member => safeArchiveMember member.1
      && (member.1 = attemptId || (attemptId ++ ['/']).isPrefixOf member.1))
    && !archive.members.isEmpty && archive.members.length ≤ maxMembers

def stateStart (attemptId : Text) : Text := attemptId ++ "/state/".toList

def Archive.file? (archive : Archive) (attemptId path : Text) : Option Text :=
  match archive.members.reverse.lookup (stateStart attemptId ++ path) with
  | some (.regular content) => some content
  | _ => none

/-- The ids in `executions/[0-9][0-9][0-9][0-9].status`. -/
def Archive.statusIds (archive : Archive) (attemptId : Text) : List Text :=
  let ids := archive.members.filterMap fun member =>
    let start := stateStart attemptId ++ executionsStart
    let id := (member.1.drop start.length).take 4
    if isCellId id && member.1 = start ++ (id ++ statusSuffix)
      && (archive.file? attemptId (cellFile id statusSuffix)).isSome then some id else none
  ids.dedup.insertionSort (· ≤ ·)

/-! ## The bundle -/

structure BatchBundle where
  /-- `elbencho_batch_verify_manifest` accepts the control directory. -/
  verified : Bool
  /-- The output directories of the groups. -/
  groups : List Text
  /-- `elbencho_batch_execution_output_dir`, below the control directory -/
  output : Text → Option Text
  control : Text → Option Text

structure Bundle where
  attemptId : Text
  executions : List Text
  numbered : ∀ id ∈ executions, isCellId id = true
  /-- `_kubectl_execution_requires_workload_metadata`, or none where it fails. -/
  requires : Text → Option Bool
  batch : Option BatchBundle
  digest : Text → Text

variable (b : Bundle) (archive : Archive)

def Bundle.file? (path : Text) : Option Text := archive.file? b.attemptId path

/-- What `$(cat …)` leaves of the file. -/
def Bundle.cat (path : Text) : Text := stripNewlines ((b.file? archive path).getD [])

/-- The prefix of the results of an execution, or none where it has no output directory. -/
def Bundle.resultPrefix (id : Text) : Option Text :=
  match b.batch with
  | none => some []
  | some batch => (batch.output id).map (· ++ ['/'])

/-! ## The manifest -/

/-- The variables that `IFS=$'\t' read -r` sets from a line. -/
def fieldsOf (line : Text) : List Text := (line.splitOn '\t').filter (· ≠ [])

def manifestName : Text := "publication-manifest.tsv".toList
def schemaTag : Text := "schema".toList
def attemptTag : Text := "attempt_id".toList
def executionTag : Text := "execution".toList
def ledgerTag : Text := "ledger".toList
def snapshotTag : Text := "snapshot".toList
def resultTag : Text := "result".toList
def pendingWord : Text := "PENDING".toList
def runningWord : Text := "RUNNING".toList
def successWord : Text := "SUCCESS".toList
def failedWord : Text := "FAILED".toList
def cancelledWord : Text := "CANCELLED".toList

def isPathText (path : Text) : Bool := path ≠ [] && path.all isPathChar

def parseStatus (word : Text) : Option CellStatus :=
  if word = pendingWord then some .pending
  else if word = runningWord then some .running
  else if word = successWord then some .success
  else if word = failedWord then some .failed
  else none

def parseRole (word : Text) : Option Role :=
  if word = ledgerTag then some .ledger
  else if word = snapshotTag then some .snapshot
  else if word = resultTag then some .result
  else none

structure Declared where
  role : Role
  remote : Text
  localPath : Text
  digest : Text
  deriving DecidableEq, Repr

structure Reading where
  schema : Bool
  attempt : Bool
  executions : List (Text × CellStatus)
  declared : List Declared

def readFile (reading : Reading) (role : Role) (remote localPath bytes digest : Text) :
    Option Reading :=
  match b.file? archive remote with
  | none => none
  | some content =>
    if isPathText remote && isPathText localPath && hex 64 digest
        && (b.batch.isNone || role ≠ .ledger || remote = localPath && batchLedgerPath remote)
        && safeRelativeFilePath remote && safeRelativeFilePath localPath
        && !(reading.declared.map (·.remote)).contains remote
        && !(reading.declared.map (·.localPath)).contains localPath
        && bytes = Nat.toDigits 10 content.length && digest = b.digest content then
      some { reading with declared := reading.declared ++ [⟨role, remote, localPath, digest⟩] }
    else none

def readRow (reading : Reading) : List Text → Option Reading
  | [tag, value] =>
    if tag = schemaTag then
      if !reading.schema && value = ['1'] then some { reading with schema := true } else none
    else if tag = attemptTag then
      if !reading.attempt && value = b.attemptId then some { reading with attempt := true }
      else none
    else none
  | [tag, id, word] =>
    match parseStatus word with
    | some status =>
      if tag = executionTag && isCellId id && !(reading.executions.map Prod.fst).contains id then
        some { reading with executions := reading.executions ++ [(id, status)] }
      else none
    | none => none
  | [kind, remote, localPath, bytes, digest] =>
    match parseRole kind with
    | some role => readFile b archive reading role remote localPath bytes digest
    | none => none
  | _ => none

def readManifest : Option Reading := do
  let manifest ← b.file? archive manifestName
  let reading ← ((records manifest).map fieldsOf).foldlM (readRow b archive)
    ⟨false, false, [], []⟩
  if reading.schema && reading.attempt then some reading else none

/-! ## The publication -/

def Reading.has (reading : Reading) (role : Role) (path : Text) : Bool :=
  match reading.declared.find? (·.remote = path) with
  | none => false
  | some declared => declared.role = role && declared.localPath = path

def runStatusPath : Text := "run.status".toList
def summaryPath : Text := "run-summary.tsv".toList
def startupErrorPath : Text := "startup-error.txt".toList
def coordinatorLossPath : Text := "coordinator-loss.tsv".toList

def snapshotPaths : List Text :=
  ["env_used.sh".toList, "env_used.yaml".toList] ++
    match b.batch with
    | none => []
    | some batch => ["batch-manifest.tsv".toList, "batch-sealed.sha256".toList] ++
      batch.groups.flatMap fun group =>
        [group ++ "/env_used.sh".toList, group ++ "/env_used.yaml".toList]

def coreDeclared (reading : Reading) : Bool :=
  reading.has .ledger runStatusPath && reading.has .ledger summaryPath
    && (snapshotPaths b).all fun core => reading.has .snapshot core && match b.batch with
      | none => true
      | some batch => (batch.control core).isSome && b.file? archive core = batch.control core

def ownLedgers (reading : Reading) : Bool :=
  b.batch.isNone || reading.declared.all fun declared =>
    declared.role ≠ .ledger || match executionPath? declared.remote with
      | none => true
      | some (id, _) => b.executions.contains id

def resultAllowed (declared : Declared) : Bool :=
  match resultPath? declared.remote with
  | none => false
  | some (id, relative) => b.executions.contains id
      && (b.batch.isNone || match executionPath? relative with
        | none => true
        | some (owner, _) => owner = id)
      && match b.resultPrefix id with
        | none => false
        | some start => declared.localPath = start ++ relative

def workloadDeclared (reading : Reading) (id : Text) : Bool :=
  match b.resultPrefix id with
  | none => false
  | some start =>
    let name := cellFile id ".workload.tsv".toList
    match reading.declared.find? (·.localPath = start ++ name) with
    | none => false
    | some declared => declared.role = .result && declared.remote = resultsStart ++ (id ++ '/' :: name)

def cellAllowed (reading : Reading) (id : Text) : Bool :=
  let published := fun word => reading.has .ledger (cellFile id statusSuffix)
    && b.cat archive (cellFile id statusSuffix) = word
  let code := b.cat archive (cellFile id exitcodeSuffix)
  let coded := reading.has .ledger (cellFile id exitcodeSuffix)
  match reading.executions.lookup id with
  | some .pending => published pendingWord
  | some .success => published successWord && coded && code = ['0']
      && reading.has .ledger (cellFile id workersSuffix)
      && match b.requires id with
        | some true => workloadDeclared b reading id
        | some false => true
        | none => false
  | some .failed => published failedWord && coded
      && (code.head?.any fun c => c.isDigit && c ≠ '0') && code.all Char.isDigit
  | some .running | none => false

def parseOutcome (word : Text) : Option RunStatus :=
  if word = successWord then some .success
  else if word = failedWord then some .failed
  else if word = cancelledWord then some .cancelled
  else none

def outcomeAllowed (reading : Reading) : RunStatus → Bool
  | .success => reading.executions.all (·.2 = .success)
  | .failed => reading.executions.any (·.2 = .failed) || reading.has .ledger startupErrorPath
  | _ => true

/-- `_kubectl_validate_collected_publication` -/
def validateCollectedPublication : Option RunStatus := do
  let reading ← readManifest b archive
  let outcome ← parseOutcome (b.cat archive runStatusPath)
  if b.batch.all (·.verified) && coreDeclared b archive reading
      && !b.executions.isEmpty && reading.executions.length = b.executions.length
      && reading.executions.all (fun entry => b.executions.contains entry.1)
      && ownLedgers b reading && (reading.declared.filter (·.role = .result)).all (resultAllowed b)
      && b.executions.all (cellAllowed b archive reading) && outcomeAllowed reading outcome then
    some outcome
  else none

/-! ## The results root -/

inductive Node
  | file (content : Text)
  | directory
  /-- Symbolic links and special files. -/
  | other
  deriving DecidableEq, Repr

abbrev Place := List (List Char)

abbrev Tree := Place → Option Node

/-- A temporary file and its rename are one write. -/
inductive Effect
  | mkdir (place : Place)
  | write (place : Place) (content : Text)
  | remove (place : Place)
  deriving DecidableEq, Repr

def Effect.place : Effect → Place
  | .mkdir place | .write place _ | .remove place => place

def Effect.apply (tree : Tree) : Effect → Tree
  | .mkdir place => Function.update tree place (some .directory)
  | .write place content => Function.update tree place (some (.file content))
  | .remove place => Function.update tree place none

def placeOf (path : Text) : Place := Coordinator.components path

inductive Walk
  | arrived | missing | refused
  deriving DecidableEq, Repr

/-- The parents of `_kubectl_result_destination`. -/
def walk (create : Bool) (tree : Tree) (done : Place) : Place → List Effect × Walk
  | [] => ([], .arrived)
  | part :: rest =>
    let current := done ++ [part]
    match tree current with
    | some .directory => walk create tree current rest
    | some _ => ([], .refused)
    | none =>
      if create then
        let (effects, result) := walk create tree current rest
        (.mkdir current :: effects, result)
      else ([], .missing)

/-! ## The steps of an import -/

inductive Item
  /-- A path that earlier publications own with these digests, and its digest in this one. -/
  | superseded (path : Text) (digests : List Text) (current : Option Text)
  | row (path digest : Text) (content : Text)
  | status (id : Text) (content : Text)
  | refused
  deriving DecidableEq, Repr

def isSuccess (content : Text) : Bool := stripNewlines content = successWord

/-- `_kubectl_remove_replaced_paths` -/
def removeReplaced (digest : Text → Text) (tree : Tree) (path : Text) (digests : List Text)
    (current : Option Text) : List Effect × Bool :=
  match (walk false tree [] (placeOf path).dropLast).2, tree (placeOf path) with
  | .refused, _ => ([], false)
  | .missing, _ | .arrived, none => ([], true)
  | .arrived, some (.file content) =>
    if digests.contains (digest content) then ([.remove (placeOf path)], true)
    else ([], current = some (digest content))
  | .arrived, some _ => ([], false)

/-- A file of the publication: what is there already has to have its bytes. -/
def copyRow (digest : Text → Text) (tree : Tree) (path digest' : Text) (content : Text) :
    List Effect × Bool :=
  match walk true tree [] (placeOf path).dropLast, tree (placeOf path) with
  | (effects, .arrived), none => (effects ++ [.write (placeOf path) content], true)
  | (effects, .arrived), some (.file content') => (effects, digest content' = digest')
  | (effects, _), _ => (effects, false)

/-- The status of an execution: only a collected success stays. -/
def copyStatus (tree : Tree) (id : Text) (content : Text) : List Effect × Bool :=
  let place := placeOf (cellFile id statusSuffix)
  match walk true tree [] place.dropLast, tree place with
  | (effects, .arrived), none => (effects ++ [.write place content], true)
  | (effects, .arrived), some (.file content') =>
    if isSuccess content' then (effects, isSuccess content)
    else (effects ++ [.write place content], true)
  | (effects, _), _ => (effects, false)

def Item.perform (digest : Text → Text) (tree : Tree) : Item → List Effect × Bool
  | .superseded path digests current => removeReplaced digest tree path digests current
  | .row path digest' content => copyRow digest tree path digest' content
  | .status id content => copyStatus tree id content
  | .refused => ([], false)

def performAll (digest : Text → Text) : Tree → List Item → List Effect
  | _, [] => []
  | tree, item :: rest =>
    let (effects, go) := item.perform digest tree
    effects ++ if go then performAll digest (effects.foldl Effect.apply tree) rest else []

/-! ## Superseded paths -/

/-- `_kubectl_segment_local_path` -/
def segmentLocalPath (suffix path : Text) : Text :=
  match ledgerNames.find? fun name => path = name.1 ++ '.' :: name.2 with
  | some (stem, extension) => stem ++ (suffix ++ '.' :: extension)
  | none => path

structure Prior where
  attemptId : Text
  suffix : Text
  manifest : Text

structure Site where
  tree : Tree
  suffix : Text
  /-- The batch there, if any, is that of the publication. -/
  sameBatch : Bool
  priors : List Prior
  /-- The rows of the aggregates, by attempt. -/
  aggregates : List (Text × List (Text × Text))
  /-- The order of an associative array. -/
  order : List Text → List Text
  order_perm : ∀ paths, (order paths).Perm paths

/-- The rows of a `while read` loop over a manifest. -/
def loopRows (manifest : Text) : List (List Text) := (readLines manifest).map fieldsOf

/-- The file rows that the superseding loops read, or none where one is refused. -/
def publishedRows (manifest : Text) : Option (List Declared) :=
  ((loopRows manifest).filter fun fields =>
      fields.head? = some resultTag || fields.head? = some ledgerTag).mapM fun fields =>
    let localPath := fields.getD 2 []
    let digest := fields.getD 4 []
    if fields.length ≤ 5 && hex 64 digest && safeRelativeFilePath localPath then
      some ⟨if fields.head? = some resultTag then .result else .ledger, fields.getD 1 [], localPath,
        digest⟩
    else none

def Declared.destination (suffix : Text) (declared : Declared) : Text :=
  if declared.role = .ledger then segmentLocalPath suffix declared.localPath
  else declared.localPath

def resumedIds (manifest : Text) : List Text :=
  (loopRows manifest).filterMap fun fields =>
    if fields.head? = some executionTag && isCellId (fields.getD 1 []) then
      some (fields.getD 1 [])
    else none

def evidenceOf (remote : Text) : Option Text :=
  match resultPath? remote, executionPath? remote with
  | some (id, _), _ => some id
  | none, some (id, rest) =>
    if [exitcodeSuffix, workersSuffix].contains ('.' :: rest) then some id else none
  | none, none => none

def givenUp (resumed : List Text) (current : List Text) (suffix : Text)
    (declared : Declared) : Option Text :=
  let destination := segmentLocalPath suffix declared.localPath
  match evidenceOf declared.remote with
  | some id => if resumed.contains id then some declared.localPath else none
  | none =>
    if declared.role ≠ .ledger then none
    else if [runStatusPath, summaryPath].contains declared.localPath then some destination
    else if [startupErrorPath, coordinatorLossPath].contains declared.localPath
        && current.contains destination then some destination
    else none

def aggregateRows (aggregate : List (Text × Text)) : Option (List (Text × Text)) :=
  if aggregate.all fun row => [runStatusPath, summaryPath].contains row.1 && hex 64 row.2
  then some aggregate else none

/-- The digests of the publication at its destinations, with those of its own aggregate. -/
def currentDigests (b : Bundle) (site : Site) (manifest : Text) :
    Option (List (Text × Text)) := do
  let rows ← publishedRows manifest
  let own ← ((site.aggregates.filter (·.1 = b.attemptId)).map Prod.snd).mapM aggregateRows
  some ((rows.map fun row => (row.destination site.suffix, row.digest)) ++ own.flatten)

def replacedPaths (b : Bundle) (site : Site) (manifest : Text) (current : List (Text × Text)) :
    Option (List (Text × Text)) := do
  let priors ← (site.priors.filter fun prior =>
      prior.attemptId ≠ b.attemptId || prior.suffix = site.suffix).mapM fun prior => do
    let rows ← publishedRows prior.manifest
    if rows.all fun row => safeRelativeFilePath row.remote then
      some (rows.filterMap fun row =>
        (givenUp (resumedIds manifest) (current.map Prod.fst) prior.suffix row).map (·, row.digest))
    else none
  let aggregates ← ((site.aggregates.filter (·.1 ≠ b.attemptId)).map Prod.snd).mapM aggregateRows
  some (priors.flatten ++ aggregates.flatten)

/-- `_kubectl_remove_superseded_collection_paths` -/
def removals (b : Bundle) (site : Site) (manifest : Text) : Option (List Item) := do
  let current ← currentDigests b site manifest
  let replaced ← replacedPaths b site manifest current
  some ((site.order (replaced.map Prod.fst).dedup).map fun path =>
    .superseded path ((replaced.filter (·.1 = path)).map Prod.snd) (current.reverse.lookup path))

/-! ## The import -/

/-- The copying loop leaves out the status files. -/
def copies (fields : List Text) : Bool :=
  fields.head? = some resultTag || fields.head? = some ledgerTag &&
    match executionPath? (fields.getD 2 []) with
    | some (_, rest) => '.' :: rest ≠ statusSuffix
    | none => true

def copyDestination (suffix : Text) (fields : List Text) : Text :=
  if fields.head? = some ledgerTag then segmentLocalPath suffix (fields.getD 2 [])
  else fields.getD 2 []

def copyItem (b : Bundle) (archive : Archive) (suffix : Text) (fields : List Text) : Item :=
  if fields.length ≤ 5 && safeRelativeFilePath (fields.getD 1 [])
      && safeRelativeFilePath (fields.getD 2 []) then
    match b.file? archive (fields.getD 1 []) with
    | none => .refused
    | some content => .row (copyDestination suffix fields) (fields.getD 4 []) content
  else .refused

def copyItems (b : Bundle) (archive : Archive) (suffix : Text) (manifest : Text) : List Item :=
  ((loopRows manifest).filter copies).map (copyItem b archive suffix)

def statusItems (b : Bundle) (archive : Archive) : List Item :=
  (archive.statusIds b.attemptId).filterMap fun id =>
    (b.file? archive (cellFile id statusSuffix)).map (.status id)

/-- What `_kubectl_merge_collected_results` does to the results root, until it ends or fails. -/
def mergeCollectedResults (b : Bundle) (archive : Archive) (site : Site) : List Effect :=
  let manifest := (b.file? archive manifestName).getD []
  if hex 8 b.attemptId && site.sameBatch then
    match removals b site manifest with
    | none => []
    | some items => performAll b.digest site.tree
        (items ++ copyItems b archive site.suffix manifest ++ statusItems b archive)
  else []

end StorageScaleTest.Import
