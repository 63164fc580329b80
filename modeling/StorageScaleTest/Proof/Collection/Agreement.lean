import StorageScaleTest.Decimal.Numeral
import StorageScaleTest.Proof.Collection.Import

/-!
# The two collectors

The collector of a ledger decides like the collector of text, where the archive carries the files of
the ledger.
-/

namespace StorageScaleTest.Import

open Coordinator Shell Decimal

/-! ## The files as text -/

def roleTag : Role → Text
  | .ledger => ledgerTag
  | .snapshot => snapshotTag
  | .result => resultTag

def statusWord : CellStatus → Text
  | .pending => pendingWord
  | .running => runningWord
  | .success => successWord
  | .failed => failedWord

def outcomeWord : RunStatus → Text
  | .prepared => "PREPARED".toList
  | .running => runningWord
  | .success => successWord
  | .failed => failedWord
  | .cancelled => cancelledWord

def rowFields : Row → List Text
  | .schema version => [schemaTag, numeral version]
  | .attemptId id => [attemptTag, id.toList]
  | .execution id status => [executionTag, id.toList, statusWord status]
  | .file role remote localPath size digest =>
    [roleTag role, remote.render.toList, localPath.toList, numeral size, digest.toList]

/-- The files of which the collector reads a word. -/
structure Written (encode : FileContent → Text) : Prop where
  cellStatus : ∀ status, encode (.cellStatus status) = statusWord status ++ ['\n']
  exitcode : ∀ rc, encode (.exitcode rc) = numeral rc ++ ['\n']
  runStatus : ∀ status, encode (.runStatus status) = outcomeWord status ++ ['\n']

/-- The paths that the collector looks at. -/
inductive Consulted (a : Attempt) (l : Ledger) : StatePath → Prop
  | row {role remote localPath size digest}
      (mem : Row.file role remote localPath size digest ∈ l.manifest) : Consulted a l remote
  | runStatus : Consulted a l .runStatus
  | status {id} (mem : id ∈ a.executions) : Consulted a l (.status id)
  | exitcode {id} (mem : id ∈ a.executions) : Consulted a l (.exitcode id)
  | snapshot {name} (mem : name ∈ a.snapshots) : Consulted a l (.snapshot name)

/-- A bundle on disk with the groups and snapshots of a batch. -/
structure CarriesBatch (a : Attempt) (encode : FileContent → Text) (batch : Batch)
    (bundle : BatchBundle) : Prop where
  verified : bundle.verified = true
  groups : bundle.groups = batch.groups.map fun group => (batch.outputDir group).toList
  output : ∀ id ∈ a.executions,
    bundle.output id.toList = some (batch.executionOutputDir id).toList
  control : ∀ name ∈ a.snapshots, bundle.control name.toList = some (encode (.snapshot name))

/-- The archive has the files of the ledger, and the bundle is the one of the attempt. -/
structure Carries (a : Attempt) (l : Ledger) (b : Bundle) (archive : Archive)
    (encode : FileContent → Text) : Prop where
  written : Written encode
  attemptId : b.attemptId = a.attemptId.toList
  executions : b.executions = a.executions.map String.toList
  requires : ∀ id ∈ a.executions,
    b.requires id.toList = some (Collection.requiresWorkloadMetadata (a.workload id))
  batch : Option.Rel (CarriesBatch a encode) a.batch b.batch
  size : ∀ content, a.checksums.size content = (encode content).length
  digest : ∀ content, (a.checksums.digest content).toList = b.digest (encode content)
  manifest : ∃ text, b.file? archive manifestName = some text ∧
    (records text).map fieldsOf = l.manifest.map rowFields
  file : ∀ path, Consulted a l path →
    b.file? archive path.render.toList = (l.file? path).map encode

variable {a : Attempt} {l : Ledger} {b : Bundle} {archive : Archive} {encode : FileContent → Text}

theorem parseRole_roleTag (role : Role) : parseRole (roleTag role) = some role := by
  cases role <;> decide

theorem parseStatus_statusWord (status : CellStatus) :
    parseStatus (statusWord status) = some status := by
  cases status <;> decide

theorem parseOutcome_outcomeWord (outcome : RunStatus) :
    parseOutcome (outcomeWord outcome) = if outcome.terminal then some outcome else none := by
  cases outcome <;> decide

theorem stripNewlines_append {word : Text} (plain : '\n' ∉ word) :
    stripNewlines (word ++ ['\n']) = word := by
  rw [stripNewlines, List.rdropWhile_concat_pos _ _ _ (by decide), List.rdropWhile_eq_self_iff]
  intro some_
  simpa using ne_of_mem_of_not_mem (List.getLast_mem some_) plain

theorem executionPath?_toList (path : String) :
    executionPath? path.toList =
      (Collection.executionPath? path).map fun found => (found.1.toList, found.2) := by
  rw [Collection.executionPath?, Option.map_map]
  cases executionPath? path.toList <;> simp

theorem resultPath?_toList (path : String) :
    resultPath? path.toList =
      (Collection.resultPath? path).map fun found => (found.1.toList, found.2.toList) := by
  rw [Collection.resultPath?, Option.map_map]
  cases resultPath? path.toList <;> simp

theorem contains_toList (names : List String) (name : String) :
    (names.map String.toList).contains name.toList = names.contains name := by
  rw [Bool.eq_iff_iff, List.contains_iff_mem, List.contains_iff_mem]
  exact List.mem_map_of_injective fun _ _ => String.toList_injective

/-! ## Reading the manifest -/

structure Reads (typed : Collection.Reading) (text : Reading) : Prop where
  schema : text.schema = typed.schema
  attempt : text.attempt = typed.attempt
  executions : text.executions = typed.executions.map fun entry => (entry.1.toList, entry.2)
  declared : text.declared.map (fun file => (file.role, file.remote, file.localPath)) =
    typed.sources.map fun source =>
      (source.role, source.remote.render.toList, source.localPath.toList)

variable {typed : Collection.Reading} {text : Reading}

theorem Reads.remotes (reads : Reads typed text) :
    text.declared.map (·.remote) = (typed.sources.map (·.remote.render)).map String.toList := by
  have same := congrArg (List.map fun file : Role × Text × Text => file.2.1) reads.declared
  rw [List.map_map, List.map_map] at same
  rw [List.map_map]
  exact same

theorem Reads.localPaths (reads : Reads typed text) :
    text.declared.map (·.localPath) = (typed.sources.map (·.localPath)).map String.toList := by
  have same := congrArg (List.map fun file : Role × Text × Text => file.2.2) reads.declared
  rw [List.map_map, List.map_map] at same
  rw [List.map_map]
  exact same

theorem Reads.ids (reads : Reads typed text) :
    text.executions.map Prod.fst = (typed.executions.map Prod.fst).map String.toList := by
  rw [reads.executions, List.map_map, List.map_map]
  rfl

theorem rel_ite {α β : Type} {r : α → β → Prop} {x : α} {y : β} {p q : Bool} (same : q = p)
    (related : r x y) :
    Option.Rel r (if p then some x else none) (if q then some y else none) := by
  subst same
  cases q with
  | false => exact .none
  | true => exact .some related

theorem isPathText_of_safe {path : Text} (safe : safeRelativeFilePath path = true) :
    isPathText path = true := by
  simp only [safeRelativeFilePath, safeArchiveMember, Bool.and_eq_true] at safe
  rw [isPathText, Bool.and_eq_true]
  exact ⟨safe.2.1.1.1, safe.2.1.2⟩

theorem isNone_of_rel {α β : Type} {r : α → β → Prop} {x : Option α} {y : Option β}
    (related : Option.Rel r x y) : y.isNone = x.isNone := by
  cases related <;> rfl

theorem decide_toList (name other : String) :
    decide (name.toList = other.toList) = decide (name = other) := by
  simp only [String.toList_inj]

theorem readFile_agrees (carries : Carries a l b archive encode) (reads : Reads typed text)
    (role : Role) {remote : StatePath} (consulted : Consulted a l remote) (localPath : String)
    (size : Nat) (digest : String) :
    Option.Rel Reads (Collection.readRow a l typed (.file role remote localPath size digest))
      (readFile b archive text role remote.render.toList localPath.toList (numeral size)
        digest.toList) := by
  rw [readFile, carries.file remote consulted]
  unfold Collection.readRow Collection.matchesFile
  cases found : l.file? remote with
  | none =>
      simp only [found, Bool.and_false, Bool.false_eq_true, if_false]
      exact .none
  | some content =>
      dsimp only [Option.map_some]
      have sized : decide (numeral size = numeral (encode content).length) =
          decide (a.checksums.size content = size) := by
        rw [carries.size]
        exact decide_eq_decide.mpr ⟨fun same => (numeral_injective same).symm, fun same => same ▸ rfl⟩
      have digested : decide (digest.toList = b.digest (encode content)) =
          decide (a.checksums.digest content = digest) := by
        rw [← carries.digest, decide_toList]
        exact decide_eq_decide.mpr eq_comm
      apply rel_ite
      · rw [isNone_of_rel carries.batch, reads.remotes, reads.localPaths, contains_toList, contains_toList,
          decide_toList, digested, Bool.eq_iff_iff]
        simp only [found, Bool.and_eq_true]
        constructor
        · rintro ⟨⟨⟨⟨⟨⟨⟨⟨-, hash⟩, owned⟩, safe⟩, safe'⟩, new⟩, new'⟩, bytes⟩, same⟩
          exact ⟨⟨⟨⟨⟨⟨hash, owned⟩, safe⟩, safe'⟩, new⟩, new'⟩, sized.symm.trans bytes, same⟩
        · rintro ⟨⟨⟨⟨⟨⟨hash, owned⟩, safe⟩, safe'⟩, new⟩, new'⟩, bytes, same⟩
          exact ⟨⟨⟨⟨⟨⟨⟨⟨⟨isPathText_of_safe safe, isPathText_of_safe safe'⟩, hash⟩, owned⟩, safe⟩,
            safe'⟩, new⟩, new'⟩, sized.trans bytes⟩, same⟩
      · refine ⟨reads.schema, reads.attempt, reads.executions, ?_⟩
        rw [List.map_append, List.map_append, reads.declared]
        rfl

theorem readRow_agrees (carries : Carries a l b archive encode) (reads : Reads typed text)
    {row : Row} (mem : row ∈ l.manifest) :
    Option.Rel Reads (Collection.readRow a l typed row)
      (readRow b archive text (rowFields row)) := by
  cases row with
  | schema version =>
      have one : decide (numeral version = ['1']) = decide (version = 1) :=
        decide_eq_decide.mpr ⟨fun same => numeral_injective same, fun same => same ▸ rfl⟩
      simp only [rowFields, readRow, if_true, one, reads.schema]
      exact rel_ite rfl ⟨rfl, reads.attempt, reads.executions, reads.declared⟩
  | attemptId id =>
      have other : attemptTag ≠ schemaTag := by decide
      simp only [rowFields, readRow, if_neg other, if_true, carries.attemptId, decide_toList,
        reads.attempt]
      exact rel_ite rfl ⟨reads.schema, rfl, reads.executions, reads.declared⟩
  | execution id status =>
      simp only [rowFields, readRow, parseStatus_statusWord, reads.ids, contains_toList, decide_true,
        Bool.true_and]
      refine rel_ite rfl ⟨reads.schema, reads.attempt, ?_, reads.declared⟩
      rw [List.map_append, reads.executions]
      rfl
  | file role remote localPath size digest =>
      simp only [rowFields, readRow, parseRole_roleTag]
      exact readFile_agrees carries reads role (.row mem) localPath size digest

theorem readRows_agree (carries : Carries a l b archive encode) {rows : List Row}
    (inside : rows ⊆ l.manifest) (reads : Reads typed text) :
    Option.Rel Reads (rows.foldlM (Collection.readRow a l) typed)
      ((rows.map rowFields).foldlM (readRow b archive) text) := by
  induction rows generalizing typed text with
  | nil => exact .some reads
  | cons row rows ih =>
      rw [List.map_cons, List.foldlM_cons, List.foldlM_cons]
      have next := readRow_agrees carries reads (inside List.mem_cons_self)
      generalize Collection.readRow a l typed row = first at next
      generalize readRow b archive text (rowFields row) = second at next
      cases next with
      | none => exact .none
      | some related => exact ih (List.subset_of_cons_subset inside) related

theorem readManifest_agrees (carries : Carries a l b archive encode) :
    Option.Rel Reads (Collection.readManifest a l l.manifest) (readManifest b archive) := by
  obtain ⟨manifest, present, rows⟩ := carries.manifest
  have start : Reads .start ⟨false, false, [], []⟩ := ⟨rfl, rfl, rfl, rfl⟩
  have read := readRows_agree carries (List.Subset.refl l.manifest) start
  rw [← rows] at read
  simp only [readManifest, Collection.readManifest, present, Option.bind_eq_bind, Option.bind_some]
  generalize l.manifest.foldlM (Collection.readRow a l) .start = first at read ⊢
  generalize ((records manifest).map fieldsOf).foldlM (readRow b archive) ⟨false, false, [], []⟩ =
    second at read ⊢
  cases read with
  | none => exact .none
  | some related => exact rel_ite (by rw [related.schema, related.attempt]) related

/-! ## The checks -/

def fileOf (file : Declared) : Role × Text × Text := (file.role, file.remote, file.localPath)

def sourceOf (source : Collection.Source) : Role × Text × Text :=
  (source.role, source.remote.render.toList, source.localPath.toList)

theorem Reads.find? (reads : Reads typed text) (p : Role × Text × Text → Bool) :
    (text.declared.find? (p ∘ fileOf)).map fileOf =
      (typed.sources.find? (p ∘ sourceOf)).map sourceOf := by
  rw [← List.find?_map, ← List.find?_map]
  exact congrArg (List.find? p) reads.declared

theorem Reads.find_remote (reads : Reads typed text) (path : String) :
    (text.declared.find? (·.remote = path.toList)).map fileOf =
      (typed.sources.find? (·.remote.render = path)).map sourceOf := by
  have same : (fun source : Collection.Source => decide (source.remote.render = path)) =
      (fun file : Role × Text × Text => decide (file.2.1 = path.toList)) ∘ sourceOf :=
    funext fun source => (decide_toList source.remote.render path).symm
  rw [same]
  exact reads.find? fun file => file.2.1 = path.toList

theorem Reads.find_local (reads : Reads typed text) (path : String) :
    (text.declared.find? (·.localPath = path.toList)).map fileOf =
      (typed.sources.find? (·.localPath = path)).map sourceOf := by
  have same : (fun source : Collection.Source => decide (source.localPath = path)) =
      (fun file : Role × Text × Text => decide (file.2.2 = path.toList)) ∘ sourceOf :=
    funext fun source => (decide_toList source.localPath path).symm
  rw [same]
  exact reads.find? fun file => file.2.2 = path.toList

theorem Reads.has (reads : Reads typed text) (role : Role) (path : String) :
    text.has role path.toList = Collection.declared typed.sources role path := by
  have found := reads.find_remote path
  rw [Reading.has, Collection.declared]
  generalize text.declared.find? _ = first at found ⊢
  generalize typed.sources.find? _ = second at found ⊢
  match first, second with
  | none, none => rfl
  | none, some _ => cases found
  | some _, none => cases found
  | some file, some source =>
      obtain ⟨role', rest⟩ := Prod.mk.inj (Option.some.inj found)
      dsimp only
      rw [role', (Prod.mk.inj rest).2, decide_toList]

theorem all_of_map_eq {α β γ : Type} {xs : List α} {ys : List β} {f : α → γ} {g : β → γ}
    (same : xs.map f = ys.map g) {p : α → Bool} {q : β → Bool}
    (agree : ∀ x ∈ xs, ∀ y ∈ ys, f x = g y → p x = q y) : xs.all p = ys.all q := by
  induction xs generalizing ys with
  | nil =>
      rw [List.map_nil, eq_comm, List.map_eq_nil_iff] at same
      rw [same, List.all_nil, List.all_nil]
  | cons x xs ih =>
      cases ys with
      | nil => cases same
      | cons y ys =>
          obtain ⟨head, tail⟩ := List.cons.inj same
          rw [List.all_cons, List.all_cons, agree x List.mem_cons_self y List.mem_cons_self head,
            ih tail fun x mem y mem' =>
              agree x (List.mem_cons_of_mem _ mem) y (List.mem_cons_of_mem _ mem')]

theorem Carries.contains (carries : Carries a l b archive encode) (id : ExecutionId) :
    b.executions.contains id.toList = a.executions.contains id := by
  rw [carries.executions, contains_toList]

theorem ownLedgers_agrees (carries : Carries a l b archive encode) (reads : Reads typed text) :
    ownLedgers b text = Collection.ownLedgerFiles a typed.sources := by
  rw [ownLedgers, Collection.ownLedgerFiles, isNone_of_rel carries.batch]
  congr 1
  apply all_of_map_eq reads.declared
  intro file _ source _ same
  obtain ⟨role, rest⟩ := Prod.mk.inj same
  obtain ⟨remote, -⟩ := Prod.mk.inj rest
  rw [role, remote, executionPath?_toList]
  cases Collection.executionPath? source.remote.render with
  | none => rfl
  | some found => simp only [Option.map_some, carries.contains]

theorem resultPrefix_eq (carries : Carries a l b archive encode) {id : ExecutionId}
    (mem : id ∈ a.executions) : b.resultPrefix id.toList = some (a.outputRelative id).toList := by
  have batch := carries.batch
  rw [Bundle.resultPrefix, Attempt.outputRelative]
  generalize a.batch = first at batch ⊢
  generalize b.batch = second at batch ⊢
  cases batch with
  | none => rfl
  | some carried => simp [carried.output id mem]

theorem resultAllowed_agrees (carries : Carries a l b archive encode) {file : Declared}
    {source : Collection.Source} (same : fileOf file = sourceOf source) :
    resultAllowed b file = Collection.resultAllowed a source := by
  obtain ⟨-, rest⟩ := Prod.mk.inj same
  obtain ⟨remote, localPath⟩ := Prod.mk.inj rest
  rw [resultAllowed, Collection.resultAllowed, remote, resultPath?_toList]
  cases Collection.resultPath? source.remote.render with
  | none => rfl
  | some found =>
      obtain ⟨id, relative⟩ := found
      simp only [Option.map_some, carries.contains, isNone_of_rel carries.batch,
        executionPath?_toList]
      cases member : a.executions.contains id with
      | false => simp only [Bool.false_and]
      | true =>
          have same : decide (file.localPath = (a.outputRelative id).toList ++ relative.toList) =
              decide (source.localPath = a.outputRelative id ++ relative) := by
            rw [localPath, ← String.toList_append, decide_toList]
          simp only [resultPrefix_eq carries (List.contains_iff_mem.mp member), same]
          cases Collection.executionPath? relative with
          | none => rfl
          | some owner => simp only [Option.map_some, String.toList_inj]

theorem results_agree (carries : Carries a l b archive encode) (reads : Reads typed text) :
    (text.declared.filter (·.role = .result)).all (resultAllowed b) =
      (typed.sources.filter (·.role = .result)).all (Collection.resultAllowed a) := by
  rw [List.all_filter, List.all_filter]
  apply all_of_map_eq reads.declared
  intro file _ source _ same
  rw [resultAllowed_agrees carries same, (Prod.mk.inj same).1]

theorem snapshotPaths_eq (carries : Carries a l b archive encode) :
    snapshotPaths b = a.snapshots.map String.toList := by
  have batch := carries.batch
  rw [snapshotPaths, Attempt.snapshots]
  generalize a.batch = first at batch ⊢
  generalize b.batch = second at batch ⊢
  cases batch with
  | none => rfl
  | @some batch bundle carried =>
      have groups : (bundle.groups.flatMap fun group =>
          [group ++ "/env_used.sh".toList, group ++ "/env_used.yaml".toList]) =
          (Attempt.groupSnapshots batch).map String.toList := by
        rw [carried.groups, List.flatMap_map, Attempt.groupSnapshots, List.map_flatMap]
        simp only [List.map_cons, List.map_nil, String.toList_append]
      dsimp only
      rw [groups]
      simp only [List.map_append, List.map_cons, List.map_nil]

theorem coreDeclared_agrees (carries : Carries a l b archive encode) (reads : Reads typed text) :
    coreDeclared b archive text = Collection.coreDeclared a l typed.sources := by
  have status : Collection.isSnapshotCore "run.status" = false := by decide
  have summary : Collection.isSnapshotCore "run-summary.tsv" = false := by decide
  rw [coreDeclared, Collection.coreDeclared, snapshotPaths_eq carries, List.cons_append,
    List.cons_append, List.nil_append, List.all_cons, List.all_cons, status, summary, if_neg Bool.false_ne_true,
    if_neg Bool.false_ne_true, ← Bool.and_assoc]
  congr 1
  · rw [← reads.has, ← reads.has]
    rfl
  · rw [List.all_map]
    apply all_of_map_eq (rfl : a.snapshots.map id = a.snapshots.map id)
    intro name mem other _ same
    obtain rfl : name = other := same
    have batch := carries.batch
    have present := carries.file _ (.snapshot mem)
    rw [if_pos (Collection.isSnapshotCore_of_mem mem), Function.comp_apply, reads.has]
    congr 1
    generalize a.batch = first at batch ⊢
    generalize b.batch = second at batch ⊢
    cases batch with
    | none => rfl
    | some carried =>
        have control := carried.control name mem
        have file : b.file? archive name.toList =
            if name ∈ l.snapshots then some (encode (.snapshot name)) else none := by
          rw [show name = (StatePath.snapshot name).render from rfl, present, Ledger.file?,
            apply_ite (Option.map encode)]
          rfl
        by_cases held : name ∈ l.snapshots
        · simp [control, file, Ledger.file?, held]
        · simp [control, file, Ledger.file?, held]

theorem statusWord_plain (status : CellStatus) : '\n' ∉ statusWord status := by
  cases status <;> decide

theorem statusWord_injective {status other : CellStatus}
    (same : statusWord status = statusWord other) : status = other := by
  rw [← Option.some_inj, ← parseStatus_statusWord, ← parseStatus_statusWord, same]

theorem statusWord_ne_nil (status : CellStatus) : statusWord status ≠ [] := by
  cases status <;> decide

theorem cellFile_toList (id suffix : String) :
    cellFile id.toList suffix.toList = ("executions/" ++ id ++ suffix).toList := by
  rw [cellFile, String.toList_append, String.toList_append, List.append_assoc,
    Collection.executionsStart_eq]

theorem cellFile_status (id : ExecutionId) :
    cellFile id.toList statusSuffix = (StatePath.status id).render.toList :=
  cellFile_toList id ".status"

theorem cellFile_exitcode (id : ExecutionId) :
    cellFile id.toList exitcodeSuffix = (StatePath.exitcode id).render.toList :=
  cellFile_toList id ".exitcode"

theorem cellFile_workers (id : ExecutionId) :
    cellFile id.toList workersSuffix = (StatePath.workers id).render.toList :=
  cellFile_toList id ".workers.tsv"

theorem cat_status (carries : Carries a l b archive encode) {id : ExecutionId}
    (mem : id ∈ a.executions) (status : CellStatus) :
    decide (b.cat archive (cellFile id.toList statusSuffix) = statusWord status) =
      decide (l.status id = some status) := by
  rw [cellFile_status, Bundle.cat, carries.file _ (.status mem), Ledger.file?, decide_eq_decide]
  cases l.status id with
  | none =>
      constructor
      · intro same
        exact absurd same.symm (statusWord_ne_nil status)
      · intro impossible
        cases impossible
  | some found =>
      rw [Option.map_some, Option.map_some, Option.getD_some, carries.written.cellStatus,
        stripNewlines_append (statusWord_plain found), Option.some_inj]
      exact ⟨statusWord_injective, fun same => same ▸ rfl⟩

theorem cat_exitcode (carries : Carries a l b archive encode) {id : ExecutionId}
    (mem : id ∈ a.executions) :
    b.cat archive (cellFile id.toList exitcodeSuffix) = ((l.exitcode id).map numeral).getD [] := by
  rw [cellFile_exitcode, Bundle.cat, carries.file _ (.exitcode mem), Ledger.file?]
  cases l.exitcode id with
  | none => rfl
  | some rc =>
      have plain : '\n' ∉ numeral rc := fun mem => by
        simpa using isDigits_numeral rc '\n' mem
      rw [Option.map_some, Option.map_some, Option.getD_some, carries.written.exitcode,
        stripNewlines_append plain]
      rfl

theorem zero_code (code : Option Nat) :
    decide ((code.map numeral).getD [] = ['0']) = decide (code = some 0) := by
  rw [decide_eq_decide]
  cases code with
  | none => simp
  | some rc =>
      rw [Option.map_some, Option.getD_some, Option.some_inj]
      exact ⟨fun same => numeral_injective same, fun same => same ▸ rfl⟩

theorem failure_code (code : Option Nat) :
    ((((code.map numeral).getD []).head?.any fun c => c.isDigit && c ≠ '0') &&
      ((code.map numeral).getD []).all Char.isDigit) = code.any (· ≠ 0) := by
  cases code with
  | none => rfl
  | some rc =>
      have digits : (numeral rc).all Char.isDigit = true :=
        List.all_eq_true.mpr (isDigits_numeral rc)
      rw [Option.map_some, Option.getD_some, digits, Bool.and_true, Option.any_some]
      cases rc with
      | zero => rfl
      | succ rc =>
          obtain ⟨c, rest, shape, leading⟩ := numeral_head rc.succ_pos
          have digit : c.isDigit = true :=
            isDigits_numeral (rc + 1) c (shape ▸ List.mem_cons_self)
          rw [shape, List.head?_cons, Option.any_some]
          simp [digit, leading]

theorem lookup_toList (entries : List (ExecutionId × CellStatus)) (id : ExecutionId) :
    (entries.map fun entry => (entry.1.toList, entry.2)).lookup id.toList = entries.lookup id := by
  induction entries with
  | nil => rfl
  | cons entry entries ih =>
      have same : (id.toList == entry.1.toList) = (id == entry.1) := by
        rw [Bool.eq_iff_iff, beq_iff_eq, beq_iff_eq, String.toList_inj]
      rw [List.map_cons, List.lookup_cons, List.lookup_cons, ih, same]

theorem workloadDeclared_agrees (carries : Carries a l b archive encode) (reads : Reads typed text)
    {id : ExecutionId} (mem : id ∈ a.executions) :
    workloadDeclared b text id.toList = Collection.workloadDeclared a typed.sources id := by
  have file : cellFile id.toList ".workload.tsv".toList =
      ("executions/" ++ id ++ ".workload.tsv").toList := cellFile_toList id ".workload.tsv"
  have remote (name : String) : resultsStart ++ (id.toList ++ '/' :: name.toList) =
      ("results/" ++ id ++ "/" ++ name).toList := by
    rw [Collection.append_slash_toList, String.toList_append, List.append_assoc,
      Collection.resultsStart_eq]
  rw [workloadDeclared, Collection.workloadDeclared, resultPrefix_eq carries mem, file]
  dsimp only
  rw [remote, ← String.toList_append]
  have found := reads.find_local (a.outputRelative id ++ ("executions/" ++ id ++ ".workload.tsv"))
  generalize text.declared.find? _ = first at found ⊢
  generalize typed.sources.find? _ = second at found ⊢
  match first, second with
  | none, none => rfl
  | none, some _ => cases found
  | some _, none => cases found
  | some file, some source =>
      obtain ⟨role', rest⟩ := Prod.mk.inj (Option.some.inj found)
      dsimp only
      rw [role', (Prod.mk.inj rest).1, decide_toList]

theorem cellAllowed_agrees (carries : Carries a l b archive encode) (reads : Reads typed text)
    {id : ExecutionId} (mem : id ∈ a.executions) :
    cellAllowed b archive text id.toList = Collection.cellAllowed a l typed id := by
  have published (status : CellStatus) :
      (text.has .ledger (cellFile id.toList statusSuffix) &&
        decide (b.cat archive (cellFile id.toList statusSuffix) = statusWord status)) =
      (Collection.declared typed.sources .ledger (StatePath.status id).render &&
        decide (l.status id = some status)) := by
    rw [cat_status carries mem, cellFile_status, reads.has]
  have coded : text.has .ledger (cellFile id.toList exitcodeSuffix) =
      Collection.declared typed.sources .ledger (Collection.exitcodePath id) := by
    rw [cellFile_exitcode, reads.has]
    rfl
  have manned : text.has .ledger (cellFile id.toList workersSuffix) =
      Collection.declared typed.sources .ledger (StatePath.workers id).render := by
    rw [cellFile_workers, reads.has]
  rw [cellAllowed, Collection.cellAllowed, reads.executions, lookup_toList]
  cases typed.executions.lookup id with
  | none => rfl
  | some status =>
      dsimp only
      cases status with
      | pending =>
          rw [Bool.and_true]
          exact published .pending
      | running => rw [Bool.and_false]
      | success =>
          have word := published .success
          rw [statusWord] at word
          dsimp only
          rw [word, coded, manned, cat_exitcode carries mem, zero_code, carries.requires id mem]
          cases Collection.requiresWorkloadMetadata (a.workload id) with
          | false => simp only [Bool.and_assoc, Bool.not_false, Bool.true_or]
          | true =>
              simp only [Bool.and_assoc, Bool.not_true, Bool.false_or,
                workloadDeclared_agrees carries reads mem]
      | failed =>
          have word := published .failed
          rw [statusWord] at word
          dsimp only
          rw [word, coded, cat_exitcode carries mem, Bool.and_assoc, Bool.and_assoc, failure_code]

theorem outcomeAllowed_agrees (reads : Reads typed text) {outcome : RunStatus}
    (terminal : outcome.terminal = true) :
    outcomeAllowed text outcome = Collection.outcomeAllowed typed outcome := by
  cases outcome with
  | prepared => cases terminal
  | running => cases terminal
  | success =>
      rw [outcomeAllowed, Collection.outcomeAllowed, reads.executions, List.all_map]
      rfl
  | failed =>
      rw [outcomeAllowed, Collection.outcomeAllowed, reads.executions, List.any_map, ← reads.has]
      rfl
  | cancelled => rfl

theorem cat_runStatus (carries : Carries a l b archive encode) :
    b.cat archive runStatusPath = outcomeWord l.runStatus := by
  have file := carries.file _ .runStatus
  have plain : '\n' ∉ outcomeWord l.runStatus := by
    cases l.runStatus <;> decide
  rw [Bundle.cat, show runStatusPath = StatePath.runStatus.render.toList from rfl, file,
    Ledger.file?, Option.map_some, Option.getD_some, carries.written.runStatus,
    stripNewlines_append plain]

theorem sameExecutions_agrees (carries : Carries a l b archive encode) (reads : Reads typed text) :
    (!b.executions.isEmpty && decide (text.executions.length = b.executions.length) &&
      text.executions.all fun entry => b.executions.contains entry.1) =
      Collection.sameExecutions a typed.executions := by
  rw [Collection.sameExecutions, reads.executions, List.all_map, List.length_map, carries.executions,
    List.length_map, List.isEmpty_map]
  congr 1
  exact congrArg typed.executions.all (funext fun entry => contains_toList a.executions entry.1)

theorem cells_agree (carries : Carries a l b archive encode) (reads : Reads typed text) :
    b.executions.all (cellAllowed b archive text) =
      a.executions.all (Collection.cellAllowed a l typed) := by
  rw [carries.executions, List.all_map]
  apply all_of_map_eq (rfl : a.executions.map id = a.executions.map id)
  intro id mem other _ same
  obtain rfl : id = other := same
  exact cellAllowed_agrees carries reads mem

theorem verified_of_rel {batch : Option Batch} {bundle : Option BatchBundle}
    (related : Option.Rel (CarriesBatch a encode) batch bundle) :
    bundle.all (·.verified) = true := by
  cases related with
  | none => rfl
  | some carried => exact carried.verified

/-- The two collectors give one verdict. -/
theorem validate_agrees (carries : Carries a l b archive encode) :
    validateCollectedPublication b archive = Collection.validateCollectedPublication a l := by
  have read := readManifest_agrees carries
  rw [validateCollectedPublication, Collection.validateCollectedPublication, cat_runStatus carries,
    parseOutcome_outcomeWord]
  generalize Collection.readManifest a l l.manifest = first at read ⊢
  generalize readManifest b archive = second at read ⊢
  cases read with
  | none => rfl
  | some reads =>
      by_cases terminal : l.runStatus.terminal = true
      · simp only [Option.bind_eq_bind, Option.bind_some, if_pos, verified_of_rel carries.batch,
          terminal, Bool.true_and, coreDeclared_agrees carries reads, ownLedgers_agrees carries reads,
          results_agree carries reads, cells_agree carries reads,
          outcomeAllowed_agrees reads terminal, ← sameExecutions_agrees carries reads,
          Bool.and_assoc]
      · simp only [Option.bind_eq_bind, Option.bind_some, Bool.eq_false_iff.mpr terminal,
          Bool.false_eq_true, if_false, Option.bind_none, Bool.false_and]

/-! ## A cancelled attempt -/

def plainText : FileContent → Text
  | .cellStatus status => statusWord status ++ ['\n']
  | .exitcode rc => numeral rc ++ ['\n']
  | .runStatus status => outcomeWord status ++ ['\n']
  | _ => []

def plainChecksums : Checksums where
  size content := (plainText content).length
  digest content := String.ofList (sampleDigest (plainText content))
  digest_hex content := by
    rw [isSha256, String.toList_ofList]
    generalize plainText content = text
    unfold sampleDigest
    split_ifs <;> decide +kernel

def cancelledAttempt : Attempt where
  attemptId := "1234abcd"
  executions := ["0001"]
  workload _ := .mdtest []
  batch := none
  checksums := plainChecksums
  attemptId_valid := by decide
  nonempty := by decide
  sorted := by simp
  executions_valid := by decide
  output_mem _ mem := by cases mem

def cancelledSummary : Summary := ⟨"1234abcd", .cancelled, 1, 0, 0, 0, none, none⟩

def publishedFile (role : Role) (path : StatePath) (content : FileContent) : Row :=
  .file role path path.render (plainChecksums.size content) (plainChecksums.digest content)

def cancelledLedger : Ledger :=
  { Ledger.submitted with
    snapshots := ["env_used.sh", "env_used.yaml"]
    runStatus := .cancelled
    status := fun id => if id = "0001" then some .pending else none
    summary := some cancelledSummary
    manifest := [.schema 1, .attemptId "1234abcd", .execution "0001" .pending,
      publishedFile .ledger .runStatus (.runStatus .cancelled),
      publishedFile .ledger .runSummary (.summary cancelledSummary),
      publishedFile .ledger (.status "0001") (.cellStatus .pending),
      publishedFile .snapshot (.snapshot "env_used.sh") (.snapshot "env_used.sh"),
      publishedFile .snapshot (.snapshot "env_used.yaml") (.snapshot "env_used.yaml")] }

theorem carries_cancelled :
    Carries cancelledAttempt cancelledLedger oneCell cancelled plainText where
  written := ⟨fun _ => rfl, fun _ => rfl, fun _ => rfl⟩
  attemptId := rfl
  executions := rfl
  requires _ _ := rfl
  batch := .none
  size _ := rfl
  digest content := String.toList_ofList
  manifest := ⟨unlines cancelledRows, by decide +kernel, by decide +kernel⟩
  file path consulted := by
    have paths : path ∈ [.runStatus, .runSummary, .status "0001", .exitcode "0001",
        .snapshot "env_used.sh", .snapshot "env_used.yaml"] := by
      cases consulted with
      | row mem =>
          simp only [cancelledLedger, publishedFile, List.mem_cons, List.not_mem_nil, or_false,
            reduceCtorEq, false_or, Row.file.injEq] at mem
          rcases mem with ⟨-, rfl, -⟩ | ⟨-, rfl, -⟩ | ⟨-, rfl, -⟩ | ⟨-, rfl, -⟩ | ⟨-, rfl, -⟩ <;> simp
      | runStatus => decide
      | status mem =>
          obtain rfl := List.mem_singleton.mp mem
          decide
      | exitcode mem =>
          obtain rfl := List.mem_singleton.mp mem
          decide
      | snapshot mem =>
          rcases Collection.mem_snapshots.mp mem with rfl | rfl | ⟨_, found, -⟩
          · decide
          · decide
          · cases found
    simp only [List.mem_cons, List.not_mem_nil, or_false] at paths
    rcases paths with rfl | rfl | rfl | rfl | rfl | rfl <;> decide +kernel

end StorageScaleTest.Import
