import StorageScaleTest.Proof.Collection.Paths
import StorageScaleTest.Proof.Coordinator.Restart

/-!
# Accepted publications

The collector accepts the manifest of every consistent terminal ledger whose failures are coded and
explained, as long as the artifacts can be told apart from each other and from the ledger.
-/

namespace StorageScaleTest.Collection

open Coordinator

variable {a : Attempt} {l : Ledger}

/-! ## The sources of a manifest -/

def rowSource? : Row → Option Source
  | .file role remote localPath _ _ => some ⟨role, remote, localPath⟩
  | _ => none

def rowExecution? : Row → Option (ExecutionId × CellStatus)
  | .execution id status => some (id, status)
  | _ => none

def ledgerSource (path : StatePath) : Source := ⟨.ledger, path, path.render⟩

def snapshotSource (name : String) : Source := ⟨.snapshot, .snapshot name, name⟩

def resultSource (a : Attempt) (id : ExecutionId) (name : String) : Source :=
  ⟨.result, .result id name, a.outputRelative id ++ name⟩

def optionalSource (l : Ledger) (path : StatePath) : List Source :=
  if (l.file? path).isSome then [ledgerSource path] else []

def exitcodeSource (l : Ledger) (id : ExecutionId) : List Source :=
  if l.status id = some .success ∨ l.status id = some .failed then [ledgerSource (.exitcode id)]
  else []

def cellSources (a : Attempt) (l : Ledger) (id : ExecutionId) : List Source :=
  ledgerSource (.status id) :: (exitcodeSource l id ++ optionalSource l (.workers id) ++
    (l.results id).names.map (resultSource a id))

def publishedSources (a : Attempt) (l : Ledger) : List Source :=
  a.executions.flatMap (cellSources a l) ++
    [ledgerSource .runStatus, ledgerSource .runSummary] ++ optionalSource l .startupError ++
    optionalSource l .coordinatorLoss ++ a.snapshots.map snapshotSource

def Faithful (a : Attempt) (l : Ledger) : Row → Prop
  | .execution id _ => isExecutionId id = true
  | .file _ remote _ size digest =>
    matchesFile a l remote size digest = true ∧ isSha256 digest = true
  | _ => False

theorem fileRow_source {role : Role} {remote : StatePath} {localPath : String} {row : Row}
    (h : fileRow a l role remote localPath = some row) :
    rowSource? row = some ⟨role, remote, localPath⟩ ∧ rowExecution? row = none ∧
      Faithful a l row := by
  obtain ⟨content, found, rfl⟩ := fileRow_eq_some.mp h
  refine ⟨rfl, rfl, ?_, a.checksums.digest_hex content⟩
  simp [matchesFile, found]

theorem filterMap_appendRows {α β : Type} {f : α → Option (List Row)} {xs : List α}
    {rows : List Row} (h : appendRows f xs = some rows) (g : Row → Option β) (k : α → List β)
    (part : ∀ x ∈ xs, ∀ part, f x = some part → part.filterMap g = k x) :
    rows.filterMap g = xs.flatMap k := by
  obtain ⟨defined, rfl⟩ := appendRows_eq_some.mp h
  rw [List.filterMap_flatMap]
  refine List.flatMap_congr fun x mem => ?_
  obtain ⟨rows, eq⟩ := Option.isSome_iff_exists.mp (defined x mem)
  rw [eq]
  exact part x mem rows eq

structure Contributes (a : Attempt) (l : Ledger) (rows : List Row)
    (executions : List (ExecutionId × CellStatus)) (sources : List Source) : Prop where
  executions : rows.filterMap rowExecution? = executions
  sources : rows.filterMap rowSource? = sources
  faithful : ∀ row ∈ rows, Faithful a l row

namespace Contributes

theorem nil : Contributes a l [] [] [] := ⟨rfl, rfl, by simp⟩

theorem append {rows rows' : List Row} {executions executions' : List (ExecutionId × CellStatus)}
    {sources sources' : List Source} (h : Contributes a l rows executions sources)
    (h' : Contributes a l rows' executions' sources') :
    Contributes a l (rows ++ rows') (executions ++ executions') (sources ++ sources') where
  executions := by rw [List.filterMap_append, h.executions, h'.executions]
  sources := by rw [List.filterMap_append, h.sources, h'.sources]
  faithful row mem := (List.mem_append.mp mem).elim (h.faithful row) (h'.faithful row)

theorem file {role : Role} {remote : StatePath} {localPath : String} {row : Row}
    (h : fileRow a l role remote localPath = some row) :
    Contributes a l [row] [] [⟨role, remote, localPath⟩] := by
  obtain ⟨source, execution, faithful⟩ := fileRow_source h
  exact ⟨by simp [execution], by simp [source], by simpa using faithful⟩

theorem optional (path : StatePath) : Contributes a l (optionalRow a l path) []
    (optionalSource l path) := by
  unfold optionalRow optionalSource
  cases row : ledgerRow a l path with
  | none =>
      have missing : l.file? path = none := by simpa [ledgerRow, fileRow] using row
      rw [missing]
      exact .nil
  | some row' =>
      obtain ⟨content, found, -⟩ := ledgerRow_eq_some.mp row
      rw [found]
      exact .file row

theorem flatMap {α : Type} {f : α → Option (List Row)} {xs : List α} {rows : List Row}
    (h : appendRows f xs = some rows) (executions : α → List (ExecutionId × CellStatus))
    (sources : α → List Source)
    (part : ∀ x ∈ xs, ∀ part, f x = some part →
      Contributes a l part (executions x) (sources x)) :
    Contributes a l rows (xs.flatMap executions) (xs.flatMap sources) where
  executions := filterMap_appendRows h _ _ fun x mem rows eq => (part x mem rows eq).executions
  sources := filterMap_appendRows h _ _ fun x mem rows eq => (part x mem rows eq).sources
  faithful row mem := by
    obtain ⟨x, inList, rows, eq, inPart⟩ := (mem_of_appendRows h).mp mem
    exact (part x inList rows eq).faithful row inPart

theorem results {id : ExecutionId} {rows : List Row} (h : resultRows a l id = some rows) :
    Contributes a l rows [] ((l.results id).names.map (resultSource a id)) := by
  unfold resultRows at h
  obtain ⟨files, plain, h⟩ := Option.bind_eq_some_iff.mp h
  obtain ⟨-, rfl⟩ := relativeFiles_eq_some.mp plain
  have whole := flatMap h (fun _ => []) (fun name => [resultSource a id name])
    fun name _ part eq => by
      obtain ⟨row, found, rfl⟩ := Option.map_eq_some_iff.mp eq
      exact .file found
  rw [List.map_eq_flatMap]
  have none : ((l.results id).names.flatMap fun _ => []) =
      ([] : List (ExecutionId × CellStatus)) := List.flatMap_eq_nil_iff.mpr fun _ _ => rfl
  rwa [none] at whole

theorem exitcode {id : ExecutionId} {status : CellStatus} {rows : List Row}
    (here : l.status id = some status) (h : exitcodeRows a l id status = some rows) :
    Contributes a l rows [] (exitcodeSource l id) := by
  rw [exitcodeRows_eq_some] at h
  unfold exitcodeSource
  rw [here]
  simp only [Option.some.injEq]
  split at h
  · rename_i ended
    obtain ⟨row, found, rfl⟩ := h
    rw [if_pos ended]
    exact .file found
  · rename_i open_
    rw [h, if_neg open_]
    exact .nil

theorem cell {id : ExecutionId} {rows : List Row} (valid : isExecutionId id = true)
    (h : executionRows a l id = some rows) :
    Contributes a l rows [(id, (l.status id).getD .pending)] (cellSources a l id) := by
  obtain ⟨status, here, row, found, exitcodes, ended, files, listed, rfl⟩ :=
    executionRows_eq_some.mp h
  have head : Contributes a l [.execution id status] [(id, (l.status id).getD .pending)] [] :=
    ⟨by simp [rowExecution?, here], rfl, by simpa [Faithful] using valid⟩
  exact head.append ((file found).append
    (((exitcode here ended).append (optional (.workers id))).append (results listed)))

theorem snapshots {rows : List Row} (h : appendRows (snapshotRow a l) a.snapshots = some rows) :
    Contributes a l rows [] (a.snapshots.map snapshotSource) := by
  have whole := flatMap h (fun _ => []) (fun name => [snapshotSource name])
    fun name _ part eq => by
      obtain ⟨row, found, rfl⟩ := Option.map_eq_some_iff.mp eq
      exact .file found
  rw [List.map_eq_flatMap]
  have none : (a.snapshots.flatMap fun _ => []) = ([] : List (ExecutionId × CellStatus)) :=
    List.flatMap_eq_nil_iff.mpr fun _ _ => rfl
  rwa [none] at whole

theorem manifest {rows : List Row} (h : manifestRows a l = some rows) :
    ∃ body, rows = .schema 1 :: .attemptId a.attemptId :: body ∧
      Contributes a l body (a.executions.map fun id => (id, (l.status id).getD .pending))
        (publishedSources a l) := by
  obtain ⟨cells, parts, status, hs, summary, hr, names, hn, rfl⟩ := manifestRows_eq_some.mp h
  have whole := ((((flatMap parts (fun id => [(id, (l.status id).getD .pending)])
    (cellSources a l) fun id mem part eq => cell (a.executions_valid id mem) eq).append
      ((file hs).append (file hr))).append (optional .startupError)).append
        (optional .coordinatorLoss)).append (snapshots hn)
  refine ⟨cells ++ [status, summary] ++ optionalRow a l .startupError ++
    optionalRow a l .coordinatorLoss ++ names, by simp, ?_⟩
  rw [List.map_eq_flatMap]
  simpa [publishedSources, ledgerSource] using whole

end Contributes

/-! ## Reading the manifest -/

def Admitted (a : Attempt) (source : Source) : Prop :=
  safeRelativeFilePath source.remote.render = true ∧ safeRelativeFilePath source.localPath = true ∧
    (a.batch.isSome → source.role = .ledger →
      source.remote.render = source.localPath ∧ batchLedgerPath source.remote.render = true)

structure Distinct (executions : List (ExecutionId × CellStatus)) (sources : List Source) :
    Prop where
  executions : (executions.map Prod.fst).Nodup
  remotes : (sources.map (·.remote.render)).Nodup
  locals : (sources.map (·.localPath)).Nodup

theorem not_contains_of_nodup {α β : Type} [BEq β] [LawfulBEq β] {f : α → β} {before after : List α}
    {x : α} (nodup : ((before ++ x :: after).map f).Nodup) :
    (before.map f).contains (f x) = false := by
  rw [List.map_append, List.nodup_append] at nodup
  have apart := nodup.2.2
  simp only [List.contains_eq_mem, decide_eq_false_iff_not]
  intro mem
  exact apart _ mem _ (by simp) rfl

theorem foldlM_readRow {body : List Row} {reading : Reading}
    (faithful : ∀ row ∈ body, Faithful a l row)
    (admitted : ∀ source ∈ body.filterMap rowSource?, Admitted a source)
    (distinct : Distinct (reading.executions ++ body.filterMap rowExecution?)
      (reading.sources ++ body.filterMap rowSource?)) :
    body.foldlM (readRow a l) reading = some { reading with
      executions := reading.executions ++ body.filterMap rowExecution?
      sources := reading.sources ++ body.filterMap rowSource? } := by
  induction body generalizing reading with
  | nil => simp
  | cons row rest ih =>
      have own := faithful row List.mem_cons_self
      have faithful' := fun row mem => faithful row (List.mem_cons_of_mem _ mem)
      cases row with
      | schema version => exact own.elim
      | attemptId id => exact own.elim
      | execution id status =>
          simp only [List.filterMap_cons, rowExecution?, rowSource?] at admitted distinct ⊢
          have fresh := not_contains_of_nodup distinct.executions
          have step : readRow a l reading (.execution id status) =
              some { reading with executions := reading.executions ++ [(id, status)] } := by
            dsimp only [readRow]
            rw [if_pos]
            rw [fresh, show isExecutionId id = true from own]
            rfl
          rw [List.foldlM_cons, step, Option.bind_eq_bind, Option.bind_some, ih faithful' admitted]
          · simp
          · simpa using distinct
      | file role remote localPath size digest =>
          simp only [List.filterMap_cons, rowExecution?, rowSource?] at admitted distinct ⊢
          obtain ⟨safe, safe', batch⟩ := admitted _ List.mem_cons_self
          have fresh := not_contains_of_nodup distinct.remotes
          have fresh' := not_contains_of_nodup distinct.locals
          have allowed : (a.batch.isNone || role ≠ .ledger ||
              remote.render = localPath && batchLedgerPath remote.render) = true := by
            cases present : a.batch with
            | none => rfl
            | some b =>
                by_cases ledger : role = .ledger
                · obtain ⟨same, shaped⟩ := batch (by simp [present]) ledger
                  simp [same, same ▸ shaped]
                · simp [ledger]
          have step : readRow a l reading (.file role remote localPath size digest) =
              some { reading with sources := reading.sources ++ [⟨role, remote, localPath⟩] } := by
            dsimp only [readRow]
            rw [if_pos]
            rw [allowed, fresh, fresh', safe, safe', own.1, own.2]
            rfl
          rw [List.foldlM_cons, step, Option.bind_eq_bind, Option.bind_some,
            ih faithful' fun source mem => admitted source (List.mem_cons_of_mem _ mem)]
          · simp
          · simpa using distinct

theorem readManifest_eq {rows : List Row} (h : manifestRows a l = some rows)
    (admitted : ∀ source ∈ publishedSources a l, Admitted a source)
    (distinct : Distinct (a.executions.map fun id => (id, (l.status id).getD .pending))
      (publishedSources a l)) :
    readManifest a l rows = some ⟨true, true,
      a.executions.map fun id => (id, (l.status id).getD .pending), publishedSources a l⟩ := by
  obtain ⟨body, rfl, executions, sources, faithful⟩ := Contributes.manifest h
  have read : body.foldlM (readRow a l) ⟨true, true, [], []⟩ = _ :=
    foldlM_readRow faithful (by rwa [sources]) (by simpa [executions, sources] using distinct)
  simp only [List.nil_append, executions, sources] at read
  have first : readRow a l .start (.schema 1) = some ⟨true, false, [], []⟩ := rfl
  have second : readRow a l ⟨true, false, [], []⟩ (.attemptId a.attemptId) =
      some ⟨true, true, [], []⟩ := by simp [readRow]
  simp only [readManifest, List.foldlM_cons, first, second, Option.bind_eq_bind, Option.bind_some,
    read]
  rfl

/-! ## Artifacts that can be collected -/

def Artifact (a : Attempt) (l : Ledger) (id : ExecutionId) (name : String) : Prop :=
  id ∈ a.executions ∧ ((l.results id).get? name).isSome

def isResult : StatePath → Bool
  | .result _ _ => true
  | _ => false

/-- Artifacts with names the collector takes and destinations that are all different. -/
structure Collectible (a : Attempt) (l : Ledger) : Prop where
  safe : ∀ id name, Artifact a l id name → safeRelativeFilePath name = true
  own : a.batch.isSome → ∀ id name, Artifact a l id name → ∀ owner suffix,
    executionPath? name = some (owner, suffix) → owner = id
  distinct : ∀ id name id' name', Artifact a l id name → Artifact a l id' name' →
    a.outputRelative id ++ name = a.outputRelative id' ++ name' → id = id' ∧ name = name'
  apart : ∀ id name, Artifact a l id name → ∀ path, isResult path = false →
    (l.file? path).isSome → a.outputRelative id ++ name ≠ path.render

inductive Listed (a : Attempt) (l : Ledger) : Source → Prop
  | ledger (path) (proper : Proper a path) (plain : isResult path = false)
      (notSnapshot : ∀ name, path ≠ .snapshot name) (file : (l.file? path).isSome)
      (owned : ∀ id, path = .status id ∨ path = .exitcode id ∨ path = .workers id →
        id ∈ a.executions) : Listed a l (ledgerSource path)
  | snapshot (name) (mem : name ∈ a.snapshots) (file : name ∈ l.snapshots) :
      Listed a l (snapshotSource name)
  | result (id name) (artifact : Artifact a l id name) : Listed a l (resultSource a id name)

structure Publishable (a : Attempt) (l : Ledger) : Prop where
  consistent : Consistent a l
  statuses : ∀ id ∈ a.executions, (l.status id).isSome
  snapshots : ∀ name ∈ a.snapshots, name ∈ l.snapshots
  summary : l.summary.isSome
  recorded : FailuresRecorded l

theorem mem_optionalSource {path : StatePath} {source : Source} :
    source ∈ optionalSource l path ↔ (l.file? path).isSome ∧ source = ledgerSource path := by
  unfold optionalSource
  split <;> simp [*]

theorem mem_cellSources {id : ExecutionId} {source : Source} : source ∈ cellSources a l id ↔
    source = ledgerSource (.status id) ∨
    ((l.status id = some .success ∨ l.status id = some .failed) ∧
      source = ledgerSource (.exitcode id)) ∨
    ((l.workers id).isSome ∧ source = ledgerSource (.workers id)) ∨
    ∃ name, ((l.results id).get? name).isSome ∧ source = resultSource a id name := by
  unfold cellSources exitcodeSource
  simp only [List.mem_cons, List.mem_append, mem_optionalSource, List.mem_map,
    Directory.mem_names, or_assoc]
  refine or_congr_right (or_congr ?_ (or_congr ?_ ?_))
  · split <;> simp [*]
  · simp [Ledger.file?]
  · exact exists_congr fun name => and_congr_right fun _ => eq_comm

theorem mem_publishedSources {source : Source} : source ∈ publishedSources a l ↔
    (∃ id ∈ a.executions, source ∈ cellSources a l id) ∨
    source = ledgerSource .runStatus ∨ source = ledgerSource .runSummary ∨
    source ∈ optionalSource l .startupError ∨ source ∈ optionalSource l .coordinatorLoss ∨
    ∃ name ∈ a.snapshots, source = snapshotSource name := by
  unfold publishedSources
  simp only [List.mem_append, List.mem_flatMap, List.mem_cons, List.mem_map, List.not_mem_nil,
    or_false, or_assoc]
  refine or_congr_right (or_congr_right (or_congr_right (or_congr_right (or_congr_right ?_))))
  exact exists_congr fun name => and_congr_right fun _ => eq_comm

theorem Publishable.listed (h : Publishable a l) {source : Source}
    (mem : source ∈ publishedSources a l) : Listed a l source := by
  have alone : ∀ path : StatePath, (∀ id, ¬(path = .status id ∨ path = .exitcode id ∨
      path = .workers id)) → ∀ id, path = .status id ∨ path = .exitcode id ∨ path = .workers id →
        id ∈ a.executions := fun path none id eq => absurd eq (none id)
  rcases mem_publishedSources.mp mem with ⟨id, inList, cell⟩ | rfl | rfl | startup | loss |
    ⟨name, inList, rfl⟩
  · have valid := a.executions_valid id inList
    rcases mem_cellSources.mp cell with rfl | ⟨ended, rfl⟩ | ⟨some, rfl⟩ | ⟨name, some, rfl⟩
    · refine .ledger _ valid rfl (fun _ same => by cases same) ?_ (by simpa using inList)
      simpa [Ledger.file?] using h.statuses id inList
    · refine .ledger _ valid rfl (fun _ same => by cases same) ?_ (by simpa using inList)
      rcases ended with success | failed
      · simp [Ledger.file?, (h.consistent.success id success).1]
      · simpa [Ledger.file?] using h.recorded id failed
    · refine .ledger _ valid rfl (fun _ same => by cases same) ?_ (by simpa using inList)
      simpa [Ledger.file?] using some
    · exact .result id name ⟨inList, some⟩
  · exact .ledger _ trivial rfl (fun _ same => by cases same) rfl (alone _ (by simp))
  · refine .ledger _ trivial rfl (fun _ same => by cases same) ?_ (alone _ (by simp))
    simpa [Ledger.file?] using h.summary
  · obtain ⟨some, rfl⟩ := mem_optionalSource.mp startup
    exact .ledger _ trivial rfl (fun _ same => by cases same) some (alone _ (by simp))
  · obtain ⟨some, rfl⟩ := mem_optionalSource.mp loss
    exact .ledger _ trivial rfl (fun _ same => by cases same) some (alone _ (by simp))
  · exact .snapshot name inList (h.snapshots name inList)

/-! ## Nothing is listed twice -/

def owner : StatePath → Option ExecutionId
  | .status id | .exitcode id | .workers id | .result id _ => some id
  | _ => none

theorem owner_cellSources {id : ExecutionId} {source : Source} (mem : source ∈ cellSources a l id) :
    owner source.remote = some id := by
  rcases mem_cellSources.mp mem with rfl | ⟨-, rfl⟩ | ⟨-, rfl⟩ | ⟨name, -, rfl⟩ <;> rfl

theorem optionalSource_nodup (path : StatePath) : (optionalSource l path).Nodup := by
  unfold optionalSource
  split <;> simp

theorem cellSources_nodup (id : ExecutionId) : (cellSources a l id).Nodup := by
  have exitcode : (exitcodeSource l id).Nodup := by
    unfold exitcodeSource
    split <;> simp
  have results : ((l.results id).names.map (resultSource a id)).Nodup := by
    refine (Directory.names_nodup _).map_on fun name _ name' _ same => ?_
    have remote : StatePath.result id name = .result id name' := congrArg Source.remote same
    exact (StatePath.result.inj remote).2
  have fromExitcode : ∀ source ∈ exitcodeSource l id, source = ledgerSource (.exitcode id) := by
    intro source mem
    unfold exitcodeSource at mem
    split at mem
    · simpa using mem
    · cases mem
  have fromWorkers : ∀ source ∈ optionalSource l (.workers id),
      source = ledgerSource (.workers id) := fun source mem => (mem_optionalSource.mp mem).2
  have fromResults : ∀ source ∈ (l.results id).names.map (resultSource a id),
      source.role = .result := by
    intro source mem
    obtain ⟨name, -, rfl⟩ := List.mem_map.mp mem
    rfl
  unfold cellSources
  rw [List.nodup_cons, List.nodup_append, List.nodup_append]
  refine ⟨?_, ⟨exitcode, optionalSource_nodup _, ?_⟩, results, ?_⟩
  · intro mem
    rcases List.mem_append.mp mem with mem | mem
    · rcases List.mem_append.mp mem with mem | mem
      · cases fromExitcode _ mem
      · cases fromWorkers _ mem
    · cases fromResults _ mem
  · intro source mem source' mem' same
    rw [fromExitcode source mem, fromWorkers source' mem'] at same
    cases same
  · intro source mem source' mem' same
    have role := fromResults source' mem'
    rw [← same] at role
    rcases List.mem_append.mp mem with mem | mem
    · rw [fromExitcode source mem] at role
      cases role
    · rw [fromWorkers source mem] at role
      cases role

theorem publishedSources_nodup (a : Attempt) (l : Ledger) : (publishedSources a l).Nodup := by
  have cells : (a.executions.flatMap (cellSources a l)).Nodup := by
    rw [List.nodup_flatMap]
    refine ⟨fun id _ => cellSources_nodup id, (executions_nodup a).imp ?_⟩
    intro id id' different source mem mem'
    exact different (Option.some.inj ((owner_cellSources mem).symm.trans (owner_cellSources mem')))
  have snapshots : (a.snapshots.map snapshotSource).Nodup := by
    refine (snapshots_nodup a).map_on fun name _ name' _ same => ?_
    exact congrArg Source.localPath same
  have unowned : ∀ source ∈ a.executions.flatMap (cellSources a l),
      owner source.remote ≠ none := by
    intro source mem
    obtain ⟨id, -, mem⟩ := List.mem_flatMap.mp mem
    simp [owner_cellSources mem]
  have startup : ∀ source ∈ optionalSource l .startupError,
      source = ledgerSource .startupError := fun source mem => (mem_optionalSource.mp mem).2
  have loss : ∀ source ∈ optionalSource l .coordinatorLoss,
      source = ledgerSource .coordinatorLoss := fun source mem => (mem_optionalSource.mp mem).2
  unfold publishedSources
  simp only [List.nodup_append]
  refine ⟨⟨⟨⟨cells, by decide, ?_⟩, optionalSource_nodup _, ?_⟩, optionalSource_nodup _, ?_⟩,
    snapshots, ?_⟩
  · rintro source mem _ mem' rfl
    simp only [List.mem_cons, List.not_mem_nil, or_false] at mem'
    rcases mem' with rfl | rfl <;> exact unowned _ mem rfl
  · rintro source mem _ mem' rfl
    obtain rfl := startup source mem'
    rcases List.mem_append.mp mem with mem | mem
    · exact unowned _ mem rfl
    · simp [ledgerSource] at mem
  · rintro source mem _ mem' rfl
    obtain rfl := loss source mem'
    rcases List.mem_append.mp mem with mem | mem
    · rcases List.mem_append.mp mem with mem | mem
      · exact unowned _ mem rfl
      · simp [ledgerSource] at mem
    · cases startup _ mem
  · rintro source mem _ mem' rfl
    obtain ⟨name, -, rfl⟩ := List.mem_map.mp mem'
    rcases List.mem_append.mp mem with mem | mem
    · rcases List.mem_append.mp mem with mem | mem
      · rcases List.mem_append.mp mem with mem | mem
        · exact unowned _ mem rfl
        · simp [ledgerSource, snapshotSource] at mem
      · cases startup _ mem
    · cases loss _ mem

theorem batchLedgerPath_render {path : StatePath} (proper : Proper a path)
    (plain : isResult path = false) (notSnapshot : ∀ name, path ≠ .snapshot name) :
    batchLedgerPath path.render = true := by
  have cell : ∀ (suffix : String) {id : ExecutionId} {path : String}, isExecutionId id = true →
      path.toList = "executions/".toList ++ (id.toList ++ '.' :: suffix.toList) →
      [Import.statusSuffix, Import.exitcodeSuffix, Import.workersSuffix].contains
        ('.' :: suffix.toList) = true →
      batchLedgerPath path = true := by
    intro suffix id path valid eq known
    have read : Import.executionPath? path.toList = some (id.toList, suffix.toList) := by
      rw [eq, executionsStart_eq]
      exact numbered?_append valid _ _ _
    rw [batchLedgerPath, Import.batchLedgerPath, read, Bool.or_eq_true]
    exact .inr known
  cases path with
  | status id => exact cell "status" proper (by simp [StatePath.render]) (by decide)
  | exitcode id => exact cell "exitcode" proper (by simp [StatePath.render]) (by decide)
  | workers id => exact cell "workers.tsv" proper (by simp [StatePath.render]) (by decide)
  | runStatus => decide
  | runSummary => decide
  | startupError => decide
  | coordinatorLoss => decide
  | snapshot name => exact absurd rfl (notSnapshot name)
  | result id relative => cases plain

namespace Listed

variable {source source' : Source}

theorem proper (h : Listed a l source) (collectible : Collectible a l) :
    Proper a source.remote := by
  cases h with
  | ledger path proper => exact proper
  | snapshot name mem => exact mem
  | result id name artifact =>
      exact ⟨a.executions_valid id artifact.1, collectible.safe id name artifact⟩

theorem admitted (h : Listed a l source) (collectible : Collectible a l) : Admitted a source := by
  have safe := safe_render (h.proper collectible)
  cases h with
  | ledger path proper plain notSnapshot =>
      exact ⟨safe, safe, fun _ _ => ⟨rfl, batchLedgerPath_render proper plain notSnapshot⟩⟩
  | snapshot name mem => exact ⟨safe, safe, fun _ role => by cases role⟩
  | result id name artifact =>
      refine ⟨safe, ?_, fun _ role => by cases role⟩
      rw [safeRelativeFilePath_iff]
      exact safeParts_outputRelative artifact.1
        ((safeRelativeFilePath_iff _).mp (collectible.safe id name artifact))

theorem eq_of_remote (h : Listed a l source) (h' : Listed a l source')
    (same : source.remote = source'.remote) : source = source' := by
  cases h with
  | ledger path _ plain notSnapshot =>
      cases h' with
      | ledger path' => exact congrArg ledgerSource same
      | snapshot name => exact absurd same (notSnapshot name)
      | result id name =>
          rw [show path = .result id name from same] at plain
          cases plain
  | snapshot name =>
      cases h' with
      | ledger path' _ _ notSnapshot => exact absurd same.symm (notSnapshot name)
      | snapshot name' => exact congrArg snapshotSource (StatePath.snapshot.inj same)
      | result id name => cases same
  | result id name =>
      cases h' with
      | ledger path' _ plain =>
          rw [← show StatePath.result id name = path' from same] at plain
          cases plain
      | snapshot name' => cases same
      | result id' name' =>
          obtain ⟨rfl, rfl⟩ := StatePath.result.inj same
          rfl

theorem local_eq (h : Listed a l source) (plain : isResult source.remote = false) :
    source.localPath = source.remote.render ∧ (l.file? source.remote).isSome := by
  cases h with
  | ledger path _ _ _ file => exact ⟨rfl, file⟩
  | snapshot name mem file => exact ⟨rfl, by simp [snapshotSource, Ledger.file?, file]⟩
  | result id name => cases plain

theorem artifact (h : Listed a l source) (result : isResult source.remote = true) :
    ∃ id name, Artifact a l id name ∧ source = resultSource a id name := by
  cases h with
  | ledger path _ plain => exact absurd (result.symm.trans plain) (by simp)
  | snapshot name => cases result
  | result id name artifact => exact ⟨id, name, artifact, rfl⟩

theorem eq_of_local (h : Listed a l source) (h' : Listed a l source')
    (collectible : Collectible a l) (same : source.localPath = source'.localPath) :
    source = source' := by
  cases plain : isResult source.remote with
  | false =>
      obtain ⟨own, file⟩ := h.local_eq plain
      cases plain' : isResult source'.remote with
      | false =>
          obtain ⟨own', -⟩ := h'.local_eq plain'
          rw [own, own'] at same
          exact h.eq_of_remote h'
            (render_injective (h.proper collectible) (h'.proper collectible) same)
      | true =>
          obtain ⟨id, name, artifact, rfl⟩ := h'.artifact plain'
          exact absurd (same.symm.trans own) (collectible.apart id name artifact _ plain file)
  | true =>
      obtain ⟨id, name, artifact, rfl⟩ := h.artifact plain
      cases plain' : isResult source'.remote with
      | false =>
          obtain ⟨own', file'⟩ := h'.local_eq plain'
          exact absurd (same.trans own') (collectible.apart id name artifact _ plain' file')
      | true =>
          obtain ⟨id', name', artifact', rfl⟩ := h'.artifact plain'
          obtain ⟨rfl, rfl⟩ := collectible.distinct _ _ _ _ artifact artifact' same
          rfl

end Listed

theorem Publishable.distinct (h : Publishable a l) (collectible : Collectible a l) :
    Distinct (a.executions.map fun id => (id, (l.status id).getD .pending))
      (publishedSources a l) := by
  have nodup := publishedSources_nodup a l
  refine ⟨?_, nodup.map_on ?_, nodup.map_on ?_⟩
  · rw [List.map_map]
    simpa [Function.comp_def] using executions_nodup a
  · intro source mem source' mem' same
    exact (h.listed mem).eq_of_remote (h.listed mem') (render_injective
      ((h.listed mem).proper collectible) ((h.listed mem').proper collectible) same)
  · intro source mem source' mem' same
    exact (h.listed mem).eq_of_local (h.listed mem') collectible same

theorem Publishable.read (h : Publishable a l) (collectible : Collectible a l)
    (manifest : manifestRows a l = some l.manifest) :
    readManifest a l l.manifest = some ⟨true, true,
      a.executions.map fun id => (id, (l.status id).getD .pending), publishedSources a l⟩ :=
  readManifest_eq manifest (fun _ mem => (h.listed mem).admitted collectible)
    (h.distinct collectible)

/-! ## Acceptance -/

theorem find?_eq_some_of_unique {α β : Type} [DecidableEq β] {f : α → β} {xs : List α} {x : α}
    (mem : x ∈ xs) (unique : ∀ y ∈ xs, f y = f x → y = x) :
    xs.find? (fun y => f y = f x) = some x := by
  obtain ⟨y, found⟩ := Option.isSome_iff_exists.mp
    (List.find?_isSome.mpr ⟨x, mem, decide_eq_true rfl⟩ :
      (xs.find? fun y => decide (f y = f x)).isSome)
  have same : decide (f y = f x) = true := by simpa using List.find?_some found
  rw [found, unique y (List.mem_of_find?_eq_some found) (of_decide_eq_true same)]

theorem lookup_map_self {β : Type} {f : ExecutionId → β} {ids : List ExecutionId} {id : ExecutionId}
    (mem : id ∈ ids) : (ids.map fun id => (id, f id)).lookup id = some (f id) := by
  induction ids with
  | nil => cases mem
  | cons other rest ih =>
      rw [List.map_cons, List.lookup_cons]
      by_cases same : id = other
      · subst same
        simp
      · rw [beq_false_of_ne same]
        exact ih ((List.mem_cons.mp mem).resolve_left same)

section

variable (h : Publishable a l) (collectible : Collectible a l)

include h collectible

theorem find_remote {source : Source} (mem : source ∈ publishedSources a l) :
    (publishedSources a l).find? (·.remote.render = source.remote.render) = some source :=
  find?_eq_some_of_unique mem fun _ mem' same =>
    (h.listed mem').eq_of_remote (h.listed mem) (render_injective
      ((h.listed mem').proper collectible) ((h.listed mem).proper collectible) same)

theorem declared_ledger {path : StatePath} (mem : ledgerSource path ∈ publishedSources a l) :
    declared (publishedSources a l) .ledger path.render = true := by
  have found := find_remote h collectible mem
  unfold declared
  rw [show (publishedSources a l).find? (·.remote.render = path.render) =
    some (ledgerSource path) from found]
  simp [ledgerSource]

theorem coreDeclared_published : coreDeclared a l (publishedSources a l) = true := by
  unfold coreDeclared
  rw [List.all_eq_true]
  intro core mem
  rcases List.mem_append.mp mem with plain | snapshot
  · simp only [List.mem_cons, List.not_mem_nil, or_false] at plain
    rcases plain with rfl | rfl
    · rw [if_neg (by decide)]
      exact declared_ledger h collectible (mem_publishedSources.mpr (.inr (.inl rfl)))
    · rw [if_neg (by decide)]
      exact declared_ledger h collectible (mem_publishedSources.mpr (.inr (.inr (.inl rfl))))
  · have listed : snapshotSource core ∈ publishedSources a l :=
      mem_publishedSources.mpr (.inr (.inr (.inr (.inr (.inr ⟨core, snapshot, rfl⟩)))))
    have found := find_remote h collectible listed
    rw [if_pos (isSnapshotCore_of_mem snapshot), Bool.and_eq_true]
    constructor
    · unfold declared
      rw [show (publishedSources a l).find? (·.remote.render = core) =
        some (snapshotSource core) from found]
      simp [snapshotSource]
    · simp [Ledger.file?, h.snapshots core snapshot]

omit collectible in
theorem ownLedgerFiles_published : ownLedgerFiles a (publishedSources a l) = true := by
  unfold ownLedgerFiles
  rw [Bool.or_eq_true]
  refine .inr (List.all_eq_true.mpr fun source mem => ?_)
  cases h.listed mem with
  | snapshot name => rfl
  | result id name => rfl
  | ledger path proper plain notSnapshot file owned =>
      simp only [ledgerSource, Bool.or_eq_true]
      right
      cases path with
      | status id =>
          rw [executionPath?_status proper]
          simpa using owned id (.inl rfl)
      | exitcode id =>
          rw [executionPath?_exitcode proper]
          simpa using owned id (.inr (.inl rfl))
      | workers id =>
          rw [executionPath?_workers proper]
          simpa using owned id (.inr (.inr rfl))
      | runStatus => rw [show executionPath? StatePath.runStatus.render = none by decide]
      | runSummary => rw [show executionPath? StatePath.runSummary.render = none by decide]
      | startupError => rw [show executionPath? StatePath.startupError.render = none by decide]
      | coordinatorLoss =>
          rw [show executionPath? StatePath.coordinatorLoss.render = none by decide]
      | snapshot name => exact absurd rfl (notSnapshot name)
      | result id name => cases plain

theorem resultAllowed_published {source : Source} (mem : source ∈ publishedSources a l)
    (role : source.role = .result) : resultAllowed a source = true := by
  cases h.listed mem with
  | ledger path => cases role
  | snapshot name => cases role
  | result id name artifact =>
      have safe := collectible.safe id name artifact
      have nonempty : name ≠ "" := by
        rintro rfl
        exact absurd safe (by decide)
      have read := resultPath?_render (a.executions_valid id artifact.1) nonempty
      unfold resultAllowed
      rw [show (resultSource a id name).remote.render = _ from rfl]
      simp only [resultSource, read, List.contains_eq_mem, artifact.1, decide_true, Bool.true_and,
        Bool.and_true]
      cases batch : a.batch with
      | none => rfl
      | some b =>
          cases parsed : executionPath? name with
          | none => rfl
          | some found =>
              simpa using collectible.own (by simp [batch]) id name artifact found.1 found.2 parsed

theorem workloadDeclared_published {id : ExecutionId} (mem : id ∈ a.executions)
    (success : l.status id = some .success)
    (required : requiresWorkloadMetadata (a.workload id) = true) :
    workloadDeclared a (publishedSources a l) id = true := by
  let name := "executions/" ++ id ++ ".workload.tsv"
  have needed : name ∈ requiredArtifacts id (a.workload id) := by
    cases workload : a.workload id with
    | mdtest stems => simp [requiresWorkloadMetadata, workload] at required
    | io readFrom singleBigFile sharedDirectory filesPerNode writeOnly writeNoRead =>
        simp only [requiresWorkloadMetadata, workload, Bool.or_eq_true] at required
        unfold requiredArtifacts
        by_cases first : (readFrom && !singleBigFile) = true
        · simp [first, name]
        · have second := required.resolve_left first
          simp [first, second, name]
  have artifact : Artifact a l id name := ⟨mem, (h.consistent.success id success).2.2 name needed⟩
  have listed : resultSource a id name ∈ publishedSources a l :=
    mem_publishedSources.mpr (.inl ⟨id, mem, mem_cellSources.mpr
      (.inr (.inr (.inr ⟨name, artifact.2, rfl⟩)))⟩)
  have found : (publishedSources a l).find? (·.localPath = a.outputRelative id ++ name) =
      some (resultSource a id name) :=
    find?_eq_some_of_unique listed fun _ mem' same =>
      (h.listed mem').eq_of_local (h.listed listed) collectible same
  unfold workloadDeclared
  dsimp only
  rw [found]
  simp [resultSource, StatePath.render, name]

theorem cellAllowed_published (stopped : ∀ id, l.status id ≠ some .running)
    (coded : FailuresCoded l) {id : ExecutionId} (mem : id ∈ a.executions) :
    cellAllowed a l ⟨true, true, a.executions.map fun id => (id, (l.status id).getD .pending),
      publishedSources a l⟩ id = true := by
  obtain ⟨status, eq⟩ := Option.isSome_iff_exists.mp (h.statuses id mem)
  have own : ∀ path, ledgerSource path ∈ cellSources a l id →
      declared (publishedSources a l) .ledger path.render = true := fun path inCell =>
    declared_ledger h collectible (mem_publishedSources.mpr (.inl ⟨id, mem, inCell⟩))
  have first := own (.status id) (mem_cellSources.mpr (.inl rfl))
  unfold cellAllowed
  simp only [lookup_map_self (f := fun id => (l.status id).getD .pending) mem]
  simp only [eq, Option.getD_some, first, Bool.true_and, decide_true]
  cases status with
  | running => exact absurd eq (stopped id)
  | pending => rfl
  | success =>
      obtain ⟨zero, workers, -⟩ := h.consistent.success id eq
      have exitcode := own (.exitcode id) (mem_cellSources.mpr (.inr (.inl ⟨.inl eq, rfl⟩)))
      have worker := own (.workers id) (mem_cellSources.mpr (.inr (.inr (.inl ⟨workers, rfl⟩))))
      simp only [exitcodePath, exitcode, zero, worker, decide_true, Bool.true_and]
      cases required : requiresWorkloadMetadata (a.workload id) with
      | false => rfl
      | true => exact workloadDeclared_published h collectible mem eq required
  | failed =>
      obtain ⟨rc, code, nonzero⟩ := coded id eq
      have exitcode := own (.exitcode id) (mem_cellSources.mpr (.inr (.inl ⟨.inr eq, rfl⟩)))
      simp [exitcodePath, exitcode, code, nonzero]

theorem outcomeAllowed_published (terminal : l.runStatus.terminal)
    (evident : l.runStatus = .failed → Evident l) :
    outcomeAllowed ⟨true, true, a.executions.map fun id => (id, (l.status id).getD .pending),
      publishedSources a l⟩ l.runStatus = true := by
  cases status : l.runStatus with
  | success =>
      refine List.all_eq_true.mpr fun entry mem => ?_
      obtain ⟨id, inList, rfl⟩ := List.mem_map.mp mem
      simp [h.consistent.runSuccess status id inList]
  | cancelled => rfl
  | failed =>
      unfold outcomeAllowed
      rw [Bool.or_eq_true]
      rcases evident status with startup | ⟨id, failed⟩
      · right
        have file : (l.file? .startupError).isSome := by simpa [Ledger.file?] using startup
        exact declared_ledger h collectible (mem_publishedSources.mpr
          (.inr (.inr (.inr (.inl (mem_optionalSource.mpr ⟨file, rfl⟩))))))
      · left
        refine List.any_eq_true.mpr ⟨(id, .failed), List.mem_map.mpr
          ⟨id, h.consistent.member id (by simp [failed]), by simp [failed]⟩, by simp⟩
  | prepared => simp [status, RunStatus.terminal] at terminal
  | running => simp [status, RunStatus.terminal] at terminal

theorem accepted (manifest : manifestRows a l = some l.manifest)
    (terminal : l.runStatus.terminal) (coded : FailuresCoded l)
    (evident : l.runStatus = .failed → Evident l) :
    validateCollectedPublication a l = some l.runStatus := by
  have same : sameExecutions a (a.executions.map fun id => (id, (l.status id).getD .pending)) =
      true := by
    simp [sameExecutions, a.nonempty]
  have results : ((publishedSources a l).filter (·.role = .result)).all (resultAllowed a) =
      true := by
    refine List.all_eq_true.mpr fun source mem => ?_
    obtain ⟨listed, role⟩ := List.mem_filter.mp mem
    exact resultAllowed_published h collectible listed (of_decide_eq_true role)
  have cells := List.all_eq_true.mpr fun (id : ExecutionId) (mem : id ∈ a.executions) =>
    cellAllowed_published h collectible (h.consistent.stopped terminal) coded mem
  unfold validateCollectedPublication
  rw [h.read collectible manifest]
  simp only [Option.bind_eq_bind, Option.bind_some, terminal, coreDeclared_published h collectible,
    same, ownLedgerFiles_published h, results, cells,
    outcomeAllowed_published h collectible terminal evident, Bool.and_self, if_true]

end

end StorageScaleTest.Collection
