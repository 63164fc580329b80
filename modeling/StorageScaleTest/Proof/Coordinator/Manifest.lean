import StorageScaleTest.Proof.Coordinator.Files

/-!
# What a published manifest says

`manifestRows` is a partial function of the ledger: when it is defined, and which rows it has for
each execution.
-/

namespace StorageScaleTest.Coordinator

def Row.resultOf (id : ExecutionId) : Row → Bool
  | .file _ (.result owner _) _ _ _ => owner = id
  | _ => false

def RegularNames (d : Directory) : Prop := ∀ name ∈ d.names, regularRelativePath name = true

theorem appendRows_eq_some {α : Type} {f : α → Option (List Row)} {xs : List α} {rows : List Row} :
    appendRows f xs = some rows ↔
      (∀ x ∈ xs, (f x).isSome) ∧ rows = xs.flatMap fun x => (f x).getD [] := by
  induction xs generalizing rows with
  | nil => exact ⟨fun h => ⟨by simp, (Option.some.inj h).symm⟩, fun h => congrArg some h.2.symm⟩
  | cons x xs ih =>
      cases h : f x with
      | none => simp [appendRows, h]
      | some part =>
          simp only [appendRows, h, Option.bind_eq_bind, Option.bind_some, Option.bind_eq_some_iff,
            ih, Option.pure_def, Option.some.injEq, List.forall_mem_cons, Option.isSome_some,
            true_and, List.flatMap_cons, Option.getD_some]
          constructor
          · rintro ⟨rest, ⟨defined, rfl⟩, rfl⟩
            exact ⟨defined, rfl⟩
          · rintro ⟨defined, rfl⟩
            exact ⟨_, ⟨defined, rfl⟩, rfl⟩

theorem appendRows_isSome {α : Type} {f : α → Option (List Row)} {xs : List α}
    (h : ∀ x ∈ xs, (f x).isSome) : ∃ rows, appendRows f xs = some rows :=
  ⟨_, appendRows_eq_some.mpr ⟨h, rfl⟩⟩

theorem mem_of_appendRows {α : Type} {f : α → Option (List Row)} {xs : List α} {rows : List Row}
    (h : appendRows f xs = some rows) {row : Row} :
    row ∈ rows ↔ ∃ x ∈ xs, ∃ part, f x = some part ∧ row ∈ part := by
  obtain ⟨defined, rfl⟩ := appendRows_eq_some.mp h
  simp only [List.mem_flatMap]
  constructor
  · rintro ⟨x, mem, inPart⟩
    obtain ⟨part, eq⟩ := Option.isSome_iff_exists.mp (defined x mem)
    exact ⟨x, mem, part, eq, by simpa [eq] using inPart⟩
  · rintro ⟨x, mem, part, eq, inPart⟩
    exact ⟨x, mem, by simpa [eq] using inPart⟩

theorem flatMap_eq_of_unique {α β : Type} [DecidableEq α] {g : α → List β} {x : α} {xs : List α}
    (nodup : xs.Nodup) (mem : x ∈ xs) (other : ∀ y ∈ xs, y ≠ x → g y = []) :
    xs.flatMap g = g x := by
  induction xs with
  | nil => simp at mem
  | cons y ys ih =>
      rw [List.nodup_cons] at nodup
      rw [List.flatMap_cons]
      by_cases same : y = x
      · subst same
        have rest : ys.flatMap g = [] := List.flatMap_eq_nil_iff.mpr fun z hz =>
          other z (List.mem_cons_of_mem _ hz) (fun h => nodup.1 (h ▸ hz))
        rw [rest, List.append_nil]
      · rw [other y List.mem_cons_self same, List.nil_append]
        refine ih nodup.2 ?_ fun z hz => other z (List.mem_cons_of_mem _ hz)
        exact (List.mem_cons.mp mem).resolve_left (Ne.symm same)

section

variable {a : Attempt} {l : Ledger}

theorem executions_nodup (a : Attempt) : a.executions.Nodup :=
  a.sorted.imp fun h => ne_of_lt h

theorem fileRow_eq_some {role : Role} {remote : StatePath} {localPath : String} {row : Row} :
    fileRow a l role remote localPath = some row ↔ ∃ content, l.file? remote = some content ∧
      row = .file role remote localPath (a.checksums.size content) (a.checksums.digest content) := by
  rw [fileRow, Option.map_eq_some_iff]
  exact exists_congr fun content => and_congr_right fun _ => eq_comm

theorem ledgerRow_eq_some {path : StatePath} {row : Row} :
    ledgerRow a l path = some row ↔ ∃ content, l.file? path = some content ∧
      row = .file .ledger path path.render (a.checksums.size content)
        (a.checksums.digest content) :=
  fileRow_eq_some

theorem mem_optionalRow {path : StatePath} {row : Row} :
    row ∈ optionalRow a l path ↔ ledgerRow a l path = some row := by
  simp [optionalRow]

theorem relativeFiles_eq_some {d : Directory} {files : List String} :
    relativeFiles ⟨d, false⟩ = some files ↔ RegularNames d ∧ files = d.names := by
  simp only [relativeFiles, RegularNames, Bool.false_eq_true, if_false, List.all_eq_true]
  split
  · rename_i h
    exact ⟨fun eq => ⟨h, (Option.some.inj eq).symm⟩, fun eq => by rw [eq.2]⟩
  · rename_i h
    exact ⟨fun eq => absurd eq (by simp), fun eq => absurd eq.1 h⟩

theorem resultRow_eq_some {id : ExecutionId} {name : String} {row : Row} :
    resultRow a l id name = some row ↔ ∃ bytes, (l.results id).get? name = some bytes ∧
      row = .file .result (.result id name) (a.outputRelative id ++ name)
        (a.checksums.size (.artifact bytes)) (a.checksums.digest (.artifact bytes)) := by
  simp only [resultRow, fileRow_eq_some, Ledger.file?, Option.map_eq_some_iff]
  constructor
  · rintro ⟨_, ⟨bytes, found, rfl⟩, rfl⟩
    exact ⟨bytes, found, rfl⟩
  · rintro ⟨bytes, found, rfl⟩
    exact ⟨_, ⟨bytes, found, rfl⟩, rfl⟩

theorem resultRows_eq_some {id : ExecutionId} {rows : List Row} :
    resultRows a l id = some rows ↔ RegularNames (l.results id) ∧
      rows = (l.results id).names.flatMap fun name => (resultRow a l id name).toList := by
  have defined : ∀ name ∈ (l.results id).names,
      ((resultRow a l id name).map ([·])).isSome := by
    intro name mem
    obtain ⟨bytes, found⟩ := Option.isSome_iff_exists.mp (Directory.mem_names.mp mem)
    rw [Option.isSome_map, resultRow_eq_some.mpr ⟨bytes, found, rfl⟩]
    rfl
  have single : ∀ row : Option Row, (row.map ([·])).getD [] = row.toList := by
    intro row
    cases row <;> rfl
  simp only [resultRows, Option.bind_eq_bind, Option.bind_eq_some_iff, relativeFiles_eq_some,
    appendRows_eq_some, single]
  constructor
  · rintro ⟨_, ⟨regular, rfl⟩, -, rfl⟩
    exact ⟨regular, rfl⟩
  · rintro ⟨regular, rfl⟩
    exact ⟨_, ⟨regular, rfl⟩, defined, rfl⟩

theorem mem_resultRows {id : ExecutionId} {rows : List Row} (h : resultRows a l id = some rows)
    {row : Row} : row ∈ rows ↔ ∃ name, resultRow a l id name = some row := by
  obtain ⟨-, rfl⟩ := resultRows_eq_some.mp h
  simp only [List.mem_flatMap, Option.mem_toList]
  constructor
  · rintro ⟨name, -, eq⟩
    exact ⟨name, eq⟩
  · rintro ⟨name, eq⟩
    obtain ⟨bytes, found, -⟩ := resultRow_eq_some.mp eq
    exact ⟨name, Directory.mem_names.mpr (by simp [found]), eq⟩

theorem resultRows_resultOf {id : ExecutionId} {rows : List Row}
    (h : resultRows a l id = some rows) (owner : ExecutionId) :
    ∀ row ∈ rows, Row.resultOf owner row = decide (id = owner) := by
  intro row mem
  obtain ⟨name, eq⟩ := (mem_resultRows h).mp mem
  obtain ⟨bytes, -, rfl⟩ := resultRow_eq_some.mp eq
  rfl

theorem exitcodeRows_eq_some {id : ExecutionId} {status : CellStatus} {rows : List Row} :
    exitcodeRows a l id status = some rows ↔
      if status = .success ∨ status = .failed then
        ∃ row, ledgerRow a l (.exitcode id) = some row ∧ rows = [row]
      else rows = [] := by
  cases status <;> simp [exitcodeRows, eq_comm]

theorem executionRows_eq_some {id : ExecutionId} {rows : List Row} :
    executionRows a l id = some rows ↔ ∃ status, l.status id = some status ∧
      ∃ row, ledgerRow a l (.status id) = some row ∧
      ∃ exitcode, exitcodeRows a l id status = some exitcode ∧
      ∃ results, resultRows a l id = some results ∧
      rows = .execution id status :: row ::
        (exitcode ++ optionalRow a l (.workers id) ++ results) := by
  simp only [executionRows, Option.bind_eq_bind, Option.bind_eq_some_iff, Option.pure_def,
    Option.some.injEq, eq_comm (b := rows)]

theorem manifestRows_eq_some {rows : List Row} :
    manifestRows a l = some rows ↔
      ∃ cells, appendRows (executionRows a l) a.executions = some cells ∧
      ∃ status, ledgerRow a l .runStatus = some status ∧
      ∃ summary, ledgerRow a l .runSummary = some summary ∧
      ∃ snapshots, appendRows (snapshotRow a l) a.snapshots = some snapshots ∧
      rows = [.schema 1, .attemptId a.attemptId] ++ cells ++ [status, summary] ++
        optionalRow a l .startupError ++ optionalRow a l .coordinatorLoss ++ snapshots := by
  simp only [manifestRows, Option.bind_eq_bind, Option.bind_eq_some_iff, Option.pure_def,
    Option.some.injEq, eq_comm (b := rows)]

theorem ledgerRow_file {path : StatePath} {row : Row} (h : ledgerRow a l path = some row) :
    ∃ size digest, row = .file .ledger path path.render size digest := by
  obtain ⟨content, -, rfl⟩ := ledgerRow_eq_some.mp h
  exact ⟨_, _, rfl⟩

theorem snapshotRow_eq_some {name : String} {rows : List Row} :
    snapshotRow a l name = some rows ↔ name ∈ l.snapshots ∧ rows =
      [.file .snapshot (.snapshot name) name (a.checksums.size (.snapshot name))
        (a.checksums.digest (.snapshot name))] := by
  simp only [snapshotRow, Option.map_eq_some_iff, fileRow_eq_some, Ledger.file?]
  by_cases h : name ∈ l.snapshots <;> simp [h, eq_comm]

theorem manifestRows_isSome
    (statuses : ∀ id ∈ a.executions, (l.status id).isSome)
    (exitcodes : ∀ id ∈ a.executions, l.status id = some .success ∨ l.status id = some .failed →
      (l.exitcode id).isSome)
    (regular : ∀ id ∈ a.executions, RegularNames (l.results id))
    (summary : l.summary.isSome) (snapshots : ∀ name ∈ a.snapshots, name ∈ l.snapshots) :
    ∃ rows, manifestRows a l = some rows := by
  have file : ∀ path, (l.file? path).isSome → ∃ row, ledgerRow a l path = some row := by
    intro path h
    obtain ⟨content, eq⟩ := Option.isSome_iff_exists.mp h
    exact ⟨_, ledgerRow_eq_some.mpr ⟨content, eq, rfl⟩⟩
  have cell : ∀ id ∈ a.executions, (executionRows a l id).isSome := by
    intro id mem
    obtain ⟨status, hs⟩ := Option.isSome_iff_exists.mp (statuses id mem)
    obtain ⟨row, hr⟩ := file (.status id) (by simp [Ledger.file?, hs])
    obtain ⟨exitcode, he⟩ : ∃ exitcode, exitcodeRows a l id status = some exitcode := by
      by_cases ended : status = .success ∨ status = .failed
      · have some := exitcodes id mem (by simpa [hs] using ended)
        obtain ⟨row, eq⟩ := file (.exitcode id) (by simpa [Ledger.file?] using some)
        exact ⟨[row], exitcodeRows_eq_some.mpr (by rw [if_pos ended]; exact ⟨row, eq, rfl⟩)⟩
      · exact ⟨[], exitcodeRows_eq_some.mpr (by rw [if_neg ended])⟩
    have results := (resultRows_eq_some (a := a)).mpr ⟨regular id mem, rfl⟩
    rw [executionRows_eq_some.mpr ⟨status, hs, row, hr, exitcode, he, _, results, rfl⟩]
    rfl
  have snapshot : ∀ name ∈ a.snapshots, (snapshotRow a l name).isSome := by
    intro name mem
    rw [snapshotRow_eq_some.mpr ⟨snapshots name mem, rfl⟩]
    rfl
  obtain ⟨cells, hc⟩ := appendRows_isSome cell
  obtain ⟨names, hn⟩ := appendRows_isSome snapshot
  obtain ⟨status, hs⟩ := file .runStatus rfl
  obtain ⟨row, hr⟩ := file .runSummary (by simpa [Ledger.file?] using summary)
  exact ⟨_, manifestRows_eq_some.mpr ⟨cells, hc, status, hs, row, hr, names, hn, rfl⟩⟩

theorem manifestRows_execution {rows : List Row} (h : manifestRows a l = some rows)
    {id : ExecutionId} {status : CellStatus} :
    .execution id status ∈ rows ↔ id ∈ a.executions ∧ l.status id = some status := by
  obtain ⟨cells, hc, runStatus, hs, summary, hr, snapshots, hn, rfl⟩ := manifestRows_eq_some.mp h
  obtain ⟨_, _, rfl⟩ := ledgerRow_file hs
  obtain ⟨_, _, rfl⟩ := ledgerRow_file hr
  have optional : ∀ path, .execution id status ∉ optionalRow a l path := by
    intro path mem
    obtain ⟨_, _, eq⟩ := ledgerRow_file (mem_optionalRow.mp mem)
    cases eq
  have snapshot : .execution id status ∉ snapshots := by
    intro mem
    obtain ⟨name, -, part, eq, inPart⟩ := (mem_of_appendRows hn).mp mem
    obtain ⟨-, rfl⟩ := snapshotRow_eq_some.mp eq
    simp at inPart
  simp only [List.mem_append, List.mem_cons, reduceCtorEq, List.not_mem_nil, or_self, false_or,
    optional, snapshot, or_false, mem_of_appendRows hc, executionRows_eq_some]
  constructor
  · rintro ⟨x, mem, part, ⟨st, eq, row, hrow, exitcode, he, results, hres, rfl⟩, inPart⟩
    rcases List.mem_cons.mp inPart with same | inPart
    · cases same
      exact ⟨mem, eq⟩
    · exfalso
      rcases List.mem_cons.mp inPart with same | inPart
      · obtain ⟨_, _, rfl⟩ := ledgerRow_file hrow
        cases same
      · simp only [List.mem_append, optional, or_false] at inPart
        rcases inPart with inPart | inPart
        · rw [exitcodeRows_eq_some] at he
          split at he
          · obtain ⟨row', eq', rfl⟩ := he
            obtain ⟨_, _, rfl⟩ := ledgerRow_file eq'
            simp at inPart
          · simp [he] at inPart
        · obtain ⟨name, eq'⟩ := (mem_resultRows hres).mp inPart
          obtain ⟨_, -, same⟩ := resultRow_eq_some.mp eq'
          cases same
  · rintro ⟨mem, eq⟩
    obtain ⟨part, hpart⟩ := Option.isSome_iff_exists.mp ((appendRows_eq_some.mp hc).1 id mem)
    obtain ⟨st, eq', rest⟩ := executionRows_eq_some.mp hpart
    obtain rfl : st = status := Option.some.inj (eq'.symm.trans eq)
    exact ⟨id, mem, part, ⟨st, eq', rest⟩, by
      obtain ⟨row, -, exitcode, -, results, -, rfl⟩ := rest
      exact List.mem_cons_self⟩

private theorem filter_ledgerRow {path : StatePath} {row : Row} {id : ExecutionId}
    (h : ledgerRow a l path = some row) (plain : ∀ owner name, path ≠ .result owner name) :
    Row.resultOf id row = false := by
  obtain ⟨_, _, rfl⟩ := ledgerRow_file h
  cases path with
  | result owner name => exact absurd rfl (plain owner name)
  | _ => rfl

private theorem filter_optionalRow (path : StatePath) {id : ExecutionId}
    (plain : ∀ owner name, path ≠ .result owner name) :
    (optionalRow a l path).filter (Row.resultOf id) = [] := by
  refine List.filter_eq_nil_iff.mpr fun row mem => ?_
  rw [filter_ledgerRow (mem_optionalRow.mp mem) plain]
  simp

theorem executionRows_filter {owner id : ExecutionId} {rows : List Row}
    (h : executionRows a l owner = some rows) :
    rows.filter (Row.resultOf id) =
      if owner = id then (resultRows a l id).getD [] else [] := by
  obtain ⟨status, -, row, hrow, exitcode, he, results, hres, rfl⟩ := executionRows_eq_some.mp h
  have exit : exitcode.filter (Row.resultOf id) = [] := by
    rw [exitcodeRows_eq_some] at he
    split at he
    · obtain ⟨row', eq', rfl⟩ := he
      simp [filter_ledgerRow eq' (by simp)]
    · simp [he]
  have head : Row.resultOf id (.execution owner status) = false := rfl
  rw [List.filter_cons_of_neg (by simp [head]),
    List.filter_cons_of_neg (by simp [filter_ledgerRow hrow (by simp)]), List.filter_append,
    List.filter_append, exit, filter_optionalRow _ (by simp)]
  have each := resultRows_resultOf hres id
  by_cases same : owner = id
  · subst same
    simp only [decide_true] at each
    simp [hres, List.filter_eq_self.mpr each]
  · simp only [same, decide_false] at each
    simpa [same] using each

theorem manifestRows_results {rows : List Row} (h : manifestRows a l = some rows)
    {id : ExecutionId} (mem : id ∈ a.executions) :
    some (rows.filter (Row.resultOf id)) = resultRows a l id := by
  obtain ⟨cells, hc, runStatus, hs, summary, hr, snapshots, hn, rfl⟩ := manifestRows_eq_some.mp h
  obtain ⟨defined, rfl⟩ := appendRows_eq_some.mp hc
  have snapshot : snapshots.filter (Row.resultOf id) = [] := by
    refine List.filter_eq_nil_iff.mpr fun row inRows => ?_
    obtain ⟨name, -, part, eq, inPart⟩ := (mem_of_appendRows hn).mp inRows
    obtain ⟨-, rfl⟩ := snapshotRow_eq_some.mp eq
    obtain rfl := List.mem_singleton.mp inPart
    simp [Row.resultOf]
  have cell : ∀ owner ∈ a.executions,
      ((executionRows a l owner).getD []).filter (Row.resultOf id) =
        if owner = id then (resultRows a l id).getD [] else [] := by
    intro owner inList
    obtain ⟨part, eq⟩ := Option.isSome_iff_exists.mp (defined owner inList)
    rw [eq, Option.getD_some, executionRows_filter eq]
  have cells : (a.executions.flatMap fun x => (executionRows a l x).getD []).filter
      (Row.resultOf id) = (resultRows a l id).getD [] := by
    rw [List.filter_flatMap, flatMap_eq_of_unique (executions_nodup a) mem]
    · rw [cell id mem, if_pos rfl]
    · intro owner inList different
      rw [cell owner inList, if_neg different]
  have header : [Row.schema 1, .attemptId a.attemptId].filter (Row.resultOf id) = [] := rfl
  have middle : [runStatus, summary].filter (Row.resultOf id) = [] := by
    simp [filter_ledgerRow hs (by simp), filter_ledgerRow hr (by simp)]
  obtain ⟨part, eq⟩ := Option.isSome_iff_exists.mp (defined id mem)
  obtain ⟨_, -, _, -, _, -, results, hres, -⟩ := executionRows_eq_some.mp eq
  simp only [List.filter_append, header, cells, middle, filter_optionalRow .startupError (by simp),
    filter_optionalRow .coordinatorLoss (by simp), snapshot, hres, Option.getD_some, List.nil_append,
    List.append_nil]

end

end StorageScaleTest.Coordinator
