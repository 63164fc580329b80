import Mathlib.Data.List.Dedup
import StorageScaleTest.Collection.Import
import StorageScaleTest.Proof.Collection.Paths

/-!
# Where an import writes

An import goes through its steps until one is refused, and each step touches the parents and the
place of one file. Nothing but the rows and the status files of the archive says which.
-/

namespace StorageScaleTest.Import

open Coordinator Shell

variable {b : Bundle} {archive : Archive} {site : Site} {tree : Tree} {digest : Text → Text}

/-! ## Files of an attempt -/

def kubernetesName : Text := "kubernetes".toList
def environmentStart : Text := "env_used.".toList
def executionsName : Text := "executions".toList
def batchNames : List Text := ["batch-manifest.tsv".toList, "batch-sealed.sha256".toList]
def definitionSuffix : Text := ".sh".toList
def cellSuffixes : List Text := [statusSuffix, exitcodeSuffix, workersSuffix]

/-- Journals and identities, snapshots and batch manifests, definitions, and the ledger files of
executions that are not `own`. -/
def Reserved (own : Text → Prop) (place : Place) : Prop :=
  place.head? = some kubernetesName ∨
    (∃ name, place.getLast? = some name ∧ (environmentStart <+: name ∨ name ∈ batchNames)) ∨
    ∃ id, isCellId id = true ∧ (place = placeOf (cellFile id definitionSuffix) ∨
      ¬own id ∧ ∃ suffix ∈ cellSuffixes, place = placeOf (cellFile id suffix))

structure Artifacts where
  of : Text → Place → Prop
  proper : ∀ id place, of id place → ¬Reserved (· = id) place

variable {names : Artifacts}

/-- The suffixes of the ledger files that an import may remove: those of the segments collected
before, and none where a whole attempt has been. -/
def Site.suffixes (site : Site) : List Text :=
  site.suffix :: site.priors.map (·.suffix) ++ if site.aggregates = [] then [] else [[]]

/-- The ledger files of an attempt or of a segment with one of the suffixes, and the ledger files
and result artifacts of the executions. -/
def Own (names : Artifacts) (b : Bundle) (suffixes : List Text) (place : Place) : Prop :=
  (∃ name ∈ ledgerNames, ∃ suffix ∈ suffixes, place = [name.1 ++ (suffix ++ '.' :: name.2)]) ∨
    ∃ id ∈ b.executions, (∃ suffix ∈ cellSuffixes, place = placeOf (cellFile id suffix)) ∨
      names.of id place

/-- Every file that is written is one of this attempt or segment, every directory is above one,
and every file that is removed is one of it or of an earlier one. -/
def Confined (names : Artifacts) (b : Bundle) (site : Site) (effects : List Effect) : Prop :=
  ∀ effect ∈ effects, match effect with
    | .mkdir place => place ≠ [] ∧ ∃ file, Own names b [site.suffix] file ∧ place <+: file.dropLast
    | .write place _ => Own names b [site.suffix] place
    | .remove place => Own names b site.suffixes place

theorem isCellId_iff {id : Text} :
    isCellId id = true ↔ id.length = 4 ∧ ∀ c ∈ id, c.isDigit = true := by
  simp [isCellId]

theorem cellFile_split (id suffix : Text) :
    cellFile id suffix = executionsName ++ '/' :: (id ++ suffix) := rfl

theorem placeOf_cell {id suffix : Text} (valid : isCellId id = true) (plain : '/' ∉ suffix) :
    placeOf (cellFile id suffix) = [executionsName, id ++ suffix] := by
  obtain ⟨length, digits⟩ := isCellId_iff.mp valid
  have part : '/' ∉ id ++ suffix := by
    intro mem
    rcases List.mem_append.mp mem with mem | mem
    · exact Collection.not_slash_digit (digits _ mem) rfl
    · exact plain mem
  have first : '/' ∉ executionsName := by decide
  have split : (cellFile id suffix).splitOn '/' = [executionsName, id ++ suffix] := by
    rw [cellFile_split, Collection.splitOn_slash, List.splitOn_eq_singleton first,
      List.splitOn_eq_singleton part]
    rfl
  have nonempty : id ++ suffix ≠ [] := by
    intro empty
    have lengths := congrArg List.length empty
    rw [List.length_append, length] at lengths
    simp at lengths
  unfold placeOf Coordinator.components
  rw [split, if_neg]
  simpa using nonempty

theorem cell_same {id id' suffix suffix' : Text} (valid : isCellId id = true)
    (valid' : isCellId id' = true) (plain : '/' ∉ suffix) (plain' : '/' ∉ suffix')
    (same : placeOf (cellFile id suffix) = placeOf (cellFile id' suffix')) :
    id = id' ∧ suffix = suffix' := by
  rw [placeOf_cell valid plain, placeOf_cell valid' plain'] at same
  have parts := (List.cons.inj (List.cons.inj same).2).1
  exact List.append_inj parts ((isCellId_iff.mp valid).1.trans (isCellId_iff.mp valid').1.symm)

theorem cellSuffixes_plain {suffix : Text} (mem : suffix ∈ cellSuffixes) :
    '/' ∉ suffix ∧ suffix ≠ definitionSuffix := by
  simp only [cellSuffixes, List.mem_cons, List.not_mem_nil, or_false] at mem
  rcases mem with rfl | rfl | rfl <;> decide

theorem ledgerName_first {name : Text × Text} (mem : name ∈ ledgerNames) :
    ∃ c rest, name.1 = c :: rest ∧ c ∈ ['r', 's', 'c'] := by
  simp only [ledgerNames, List.mem_cons, List.not_mem_nil, or_false] at mem
  rcases mem with rfl | rfl | rfl | rfl <;> exact ⟨_, _, rfl, by decide⟩

theorem Own.not_reserved {suffixes : List Text} {place : Place}
    (own : Own names b suffixes place) : ¬Reserved (· ∈ b.executions) place := by
  rcases own with ⟨name, mem, suffix, -, rfl⟩ | ⟨id, inside, ⟨suffix, mem, rfl⟩ | artifact⟩
  · obtain ⟨c, rest, eq, first⟩ := ledgerName_first mem
    rw [eq, List.cons_append]
    rintro (kubernetes | ⟨last, found, start | batch⟩ | ⟨id, valid, definition | ⟨-, suffix, mem, cell⟩⟩)
    · simp only [List.head?_cons, Option.some.injEq] at kubernetes
      rw [(List.cons.inj kubernetes).1] at first
      exact absurd first (by decide)
    · simp only [List.getLast?_singleton, Option.some.injEq] at found
      rw [← found] at start
      obtain ⟨_, same⟩ := start
      rw [← (List.cons.inj same).1] at first
      exact absurd first (by decide)
    · simp only [List.getLast?_singleton, Option.some.injEq] at found
      rw [← found] at batch
      simp only [batchNames, List.mem_cons, List.not_mem_nil, or_false] at batch
      rcases batch with same | same <;> rw [(List.cons.inj same).1] at first <;>
        exact absurd first (by decide)
    · rw [placeOf_cell valid (by decide)] at definition
      exact absurd (congrArg List.length definition) (by simp)
    · rw [placeOf_cell valid (cellSuffixes_plain mem).1] at cell
      exact absurd (congrArg List.length cell) (by simp)
  · obtain ⟨plain, notDefinition⟩ := cellSuffixes_plain mem
    have valid := b.numbered id inside
    have place := placeOf_cell valid plain
    rintro (kubernetes | ⟨last, found, start⟩ | ⟨id', valid', definition | ⟨other, suffix', mem', cell⟩⟩)
    · rw [place, List.head?_cons, Option.some.injEq] at kubernetes
      exact absurd kubernetes (by decide)
    · rw [place] at found
      obtain rfl : id ++ suffix = last := by simpa using found
      obtain ⟨length, digits⟩ := isCellId_iff.mp valid
      have positive : 0 < id.length := by omega
      obtain ⟨c, rest, eq⟩ := List.exists_cons_of_length_pos positive
      have digit : c.isDigit = true := digits c (eq ▸ List.mem_cons_self)
      rw [eq] at start
      rcases start with ⟨_, same⟩ | batch
      · rw [← (List.cons.inj same).1] at digit
        exact absurd digit (by decide)
      · simp only [batchNames, List.mem_cons, List.not_mem_nil, or_false] at batch
        rcases batch with same | same <;> rw [(List.cons.inj same).1] at digit <;>
          exact absurd digit (by decide)
    · exact notDefinition (cell_same valid valid' plain (by decide) definition).2
    · obtain ⟨rfl, -⟩ := cell_same valid valid' plain (cellSuffixes_plain mem').1 cell
      exact other inside
  · intro reserved
    apply names.proper id place artifact
    rcases reserved with kubernetes | last | ⟨id', valid', definition | ⟨other, cell⟩⟩
    · exact .inl kubernetes
    · exact .inr (.inl last)
    · exact .inr (.inr ⟨id', valid', .inl definition⟩)
    · exact .inr (.inr ⟨id', valid', .inr ⟨fun eq => other (eq ▸ inside), cell⟩⟩)

theorem Confined.untouched {effects : List Effect} (confined : Confined names b site effects) :
    ∀ effect ∈ effects, effect.place.head? ≠ some kubernetesName ∧
      ((∃ place, effect = .mkdir place) ∨ ¬Reserved (· ∈ b.executions) effect.place) := by
  intro effect mem
  have facts := confined effect mem
  cases effect with
  | mkdir place =>
      obtain ⟨nonempty, file, own, above⟩ := facts
      refine ⟨fun eq => own.not_reserved (.inl ?_), .inl ⟨place, rfl⟩⟩
      obtain ⟨rest, same⟩ := above.trans (List.dropLast_prefix file)
      rw [← same, List.head?_append_of_ne_nil _ nonempty]
      exact eq
  | write place content => exact ⟨fun eq => facts.not_reserved (.inl eq), .inr facts.not_reserved⟩
  | remove place => exact ⟨fun eq => facts.not_reserved (.inl eq), .inr facts.not_reserved⟩

/-! ## Imports that stay inside -/

def Bundle.manifest (b : Bundle) (archive : Archive) : Text := (b.file? archive manifestName).getD []

/-- Every row that is copied, every status file in the archive, and every row of an earlier
manifest that is given up, names a file of the attempt. -/
structure Contained (names : Artifacts) (b : Bundle) (archive : Archive) (site : Site) : Prop where
  rows : ∀ fields ∈ loopRows (b.manifest archive), copies fields = true →
    Own names b [site.suffix] (placeOf (copyDestination site.suffix fields))
  statuses : ∀ id ∈ archive.statusIds b.attemptId, id ∈ b.executions
  priors : ∀ prior ∈ site.priors, ∀ rows, publishedRows prior.manifest = some rows →
    ∀ row ∈ rows, ∀ current, currentDigests b site (b.manifest archive) = some current →
      ∀ path, givenUp (resumedIds (b.manifest archive)) (current.map Prod.fst) prior.suffix row =
        some path → Own names b site.suffixes (placeOf path)

theorem walk_effects (create : Bool) (tree : Tree) (parts : Place) (done : Place) :
    ∀ effect ∈ (walk create tree done parts).1, ∃ place, effect = .mkdir place ∧ place ≠ [] ∧
      place <+: done ++ parts := by
  induction parts generalizing done with
  | nil =>
      intro effect mem
      cases mem
  | cons part rest ih =>
      have later : ∀ effect ∈ (walk create tree (done ++ [part]) rest).1,
          ∃ place, effect = .mkdir place ∧ place ≠ [] ∧ place <+: done ++ part :: rest := by
        intro effect mem
        obtain ⟨place, eq, nonempty, below⟩ := ih (done ++ [part]) effect mem
        exact ⟨place, eq, nonempty, by simpa using below⟩
      intro effect mem
      simp only [walk] at mem
      split at mem
      · exact later effect mem
      · cases mem
      · split at mem
        · rcases List.mem_cons.mp mem with rfl | mem
          · exact ⟨_, rfl, by simp, ⟨rest, by simp⟩⟩
          · exact later effect mem
        · cases mem

theorem walk_confined {place : Place} (own : Own names b [site.suffix] place) (create : Bool)
    (tree : Tree) : Confined names b site (walk create tree [] place.dropLast).1 := by
  intro effect mem
  obtain ⟨parent, rfl, nonempty, below⟩ := walk_effects create tree _ [] effect mem
  exact ⟨nonempty, place, own, below⟩

theorem Confined.append {effects more : List Effect} (confined : Confined names b site effects)
    (confined' : Confined names b site more) : Confined names b site (effects ++ more) := by
  intro effect mem
  rcases List.mem_append.mp mem with mem | mem
  · exact confined effect mem
  · exact confined' effect mem

theorem Confined.write {place : Place} (own : Own names b [site.suffix] place) (content : Text) :
    Confined names b site [.write place content] := by
  intro effect mem
  obtain rfl := List.mem_singleton.mp mem
  exact own

theorem removeReplaced_confined {path : Text} (own : Own names b site.suffixes (placeOf path))
    (digests : List Text) (current : Option Text) :
    Confined names b site (removeReplaced digest tree path digests current).1 := by
  have none : Confined names b site [] := fun _ mem => by cases mem
  unfold removeReplaced
  split
  · exact none
  · exact none
  · exact none
  · split
    · intro effect mem
      obtain rfl := List.mem_singleton.mp mem
      exact own
    · exact none
  · exact none

theorem copyRow_confined {path digest' : Text} {content : Text}
    (own : Own names b [site.suffix] (placeOf path)) :
    Confined names b site (copyRow digest tree path digest' content).1 := by
  have parents := walk_confined own true tree
  unfold copyRow
  generalize walk true tree [] (placeOf path).dropLast = walked at parents ⊢
  generalize tree (placeOf path) = node
  obtain ⟨effects, result⟩ := walked
  cases result with
  | arrived =>
      cases node with
      | none => exact parents.append (.write own content)
      | some node => cases node <;> exact parents
  | missing => cases node <;> exact parents
  | refused => cases node <;> exact parents

theorem copyStatus_confined {id : Text} {content : Text}
    (own : Own names b [site.suffix] (placeOf (cellFile id statusSuffix))) :
    Confined names b site (copyStatus tree id content).1 := by
  have parents := walk_confined own true tree
  unfold copyStatus
  dsimp only
  generalize placeOf (cellFile id statusSuffix) = place at own parents ⊢
  generalize walk true tree [] place.dropLast = walked at parents ⊢
  generalize tree place = node
  obtain ⟨effects, result⟩ := walked
  cases result with
  | arrived =>
      cases node with
      | none => exact parents.append (.write own content)
      | some node =>
          cases node with
          | file content' =>
              dsimp only
              split
              · exact parents
              · exact parents.append (.write own content)
          | directory => exact parents
          | other => exact parents
  | missing => cases node <;> exact parents
  | refused => cases node <;> exact parents

theorem performAll_cons (tree : Tree) (item : Item) (rest : List Item) :
    performAll digest tree (item :: rest) = (item.perform digest tree).1 ++
      if (item.perform digest tree).2 = true then
        performAll digest ((item.perform digest tree).1.foldl Effect.apply tree) rest
      else [] := rfl

theorem performAll_confined {items : List Item}
    (each : ∀ item ∈ items, ∀ tree, Confined names b site (item.perform digest tree).1)
    (tree : Tree) : Confined names b site (performAll digest tree items) := by
  induction items generalizing tree with
  | nil => exact fun _ mem => by cases mem
  | cons item rest ih =>
      rw [performAll_cons]
      apply Confined.append (each item List.mem_cons_self tree)
      by_cases go : (item.perform digest tree).2 = true
      · rw [if_pos go]
        exact ih (fun item mem => each item (List.mem_cons_of_mem _ mem)) _
      · rw [if_neg go]
        exact fun _ mem => by cases mem

theorem aggregateRows_own {rows rows' : List (Text × Text)} {suffixes : List Text}
    (plain : [] ∈ suffixes) (read : aggregateRows rows = some rows') :
    ∀ row ∈ rows', Own names b suffixes (placeOf row.1) := by
  unfold aggregateRows at read
  split at read
  · rename_i valid
    obtain rfl := Option.some.inj read
    intro row mem
    have named := List.all_eq_true.mp valid row mem
    simp only [Bool.and_eq_true, List.contains_eq_mem, List.mem_cons, List.not_mem_nil, or_false,
      decide_eq_true_eq] at named
    rcases named.1 with eq | eq <;> rw [eq]
    · exact .inl ⟨("run".toList, "status".toList), by decide, [], plain, by decide +kernel⟩
    · exact .inl ⟨("run-summary".toList, "tsv".toList), by decide, [], plain, by decide +kernel⟩
  · cases read

theorem mem_of_mapM {α β : Type} {f : α → Option β} {xs : List α} {ys : List β}
    (mapped : xs.mapM f = some ys) : ∀ y ∈ ys, ∃ x ∈ xs, f x = some y := by
  induction xs generalizing ys with
  | nil =>
      obtain rfl : ys = [] := by simpa using mapped.symm
      intro y mem
      cases mem
  | cons x rest ih =>
      rw [List.mapM_cons] at mapped
      obtain ⟨first, eq, mapped⟩ := Option.bind_eq_some_iff.mp mapped
      obtain ⟨later, eqs, mapped⟩ := Option.bind_eq_some_iff.mp mapped
      obtain rfl := Option.some.inj mapped
      intro y mem
      rcases List.mem_cons.mp mem with rfl | mem
      · exact ⟨x, List.mem_cons_self, eq⟩
      · obtain ⟨x', inside, eq'⟩ := ih eqs y mem
        exact ⟨x', List.mem_cons_of_mem _ inside, eq'⟩

theorem removals_own (contained : Contained names b archive site) {items : List Item}
    (planned : removals b site (b.manifest archive) = some items) :
    ∀ item ∈ items, ∃ path digests current, item = .superseded path digests current ∧
      Own names b site.suffixes (placeOf path) := by
  obtain ⟨current, digests, planned⟩ := Option.bind_eq_some_iff.mp planned
  obtain ⟨replaced, paths, planned⟩ := Option.bind_eq_some_iff.mp planned
  obtain rfl := Option.some.inj planned
  have own : ∀ row ∈ replaced, Own names b site.suffixes (placeOf row.1) := by
    obtain ⟨priors, read, paths⟩ := Option.bind_eq_some_iff.mp paths
    obtain ⟨aggregates, read', paths⟩ := Option.bind_eq_some_iff.mp paths
    obtain rfl := Option.some.inj paths
    intro row mem
    rcases List.mem_append.mp mem with mem | mem
    · obtain ⟨list, inside, mem⟩ := List.mem_flatten.mp mem
      obtain ⟨prior, site, eq⟩ := mem_of_mapM read list inside
      obtain ⟨rows, published, eq⟩ := Option.bind_eq_some_iff.mp eq
      split at eq
      · obtain rfl := Option.some.inj eq
        obtain ⟨declared, among, given⟩ := List.mem_filterMap.mp mem
        obtain ⟨path, given', rfl⟩ := Option.map_eq_some_iff.mp given
        exact contained.priors prior (List.mem_filter.mp site).1 rows published declared among
          current digests path given'
      · cases eq
    · obtain ⟨list, inside, mem⟩ := List.mem_flatten.mp mem
      obtain ⟨rows, collected, eq⟩ := mem_of_mapM read' list inside
      have some : site.aggregates ≠ [] := by
        rintro none
        simp [none] at collected
      have plain : [] ∈ site.suffixes := by simp [Site.suffixes, some]
      exact aggregateRows_own plain eq row mem
  intro item mem
  obtain ⟨path, inside, rfl⟩ := List.mem_map.mp mem
  have among := List.mem_dedup.mp ((site.order_perm _).mem_iff.mp inside)
  obtain ⟨row, mem', rfl⟩ := List.mem_map.mp among
  exact ⟨_, _, _, rfl, own row mem'⟩

theorem merge_confined (contained : Contained names b archive site) :
    Confined names b site (mergeCollectedResults b archive site) := by
  have none : Confined names b site [] := fun _ mem => by cases mem
  unfold mergeCollectedResults
  dsimp only
  split
  · split
    · exact none
    · rename_i items planned
      apply performAll_confined
      intro item mem tree
      rcases List.mem_append.mp mem with mem | mem
      · rcases List.mem_append.mp mem with mem | mem
        · obtain ⟨path, digests, current, rfl, own⟩ := removals_own contained planned item mem
          exact removeReplaced_confined own digests current
        · obtain ⟨fields, inside, rfl⟩ := List.mem_map.mp mem
          obtain ⟨row, copied⟩ := List.mem_filter.mp inside
          have own := contained.rows fields row copied
          unfold copyItem
          split
          · split
            · exact none
            · exact copyRow_confined own
          · exact none
      · obtain ⟨id, inside, eq⟩ := List.mem_filterMap.mp mem
        obtain ⟨content, _, rfl⟩ := Option.map_eq_some_iff.mp eq
        exact copyStatus_confined (.inr ⟨id, contained.statuses id inside,
          .inl ⟨statusSuffix, by decide, rfl⟩⟩)
  · exact none

/-! ## Rows and status files that are read -/

theorem foldlM_each {α β : Type} {f : β → α → Option β} {xs : List α} {start final : β}
    (folded : xs.foldlM f start = some final) : ∀ x ∈ xs, ∃ before after, f before x = some after := by
  induction xs generalizing start with
  | nil =>
      intro x mem
      cases mem
  | cons x rest ih =>
      rw [List.foldlM_cons] at folded
      obtain ⟨next, first, later⟩ := Option.bind_eq_some_iff.mp folded
      intro y mem
      rcases List.mem_cons.mp mem with rfl | mem
      · exact ⟨start, next, first⟩
      · exact ih later y mem

theorem readLines_records {text line : List Char} (mem : line ∈ readLines text) :
    line ∈ records text := by
  unfold readLines at mem
  unfold records
  dsimp only
  split
  · exact mem
  · exact List.dropLast_subset _ mem

def FileRow (fields : List Text) : Prop :=
  fields.head? = some resultTag ∨ fields.head? = some ledgerTag

theorem readRow_file {reading reading' : Reading} {fields : List Text}
    (read : readRow b archive reading fields = some reading') (file : FileRow fields) :
    ∃ kind remote localPath bytes content,
      fields = [kind, remote, localPath, bytes, b.digest content] ∧
      b.file? archive remote = some content ∧ hex 64 (b.digest content) = true ∧
      safeRelativeFilePath remote = true ∧ safeRelativeFilePath localPath = true := by
  have tags : ∀ tag ∈ [resultTag, ledgerTag], tag ≠ schemaTag ∧ tag ≠ attemptTag ∧
      tag ≠ executionTag := by decide
  have other : ∀ {tag rest}, FileRow (tag :: rest) → tag ≠ schemaTag ∧ tag ≠ attemptTag ∧
      tag ≠ executionTag := fun file => tags _ (by simpa [FileRow] using file)
  unfold readRow at read
  split at read
  · rw [if_neg (other file).1, if_neg (other file).2.1] at read
    cases read
  · split at read
    · simp [(other file).2.2] at read
    · cases read
  · rename_i kind remote localPath bytes digest
    split at read
    · unfold readFile at read
      split at read
      · cases read
      · rename_i content found
        split at read
        · rename_i accepted
          simp only [Bool.and_eq_true, decide_eq_true_eq] at accepted
          obtain ⟨⟨⟨⟨⟨⟨⟨⟨⟨-, -⟩, hex⟩, -⟩, safe⟩, safe'⟩, -⟩, -⟩, -⟩, rfl⟩ := accepted
          exact ⟨kind, remote, localPath, bytes, content, rfl, found, hex, safe, safe'⟩
        · cases read
    · cases read
  · cases read

theorem accepted_row (accepted : (validateCollectedPublication b archive).isSome = true)
    {fields : List Text} (mem : fields ∈ loopRows (b.manifest archive)) (file : FileRow fields) :
    ∃ kind remote localPath bytes content,
      fields = [kind, remote, localPath, bytes, b.digest content] ∧
      b.file? archive remote = some content ∧ hex 64 (b.digest content) = true ∧
      safeRelativeFilePath remote = true ∧ safeRelativeFilePath localPath = true := by
  obtain ⟨outcome, eq⟩ := Option.isSome_iff_exists.mp accepted
  obtain ⟨reading, eq, -⟩ := Option.bind_eq_some_iff.mp eq
  obtain ⟨manifest, found, eq⟩ := Option.bind_eq_some_iff.mp eq
  obtain ⟨final, folded, -⟩ := Option.bind_eq_some_iff.mp eq
  have text : b.manifest archive = manifest := by
    unfold Bundle.manifest
    rw [found]
    rfl
  rw [text] at mem
  obtain ⟨line, inside, rfl⟩ := List.mem_map.mp mem
  obtain ⟨before, after, read⟩ := foldlM_each folded _
    (List.mem_map_of_mem (readLines_records inside))
  exact readRow_file read file

theorem copies_file {fields : List Text} (copied : copies fields = true) : FileRow fields := by
  unfold copies at copied
  rw [Bool.or_eq_true, Bool.and_eq_true, decide_eq_true_eq, decide_eq_true_eq] at copied
  exact copied.imp id And.left

theorem copyItem_accepted (suffix : Text)
    (accepted : (validateCollectedPublication b archive).isSome = true) {fields : List Text}
    (mem : fields ∈ loopRows (b.manifest archive)) (copied : copies fields = true) :
    ∃ content, copyItem b archive suffix fields =
        .row (copyDestination suffix fields) (b.digest content) content ∧
      copyDestination suffix fields ≠ [] := by
  obtain ⟨kind, remote, localPath, bytes, content, rfl, source, -, safe, safe'⟩ :=
    accepted_row accepted mem (copies_file copied)
  refine ⟨content, ?_, ?_⟩
  · simp [copyItem, safe, safe', source]
  · have named : localPath ≠ [] := by
      rintro rfl
      exact absurd safe' (by decide)
    unfold copyDestination
    split
    · unfold segmentLocalPath
      split
      · simp
      · exact named
    · exact named

theorem mapM_isSome {α β : Type} {f : α → Option β} {xs : List α}
    (each : ∀ x ∈ xs, (f x).isSome = true) : (xs.mapM f).isSome = true := by
  induction xs with
  | nil => rfl
  | cons x rest ih =>
      obtain ⟨y, first⟩ := Option.isSome_iff_exists.mp (each x List.mem_cons_self)
      obtain ⟨ys, later⟩ := Option.isSome_iff_exists.mp
        (ih fun x mem => each x (List.mem_cons_of_mem _ mem))
      rw [List.mapM_cons, first, later]
      rfl

theorem publishedRows_accepted
    (accepted : (validateCollectedPublication b archive).isSome = true) :
    (publishedRows (b.manifest archive)).isSome = true := by
  apply mapM_isSome
  intro fields mem
  obtain ⟨row, file⟩ := List.mem_filter.mp mem
  rw [Bool.or_eq_true, decide_eq_true_eq, decide_eq_true_eq] at file
  obtain ⟨kind, remote, localPath, bytes, content, rfl, -, hex, -, safe⟩ :=
    accepted_row accepted row file
  simp [hex, safe]

theorem placeOf_ne_nil {path : Text} (named : path ≠ []) : placeOf path ≠ [] := by
  unfold placeOf Coordinator.components
  dsimp only
  split
  · rename_i last
    intro empty
    have single : path.splitOn '/' = [[]] := by
      have parts := List.dropLast_append_getLast? _ last
      rw [empty, List.nil_append] at parts
      exact parts.symm
    have joined := @List.intercalate_splitOn _ path _ _ '/'
    rw [single] at joined
    exact named joined.symm
  · exact List.splitOn_ne_nil _ _

/-! ## A results root that lets an import go on -/

def Item.target : Item → Option (Place × Text)
  | .row path _ content => some (placeOf path, content)
  | .status id content => some (placeOf (cellFile id statusSuffix), content)
  | _ => none

def Beside (x y : Place × Text) : Prop := ¬x.1 <+: y.1 ∧ ¬y.1 <+: x.1

instance : Std.Symm Beside where
  symm _ _ beside := ⟨beside.2, beside.1⟩

def Apart (targets : List (Place × Text)) : Prop := targets.Pairwise Beside

def settled (targets : List (Place × Text)) : Tree := fun place =>
  match targets.find? (·.1 = place) with
  | some target => some (.file target.2)
  | none => if targets.any fun target => place.isPrefixOf target.1 then some .directory else none

variable {targets : List (Place × Text)}

theorem Apart.same (apart : Apart targets) {x y : Place × Text} (mem : x ∈ targets)
    (mem' : y ∈ targets) (below : x.1 <+: y.1) : x = y := by
  by_contra other
  exact (List.Pairwise.forall apart mem mem' other).1 below

theorem settled_file (apart : Apart targets) {target : Place × Text} (mem : target ∈ targets) :
    settled targets target.1 = some (.file target.2) := by
  unfold settled
  cases found : targets.find? (·.1 = target.1) with
  | none =>
      have absent := List.find?_eq_none.mp found target mem
      simp at absent
  | some other =>
      have same := List.find?_some found
      rw [decide_eq_true_eq] at same
      rw [apart.same (List.mem_of_find?_eq_some found) mem (same ▸ List.prefix_rfl)]

theorem settled_above (apart : Apart targets) {target : Place × Text} (mem : target ∈ targets)
    {place : Place} (above : place <+: target.1) (proper : place ≠ target.1) :
    settled targets place = some .directory := by
  unfold settled
  cases found : targets.find? (·.1 = place) with
  | none =>
      rw [if_pos]
      exact List.any_eq_true.mpr ⟨target, mem, List.isPrefixOf_iff_prefix.mpr above⟩
  | some other =>
      have same := List.find?_some found
      rw [decide_eq_true_eq] at same
      have eq := apart.same (List.mem_of_find?_eq_some found) mem (same ▸ above)
      rw [← same, eq] at proper
      exact absurd rfl proper

theorem settled_free {place : Place} (free : ∀ target ∈ targets, ¬target.1 <+: place) :
    settled targets place = none ∨ settled targets place = some .directory := by
  unfold settled
  cases found : targets.find? (·.1 = place) with
  | none => dsimp only; split <;> simp
  | some other =>
      have same := List.find?_some found
      rw [decide_eq_true_eq] at same
      exact absurd (same ▸ List.prefix_rfl) (free other (List.mem_of_find?_eq_some found))

theorem settled_none {place : Place} (free : ∀ target ∈ targets, ¬target.1 <+: place ∧
    ¬place <+: target.1) : settled targets place = none := by
  rcases settled_free fun target mem => (free target mem).1 with none | directory
  · exact none
  · unfold settled at directory
    split at directory
    · cases directory
    · split at directory
      · rename_i above
        obtain ⟨target, mem, below⟩ := List.any_eq_true.mp above
        exact absurd (List.isPrefixOf_iff_prefix.mp below) (free target mem).2
      · cases directory

theorem walk_directories {parts : Place} {done : Place}
    (all : ∀ place, done <+: place → place ≠ done → place <+: done ++ parts →
      tree place = some .directory) : walk true tree done parts = ([], .arrived) := by
  induction parts generalizing done with
  | nil => rfl
  | cons part rest ih =>
      have first := all (done ++ [part]) (List.prefix_append _ _) (by simp) ⟨rest, by simp⟩
      simp only [walk, first]
      apply ih
      intro place above proper below
      apply all place ((List.prefix_append _ _).trans above)
      · rintro rfl
        have := above.length_le
        simp at this
      · simpa using below

theorem walk_arrives {parts : Place} {done : Place}
    (all : ∀ place, done <+: place → place <+: done ++ parts → place ≠ done →
      tree place = none ∨ tree place = some .directory) :
    (walk true tree done parts).2 = .arrived := by
  induction parts generalizing done with
  | nil => rfl
  | cons part rest ih =>
      have later : (walk true tree (done ++ [part]) rest).2 = .arrived := by
        apply ih
        intro place above below proper
        apply all place ((List.prefix_append _ _).trans above) (by simpa using below)
        rintro rfl
        have := above.length_le
        simp at this
      rcases all (done ++ [part]) (List.prefix_append _ _) ⟨rest, by simp⟩ (by simp) with
        first | first
      · simp only [walk, first, if_true]
        exact later
      · simp only [walk, first]
        exact later

def Item.Fits (digest : Text → Text) : Item → Prop
  | .row _ digest' content => digest content = digest'
  | .status .. => True
  | _ => False

theorem settled_walk (apart : Apart targets) {target : Place × Text} (mem : target ∈ targets) :
    walk true (settled targets) [] target.1.dropLast = ([], .arrived) := by
  apply walk_directories
  intro place _ proper below
  rw [List.nil_append] at below
  apply settled_above apart mem (below.trans (List.dropLast_prefix _))
  rintro rfl
  have length := below.length_le
  rw [List.length_dropLast] at length
  have positive := List.length_pos_of_ne_nil proper
  omega

theorem settled_perform (apart : Apart targets) {item : Item} (fits : item.Fits digest)
    {target : Place × Text} (eq : item.target = some target) (mem : target ∈ targets) :
    (item.perform digest (settled targets)).2 = true ∧
      (item.perform digest (settled targets)).1.foldl Effect.apply (settled targets) =
        settled targets := by
  have parents := settled_walk apart mem
  have file := settled_file apart mem
  cases item with
  | superseded => cases fits
  | refused => cases fits
  | row path digest' content =>
      cases eq
      simp only [Item.perform, copyRow, parents, file]
      exact ⟨decide_eq_true fits, rfl⟩
  | status id content =>
      cases eq
      simp only [Item.perform, copyStatus, parents, file]
      by_cases success : isSuccess content = true
      · simp [success]
      · rw [if_neg success]
        refine ⟨rfl, ?_⟩
        simp only [List.nil_append, List.foldl_cons, List.foldl_nil, Effect.apply]
        rw [← file, Function.update_eq_self]

theorem settled_creates {item : Item} {target : Place × Text} (fits : item.Fits digest)
    (eq : item.target = some target) (nonempty : target.1 ≠ [])
    (beside : ∀ other ∈ targets, Beside other target) :
    .write target.1 target.2 ∈ (item.perform digest (settled targets)).1 := by
  have none := settled_none beside
  have parents : (walk true (settled targets) [] target.1.dropLast).2 = .arrived := by
    apply walk_arrives
    intro place _ below _
    rw [List.nil_append] at below
    exact settled_free fun other mem above =>
      (beside other mem).1 (above.trans (below.trans (List.dropLast_prefix _)))
  generalize walked : walk true (settled targets) [] target.1.dropLast = walked' at parents
  obtain ⟨effects, result⟩ := walked'
  cases parents
  cases item with
  | superseded => cases fits
  | refused => cases fits
  | row path digest' content =>
      cases eq
      simp only [Item.perform, copyRow, walked, none]
      exact List.mem_append_right _ List.mem_cons_self
  | status id content =>
      cases eq
      simp only [Item.perform, copyStatus, walked, none]
      exact List.mem_append_right _ List.mem_cons_self

theorem performAll_reaches (rest : List Item) (apart : Apart targets) {items : List Item}
    {item : Item}
    (each : ∀ item ∈ items, item.Fits digest ∧ ∃ target ∈ targets, item.target = some target) :
    ∀ effect ∈ (item.perform digest (settled targets)).1,
      effect ∈ performAll digest (settled targets) (items ++ item :: rest) := by
  intro effect mem
  induction items with
  | nil => exact List.mem_append_left _ mem
  | cons first items ih =>
      obtain ⟨fits, target, inside, eq⟩ := each first List.mem_cons_self
      obtain ⟨go, same⟩ := settled_perform apart fits eq inside
      rw [List.cons_append, performAll_cons, if_pos go, same]
      exact List.mem_append_right _ (ih fun item mem => each item (List.mem_cons_of_mem _ mem))

def firstSite (tree : Tree) (suffix : Text) : Site where
  tree := tree
  suffix := suffix
  sameBatch := true
  priors := []
  aggregates := []
  order paths := paths
  order_perm _ := .refl _

def importItems (b : Bundle) (archive : Archive) (suffix : Text) : List Item :=
  copyItems b archive suffix (b.manifest archive) ++ statusItems b archive

theorem importItems_fit (suffix : Text)
    (accepted : (validateCollectedPublication b archive).isSome = true) :
    ∀ item ∈ importItems b archive suffix, item.Fits b.digest ∧
      ∃ target, item.target = some target ∧ target.1 ≠ [] := by
  intro item mem
  rcases List.mem_append.mp mem with mem | mem
  · obtain ⟨fields, inside, rfl⟩ := List.mem_map.mp mem
    obtain ⟨row, copied⟩ := List.mem_filter.mp inside
    obtain ⟨content, eq, nonempty⟩ := copyItem_accepted suffix accepted row copied
    rw [eq]
    exact ⟨rfl, _, rfl, placeOf_ne_nil nonempty⟩
  · obtain ⟨id, inside, eq⟩ := List.mem_filterMap.mp mem
    obtain ⟨content, _, rfl⟩ := Option.map_eq_some_iff.mp eq
    refine ⟨trivial, _, rfl, placeOf_ne_nil fun empty => ?_⟩
    rw [cellFile_split] at empty
    exact absurd (congrArg List.length empty) (by simp)

theorem own_of_confined {suffix : Text} (attempt : hex 8 b.attemptId = true)
    (accepted : (validateCollectedPublication b archive).isSome = true)
    (apart : Apart ((importItems b archive suffix).filterMap Item.target))
    (confined : ∀ tree, Confined names b (firstSite tree suffix)
      (mergeCollectedResults b archive (firstSite tree suffix))) :
    ∀ item ∈ importItems b archive suffix, ∀ target, item.target = some target →
      Own names b [suffix] target.1 := by
  intro item mem target eq
  obtain ⟨before, after, split⟩ := List.append_of_mem mem
  have fit := importItems_fit suffix accepted
  let targets := before.filterMap Item.target
  rw [split, List.filterMap_append, List.filterMap_cons, eq] at apart
  obtain ⟨apart', -, beside⟩ := List.pairwise_append.mp apart
  have each : ∀ item ∈ before, item.Fits b.digest ∧ ∃ target ∈ targets, item.target = some target := by
    intro item mem
    obtain ⟨fits, target, eq, -⟩ := fit item (split ▸ List.mem_append_left _ mem)
    exact ⟨fits, target, List.mem_filterMap.mpr ⟨item, mem, eq⟩, eq⟩
  obtain ⟨fits, target', eq', nonempty⟩ := fit item mem
  obtain rfl := Option.some.inj (eq.symm.trans eq')
  have created := settled_creates fits eq nonempty
    fun other mem => beside other mem target List.mem_cons_self
  have reached := performAll_reaches after apart' each _ created
  rw [← split] at reached
  have merged : mergeCollectedResults b archive (firstSite (settled targets) suffix) =
      performAll b.digest (settled targets) (importItems b archive suffix) := by
    obtain ⟨rows, published⟩ := Option.isSome_iff_exists.mp (publishedRows_accepted accepted)
    have nothing : removals b (firstSite (settled targets) suffix) (b.manifest archive) =
        some [] := by
      unfold removals currentDigests
      rw [published]
      rfl
    have manifest : (b.file? archive manifestName).getD [] = b.manifest archive := rfl
    unfold mergeCollectedResults
    dsimp only
    rw [if_pos (by rw [attempt]; rfl), manifest, nothing]
    rfl
  have facts := confined (settled targets) (.write target.1 target.2) (merged ▸ reached)
  exact facts

/-- An import stays inside the files of the attempt where its publication and the earlier ones
name no other; unless its own destinations obstruct each other, only then. -/
theorem import_confined (names : Artifacts) (suffix : Text)
    (attempt : hex 8 b.attemptId = true)
    (accepted : (validateCollectedPublication b archive).isSome = true) :
    (∀ site, Contained names b archive site →
      Confined names b site (mergeCollectedResults b archive site) ∧
        ∀ effect ∈ mergeCollectedResults b archive site,
          effect.place.head? ≠ some kubernetesName ∧
            ((∃ place, effect = .mkdir place) ∨ ¬Reserved (· ∈ b.executions) effect.place)) ∧
    (Apart ((importItems b archive suffix).filterMap Item.target) →
      (∀ tree, Confined names b (firstSite tree suffix)
        (mergeCollectedResults b archive (firstSite tree suffix))) →
        ∀ tree, Contained names b archive (firstSite tree suffix)) := by
  refine ⟨fun site contained => ?_, fun apart confined tree => ?_⟩
  · have confined := merge_confined contained
    exact ⟨confined, confined.untouched⟩
  · have own := own_of_confined attempt accepted apart confined
    constructor
    · intro fields mem copied
      obtain ⟨content, eq, -⟩ := copyItem_accepted suffix accepted mem copied
      have inside : copyItem b archive suffix fields ∈ importItems b archive suffix :=
        List.mem_append_left _ (List.mem_map_of_mem (List.mem_filter.mpr ⟨mem, copied⟩))
      rw [eq] at inside
      exact own _ inside _ rfl
    · intro id mem
      obtain ⟨valid, content, found⟩ : isCellId id = true ∧
          ∃ content, b.file? archive (cellFile id statusSuffix) = some content := by
        unfold Archive.statusIds at mem
        have among := List.mem_dedup.mp ((List.mem_insertionSort _).mp mem)
        obtain ⟨member, _, eq⟩ := List.mem_filterMap.mp among
        dsimp only at eq
        split at eq
        · rename_i facts
          obtain rfl := Option.some.inj eq
          rw [Bool.and_eq_true, Bool.and_eq_true] at facts
          exact ⟨facts.1.1, Option.isSome_iff_exists.mp facts.2⟩
        · cases eq
      have inside : Item.status id content ∈ importItems b archive suffix := by
        apply List.mem_append_right
        exact List.mem_filterMap.mpr ⟨id, mem, by rw [found]; rfl⟩
      by_contra foreign
      exact (own _ inside _ rfl).not_reserved (.inr (.inr ⟨id, valid, .inr ⟨foreign,
        statusSuffix, by decide, rfl⟩⟩))
    · intro prior mem
      cases mem

/-! ## An archive of a cancelled attempt with one execution -/

def sampleDigest (content : Text) : Text :=
  if content = [] then "e3b0c44298fc1c149afbf4c8996fb92427ae41e4649b934ca495991b7852b855".toList
  else if content = pendingWord ++ ['\n'] then "45fc7ab706e6fb509993b6fcae9d4d423c96f8e840c8f64c1a61f5c817c8a870".toList
  else "d63a92c9ed356625ca865a714756773ae043187c8723715f9271523c0d4454d5".toList

def oneId : Text := "0001".toList

def oneCell : Bundle where
  attemptId := "1234abcd".toList
  executions := [oneId]
  numbered := by decide
  requires _ := some false
  batch := none
  digest := sampleDigest

def tabbed (fields : List Text) : Text := fields.intersperse ['\t'] |>.flatten

def fileRow (role remote localPath content : Text) : Text :=
  tabbed [role, remote, localPath, Nat.toDigits 10 content.length, sampleDigest content]

def cancelledRows : List Text :=
  [tabbed [schemaTag, ['1']], tabbed [attemptTag, oneCell.attemptId],
    tabbed [executionTag, oneId, pendingWord],
    fileRow ledgerTag runStatusPath runStatusPath (cancelledWord ++ ['\n']),
    fileRow ledgerTag summaryPath summaryPath [],
    fileRow ledgerTag (cellFile oneId statusSuffix) (cellFile oneId statusSuffix)
      (pendingWord ++ ['\n'])] ++
    (snapshotPaths oneCell).map fun path => fileRow snapshotTag path path []

def stateFiles (rows : List Text) : List (Text × Text) :=
  [(runStatusPath, cancelledWord ++ ['\n']), (summaryPath, []),
    (cellFile oneId statusSuffix, pendingWord ++ ['\n']), (manifestName, unlines rows)] ++
    (snapshotPaths oneCell).map (·, [])

def archiveOf (files : List (Text × Text)) : Archive :=
  ⟨files.map fun file => (stateStart oneCell.attemptId ++ file.1, .regular file.2)⟩

def cancelled : Archive := archiveOf (stateFiles cancelledRows)

def journalPath : Text := kubernetesName ++ "/active-attempt".toList

def otherId : Text := "0002".toList

/-- The same, with a result below `kubernetes/` and the status of another execution. -/
def hostile : Archive :=
  archiveOf (stateFiles (cancelledRows ++
      [fileRow resultTag (resultsStart ++ (oneId ++ '/' :: journalPath)) journalPath []]) ++
    [(resultsStart ++ (oneId ++ '/' :: journalPath), []),
      (cellFile otherId statusSuffix, pendingWord ++ ['\n'])])

def noArtifacts : Artifacts := ⟨fun _ _ => False, fun _ _ absurd => absurd.elim⟩

theorem cancelled_contained :
    Contained noArtifacts oneCell cancelled (firstSite (fun _ => none) []) where
  rows fields mem copied := by
    have destinations : ((loopRows (oneCell.manifest cancelled)).filter copies).map
        (copyDestination []) = [runStatusPath, summaryPath] := by decide +kernel
    have inside : copyDestination [] fields ∈ [runStatusPath, summaryPath] :=
      destinations ▸ List.mem_map_of_mem (List.mem_filter.mpr ⟨mem, copied⟩)
    simp only [List.mem_cons, List.not_mem_nil, or_false] at inside
    change Own noArtifacts oneCell [[]] (placeOf (copyDestination [] fields))
    rcases inside with eq | eq <;> rw [eq]
    · exact .inl ⟨("run".toList, "status".toList), by decide, [], by decide, by decide +kernel⟩
    · exact .inl ⟨("run-summary".toList, "tsv".toList), by decide, [], by decide, by decide +kernel⟩
  statuses id mem := by
    have ids : cancelled.statusIds oneCell.attemptId = [oneId] := by decide +kernel
    rw [ids] at mem
    exact mem
  priors prior mem := by cases mem

theorem import_confined_sample :
    mergeCollectedResults oneCell cancelled (firstSite (fun _ => none) []) =
      [.write (placeOf runStatusPath) (cancelledWord ++ ['\n']), .write (placeOf summaryPath) [],
        .mkdir [executionsName],
        .write (placeOf (cellFile oneId statusSuffix)) (pendingWord ++ ['\n'])] ∧
    Confined noArtifacts oneCell (firstSite (fun _ => none) [])
      (mergeCollectedResults oneCell cancelled (firstSite (fun _ => none) [])) := by
  constructor
  · decide +kernel
  · exact ((import_confined noArtifacts [] (by decide +kernel) (by decide +kernel)).1 _
      cancelled_contained).1

/-- The archive is accepted, and its import writes below `kubernetes/` and the status of an
execution that is none of the attempt. -/
theorem hostile_import :
    archiveNamesAccepted oneCell.attemptId 100 hostile = true ∧
      (validateCollectedPublication oneCell hostile).isSome = true ∧
      .write (placeOf journalPath) [] ∈
        mergeCollectedResults oneCell hostile (firstSite (fun _ => none) []) ∧
      (placeOf journalPath).head? = some kubernetesName ∧ otherId ∉ oneCell.executions ∧
      .write (placeOf (cellFile otherId statusSuffix)) (pendingWord ++ ['\n']) ∈
        mergeCollectedResults oneCell hostile (firstSite (fun _ => none) []) := by
  decide +kernel

end StorageScaleTest.Import
