import StorageScaleTest.Workload.Metadata
import StorageScaleTest.Proof.Sizing.Decimal
import Mathlib.Data.List.Perm.Basic

/-!
# Workload metadata survives its file

What is written is loaded again, under both schemas.
-/

namespace StorageScaleTest.Workload
open Shell Samples Sizing Decimal

/-! ## The schema -/

theorem keys_plain : ∀ key ∈ keys, key ≠ [] ∧ '\t' ∉ key ∧ '\n' ∉ key := by decide +kernel

theorem keys_nodup : keys.Nodup := by decide +kernel

theorem words_plain : ∀ word ∈ validWords, word ≠ [] ∧ '\t' ∉ word ∧ '\n' ∉ word := by
  decide +kernel

theorem null_valid : "null".toList ∈ validWords := List.mem_cons_self

def legacyKeys : List (List Char) := keys.filter (· ∉ legacyDefaults.map Prod.fst)

theorem legacyDefaults_valid : ∀ pair ∈ legacyDefaults, pair.1 ∈ keys ∧ valueIsValid pair.2 := by
  decide +kernel

theorem legacyKeys_perm : (legacyKeys ++ legacyDefaults.map Prod.fst).Perm keys := by
  decide +kernel

theorem legacyKeys_length : legacyKeys.length = 26 := by
  have length := legacyKeys_perm.length_eq
  rw [List.length_append] at length
  exact Nat.add_right_cancel length

theorem legacy_nodup : (legacyKeys ++ legacyDefaults.map Prod.fst).Nodup :=
  legacyKeys_perm.nodup_iff.mpr keys_nodup

theorem mem_legacyKeys {key : List Char} (mem : key ∈ legacyKeys) : key ∈ keys :=
  List.mem_of_mem_filter mem

theorem value_plain {value : List Char} (valid : valueIsValid value) :
    value ≠ [] ∧ '\t' ∉ value ∧ '\n' ∉ value := by
  rcases valid with digits | word
  · obtain ⟨some_, all⟩ := isDigits_iff.mp digits
    refine ⟨some_, fun mem => ?_, fun mem => ?_⟩
    · exact absurd (all _ mem) (by decide)
    · exact absurd (all _ mem) (by decide)
  · exact words_plain value word

/-! ## Lines -/

theorem readFields_line {key value : List Char} (named : key ≠ [] ∧ '\t' ∉ key)
    (valued : value ≠ [] ∧ '\t' ∉ value) : readFields (line key value) = (key, value, []) := by
  obtain ⟨c, key, rfl⟩ := List.exists_cons_of_ne_nil named.1
  obtain ⟨d, value, rfl⟩ := List.exists_cons_of_ne_nil valued.1
  have first : ∀ e ∈ c :: key, (decide (e ≠ '\t')) = true := fun e mem =>
    decide_eq_true fun same => named.2 (same ▸ mem)
  have second : ∀ e ∈ d :: value, (decide (e ≠ '\t')) = true := fun e mem =>
    decide_eq_true fun same => valued.2 (same ▸ mem)
  have headKey : ¬c = '\t' := of_decide_eq_true (first c List.mem_cons_self)
  have headValue : ¬d = '\t' := of_decide_eq_true (second d List.mem_cons_self)
  have start : (line (c :: key) (d :: value)).dropWhile (· = '\t') = line (c :: key) (d :: value) := by
    simp [line, headKey]
  have name : (line (c :: key) (d :: value)).takeWhile (· ≠ '\t') = c :: key := by
    rw [line, List.takeWhile_append_of_pos first]
    simp
  have rest : ((line (c :: key) (d :: value)).dropWhile (· ≠ '\t')).dropWhile (· = '\t') =
      d :: value := by
    rw [line, List.dropWhile_append_of_pos first]
    simp [headValue]
  unfold readFields
  simp only [start, name, rest, List.takeWhile_eq_self_iff.mpr second,
    List.dropWhile_eq_nil_iff.mpr second]
  rfl

def fileText (pairs : List (List Char × List Char)) : List Char :=
  unlines (pairs.map fun pair => line pair.1 pair.2)

def Entries (pairs : List (List Char × List Char)) : Prop :=
  ∀ pair ∈ pairs, pair.1 ∈ keys ∧ valueIsValid pair.2

theorem readLines_fileText {pairs : List (List Char × List Char)} (entries : Entries pairs) :
    readLines (fileText pairs) = pairs.map fun pair => line pair.1 pair.2 := by
  apply readLines_unlines
  intro text mem
  obtain ⟨pair, inside, rfl⟩ := List.mem_map.mp mem
  obtain ⟨key, value⟩ := entries pair inside
  intro newline
  rcases List.mem_append.mp newline with inKey | rest
  · exact (keys_plain _ key).2.2 inKey
  · rcases List.mem_cons.mp rest with tab | inValue
    · exact absurd tab (by decide)
    · exact (value_plain value).2.2 inValue

theorem loadLine_line {metadata : Metadata} {key value : List Char} (named : key ∈ keys)
    (valid : valueIsValid value) (fresh : metadata.get key = none) :
    loadLine metadata (line key value) = some (metadata.set key value) := by
  obtain ⟨some_, plain, -⟩ := keys_plain key named
  obtain ⟨valued, plain', -⟩ := value_plain valid
  have known : keyIsValid key := named
  rw [loadLine, readFields_line ⟨some_, plain⟩ ⟨valued, plain'⟩]
  simp only [some_, known, fresh, valid, not_true_eq_false, ne_eq, or_self, if_false,
    Option.isSome_none, Bool.false_eq_true]

theorem load_lines {pairs : List (List Char × List Char)} (entries : Entries pairs)
    (distinct : (pairs.map Prod.fst).Nodup) {metadata : Metadata}
    (fresh : ∀ pair ∈ pairs, metadata.get pair.1 = none) :
    (pairs.map fun pair => line pair.1 pair.2).foldlM loadLine metadata =
      some (metadata.setAll pairs) := by
  induction pairs generalizing metadata with
  | nil => rfl
  | cons pair pairs ih =>
      obtain ⟨absent, distinct⟩ := List.nodup_cons.mp distinct
      obtain ⟨⟨named, valid⟩, entries⟩ := List.forall_mem_cons.mp entries
      obtain ⟨first, fresh⟩ := List.forall_mem_cons.mp fresh
      rw [List.map_cons, List.foldlM_cons, loadLine_line named valid first]
      apply ih entries distinct
      intro other mem
      have differ : other.1 ≠ pair.1 := by
        intro same
        rw [← same] at absent
        exact absent (List.mem_map_of_mem mem)
      rw [Dict.get_set_of_ne _ _ differ]
      exact fresh other mem

theorem add_defaults {pairs : List (List Char × List Char)} (distinct : (pairs.map Prod.fst).Nodup)
    {metadata : Metadata} (fresh : ∀ pair ∈ pairs, metadata.get pair.1 = none) :
    pairs.foldlM addDefault metadata = some (metadata.setAll pairs) := by
  induction pairs generalizing metadata with
  | nil => rfl
  | cons pair pairs ih =>
      obtain ⟨absent, distinct⟩ := List.nodup_cons.mp distinct
      obtain ⟨first, fresh⟩ := List.forall_mem_cons.mp fresh
      rw [List.foldlM_cons, addDefault, first, Option.isSome_none, if_neg Bool.false_ne_true]
      apply ih distinct
      intro other mem
      have differ : other.1 ≠ pair.1 := by
        intro same
        rw [← same] at absent
        exact absent (List.mem_map_of_mem mem)
      rw [Dict.get_set_of_ne _ _ differ]
      exact fresh other mem

/-! ## Loading -/

theorem keys_setAll (pairs : List (List Char × List Char)) (metadata : Metadata) :
    (metadata.setAll pairs).keys = metadata.keys ∪ (pairs.map Prod.fst).toFinset := by
  induction pairs generalizing metadata with
  | nil => simp [Dict.setAll]
  | cons pair pairs ih =>
      change ((metadata.set pair.1 pair.2).setAll pairs).keys = _
      rw [ih, List.map_cons, List.toFinset_cons]
      ext key
      simp [Dict.set]

theorem card_setAll {pairs : List (List Char × List Char)} (distinct : (pairs.map Prod.fst).Nodup) :
    ((Dict.empty : Metadata).setAll pairs).keys.card = pairs.length := by
  rw [keys_setAll, show (Dict.empty : Metadata).keys = ∅ from rfl, Finset.empty_union,
    List.toFinset_card_of_nodup distinct, List.length_map]

theorem load_current {files : Files} {path : List Char} {pairs : List (List Char × List Char)}
    (content : files path = some (fileText pairs)) (entries : Entries pairs)
    (named : (pairs.map Prod.fst).Perm keys) :
    workloadLoad files path = some ⟨path, Dict.empty.setAll pairs⟩ := by
  have distinct := named.nodup_iff.mpr keys_nodup
  have length : pairs.length = 34 := by
    have same := named.length_eq
    rwa [List.length_map] at same
  rw [workloadLoad, content]
  simp only [Option.bind_eq_bind, Option.bind_some, readLines_fileText entries,
    @load_lines pairs entries distinct Dict.empty fun _ _ => rfl, card_setAll distinct,
    length]
  rfl

theorem load_legacy {files : Files} {path : List Char} {pairs : List (List Char × List Char)}
    (content : files path = some (fileText pairs)) (valid : ∀ pair ∈ pairs, valueIsValid pair.2)
    (named : (pairs.map Prod.fst).Perm legacyKeys) :
    workloadLoad files path = some ⟨path, Dict.empty.setAll (pairs ++ legacyDefaults)⟩ := by
  have entries : Entries pairs := fun pair mem =>
    ⟨mem_legacyKeys (named.mem_iff.mp (List.mem_map_of_mem mem)), valid pair mem⟩
  obtain ⟨early, late, apart⟩ := List.nodup_append.mp legacy_nodup
  have distinct := named.nodup_iff.mpr early
  have length : pairs.length = 26 := by
    have same := named.length_eq
    rwa [List.length_map, legacyKeys_length] at same
  have fresh : ∀ pair ∈ legacyDefaults, ((Dict.empty : Metadata).setAll pairs).get pair.1 = none := by
    intro pair mem
    rw [Dict.get_setAll_of_notMem]
    · rfl
    · intro value inside
      have key := named.mem_iff.mp (List.mem_map_of_mem (f := Prod.fst) inside)
      exact apart pair.1 key pair.1 (List.mem_map_of_mem mem) rfl
  rw [workloadLoad, content]
  simp only [Option.bind_eq_bind, Option.bind_some, readLines_fileText entries,
    @load_lines pairs entries distinct Dict.empty fun _ _ => rfl, card_setAll distinct,
    length, if_true, add_defaults late fresh]
  rw [Dict.setAll, Dict.setAll, Dict.setAll, List.foldl_append]

/-! ## Metadata of the schema -/

def Valid (metadata : Metadata) : Prop :=
  ∀ key value, metadata.get key = some value → key ∈ keys ∧ valueIsValid value

theorem valid_empty : Valid Dict.empty := fun _ _ found => absurd found (by simp)

theorem Valid.set {metadata : Metadata} (valid : Valid metadata) {key value : List Char}
    (named : key ∈ keys) (allowed : valueIsValid value) : Valid (metadata.set key value) := by
  intro other found entry
  rw [Dict.get_set] at entry
  split at entry
  · rename_i same
    obtain rfl := Option.some.inj entry
    exact ⟨same ▸ named, allowed⟩
  · exact valid other found entry

theorem loadLine_valid {metadata loaded : Metadata} {text : List Char} (valid : Valid metadata)
    (read : loadLine metadata text = some loaded) : Valid loaded := by
  unfold loadLine at read
  generalize readFields text = parts at read
  obtain ⟨key, value, extra⟩ := parts
  dsimp only at read
  split_ifs at read with empty unknown present invalid
  obtain rfl := Option.some.inj read
  exact valid.set unknown invalid

theorem load_valid {texts : List (List Char)} {metadata loaded : Metadata} (valid : Valid metadata)
    (read : texts.foldlM loadLine metadata = some loaded) : Valid loaded := by
  induction texts generalizing metadata with
  | nil =>
      obtain rfl := Option.some.inj read
      exact valid
  | cons text texts ih =>
      rw [List.foldlM_cons] at read
      obtain ⟨next, first, rest⟩ := Option.bind_eq_some_iff.mp read
      exact ih (loadLine_valid valid first) rest

theorem addDefaults_valid {pairs : List (List Char × List Char)} {metadata loaded : Metadata}
    (entries : Entries pairs) (valid : Valid metadata)
    (read : pairs.foldlM addDefault metadata = some loaded) :
    Valid loaded ∧ loaded.keys.card = metadata.keys.card + pairs.length := by
  induction pairs generalizing metadata with
  | nil =>
      obtain rfl := Option.some.inj read
      exact ⟨valid, rfl⟩
  | cons pair pairs ih =>
      obtain ⟨⟨named, allowed⟩, entries⟩ := List.forall_mem_cons.mp entries
      rw [List.foldlM_cons] at read
      obtain ⟨next, first, rest⟩ := Option.bind_eq_some_iff.mp read
      unfold addDefault at first
      split_ifs at first with present
      obtain rfl := Option.some.inj first
      obtain ⟨kept, card⟩ := ih entries (valid.set named allowed) rest
      refine ⟨kept, ?_⟩
      have absent : pair.1 ∉ metadata.keys := by
        rw [metadata.mem_keys]
        exact present
      rw [card, Dict.set, Finset.card_insert_of_notMem absent, List.length_cons]
      omega

theorem load_complete {files : Files} {path : List Char} {workload : State}
    (loaded : workloadLoad files path = some workload) :
    workload.path = path ∧ Valid workload.metadata ∧
      ∀ key ∈ keys, ∃ value, workload.metadata.get key = some value := by
  unfold workloadLoad at loaded
  obtain ⟨content, -, loaded⟩ := Option.bind_eq_some_iff.mp loaded
  obtain ⟨metadata, read, loaded⟩ := Option.bind_eq_some_iff.mp loaded
  have valid := load_valid valid_empty read
  obtain ⟨filled, rfl, whole, card⟩ : ∃ filled : Metadata, workload = ⟨path, filled⟩ ∧
      Valid filled ∧ filled.keys.card = 34 := by
    split_ifs at loaded with early many
    · obtain ⟨filled, added, same⟩ := Option.bind_eq_some_iff.mp loaded
      obtain ⟨whole, card⟩ := addDefaults_valid legacyDefaults_valid valid added
      rw [early] at card
      exact ⟨filled, (Option.some.inj same).symm, whole, card⟩
    · exact absurd loaded (by simp)
    · exact ⟨metadata, (Option.some.inj loaded).symm, valid, not_not.mp many⟩
  refine ⟨rfl, whole, fun key mem => ?_⟩
  have inside : filled.keys ⊆ keys.toFinset := by
    intro other found
    obtain ⟨value, entry⟩ := Option.isSome_iff_exists.mp ((filled.mem_keys other).mp found)
    exact List.mem_toFinset.mpr (whole other value entry).1
  have all : filled.keys = keys.toFinset := by
    apply Finset.eq_of_subset_of_card_le inside
    rw [card, List.toFinset_card_of_nodup keys_nodup]
    exact le_refl 34
  apply Option.isSome_iff_exists.mp
  rw [← filled.mem_keys, all]
  exact List.mem_toFinset.mpr mem

/-! ## Writing -/

def written (metadata : Metadata) : List (List Char × List Char) :=
  keys.map fun key => (key, (metadata.get key).getD "null".toList)

theorem written_entries {metadata : Metadata} (valid : Valid metadata) :
    Entries (written metadata) := by
  intro pair mem
  obtain ⟨key, named, rfl⟩ := List.mem_map.mp mem
  refine ⟨named, ?_⟩
  cases entry : metadata.get key with
  | none => exact .inr null_valid
  | some value => exact (valid key value entry).2

theorem written_keys (metadata : Metadata) : (written metadata).map Prod.fst = keys := by
  rw [written, List.map_map]
  exact List.map_id _

theorem fileText_cons (key value : List Char) (pairs : List (List Char × List Char)) :
    fileText ((key, value) :: pairs) = line key value ++ ['\n'] ++ fileText pairs := rfl

theorem valueOrNull_eq {metadata : Metadata} (valid : Valid metadata) (key : List Char) :
    valueOrNull metadata key = (metadata.get key).getD "null".toList := by
  unfold valueOrNull
  cases entry : metadata.get key with
  | none => rfl
  | some value =>
      obtain ⟨c, value, rfl⟩ :=
        List.exists_cons_of_ne_nil (value_plain (valid key value entry).2).1
      rfl

theorem appendKeys_text {faults : Faults} {metadata : Metadata} (valid : Valid metadata)
    {names : List (List Char)} {position : Nat} {content result : List Char}
    (complete : appendKeys faults metadata names position content = (true, result)) :
    result = content ++
      fileText (names.map fun key => (key, (metadata.get key).getD "null".toList)) := by
  induction names generalizing position content with
  | nil =>
      obtain rfl := (Prod.mk.inj complete).2
      exact (List.append_nil _).symm
  | cons key names ih =>
      rw [appendKeys] at complete
      simp only [valueOrNull_eq valid] at complete
      split_ifs at complete with failed
      · exact absurd (Prod.mk.inj complete).1 Bool.false_ne_true
      · rw [ih complete, List.map_cons, fileText_cons, List.append_assoc, List.append_assoc,
          List.append_assoc]

theorem write_true {faults : Faults} {unique : List Char} {workload : State} {files files' : Files}
    (valid : Valid workload.metadata)
    (wrote : workloadWrite faults unique workload files = (true, files')) :
    files' workload.path = some (fileText (written workload.metadata)) := by
  unfold workloadWrite at wrote
  split at wrote
  · exact absurd (Prod.mk.inj wrote).1 Bool.false_ne_true
  · cases appended : appendKeys faults workload.metadata keys 0 [] with
    | mk complete content =>
        rw [appended] at wrote
        dsimp only at wrote
        split at wrote
        · exact absurd (Prod.mk.inj wrote).1 Bool.false_ne_true
        · rename_i failed
          obtain rfl : complete = true := not_not.mp (not_or.mp failed).1
          obtain rfl := (Prod.mk.inj wrote).2
          rw [Files.put, if_pos rfl, appendKeys_text valid appended, List.nil_append]
          rfl

theorem write_false {faults : Faults} {unique : List Char} {workload : State} {files files' : Files}
    (failed : workloadWrite faults unique workload files = (false, files')) {path : List Char}
    (other : path ≠ temporary workload.path unique) : files' path = files path := by
  unfold workloadWrite at failed
  split at failed
  · rw [(Prod.mk.inj failed).2]
  · cases appended : appendKeys faults workload.metadata keys 0 [] with
    | mk complete content =>
        rw [appended] at failed
        dsimp only at failed
        split at failed
        · rw [← (Prod.mk.inj failed).2]
          split
          · exact if_neg other
          · exact if_neg other
        · exact absurd (Prod.mk.inj failed).1.symm Bool.false_ne_true

theorem temporary_ne (path unique : List Char) : path ≠ temporary path unique := by
  intro same
  have length := congrArg List.length same
  rw [temporary, List.length_append, List.length_append] at length
  have more : ".tmp.".toList.length = 5 := rfl
  omega

theorem get_written {metadata : Metadata} {key : List Char} (named : key ∈ keys) :
    ((Dict.empty : Metadata).setAll (written metadata)).get key =
      some ((metadata.get key).getD "null".toList) := by
  apply Dict.get_setAll_of_mem
  · exact List.mem_map_of_mem named
  · intro value mem
    obtain ⟨other, -, same⟩ := List.mem_map.mp mem
    obtain ⟨rfl, rfl⟩ := Prod.mk.inj same
    rfl

theorem load_write {faults : Faults} {unique : List Char} {workload : State} {files files' : Files}
    (valid : Valid workload.metadata)
    (wrote : workloadWrite faults unique workload files = (true, files')) :
    ∃ loaded, workloadLoad files' workload.path = some loaded ∧ loaded.path = workload.path ∧
      ∀ key ∈ keys, loaded.metadata.get key =
        some ((workload.metadata.get key).getD "null".toList) := by
  refine ⟨_, load_current (write_true valid wrote) (written_entries valid) ?_, rfl,
    fun key named => get_written named⟩
  rw [written_keys]

theorem appendKeys_complete {metadata : Metadata} (valid : Valid metadata) {faults : Faults}
    (sound : ∀ position, faults.append position = false) (names : List (List Char)) (position : Nat)
    (content : List Char) : (appendKeys faults metadata names position content).1 = true := by
  induction names generalizing position content with
  | nil => rfl
  | cons key names ih =>
      have allowed : valueIsValid ((metadata.get key).getD "null".toList) := by
        cases entry : metadata.get key with
        | none => exact .inr null_valid
        | some value => exact (valid key value entry).2
      rw [appendKeys]
      simp only [valueOrNull_eq valid, allowed, sound, not_true_eq_false, Bool.false_eq_true,
        or_self, if_false]
      exact ih _ _

structure Faults.Absent (faults : Faults) : Prop where
  mkdir : faults.mkdir = false
  create : faults.create = false
  append : ∀ position, faults.append position = false
  rename : faults.rename = false

theorem write_succeeds {faults : Faults} {unique : List Char} {workload : State} {files : Files}
    (valid : Valid workload.metadata) (named : workload.path ≠ []) (sound : faults.Absent) :
    (workloadWrite faults unique workload files).1 = true := by
  have complete := appendKeys_complete valid sound.append keys 0 []
  unfold workloadWrite
  cases appended : appendKeys faults workload.metadata keys 0 [] with
  | mk whole content =>
      rw [appended] at complete
      obtain rfl : whole = true := complete
      simp [named, sound.mkdir, sound.create, sound.rename]

/-! ## Calls -/

def settled (value : List Char) : List Char := if isDigits value then canonical value else value

def assigned (key : List Char) (calls : List (List Char × List Char)) : List Char :=
  calls.foldl (fun value call => if call.1 = key ∧ valueIsValid call.2 then settled call.2 else value)
    "null".toList

/-- A sequence of calls, of which those with an error change nothing. -/
def setCalls (workload : State) (calls : List (List Char × List Char)) : State :=
  calls.foldl (fun workload call => (workloadSet workload call.1 call.2).getD workload) workload

theorem settled_valid {value : List Char} (valid : valueIsValid value) :
    valueIsValid (settled value) := by
  unfold settled
  split
  · rename_i digits
    have all := (isDigits_iff.mp digits).2
    left
    rw [canonical_eq all]
    exact isDigits_true _
  · exact valid

theorem workloadSet_of {workload : State} {key value : List Char} (named : key ∈ keys)
    (valid : valueIsValid value) : workloadSet workload key value =
      some { workload with metadata := workload.metadata.set key (settled value) } := by
  have known : keyIsValid key := named
  have stored : storedValue value = some (settled value) := by
    unfold storedValue settled
    split
    · rename_i digits
      rw [decimalCanonicalize, if_pos digits]
    · rfl
  rw [workloadSet, if_neg (not_not.mpr known), if_neg (not_not.mpr valid), stored]
  rfl

theorem workloadSet_some {workload changed : State} {key value : List Char}
    (set_ : workloadSet workload key value = some changed) :
    key ∈ keys ∧ valueIsValid value ∧
      changed = { workload with metadata := workload.metadata.set key (settled value) } := by
  have named : key ∈ keys := by
    by_contra unknown
    have foreign : ¬keyIsValid key := unknown
    rw [workloadSet, if_pos foreign] at set_
    exact absurd set_ (by simp)
  have valid : valueIsValid value := by
    by_contra invalid
    have known : keyIsValid key := named
    rw [workloadSet, if_neg (not_not.mpr known), if_pos invalid] at set_
    exact absurd set_ (by simp)
  rw [workloadSet_of named valid] at set_
  exact ⟨named, valid, (Option.some.inj set_).symm⟩

theorem setCalls_get (workload : State) (valid : Valid workload.metadata)
    (calls : List (List Char × List Char)) :
    (setCalls workload calls).path = workload.path ∧ Valid (setCalls workload calls).metadata ∧
      ∀ key ∈ keys, ((setCalls workload calls).metadata.get key).getD "null".toList =
        calls.foldl
          (fun value call => if call.1 = key ∧ valueIsValid call.2 then settled call.2 else value)
          ((workload.metadata.get key).getD "null".toList) := by
  induction calls generalizing workload with
  | nil => exact ⟨rfl, valid, fun _ _ => rfl⟩
  | cons call calls ih =>
      rw [setCalls, List.foldl_cons]
      change (setCalls ((workloadSet workload call.1 call.2).getD workload) calls).path = _ ∧
        Valid (setCalls ((workloadSet workload call.1 call.2).getD workload) calls).metadata ∧ _
      cases changed : workloadSet workload call.1 call.2 with
      | none =>
          obtain ⟨path, kept, values⟩ := ih workload valid
          refine ⟨path, kept, fun key named => ?_⟩
          have ignored : ¬(call.1 = key ∧ valueIsValid call.2) := by
            rintro ⟨rfl, allowed⟩
            rw [workloadSet_of named allowed] at changed
            exact absurd changed (by simp)
          rw [List.foldl_cons, if_neg ignored]
          exact values key named
      | some next =>
          obtain ⟨named, allowed, rfl⟩ := workloadSet_some changed
          obtain ⟨path, kept, values⟩ :=
            ih { workload with metadata := workload.metadata.set call.1 (settled call.2) }
              (valid.set named (settled_valid allowed))
          refine ⟨path, kept, fun key mem => ?_⟩
          rw [List.foldl_cons]
          refine (values key mem).trans ?_
          congr 1
          dsimp only
          rw [Dict.get_set]
          by_cases same : key = call.1
          · rw [if_pos same, if_pos ⟨same.symm, allowed⟩]
            rfl
          · rw [if_neg same, if_neg fun both => same both.1.symm]

/-! ## The file of an execution -/

theorem update_get {faults : Faults} {unique path state : List Char} {files files' : Files}
    (updated : workloadUpdateFailureCleanupState faults unique files path state = (true, files')) :
    ∃ before after, workloadLoad files path = some before ∧ workloadLoad files' path = some after ∧
      ∀ key ∈ keys, after.metadata.get key =
        if key = "failure_cleanup_state".toList then some (settled state)
        else before.metadata.get key := by
  unfold workloadUpdateFailureCleanupState at updated
  cases loaded : workloadLoad files path with
  | none =>
      rw [loaded] at updated
      exact absurd (Prod.mk.inj updated).1 Bool.false_ne_true
  | some before =>
      rw [loaded] at updated
      dsimp only at updated
      obtain ⟨rfl, valid, whole⟩ := load_complete loaded
      cases changed : workloadSet before "failure_cleanup_state".toList state with
      | none =>
          rw [changed] at updated
          exact absurd (Prod.mk.inj updated).1 Bool.false_ne_true
      | some next =>
          rw [changed] at updated
          obtain ⟨named, allowed, rfl⟩ := workloadSet_some changed
          obtain ⟨after, again, -, values⟩ :=
            load_write (valid.set named (settled_valid allowed)) updated
          refine ⟨before, after, rfl, again, fun key mem => ?_⟩
          rw [values key mem, Dict.get_set]
          obtain ⟨value, entry⟩ := whole key mem
          split
          · rfl
          · rw [entry]
            rfl

theorem update_succeeds {faults : Faults} {unique path state : List Char} {files : Files}
    {before : State} (loaded : workloadLoad files path = some before) (named : path ≠ [])
    (allowed : valueIsValid state) (sound : faults.Absent) :
    (workloadUpdateFailureCleanupState faults unique files path state).1 = true := by
  obtain ⟨rfl, valid, -⟩ := load_complete loaded
  have known : "failure_cleanup_state".toList ∈ keys := List.mem_map_of_mem (by simp)
  unfold workloadUpdateFailureCleanupState
  rw [loaded]
  dsimp only
  rw [workloadSet_of known allowed]
  exact write_succeeds (valid.set known (settled_valid allowed)) named sound

theorem update_false {faults : Faults} {unique path state : List Char} {files files' : Files}
    (failed : workloadUpdateFailureCleanupState faults unique files path state = (false, files')) :
    files' path = files path := by
  unfold workloadUpdateFailureCleanupState at failed
  cases loaded : workloadLoad files path with
  | none =>
      rw [loaded] at failed
      rw [(Prod.mk.inj failed).2]
  | some before =>
      rw [loaded] at failed
      dsimp only at failed
      obtain ⟨rfl, -, -⟩ := load_complete loaded
      cases changed : workloadSet before "failure_cleanup_state".toList state with
      | none =>
          rw [changed] at failed
          rw [(Prod.mk.inj failed).2]
      | some next =>
          rw [changed] at failed
          obtain ⟨-, -, rfl⟩ := workloadSet_some changed
          exact write_false failed (temporary_ne before.path unique)

theorem rewrite_same {faults : Faults} {unique path : List Char} {files files' : Files}
    {workload : State} (loaded : workloadLoad files path = some workload)
    (wrote : workloadWrite faults unique workload files = (true, files')) :
    files' path = some (fileText (written workload.metadata)) ∧
      ∃ again, workloadLoad files' path = some again ∧
        again.metadata.get = workload.metadata.get := by
  obtain ⟨rfl, valid, whole⟩ := load_complete loaded
  refine ⟨write_true valid wrote, ?_⟩
  obtain ⟨again, reloaded, -, values⟩ := load_write valid wrote
  refine ⟨again, reloaded, ?_⟩
  funext key
  by_cases mem : key ∈ keys
  · obtain ⟨value, entry⟩ := whole key mem
    rw [values key mem, entry]
    rfl
  · have outside : ∀ metadata : Metadata, Valid metadata → metadata.get key = none := by
      intro metadata valid
      cases entry : metadata.get key with
      | none => rfl
      | some value => exact absurd (valid key value entry).1 mem
    rw [outside _ (load_complete reloaded).2.1, outside _ valid]

/-- The metadata survives its file: what calls have set is loaded after a write, a file of the
earlier schema gets its defaults and is rewritten to the same values, the update changes one key,
and a write that fails leaves the file as it was. Where no operation fails, none of them fails. -/
theorem metadata_survives :
    (∀ (path : List Char) (calls : List (List Char × List Char)) (faults : Faults)
      (unique : List Char) (files : Files),
      let wrote := workloadWrite faults unique (setCalls (workloadBegin path) calls) files
      (path ≠ [] → faults.Absent → wrote.1 = true) ∧
      (wrote.1 = true → ∃ loaded, workloadLoad wrote.2 path = some loaded ∧
        ∀ key ∈ keys, loaded.metadata.get key = some (assigned key calls))) ∧
    (∀ (path : List Char) (pairs : List (List Char × List Char)) (files : Files),
      files path = some (fileText pairs) → (pairs.map Prod.fst).Perm legacyKeys →
      (∀ pair ∈ pairs, valueIsValid pair.2) →
      ∃ loaded, workloadLoad files path = some loaded ∧
        (∀ pair ∈ pairs ++ legacyDefaults, loaded.metadata.get pair.1 = some pair.2) ∧
        ∀ (faults : Faults) (unique : List Char),
          let wrote := workloadWrite faults unique loaded files
          (path ≠ [] → faults.Absent → wrote.1 = true) ∧
          (wrote.1 = true → wrote.2 path = some (fileText (written loaded.metadata)) ∧
            ∃ again, workloadLoad wrote.2 path = some again ∧
              again.metadata.get = loaded.metadata.get)) ∧
    (∀ (path state : List Char) (faults : Faults) (unique : List Char) (files : Files),
      let updated := workloadUpdateFailureCleanupState faults unique files path state
      (path ≠ [] → (workloadLoad files path).isSome → valueIsValid state → faults.Absent →
        updated.1 = true) ∧
      (updated.1 = true → ∃ before after, workloadLoad files path = some before ∧
        workloadLoad updated.2 path = some after ∧
        ∀ key ∈ keys, after.metadata.get key =
          if key = "failure_cleanup_state".toList then some (settled state)
          else before.metadata.get key)) ∧
    (∀ (faults : Faults) (unique : List Char) (workload : State) (files files' : Files),
      workloadWrite faults unique workload files = (false, files') →
      files' workload.path = files workload.path) ∧
    ∀ (path state : List Char) (faults : Faults) (unique : List Char) (files files' : Files),
      workloadUpdateFailureCleanupState faults unique files path state = (false, files') →
      files' path = files path := by
  refine ⟨?_, ?_, ?_, ?_, ?_⟩
  · intro path calls faults unique files wrote
    obtain ⟨same, valid, values⟩ := setCalls_get (workloadBegin path) valid_empty calls
    refine ⟨fun named sound => write_succeeds valid (same ▸ named) sound, fun success => ?_⟩
    obtain ⟨loaded, again, -, entries⟩ := load_write valid (Prod.ext success rfl)
    rw [same] at again
    refine ⟨loaded, again, fun key mem => ?_⟩
    rw [entries key mem, values key mem]
    rfl
  · intro path pairs files content named valid
    have loaded := load_legacy content valid named
    refine ⟨_, loaded, fun pair mem => ?_, fun faults unique => ⟨fun some sound => ?_,
      fun success => rewrite_same loaded (Prod.ext success rfl)⟩⟩
    · have distinct : ((pairs ++ legacyDefaults).map Prod.fst).Nodup := by
        rw [List.map_append]
        exact ((named.append_right _).nodup_iff).mpr legacy_nodup
      apply Dict.get_setAll_of_mem mem
      intro value other
      exact congrArg Prod.snd
        (List.inj_on_of_nodup_map distinct other mem rfl : (pair.1, value) = pair)
    · exact write_succeeds (load_complete loaded).2.1 some sound
  · intro path state faults unique files updated
    constructor
    · intro named loads allowed sound
      obtain ⟨before, loaded⟩ := Option.isSome_iff_exists.mp loads
      exact update_succeeds loaded named allowed sound
    · exact fun success => update_get (Prod.ext success rfl)
  · exact fun faults unique workload files files' failed =>
      write_false failed (temporary_ne workload.path unique)
  · exact fun path state faults unique files files' failed => update_false failed

/-! ## Four uses of one file -/

def healthy : Faults := ⟨false, false, fun _ => false, false, false⟩

theorem healthy_absent : healthy.Absent := ⟨rfl, rfl, fun _ => rfl, rfl⟩

def samplePath : List Char := "w.tsv".toList

def legacyFiles : Files := fun path =>
  if path = samplePath then some (fileText (legacyKeys.map (·, ['1']))) else none

theorem write_of_rename (workload : State) (files : Files) :
    (workloadWrite { healthy with rename := true } ['7'] workload files).1 = false := by
  unfold workloadWrite
  split
  · rfl
  · simp

/-- A number is set and written, an earlier file is rewritten, its one key is updated, and a write
whose rename fails leaves it. -/
theorem metadata_survives_sample :
    (let wrote := workloadWrite healthy ['7']
        (setCalls (workloadBegin samplePath) [("reader_nodes".toList, "007".toList)]) (fun _ => none)
     wrote.1 = true ∧ ∃ loaded, workloadLoad wrote.2 samplePath = some loaded ∧
        loaded.metadata.get "reader_nodes".toList = some "7".toList ∧
        loaded.metadata.get "reader_iodepth".toList = some "null".toList) ∧
    (∃ loaded, workloadLoad legacyFiles samplePath = some loaded ∧
      loaded.metadata.get "reader_nodes".toList = some ['1'] ∧
      loaded.metadata.get "delete_completion_state".toList = some "not_applicable".toList ∧
      let wrote := workloadWrite healthy ['7'] loaded legacyFiles
      wrote.1 = true ∧ ∃ again, workloadLoad wrote.2 samplePath = some again ∧
        again.metadata.get = loaded.metadata.get) ∧
    (let updated := workloadUpdateFailureCleanupState healthy ['7'] legacyFiles samplePath
        "failed".toList
     updated.1 = true ∧ ∃ before after, workloadLoad legacyFiles samplePath = some before ∧
        workloadLoad updated.2 samplePath = some after ∧
        after.metadata.get "failure_cleanup_state".toList = some "failed".toList ∧
        ∀ key ∈ keys, key ≠ "failure_cleanup_state".toList →
          after.metadata.get key = before.metadata.get key) ∧
    ∃ loaded, workloadLoad legacyFiles samplePath = some loaded ∧
      let failed := workloadWrite { healthy with rename := true } ['7'] loaded legacyFiles
      failed.1 = false ∧ failed.2 loaded.path = legacyFiles loaded.path := by
  obtain ⟨writes, rewrites, updates, failing, -⟩ := metadata_survives
  have named : samplePath ≠ [] := by decide
  have nodes : "reader_nodes".toList ∈ keys := List.mem_map_of_mem (by simp)
  have depth : "reader_iodepth".toList ∈ keys := List.mem_map_of_mem (by simp)
  have cleanup : "failure_cleanup_state".toList ∈ keys := List.mem_map_of_mem (by simp)
  have present : legacyFiles samplePath = some (fileText (legacyKeys.map (·, ['1']))) := if_pos rfl
  have perm : ((legacyKeys.map (·, ['1'])).map Prod.fst).Perm legacyKeys := by
    rw [List.map_map, show Prod.fst ∘ (·, ['1']) = (id : List Char → List Char) from rfl, List.map_id]
  have valid : ∀ pair ∈ legacyKeys.map (·, ['1']), valueIsValid pair.2 := by
    intro pair mem
    obtain ⟨key, -, rfl⟩ := List.mem_map.mp mem
    exact .inl (by decide : isDigits ['1'] = true)
  obtain ⟨loaded, load, values, rewritten⟩ := rewrites samplePath _ legacyFiles present perm valid
  refine ⟨?_, ?_, ?_, ?_⟩
  · obtain ⟨succeeds, loads⟩ := writes samplePath [("reader_nodes".toList, "007".toList)] healthy ['7']
      fun _ => none
    have success := succeeds named healthy_absent
    obtain ⟨loaded, load, values⟩ := loads success
    refine ⟨success, loaded, load, ?_, ?_⟩
    · exact (values _ nodes).trans (congrArg some (by decide +kernel))
    · exact (values _ depth).trans (congrArg some (by decide +kernel))
  · obtain ⟨succeeds, loads⟩ := rewritten healthy ['7']
    have success := succeeds named healthy_absent
    obtain ⟨-, again, reload, same⟩ := loads success
    refine ⟨loaded, load, ?_, ?_, success, again, reload, same⟩
    · exact values ("reader_nodes".toList, ['1']) (List.mem_append_left _
        (List.mem_map.mpr ⟨_, List.mem_filter.mpr ⟨nodes, by decide +kernel⟩, rfl⟩))
    · exact values ("delete_completion_state".toList, "not_applicable".toList)
        (List.mem_append_right _ (by decide +kernel))
  · obtain ⟨succeeds, changes⟩ := updates samplePath "failed".toList healthy ['7'] legacyFiles
    have loads : (workloadLoad legacyFiles samplePath).isSome = true := by
      rw [load, Option.isSome_some]
    have success := succeeds named loads (.inr (by decide +kernel)) healthy_absent
    obtain ⟨before, after, loadBefore, loadAfter, values⟩ := changes success
    refine ⟨success, before, after, loadBefore, loadAfter, ?_, ?_⟩
    · rw [values _ cleanup, if_pos rfl]
      decide +kernel
    · intro key mem other
      rw [values key mem, if_neg other]
  · have fails := write_of_rename loaded legacyFiles
    exact ⟨loaded, load, fails, failing _ _ loaded legacyFiles _ (Prod.ext fails rfl)⟩

end StorageScaleTest.Workload
