import Mathlib
import StorageScaleTest.Proof.Attempts.Validation

/-!
# The files of an identity

The script of an identity sets the arrays it was rendered from, and both files end in one newline.
-/

namespace StorageScaleTest.Attempts
open Shell Targets Templates

variable {digest : Text → Option Text} {identity : Identity} {attemptId nonce : Text}

/-! ## Files with one newline at the end -/

/-- A text without null characters that ends in exactly one newline. -/
def Ended (text : Text) : Prop := '\x00' ∉ text ∧ text = stripNewlines text ++ ['\n']

theorem commandOutput_of_free {text : Text} (free : '\x00' ∉ text) :
    commandOutput text = stripNewlines text := by
  rw [commandOutput, List.filter_eq_self.mpr]
  exact fun c mem => decide_eq_true fun eq => free (eq ▸ mem)

theorem Ended.eq {text text' : Text} (ended : Ended text) (ended' : Ended text')
    (same : commandOutput text = commandOutput text') : text = text' := by
  rw [commandOutput_of_free ended.1, commandOutput_of_free ended'.1] at same
  rw [ended.2, same, ← ended'.2]

theorem ended_unlines {lines : List Text} (some_ : lines ≠ [])
    (free : ∀ line ∈ lines, '\x00' ∉ line)
    (last : ∀ line ∈ lines, ∃ front c, line = front ++ [c] ∧ c ≠ '\n') : Ended (unlines lines) := by
  constructor
  · intro mem
    obtain ⟨line, inside, mem⟩ := List.mem_flatMap.mp mem
    rcases List.mem_append.mp mem with mem | mem
    · exact free line inside mem
    · simp at mem
  · obtain ⟨others, final, rfl⟩ := List.eq_nil_or_concat lines |>.resolve_left some_
    obtain ⟨front, c, rfl, other⟩ := last final (by simp)
    have whole : unlines (others ++ [front ++ [c]]) = unlines others ++ front ++ [c] ++ ['\n'] := by
      simp [unlines]
    have kept : (unlines others ++ front ++ [c]).rdropWhile (· = '\n') =
        unlines others ++ front ++ [c] :=
      List.rdropWhile_concat_neg _ _ _ (by simpa using other)
    rw [List.concat_eq_append, whole, stripNewlines,
      List.rdropWhile_concat_pos _ _ _ (by simp), kept]

/-! ## The script -/

def assigned (attemptId nonce : Text) (identity : Identity) : List (Text × Assigned) :=
  [(schemaName, .scalar schemaVersion), (attemptName, .scalar attemptId),
    (nonceName, .scalar nonce), (segmentCountName, .scalar identity.segmentCount),
    (claimCountName, .scalar identity.claimCount)] ++
  (identity.segmentArrays ++ identity.claimArrays).map fun (name, values) => (name, .array values)

def assignedNames : List Text :=
  [schemaName, attemptName, nonceName, segmentCountName, claimCountName] ++
  ["KUBECTL_SEGMENT_NAMESPACES".toList, "KUBECTL_SEGMENT_NAMESPACE_UIDS".toList,
    "KUBECTL_CLAIM_SEGMENTS".toList, "KUBECTL_CLAIM_NAMESPACES".toList,
    "KUBECTL_CLAIM_NAMESPACE_UIDS".toList, "KUBECTL_CLAIM_PVCS".toList,
    "KUBECTL_CLAIM_PVC_UIDS".toList, "KUBECTL_CLAIM_PVS".toList, "KUBECTL_CLAIM_PV_UIDS".toList,
    "KUBECTL_CLAIM_LEASE_NAMES".toList]

theorem map_assigned : (assigned attemptId nonce identity).map Prod.fst = assignedNames := rfl

theorem nodup_assignedNames : assignedNames.Nodup := by decide_cbv

theorem isName_assignedNames : ∀ name ∈ assignedNames, name ≠ [] ∧ isName name = true := by
  decide +kernel

theorem lookup_of_mem {found : List (Text × Assigned)} {name : Text} {value : Assigned}
    (distinct : (found.map Prod.fst).Nodup) (mem : (name, value) ∈ found) :
    found.lookup name = some value := by
  induction found with
  | nil => cases mem
  | cons pair found ih =>
      obtain ⟨key, first⟩ := pair
      rw [List.map_cons, List.nodup_cons] at distinct
      rw [List.lookup_cons]
      rcases List.mem_cons.mp mem with eq | later
      · cases eq
        rw [beq_self_eq_true]
      · have other : name ≠ key := by
          rintro rfl
          exact distinct.1 (List.mem_map.mpr ⟨_, later, rfl⟩)
        rw [beq_eq_false_iff_ne.mpr other]
        exact ih distinct.2 later

theorem lookup_assigned {name : Text} {value : Assigned} {n : Nat}
    (here : (assigned attemptId nonce identity)[n]? = some (name, value)) :
    (assigned attemptId nonce identity).reverse.lookup name = some value := by
  apply lookup_of_mem
  · rw [List.map_reverse, List.nodup_reverse, map_assigned]
    exact nodup_assignedNames
  · exact List.mem_reverse.mpr (List.mem_of_getElem? here)

theorem scalarOf_assigned {name value : Text} {n : Nat}
    (here : (assigned attemptId nonce identity)[n]? = some (name, .scalar value)) :
    scalarOf (assigned attemptId nonce identity) name = value := by
  rw [scalarOf, lookup_assigned here]

theorem arrayOf_assigned {name : Text} {values : List Text} {n : Nat}
    (here : (assigned attemptId nonce identity)[n]? = some (name, .array values)) :
    arrayOf (assigned attemptId nonce identity) name = values := by
  rw [arrayOf, lookup_assigned here]

theorem sourced_assigned : sourced (assigned attemptId nonce identity) = identity := by
  rw [sourced, @scalarOf_assigned _ _ _ _ _ 3 rfl, @scalarOf_assigned _ _ _ _ _ 4 rfl,
    @arrayOf_assigned _ _ _ _ _ 5 rfl, @arrayOf_assigned _ _ _ _ _ 6 rfl,
    @arrayOf_assigned _ _ _ _ _ 7 rfl, @arrayOf_assigned _ _ _ _ _ 8 rfl,
    @arrayOf_assigned _ _ _ _ _ 9 rfl, @arrayOf_assigned _ _ _ _ _ 10 rfl,
    @arrayOf_assigned _ _ _ _ _ 11 rfl, @arrayOf_assigned _ _ _ _ _ 12 rfl,
    @arrayOf_assigned _ _ _ _ _ 13 rfl, @arrayOf_assigned _ _ _ _ _ 14 rfl]

theorem isName_assigned {assignment : Text × Assigned}
    (mem : assignment ∈ assigned attemptId nonce identity) :
    assignment.1 ≠ [] ∧ isName assignment.1 = true :=
  isName_assignedNames _ (map_assigned ▸ List.mem_map_of_mem mem)

def headerLine : Text := "# Trusted storage-scale-test Kubernetes attempt metadata.".toList

section

variable [Ctype]

theorem renderIdentityShell_eq :
    renderIdentityShell attemptId nonce identity =
      unlines ([headerLine] ++ (assigned attemptId nonce identity).map declarationOf) := rfl

theorem declarations_render :
    declarations (renderIdentityShell attemptId nonce identity) =
      some (assigned attemptId nonce identity) := by
  rw [renderIdentityShell_eq]
  apply declarations_unlines
  · intro line mem
    rw [List.mem_singleton.mp mem]
    decide +kernel
  · exact fun assignment mem => isName_assigned mem

theorem null_not_mem_declarationOf {assignment : Text × Assigned}
    (valid : isName assignment.1 = true) : '\x00' ∉ declarationOf assignment := by
  have quoted (value : Text) : '\x00' ∉ quote value := control_not_mem_quote (by decide) value
  obtain ⟨name, value | values⟩ := assignment
  all_goals
    have absent : '\x00' ∉ name := fun mem => absurd (List.all_eq_true.mp valid _ mem) (by decide)
    simp only [declarationOf, scalarLine, declareLine, List.mem_append, List.mem_cons, not_or]
  · exact ⟨absent, by decide, quoted value⟩
  · exact ⟨⟨by decide_cbv, absent⟩, by decide, by decide,
      not_mem_spaced (by decide) fun value _ => quoted value, by decide_cbv⟩

theorem quote_last (word : Text) : ∃ front c, quote word = front ++ [c] ∧ c ≠ '\n' := by
  obtain ⟨c, rest, eq, -, -⟩ := head?_quote word
  obtain ⟨front, d, split⟩ := List.eq_nil_or_concat (quote word) |>.resolve_left (by simp [eq])
  rw [List.concat_eq_append] at split
  exact ⟨front, d, split, fun newline =>
    newline_not_mem_quote word (split ▸ newline ▸ List.mem_append_right _ List.mem_cons_self)⟩

theorem declarationOf_last (assignment : Text × Assigned) :
    ∃ front c, declarationOf assignment = front ++ [c] ∧ c ≠ '\n' := by
  obtain ⟨name, value | values⟩ := assignment
  · obtain ⟨front, c, eq, other⟩ := quote_last value
    exact ⟨name ++ '=' :: front, c, by simp [declarationOf, scalarLine, eq], other⟩
  · exact ⟨declareWord ++ name ++ '=' :: '(' :: ((values.flatMap fun value => ' ' :: quote value) ++
      [' ']), ')', by simp [declarationOf, declareLine], by decide⟩

theorem ended_shell : Ended (renderIdentityShell attemptId nonce identity) := by
  rw [renderIdentityShell_eq]
  apply ended_unlines (by simp)
  · intro line mem
    rcases List.mem_append.mp mem with header | mem
    · rw [List.mem_singleton.mp header]
      decide_cbv
    · obtain ⟨assignment, inside, rfl⟩ := List.mem_map.mp mem
      exact null_not_mem_declarationOf (isName_assigned inside).2
  · intro line mem
    rcases List.mem_append.mp mem with header | mem
    · rw [List.mem_singleton.mp header]
      exact ⟨headerLine.dropLast, '.', by decide_cbv, by decide⟩
    · obtain ⟨assignment, -, rfl⟩ := List.mem_map.mp mem
      exact declarationOf_last assignment

theorem schema_filterMap :
    ((assigned attemptId nonce identity).map declarationOf).filterMap (fun line =>
      if schemaName ++ ['='] <+: line ∧ (line.drop (schemaName ++ ['=']).length).all Char.isDigit then
        some (line.drop (schemaName ++ ['=']).length)
      else none) = [schemaVersion] := by
  have names := nodup_assignedNames
  rw [← @map_assigned identity attemptId nonce] at names
  have first : assigned attemptId nonce identity =
      (schemaName, .scalar schemaVersion) :: (assigned attemptId nonce identity).tail := rfl
  have others : ∀ assignment ∈ (assigned attemptId nonce identity).tail,
      ¬schemaName ++ ['='] <+: declarationOf assignment := by
    intro assignment mem ⟨rest, eq⟩
    have valid := (isName_assigned (List.mem_of_mem_tail mem)).2
    rw [List.append_assoc, List.singleton_append] at eq
    obtain ⟨name, value | values⟩ := assignment
    · have same := (@splitName schemaName rest (by decide_cbv)).1
      rw [eq, declarationOf, scalarLine, (splitName valid).1] at same
      rw [first, List.map_cons, List.nodup_cons] at names
      exact names.1 (List.mem_map.mpr ⟨_, mem, same⟩)
    · have heads := congrArg List.head? eq
      have schema : (schemaName ++ '=' :: rest).head? = some 'K' := rfl
      have declare : (declarationOf (name, .array values)).head? = some 'd' := rfl
      rw [schema, declare] at heads
      cases heads
  have own : declarationOf (schemaName, .scalar schemaVersion) =
      schemaName ++ ['='] ++ schemaVersion := by
    have value : quote schemaVersion = schemaVersion := 
      quote_plain (by decide) (List.forall_mem_singleton.mpr rfl)
    exact (congrArg (schemaName ++ '=' :: ·) value).trans (List.append_cons _ _ _)
  have rest : ((assigned attemptId nonce identity).tail.map declarationOf).filterMap (fun line =>
      if schemaName ++ ['='] <+: line ∧ (line.drop (schemaName ++ ['=']).length).all Char.isDigit then
        some (line.drop (schemaName ++ ['=']).length)
      else none) = [] := by
    rw [List.filterMap_eq_nil_iff]
    intro line mem
    obtain ⟨assignment, inside, rfl⟩ := List.mem_map.mp mem
    exact if_neg fun both => others assignment inside both.1
  rw [first, List.map_cons, List.filterMap_cons, rest, own,
    if_pos ⟨List.prefix_append _ _, by rw [List.drop_left]; rfl⟩, List.drop_left]

theorem rejectV1Identity_render :
    rejectV1Identity (renderIdentityShell attemptId nonce identity) = false := by
  have plain : ∀ line ∈ [headerLine] ++ (assigned attemptId nonce identity).map declarationOf,
      '\n' ∉ line := by
    intro line mem
    rcases List.mem_append.mp mem with header | mem
    · rw [List.mem_singleton.mp header]
      decide_cbv
    · obtain ⟨assignment, inside, rfl⟩ := List.mem_map.mp mem
      exact newline_not_mem_declarationOf (isName_assigned inside).2
  have header : ¬schemaName ++ ['='] <+: headerLine := by decide_cbv
  rw [rejectV1Identity, renderIdentityShell_eq, records_unlines plain, List.filterMap_append,
    schema_filterMap]
  rw [List.filterMap_cons, if_neg fun both => header both.1, List.filterMap_nil]
  decide

end

/-! ## The YAML text -/

/-- A line without null characters that ends in something else than a newline. -/
def Whole (line : Text) : Prop := '\x00' ∉ line ∧ ∃ front c, line = front ++ [c] ∧ c ≠ '\n'

theorem free_of_all {check : Char → Bool} {word : Text} (all : word.all check = true)
    (other : check '\x00' = false) : '\x00' ∉ word := by
  intro mem
  have holds := List.all_eq_true.mp all _ mem
  rw [other] at holds
  cases holds

theorem free_of_namespace {word : Text} (valid : validateNamespaceName word = true) :
    '\x00' ∉ word := by
  simp only [validateNamespaceName, label, Bool.and_eq_true] at valid
  exact free_of_all valid.2.2 (by decide)

theorem free_of_subdomain {word : Text} (valid : validateDnsSubdomain word = true) :
    '\x00' ∉ word := by
  simp only [validateDnsSubdomain, subdomain, Bool.and_eq_true] at valid
  exact free_of_all valid.1.2.2 (by decide)

theorem free_of_uid {word : Text} (valid : validateUid word = true) : '\x00' ∉ word := by
  cases word with
  | nil => exact List.not_mem_nil
  | cons c rest =>
      simp only [validateUid, uidWord, begins, Bool.and_eq_true] at valid
      rw [List.mem_cons, not_or]
      refine ⟨?_, free_of_all valid.2.2 (by decide)⟩
      rintro rfl
      exact absurd valid.2.1 (by decide)

theorem free_of_hex {digits : Nat} {word : Text} (valid : hex digits word = true) :
    '\x00' ∉ word := by
  rw [hex, Bool.and_eq_true] at valid
  exact free_of_all valid.2 (by decide)

theorem free_commandOutput (text : Text) : '\x00' ∉ commandOutput text := by
  intro mem
  have kept := (List.rdropWhile_prefix (· = '\n') (text.filter (· ≠ '\x00'))).subset mem
  simpa using (List.mem_filter.mp kept).2

theorem free_of_lease {nsUid pvUid pvcUid lease : Text}
    (found : pvcLeaseName digest nsUid pvUid pvcUid = some lease) : '\x00' ∉ lease := by
  rw [pvcLeaseName] at found
  split at found
  case isTrue =>
    obtain ⟨hash, -, rfl⟩ := Option.map_eq_some_iff.mp found
    exact free_commandOutput _
  case isFalse => cases found

theorem whole_yamlLine {key : String} {value : Text} (free : '\x00' ∉ key.toList)
    (free' : '\x00' ∉ value) : Whole (yamlLine key value) := by
  refine ⟨?_, key.toList ++ '"' :: value, '"', by simp [yamlLine], by decide⟩
  simp only [yamlLine, List.mem_append, List.mem_cons, List.not_mem_nil, or_false, not_or]
  exact ⟨free, by decide, free', by decide⟩

theorem whole_index {key : Text} (free : '\x00' ∉ key) (n : Nat) :
    Whole (key ++ Nat.toDigits 10 n) := by
  have digit (c : Char) (mem : c ∈ Nat.toDigits 10 n) : c.isDigit = true :=
    Nat.isDigit_of_mem_toDigits (by decide) (by decide) mem
  obtain ⟨front, c, eq⟩ :=
    List.eq_nil_or_concat (Nat.toDigits 10 n) |>.resolve_left Nat.toDigits_ne_nil
  rw [List.concat_eq_append] at eq
  refine ⟨?_, key ++ front, c, by rw [eq, List.append_assoc], ?_⟩
  · rw [List.mem_append, not_or]
    exact ⟨free, fun mem => absurd (digit _ mem) (by decide)⟩
  · rintro rfl
    exact absurd (digit '\n' (eq ▸ List.mem_append_right _ List.mem_cons_self)) (by decide)

section

variable (checked : Checked digest identity)
include checked

theorem whole_yamlClaim {index : Nat} {claim : Claim} (mem : claim ∈ identity.claims) :
    ∀ line ∈ yamlClaim index claim, Whole line := by
  have entry := checked.entry mem
  obtain ⟨ns, nsUid⟩ := checked.segment entry.ns entry.nsUid
  simp only [yamlClaim, List.forall_mem_cons]
  refine ⟨whole_index ?_ index, whole_yamlLine ?_ (free_of_namespace ns),
    whole_yamlLine ?_ (free_of_subdomain entry.pvc), whole_yamlLine ?_ (free_of_subdomain entry.pv),
    whole_yamlLine ?_ (free_of_uid nsUid), whole_yamlLine ?_ (free_of_uid entry.pvUid),
    whole_yamlLine ?_ (free_of_uid entry.pvcUid), whole_yamlLine ?_ (free_of_lease entry.lease),
    by simp⟩
  all_goals decide_cbv

theorem whole_yamlSegment {position : Nat} (below : position < number identity.segmentCount) :
    ∀ line ∈ yamlSegment identity position, Whole line := by
  have lengths := checked.segmentArrays
  simp only [Identity.segmentArrays, List.forall_mem_cons] at lengths
  obtain ⟨names, uids, -⟩ := lengths
  have here : position < identity.segmentNamespaces.length := names ▸ below
  have here' : position < identity.segmentNamespaceUids.length := uids ▸ below
  obtain ⟨ns, uid⟩ := checked.segment (List.getElem?_eq_getElem here) (List.getElem?_eq_getElem here')
  intro line mem
  rcases List.mem_append.mp mem with front | mem
  · rw [List.getD_eq_getElem _ _ here, List.getD_eq_getElem _ _ here'] at front
    clear mem
    revert line
    simp only [List.forall_mem_cons]
    refine ⟨whole_index ?_ position, whole_yamlLine ?_ (free_of_namespace ns),
      whole_yamlLine ?_ (free_of_uid uid), ⟨?_, "    claims".toList, ':', ?_, by decide⟩, by simp⟩
    all_goals decide_cbv
  · obtain ⟨index, range, mem⟩ := List.mem_flatMap.mp mem
    split at mem
    · exact whole_yamlClaim checked (List.mem_map_of_mem range) line mem
    · cases mem

theorem ended_yaml (attempt : hex 8 attemptId = true) (nonceHex : hex 32 nonce = true) :
    Ended (renderIdentityYaml attemptId nonce identity) := by
  have all : ∀ line ∈ ["schema: ".toList ++ schemaVersion, yamlLine "attempt_id: " attemptId,
      yamlLine "ownership_nonce: " nonce, "segments:".toList] ++
        (List.range (number identity.segmentCount)).flatMap (yamlSegment identity), Whole line := by
    intro line mem
    rcases List.mem_append.mp mem with front | mem
    · clear mem
      revert line
      simp only [List.forall_mem_cons]
      refine ⟨⟨?_, "schema: ".toList, '4', ?_, by decide⟩, whole_yamlLine ?_ (free_of_hex attempt),
        whole_yamlLine ?_ (free_of_hex nonceHex), ⟨?_, "segments".toList, ':', ?_, by decide⟩,
        by simp⟩
      all_goals decide_cbv
    · obtain ⟨position, range, mem⟩ := List.mem_flatMap.mp mem
      exact whole_yamlSegment checked (List.mem_range.mp range) line mem
  exact ended_unlines (by simp) (fun line mem => (all line mem).1) fun line mem => (all line mem).2

end

end StorageScaleTest.Attempts
