import StorageScaleTest.Proof.Attempts.Collection
import StorageScaleTest.Proof.Attempts.Files

/-!
# The round trip of an attempt identity
-/

namespace StorageScaleTest.Attempts
open Shell Targets Templates

variable {digest : Text → Option Text} {identity : Identity} {attemptId nonce : Text}

/-! ## Selections -/

/-- Nothing is selected, or a segment and a claim of the identity. -/
structure Fits (selection : Selection) (identity : Identity) : Prop where
  segment : selection.segment = [] ∨
    ∃ k < number identity.segmentCount, selection.segment = Nat.toDigits 10 k
  claim : selection.claim = [] ∨
    ∃ k < number identity.claimCount, selection.claim = Nat.toDigits 10 k

theorem count_of_valid {limit : Nat} {value : Text} (valid : validateCount limit value = true) :
    (positive value = true ∧ value.length ≤ 2) ∧ number value ≤ limit ∧ 0 < number value := by
  simp only [validateCount, Bool.and_eq_true, decide_eq_true_iff] at valid
  refine ⟨valid.1, valid.2, Nat.pos_of_ne_zero fun zero => ?_⟩
  have digits := toDigits_number valid.1.1
  rw [zero] at digits
  rw [← digits] at valid
  exact absurd valid.1.1 (by decide)

theorem validateSegmentIndex_toDigits :
    ∀ k < maxSegments, validateSegmentIndex (Nat.toDigits 10 k) = true := by
  decide

theorem validateClaimIndex_toDigits :
    ∀ k < maxClaims, validateClaimIndex (Nat.toDigits 10 k) = true := by
  decide

theorem Checked.distinct (checked : Checked digest identity) :
    (identity.claims.map fun claim => (claim.ns, claim.pvc)).Nodup := by
  rw [List.nodup_iff_pairwise_ne, List.pairwise_map]
  refine checked.sorted.imp fun {a b} less same => ?_
  obtain ⟨ns, pvc⟩ := Prod.mk.injEq _ _ _ _ ▸ same
  rcases less with less | ⟨-, less⟩
  · exact absurd (ns ▸ less) (lt_irrefl _)
  · exact absurd (pvc ▸ less) (lt_irrefl _)

theorem commandOutput_newline (text : Text) :
    commandOutput (text ++ ['\n']) = commandOutput text := by
  rw [commandOutput, List.filter_append, stripNewlines,
    show ['\n'].filter (· ≠ '\x00') = ['\n'] from rfl, List.rdropWhile_concat_pos _ _ _ (by simp)]
  rfl

section

variable (checked : Checked digest identity)
include checked

theorem Checked.useClaim {k : Nat} (below : k < number identity.claimCount) :
    useClaim identity (Nat.toDigits 10 k) = some (Nat.toDigits 10 k) := by
  obtain ⟨shape, limit, -⟩ := count_of_valid checked.claimCount
  rw [Attempts.useClaim, if_pos]
  exact ⟨validateClaimIndex_toDigits k (below.trans_le limit), shape,
    (number_toDigits k).symm ▸ below⟩

theorem Checked.useSegment {k : Nat} (below : k < number identity.segmentCount) :
    ∃ claim, useSegment identity (Nat.toDigits 10 k) = some claim := by
  obtain ⟨shape, limit, -⟩ := count_of_valid checked.segmentCount
  obtain ⟨claim, mem, segment⟩ := checked.exists_claim below
  obtain ⟨index, range, rfl⟩ := List.mem_map.mp mem
  have listed : index ∈ segmentClaimIndexes identity (Nat.toDigits 10 k) :=
    List.mem_filter.mpr ⟨range, decide_eq_true segment⟩
  obtain ⟨first, rest, eq⟩ := List.exists_cons_of_ne_nil (List.ne_nil_of_mem listed)
  have inside : first ∈ segmentClaimIndexes identity (Nat.toDigits 10 k) :=
    eq ▸ List.mem_cons_self
  refine ⟨Nat.toDigits 10 first, ?_⟩
  rw [Attempts.useSegment, if_pos]
  · rw [eq]
    exact checked.useClaim (List.mem_range.mp (List.mem_filter.mp inside).1)
  · exact ⟨validateSegmentIndex_toDigits k (below.trans_le limit), shape,
      (number_toDigits k).symm ▸ below⟩

end

/-! ## Loading what was published -/

section

variable [Ctype]

theorem load_render (attempt : hex 8 attemptId = true) (nonceHex : hex 32 nonce = true)
    (valid : validateAttemptIdentityArrays digest identity = true) {selection : Selection}
    (fits : Fits selection identity) :
    ∃ loaded, loadIdentity digest attemptId (renderIdentity attemptId nonce identity) selection =
      some loaded ∧ loaded.identity = identity ∧ loaded.nonce = nonce := by
  have checked := checked_of_valid valid
  have kept : (renderIdentityShell attemptId nonce identity).filter (· ≠ '\x00') =
      renderIdentityShell attemptId nonce identity :=
    List.filter_eq_self.mpr fun c mem =>
      decide_eq_true fun eq => (@ended_shell identity attemptId nonce).1 (eq ▸ mem)
  have schema : scalarOf (assigned attemptId nonce identity) schemaName = schemaVersion :=
    @scalarOf_assigned _ _ _ _ _ 0 rfl
  have basename : scalarOf (assigned attemptId nonce identity) attemptName = attemptId :=
    @scalarOf_assigned _ _ _ _ _ 1 rfl
  have nonce_eq : scalarOf (assigned attemptId nonce identity) nonceName = nonce :=
    @scalarOf_assigned _ _ _ _ _ 2 rfl
  have verified : verifyLoadedIdentity digest attemptId nonce identity
      (renderIdentity attemptId nonce identity) = true := by
    simp [verifyLoadedIdentity, valid, renderIdentity]
  obtain ⟨k, below, segment⟩ : ∃ k < number identity.segmentCount,
      (if selection.segment = [] then ['0'] else selection.segment) = Nat.toDigits 10 k := by
    rcases fits.segment with none | ⟨k, below, eq⟩
    · exact ⟨0, (count_of_valid checked.segmentCount).2.2, by rw [if_pos none]; rfl⟩
    · exact ⟨k, below, by rw [eq, if_neg Nat.toDigits_ne_nil]⟩
  obtain ⟨first, used⟩ := checked.useSegment below
  obtain ⟨claim, chosen⟩ : ∃ claim, activeClaim identity selection first = some claim := by
    rcases fits.claim with none | ⟨j, below, eq⟩
    · exact ⟨first, if_pos none⟩
    · rw [activeClaim, eq, if_neg Nat.toDigits_ne_nil]
      exact ⟨_, checked.useClaim below⟩
  refine ⟨⟨nonce, identity, Nat.toDigits 10 k, claim⟩, ?_, rfl, rfl⟩
  rw [loadIdentity, if_neg]
  · simp only [renderIdentity, kept, declarations_render, sourced_assigned, schema, basename,
      nonce_eq, segment]
    rw [if_neg (by simp [nonceHex]), if_neg (by simpa [renderIdentity] using verified), used,
      Option.bind_some, chosen]
    rfl
  · rw [renderIdentity, rejectV1Identity_render]
    simp [attempt]

theorem load_eq_some {basename : Text} {files : IdentityFiles} {selection : Selection}
    {loaded : Loaded} (found : loadIdentity digest basename files selection = some loaded) :
    hex 8 basename = true ∧ hex 32 loaded.nonce = true ∧
      validateAttemptIdentityArrays digest loaded.identity = true ∧
      commandOutput files.shell =
        commandOutput (renderIdentityShell basename loaded.nonce loaded.identity) ∧
      commandOutput files.yaml =
        commandOutput (renderIdentityYaml basename loaded.nonce loaded.identity) := by
  rw [loadIdentity] at found
  split at found
  case isTrue => cases found
  case isFalse named =>
    split at found
    case h_1 => cases found
    case h_2 script =>
      dsimp only at found
      split at found
      case isTrue => cases found
      case isFalse headers =>
        split at found
        case isTrue => cases found
        case isFalse verified =>
          obtain ⟨first, -, found⟩ := Option.bind_eq_some_iff.mp found
          obtain ⟨claim, -, rfl⟩ := Option.map_eq_some_iff.mp found
          rw [not_or, not_not] at named
          push Not at headers
          rw [not_not, verifyLoadedIdentity, Bool.and_eq_true, Bool.and_eq_true,
            decide_eq_true_iff, decide_eq_true_iff] at verified
          exact ⟨named.1, headers.2.2, verified.1.1, verified.1.2, verified.2⟩

/-! ## The statement -/

/-- An identity is published for the tuples as they were given, and loaded as it was checked. -/
structure RoundTrip (digest : Text → Option Text) (attemptId nonce : Text)
    (tuples : List ClaimTuple) (identity : Identity) (files : IdentityFiles) : Prop where
  restored : ∀ selection, Fits selection identity →
    ∃ loaded, loadIdentity digest attemptId files selection = some loaded ∧
      loaded.identity = identity ∧ loaded.nonce = nonce
  claims : (identity.claims.map Claim.tuple).Perm tuples
  sorted : identity.claims.Pairwise fun a b => a.ns < b.ns ∨ a.ns = b.ns ∧ a.pvc < b.pvc
  distinct : (identity.claims.map fun claim => (claim.ns, claim.pvc)).Nodup
  segments : FirstAppearances (tuples.map ClaimTuple.ns) identity.segmentNamespaces
  referenced : ∀ claim ∈ identity.claims, ∃ k, claim.segment = Nat.toDigits 10 k ∧
    identity.segmentNamespaces[k]? = some claim.ns ∧
    identity.segmentNamespaceUids[k]? = some claim.nsUid
  pvs : (identity.claims.map Claim.pv).Nodup
  pvUids : (identity.claims.map Claim.pvUid).Nodup
  pvcUids : (identity.claims.map Claim.pvcUid).Nodup

theorem createIdentity_eq_some {arguments : List Text} {files : IdentityFiles}
    (created : createIdentity digest attemptId nonce arguments = some (identity, files)) :
    hex 8 attemptId = true ∧ hex 32 nonce = true ∧
      collectClaimTuples digest arguments = some identity ∧
      validateAttemptIdentityArrays digest identity = true ∧
      files = renderIdentity attemptId nonce identity := by
  rw [createIdentity] at created
  split at created
  case isTrue => cases created
  case isFalse named =>
    rw [not_or, not_not, not_not] at named
    split at created
    case h_2 => cases created
    case h_1 collected found =>
      split at created
      case isFalse => cases created
      case isTrue valid =>
        cases created
        exact ⟨named.1, named.2, found, valid, rfl⟩

theorem roundTrip_iff {arguments : List Text} {tuples : List ClaimTuple} {files : IdentityFiles}
    (split : tuplesOf arguments = some tuples)
    (created : createIdentity digest attemptId nonce arguments = some (identity, files)) :
    RoundTrip digest attemptId nonce tuples identity files ↔ ∀ t ∈ tuples, t.Clean := by
  obtain ⟨named, nonceHex, found, valid, -⟩ := createIdentity_eq_some created
  obtain ⟨tuples', segments, claims, split', folded, read, eq⟩ := collect_eq_some found
  cases split.symm.trans split'
  obtain ⟨plain, first⟩ := foldlM_addTuple folded
  have checked := checked_of_valid valid
  obtain ⟨seen, all, -⟩ := checked.claims
  have listed : identity.claims = claims := by rw [eq, claims_identityOf]
  rw [← claims_perm_iff plain read]
  refine ⟨fun trip => listed ▸ trip.claims, fun perm => ?_⟩
  exact
    { restored := fun selection fits => by
        obtain ⟨-, -, -, -, rfl⟩ := createIdentity_eq_some created
        exact load_render named nonceHex valid fits
      claims := listed.symm ▸ perm
      sorted := checked.sorted
      distinct := checked.distinct
      segments := by rw [eq]; exact first
      referenced := fun claim mem => by
        have entry := checked.entry mem
        exact ⟨number claim.segment, entry.segment.symm, entry.ns, entry.nsUid⟩
      pvs := all.pvs.1
      pvUids := all.pvUids.1
      pvcUids := all.pvcUids.1 }

/-- Accepted files are what is rendered for the loaded arrays but for their last newlines. -/
theorem rendered_iff {basename : Text} {files : IdentityFiles} {selection : Selection}
    {loaded : Loaded} (found : loadIdentity digest basename files selection = some loaded) :
    files = renderIdentity basename loaded.nonce loaded.identity ↔
      Ended files.shell ∧ Ended files.yaml := by
  obtain ⟨named, nonceHex, valid, shell, yaml⟩ := load_eq_some found
  have endedYaml := ended_yaml (checked_of_valid valid) named nonceHex
  constructor
  · intro eq
    rw [eq]
    exact ⟨ended_shell, endedYaml⟩
  · intro ⟨ended, ended'⟩
    exact congrArg₂ IdentityFiles.mk (ended.eq ended_shell shell) (ended'.eq endedYaml yaml)

/-- An identity that is created is a round trip exactly if no identifier of its tuples holds a tab or
a newline, and files that are loaded are those that are rendered exactly if both end in one newline. -/
theorem attempt_identity (digest : Text → Option Text) (name : Text) :
    (∀ nonce arguments tuples identity files, tuplesOf arguments = some tuples →
      createIdentity digest name nonce arguments = some (identity, files) →
        (RoundTrip digest name nonce tuples identity files ↔ ∀ t ∈ tuples, t.Clean)) ∧
    ∀ files selection loaded, loadIdentity digest name files selection = some loaded →
      (files = renderIdentity name loaded.nonce loaded.identity ↔
        Ended files.shell ∧ Ended files.yaml) :=
  ⟨fun _ _ _ _ _ split created => roundTrip_iff split created, fun _ _ _ found =>
    rendered_iff found⟩

/-- A newline behind the YAML text is not noticed. -/
theorem load_newline (basename shell yaml : Text) (selection : Selection) :
    loadIdentity digest basename ⟨shell, yaml ++ ['\n']⟩ selection =
      loadIdentity digest basename ⟨shell, yaml⟩ selection := by
  have verified : ∀ nonce identity,
      verifyLoadedIdentity digest basename nonce identity ⟨shell, yaml ++ ['\n']⟩ =
        verifyLoadedIdentity digest basename nonce identity ⟨shell, yaml⟩ := fun _ _ => by
    simp only [verifyLoadedIdentity, commandOutput_newline]
  unfold loadIdentity
  simp only [verified]

end

local instance attemptLocale : Ctype := posix

def sampleDigest : Text → Option Text := fun _ => some (List.replicate 64 'a')

def sampleName : Text := "01234567".toList

def sampleNonce : Text := List.replicate 32 '0'

def sampleArguments (pvUid : Text) : List Text :=
  ["ns".toList, "u1".toList, "pv".toList, pvUid, "pvc".toList, "u3".toList]

/-- Three tuples of two namespaces, which are not given in the order of the claims. -/
def sampleTuples : List ClaimTuple :=
  [⟨"ns2".toList, "u9".toList, "pva".toList, "u2".toList, "pvcb".toList, "u3".toList⟩,
    ⟨"ns1".toList, "u1".toList, "pvb".toList, "u4".toList, "pvca".toList, "u5".toList⟩,
    ⟨"ns2".toList, "u9".toList, "pvc".toList, "u6".toList, "pvca".toList, "u7".toList⟩]

theorem attempt_identity_three :
    (let arguments := sampleTuples.flatMap fun t => [t.ns, t.nsUid, t.pv, t.pvUid, t.pvc, t.pvcUid]
    ∃ identity files,
      createIdentity sampleDigest sampleName sampleNonce arguments = some (identity, files) ∧
        identity.segmentNamespaces = ["ns2".toList, "ns1".toList] ∧
        identity.claimPvcUids = ["u5".toList, "u7".toList, "u3".toList] ∧
        RoundTrip sampleDigest sampleName sampleNonce sampleTuples identity files) := by
  intro arguments
  have made : (createIdentity sampleDigest sampleName sampleNonce arguments).map (fun made =>
      (made.1.segmentNamespaces, made.1.claimPvcUids)) =
        some (["ns2".toList, "ns1".toList], ["u5".toList, "u7".toList, "u3".toList]) := by
    decide +kernel
  obtain ⟨⟨identity, files⟩, created, fields⟩ := Option.map_eq_some_iff.mp made
  obtain ⟨segments, claims⟩ := Prod.mk.inj fields
  have clean : ∀ t ∈ sampleTuples, t.Clean := by decide +kernel
  have split : tuplesOf arguments = some sampleTuples := rfl
  exact ⟨identity, files, created, segments, claims,
    ((attempt_identity sampleDigest sampleName).1 sampleNonce arguments sampleTuples identity files
      split created).mpr clean⟩

/-- A tuple whose identifier begins with a tab loses it, and files that end in two newlines are
loaded. -/
theorem attempt_identity_separators :
    (∃ identity files,
      createIdentity sampleDigest sampleName sampleNonce (sampleArguments "\tu2".toList) =
        some (identity, files) ∧ identity.claimPvUids = ["u2".toList] ∧
      ¬RoundTrip sampleDigest sampleName sampleNonce
        [⟨"ns".toList, "u1".toList, "pv".toList, "\tu2".toList, "pvc".toList, "u3".toList⟩]
        identity files) ∧
    ∃ files loaded, loadIdentity sampleDigest sampleName files ⟨[], []⟩ = some loaded ∧
      files ≠ renderIdentity sampleName loaded.nonce loaded.identity := by
  obtain ⟨⟨identity, files⟩, created⟩ := Option.isSome_iff_exists.mp
    (show (createIdentity sampleDigest sampleName sampleNonce
      (sampleArguments "\tu2".toList)).isSome by decide +kernel)
  have uids : (createIdentity sampleDigest sampleName sampleNonce
      (sampleArguments "\tu2".toList)).map (fun made => made.1.claimPvUids) = some ["u2".toList] := by
    decide +kernel
  rw [created, Option.map_some, Option.some.injEq] at uids
  refine ⟨⟨identity, files, created, uids, fun trip => ?_⟩, ?_⟩
  · have clean := (roundTrip_iff rfl created).mp trip _ List.mem_cons_self
    have separator := clean "\tu2".toList (by simp)
    revert separator
    decide +kernel
  · obtain ⟨named, nonceHex, -, valid, -⟩ := createIdentity_eq_some created
    have fits : Fits ⟨[], []⟩ identity := ⟨Or.inl rfl, Or.inl rfl⟩
    obtain ⟨loaded, found, -, -⟩ := load_render named nonceHex valid fits
    have again := (load_newline sampleName _ _ ⟨[], []⟩).trans found
    refine ⟨_, loaded, again, fun eq => ?_⟩
    have ended := ((rendered_iff again).mp eq).2
    have same := ended.eq (ended_yaml (checked_of_valid valid) named nonceHex)
      (commandOutput_newline _)
    exact absurd (congrArg List.length same) (by simp)

end StorageScaleTest.Attempts
