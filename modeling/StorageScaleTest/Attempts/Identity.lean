import StorageScaleTest.Shell.Script
import StorageScaleTest.Templates.Values
import Mathlib.Data.List.Sort

/-!
# Attempt identities

The identity of a Kubernetes attempt: collected from claim tuples, checked, published as a script
and as YAML, and loaded again.
-/

namespace StorageScaleTest.Attempts
open Shell Targets Templates

/-! ## The arrays -/

/-- `KUBECTL_SEGMENT_COUNT`, `KUBECTL_CLAIM_COUNT` and the identity arrays -/
structure Identity where
  segmentCount : Text
  claimCount : Text
  segmentNamespaces : List Text
  segmentNamespaceUids : List Text
  claimSegments : List Text
  claimNamespaces : List Text
  claimNamespaceUids : List Text
  claimPvcs : List Text
  claimPvcUids : List Text
  claimPvs : List Text
  claimPvUids : List Text
  claimLeaseNames : List Text
  deriving DecidableEq

structure Claim where
  segment : Text
  ns : Text
  nsUid : Text
  pvc : Text
  pvcUid : Text
  pv : Text
  pvUid : Text
  lease : Text
  deriving DecidableEq

def Identity.claim (identity : Identity) (index : Nat) : Claim where
  segment := identity.claimSegments.getD index []
  ns := identity.claimNamespaces.getD index []
  nsUid := identity.claimNamespaceUids.getD index []
  pvc := identity.claimPvcs.getD index []
  pvcUid := identity.claimPvcUids.getD index []
  pv := identity.claimPvs.getD index []
  pvUid := identity.claimPvUids.getD index []
  lease := identity.claimLeaseNames.getD index []

def Identity.claims (identity : Identity) : List Claim :=
  (List.range (number identity.claimCount)).map identity.claim

/-- `KUBECTL_SEGMENT_IDENTITY_ARRAYS` -/
def Identity.segmentArrays (identity : Identity) : List (Text × List Text) :=
  [("KUBECTL_SEGMENT_NAMESPACES".toList, identity.segmentNamespaces),
    ("KUBECTL_SEGMENT_NAMESPACE_UIDS".toList, identity.segmentNamespaceUids)]

/-- `KUBECTL_CLAIM_IDENTITY_ARRAYS` -/
def Identity.claimArrays (identity : Identity) : List (Text × List Text) :=
  [("KUBECTL_CLAIM_SEGMENTS".toList, identity.claimSegments),
    ("KUBECTL_CLAIM_NAMESPACES".toList, identity.claimNamespaces),
    ("KUBECTL_CLAIM_NAMESPACE_UIDS".toList, identity.claimNamespaceUids),
    ("KUBECTL_CLAIM_PVCS".toList, identity.claimPvcs),
    ("KUBECTL_CLAIM_PVC_UIDS".toList, identity.claimPvcUids),
    ("KUBECTL_CLAIM_PVS".toList, identity.claimPvs),
    ("KUBECTL_CLAIM_PV_UIDS".toList, identity.claimPvUids),
    ("KUBECTL_CLAIM_LEASE_NAMES".toList, identity.claimLeaseNames)]

/-! ## Checks -/

/-- `$(…)` and `$(<file)` drop null characters and the last newlines. -/
def commandOutput (text : Text) : Text := stripNewlines (text.filter (· ≠ '\x00'))

/-- `_kubectl_validate_segment_count` and `_kubectl_validate_claim_count` -/
def validateCount (limit : Nat) (value : Text) : Bool :=
  positive value && value.length ≤ 2 && number value ≤ limit

/-- `_kubectl_validate_claim_index` -/
def validateClaimIndex (value : Text) : Bool :=
  (value = ['0'] || positive value && value.length ≤ 2) && number value < maxClaims

def sized (text : Text) : Text := Nat.toDigits 10 text.length ++ ':' :: text

variable (digest : Text → Option Text)

/-- `kubectl_pvc_lease_name`, from a digest of its text -/
def pvcLeaseName (namespaceUid pvUid pvcUid : Text) : Option Text :=
  if validateUid namespaceUid ∧ validateUid pvUid ∧ validateUid pvcUid then
    (digest ("lease-v1|".toList ++ sized namespaceUid ++ '|' :: sized pvUid ++ '|' :: sized pvcUid)).map
      fun hash => commandOutput ("sst-elb-pvc-".toList ++ hash.take 32)
  else none

/-- `_kubectl_validate_claim_identity_entry` -/
def validateClaimIdentityEntry (identity : Identity) (claim : Claim) : Bool :=
  validateSegmentIndex claim.segment && number claim.segment < number identity.segmentCount &&
    identity.segmentNamespaces[number claim.segment]? = some claim.ns &&
    identity.segmentNamespaceUids[number claim.segment]? = some claim.nsUid &&
    validateDnsSubdomain claim.pvc && validateUid claim.pvcUid &&
    validateDnsSubdomain claim.pv && validateUid claim.pvUid &&
    pvcLeaseName digest claim.nsUid claim.pvUid claim.pvcUid = some claim.lease

/-- The loop over the segments of `_kubectl_validate_attempt_identity_arrays`. -/
def validateSegments (namespaces uids : List Text) : List (Text × Text) → Bool
  | [] => true
  | (ns, uid) :: segments =>
    validateNamespaceName ns && validateUid uid && ns ∉ namespaces && uid ∉ uids &&
      validateSegments (ns :: namespaces) (uid :: uids) segments

structure Seen where
  previous : Text
  pvs : List Text
  pvUids : List Text
  pvcUids : List Text
  used : List Text

def validateClaim (identity : Identity) (seen : Seen) (claim : Claim) : Option Seen :=
  let current := claim.ns ++ '\t' :: claim.pvc
  if ¬validateClaimIdentityEntry digest identity claim then none
  else if seen.previous ≠ [] ∧ ¬seen.previous < current then none
  else if claim.pv ∈ seen.pvs ∨ claim.pvUid ∈ seen.pvUids ∨ claim.pvcUid ∈ seen.pvcUids then none
  else some ⟨current, claim.pv :: seen.pvs, claim.pvUid :: seen.pvUids,
    claim.pvcUid :: seen.pvcUids, seen.used.insert claim.segment⟩

/-- `_kubectl_validate_attempt_identity_arrays` -/
def validateAttemptIdentityArrays (identity : Identity) : Bool :=
  validateCount maxSegments identity.segmentCount && validateCount maxClaims identity.claimCount &&
    number identity.segmentCount ≤ number identity.claimCount &&
    (identity.segmentArrays.all fun array => array.2.length = number identity.segmentCount) &&
    (identity.claimArrays.all fun array => array.2.length = number identity.claimCount) &&
    validateSegments [] [] (identity.segmentNamespaces.zip identity.segmentNamespaceUids) &&
    (identity.claims.foldlM (validateClaim digest identity) ⟨[], [], [], [], []⟩).any fun seen =>
      seen.used.length = number identity.segmentCount

/-! ## Collection -/

structure ClaimTuple where
  ns : Text
  nsUid : Text
  pv : Text
  pvUid : Text
  pvc : Text
  pvcUid : Text
  deriving DecidableEq

def tuplesOf : List Text → Option (List ClaimTuple)
  | [] => some []
  | ns :: nsUid :: pv :: pvUid :: pvc :: pvcUid :: rest =>
    (tuplesOf rest).map (⟨ns, nsUid, pv, pvUid, pvc, pvcUid⟩ :: ·)
  | _ => none

def ClaimTuple.row (t : ClaimTuple) : Text :=
  join '\t' [t.ns, t.pvc, t.nsUid, t.pv, t.pvUid, t.pvcUid]

/-- The first loop of `_kubectl_collect_claim_tuples`, on the namespaces with their UIDs. -/
def addTuple (segments : List (Text × Text)) (t : ClaimTuple) : Option (List (Text × Text)) :=
  if '\t' ∈ t.ns ∨ '\t' ∈ t.pv ∨ '\t' ∈ t.pvc then none
  else if t.ns ∈ segments.map Prod.fst then some segments
  else some (segments ++ [(t.ns, t.nsUid)])

/-- The variables that `IFS=$'\t' read -r` sets from a line. -/
def readFields : Nat → Text → List Text
  | 0, _ => []
  | 1, line => [(line.dropWhile (· = '\t')).rdropWhile (· = '\t')]
  | count + 2, line =>
    let line := line.dropWhile (· = '\t')
    line.takeWhile (· ≠ '\t') :: readFields (count + 1) (line.dropWhile (· ≠ '\t'))

def sortKey (position : Nat) (line : Text) : Text := (line.splitOn '\t').getD position []

/-- `LC_ALL=C sort -t $'\t' -k1,1 -k2,2`, which compares whole lines at last -/
def rowLe (a b : Text) : Prop :=
  sortKey 0 a < sortKey 0 b ∨ sortKey 0 a = sortKey 0 b ∧
    (sortKey 1 a < sortKey 1 b ∨ sortKey 1 a = sortKey 1 b ∧ a ≤ b)

instance : DecidableRel rowLe := fun _ _ => inferInstanceAs (Decidable (_ ∨ _))

def readRow (segments : List (Text × Text)) (line : Text) : Option Claim :=
  match readFields 6 line with
  | [ns, pvc, nsUid, pv, pvUid, pvcUid] =>
    (pvcLeaseName digest nsUid pvUid pvcUid).map fun lease =>
      ⟨((segments.map Prod.fst).idxOf? ns).elim [] (Nat.toDigits 10), ns, nsUid, pvc, pvcUid, pv,
        pvUid, lease⟩
  | _ => none

def identityOf (segments : List (Text × Text)) (claims : List Claim) : Identity where
  segmentCount := Nat.toDigits 10 segments.length
  claimCount := Nat.toDigits 10 claims.length
  segmentNamespaces := segments.map Prod.fst
  segmentNamespaceUids := segments.map Prod.snd
  claimSegments := claims.map Claim.segment
  claimNamespaces := claims.map Claim.ns
  claimNamespaceUids := claims.map Claim.nsUid
  claimPvcs := claims.map Claim.pvc
  claimPvcUids := claims.map Claim.pvcUid
  claimPvs := claims.map Claim.pv
  claimPvUids := claims.map Claim.pvUid
  claimLeaseNames := claims.map Claim.lease

/-- `_kubectl_collect_claim_tuples` -/
def collectClaimTuples (arguments : List Text) : Option Identity := do
  let tuples ← tuplesOf arguments
  if tuples = [] ∨ maxClaims < tuples.length then none
  let segments ← tuples.foldlM addTuple []
  let rows := unlines (tuples.map ClaimTuple.row)
  let claims ← ((readLines rows).insertionSort rowLe).mapM (readRow digest segments)
  some (identityOf segments claims)

/-! ## Files -/

def schemaName : Text := "KUBECTL_ATTEMPT_SCHEMA".toList
def attemptName : Text := "KUBECTL_ATTEMPT_ID".toList
def nonceName : Text := "KUBECTL_OWNERSHIP_NONCE".toList
def segmentCountName : Text := "KUBECTL_SEGMENT_COUNT".toList
def claimCountName : Text := "KUBECTL_CLAIM_COUNT".toList

/-- `KUBECTL_ATTEMPT_SCHEMA_VERSION` -/
def schemaVersion : Text := ['4']

variable [Ctype]

/-- `_kubectl_render_identity_shell` -/
def renderIdentityShell (attemptId nonce : Text) (identity : Identity) : Text :=
  unlines (["# Trusted storage-scale-test Kubernetes attempt metadata.".toList,
      scalarLine schemaName schemaVersion,
      scalarLine attemptName attemptId,
      scalarLine nonceName nonce,
      scalarLine segmentCountName identity.segmentCount,
      scalarLine claimCountName identity.claimCount] ++
    (identity.segmentArrays ++ identity.claimArrays).map fun (name, values) =>
      declareLine name values)

/-- `<key>"<value>"` -/
def yamlLine (key : String) (value : Text) : Text := key.toList ++ '"' :: (value ++ ['"'])

def yamlClaim (index : Nat) (claim : Claim) : List Text :=
  ["      - index: ".toList ++ Nat.toDigits 10 index,
    yamlLine "        namespace: " claim.ns,
    yamlLine "        claim: " claim.pvc,
    yamlLine "        pv: " claim.pv,
    yamlLine "        namespace_uid: " claim.nsUid,
    yamlLine "        pv_uid: " claim.pvUid,
    yamlLine "        pvc_uid: " claim.pvcUid,
    yamlLine "        lease_name: " claim.lease]

def yamlSegment (identity : Identity) (segment : Nat) : List Text :=
  ["  - index: ".toList ++ Nat.toDigits 10 segment,
    yamlLine "    namespace: " (identity.segmentNamespaces.getD segment []),
    yamlLine "    namespace_uid: " (identity.segmentNamespaceUids.getD segment []),
    "    claims:".toList] ++
  (List.range (number identity.claimCount)).flatMap fun index =>
    if identity.claimSegments.getD index [] = Nat.toDigits 10 segment then
      yamlClaim index (identity.claim index)
    else []

/-- `_kubectl_render_identity_yaml` -/
def renderIdentityYaml (attemptId nonce : Text) (identity : Identity) : Text :=
  unlines (["schema: ".toList ++ schemaVersion,
      yamlLine "attempt_id: " attemptId,
      yamlLine "ownership_nonce: " nonce,
      "segments:".toList] ++
    (List.range (number identity.segmentCount)).flatMap (yamlSegment identity))

/-- `identity.sh` and `identity.yaml` -/
structure IdentityFiles where
  shell : Text
  yaml : Text
  deriving DecidableEq

def renderIdentity (attemptId nonce : Text) (identity : Identity) : IdentityFiles where
  shell := renderIdentityShell attemptId nonce identity
  yaml := renderIdentityYaml attemptId nonce identity

/-- `kubectl_attempt_create_identity`: the arrays it has checked, and the files it publishes -/
def createIdentity (attemptId nonce : Text) (arguments : List Text) :
    Option (Identity × IdentityFiles) :=
  if ¬hex 8 attemptId ∨ ¬hex 32 nonce then none
  else match collectClaimTuples digest arguments with
    | some identity =>
      if validateAttemptIdentityArrays digest identity then
        some (identity, renderIdentity attemptId nonce identity)
      else none
    | none => none

/-! ## Loading -/

def scalarOf (found : List (Text × Assigned)) (name : Text) : Text :=
  match found.reverse.lookup name with
  | some (.scalar value) => value
  | _ => []

def arrayOf (found : List (Text × Assigned)) (name : Text) : List Text :=
  match found.reverse.lookup name with
  | some (.array values) => values
  | _ => []

/-- What a script assigns to the identity, all of which was unset. -/
def sourced (found : List (Text × Assigned)) : Identity where
  segmentCount := scalarOf found segmentCountName
  claimCount := scalarOf found claimCountName
  segmentNamespaces := arrayOf found "KUBECTL_SEGMENT_NAMESPACES".toList
  segmentNamespaceUids := arrayOf found "KUBECTL_SEGMENT_NAMESPACE_UIDS".toList
  claimSegments := arrayOf found "KUBECTL_CLAIM_SEGMENTS".toList
  claimNamespaces := arrayOf found "KUBECTL_CLAIM_NAMESPACES".toList
  claimNamespaceUids := arrayOf found "KUBECTL_CLAIM_NAMESPACE_UIDS".toList
  claimPvcs := arrayOf found "KUBECTL_CLAIM_PVCS".toList
  claimPvcUids := arrayOf found "KUBECTL_CLAIM_PVC_UIDS".toList
  claimPvs := arrayOf found "KUBECTL_CLAIM_PVS".toList
  claimPvUids := arrayOf found "KUBECTL_CLAIM_PV_UIDS".toList
  claimLeaseNames := arrayOf found "KUBECTL_CLAIM_LEASE_NAMES".toList

/-- `_kubectl_reject_v1_identity`: the schema that `sed` prints is 2 or 3 -/
def rejectV1Identity (shell : Text) : Bool :=
  let key := schemaName ++ ['=']
  let schemas := (records shell).filterMap fun line =>
    if key <+: line ∧ (line.drop key.length).all Char.isDigit then some (line.drop key.length)
    else none
  commandOutput (unlines schemas) ∈ [['2'], ['3']]

/-- `_kubectl_verify_loaded_identity` -/
def verifyLoadedIdentity (attemptId nonce : Text) (identity : Identity) (files : IdentityFiles) :
    Bool :=
  validateAttemptIdentityArrays digest identity &&
    commandOutput files.shell = commandOutput (renderIdentityShell attemptId nonce identity) &&
    commandOutput files.yaml = commandOutput (renderIdentityYaml attemptId nonce identity)

/-- `kubectl_use_claim` -/
def useClaim (identity : Identity) (index : Text) : Option Text :=
  if validateClaimIndex index ∧ (positive identity.claimCount ∧ identity.claimCount.length ≤ 2) ∧
      number index < number identity.claimCount then some index
  else none

/-- `kubectl_segment_claim_indexes` -/
def segmentClaimIndexes (identity : Identity) (segment : Text) : List Nat :=
  (List.range (number identity.claimCount)).filter fun index =>
    identity.claimSegments.getD index [] = segment

/-- `kubectl_use_segment`: the active claim -/
def useSegment (identity : Identity) (index : Text) : Option Text :=
  if validateSegmentIndex index ∧
      (positive identity.segmentCount ∧ identity.segmentCount.length ≤ 2) ∧
      number index < number identity.segmentCount then
    match segmentClaimIndexes identity index with
    | first :: _ => useClaim identity (Nat.toDigits 10 first)
    | [] => none
  else none

/-- `KUBECTL_SEGMENT_SELECTION` and `KUBECTL_CLAIM_SELECTION`, empty where nothing is selected -/
structure Selection where
  segment : Text
  claim : Text

/-- The claim that is active after a segment with this first claim. -/
def activeClaim (identity : Identity) (selection : Selection) (first : Text) : Option Text :=
  if selection.claim = [] then some first else useClaim identity selection.claim

structure Loaded where
  nonce : Text
  identity : Identity
  activeSegment : Text
  activeClaim : Text

/-- `kubectl_attempt_load_identity`, on the name of the directory and the two files in it -/
def loadIdentity (basename : Text) (files : IdentityFiles) (selection : Selection) : Option Loaded :=
  if ¬hex 8 basename ∨ rejectV1Identity files.shell then none
  else match declarations (files.shell.filter (· ≠ '\x00')) with
    | none => none
    | some found =>
      let identity := sourced found
      let nonce := scalarOf found nonceName
      let segment := if selection.segment = [] then ['0'] else selection.segment
      if scalarOf found schemaName ≠ schemaVersion ∨ scalarOf found attemptName ≠ basename ∨
          ¬hex 32 nonce then none
      else if ¬verifyLoadedIdentity digest basename nonce identity files then none
      else (useSegment identity segment).bind fun first =>
        (activeClaim identity selection first).map fun claim => ⟨nonce, identity, segment, claim⟩

end StorageScaleTest.Attempts
