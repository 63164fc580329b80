import StorageScaleTest.Shell.Paths
import StorageScaleTest.Shell.Text
import StorageScaleTest.Targets.Keys
import Mathlib.Data.List.Infix

/-!
# Values of manifest placeholders

What the renderers of the Kubernetes manifests accept for each of their placeholders.
-/

namespace StorageScaleTest.Templates
open Shell Targets

abbrev Text := List Char

/-! ## Values on one line -/

/-- `KUBECTL_MAX_SEGMENTS` -/
def maxSegments : Nat := 16

/-- `KUBECTL_MAX_CLAIMS` -/
def maxClaims : Nat := 32

def begins (first rest : Char → Bool) : Text → Bool
  | [] => false
  | c :: value => first c && value.all rest

/-- `^[1-9][0-9]*$` -/
def positive (value : Text) : Bool := begins (fun c => c.isDigit && c ≠ '0') Char.isDigit value

def number (value : Text) : Nat := Nat.ofDigitChars 10 value 0

/-- `OPERATION_TOKEN` -/
def operationToken (value : Text) : Bool := value ≠ [] && value.length ≤ 63 && label value

/-- `^[A-Za-z0-9][A-Za-z0-9._/@:-]*$` -/
def image (value : Text) : Bool :=
  value ≠ [] && value.length ≤ 512 &&
    begins Char.isAlphanum (fun c => c.isAlphanum || c ∈ ['.', '_', '/', '@', ':', '-']) value

/-- `_kubectl_validate_segment_index` -/
def validateSegmentIndex (value : Text) : Bool :=
  (value = ['0'] || positive value && value.length ≤ 2) && number value < maxSegments

/-- `_kubectl_validate_sequencer_poll_seconds` -/
def validateSequencerPollSeconds (value : Text) : Bool :=
  positive value && value.length ≤ 4 && number value ≤ 3600

/-- `^[A-Za-z0-9]([A-Za-z0-9_.-]*[A-Za-z0-9])?$` -/
def labelWord (value : Text) : Bool :=
  value.head?.any Char.isAlphanum && value.getLast?.any Char.isAlphanum &&
    value.all fun c => c.isAlphanum || c ∈ ['_', '.', '-']

/-- `kubectl_validate_label_name` -/
def validateLabelName (value : Text) : Bool :=
  value ≠ [] && value.length ≤ 63 && labelWord value

/-- `kubectl_validate_label_value` -/
def validateLabelValue (value : Text) : Bool :=
  value = [] || value.length ≤ 63 && labelWord value

/-- `kubectl_validate_label_key` -/
def validateLabelKey (key : Text) : Bool :=
  match key.splitOn '/' with
  | [name] => validateLabelName name
  | [domain, name] => validateDnsSubdomain domain && validateLabelName name
  | _ => false

/-- The pattern of `kubectl_validate_uid` -/
def uidWord (value : Text) : Bool :=
  begins Char.isAlphanum (fun c => c.isAlphanum || c ∈ ['_', '.', ':', '-']) value

/-- `kubectl_validate_uid` -/
def validateUid (value : Text) : Bool := value ≠ [] && value.length ≤ 128 && uidWord value

def mountBase : Text := "/mnt/storage-scale-test/".toList

def mounted (value : Text) : Option (List Text) :=
  if mountBase <+: value then some ((value.drop mountBase.length).splitOn '/') else none

/-- `REMOTE_RUN_DIRECTORY` -/
def remoteRunDirectory (value : Text) : Bool :=
  (mounted value).any fun components => components.all plain &&
    (components.drop 2).tails.any fun
      | root :: runs :: run :: _ => root = reserved && runs = "runs".toList && hex 8 run
      | _ => false

/-- `TEST_ROOT` -/
def testRoot (value : Text) : Bool :=
  (mounted value).any fun components => components.all plain && 2 ≤ components.length

/-- `MOUNT_ROOT` -/
def mountRoot : Text → Bool
  | '/' :: path => (path.splitOn '/').all plain
  | _ => false

/-- The branches of `_kubectl_validate_placeholder`. -/
def placeholders : List (Text × (Text → Bool)) :=
  [("NAMESPACE".toList, validateNamespaceName),
    ("RESOURCE_NAME".toList, validateDnsSubdomain),
    ("NODE_NAME".toList, validateDnsSubdomain),
    ("COORDINATOR_NODE".toList, validateDnsSubdomain),
    ("ATTEMPT_ID".toList, hex 8),
    ("OWNERSHIP_NONCE".toList, hex 32),
    ("OPERATION_TOKEN".toList, operationToken),
    ("IMAGE".toList, image),
    ("IMAGE_PULL_POLICY".toList,
      fun value => value ∈ ["Always".toList, "IfNotPresent".toList, "Never".toList]),
    ("SEGMENT_INDEX".toList, validateSegmentIndex),
    ("JOB_SUSPEND".toList, fun value => value ∈ ["true".toList, "false".toList]),
    ("JOB_NAME".toList, validateDnsSubdomain),
    ("SERVICE_ACCOUNT_NAME".toList, validateDnsSubdomain),
    ("SUBJECT_NAMESPACE".toList, validateNamespaceName),
    ("POLL_SECONDS".toList, validateSequencerPollSeconds),
    ("ACTIVE_DEADLINE_SECONDS".toList, fun value => positive value && value.length ≤ 5),
    ("RUN_AS_USER".toList, positive),
    ("RUN_AS_GROUP".toList, positive),
    ("COMPONENT".toList, fun value => value ∈
      ["worker".toList, "coordinator".toList, "controller".toList, "probe".toList]),
    ("SELECTOR_KEY".toList, validateLabelKey),
    ("SELECTOR_VALUE".toList, validateLabelValue),
    ("REMOTE_RUN_DIRECTORY".toList, remoteRunDirectory),
    ("TEST_ROOT".toList, testRoot),
    ("MOUNT_ROOT".toList, mountRoot)]

/-- `_kubectl_validate_placeholder` -/
def validatePlaceholder (token value : Text) : Bool :=
  !value.any broken && (placeholders.lookup token).any (· value)

/-! ## Values on several lines -/

def isSpace (c : Char) : Bool := c ∈ [' ', '\t', '\n', '\x0b', '\x0c', '\r']

/-- What follows `[[:space:]]{width}`. -/
def indented (width : Nat) (line : Text) : Option Text :=
  if (line.take width).length = width ∧ (line.take width).all isSpace then some (line.drop width)
  else none

def quoted : Text → Option Text
  | '"' :: rest => if rest.getLast? = some '"' then some rest.dropLast else none
  | _ => none

/-- An item of a list: `- "<item>"`. -/
def listItem (width : Nat) (line : Text) : Option Text :=
  match indented width line with
  | some ('-' :: c :: rest) => if isSpace c then quoted rest else none
  | _ => none

def selectorLine (line : Text) : Bool :=
  match indented 8 line with
  | some ('"' :: rest) =>
    let isKey (c : Char) : Bool := c.isAlphanum || c ∈ ['.', '/', '_', '-']
    let key := rest.takeWhile isKey
    match rest.dropWhile isKey with
    | '"' :: ':' :: c :: value =>
      key ≠ [] && isSpace c && (quoted value).any fun value =>
        (value.all fun c => c.isAlphanum || c ∈ ['.', '_', '-']) &&
          validateLabelKey key && validateLabelValue value
    | _ => false
  | _ => false

/-- `kubectl_render_sequencer_script`, from the text of the sequencer -/
def renderSequencerScript (script : Text) : Option Text :=
  if (records script).any fun line => '\t' ∈ line || '\r' ∈ line || ['@', '@'] <:+: line then none
  else
    some (unlines ((records script).map fun line =>
      if line = [] then [] else List.replicate 16 ' ' ++ line))

def argumentLine (argument : Text) : Text :=
  List.replicate 12 ' ' ++ "- \"".toList ++ argument ++ ['"']

/-- The loop of `kubectl_render_sequencer_arguments`. -/
def argumentLines : List Text → Option (List Text)
  | ns :: name :: uid :: rest =>
    if validateNamespaceName ns ∧ validateDnsSubdomain name ∧ validateUid uid then
      (argumentLines rest).map ([argumentLine ns, argumentLine name, argumentLine uid] ++ ·)
    else none
  | _ => some []

/-- `kubectl_render_sequencer_arguments` -/
def renderSequencerArguments (arguments : List Text) : Option Text :=
  if arguments = [] ∨ arguments.length % 3 ≠ 0 ∨ maxSegments < arguments.length / 3 then none
  else (argumentLines arguments).map unlines

/-- `_kubectl_validate_claim_volume_list` -/
def validateClaimVolumeList (indent : Nat) (claims : List Text) : Bool :=
  indent ∈ [2, 4, 6, 8, 10, 12, 14, 16] && 0 < claims.length && claims.length ≤ maxClaims &&
    claims.all validateDnsSubdomain && claims.Nodup

def volumeName (indent index : Nat) : Text :=
  List.replicate indent ' ' ++ "- name: claim-".toList ++ Nat.toDigits 10 index

/-- `kubectl_render_claim_volume_mounts` -/
def renderClaimVolumeMounts (indent : Nat) (claims : List Text) : Option Text :=
  if validateClaimVolumeList indent claims then
    some (unlines (claims.zipIdx.flatMap fun (claim, index) =>
      [volumeName indent index,
        List.replicate indent ' ' ++ "  mountPath: ".toList ++ mountBase ++ claim]))
  else none

/-- `kubectl_render_claim_volumes` -/
def renderClaimVolumes (indent : Nat) (claims : List Text) : Option Text :=
  if validateClaimVolumeList indent claims then
    some (unlines (claims.zipIdx.flatMap fun (claim, index) =>
      [volumeName indent index,
        List.replicate indent ' ' ++ "  persistentVolumeClaim:".toList,
        List.replicate indent ' ' ++ "    claimName: \"".toList ++ claim ++ ['"']]))
  else none

def isClaim (c : Char) : Bool := c.isLower || c.isDigit || c = '.' || c = '-'

def blockClaim (line : Text) : Option Text :=
  let path := "mountPath: ".toList ++ mountBase
  let name := "claimName: ".toList
  let rest := line.dropWhile (· = ' ')
  let claim := if path <+: rest then some (rest.drop path.length)
    else if name <+: rest then quoted (rest.drop name.length) else none
  if line.head? = some ' ' then claim.filter fun claim => claim ≠ [] && claim.all isClaim else none

/-- `_kubectl_validate_claim_volume_block` -/
def validateClaimVolumeBlock (mounts : Bool) (value : Text) : Bool :=
  let indent := (value.takeWhile (· = ' ')).length
  let claims := (value.splitOn '\n').filterMap blockClaim
  let expected := if mounts then renderClaimVolumeMounts indent claims
    else renderClaimVolumes indent claims
  expected.any fun expected => value = stripNewlines expected

/-- The branches of `_kubectl_validate_multiline_placeholder`, next to the sequencer. -/
def multilinePlaceholders (script : Text) : List (Text × (Text → Bool)) :=
  [("NODE_SELECTOR_BLOCK".toList, fun value => (value.splitOn '\n').all selectorLine),
    ("NODE_AFFINITY_VALUES".toList, fun value => (value.splitOn '\n').all fun line =>
      (listItem 22 line).any fun name => subdomain name && validateDnsSubdomain name),
    ("TEST_ROOT_ARGUMENTS".toList, fun value => (value.splitOn '\n').all fun line =>
      ((indented 16 line).bind quoted).any testRoot),
    ("SEQUENCER_SCRIPT".toList, fun value =>
      (renderSequencerScript script).any fun expected => value = stripNewlines expected),
    ("SEQUENCER_ARGUMENTS".toList, fun value =>
      (((value.splitOn '\n').mapM fun line => (listItem 12 line).filter uidWord).bind
        renderSequencerArguments).any fun expected => value = stripNewlines expected),
    ("CLAIM_VOLUME_MOUNTS".toList, validateClaimVolumeBlock true),
    ("CLAIM_VOLUMES".toList, validateClaimVolumeBlock false)]

/-- `_kubectl_validate_multiline_placeholder` -/
def validateMultilinePlaceholder (script token value : Text) : Bool :=
  ((multilinePlaceholders script).lookup token).any (· value)

end StorageScaleTest.Templates
