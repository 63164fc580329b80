import StorageScaleTest.Shell.Sort
import StorageScaleTest.Shell.Words
import Mathlib.Data.List.DropRight

/-!
# Claim-qualified roots

The keys of `TEST_DIRS` on Kubernetes, their paths in a Pod, and the name that the roots give to
their storage target, as the shell and Python derive them.
-/

namespace StorageScaleTest.Targets
open Shell

/-! ## Names -/

def edge (c : Char) : Bool := c.isLower || c.isDigit

/-- `^[a-z0-9]([a-z0-9-]*[a-z0-9])?$` -/
def label (word : List Char) : Bool :=
  word.head?.any edge && word.getLast?.any edge && word.all fun c => edge c || c = '-'

/-- `^[a-z0-9]([a-z0-9.-]*[a-z0-9])?$` -/
def subdomain (word : List Char) : Bool :=
  word.head?.any edge && word.getLast?.any edge && word.all fun c => edge c || c = '-' || c = '.'

/-- `^[A-Za-z0-9._-]+$` -/
def plain (word : List Char) : Bool :=
  word ≠ [] && word.all fun c => c.isAlphanum || c = '.' || c = '_' || c = '-'

/-- `kubectl_validate_namespace_name` -/
def validateNamespaceName (value : List Char) : Bool :=
  value ≠ [] && value.length ≤ 63 && label value

/-- `kubectl_validate_dns_subdomain`, which is also `kubectl_validate_object_name` -/
def validateDnsSubdomain (value : List Char) : Bool :=
  value ≠ [] && value.length ≤ 253 && subdomain value &&
    (fields '.' value).all fun word => word ≠ [] && word.length ≤ 63 && label word

/-! ## Keys in the shell -/

/-- `KUBECTL_SWEEP_RESERVED_ROOT` -/
def reserved : List Char := ".storage-scale-test".toList

def broken (c : Char) : Bool := c = '\n' || c = '\r' || c = '\t'

def addComponent (normalized : List (List Char)) (component : List Char) :
    Option (List (List Char)) :=
  if component = [] then some normalized
  else if component = ['.'] ∨ component = ['.', '.'] then none
  else if component = reserved then none
  else if ¬plain component then none
  else some (normalized ++ [component])

/-- `_kubectl_normalize_claim_path` -/
def normalizeClaimPath (value : List Char) : Option (List Char) :=
  if value = [] ∨ value.any broken then none
  else
    match (fields '/' (value.dropWhile (· = '/'))).foldlM addComponent [] with
    | none | some [] => none
    | some normalized => some (join '/' normalized)

structure Root where
  ns : List Char
  claim : List Char
  path : List Char
  deriving DecidableEq, Repr

/-- `NAMESPACE/CLAIM:PATH` -/
def Root.text (root : Root) : List Char := root.ns ++ '/' :: root.claim ++ ':' :: root.path

def before (separator : Char) (text : List Char) : List Char := text.takeWhile (· ≠ separator)

def after (separator : Char) (text : List Char) : List Char :=
  (text.dropWhile (· ≠ separator)).tail

/-- `kubectl_split_test_dir_key`, from `KUBECTL_NAMESPACE` -/
def splitTestDirKey (namespace_ key : List Char) : Option Root :=
  if ':' ∉ key then none
  else
    let qualifier := before ':' key
    let rest := after ':' key
    let (ns, claim) :=
      if '/' ∈ qualifier then (before '/' qualifier, after '/' qualifier)
      else (namespace_, qualifier)
    if ('/' ∉ qualifier ∧ ns = []) ∨ ¬validateNamespaceName ns then none
    else if '/' ∈ claim ∨ ¬validateDnsSubdomain claim then none
    else (normalizeClaimPath rest).map fun path => ⟨ns, claim, path⟩

/-- `kubectl_normalize_logical_path` -/
def normalizeLogicalPath (namespace_ key : List Char) : Option (List Char) :=
  (splitTestDirKey namespace_ key).map Root.text

/-- `kubectl_claim_mount_root` -/
def claimMountRoot (mountRoot claim : List Char) : Option (List Char) :=
  if validateDnsSubdomain claim then some (mountRoot ++ '/' :: claim) else none

/-- `kubectl_map_logical_path` -/
def mapLogicalPath (mountRoot namespace_ key : List Char) : Option (List Char) :=
  (splitTestDirKey namespace_ key).map fun root =>
    mountRoot ++ '/' :: root.claim ++ '/' :: root.path

/-- The loop over the keys in `kubectl_read_from_logical_path`: the namespaces of a claim. -/
def claimNamespaces (namespace_ claim : List Char) : List (List Char) → Option (List (List Char))
  | [] => some []
  | key :: keys => do
    let root ← splitTestDirKey namespace_ key
    let found ← claimNamespaces namespace_ claim keys
    some (if root.claim = claim then found.insert root.ns else found)

/-- `kubectl_read_from_logical_path` -/
def readFromLogicalPath (mountRoot namespace_ : List Char) (keys : List (List Char))
    (value : List Char) : Option (List Char) :=
  if ¬(mountRoot ++ ['/']) <+: value then some value
  else
    let rest := value.drop (mountRoot.length + 1)
    let claim := before '/' rest
    match claimNamespaces namespace_ claim keys with
    | some [ns] => some (Root.text ⟨ns, claim, if '/' ∈ rest then after '/' rest else []⟩)
    | _ => none

/-! ## Target names in the shell -/

def stripSlashes (key : List Char) : List Char :=
  let root := key.rdropWhile (· = '/')
  if root = [] then ['/'] else root

/-- `storage_target_name_default`, for the keys in some order -/
def storageTargetNameDefault (substrate namespace_ : List Char) (keys : List (List Char)) :
    Option (List Char) :=
  if keys = [] then none
  else
    let roots := (keys.filter (· ≠ [])).map stripSlashes
    let roots :=
      if substrate = "kubectl".toList then
        match keys.mapM (splitTestDirKey namespace_) with
        | some qualified => qualified.map Root.text
        | none => roots
      else roots
    if roots = [] then none else some (join ',' (sortUnique roots))

/-! ## Target names in Python -/

/-- `re.match`, whose `$` is also in front of a newline at the end -/
def matchLine (pattern : List Char → Bool) (word : List Char) : Bool :=
  pattern word || word.getLast? = some '\n' && pattern word.dropLast

/-- `_valid_claim` -/
def validClaim (claim : List Char) : Bool :=
  !(claim = [] || claim.length > 253 || !matchLine subdomain claim) &&
    (claim.splitOn '.').all fun word => word ≠ [] && word.length ≤ 63 && matchLine label word

/-- `_claim_path` -/
def claimPath (value : List Char) : Option (List Char) :=
  if value = [] ∨ value.any broken then none
  else
    let components := (value.splitOn '/').filter (· ≠ [])
    if components.any fun component =>
        component ∈ [['.'], ['.', '.'], reserved] || !matchLine plain component then none
    else if join '/' components = [] then none
    else some (join '/' components)

/-- `qualified_root` -/
def qualifiedRoot (key defaultNamespace : List Char) : Option (List Char) :=
  if ':' ∉ key then none
  else
    let qualifier := before ':' key
    let rest := after ':' key
    let (ns, claim) :=
      if '/' ∈ qualifier then (before '/' qualifier, after '/' qualifier)
      else (defaultNamespace, qualifier)
    if ns = [] ∨ ns.length > 63 ∨ ¬matchLine label ns then none
    else if '/' ∈ claim ∨ ¬validClaim claim then none
    else (claimPath rest).map fun path => Root.text ⟨ns, claim, path⟩

/-- `sorted` on a set -/
def sortedSet (roots : List (List Char)) : List (List Char) :=
  roots.dedup.mergeSort fun a b => decide (a ≤ b)

/-- `test_dirs_target_name` -/
def testDirsTargetName (keys : List (List Char)) : Option (List Char) :=
  let roots := (keys.filter (· ≠ [])).map stripSlashes
  if roots = [] then none else some (join ',' (sortedSet roots))

/-- `_qualified_roots_name` -/
def qualifiedRootsName (namespace_ : List Char) (keys : List (List Char)) : Option (List Char) :=
  if keys = [] then none
  else (keys.mapM fun key => qualifiedRoot key namespace_).map fun roots => join ',' (sortedSet roots)

/-- `default_storage_target_name` -/
def defaultStorageTargetName (substrate namespace_ : List Char) (keys : List (List Char)) :
    Option (List Char) :=
  if substrate = "kubectl".toList then
    (qualifiedRootsName namespace_ keys).or (testDirsTargetName keys)
  else testDirsTargetName keys

end StorageScaleTest.Targets
