import StorageScaleTest.Shell.Script
import StorageScaleTest.Shell.Sort

/-!
# Provenance of environment overrides

The scalars and arrays that record the applied `--env-override` files, in memory and in a snapshot.
-/

namespace StorageScaleTest.Overrides
open Shell

/-- `STORAGE_SCALE_TEST_ENV_OVERRIDE_…` -/
structure Provenance where
  file : List Char
  sha256 : List Char
  vars : List Char
  files : List (List Char)
  sha256s : List (List Char)
  fileVars : List (List Char)
  deriving DecidableEq

/-- `reset_env_override_provenance` -/
def reset : Provenance := ⟨[], [], [], [], [], []⟩

/-- The words that `read -r -a` finds in the entries of an array. -/
def words (entries : List (List Char)) : List (List Char) :=
  ((firstLine (join ' ' entries)).splitOnP fun c => c = ' ' || c = '\t').filter (· ≠ [])

def union (fileVars : List (List Char)) : List Char := join ' ' (sortUnique (words fileVars))

/-- `_refresh_env_override_scalars` -/
def refresh (p : Provenance) : Provenance :=
  match p.files.getLast? with
  | none => { p with file := [], sha256 := [], vars := [] }
  | some file =>
    { p with
      file := file
      sha256 := p.sha256s.getD (p.files.length - 1) []
      vars := union p.fileVars }

structure Override where
  label : List Char
  sha256 : List Char
  vars : List Char

/-- `record_env_override_applied` -/
def record (p : Provenance) (override : Override) : Provenance :=
  refresh
    { p with
      files := p.files ++ [override.label]
      sha256s := p.sha256s ++ [override.sha256]
      fileVars := p.fileVars ++ [override.vars] }

def rebuild (p : Provenance) : Provenance :=
  if p.file = [] then { p with files := [], sha256s := [], fileVars := [] }
  else { p with files := [p.file], sha256s := [p.sha256], fileVars := [p.vars] }

/-- `normalize_env_override_provenance` -/
def normalize (p : Provenance) : Provenance :=
  if p.files ≠ [] ∧ p.file ≠ [] ∧ p.sha256s.length = p.files.length ∧
      p.fileVars.length = p.files.length then
    let refreshed := refresh p
    if refreshed.file = p.file ∧ refreshed.sha256 = p.sha256 ∧ refreshed.vars = p.vars then
      refreshed
    else rebuild p
  else rebuild p

/-! ## Snapshots -/

def overrideName (suffix : List Char) : List Char := "STORAGE_SCALE_TEST_ENV_OVERRIDE_".toList ++ suffix

def fileName : List Char := overrideName "FILE".toList
def sha256Name : List Char := overrideName "SHA256".toList
def varsName : List Char := overrideName "VARIABLES".toList
def filesName : List Char := overrideName "FILES".toList
def sha256sName : List Char := overrideName "SHA256S".toList
def fileVarsName : List Char := overrideName "FILE_VARIABLES".toList

/-- `_emit_env_override_provenance_sh` -/
def emit [Ctype] (p : Provenance) : List Char :=
  let p := normalize p
  unlines
    ["# --env-override provenance (empty when none was used).".toList,
      scalarLine fileName p.file,
      scalarLine sha256Name p.sha256,
      scalarLine varsName p.vars,
      arrayLine filesName p.files,
      arrayLine sha256sName p.sha256s,
      arrayLine fileVarsName p.fileVars]

/-- An assignment to one of the variables; those to other variables change nothing here. -/
def assign (p : Provenance) (assignment : List Char × Assigned) : Provenance :=
  match assignment with
  | (name, .scalar value) =>
    if name = fileName then { p with file := value }
    else if name = sha256Name then { p with sha256 := value }
    else if name = varsName then { p with vars := value }
    else p
  | (name, .array values) =>
    if name = filesName then { p with files := values }
    else if name = sha256sName then { p with sha256s := values }
    else if name = fileVarsName then { p with fileVars := values }
    else p

def source (text : List Char) (p : Provenance) : Option Provenance :=
  (assignments text).map fun found => found.foldl assign p

/-- A snapshot that predates the arrays. -/
def emitLegacy [Ctype] (file sha256 vars : List Char) : List Char :=
  unlines [scalarLine fileName file, scalarLine sha256Name sha256, scalarLine varsName vars]

end StorageScaleTest.Overrides
