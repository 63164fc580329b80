import StorageScaleTest.Coordinator.Ledger

/-!
# Published paths

What the collector demands of a path, and what it reads from one.
-/

namespace StorageScaleTest.Import

open Shell

abbrev Text := List Char

def executionsStart : Text := "executions/".toList
def resultsStart : Text := "results/".toList
def statusSuffix : Text := ".status".toList
def exitcodeSuffix : Text := ".exitcode".toList
def workersSuffix : Text := ".workers.tsv".toList

/-- `_kubectl_safe_archive_member` -/
def safeArchiveMember (member : Text) : Bool :=
  member ≠ [] && member.head? ≠ some '/' && member.all isPathChar
    && (Coordinator.components member).all fun part =>
      part ≠ [] && part ≠ ['.'] && part ≠ ['.', '.']

/-- `_kubectl_safe_relative_file_path` -/
def safeRelativeFilePath (path : Text) : Bool := path.getLast? ≠ some '/' && safeArchiveMember path

def numbered? (start : Text) (separator : Char) (path : Text) : Option (Text × Text) :=
  let rest := path.drop start.length
  if start.isPrefixOf path && isCellId (rest.take 4) && rest[4]? = some separator then
    some (rest.take 4, rest.drop 5)
  else none

/-- `executions/NNNN.…` -/
def executionPath? (path : Text) : Option (Text × Text) := numbered? executionsStart '.' path

/-- `results/NNNN/…` -/
def resultPath? (path : Text) : Option (Text × Text) :=
  (numbered? resultsStart '/' path).filter (·.2 ≠ [])

def cellFile (id suffix : Text) : Text := executionsStart ++ (id ++ suffix)

def ledgerNames : List (Text × Text) :=
  [("run".toList, "status".toList), ("run-summary".toList, "tsv".toList),
    ("startup-error".toList, "txt".toList), ("coordinator-loss".toList, "tsv".toList)]

def ledgerPaths : List Text := ledgerNames.map fun name => name.1 ++ '.' :: name.2

def batchLedgerPath (path : Text) : Bool :=
  ledgerPaths.contains path || match executionPath? path with
    | none => false
    | some (_, rest) => [statusSuffix, exitcodeSuffix, workersSuffix].contains ('.' :: rest)

end StorageScaleTest.Import
