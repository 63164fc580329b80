import StorageScaleTest.Shell.Paths

/-!
# Deleting a sweep subtree

`--delete-only`: the submitter checks the resolved path, and another process, in a directory of its
own, removes what the string it was given denotes there.
-/

namespace StorageScaleTest.Sweep

open Shell

structure WorkingDirectory (layout : Layout) where
  location : Location
  physical : layout.Physical location
  named : Named location

variable (layout : Layout) (n : Nat)

/-! ## Validation -/

/-- `_elbencho_path_strict_subdir_of_test_root` on resolved paths -/
def strictSubdir (user base : Location) : Bool :=
  (stripNewlines (render base) ++ ['/']).isPrefixOf (stripNewlines (render user))

/-- `validate_elbencho_sweep_delete_only_path` -/
def validateDeleteOnlyPath (cwd : Location) (root path : List Char) : Bool :=
  match layout.realpath n cwd path, layout.realpath n cwd root with
  | some user, some base => strictSubdir user base
  | _, _ => false

/-! ## Removal -/

def lastPart (path : List Char) : List Char := (path.splitOn '/').getLast?.getD []

/-- The end of the path makes the tools follow a link in its last component. -/
def followsLast (path : List Char) : Bool :=
  lastPart path = [] || lastPart path = ['.'] || lastPart path = ['.', '.']

def lastLink (cwd : Location) (path : List Char) : Option Location :=
  match (components path).getLast?, layout.lookup n (Layout.start cwd path) (components path).dropLast with
  | some name, some parent =>
    if (layout.linkAt (parent ++ [name])).isSome then some (parent ++ [name]) else none
  | _, _ => none

inductive Removal
  | nothing
  | tree (top : Location)
  | contents (directory : Location)
  | workingDirectory
  deriving DecidableEq, Repr

/-- `find`, `rm` and `rmdir` take the path for an option; a single dash they take for a path. -/
def isOption (path : List Char) : Bool := path.head? = some '-' && path ≠ ['-']

/-- The path exists where the removal runs, and no tool rejects it as an option. `expression` tells
for which words `find` lists files of the working directory. -/
def removable (cwd : Location) (expression : List Char → Bool) (path : List Char) : Bool :=
  match layout.resolve n cwd path with
  | none => false
  | some real =>
    if layout.entry real = some .directory then !isOption path || expression path
    else !followsLast path && !isOption path

/-- `delete_path_parallel_elbencho_sweep`: the files that `find` lists below the path, then the path
itself, which stays where it ends in a dot or in a link with a slash. -/
def deletePathParallel (cwd : Location) (expression : List Char → Bool) (path : List Char) :
    Removal :=
  if !removable layout n cwd expression path then .nothing
  else if isOption path then .workingDirectory
  else match layout.resolve n cwd path, lastLink layout n cwd path with
    | none, _ => .nothing
    | some real, none =>
      if lastPart path = ['.'] || lastPart path = ['.', '.'] then .contents real else .tree real
    | some real, some link => if followsLast path then .contents real else .tree link

end StorageScaleTest.Sweep
