import Mathlib.Data.Rat.Defs

/-!
# Paths inside results

The JSON values of results, and the paths in them that assembly makes relative to the document.
-/

namespace StorageScaleTest.Results

inductive Json
  | null
  | bool (value : Bool)
  | number (value : ℚ)
  | string (value : String)
  | array (items : List Json)
  | object (fields : List (String × Json))

namespace Json

def get? (key : String) : Json → Option Json
  | .object fields => fields.lookup key
  | _ => none

def set (key : String) (value : Json) : Json → Json
  | .object fields =>
    if (fields.lookup key).isSome then
      .object (fields.map fun field => if field.1 = key then (key, value) else field)
    else .object (fields ++ [(key, value)])
  | other => other

def update (key : String) (f : Json → Json) (value : Json) : Json :=
  match value.get? key with
  | some old => value.set key (f old)
  | none => value

def mapItems (f : Json → Json) : Json → Json
  | .array items => .array (items.map f)
  | other => other

end Json

/-- `_posix_join` -/
def posixJoin (directory path : String) : String :=
  if directory ≠ "" ∧ directory ≠ "." then directory ++ "/" ++ path else path

/-- The `path` of an object, rewritten. -/
def rewritePath (f : String → String) : Json → Json :=
  Json.update "path" fun
    | .string path => .string (f path)
    | other => other

/-- `_rewrite_live` -/
def rewriteLive (directory : String) (liveDir : Option String) (live : Json) : Json :=
  let live := live.update "source" (rewritePath (posixJoin directory))
  live.update "client_series" fun series =>
    match liveDir, series.get? "sha256" with
    | some dir, some _ => rewritePath (fun path => dir ++ "/" ++ path) series
    | _, _ => series

/-- `_rewrite_results` -/
def rewriteResults (directory : String) (liveDir : Option String) (results : Json) : Json :=
  let results := results.update "phases" (Json.mapItems fun phase =>
    phase.update "live" (rewriteLive directory liveDir))
  results.update "additional_live_domains" (Json.mapItems (rewriteLive directory liveDir))

end StorageScaleTest.Results
