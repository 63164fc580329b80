import StorageScaleTest.Markers.Sequence
import StorageScaleTest.Templates.Values

/-!
# Manifest templates

The two renderers of the Kubernetes manifests: assignments of values to the placeholders of a
template, replaced one after the other in its text.
-/

namespace StorageScaleTest.Templates
open Shell Targets Markers

def token (assignment : Text) : Text := before '=' assignment

def value (assignment : Text) : Text := after '=' assignment

/-! ## Values on one line -/

/-- One round of the loop of `kubectl_render_template`. The pattern substitution takes a value
literally, since none that is accepted has a `&` or a backslash. -/
def renderAssignment (rendered assignment : Text) : Option Text :=
  if '=' ∉ assignment ∨ '=' ∈ value assignment then none
  else if ¬validatePlaceholder (token assignment) (value assignment) ∨
      ¬marker '@' (token assignment) <:+: rendered then none
  else some (replaceAll (marker '@' (token assignment)) (value assignment) rendered)

def resolved (rendered : Text) : Option Text := if ['@', '@'] <:+: rendered then none else some rendered

/-- `kubectl_render_template` -/
def renderTemplate (template : Text) (assignments : List Text) : Option Text :=
  (assignments.foldlM renderAssignment template).bind resolved

/-! ## Values on several lines -/

/-- The tokens that are replaced by pattern substitution. -/
def blockTokens : List Text :=
  ["NODE_SELECTOR_BLOCK".toList, "NODE_AFFINITY_VALUES".toList, "TEST_ROOT_ARGUMENTS".toList]

/-- The tokens whose single occurrence is replaced by splitting. -/
def singleTokens : List Text :=
  ["SEQUENCER_SCRIPT".toList, "SEQUENCER_ARGUMENTS".toList, "CLAIM_VOLUME_MOUNTS".toList,
    "CLAIM_VOLUMES".toList]

/-- One round of the loop of `kubectl_render_attempt_template`, on the text and the assignments
that are left to `kubectl_render_template`. -/
def attemptAssignment (script : Text) (state : Text × List Text) (assignment : Text) :
    Option (Text × List Text) :=
  let (rendered, basic) := state
  let pattern := marker '@' (token assignment)
  let valid := validateMultilinePlaceholder script (token assignment) (value assignment)
  if '=' ∉ assignment then none
  else if token assignment ∈ blockTokens then
    if ¬valid ∨ ¬pattern <:+: rendered then none
    else some (replaceAll pattern (value assignment) rendered, basic)
  else if token assignment ∈ singleTokens then
    if ¬valid then none
    else match cut pattern rendered with
      | some (front, back) =>
        if pattern <:+: back then none else some (front ++ value assignment ++ back, basic)
      | none => none
  else some (rendered, basic ++ [assignment])

/-- `kubectl_render_attempt_template`, on the text of the template -/
def renderAttemptTemplate (script template : Text) (assignments : List Text) : Option Text :=
  (assignments.foldlM (attemptAssignment script) (stripNewlines template, [])).bind
    fun (rendered, basic) => renderTemplate rendered basic

/-! ## Either renderer -/

inductive Renderer
  | template
  | attempt

def render (script : Text) : Renderer → Text → List Text → Option Text
  | .template, template, assignments => renderTemplate template assignments
  | .attempt, template, assignments => renderAttemptTemplate script template assignments

def Renderer.source : Renderer → Text → Text
  | .template, text => text
  | .attempt, text => stripNewlines text

def isMultiline (assignment : Text) : Bool :=
  token assignment ∈ blockTokens || token assignment ∈ singleTokens

def Renderer.schedule : Renderer → List Text → List Text
  | .template, assignments => assignments
  | .attempt, assignments =>
    assignments.filter isMultiline ++ assignments.filter fun assignment => !isMultiline assignment

def entry (assignment : Text) : Entry Char where
  name := token assignment
  word := value assignment
  once := token assignment ∈ singleTokens

/-- The template of a text: its slots are the occurrences of the markers of the tokens. -/
def slots (text : Text) (assignments : List Text) : List (Item Char) :=
  parse '@' (assignments.map token) text

def substituted (text : Text) (assignments : List Text) : Text :=
  Markers.text '@' (fill (table (assignments.map entry)) (slots text assignments))

end StorageScaleTest.Templates
