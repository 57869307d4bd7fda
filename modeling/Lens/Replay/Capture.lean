import Lens.Replay.Plan
import Lens.Text.Json

/-!
# Captures

`lens-replay` reads a capture from the bytes of a file.  It guesses the format: an array, a
document with `flows`, a single flow, or one flow per line when the whole text is no JSON value.

The readers of the `serde_json` crate are a parameter (`Serde`).  `Lawful` says what is used of
them.  A text that is read as a value is JSON and is read as that value.  The other way round is
only assumed of values that the crate has no reason to refuse: numbers below `2 ^ 64` and fewer
than 128 levels of brackets.  What the structures say an object of that kind is (`captureFlow`),
the derived readers read.  In a text a field comes at most once, and in a value the last one
counts.
-/

namespace Lens.Replay

def maxCaptureBytes : Nat := 32 * 1024 * 1024

structure ReplaySelection where
  flowId : Option Nat
  request : Nat
deriving DecidableEq, Repr

/-! ## Structures -/

/-- How the member of an object is looked up.  There is no result where a name may not come
twice and does. -/
abbrev Lookup := String → Json → Option (Option Json)

/-- The last member counts. -/
def last : Lookup := fun name j => some (j.get name)

/-- A name comes at most once. -/
def once : Lookup := fun name j =>
  match j with
  | .obj members =>
    if (members.filter fun m => m.1 = name).length ≤ 1 then some (j.get name) else none
  | _ => some none

section Fields

variable (lookup : Lookup) (name : String) (j : Json)

/-- A field that must be there. -/
def required {α : Type} (read : Json → Option α) : Option α :=
  (lookup name j).bind fun member => member.bind read

/-- A field with a default. -/
def defaulted {α : Type} (default : α) (read : Json → Option α) : Option α :=
  (lookup name j).bind fun member => match member with
    | none => some default
    | some value => read value

/-- A field of an optional type. -/
def optional {α : Type} (read : Json → Option α) : Option (Option α) :=
  defaulted lookup name j none (Json.asOption read)

end Fields

/-- A number of 64 bits. -/
def asU64 (j : Json) : Option Nat := j.asNat.bind fun n => if n < 2 ^ 64 then some n else none

def captureMessage (lookup : Lookup) (j : Json) : Option CaptureMessage := do
  let direction ← optional lookup "direction" j Json.asStr
  let summary ← required lookup "summary" j Json.asStr
  let body ← defaulted lookup "body" j "" Json.asStr
  let wireBase64 ← optional lookup "wire_base64" j Json.asStr
  let truncated ← defaulted lookup "truncated" j false Json.asBool
  let sensitivity ← defaulted lookup "sensitivity" j "public" Json.asStr
  return { direction, summary, body, wireBase64, truncated, sensitivity }

def captureFlow (lookup : Lookup) (j : Json) : Option CaptureFlow := do
  let flowId ← required lookup "flow_id" j asU64
  let protocol ← optional lookup "protocol" j Json.asStr
  let messages ← defaulted lookup "messages" j [] (Json.asList (captureMessage lookup))
  return { flowId, protocol, messages }

def captureDocument (lookup : Lookup) (j : Json) : Option (List CaptureFlow) :=
  required lookup "flows" j (Json.asList (captureFlow lookup))

/-! ## The crate -/

/-- `from_str` and `from_value` of `serde_json`, at the types that are read. -/
structure Serde where
  value : String → Except String Json
  flows : String → Except String (List CaptureFlow)
  flow : String → Except String CaptureFlow
  flowOf : Json → Except String CaptureFlow
  documentOf : Json → Except String (List CaptureFlow)

/-- Values that the crate has no reason to refuse. -/
abbrev Accepted (j : Json) : Prop := j.Fits (· < 2 ^ 64) 127

structure Serde.Lawful (serde : Serde) : Prop where
  value_sound : ∀ {text j}, serde.value text = .ok j → Json.parse text = some j
  value_complete : ∀ {text j}, Json.parse text = some j → Accepted j → serde.value text = .ok j
  flow : ∀ {text j flow}, Json.parse text = some j → Accepted j → captureFlow once j = some flow →
    serde.flow text = .ok flow
  flowOf : ∀ {j flow}, Accepted j → captureFlow last j = some flow → serde.flowOf j = .ok flow
  documentOf : ∀ {j flows}, Accepted j → captureDocument last j = some flows →
    serde.documentOf j = .ok flows

/-! ## Reading -/

/-- The flows of the lines, from a line number on. -/
def parseLines (serde : Serde) : Nat → List String → Except String (List CaptureFlow)
  | _, [] => .ok []
  | index, line :: lines =>
    if Str.trim line = "" then parseLines serde (index + 1) lines
    else do
      let flow ← (serde.flow line).mapError fun error =>
        "invalid JSONL flow on line " ++ toString (index + 1) ++ ": " ++ error
      let flows ← parseLines serde (index + 1) lines
      return flow :: flows

/-- The flows of a text with one flow per line. -/
def parseJsonl (serde : Serde) (text : String) : Except String (List CaptureFlow) := do
  let flows ← parseLines serde 0 (Str.lines text)
  if flows = [] then .error "capture is empty" else .ok flows

/-- The flows of a value: a document or a single flow. -/
def parseValue (serde : Serde) (value : Json) : Except String (List CaptureFlow) :=
  if (value.get "flows").isSome then
    (serde.documentOf value).mapError fun error => "invalid snapshot JSON: " ++ error
  else do
    let flow ← (serde.flowOf value).mapError fun error => "invalid flow JSON: " ++ error
    return [flow]

def parseFlows (serde : Serde) (contents : Bytes) : Except String (List CaptureFlow) := do
  let text ← orError "capture is not valid UTF-8 JSON" (Utf8.fromUtf8 contents)
  let first := text.toList.find? fun c => !Str.isWhitespace c
  if first = some '[' then
    (serde.flows text).mapError fun error => "invalid capture JSON: " ++ error
  else if first = some '{' then
    match serde.value text with
    | .ok value => parseValue serde value
    | .error _ => parseJsonl serde text
  else parseJsonl serde text

/-- The flow that is selected, or the only one. -/
def selectFlow (flows : List CaptureFlow) (flowId : Option Nat) : Except String CaptureFlow :=
  let candidates := flows.filter fun flow => flow.protocol = some "http1"
  match flowId with
  | some flowId =>
    orError ("HTTP flow " ++ toString flowId ++ " was not found")
      (candidates.find? fun flow => flow.flowId = flowId)
  | none =>
    match candidates with
    | [flow] => .ok flow
    | [] => .error "capture contains no HTTP/1 flows"
    | _ => .error "capture contains multiple HTTP/1 flows; select one with --flow"

def parsePlan [Base64] (http : HttpTypes) (serde : Serde) (contents : Bytes)
    (selection : ReplaySelection) : Except String ReplayPlan := do
  if maxCaptureBytes < contents.length then .error "capture exceeds replay input limit"
  else
    let flows ← parseFlows serde contents
    let flow ← selectFlow flows selection.flowId
    planFromFlow http flow selection.request

end Lens.Replay
