import Lens.Protocol
import Lens.Text.Base64
import Lens.Text.Search

/-!
# Replay plans

The requests of a captured flow are made into replay plans by `lens-replay`.  A request is
the message at its position among those from the client.  Its line gives the method and the
target, and its wire bytes give the headers and the body, parted at the first empty line.

The types of the `http` crate are a parameter: which texts are a method, a header name, a
header value, and what a URI is made of.  So is the engine of the `base64` crate.
-/

namespace Lens.Replay

/-! ## Captures -/

structure CaptureMessage where
  direction : Option String
  summary : String
  body : String
  wireBase64 : Option String
  truncated : Bool
  sensitivity : String
deriving DecidableEq, Repr

structure CaptureFlow where
  flowId : Nat
  protocol : Option String
  messages : List CaptureMessage
deriving DecidableEq, Repr

/-- The parts of a URI. -/
structure Uri where
  scheme : Option String
  authority : Option String
  host : Option String
  pathAndQuery : Option String
deriving DecidableEq, Repr

/-- The types of the `http` crate. -/
structure HttpTypes where
  isMethod : String → Bool
  isHeaderName : String → Bool
  isHeaderValue : String → Bool
  parseUri : String → Option Uri

structure CapturedResponse where
  status : Nat
  body : Bytes
  truncated : Bool
  redacted : Bool
  legacyTextEncoding : Bool
deriving DecidableEq, Repr

structure ReplayPlan where
  flowId : Nat
  request : Nat
  method : String
  pathAndQuery : String
  headers : Headers
  body : Bytes
  truncated : Bool
  sensitivity : String
  redacted : Bool
  legacyTextEncoding : Bool
  capturedResponse : Option CapturedResponse
deriving DecidableEq, Repr

/-! ## Messages -/

def maxReplayBodyBytes : Nat := 1024 * 1024

def redacted : String := "[REDACTED]"

/-- An error where there is no value. -/
def orError {α : Type} (reason : String) : Option α → Except String α
  | none => .error reason
  | some a => .ok a

def wireContainsRedaction (wire : Bytes) : Bool :=
  (Search.find (Utf8.asBytes redacted) wire).isSome

/-- The wire bytes of a message, and whether only their text was captured. -/
def decodeWire [Base64] (m : CaptureMessage) : Except String (Bytes × Bool) :=
  match m.wireBase64 with
  | none => .ok (Utf8.asBytes m.body, true)
  | some text =>
    match Base64.decode text with
    | .error error => .error ("invalid wire_base64: " ++ error)
    | .ok wire => .ok (wire, false)

/-- The headers of a head. -/
def parseHeaderLines : List String → Except String Headers
  | [] => .ok []
  | line :: lines => do
      let (name, value) ← orError "captured header line is invalid" (Str.splitOnce ':' line)
      let headers ← parseHeaderLines lines
      return (Str.trim name, Str.trim value) :: headers

/-- The headers and the body of wire bytes. -/
def parseWire (wire : Bytes) : Except String (Headers × Bytes) := do
  let boundary ← orError "captured message has no header/body boundary"
    (Search.find (Utf8.asBytes "\r\n\r\n") wire)
  let head ← orError "captured headers are not valid UTF-8" (Utf8.fromUtf8 (wire.take boundary))
  let headers ← if head = "" then .ok [] else parseHeaderLines (Str.splitCrlf head)
  return (headers, wire.drop (boundary + 4))

def isHopByHop (name : String) : Bool :=
  name ∈ ["connection", "content-length", "host", "keep-alive", "proxy-authenticate",
    "proxy-authorization", "proxy-connection", "te", "trailer", "transfer-encoding", "upgrade"]

/-- The names that the Connection headers list. -/
def connectionTokens (headers : Headers) : List String :=
  (headers.filter fun h => Str.eqIgnoreAsciiCase h.1 "connection").flatMap fun h =>
    (Str.split ',' h.2).map fun token => Str.toAsciiLowercase (Str.trim token)

/-- A header is not replayed. -/
def isDropped (tokens : List String) (name : String) : Bool :=
  let lower := Str.toAsciiLowercase name
  isHopByHop lower || tokens.any (fun token => token == lower) || Str.startsWith lower "lens-"

/-- The headers that are replayed, in their order. -/
def keepHeaders (http : HttpTypes) (tokens : List String) :
    Headers → Except String Headers
  | [] => .ok []
  | (name, value) :: headers =>
    if isDropped tokens name then keepHeaders http tokens headers
    else if !http.isHeaderName name then .error ("invalid captured header name: " ++ name)
    else if !http.isHeaderValue value then .error ("invalid captured value for header " ++ name)
    else do
      let kept ← keepHeaders http tokens headers
      return (name, value) :: kept

def replayHeaders (http : HttpTypes) (headers : Headers) :
    Except String Headers :=
  keepHeaders http (connectionTokens headers) headers

/-- The path and query of a target. -/
def parseTarget (http : HttpTypes) (target : String) : Except String String :=
  if Str.startsWith target "/" then .ok target
  else do
    let uri ← orError "captured request target is invalid" (http.parseUri target)
    if (uri.scheme = some "http" ∨ uri.scheme = some "https") ∧ uri.authority ≠ none then
      orError "captured request has no path" uri.pathAndQuery
    else .error "captured request is not an origin-form or absolute-form HTTP request"

/-- The method and the path of a request line. -/
def parseRequestLine (http : HttpTypes) (summary : String) : Except String (String × String) :=
  match Str.splitWhitespace summary with
  | [method, target, version] => do
      if !Str.startsWith version "HTTP/1." then .error "captured request line is invalid"
      else if !http.isMethod method then .error "captured HTTP method is invalid"
      else
        let path ← parseTarget http target
        if !Str.startsWith path "/" then
          .error "captured request is not an origin-form or absolute-form HTTP request"
        else .ok (method, path)
  | _ => .error "captured request line is invalid"

/-- The status of a response line. -/
def statusFromLine (summary : String) : Option Nat :=
  match Str.splitWhitespace summary with
  | version :: status :: _ =>
    (Str.parseU16 status).bind fun status =>
      if Str.startsWith version "HTTP/1." then some status else none
  | _ => none

/-! ## Plans -/

variable [Base64]

def requests (flow : CaptureFlow) : List CaptureMessage :=
  flow.messages.filter fun m => m.direction = some "client_to_server"

/-- A final response, or a switch of protocols. -/
def isTerminal (status : Nat) : Bool := 200 ≤ status || status = 101

def terminalResponses (flow : CaptureFlow) : List CaptureMessage :=
  (flow.messages.filter fun m => m.direction = some "server_to_client").filter fun m =>
    (statusFromLine m.summary).any isTerminal

def capturedResponse (m : CaptureMessage) : Except String CapturedResponse := do
  let status ← orError "captured response has an invalid status line" (statusFromLine m.summary)
  let (wire, legacyTextEncoding) ← decodeWire m
  let (_, body) ← parseWire wire
  return {
    status, body, legacyTextEncoding
    truncated := m.truncated
    redacted := m.sensitivity = "redacted" || wireContainsRedaction wire }

/-- The response of the plan, if it was captured. -/
def responseAt (flow : CaptureFlow) (index : Nat) : Except String (Option CapturedResponse) :=
  match (terminalResponses flow)[index]? with
  | none => .ok none
  | some m => some <$> capturedResponse m

def planFromFlow (http : HttpTypes) (flow : CaptureFlow) (requestIndex : Nat) :
    Except String ReplayPlan := do
  if requestIndex = 0 then .error "request index must be at least 1"
  else
    let request ← orError ("HTTP flow " ++ toString flow.flowId ++ " has "
        ++ toString (requests flow).length ++ " request(s); request " ++ toString requestIndex
        ++ " does not exist") (requests flow)[requestIndex - 1]?
    let (method, pathAndQuery) ← parseRequestLine http request.summary
    let (wire, legacyTextEncoding) ← decodeWire request
    let (headers, body) ← parseWire wire
    if maxReplayBodyBytes < body.length then
      .error "captured request body exceeds the 1 MiB replay limit"
    else
      let headers ← replayHeaders http headers
      let capturedResponse ← responseAt flow (requestIndex - 1)
      return {
        method, pathAndQuery, headers, body, legacyTextEncoding, capturedResponse
        flowId := flow.flowId
        request := requestIndex
        truncated := request.truncated
        sensitivity := request.sensitivity
        redacted := request.sensitivity = "redacted" || Str.contains request.summary redacted
          || wireContainsRedaction wire }

end Lens.Replay
