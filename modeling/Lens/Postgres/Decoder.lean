import Lens.Protocol
import Lens.Text.Search

/-!
# PostgreSQL decoder

The decoder of `lens-proto-postgres`.  It buffers each direction and decodes one
frame per turn: an untyped startup frame first, then typed frames, a tag byte and
a length that counts itself.  After a TLS or GSS acceptance, a cancel request or
a fault it decodes nothing more (`Phase.opaqueTraffic`).

`decodeFrontend` and `decodeBackend` turn one frame into one message.  Secrets
are left out there: bind values, row values, COPY data and credentials never
reach a message.
-/

namespace Lens.Postgres

open Search (beNat)
open Stream (Turn)

/-! ## Constants -/

def maxFrameBytes : Nat := 16 * 1024 * 1024
def sslRequestCode : Nat := 80877103
def cancelRequestCode : Nat := 80877102
def gssencRequestCode : Nat := 80877104

/-! ## C strings -/

/-- The bytes before the first zero byte, and the bytes after it. -/
def takeCstring (payload : Bytes) : Except String (Bytes × Bytes) :=
  match payload.findIdx? (· == 0) with
  | none => .error "unterminated PostgreSQL string"
  | some e => .ok (payload.take e, payload.drop (e + 1))

def firstCstring (payload : Bytes) : Except String Bytes :=
  (takeCstring payload).map Prod.fst

/-- The loop of `cstrings`.  A turn takes at least one byte off the payload. -/
def cstringsLoop : Nat → Bytes → Except String (List Bytes)
  | 0, _ => .ok []
  | n + 1, payload =>
    if payload.isEmpty then .ok []
    -- A lone zero byte is taken for the terminator of the list.
    else if payload = [0] then .ok []
    else do
      let (value, rest) ← takeCstring payload
      let values ← cstringsLoop n rest
      return value :: values

def cstrings (payload : Bytes) : Except String (List Bytes) :=
  cstringsLoop payload.length payload

/-- The loop of `error_fields`. -/
def errorFieldsLoop : Nat → Bytes → Except String (List (UInt8 × Bytes))
  | _, [] => .error "unterminated PostgreSQL error fields"
  | 0, _ :: _ => .error "unterminated PostgreSQL error fields"
  | n + 1, code :: rest =>
    if code = 0 then .ok []
    else do
      let (value, remaining) ← takeCstring rest
      let fields ← errorFieldsLoop n remaining
      return (code, value) :: fields

def errorFields (payload : Bytes) : Except String (List (UInt8 × Bytes)) :=
  errorFieldsLoop payload.length payload

/-! ## Message parts -/

def message (direction : Direction) (startLine : String) : DecodedMessage where
  direction := direction
  startLine := startLine
  headers := [("lens-protocol", "postgres")]
  body := []
  truncated := false

def withKind (m : DecodedMessage) (kind : String) : DecodedMessage :=
  m.pushHeader "lens-kind" kind

def withBoundary (m : DecodedMessage) (boundary : String) : DecodedMessage :=
  m.pushHeader "lens-boundary" boundary

def capture (m : DecodedMessage) (bytes : Bytes) (maxBody : Nat) : DecodedMessage :=
  let captured := min bytes.length maxBody
  { m with body := m.body ++ bytes.take captured, truncated := decide (captured < bytes.length) }

def displayName (value : Bytes) : String :=
  if value.isEmpty then "<unnamed>" else Utf8.fromUtf8Lossy value

def isStartupSecret (name : String) : Bool :=
  ["password", "passfile", "sslpassword", "token", "secret", "options"].contains
    (Str.toAsciiLowercase name)

/-- One parameter as a header, with a secret value hidden. -/
def parameterHeader (name value : Bytes) : String × String :=
  let name := Utf8.fromUtf8Lossy name
  (name, if isStartupSecret name then "[REDACTED]" else Utf8.fromUtf8Lossy value)

def authenticationName : Nat → String
  | 0 => "Ok"
  | 2 => "KerberosV5"
  | 3 => "CleartextPassword"
  | 5 => "MD5Password"
  | 6 => "SCMCredential"
  | 7 => "GSS"
  | 8 => "GSSContinue"
  | 9 => "SSPI"
  | 10 => "SASL"
  | 11 => "SASLContinue"
  | 12 => "SASLFinal"
  | _ => "Unknown"

/-! ## Frames to messages -/

/-- The key/value pairs of a list of even length, `chunks_exact(2)`. -/
def pairs : List Bytes → List (Bytes × Bytes)
  | k :: v :: rest => (k, v) :: pairs rest
  | _ => []

def startupMessage (version : Nat) (payload : Bytes) : Except String DecodedMessage := do
  let major := version / 0x10000
  let minor := version % 0x10000
  if major ≠ 3 then
    throw s!"unsupported PostgreSQL protocol version {major}.{minor}"
  let fields ← cstrings payload
  if fields.length % 2 ≠ 0 then
    throw "PostgreSQL startup parameters are not key/value pairs"
  let m := withKind
    (message .clientToServer s!"StartupMessage protocol={major}.{minor}") "startup"
  return { m with headers := m.headers ++ (pairs fields).map fun p => parameterHeader p.1 p.2 }

/-- A `Bind` frame, read up to its parameter count. -/
def bindMessage (payload : Bytes) : Except String DecodedMessage := do
  let (portal, rest) ← takeCstring payload
  let (statement, rest) ← takeCstring rest
  if rest.length < 2 then
    throw "truncated PostgreSQL Bind message"
  let formatsBytes := beNat (rest.take 2) * 2 + 2
  if rest.length < formatsBytes + 2 then
    throw "truncated PostgreSQL Bind formats"
  let parameterCount := beNat ((rest.drop formatsBytes).take 2)
  let portal := displayName portal
  let statement := displayName statement
  return withKind (message .clientToServer
    s!"Bind portal={portal} statement={statement} parameters={parameterCount} (values omitted)")
    "bind"

/-- An `Execute` frame. -/
def executeMessage (payload : Bytes) : Except String DecodedMessage := do
  let (portal, rest) ← takeCstring payload
  if rest.length ≠ 4 then
    throw "invalid PostgreSQL Execute message"
  let portalName := displayName portal
  let maxRows := beNat rest
  return withBoundary (withKind
    (message .clientToServer s!"Execute portal={portalName} max_rows={maxRows}") "execute")
    "request"

/-- The message of a frontend frame, before the size header. -/
def frontendMessage (tag : UInt8) (payload : Bytes) (maxBody : Nat) :
    Except String DecodedMessage :=
  let plain (startLine kind : String) := withKind (message .clientToServer startLine) kind
  match Char.ofNat tag.toNat with
  | 'Q' => do
      let sql ← firstCstring payload
      let m := capture (withBoundary (plain "Query" "query") "request") sql maxBody
      return m.pushHeader "lens-content" "sql"
  | 'P' => do
      let (name, rest) ← takeCstring payload
      let (sql, _) ← takeCstring rest
      let m := capture (plain ("Parse statement=" ++ displayName name) "parse") sql maxBody
      return m.pushHeader "lens-content" "sql"
  | 'B' => bindMessage payload
  | 'E' => executeMessage payload
  | 'p' => .ok (plain "AuthenticationResponse (credentials omitted)" "authentication-response")
  | 'C' => .ok (plain "Close" "close")
  | 'D' => .ok (plain "Describe" "describe")
  | 'F' => .ok (plain "FunctionCall (arguments omitted)" "function-call")
  | 'd' => .ok (plain "CopyData (payload omitted)" "copy-data")
  | 'c' => .ok (plain "CopyDone" "copy-done")
  | 'f' => .ok (plain "CopyFail (detail omitted)" "copy-fail")
  | 'H' => .ok (plain "Flush" "flush")
  | 'S' => .ok (plain "Sync" "sync")
  | 'X' => .ok (plain "Terminate" "terminate")
  | _ =>
    let tagHex := Str.hex2 tag
    let size := payload.length
    .ok (plain s!"FrontendMessage tag=0x{tagHex} bytes={size}" "unknown")

/-- The header that every typed message ends with. -/
def withWireBytes (m : DecodedMessage) (payload : Bytes) : DecodedMessage :=
  m.pushHeader "wire-bytes" (toString (payload.length + 5))

def decodeFrontend (tag : UInt8) (payload : Bytes) (maxBody : Nat) :
    Except String DecodedMessage :=
  (frontendMessage tag payload maxBody).map (withWireBytes · payload)

/-- The loop of `row_description` over the fields: all names, oldest first. -/
def rowFields : Nat → Bytes → Except String (List Bytes)
  | 0, _ => .ok []
  | n + 1, rest => do
      let (name, afterName) ← takeCstring rest
      if afterName.length < 18 then
        throw "truncated PostgreSQL RowDescription field"
      let names ← rowFields n (afterName.drop 18)
      return name :: names

def rowDescription (payload : Bytes) : Except String DecodedMessage := do
  if payload.length < 2 then
    throw "truncated PostgreSQL RowDescription"
  let columns := beNat (payload.take 2)
  let fields ← rowFields columns (payload.drop 2)
  -- Only the first 32 names are kept.
  let names := (fields.take 32).map Utf8.fromUtf8Lossy
  let m := withKind (message .serverToClient s!"RowDescription columns={columns}")
    "row-description"
  return if names.isEmpty then m else m.pushHeader "columns" (Str.join "," names)

/-- The header name of an error or notice field, for the fields that are kept. -/
def errorFieldName (code : UInt8) : Option String :=
  match Char.ofNat code.toNat with
  | 'S' | 'V' => some "severity"
  | 'C' => some "sqlstate"
  | 'M' => some "message"
  | 'D' => some "detail"
  | 'H' => some "hint"
  | 'W' => some "where"
  | _ => none

/-- Add one error or notice field, capped. -/
def pushErrorField (maxBody : Nat) (m : DecodedMessage) (field : UInt8 × Bytes) :
    DecodedMessage :=
  match errorFieldName field.1 with
  | none => m
  | some name =>
    let m := if maxBody < field.2.length then { m with truncated := true } else m
    m.pushHeader name (Utf8.fromUtf8Lossy (field.2.take maxBody))

/-- A `ParameterStatus` frame.  A list of fewer than two strings is refused. -/
def parameterStatus (payload : Bytes) : Except String DecodedMessage := do
  match ← cstrings payload with
  | name :: value :: _ =>
    let h := parameterHeader name value
    return (withKind (message .serverToClient "ParameterStatus") "parameter-status").pushHeader
      h.1 h.2
  | _ => throw "invalid PostgreSQL ParameterStatus"

/-- An `ErrorResponse` or `NoticeResponse` frame.  Only an error ends an exchange. -/
def errorOrNotice (isError : Bool) (payload : Bytes) (maxBody : Nat) :
    Except String DecodedMessage := do
  let title := if isError then "ErrorResponse" else "NoticeResponse"
  let kind := if isError then "error" else "notice"
  let fields ← errorFields payload
  let m := fields.foldl (pushErrorField maxBody) (withKind (message .serverToClient title) kind)
  return if isError then withBoundary m "response" else m

/-- The message of a backend frame, before the size header. -/
def backendMessage (tag : UInt8) (payload : Bytes) (maxBody : Nat) :
    Except String DecodedMessage :=
  let plain (startLine kind : String) := withKind (message .serverToClient startLine) kind
  match Char.ofNat tag.toNat with
  | 'R' =>
    if payload.length < 4 then .error "truncated PostgreSQL Authentication message"
    else
      let name := authenticationName (beNat (payload.take 4))
      .ok (plain s!"Authentication {name}" "authentication")
  | 'S' => parameterStatus payload
  | 'K' => .ok (plain "BackendKeyData (key material omitted)" "backend-key-data")
  | 'Z' =>
    let status := Char.ofNat (payload.headD 63).toNat
    .ok (plain s!"ReadyForQuery status={status}" "ready")
  | 'C' => do
      let commandTag := Utf8.fromUtf8Lossy (← firstCstring payload)
      return withBoundary (plain s!"CommandComplete {commandTag}" "command-complete") "response"
  | 'E' => errorOrNotice true payload maxBody
  | 'N' => errorOrNotice false payload maxBody
  | 'T' => rowDescription payload
  | 'D' =>
    if payload.length < 2 then .error "truncated PostgreSQL DataRow"
    else
      let columns := beNat (payload.take 2)
      .ok (plain s!"DataRow columns={columns} (values omitted)" "data-row")
  | '1' => .ok (plain "ParseComplete" "parse-complete")
  | '2' => .ok (plain "BindComplete" "bind-complete")
  | '3' => .ok (plain "CloseComplete" "close-complete")
  | 'n' => .ok (plain "NoData" "no-data")
  | 's' => .ok (withBoundary (plain "PortalSuspended" "portal-suspended") "response")
  | 'I' => .ok (withBoundary (plain "EmptyQueryResponse" "empty-query") "response")
  | 'A' => .ok (plain "NotificationResponse (payload omitted)" "notification")
  | 'G' => .ok (plain "CopyResponse" "copy-response")
  | 'H' => .ok (plain "CopyResponse" "copy-response")
  | 'W' => .ok (plain "CopyResponse" "copy-response")
  | 'd' => .ok (plain "CopyData (payload omitted)" "copy-data")
  | 'c' => .ok (withBoundary (plain "CopyDone" "copy-done") "response")
  | _ =>
    let tagHex := Str.hex2 tag
    let size := payload.length
    .ok (plain s!"BackendMessage tag=0x{tagHex} bytes={size}" "unknown")

def decodeBackend (tag : UInt8) (payload : Bytes) (maxBody : Nat) :
    Except String DecodedMessage :=
  (backendMessage tag payload maxBody).map (withWireBytes · payload)

def decodeTyped (direction : Direction) (tag : UInt8) (payload : Bytes) (maxBody : Nat) :
    Except String DecodedMessage :=
  match direction with
  | .clientToServer => decodeFrontend tag payload maxBody
  | .serverToClient => decodeBackend tag payload maxBody

/-! ## The decoder -/

inductive Phase where
  | startup
  | awaitingEncryptionResponse
  | typed
  | opaqueTraffic
deriving DecidableEq, Repr

inductive Step where
  | needMore
  | message (m : DecodedMessage)
  | messageAndPhase (m : DecodedMessage) (phase : Phase)
  | desynchronized (reason : String)

/-- One typed frame off a buffer: the bytes that stay, and what the frame gives.
A frame that is not complete stays in the buffer. -/
def typedFrame (d : Direction) (maxBody : Nat) (buffer : Bytes) : Bytes × Step :=
  if buffer.length < 5 then (buffer, .needMore)
  else
    let tag := buffer.headD 0
    let length := beNat ((buffer.drop 1).take 4)
    if ¬ (4 ≤ length ∧ length ≤ maxFrameBytes) then
      let tagHex := Str.hex2 tag
      (buffer, .desynchronized s!"invalid PostgreSQL message length {length} for tag 0x{tagHex}")
    else
      let total := length + 1
      if buffer.length < total then (buffer, .needMore)
      else
        let payload := (buffer.take total).drop 5
        match decodeTyped d tag payload maxBody with
        | .ok m => (buffer.drop total, .message m)
        | .error reason => (buffer.drop total, .desynchronized reason)

structure PostgresDecoder where
  maxBody : Nat
  client : Bytes
  server : Bytes
  phase : Phase
deriving DecidableEq, Repr

namespace PostgresDecoder

def new (maxBody : Nat) : PostgresDecoder where
  maxBody := maxBody
  client := []
  server := []
  phase := .startup

def buffer (s : PostgresDecoder) : Direction → Bytes
  | .clientToServer => s.client
  | .serverToClient => s.server

def setBuffer (s : PostgresDecoder) (d : Direction) (bytes : Bytes) : PostgresDecoder :=
  match d with
  | .clientToServer => { s with client := bytes }
  | .serverToClient => { s with server := bytes }

/-- Both buffers dropped and nothing decoded from here on. -/
def goOpaque (s : PostgresDecoder) : PostgresDecoder :=
  { s with client := [], server := [], phase := .opaqueTraffic }

def stepStartup (s : PostgresDecoder) : PostgresDecoder × Step :=
  if s.client.length < 4 then (s, .needMore)
  else
    let length := beNat (s.client.take 4)
    if ¬ (8 ≤ length ∧ length ≤ maxFrameBytes) then
      (s, .desynchronized s!"invalid PostgreSQL startup frame length {length}")
    else if s.client.length < length then (s, .needMore)
    else
      let frame := s.client.take length
      let s := { s with client := s.client.drop length }
      let code := beNat ((frame.drop 4).take 4)
      if code = sslRequestCode then
        (s, .messageAndPhase (message .clientToServer "SSLRequest") .awaitingEncryptionResponse)
      else if code = gssencRequestCode then
        (s, .messageAndPhase (message .clientToServer "GSSENCRequest") .awaitingEncryptionResponse)
      else if code = cancelRequestCode then
        (s, .messageAndPhase (message .clientToServer "CancelRequest (key material omitted)")
          .opaqueTraffic)
      else
        match startupMessage code (frame.drop 8) with
        | .ok m => (s, .messageAndPhase m .typed)
        | .error reason => (s, .desynchronized reason)

def stepEncryptionResponse (s : PostgresDecoder) : PostgresDecoder × Step :=
  match s.server with
  | [] => (s, .needMore)
  | response :: rest =>
    let s := { s with server := rest }
    match Char.ofNat response.toNat with
    | 'S' => (s, .messageAndPhase
        (message .serverToClient "EncryptionResponse accepted (traffic opaque)") .opaqueTraffic)
    | 'G' => (s, .messageAndPhase
        (message .serverToClient "GSSENCResponse accepted (traffic opaque)") .opaqueTraffic)
    | 'N' => (s, .messageAndPhase
        (message .serverToClient "EncryptionResponse rejected") .startup)
    | _ => (s, .desynchronized "invalid PostgreSQL encryption response")

def stepTyped (s : PostgresDecoder) (d : Direction) : PostgresDecoder × Step :=
  let (rest, step) := typedFrame d s.maxBody (s.buffer d)
  (s.setBuffer d rest, step)

def step (s : PostgresDecoder) (d : Direction) : PostgresDecoder × Step :=
  match s.phase, d with
  | .startup, .clientToServer => s.stepStartup
  | .awaitingEncryptionResponse, .serverToClient => s.stepEncryptionResponse
  | .typed, d => s.stepTyped d
  | _, _ => (s, .needMore)

/-- One turn of the loop of `process`. -/
def turn (d : Direction) (s : PostgresDecoder) : Turn PostgresDecoder DecodedMessage String :=
  match s.step d with
  | (s', .needMore) => .stop s' .needMore
  | (s', .message m) => .again s' ⟨[m], none⟩
  | (s', .messageAndPhase m phase) =>
    if phase = .opaqueTraffic then .stop s'.goOpaque ⟨[m], none⟩
    else .again { s' with phase := phase } ⟨[m], none⟩
  | (s', .desynchronized reason) => .stop s'.goOpaque ⟨[], some reason⟩

/-- Append a fragment to the buffer of a direction. -/
def feed (d : Direction) (s : PostgresDecoder) (bytes : Bytes) : PostgresDecoder :=
  s.setBuffer d (s.buffer d ++ bytes)

/-- The turns of a push each take bytes off its buffer. -/
def measure (d : Direction) (s : PostgresDecoder) : Nat := (s.buffer d).length

def process (s : PostgresDecoder) (d : Direction) (bytes : Bytes) :
    PostgresDecoder × DecodeBatch :=
  if s.phase = .opaqueTraffic then (s, .needMore)
  else
    let s := feed d s bytes
    if maxFrameBytes + 5 < (s.buffer d).length then
      (s.goOpaque, ⟨[], some "PostgreSQL buffered data exceeds 16777221 bytes"⟩)
    else Stream.drive (turn d) (measure d s + 1) s

def push (s : PostgresDecoder) (d : Direction) (bytes : Bytes) :
    PostgresDecoder × DecodeBatch :=
  s.process d bytes

def finish (s : PostgresDecoder) (d : Direction) : PostgresDecoder × DecodeBatch :=
  let remaining := (s.buffer d).length
  let s := s.setBuffer d []
  if remaining = 0 ∨ s.phase = .opaqueTraffic then (s, .needMore)
  else (s, ⟨[], some s!"PostgreSQL stream ended with {remaining} incomplete bytes"⟩)

end PostgresDecoder

end Lens.Postgres
