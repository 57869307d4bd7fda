import Lens.Protocol
import Lens.Text.Search

/-!
# HTTP/1 decoder

The decoder of `lens-proto-http1`.  A direction is a buffer and a body under way.
Without a body under way it looks for the end of a head and parses it; the head
says how the body is framed.  A body is of a fixed length, in chunks, or as long
as the connection.

The loop over the phases of a chunked body is inside one step of the source.
Here a phase that goes on is a step of its own (`Step.progress`), which the outer
loop takes again at once.
-/

namespace Lens.Http1

open Stream (Turn)

def maxHeadBytes : Nat := 64 * 1024
def maxChunkLineBytes : Nat := 1024

/-- A line end. -/
def crlf : Bytes := [0x0d, 0x0a]

/-- The end of a head or of a trailer section. -/
def headEnd : Bytes := [0x0d, 0x0a, 0x0d, 0x0a]

/-! ## Heads -/

structure ParsedHead where
  startLine : String
  headers : Headers
  isResponse : Bool
  noBodyStatus : Bool
  contentLength : Option Nat
  chunked : Bool
deriving DecidableEq, Repr

/-- Whether a transfer coding list names `chunked`. -/
def namesChunked (value : String) : Bool :=
  (Str.split ',' value).any fun coding => Str.eqIgnoreAsciiCase (Str.trim coding) "chunked"

/-- The declared length after one more header. -/
def nextLength (contentLength : Option Nat) (name value : String) : Except String (Option Nat) :=
  if Str.eqIgnoreAsciiCase name "content-length" then
    match Str.parseUsize value with
    | none => .error "invalid HTTP Content-Length"
    | some parsed =>
      if contentLength.any (· != parsed) then .error "conflicting HTTP Content-Length values"
      else .ok (some parsed)
  else .ok contentLength

/-- Whether a header asks for chunks. -/
def asksForChunks (name value : String) : Bool :=
  Str.eqIgnoreAsciiCase name "transfer-encoding" && namesChunked value

/-- The header lines of a head, and the framing they ask for. -/
def parseHeaderLines : List String → Option Nat → Bool →
    Except String (Headers × Option Nat × Bool)
  | [], contentLength, chunked => .ok ([], contentLength, chunked)
  | line :: lines, contentLength, chunked =>
    match Str.splitOnce ':' line with
    | none => .error "invalid HTTP header line"
    | some (name, value) => do
        let name := Str.trim name
        let value := Str.trim value
        let contentLength ← nextLength contentLength name value
        let (headers, framing) ←
          parseHeaderLines lines contentLength (chunked || asksForChunks name value)
        return ((name, value) :: headers, framing)

/-- Three parts, the last of them a version. -/
def isRequestLine (startLine : String) : Bool :=
  match Str.splitWhitespace startLine with
  | [_, _, version] => Str.startsWith version "HTTP/1."
  | _ => false

/-- The status of a start line, where it has one. -/
def statusOf (startLine : String) : Option Nat :=
  ((Str.splitWhitespace startLine)[1]?).bind Str.parseU16

/-- Whether a start line is that of a response, and its status. -/
def parseStartLine (startLine : String) : Except String (Bool × Nat) :=
  if startLine = "" then .error "HTTP start line is empty"
  else if Str.startsWith startLine "HTTP/1." then
    match statusOf startLine with
    | none => .error "invalid HTTP/1 status line"
    | some status => .ok (true, status)
  else if isRequestLine startLine then .ok (false, 0)
  else .error "invalid HTTP/1 request line"

namespace ParsedHead

/-- The lines of a head. -/
def ofLines (lines : List String) : Except String ParsedHead := do
  let startLine := Str.trim (lines.headD "")
  let (isResponse, status) ← parseStartLine startLine
  let noBodyStatus :=
    isResponse && ((100 ≤ status && status < 200) || status == 204 || status == 304)
  let (headers, contentLength, chunked) ← parseHeaderLines lines.tail none false
  return ⟨startLine, headers, isResponse, noBodyStatus, contentLength, chunked⟩

def parse (bytes : Bytes) : Except String ParsedHead :=
  match Utf8.fromUtf8 bytes with
  | none => .error "HTTP headers are not valid UTF-8"
  | some text => ofLines (Str.splitCrlf text)

end ParsedHead

/-! ## Bodies -/

def capture (m : DecodedMessage) (bytes : Bytes) (maxBody : Nat) : DecodedMessage :=
  let remaining := maxBody - m.body.length
  let captured := min remaining bytes.length
  { m with
    body := m.body ++ bytes.take captured
    truncated := m.truncated || decide (captured < bytes.length) }

inductive ChunkPhase where
  | size
  | data (remaining : Nat)
  | dataCrlf
  | trailers
deriving DecidableEq, Repr

inductive PendingBody where
  | fixed (m : DecodedMessage) (remaining : Nat)
  | chunked (m : DecodedMessage) (phase : ChunkPhase)
  | untilEof (m : DecodedMessage)
deriving DecidableEq, Repr

def PendingBody.intoMessage : PendingBody → DecodedMessage
  | .fixed m _ => m
  | .chunked m _ => m
  | .untilEof m => m

inductive Step where
  | needMore
  | progress
  | message (m : DecodedMessage)
  | desynchronized (reason : String)
deriving DecidableEq, Repr

structure DirectionState where
  buffer : Bytes := []
  pending : Option PendingBody := none
deriving DecidableEq, Repr

/-- The size in a chunk-size line: the text before a semicolon, in hexadecimal. -/
def chunkSize (line : String) : Option Nat :=
  Str.parseUnsigned 16 (2 ^ 64) (Str.trim ((Str.split ';' line).headD ""))

/-- One phase of a chunked body. -/
def stepChunked (buffer : Bytes) (m : DecodedMessage) (maxBody : Nat) :
    ChunkPhase → DirectionState × Step
  | .size =>
    match Search.find crlf buffer with
    | none =>
      if maxChunkLineBytes < buffer.length then
        (⟨[], none⟩, .desynchronized "HTTP chunk-size line exceeds 1024 bytes")
      else (⟨buffer, some (.chunked m .size)⟩, .needMore)
    | some lineEnd =>
      match Utf8.fromUtf8 (buffer.take lineEnd) with
      | none => (⟨[], none⟩, .desynchronized "HTTP chunk-size line is not ASCII")
      | some line =>
        match chunkSize line with
        | none => (⟨[], none⟩, .desynchronized "invalid HTTP chunk size")
        | some size =>
          let phase := if size = 0 then .trailers else .data size
          (⟨buffer.drop (lineEnd + 2), some (.chunked m phase)⟩, .progress)
  | .data remaining =>
    let consumed := min remaining buffer.length
    let m := capture m (buffer.take consumed) maxBody
    let remaining := remaining - consumed
    if 0 < remaining then
      (⟨buffer.drop consumed, some (.chunked m (.data remaining))⟩, .needMore)
    else (⟨buffer.drop consumed, some (.chunked m .dataCrlf)⟩, .progress)
  | .dataCrlf =>
    if buffer.length < 2 then (⟨buffer, some (.chunked m .dataCrlf)⟩, .needMore)
    else if buffer.take 2 ≠ crlf then
      (⟨[], none⟩, .desynchronized "HTTP chunk data is missing CRLF")
    else (⟨buffer.drop 2, some (.chunked m .size)⟩, .progress)
  | .trailers =>
    if crlf.isPrefixOf buffer then (⟨buffer.drop 2, none⟩, .message m)
    else
      match Search.find headEnd buffer with
      | some stop => (⟨buffer.drop (stop + 4), none⟩, .message m)
      | none =>
        if maxHeadBytes < buffer.length then
          (⟨[], none⟩, .desynchronized "HTTP chunk trailers exceed 65536 bytes")
        else (⟨buffer, some (.chunked m .trailers)⟩, .needMore)

/-- A step on a body under way. -/
def consumePending (buffer : Bytes) (maxBody : Nat) : PendingBody → DirectionState × Step
  | .fixed m remaining =>
    let consumed := min remaining buffer.length
    let m := capture m (buffer.take consumed) maxBody
    let remaining := remaining - consumed
    if remaining = 0 then (⟨buffer.drop consumed, none⟩, .message m)
    else (⟨buffer.drop consumed, some (.fixed m remaining)⟩, .needMore)
  | .untilEof m => (⟨[], some (.untilEof (capture m buffer maxBody))⟩, .needMore)
  | .chunked m phase => stepChunked buffer m maxBody phase

/-- The step after a head: the message is complete, or its body is under way. -/
def beginBody (direction : Direction) (responseToHead : Bool) (parsed : ParsedHead)
    (buffer : Bytes) : DirectionState × Step :=
  let m : DecodedMessage := ⟨direction, parsed.startLine, parsed.headers, [], false⟩
  if responseToHead || parsed.noBodyStatus then (⟨buffer, none⟩, .message m)
  else if parsed.chunked then (⟨buffer, some (.chunked m .size)⟩, .progress)
  else
    match parsed.contentLength with
    | some length =>
      if length = 0 then (⟨buffer, none⟩, .message m)
      else (⟨buffer, some (.fixed m length)⟩, .progress)
    | none =>
      if parsed.isResponse then (⟨buffer, some (.untilEof m)⟩, .progress)
      else (⟨buffer, none⟩, .message m)

/-- The step after the end of a head was found. -/
def afterHead (direction : Direction) (responseToHead : Bool) (head : Except String ParsedHead)
    (buffer : Bytes) : DirectionState × Step :=
  match head with
  | .error reason => (⟨[], none⟩, .desynchronized reason)
  | .ok parsed => beginBody direction responseToHead parsed buffer

namespace DirectionState

def step (s : DirectionState) (direction : Direction) (maxBody : Nat) (responseToHead : Bool) :
    DirectionState × Step :=
  match s.pending with
  | some pending => consumePending s.buffer maxBody pending
  | none =>
    match Search.find headEnd s.buffer with
    | none =>
      if maxHeadBytes < s.buffer.length then
        (⟨[], none⟩, .desynchronized "HTTP headers exceed 65536 bytes")
      else (s, .needMore)
    | some stop =>
      afterHead direction responseToHead (ParsedHead.parse (s.buffer.take stop))
        (s.buffer.drop (stop + 4))

def finish (s : DirectionState) : DirectionState × Option (DecodedMessage × Bool) :=
  match s.pending with
  | none => (s, none)
  | some pending =>
    let incomplete := match pending with
      | .untilEof _ => false
      | _ => true
    let m := pending.intoMessage
    (⟨[], none⟩, some ({ m with truncated := m.truncated || incomplete }, incomplete))

/-- A bound on the turns of one push: every turn takes input, ends a body or
moves on from the data of a chunk. -/
def measure (s : DirectionState) : Nat :=
  2 * s.buffer.length + match s.pending with
    | none => 0
    | some (.chunked _ (.data _)) => 2
    | some _ => 1

end DirectionState

/-! ## The decoder -/

structure Http1Decoder where
  maxBody : Nat
  client : DirectionState
  server : DirectionState
  requestMethods : List String
deriving DecidableEq, Repr

namespace Http1Decoder

def new (maxBody : Nat) : Http1Decoder where
  maxBody := maxBody
  client := {}
  server := {}
  requestMethods := []

def state (s : Http1Decoder) : Direction → DirectionState
  | .clientToServer => s.client
  | .serverToClient => s.server

def setState (s : Http1Decoder) (d : Direction) (st : DirectionState) : Http1Decoder :=
  match d with
  | .clientToServer => { s with client := st }
  | .serverToClient => { s with server := st }

def trackExchange (s : Http1Decoder) (m : DecodedMessage) : Http1Decoder :=
  match m.direction with
  | .clientToServer =>
    match (Str.splitWhitespace m.startLine).head? with
    | some method => { s with requestMethods := s.requestMethods ++ [method] }
    | none => s
  | .serverToClient =>
    if (statusOf m.startLine).any fun status => 200 ≤ status || status == 101 then
      { s with requestMethods := s.requestMethods.tail }
    else s

/-- Whether the next response answers a HEAD request. -/
def responseToHead (s : Http1Decoder) (d : Direction) : Bool :=
  d = .serverToClient && s.requestMethods.head?.any (Str.eqIgnoreAsciiCase · "HEAD")

/-- What the loop does after a step. -/
def follow (s : Http1Decoder) (d : Direction) (r : DirectionState × Step) :
    Turn Http1Decoder DecodedMessage String :=
  let s := s.setState d r.1
  match r.2 with
  | .needMore => .stop s .needMore
  | .progress => .again s .needMore
  | .message m => .again (s.trackExchange m) ⟨[m], none⟩
  | .desynchronized reason => .stop s ⟨[], some reason⟩

/-- One turn of the loop of `process`. -/
def turn (d : Direction) (s : Http1Decoder) : Turn Http1Decoder DecodedMessage String :=
  s.follow d ((s.state d).step d s.maxBody (s.responseToHead d))

def feed (d : Direction) (s : Http1Decoder) (bytes : Bytes) : Http1Decoder :=
  s.setState d { s.state d with buffer := (s.state d).buffer ++ bytes }

def process (s : Http1Decoder) (d : Direction) (bytes : Bytes) :
    Http1Decoder × DecodeBatch :=
  let s := feed d s bytes
  Stream.drive (turn d) ((s.state d).measure + 1) s

def push (s : Http1Decoder) (d : Direction) (bytes : Bytes) : Http1Decoder × DecodeBatch :=
  s.process d bytes

def finish (s : Http1Decoder) (d : Direction) : Http1Decoder × DecodeBatch :=
  let (st, last) := (s.state d).finish
  let s := s.setState d st
  match last with
  | none => (s, .needMore)
  | some (m, incomplete) =>
    (s.trackExchange m,
      ⟨[m], if incomplete then some "HTTP message ended before its declared body" else none⟩)

end Http1Decoder

end Lens.Http1
