import Lens.Protocol
import Lens.Text.Search

/-!
# HTTP/2 decoder

The decoder of `lens-proto-http2`.  Each direction has its own buffer and its own
HPACK decoder; the two directions share the table of streams.  A turn takes one
frame off a buffer and handles it, and a fault in one frame does not stop the
loop.

HPACK is a library of another project.  The model takes it as a parameter: a
state, and a function from a header block to the decoded fields (`Hpack`).
-/

namespace Lens.Http2

open Search (beNat)
open Stream (Turn)

/-! ## Constants -/

def clientPreface : Bytes := Utf8.asBytes "PRI * HTTP/2.0\r\n\r\nSM\r\n\r\n"
def frameHeaderBytes : Nat := 9
def maxObservedFramePayload : Nat := 1024 * 1024
def maxHeaderBlock : Nat := 64 * 1024
def maxDecodedHeaders : Nat := 128 * 1024
def maxTrackedStreams : Nat := 256
def maxInflightCapture : Nat := 4 * 1024 * 1024

def frameData : UInt8 := 0x0
def frameHeaders : UInt8 := 0x1
def frameRstStream : UInt8 := 0x3
def frameContinuation : UInt8 := 0x9
def flagEndStream : UInt8 := 0x1
def flagEndHeaders : UInt8 := 0x4
def flagPadded : UInt8 := 0x8
def flagPriority : UInt8 := 0x20

/-! ## Frames -/

structure Frame where
  kind : UInt8
  flags : UInt8
  streamId : Nat
  payload : Bytes
deriving DecidableEq, Repr

/-- Whether a flag of the frame is set. -/
def Frame.has (f : Frame) (flag : UInt8) : Bool := f.flags &&& flag != 0

theorem Frame.has_mk (kind flags : UInt8) (id : Nat) (payload : Bytes) (flag : UInt8) :
    Frame.has ⟨kind, flags, id, payload⟩ flag = (flags &&& flag != 0) := rfl

structure HeaderBlock where
  streamId : Nat
  endStream : Bool
  bytes : Bytes
  exceeded : Bool
deriving DecidableEq, Repr

/-- Append a fragment to a header block, up to the cap. -/
def HeaderBlock.extend (b : HeaderBlock) (fragment : Bytes) : HeaderBlock :=
  let remaining := maxHeaderBlock - b.bytes.length
  let captured := min remaining fragment.length
  { b with
    bytes := b.bytes ++ fragment.take captured
    exceeded := b.exceeded || decide (captured < fragment.length) }

def headerFragment (f : Frame) : Except String Bytes := do
  let (start, stop) ←
    if f.has flagPadded then
      match f.payload with
      | [] => throw "padded HTTP/2 HEADERS frame was empty"
      | padding :: _ =>
        if f.payload.length < padding.toNat then
          throw "HTTP/2 HEADERS padding exceeded its payload"
        else pure (1, f.payload.length - padding.toNat)
    else pure (0, f.payload.length)
  let start := if f.has flagPriority then start + 5 else start
  if stop < start then
    throw "HTTP/2 HEADERS metadata exceeded its payload"
  return (f.payload.take stop).drop start

def dataFragment (f : Frame) : Except String Bytes :=
  if !f.has flagPadded then .ok f.payload
  else
    match f.payload with
    | [] => .error "padded HTTP/2 DATA frame was empty"
    | padding :: _ =>
      if f.payload.length < padding.toNat then
        .error "HTTP/2 DATA padding exceeded its payload"
      else
        let stop := f.payload.length - padding.toNat
        if stop < 1 then .error "HTTP/2 DATA padding consumed its length byte"
        else .ok ((f.payload.take stop).drop 1)

/-! ## Messages under way -/

structure PendingMessage where
  direction : Direction
  startLine : String
  headers : Headers
  body : Bytes
  truncated : Bool
deriving DecidableEq, Repr

def PendingMessage.finish (p : PendingMessage) : DecodedMessage where
  direction := p.direction
  startLine := p.startLine
  headers := p.headers
  body := p.body
  truncated := p.truncated

structure GrpcPayload where
  compressed : Bool
  length : Nat
  remaining : Nat
  body : Bytes
  maxBody : Nat
deriving DecidableEq, Repr

/-- The role of a direction in an exchange. -/
def role : Direction → String
  | .clientToServer => "request"
  | .serverToClient => "response"

def GrpcPayload.finish (p : GrpcPayload) (direction : Direction) (streamId : Nat) (path : String) :
    DecodedMessage where
  direction := direction
  startLine :=
    "gRPC " ++ role direction ++ " " ++ path ++ " message " ++ toString p.length ++ " bytes"
  headers :=
    [("lens-protocol", "grpc"), ("lens-content", "protobuf"), ("lens-stream-id", toString streamId),
      ("grpc-compressed", toString p.compressed), ("grpc-message-bytes", toString p.length)]
  body := p.body
  truncated := p.maxBody < p.length

structure GrpcParser where
  prefixBytes : Bytes := []
  pending : Option GrpcPayload := none
deriving DecidableEq, Repr

namespace GrpcParser

def hasIncomplete (p : GrpcParser) : Bool := !p.prefixBytes.isEmpty || p.pending.isSome

def retained (p : GrpcParser) : Nat := (p.pending.map fun q => q.body.length).getD 0

/-- The loop of `push` over the bytes of one DATA frame.  An error drops the
messages found before it but keeps what happened to the parser. -/
def pushLoop (direction : Direction) (streamId : Nat) (path : String) (maxBody : Nat) :
    Nat → GrpcParser → Bytes → GrpcParser × Except String (List DecodedMessage)
  | 0, p, _ => (p, .ok [])
  | n + 1, p, bytes =>
    if bytes.isEmpty then (p, .ok [])
    else
      match p.pending with
      | some pending =>
        let consumed := min pending.remaining bytes.length
        let captured := min (maxBody - pending.body.length) consumed
        let pending := { pending with
          body := pending.body ++ bytes.take captured
          remaining := pending.remaining - consumed }
        if pending.remaining = 0 then
          let (p, rest) := pushLoop direction streamId path maxBody n
            { p with pending := none } (bytes.drop consumed)
          (p, rest.map (pending.finish direction streamId path :: ·))
        else
          pushLoop direction streamId path maxBody n
            { p with pending := some pending } (bytes.drop consumed)
      | none =>
        let needed := 5 - p.prefixBytes.length
        let consumed := min needed bytes.length
        let head := p.prefixBytes ++ bytes.take consumed
        let bytes := bytes.drop consumed
        if head.length < 5 then ({ p with prefixBytes := head }, .ok [])
        else
          let flag := head.headD 0
          if flag ≠ 0 ∧ flag ≠ 1 then
            ({ p with prefixBytes := [] }, .error "invalid gRPC compressed-message flag")
          else
            let length := beNat ((head.drop 1).take 4)
            let pending : GrpcPayload := ⟨flag = 1, length, length, [], maxBody⟩
            if length = 0 then
              let (p, rest) := pushLoop direction streamId path maxBody n
                { prefixBytes := [], pending := none } bytes
              (p, rest.map (pending.finish direction streamId path :: ·))
            else
              pushLoop direction streamId path maxBody n
                { prefixBytes := [], pending := some pending } bytes

def push (p : GrpcParser) (direction : Direction) (streamId : Nat) (path : String)
    (bytes : Bytes) (maxBody : Nat) : GrpcParser × Except String (List DecodedMessage) :=
  pushLoop direction streamId path maxBody (bytes.length + 1) p bytes

end GrpcParser

structure StreamState where
  request : Option PendingMessage := none
  response : Option PendingMessage := none
  grpc : Bool := false
  path : Option String := none
  grpcRequest : GrpcParser := {}
  grpcResponse : GrpcParser := {}
deriving DecidableEq, Repr

namespace StreamState

def pending (s : StreamState) : Direction → Option PendingMessage
  | .clientToServer => s.request
  | .serverToClient => s.response

def setPending (s : StreamState) (d : Direction) (p : Option PendingMessage) : StreamState :=
  match d with
  | .clientToServer => { s with request := p }
  | .serverToClient => { s with response := p }

def grpcParser (s : StreamState) : Direction → GrpcParser
  | .clientToServer => s.grpcRequest
  | .serverToClient => s.grpcResponse

def setGrpcParser (s : StreamState) (d : Direction) (p : GrpcParser) : StreamState :=
  match d with
  | .clientToServer => { s with grpcRequest := p }
  | .serverToClient => { s with grpcResponse := p }

def retainedBodyBytes (s : StreamState) : Nat :=
  (s.request.map fun m => m.body.length).getD 0 + (s.response.map fun m => m.body.length).getD 0
    + s.grpcRequest.retained + s.grpcResponse.retained

end StreamState

def addHttp2Metadata (m : DecodedMessage) (streamId : Nat) (direction : Direction) :
    DecodedMessage :=
  ((m.pushHeader "lens-protocol" "http2").pushHeader "lens-stream-id"
    (toString streamId)).pushHeader "lens-boundary" (role direction)

/-! ## Directions -/

/-- HPACK decoding.  A failure also leaves a state. -/
structure Hpack (η : Type) where
  init : η
  decode : η → Bytes → η × Except String (List (Bytes × Bytes))

structure DirectionState (η : Type) where
  buffer : Bytes
  expectClientPreface : Bool
  hpack : η
  continuation : Option HeaderBlock
  skipPayload : Nat

inductive NextFrame where
  | frame (f : Frame)
  | skipped (reason : String)
  | needMore
  | invalid (reason : String)

namespace DirectionState

variable {η : Type}

def new (hp : Hpack η) (expectClientPreface : Bool) : DirectionState η where
  buffer := []
  expectClientPreface := expectClientPreface
  hpack := hp.init
  continuation := none
  skipPayload := 0

/-- A frame off the buffer, once the preface and skipped payloads are gone. -/
def takeFrame (s : DirectionState η) : DirectionState η × NextFrame :=
  if s.buffer.length < frameHeaderBytes then (s, .needMore)
  else
    let length := beNat (s.buffer.take 3)
    let kind := (s.buffer.drop 3).headD 0
    let flags := (s.buffer.drop 4).headD 0
    let streamId := beNat (((s.buffer.drop 5).headD 0 &&& 0x7f) :: (s.buffer.drop 6).take 3)
    if maxObservedFramePayload < length then
      let rest := s.buffer.drop frameHeaderBytes
      let consumed := min length rest.length
      ({ s with buffer := rest.drop consumed, skipPayload := length - consumed },
        .skipped s!"HTTP/2 frame payload of {length} bytes exceeded the 1 MiB observation cap")
    else
      let total := frameHeaderBytes + length
      if s.buffer.length < total then (s, .needMore)
      else
        ({ s with buffer := s.buffer.drop total },
          .frame ⟨kind, flags, streamId, (s.buffer.take total).drop frameHeaderBytes⟩)

/-- Drop what is left of a skipped payload, then take a frame. -/
def skipThenTake (s : DirectionState η) : DirectionState η × NextFrame :=
  if 0 < s.skipPayload then
    let consumed := min s.skipPayload s.buffer.length
    let s := { s with buffer := s.buffer.drop consumed, skipPayload := s.skipPayload - consumed }
    if 0 < s.skipPayload then (s, .needMore) else s.takeFrame
  else s.takeFrame

def nextFrame (s : DirectionState η) : DirectionState η × NextFrame :=
  if s.expectClientPreface then
    let compared := min s.buffer.length clientPreface.length
    if s.buffer.take compared ≠ clientPreface.take compared then
      ({ s with buffer := [] }, .invalid "invalid HTTP/2 client connection preface")
    else if s.buffer.length < clientPreface.length then (s, .needMore)
    else
      { s with buffer := s.buffer.drop clientPreface.length, expectClientPreface := false
        }.skipThenTake
  else s.skipThenTake

end DirectionState

/-! ## The decoder -/

/-- Streams by their identifiers. -/
abbrev Streams := AList fun _ : Nat => StreamState

structure Http2Decoder (η : Type) where
  client : DirectionState η
  server : DirectionState η
  streams : Streams
  maxBody : Nat
  retainedBodyBytes : Nat

namespace Http2Decoder

variable {η : Type}

def new (hp : Hpack η) (maxBody : Nat) : Http2Decoder η where
  client := .new hp true
  server := .new hp false
  streams := ∅
  maxBody := maxBody
  retainedBodyBytes := 0

def state (s : Http2Decoder η) : Direction → DirectionState η
  | .clientToServer => s.client
  | .serverToClient => s.server

def setState (s : Http2Decoder η) (d : Direction) (st : DirectionState η) : Http2Decoder η :=
  match d with
  | .clientToServer => { s with client := st }
  | .serverToClient => { s with server := st }

def setContinuation (s : Http2Decoder η) (d : Direction) (c : Option HeaderBlock) :
    Http2Decoder η :=
  s.setState d { s.state d with continuation := c }

def setStream (s : Http2Decoder η) (id : Nat) (st : StreamState) : Http2Decoder η :=
  { s with streams := s.streams.insert id st }

def removeStream (s : Http2Decoder η) (id : Nat) : Http2Decoder η :=
  match s.streams.lookup id with
  | none => s
  | some st =>
    { s with
      streams := s.streams.erase id
      retainedBodyBytes := s.retainedBodyBytes - st.retainedBodyBytes }

/-- What handling a frame gives: the messages it completed, or a fault. -/
abbrev Handled (η : Type) := Http2Decoder η × Except String (List DecodedMessage)

/-- The headers of a gRPC stream make a message of their own. -/
def grpcHeaders (s : Http2Decoder η) (direction : Direction) (id : Nat) (endStream : Bool)
    (stream : StreamState) (headers : Headers) : Handled η :=
  let marked := headers ++ [("lens-protocol", "grpc"), ("lens-stream-id", toString id)]
  let (startLine, marked) :=
    match findHeader headers ":method", findHeader headers ":status" with
    | some method, _ =>
      ("gRPC " ++ method ++ " "
        ++ ((findHeader headers ":path").or stream.path).getD "/unknown",
        marked ++ [("lens-boundary", "request")])
    | none, some status => ("gRPC response HTTP " ++ status, marked)
    | none, none =>
      let marked :=
        if direction = Direction.serverToClient then
          marked ++ [("lens-boundary", "response")]
        else marked
      ("gRPC trailers status=" ++ (findHeader marked "grpc-status").getD "unknown", marked)
  let m : DecodedMessage := ⟨direction, startLine, marked, [], false⟩
  let s := if endStream = true ∧ direction = Direction.serverToClient then s.removeStream id else s
  (s, .ok [m])

/-- Trailers end the message under way. -/
def plainTrailers (s : Http2Decoder η) (direction : Direction) (id : Nat) (endStream : Bool)
    (stream : StreamState) (headers : Headers) : Handled η :=
  match stream.pending direction with
  | none => (s, .error "HTTP/2 trailers arrived before initial headers")
  | some pending =>
    let pending := { pending with headers := pending.headers ++ headers }
    if endStream then
      let s := s.setStream id (stream.setPending direction none)
      let s := { s with retainedBodyBytes := s.retainedBodyBytes - pending.body.length }
      let s := if direction = Direction.serverToClient then s.removeStream id else s
      (s, .ok [addHttp2Metadata pending.finish id direction])
    else (s.setStream id (stream.setPending direction (some pending)), .ok [])

/-- Initial headers of a stream that is not gRPC. -/
def plainHeaders (s : Http2Decoder η) (direction : Direction) (id : Nat) (endStream : Bool)
    (stream : StreamState) (headers : Headers) (startLine : String) : Handled η :=
  let pending : PendingMessage := ⟨direction, startLine, headers, [], false⟩
  if endStream then
    -- The pending message is put in and taken out again; the stream stays.
    (s.setStream id (stream.setPending direction none),
      .ok [addHttp2Metadata pending.finish id direction])
  else (s.setStream id (stream.setPending direction (some pending)), .ok [])

def applyHeaders (s : Http2Decoder η) (direction : Direction) (id : Nat) (endStream : Bool)
    (headers : Headers) : Handled η :=
  let contentType := (findHeader headers "content-type").getD ""
  if (s.streams.lookup id).isNone ∧ maxTrackedStreams ≤ s.streams.entries.length then
    (s, .error "HTTP/2 connection exceeded 256 tracked streams")
  else
    let stream := (s.streams.lookup id).getD {}
    let stream := { stream with
      path := (findHeader headers ":path").or stream.path
      grpc := stream.grpc || Str.startsWith (Str.toAsciiLowercase contentType) "application/grpc" }
    let s := s.setStream id stream
    if stream.grpc then s.grpcHeaders direction id endStream stream headers
    else
      match findHeader headers ":method", findHeader headers ":status" with
      | some method, _ =>
        s.plainHeaders direction id endStream stream headers
          (method ++ " " ++ (findHeader headers ":path").getD "/" ++ " HTTP/2")
      | none, some status =>
        s.plainHeaders direction id endStream stream headers ("HTTP/2 " ++ status)
      | none, none => s.plainTrailers direction id endStream stream headers

/-- Decoded fields as text. -/
def headerText (fields : List (Bytes × Bytes)) : Headers :=
  fields.map fun f => (Utf8.fromUtf8Lossy f.1, Utf8.fromUtf8Lossy f.2)

def decodedSize (fields : List (Bytes × Bytes)) : Nat :=
  (fields.map fun f => f.1.length + f.2.length).sum

def completeHeaderBlock (hp : Hpack η) (s : Http2Decoder η) (direction : Direction)
    (block : HeaderBlock) : Handled η :=
  if block.exceeded then (s, .error "HTTP/2 header block exceeded 64 KiB and was skipped")
  else
    let (hpack, decoded) := hp.decode (s.state direction).hpack block.bytes
    let s := s.setState direction { s.state direction with hpack := hpack }
    match decoded with
    | .error e => (s, .error ("HPACK decode failed: " ++ e))
    | .ok fields =>
      if maxDecodedHeaders < decodedSize fields then
        (s, .error "decoded HTTP/2 headers exceeded 128 KiB")
      else s.applyHeaders direction block.streamId block.endStream (headerText fields)

def handleHeaders (hp : Hpack η) (s : Http2Decoder η) (direction : Direction) (f : Frame) :
    Handled η :=
  if f.streamId = 0 then (s, .error "HTTP/2 HEADERS frame used stream 0")
  else
    match headerFragment f with
    | .error e => (s, .error e)
    | .ok fragment =>
      let block := HeaderBlock.extend ⟨f.streamId, f.has flagEndStream, [], false⟩ fragment
      if !f.has flagEndHeaders then (s.setContinuation direction (some block), .ok [])
      else s.completeHeaderBlock hp direction block

def handleContinuation (hp : Hpack η) (s : Http2Decoder η) (direction : Direction) (f : Frame) :
    Handled η :=
  match (s.state direction).continuation with
  | none => (s, .error "unexpected HTTP/2 CONTINUATION frame")
  | some block =>
    let s := s.setContinuation direction none
    if f.streamId ≠ block.streamId then
      (s, .error "HTTP/2 CONTINUATION changed stream identifiers")
    else
      let block := block.extend f.payload
      if !f.has flagEndHeaders then (s.setContinuation direction (some block), .ok [])
      else s.completeHeaderBlock hp direction block

/-- The message for a response stream that ends without trailers. -/
def endedWithoutTrailers (direction : Direction) (id : Nat) : DecodedMessage where
  direction := direction
  startLine := "gRPC stream ended without trailers"
  headers := [("lens-protocol", "grpc"), ("lens-stream-id", toString id),
    ("lens-boundary", "response"), ("grpc-status", "missing")]
  body := []
  truncated := true

/-- Data on a gRPC stream. -/
def grpcData (s : Http2Decoder η) (direction : Direction) (id : Nat) (endStream : Bool)
    (stream : StreamState) (data : Bytes) : Handled η :=
  let globalRemaining := maxInflightCapture - s.retainedBodyBytes
  let path := stream.path.getD "/unknown"
  let before := (stream.grpcParser direction).retained
  let captureLimit := min s.maxBody (saturatingAdd before globalRemaining)
  let (parser, result) := (stream.grpcParser direction).push direction id path data captureLimit
  let s := s.setStream id (stream.setGrpcParser direction parser)
  match result with
  | .error e => (s, .error e)
  | .ok messages =>
    let s := { s with
      retainedBodyBytes := saturatingAdd (s.retainedBodyBytes - before) parser.retained }
    if endStream then
      if parser.hasIncomplete then (s, .error "gRPC stream ended inside a message envelope")
      else if direction = Direction.serverToClient then
        (s.removeStream id, .ok (messages ++ [endedWithoutTrailers direction id]))
      else (s, .ok messages)
    else (s, .ok messages)

/-- Data of a message under way. -/
def plainData (s : Http2Decoder η) (direction : Direction) (id : Nat) (endStream : Bool)
    (stream : StreamState) (data : Bytes) : Handled η :=
  let globalRemaining := maxInflightCapture - s.retainedBodyBytes
  match stream.pending direction with
  | none => (s, .error "HTTP/2 DATA arrived without message headers")
  | some pending =>
    let remaining := min (s.maxBody - pending.body.length) globalRemaining
    let captured := min remaining data.length
    let pending := { pending with
      body := pending.body ++ data.take captured
      truncated := pending.truncated || decide (captured < data.length) }
    let s := { s with retainedBodyBytes := saturatingAdd s.retainedBodyBytes captured }
    if endStream then
      let s := s.setStream id (stream.setPending direction none)
      let s := { s with retainedBodyBytes := s.retainedBodyBytes - pending.body.length }
      let s := if direction = Direction.serverToClient then s.removeStream id else s
      (s, .ok [addHttp2Metadata pending.finish id direction])
    else (s.setStream id (stream.setPending direction (some pending)), .ok [])

def handleData (s : Http2Decoder η) (direction : Direction) (f : Frame) : Handled η :=
  if f.streamId = 0 then (s, .error "HTTP/2 DATA frame used stream 0")
  else
    match dataFragment f with
    | .error e => (s, .error e)
    | .ok data =>
      match s.streams.lookup f.streamId with
      | none => (s, .error "HTTP/2 DATA arrived before HEADERS")
      | some stream =>
        if stream.grpc then s.grpcData direction f.streamId (f.has flagEndStream) stream data
        else s.plainData direction f.streamId (f.has flagEndStream) stream data

def handleFrame (hp : Hpack η) (s : Http2Decoder η) (direction : Direction) (f : Frame) :
    Handled η :=
  if (s.state direction).continuation.isSome ∧ f.kind ≠ frameContinuation then
    (s.setContinuation direction none,
      .error "HTTP/2 header block was interrupted before END_HEADERS")
  else if f.kind = frameHeaders then s.handleHeaders hp direction f
  else if f.kind = frameContinuation then s.handleContinuation hp direction f
  else if f.kind = frameData then s.handleData direction f
  else if f.kind = frameRstStream then ({ s with streams := s.streams.erase f.streamId }, .ok [])
  else (s, .ok [])

/-- One turn of `decode_available`. -/
def turn (hp : Hpack η) (direction : Direction) (s : Http2Decoder η) :
    Turn (Http2Decoder η) DecodedMessage String :=
  let (st, next) := (s.state direction).nextFrame
  let s := s.setState direction st
  match next with
  | .frame f =>
    match s.handleFrame hp direction f with
    | (s, .ok messages) => .again s ⟨messages, none⟩
    | (s, .error reason) => .again (s.setContinuation direction none) ⟨[], some reason⟩
  | .skipped reason => .again s ⟨[], some reason⟩
  | .needMore => .stop s .needMore
  | .invalid reason => .stop s ⟨[], some reason⟩

def decodeAvailable (hp : Hpack η) (s : Http2Decoder η) (direction : Direction) :
    Http2Decoder η × DecodeBatch :=
  Stream.drive (turn hp direction) ((s.state direction).buffer.length + 1) s

def push (hp : Hpack η) (s : Http2Decoder η) (direction : Direction) (bytes : Bytes) :
    Http2Decoder η × DecodeBatch :=
  let st := s.state direction
  (s.setState direction { st with buffer := st.buffer ++ bytes }).decodeAvailable hp direction

def finish (hp : Hpack η) (s : Http2Decoder η) (direction : Direction) :
    Http2Decoder η × DecodeBatch :=
  let (s, batch) := s.decodeAvailable hp direction
  let st := s.state direction
  if !st.buffer.isEmpty || st.continuation.isSome || decide (0 < st.skipPayload) then
    (s.setState direction { st with buffer := [], continuation := none, skipPayload := 0 },
      { batch with desynchronized := some "HTTP/2 stream ended inside a frame" })
  else (s, batch)

end Http2Decoder

end Lens.Http2
