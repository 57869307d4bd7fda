import Lens.Http1.Decoder
import Lens.Http2.Decoder
import Lens.Postgres.Decoder
import Lens.Redact.Redactor
import Lens.Redis.Decoder

/-!
# Flow store

The actor of `lens-store`.  It applies observations one at a time: a flow is
opened, its data goes to the decoder of its protocol, and every decoded message
is redacted and stored with the latency of its exchange.  Latencies pair the
first waiting request of a stream with the next response of that stream.

The maps of the source are functions to an optional value.  The plugin host is a
function from an event to a report.
-/

namespace Lens.Store

open Http1 (Http1Decoder)
open Http2 (Http2Decoder Hpack)
open Postgres (PostgresDecoder)
open Redis (RedisDecoder)

/-! ## Maps -/

/-- A map with an entry replaced or removed. -/
def setEntry {κ ν : Type} [DecidableEq κ] (m : κ → Option ν) (k : κ) (v : Option ν) :
    κ → Option ν :=
  fun k' => if k' = k then v else m k'

section Entries

variable {κ ν : Type} [DecidableEq κ] (m : κ → Option ν) (k : κ) (v : Option ν)

@[simp] theorem setEntry_self : setEntry m k v k = v := by simp [setEntry]

theorem setEntry_of_ne {k' : κ} (h : k' ≠ k) : setEntry m k v k' = m k' := by simp [setEntry, h]

end Entries

/-! ## Decoders -/

inductive ProtocolDecoder (η : Type) where
  | http1 (s : Http1Decoder)
  | http2 (s : Http2Decoder η)
  | postgres (s : PostgresDecoder)
  | redis (s : RedisDecoder)

namespace ProtocolDecoder

variable {η : Type}

def push (hp : Hpack η) (direction : Direction) (bytes : Bytes) :
    ProtocolDecoder η → ProtocolDecoder η × DecodeBatch
  | .http1 s => let r := s.push direction bytes; (.http1 r.1, r.2)
  | .http2 s => let r := s.push hp direction bytes; (.http2 r.1, r.2)
  | .postgres s => let r := s.push direction bytes; (.postgres r.1, r.2)
  | .redis s => let r := s.push direction bytes; (.redis r.1, r.2)

def finish (hp : Hpack η) (direction : Direction) :
    ProtocolDecoder η → ProtocolDecoder η × DecodeBatch
  | .http1 s => let r := s.finish direction; (.http1 r.1, r.2)
  | .http2 s => let r := s.finish hp direction; (.http2 r.1, r.2)
  | .postgres s => let r := s.finish direction; (.postgres r.1, r.2)
  | .redis s => let r := s.finish direction; (.redis r.1, r.2)

/-- The decoder for a protocol name. -/
def forProtocol (hp : Hpack η) (maxBody : Nat) (protocol : String) : Option (ProtocolDecoder η) :=
  if protocol = "http1" then some (.http1 (.new maxBody))
  else if protocol = "http2" ∨ protocol = "grpc" then some (.http2 (.new hp maxBody))
  else if protocol = "postgres" then some (.postgres (.new maxBody))
  else if protocol = "redis" then some (.redis (.new maxBody))
  else none

end ProtocolDecoder

/-! ## Plugins -/

structure PluginAnnotation where
  plugin : String
  value : String
deriving DecidableEq, Repr

structure PluginRunReport where
  annotations : List PluginAnnotation
  failures : Headers
deriving DecidableEq, Repr

/-- `char::is_control`. -/
def isControl (c : Char) : Bool := c.toNat < 0x20 || (0x7f ≤ c.toNat && c.toNat < 0xa0)

/-- One character of a JSON string. -/
def escapeChar (c : Char) : List Char :=
  if c = '"' then ['\\', '"']
  else if c = '\\' then ['\\', '\\']
  else if c = '\n' then ['\\', 'n']
  else if c = '\r' then ['\\', 'r']
  else if c = '\t' then ['\\', 't']
  else if isControl c then ['\\', 'u', '0', '0'] ++ (Str.hex2 (UInt8.ofNat c.toNat)).toList
  else [c]

def escapeJson (value : String) : String := String.ofList (value.toList.flatMap escapeChar)

def jsonString : Option String → String
  | none => "null"
  | some value => "\"" ++ escapeJson value ++ "\""

/-- The event a plugin sees. -/
def pluginEventJson (flowId : FlowId) (m : MessageRecord) : Bytes :=
  Utf8.asBytes ("\x7b\"schema_version\":\"1.0\",\"event\":\"message.decoded\",\"flow_id\":"
    ++ toString flowId
    ++ ",\"message_id\":" ++ toString (m.envelope.messageId.getD 0)
    ++ ",\"direction\":" ++ jsonString (m.envelope.direction.map Direction.text)
    ++ ",\"summary\":\"" ++ escapeJson m.summary
    ++ "\",\"body\":\"" ++ escapeJson (Utf8.fromUtf8Lossy m.body)
    ++ "\",\"truncated\":" ++ toString m.truncated
    ++ ",\"sensitivity\":\"" ++ m.envelope.sensitivity.text ++ "\"\x7d")

/-! ## Flows -/

structure StoredFlow where
  record : FlowRecord
  clientToUpstreamBytes : Nat
  upstreamToClientBytes : Nat
  failure : Option String
  decoderError : Option String
  messages : List MessageRecord
  pluginAnnotations : List PluginAnnotation
  pluginFailures : Nat
deriving DecidableEq, Repr

/-- Change the first flow with an identifier. -/
def updateFlow (flows : List StoredFlow) (flowId : FlowId) (f : StoredFlow → StoredFlow) :
    List StoredFlow :=
  match flows with
  | [] => []
  | flow :: flows =>
    if flow.record.envelope.flowId = some flowId then f flow :: flows
    else flow :: updateFlow flows flowId f

/-- The first flow with an identifier. -/
def findFlow (flows : List StoredFlow) (flowId : FlowId) : Option StoredFlow :=
  flows.find? fun flow => flow.record.envelope.flowId = some flowId

/-- Waiting requests by flow and stream, oldest first. -/
abbrev PendingRequests := FlowId × String → Option (List Nat)

structure StoreActor (η : Type) where
  flows : List StoredFlow
  evicted : Nat
  nextMessageId : Nat
  maxFlows : Nat
  runId : RunId
  maxBody : Nat
  reveal : Bool
  decoders : FlowId → Option (ProtocolDecoder η)
  pendingRequests : PendingRequests
  pluginHost : Option (Bytes → PluginRunReport)

/-! ## Messages -/

/-- The stream a message belongs to. -/
def streamOf (m : DecodedMessage) : String := (findHeader m.headers "lens-stream-id").getD ""

/-- A request waits and a response ends the oldest wait of its stream. -/
def trackBoundary (pending : PendingRequests) (key : FlowId × String) (boundary : Option String)
    (now : Nat) : PendingRequests × Option Nat :=
  if boundary = some "request" then
    (setEntry pending key (some ((pending key).getD [] ++ [now])), none)
  else if boundary = some "response" then
    match pending key with
    | some (started :: rest) => (setEntry pending key (some rest), some (now - started))
    | _ => (pending, none)
  else (pending, none)

/-- The record of a redacted message. -/
def messageRecord (envelope : EventEnvelope) (outcome : Redact.RedactionOutcome)
    (truncated : Bool) (latencyNanos : Option Nat) : MessageRecord where
  envelope := envelope
  summary := outcome.message.summary
  body := outcome.message.render
  truncated := truncated
  latencyNanos := latencyNanos

/-- What a plugin report adds to a flow. -/
def addReport (flow : StoredFlow) : Option PluginRunReport → StoredFlow
  | none => flow
  | some report =>
    { flow with
      pluginFailures := saturatingAdd flow.pluginFailures report.failures.length
      pluginAnnotations := flow.pluginAnnotations
        ++ report.annotations.take (32 - flow.pluginAnnotations.length) }

namespace StoreActor

variable {η : Type}

def withInspection (maxFlows : Nat) (runId : RunId) (maxBody : Nat) (reveal : Bool) :
    StoreActor η where
  flows := []
  evicted := 0
  nextMessageId := 0
  maxFlows := maxFlows
  runId := runId
  maxBody := maxBody
  reveal := reveal
  decoders := fun _ => none
  pendingRequests := fun _ => none
  pluginHost := none

/-- The envelope of the next message. -/
def messageEnvelope (s : StoreActor η) (flowId : FlowId) (timestamp : TimestampPair)
    (direction : Direction) (sensitivity : Sensitivity) : EventEnvelope :=
  { EventEnvelope.new "message.decoded" s.runId .decoder with
    flowId := some flowId
    messageId := some (saturatingAdd s.nextMessageId 1)
    direction := some direction
    tsMonoNanos := timestamp.monoNanos
    tsWallNanos := timestamp.wallNanos
    sensitivity := sensitivity }

/-- The sensitivity of a stored message. -/
def sensitivityOf (reveal redacted : Bool) : Sensitivity :=
  if reveal then .secret else if redacted then .redacted else .pub

/-- The waiting requests after a message, and its latency. -/
def boundaryOf (s : StoreActor η) (flowId : FlowId) (timestamp : TimestampPair)
    (decoded : DecodedMessage) : PendingRequests × Option Nat :=
  trackBoundary s.pendingRequests (flowId, streamOf decoded)
    (findHeader decoded.headers "lens-boundary") timestamp.monoNanos

/-- The record of the next message under a redaction of it. -/
def recordWith (s : StoreActor η) (reveal : Bool) (flowId : FlowId) (timestamp : TimestampPair)
    (decoded : DecodedMessage) : MessageRecord :=
  let outcome := Redact.redact reveal decoded
  messageRecord (s.messageEnvelope flowId timestamp decoded.direction
      (sensitivityOf reveal outcome.redacted))
    outcome decoded.truncated (s.boundaryOf flowId timestamp decoded).2

/-- What the plugins report on the next message.  They always see it redacted. -/
def reportOf (s : StoreActor η) (flowId : FlowId) (timestamp : TimestampPair)
    (decoded : DecodedMessage) : Option PluginRunReport :=
  s.pluginHost.map fun host =>
    host (pluginEventJson flowId (s.recordWith false flowId timestamp decoded))

/-- A flow with the next message. -/
def keepMessage (s : StoreActor η) (flowId : FlowId) (timestamp : TimestampPair)
    (decoded : DecodedMessage) (flow : StoredFlow) : StoredFlow :=
  let protocol :=
    if findHeader decoded.headers "lens-protocol" = some "grpc" then some "grpc"
    else flow.record.protocol
  addReport { flow with
    record := { flow.record with
      protocol := protocol
      messageIds := flow.record.messageIds ++ [saturatingAdd s.nextMessageId 1] }
    messages := flow.messages ++ [s.recordWith s.reveal flowId timestamp decoded] }
    (s.reportOf flowId timestamp decoded)

/-- One message of a batch. -/
def storeMessage (s : StoreActor η) (flowId : FlowId) (timestamp : TimestampPair)
    (decoded : DecodedMessage) : StoreActor η :=
  { s with
    pendingRequests := (s.boundaryOf flowId timestamp decoded).1
    nextMessageId := saturatingAdd s.nextMessageId 1
    flows := updateFlow s.flows flowId (s.keepMessage flowId timestamp decoded) }

def storeBatch (s : StoreActor η) (flowId : FlowId) (timestamp : TimestampPair)
    (batch : DecodeBatch) : StoreActor η :=
  let s := match batch.desynchronized with
    | none => s
    | some reason => { s with
        flows := updateFlow s.flows flowId fun flow => { flow with decoderError := some reason } }
  batch.messages.foldl (fun s m => s.storeMessage flowId timestamp m) s

/-! ## Events -/

/-- Forget the waiting requests of a flow. -/
def dropPending (pending : PendingRequests) (flowId : FlowId) : PendingRequests :=
  fun key => if key.1 = flowId then none else pending key

/-- The two last batches of a decoder, and the end of its waiting requests. -/
def finishFlow (hp : Hpack η) (s : StoreActor η) (flowId : FlowId) (timestamp : TimestampPair) :
    StoreActor η :=
  let s := match s.decoders flowId with
    | none => s
    | some decoder =>
      let s := { s with decoders := setEntry s.decoders flowId none }
      let (decoder, client) := decoder.finish hp .clientToServer
      let s := s.storeBatch flowId timestamp client
      let (_, server) := decoder.finish hp .serverToClient
      s.storeBatch flowId timestamp server
  { s with pendingRequests := dropPending s.pendingRequests flowId }

/-- Make room for one more flow. -/
def evict (s : StoreActor η) : StoreActor η :=
  if s.flows.length = s.maxFlows then
    let s := match s.flows.head?.bind fun flow => flow.record.envelope.flowId with
      | none => s
      | some flowId => { s with
          decoders := setEntry s.decoders flowId none
          pendingRequests := dropPending s.pendingRequests flowId }
    { s with flows := s.flows.tail, evicted := saturatingAdd s.evicted 1 }
  else s

def openFlow (hp : Hpack η) (s : StoreActor η) (flowId : FlowId) (timestamp : TimestampPair)
    (client upstream : Endpoint) (protocol : Option String) : StoreActor η :=
  let s := s.evict
  let envelope := { EventEnvelope.new "flow.opened" s.runId .proxy with
    flowId := some flowId
    tsMonoNanos := timestamp.monoNanos
    tsWallNanos := timestamp.wallNanos }
  let record := { FlowRecord.new envelope client upstream with protocol := protocol }
  let s := { s with flows := s.flows ++ [⟨record, 0, 0, none, none, [], [], 0⟩] }
  match protocol.bind (ProtocolDecoder.forProtocol hp s.maxBody) with
  | none => s
  | some decoder => { s with decoders := setEntry s.decoders flowId (some decoder) }

/-- Count transferred bytes. -/
def addTransferred (flow : StoredFlow) (bytes : Nat) : Direction → StoredFlow
  | .clientToServer =>
    { flow with clientToUpstreamBytes := saturatingAdd flow.clientToUpstreamBytes bytes }
  | .serverToClient =>
    { flow with upstreamToClientBytes := saturatingAdd flow.upstreamToClientBytes bytes }

def apply (hp : Hpack η) (s : StoreActor η) (event : ObservationEvent) : StoreActor η :=
  let update (s : StoreActor η) (f : StoredFlow → StoredFlow) : StoreActor η :=
    { s with flows := updateFlow s.flows event.flowId f }
  match event.kind with
  | .data direction bytes =>
    match s.decoders event.flowId with
    | none => s
    | some decoder =>
      let (decoder, batch) := decoder.push hp direction bytes
      let s := { s with decoders := setEntry s.decoders event.flowId (some decoder) }
      s.storeBatch event.flowId event.timestamp batch
  | .opened client upstream protocol =>
    s.openFlow hp event.flowId event.timestamp client upstream protocol
  | .identified identity =>
    update s fun flow => { flow with record := { flow.record with identity := some identity } }
  | .protocolDetected protocol =>
    let s := update s fun flow =>
      { flow with record := { flow.record with protocol := some protocol } }
    let decoder := ProtocolDecoder.forProtocol hp s.maxBody protocol
    { s with decoders := setEntry s.decoders event.flowId decoder }
  | .transferred direction bytes => update s fun flow => addTransferred flow bytes direction
  | .closed =>
    update (s.finishFlow hp event.flowId event.timestamp) fun flow =>
      { flow with record := { flow.record with state := .closed } }
  | .failed reason =>
    update (s.finishFlow hp event.flowId event.timestamp) fun flow =>
      { flow with record := { flow.record with state := .failed }, failure := some reason }

/-- Apply observations in the order they are received. -/
def run (hp : Hpack η) (s : StoreActor η) (events : List ObservationEvent) : StoreActor η :=
  events.foldl (fun s e => s.apply hp e) s

end StoreActor

end Lens.Store
