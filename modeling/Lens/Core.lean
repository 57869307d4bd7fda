import Lens.Text.Str
import Lens.Text.Utf8

/-!
# Core records

The records of `lens-core` that cross crate boundaries: identifiers, the event
envelope, flow and message records, and the observations the proxy sends to the
store.  Identifiers, counters and timestamps are `u64` in the source and `Nat`
here.  The places where the source saturates call `saturatingAdd`.
-/

namespace Lens

/-- Data of the wire. -/
abbrev Bytes := List UInt8

/-- Header fields, the name before the value. -/
abbrev Headers := List (String × String)

/-- `u64::saturating_add`. -/
def saturatingAdd (a b : Nat) : Nat := min (a + b) (2 ^ 64 - 1)

/-! ## Fallible steps -/

section Fallible

variable {ε α β : Type}

@[simp] theorem pure_eq_ok (a : α) : (pure a : Except ε α) = Except.ok a := rfl

@[simp] theorem ok_bind (a : α) (f : α → Except ε β) : (Except.ok a >>= f) = f a := rfl

@[simp] theorem error_bind (e : ε) (f : α → Except ε β) :
    (Except.error e >>= f) = Except.error e := rfl

/-- A step after another succeeds if both do. -/
theorem bind_eq_ok {x : Except ε α} {f : α → Except ε β} {b : β} :
    x >>= f = .ok b ↔ ∃ a, x = .ok a ∧ f a = .ok b := by
  cases x <;> simp

@[simp] theorem map_ok (f : α → β) (a : α) :
    (f <$> (Except.ok a : Except ε α)) = Except.ok (f a) := rfl

@[simp] theorem map_error (f : α → β) (e : ε) :
    (f <$> (Except.error e : Except ε α)) = Except.error e := rfl

end Fallible

/-! ## Records -/

abbrev FlowId := Nat
abbrev MessageId := Nat
abbrev RunId := Nat
abbrev SessionId := Nat

/-- Traffic direction relative to the client. -/
inductive Direction where
  | clientToServer
  | serverToClient
deriving DecidableEq, Repr

/-- The opposite direction. -/
def Direction.other : Direction → Direction
  | .clientToServer => .serverToClient
  | .serverToClient => .clientToServer

/-- A direction as text. -/
def Direction.text : Direction → String
  | .clientToServer => "client_to_server"
  | .serverToClient => "server_to_client"

inductive Severity where
  | info
  | warning
  | error
deriving DecidableEq, Repr

inductive Sensitivity where
  | pub
  | redacted
  | secret
deriving DecidableEq, Repr

/-- A sensitivity as text. -/
def Sensitivity.text : Sensitivity → String
  | .pub => "public"
  | .redacted => "redacted"
  | .secret => "secret"

inductive EventSource where
  | proxy
  | tls
  | decoder
  | store
  | ui
  | cli
  | plugin
  | benchmark
deriving DecidableEq, Repr

structure SchemaVersion where
  major : Nat
  minor : Nat
deriving DecidableEq, Repr

/-- `SchemaVersion::CURRENT`. -/
def SchemaVersion.current : SchemaVersion := ⟨0, 1⟩

/-- Shared event envelope. -/
structure EventEnvelope where
  eventType : String
  schemaVersion : SchemaVersion
  runId : RunId
  sessionId : Option SessionId
  flowId : Option FlowId
  messageId : Option MessageId
  direction : Option Direction
  tsMonoNanos : Nat
  tsWallNanos : Nat
  source : EventSource
  severity : Severity
  sensitivity : Sensitivity
deriving DecidableEq, Repr

/-- A default-safe envelope. -/
def EventEnvelope.new (eventType : String) (runId : RunId) (source : EventSource) :
    EventEnvelope where
  eventType := eventType
  schemaVersion := .current
  runId := runId
  sessionId := none
  flowId := none
  messageId := none
  direction := none
  tsMonoNanos := 0
  tsWallNanos := 0
  source := source
  severity := .info
  sensitivity := .pub

/-- Pair of monotonic and wall-clock timestamps in nanoseconds. -/
structure TimestampPair where
  monoNanos : Nat
  wallNanos : Nat
deriving DecidableEq, Repr

/-- Network endpoint.  The port is a `u16`. -/
structure Endpoint where
  host : String
  port : Nat
deriving DecidableEq, Repr

/-- An endpoint as text. -/
def Endpoint.text (e : Endpoint) : String := e.host ++ ":" ++ toString e.port

/-- Process and service metadata of one flow. -/
structure ServiceIdentity where
  pid : Option Nat
  process : Option String
  service : Option String
  container : Option String
deriving DecidableEq, Repr

inductive FlowState where
  | «open»
  | closed
  | failed
deriving DecidableEq, Repr

/-- A flow state as text. -/
def FlowState.text : FlowState → String
  | .open => "open"
  | .closed => "closed"
  | .failed => "failed"

/-- Aggregate flow record. -/
structure FlowRecord where
  envelope : EventEnvelope
  client : Endpoint
  upstream : Endpoint
  identity : Option ServiceIdentity
  protocol : Option String
  state : FlowState
  messageIds : List MessageId
deriving DecidableEq, Repr

/-- A new open flow. -/
def FlowRecord.new (envelope : EventEnvelope) (client upstream : Endpoint) : FlowRecord where
  envelope := envelope
  client := client
  upstream := upstream
  identity := none
  protocol := none
  state := .open
  messageIds := []

/-- Normalized message record. -/
structure MessageRecord where
  envelope : EventEnvelope
  summary : String
  body : Bytes
  truncated : Bool
  latencyNanos : Option Nat
deriving DecidableEq, Repr

/-- What a proxy observation carries. -/
inductive ObservationKind where
  | opened (client upstream : Endpoint) (protocol : Option String)
  | identified (identity : ServiceIdentity)
  | protocolDetected (protocol : String)
  | transferred (direction : Direction) (bytes : Nat)
  | data (direction : Direction) (bytes : Bytes)
  | closed
  | failed (reason : String)
deriving DecidableEq, Repr

/-- Observation emitted by the proxy data plane. -/
structure ObservationEvent where
  flowId : FlowId
  timestamp : TimestampPair
  kind : ObservationKind
deriving DecidableEq, Repr

end Lens
