import Lens.Store.Query

/-!
# What plugins are told

Every stored message is an event for the plugin host, redacted by a redactor of its
own that never reveals.  A host may remember, so its report is a function of all
events it was given (`PluginHost`), and a run of the store is taken together with
the calls it makes (`Told`).  Two stores that differ in what they keep of their
flows, in what they reveal and in their hosts go through an event in lockstep
(`Twins`), so they make the same calls.
-/

namespace Lens.Store

open List
open Http2 (Hpack)

/-! ## Runs with calls -/

/-- A plugin host: its report on an event after the events before it. -/
abbrev PluginHost := List Bytes → Bytes → PluginRunReport

/-- A call of the plugin host, and the message it is about. -/
structure PluginCall where
  flowId : FlowId
  messageId : Nat
  message : DecodedMessage
  event : Bytes
deriving DecidableEq

/-- A store and the calls it has made. -/
structure Told (η : Type) where
  store : StoreActor η
  calls : List PluginCall

namespace StoreActor

variable {η : Type}

/-- The call for the next message. -/
def pluginCall (s : StoreActor η) (flowId : FlowId) (timestamp : TimestampPair)
    (decoded : DecodedMessage) : PluginCall where
  flowId := flowId
  messageId := saturatingAdd s.nextMessageId 1
  message := decoded
  event := pluginEventJson flowId (s.recordWith false flowId timestamp decoded)

/-- The store with a host. -/
def withHost (s : StoreActor η) (host : Bytes → PluginRunReport) : StoreActor η :=
  { s with pluginHost := some host }

/-- The store before the batches of an event, and the batches. -/
def prepare (hp : Hpack η) (s : StoreActor η) (event : ObservationEvent) :
    StoreActor η × List DecodeBatch :=
  match event.kind with
  | .data direction bytes =>
    match s.decoders event.flowId with
    | none => (s, [])
    | some decoder =>
      let (decoder, batch) := decoder.push hp direction bytes
      ({ s with decoders := setEntry s.decoders event.flowId (some decoder) }, [batch])
  | .closed | .failed _ =>
    match s.decoders event.flowId with
    | none => (s, [])
    | some decoder =>
      let (decoder, client) := decoder.finish hp .clientToServer
      ({ s with decoders := setEntry s.decoders event.flowId none },
        [client, (decoder.finish hp .serverToClient).2])
  | _ => (s.apply hp event, [])

/-- The store after the batches of an event. -/
def conclude (s : StoreActor η) (event : ObservationEvent) : StoreActor η :=
  match event.kind with
  | .closed => { s with
      pendingRequests := dropPending s.pendingRequests event.flowId
      flows := updateFlow s.flows event.flowId fun flow =>
        { flow with record := { flow.record with state := .closed } } }
  | .failed reason => { s with
      pendingRequests := dropPending s.pendingRequests event.flowId
      flows := updateFlow s.flows event.flowId fun flow =>
        { flow with record := { flow.record with state := .failed }, failure := some reason } }
  | _ => s

/-- An event is its batches, between what comes before and after them. -/
theorem apply_eq (hp : Hpack η) (s : StoreActor η) (event : ObservationEvent) :
    s.apply hp event = ((s.prepare hp event).2.foldl
      (fun s batch => s.storeBatch event.flowId event.timestamp batch)
      (s.prepare hp event).1).conclude event := by
  obtain ⟨flowId, timestamp, kind⟩ := event
  cases kind with
  | data direction bytes =>
    simp only [apply, prepare, conclude]
    cases s.decoders flowId with
    | none => rfl
    | some decoder => rfl
  | closed =>
    simp only [apply, prepare, conclude, finishFlow]
    cases s.decoders flowId with
    | none => rfl
    | some decoder => rfl
  | failed reason =>
    simp only [apply, prepare, conclude, finishFlow]
    cases s.decoders flowId with
    | none => rfl
    | some decoder => rfl
  | opened _ _ _ | identified _ | protocolDetected _ | transferred _ _ => rfl

/-! The host stays. -/

theorem evict_pluginHost (s : StoreActor η) : s.evict.pluginHost = s.pluginHost := by
  rw [evict]
  split
  · cases s.flows.head?.bind fun flow => flow.record.envelope.flowId with
    | none => rfl
    | some flowId => rfl
  · rfl

theorem prepare_pluginHost (hp : Hpack η) (s : StoreActor η) (event : ObservationEvent) :
    (s.prepare hp event).1.pluginHost = s.pluginHost := by
  obtain ⟨flowId, timestamp, kind⟩ := event
  cases kind with
  | data _ _ | closed | failed _ =>
    simp only [prepare]
    cases s.decoders flowId with
    | none => rfl
    | some decoder => rfl
  | opened client upstream protocol =>
    simp only [prepare, apply, openFlow]
    cases protocol.bind (ProtocolDecoder.forProtocol hp s.evict.maxBody) with
    | none => exact s.evict_pluginHost
    | some decoder => exact s.evict_pluginHost
  | identified _ | protocolDetected _ | transferred _ _ => rfl

theorem conclude_pluginHost (s : StoreActor η) (event : ObservationEvent) :
    (s.conclude event).pluginHost = s.pluginHost := by
  obtain ⟨flowId, timestamp, kind⟩ := event
  cases kind with
  | _ => rfl

end StoreActor

namespace Told

variable {η : Type}

/-- One message of a batch, with the call for it. -/
def storeMessage (host : PluginHost) (t : Told η) (flowId : FlowId) (timestamp : TimestampPair)
    (decoded : DecodedMessage) : Told η :=
  let s := t.store.withHost (host (t.calls.map PluginCall.event))
  ⟨s.storeMessage flowId timestamp decoded, t.calls ++ [s.pluginCall flowId timestamp decoded]⟩

def storeBatch (host : PluginHost) (t : Told η) (flowId : FlowId) (timestamp : TimestampPair)
    (batch : DecodeBatch) : Told η :=
  -- A batch without messages marks the flow only.
  let marked := t.store.storeBatch flowId timestamp ⟨[], batch.desynchronized⟩
  batch.messages.foldl (fun t m => t.storeMessage host flowId timestamp m) ⟨marked, t.calls⟩

def apply (hp : Hpack η) (host : PluginHost) (t : Told η) (event : ObservationEvent) : Told η :=
  let prepared := t.store.prepare hp event
  let told : Told η := prepared.2.foldl
    (fun t batch => t.storeBatch host event.flowId event.timestamp batch) ⟨prepared.1, t.calls⟩
  ⟨told.store.conclude event, told.calls⟩

/-- A run of the store with a plugin host. -/
def run (hp : Hpack η) (host : PluginHost) (t : Told η) (events : List ObservationEvent) : Told η :=
  events.foldl (fun t event => t.apply hp host event) t

/-! A host that does not remember is the host of the store. -/

variable {t : Told η} {s : StoreActor η} {host : Bytes → PluginRunReport} {flowId : FlowId}
  {timestamp : TimestampPair}

/-- A run with a host that does not remember, and the run of a store that has it. -/
structure Follows (host : Bytes → PluginRunReport) (t : Told η) (s : StoreActor η) : Prop where
  store : t.store = s
  host : s.pluginHost = some host

theorem Follows.storeMessages (h : Follows host t s) (decoded : List DecodedMessage) :
    Follows host (decoded.foldl (fun t m => t.storeMessage (fun _ => host) flowId timestamp m) t)
      (decoded.foldl (fun s m => s.storeMessage flowId timestamp m) s) := by
  refine foldl_rel h fun m _ t s h => ?_
  obtain ⟨rfl, hhost⟩ := h
  refine ⟨?_, hhost⟩
  rw [storeMessage, StoreActor.withHost, ← hhost]

theorem Follows.storeBatches (h : Follows host t s) (flowId : FlowId) (timestamp : TimestampPair)
    (batches : List DecodeBatch) :
    Follows host
      (batches.foldl (fun t batch => t.storeBatch (fun _ => host) flowId timestamp batch) t)
      (batches.foldl (fun s batch => s.storeBatch flowId timestamp batch) s) := by
  refine foldl_rel h fun batch _ t s h => ?_
  obtain ⟨rfl, hhost⟩ := h
  rw [storeBatch, StoreActor.storeBatch, StoreActor.storeBatch]
  refine storeMessages ?_ batch.messages
  cases batch.desynchronized with
  | none => exact ⟨rfl, hhost⟩
  | some reason => exact ⟨rfl, hhost⟩

theorem Follows.apply (hp : Hpack η) (h : Follows host t s) (event : ObservationEvent) :
    Follows host (t.apply hp (fun _ => host) event) (s.apply hp event) := by
  obtain ⟨rfl, hhost⟩ := h
  have hprepared :
      Follows host ⟨(t.store.prepare hp event).1, t.calls⟩ (t.store.prepare hp event).1 :=
    ⟨rfl, (t.store.prepare_pluginHost hp event).trans hhost⟩
  have hstored := hprepared.storeBatches event.flowId event.timestamp (t.store.prepare hp event).2
  rw [StoreActor.apply_eq]
  exact ⟨congrArg (·.conclude event) hstored.store,
    (StoreActor.conclude_pluginHost _ event).trans hstored.host⟩

/-- The store of a run with a host that does not remember is the run of the store. -/
theorem store_run (hp : Hpack η) (events : List ObservationEvent)
    (h : t.store.pluginHost = some host) :
    (t.run hp (fun _ => host) events).store = t.store.run hp events :=
  (foldl_rel ⟨rfl, h⟩ fun event _ _ _ h => Follows.apply hp h event : Follows host _ _).store

end Told

/-! ## Twin stores -/

/-- Two stores that differ in what they keep of their flows, in what they reveal and in
their plugin hosts. -/
structure Twins {η : Type} (s s' : StoreActor η) : Prop where
  flows : (s.flows.map fun flow => flow.record.envelope.flowId) =
    s'.flows.map fun flow => flow.record.envelope.flowId
  nextMessageId : s.nextMessageId = s'.nextMessageId
  maxFlows : s.maxFlows = s'.maxFlows
  runId : s.runId = s'.runId
  maxBody : s.maxBody = s'.maxBody
  decoders : s.decoders = s'.decoders
  pendingRequests : s.pendingRequests = s'.pendingRequests

/-- A change that keeps the identifiers of flows. -/
def KeepsId (f : StoredFlow → StoredFlow) : Prop :=
  ∀ flow, (f flow).record.envelope.flowId = flow.record.envelope.flowId

theorem ids_updateFlow {f : StoredFlow → StoredFlow} (hf : KeepsId f) (flowId : FlowId)
    (flows : List StoredFlow) :
    ((updateFlow flows flowId f).map fun flow => flow.record.envelope.flowId) =
      flows.map fun flow => flow.record.envelope.flowId :=
  map_updateFlow (g := fun flow => flow.record.envelope.flowId) hf flowId flows

namespace Twins

variable {η : Type} {s s' : StoreActor η} {flowId : FlowId} {timestamp : TimestampPair}

theorem update (h : Twins s s') {f f' : StoredFlow → StoredFlow} (hf : KeepsId f)
    (hf' : KeepsId f') :
    Twins { s with flows := updateFlow s.flows flowId f }
      { s' with flows := updateFlow s'.flows flowId f' } :=
  { h with flows := by rw [ids_updateFlow hf, ids_updateFlow hf', h.flows] }

theorem withHost (h : Twins s s') (host host' : Bytes → PluginRunReport) :
    Twins (s.withHost host) (s'.withHost host') := { h with }

theorem boundaryOf (h : Twins s s') (decoded : DecodedMessage) :
    s.boundaryOf flowId timestamp decoded = s'.boundaryOf flowId timestamp decoded := by
  rw [StoreActor.boundaryOf, StoreActor.boundaryOf, h.pendingRequests]

/-- Twins make the same call. -/
theorem pluginCall (h : Twins s s') (decoded : DecodedMessage) :
    s.pluginCall flowId timestamp decoded = s'.pluginCall flowId timestamp decoded := by
  simp only [StoreActor.pluginCall, StoreActor.recordWith, StoreActor.messageEnvelope,
    h.boundaryOf, h.nextMessageId, h.runId]

theorem storeMessage (h : Twins s s') (decoded : DecodedMessage) :
    Twins (s.storeMessage flowId timestamp decoded) (s'.storeMessage flowId timestamp decoded) :=
  { h.update (s.keepMessage_flowId flowId timestamp decoded)
      (s'.keepMessage_flowId flowId timestamp decoded) with
    nextMessageId := congrArg (saturatingAdd · 1) h.nextMessageId
    pendingRequests := congrArg Prod.fst (h.boundaryOf decoded) }

theorem length_flows (h : Twins s s') : s.flows.length = s'.flows.length := by
  simpa only [length_map] using congrArg List.length h.flows

theorem head_flows (h : Twins s s') :
    (s.flows.head?.bind fun flow => flow.record.envelope.flowId) =
      s'.flows.head?.bind fun flow => flow.record.envelope.flowId := by
  have hmap := congrArg (fun ids => ids.head?.bind id) h.flows
  simpa only [head?_map, Option.bind_map, Function.id_comp] using hmap

theorem evict (h : Twins s s') : Twins s.evict s'.evict := by
  have htail : (s.flows.tail.map fun flow => flow.record.envelope.flowId) =
      s'.flows.tail.map fun flow => flow.record.envelope.flowId := by
    simpa only [map_tail] using congrArg List.tail h.flows
  have hlen := h.length_flows
  have hhead := h.head_flows
  obtain ⟨flows, evicted, nextMessageId, maxFlows, runId, maxBody, reveal, decoders,
    pendingRequests, pluginHost⟩ := s
  obtain ⟨hflows, rfl, rfl, rfl, rfl, rfl, rfl⟩ := h
  simp only [StoreActor.evict] at hlen hhead htail ⊢
  rw [hlen, hhead]
  split
  · cases s'.flows.head?.bind fun flow => flow.record.envelope.flowId with
    | none => exact ⟨htail, rfl, rfl, rfl, rfl, rfl, rfl⟩
    | some flowId => exact ⟨htail, rfl, rfl, rfl, rfl, rfl, rfl⟩
  · exact ⟨hflows, rfl, rfl, rfl, rfl, rfl, rfl⟩

theorem setDecoder (h : Twins s s') (flowId : FlowId) (decoder : Option (ProtocolDecoder η)) :
    Twins { s with decoders := setEntry s.decoders flowId decoder }
      { s' with decoders := setEntry s'.decoders flowId decoder } :=
  { h with decoders := by rw [h.decoders] }

theorem openFlow (h : Twins s s') (hp : Hpack η) (client upstream : Endpoint)
    (protocol : Option String) :
    Twins (s.openFlow hp flowId timestamp client upstream protocol)
      (s'.openFlow hp flowId timestamp client upstream protocol) := by
  have hdecoder : protocol.bind (ProtocolDecoder.forProtocol hp s.evict.maxBody) =
      protocol.bind (ProtocolDecoder.forProtocol hp s'.evict.maxBody) := by
    rw [h.evict.maxBody]
  simp only [StoreActor.openFlow, hdecoder]
  have hflows : ∀ {flow flow' : StoredFlow},
      flow.record.envelope.flowId = flow'.record.envelope.flowId →
      ((s.evict.flows ++ [flow]).map fun flow => flow.record.envelope.flowId) =
        (s'.evict.flows ++ [flow']).map fun flow => flow.record.envelope.flowId := by
    intro flow flow' hid
    rw [map_append, map_append, h.evict.flows, map_singleton, map_singleton, hid]
  cases protocol.bind (ProtocolDecoder.forProtocol hp s'.evict.maxBody) with
  | none => exact { h.evict with flows := hflows rfl }
  | some decoder =>
    exact { h.evict with
      flows := hflows rfl
      decoders := congrArg (setEntry · flowId (some decoder)) h.evict.decoders }

theorem prepare (h : Twins s s') (hp : Hpack η) (event : ObservationEvent) :
    Twins (s.prepare hp event).1 (s'.prepare hp event).1 ∧
      (s.prepare hp event).2 = (s'.prepare hp event).2 := by
  obtain ⟨flowId, timestamp, kind⟩ := event
  cases kind with
  | data direction bytes =>
    have hd := congrFun h.decoders flowId
    simp only [StoreActor.prepare, hd]
    cases s'.decoders flowId with
    | none => exact ⟨h, rfl⟩
    | some decoder => exact ⟨h.setDecoder flowId _, rfl⟩
  | closed | failed reason =>
    have hd := congrFun h.decoders flowId
    simp only [StoreActor.prepare, hd]
    cases s'.decoders flowId with
    | none => exact ⟨h, rfl⟩
    | some decoder => exact ⟨h.setDecoder flowId none, rfl⟩
  | opened client upstream protocol => exact ⟨h.openFlow hp client upstream protocol, rfl⟩
  | identified identity => exact ⟨h.update (fun _ => rfl) fun _ => rfl, rfl⟩
  | transferred direction bytes =>
    have hkeeps : KeepsId fun flow => StoreActor.addTransferred flow bytes direction := by
      intro flow
      cases direction with
      | clientToServer => rfl
      | serverToClient => rfl
    exact ⟨h.update hkeeps hkeeps, rfl⟩
  | protocolDetected protocol =>
    refine ⟨?_, rfl⟩
    have hkeeps : KeepsId fun flow =>
        { flow with record := { flow.record with protocol := some protocol } } := fun _ => rfl
    have hdecoder : ProtocolDecoder.forProtocol hp s.maxBody protocol =
        ProtocolDecoder.forProtocol hp s'.maxBody protocol := by
      rw [h.maxBody]
    simp only [StoreActor.prepare, StoreActor.apply, hdecoder]
    exact (h.update hkeeps hkeeps).setDecoder flowId _

theorem conclude (h : Twins s s') (event : ObservationEvent) :
    Twins (s.conclude event) (s'.conclude event) := by
  obtain ⟨flowId, timestamp, kind⟩ := event
  have hdrop : Twins { s with pendingRequests := StoreActor.dropPending s.pendingRequests flowId }
      { s' with pendingRequests := StoreActor.dropPending s'.pendingRequests flowId } :=
    { h with pendingRequests := congrArg (StoreActor.dropPending · flowId) h.pendingRequests }
  cases kind with
  | closed =>
    have hkeeps : KeepsId fun flow =>
        { flow with record := { flow.record with state := .closed } } := fun _ => rfl
    exact hdrop.update hkeeps hkeeps
  | failed reason =>
    have hkeeps : KeepsId fun flow =>
        { flow with
          record := { flow.record with state := .failed }, failure := some reason } := fun _ => rfl
    exact hdrop.update hkeeps hkeeps
  | _ => exact h

end Twins

/-- Two runs at the same point. -/
structure ToldAlike {η : Type} (t t' : Told η) : Prop where
  twins : Twins t.store t'.store
  calls : t.calls = t'.calls

namespace ToldAlike

variable {η : Type} {t t' : Told η} {host host' : PluginHost} {flowId : FlowId}
  {timestamp : TimestampPair}

theorem storeMessage (h : ToldAlike t t') (decoded : DecodedMessage) :
    ToldAlike (t.storeMessage host flowId timestamp decoded)
      (t'.storeMessage host' flowId timestamp decoded) := by
  have htwins := h.twins.withHost (host (t.calls.map PluginCall.event))
    (host' (t'.calls.map PluginCall.event))
  refine ⟨htwins.storeMessage decoded, ?_⟩
  rw [Told.storeMessage, Told.storeMessage, htwins.pluginCall, h.calls]

theorem storeBatch (h : ToldAlike t t') (batch : DecodeBatch) :
    ToldAlike (t.storeBatch host flowId timestamp batch)
      (t'.storeBatch host' flowId timestamp batch) := by
  refine foldl_rel ⟨?_, h.calls⟩ fun m _ _ _ h => h.storeMessage m
  rw [StoreActor.storeBatch, StoreActor.storeBatch]
  cases batch.desynchronized with
  | none => exact h.twins
  | some reason => exact h.twins.update (fun _ => rfl) fun _ => rfl

theorem apply (h : ToldAlike t t') (hp : Hpack η) (event : ObservationEvent) :
    ToldAlike (t.apply hp host event) (t'.apply hp host' event) := by
  obtain ⟨htwins, hbatches⟩ := h.twins.prepare hp event
  have hprepared : ToldAlike (⟨(t.store.prepare hp event).1, t.calls⟩ : Told η)
      ⟨(t'.store.prepare hp event).1, t'.calls⟩ := ⟨htwins, h.calls⟩
  have htold : ToldAlike
      ((t'.store.prepare hp event).2.foldl
        (fun t batch => t.storeBatch host event.flowId event.timestamp batch) _)
      ((t'.store.prepare hp event).2.foldl
        (fun t batch => t.storeBatch host' event.flowId event.timestamp batch) _) :=
    foldl_rel hprepared fun batch _ _ _ h => h.storeBatch batch
  rw [Told.apply, Told.apply, hbatches]
  exact ⟨htold.twins.conclude event, htold.calls⟩

/-- Two runs that start alike go alike. -/
theorem run (hp : Hpack η) (host host' : PluginHost) (events : List ObservationEvent)
    (h : ToldAlike t t') : ToldAlike (t.run hp host events) (t'.run hp host' events) :=
  foldl_rel h fun event _ _ _ h => h.apply hp event

end ToldAlike

/-! ## The events -/

/-- The event of a message, from what redaction leaves of it. -/
def eventText (outcome : Redact.RedactionOutcome) (flowId : FlowId) (messageId : Nat)
    (direction : Direction) (truncated : Bool) : Bytes :=
  let envelope := { EventEnvelope.new "message.decoded" 0 .decoder with
    messageId := some messageId
    direction := some direction
    sensitivity := StoreActor.sensitivityOf false outcome.redacted }
  pluginEventJson flowId (messageRecord envelope outcome truncated none)

/-- A call whose event is that of its message. -/
def PluginCall.Faithful (c : PluginCall) : Prop :=
  c.event = eventText (Redact.redact false c.message) c.flowId c.messageId c.message.direction
    c.message.truncated

theorem faithful_pluginCall {η : Type} (s : StoreActor η) (flowId : FlowId)
    (timestamp : TimestampPair) (decoded : DecodedMessage) :
    (s.pluginCall flowId timestamp decoded).Faithful := by
  simp only [PluginCall.Faithful, StoreActor.pluginCall, eventText, pluginEventJson,
    StoreActor.recordWith, messageRecord, StoreActor.messageEnvelope]

namespace Told

variable {η : Type} {host : PluginHost} {flowId : FlowId} {timestamp : TimestampPair}

theorem faithful_storeMessages (decoded : List DecodedMessage) : ∀ {t : Told η},
    (∀ c ∈ t.calls, c.Faithful) →
      ∀ c ∈ (decoded.foldl (fun t m => t.storeMessage host flowId timestamp m) t).calls,
        c.Faithful := by
  induction decoded with
  | nil => exact fun h => h
  | cons m ms ih =>
    intro t h
    refine ih fun c hc => ?_
    rcases mem_append.mp hc with hc | hc
    · exact h c hc
    · rw [mem_singleton.mp hc]
      exact faithful_pluginCall ..

theorem faithful_storeBatches (batches : List DecodeBatch) : ∀ {t : Told η},
    (∀ c ∈ t.calls, c.Faithful) →
      ∀ c ∈ (batches.foldl (fun t batch => t.storeBatch host flowId timestamp batch) t).calls,
        c.Faithful := by
  induction batches with
  | nil => exact fun h => h
  | cons batch batches ih => exact fun h => ih (faithful_storeMessages batch.messages h)

/-- Every event is that of a message. -/
theorem faithful_run (hp : Hpack η) (host : PluginHost) (events : List ObservationEvent) :
    ∀ {t : Told η}, (∀ c ∈ t.calls, c.Faithful) →
      ∀ c ∈ (t.run hp host events).calls, c.Faithful := by
  induction events with
  | nil => exact fun h => h
  | cons event events ih =>
    intro t h
    exact ih (t := t.apply hp host event) (faithful_storeBatches (t.store.prepare hp event).2 h)

end Told

/-! ## Reveal mode -/

/-- The calls of a store and its plugin host from the start. -/
def callsOf {η : Type} (hp : Hpack η) (host : PluginHost) (s : StoreActor η)
    (events : List ObservationEvent) : List PluginCall :=
  (Told.run hp host ⟨s, []⟩ events).calls

theorem faithful_callsOf {η : Type} (hp : Hpack η) (host : PluginHost) (s : StoreActor η)
    (events : List ObservationEvent) : ∀ c ∈ callsOf hp host s events, c.Faithful :=
  Told.faithful_run hp host events (by intro _ h; cases h)

/-- Revealing changes no event that plugins see, and each event is determined by what default
redaction makes of its message, its flow, its number, its direction and whether it was cut. -/
theorem plugin_events_of_outcome {η : Type} (hp : Hpack η) (host host' : PluginHost)
    (s s' : StoreActor η) (events events' : List ObservationEvent) :
    (callsOf hp host { s with reveal := true } events).map PluginCall.event =
        (callsOf hp host' { s with reveal := false } events).map PluginCall.event ∧
      ∀ c ∈ callsOf hp host s events, ∀ c' ∈ callsOf hp host' s' events',
        Redact.redact false c.message = Redact.redact false c'.message →
        c.flowId = c'.flowId → c.messageId = c'.messageId →
        c.message.direction = c'.message.direction → c.message.truncated = c'.message.truncated →
        c.event = c'.event := by
  constructor
  · have hstart : ToldAlike (⟨{ s with reveal := true }, []⟩ : Told η)
        ⟨{ s with reveal := false }, []⟩ := ⟨⟨rfl, rfl, rfl, rfl, rfl, rfl, rfl⟩, rfl⟩
    exact congrArg (List.map PluginCall.event) (hstart.run hp host host' events).calls
  · intro c hc c' hc' houtcome hflow hid hdirection htruncated
    rw [faithful_callsOf hp host s events c hc, faithful_callsOf hp host' s' events' c' hc',
      houtcome, hflow, hid, hdirection, htruncated]

/-- A host that reports nothing. -/
def quietHost : PluginHost := fun _ _ => ⟨[], []⟩

/-- A login on a new Redis flow. -/
def login (password : String) : List ObservationEvent :=
  [⟨7, ⟨0, 0⟩, .opened ⟨"127.0.0.1", 50000⟩ ⟨"cache.test", 6379⟩ (some "redis")⟩,
    ⟨7, ⟨1, 1⟩, .data .clientToServer (Utf8.asBytes ("AUTH " ++ password ++ "\r\n"))⟩]

/-- The calls for a login. -/
def loginCalls (password : String) : List PluginCall :=
  callsOf idleHpack quietHost (StoreActor.withInspection 4 1 64 false) (login password)

/-- What redaction leaves of the message of a call, with its number and flow. -/
def PluginCall.visible (c : PluginCall) : DecodedMessage × FlowId × Nat × Direction × Bool :=
  ((Redact.redact false c.message).message, c.flowId, c.messageId, c.message.direction,
    c.message.truncated)

/-- Whether redaction changed the message of a call. -/
def PluginCall.redacted (c : PluginCall) : Bool := (Redact.redact false c.message).redacted

/-- The event of a message tells whether redaction changed it. -/
theorem eventText_redacted {outcome outcome' : Redact.RedactionOutcome} {flowId : FlowId}
    {messageId : Nat} {direction : Direction} {truncated : Bool}
    (hm : outcome.message = outcome'.message)
    (h : eventText outcome flowId messageId direction truncated =
      eventText outcome' flowId messageId direction truncated) :
    outcome.redacted = outcome'.redacted := by
  have htext := Utf8.asBytes_injective h
  simp only [messageRecord, hm, String.append_left_inj, String.append_right_inj] at htext
  cases hr : outcome.redacted with
  | false =>
    cases hr' : outcome'.redacted with
    | false => rfl
    | true =>
      rw [hr, hr'] at htext
      exact absurd htext (by decide)
  | true =>
    cases hr' : outcome'.redacted with
    | false =>
      rw [hr, hr'] at htext
      exact absurd htext (by decide)
    | true => rfl

theorem redacted_of_events : ∀ {cs cs' : List PluginCall}, (∀ c ∈ cs, c.Faithful) →
    (∀ c ∈ cs', c.Faithful) → cs.map PluginCall.visible = cs'.map PluginCall.visible →
    cs.map PluginCall.event = cs'.map PluginCall.event →
    cs.map PluginCall.redacted = cs'.map PluginCall.redacted
  | [], [], _, _, _, _ => rfl
  | c :: cs, c' :: cs', hf, hf', hv, he => by
    rw [map_cons, map_cons, List.cons.injEq] at hv he
    obtain ⟨hmessage, hflow, hid, hdirection, htruncated⟩ :
        (Redact.redact false c.message).message = (Redact.redact false c'.message).message ∧
          c.flowId = c'.flowId ∧ c.messageId = c'.messageId ∧
          c.message.direction = c'.message.direction ∧
          c.message.truncated = c'.message.truncated := by
      simpa only [PluginCall.visible, Prod.mk.injEq] using hv.1
    have hhead : c.redacted = c'.redacted := by
      have hevent := he.1
      rw [hf c (mem_cons_self ..), hf' c' (mem_cons_self ..), hflow, hid, hdirection,
        htruncated] at hevent
      exact eventText_redacted hmessage hevent
    have htail := redacted_of_events (fun d hd => hf d (mem_cons_of_mem _ hd))
      (fun d hd => hf' d (mem_cons_of_mem _ hd)) hv.2 he.2
    rw [map_cons, map_cons, hhead, htail]

/-- The redacted message does not tell whether there was anything to redact, and the event
does. -/
theorem redacted_told : (loginCalls "hunter2").map PluginCall.visible =
      (loginCalls "[REDACTED]").map PluginCall.visible ∧
    (loginCalls "hunter2").map PluginCall.event ≠
      (loginCalls "[REDACTED]").map PluginCall.event := by
  have hvisible : (loginCalls "hunter2").map PluginCall.visible =
      (loginCalls "[REDACTED]").map PluginCall.visible := by decide +kernel
  have hredacted : (loginCalls "hunter2").map PluginCall.redacted ≠
      (loginCalls "[REDACTED]").map PluginCall.redacted := by decide +kernel
  exact ⟨hvisible, fun hevent => hredacted
    (redacted_of_events (faithful_callsOf _ _ _ _) (faithful_callsOf _ _ _ _) hvisible hevent)⟩

end Lens.Store
