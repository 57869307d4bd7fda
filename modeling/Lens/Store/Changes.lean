import Lens.Store.Plugins

/-!
# What an event can change

An event that opens no flow is a sequence of four kinds of changes, all at its own flow
(`apply_changes`): the record of the flow, one more message, its decoder, its waiting
requests.  An event that opens a flow first makes room for it (`enter`).

What the store holds about one flow is its `view`.  A change at another flow leaves it
(`Change.view`), and so does a flow that enters, unless the viewed flow has to go
(`view_enter`).
-/

namespace Lens.Store

open Http2 (Hpack)
open Relation (ReflTransGen)

/-! ## Changes -/

/-- A change of a flow that leaves its envelope and its messages. -/
structure Mild (f : StoredFlow → StoredFlow) : Prop where
  envelope : ∀ flow, (f flow).record.envelope = flow.record.envelope
  messageIds : ∀ flow, (f flow).record.messageIds = flow.record.messageIds
  messages : ∀ flow, (f flow).messages = flow.messages

/-- A decoded message with the time of its event and the record that was made of it. -/
structure Logged where
  time : Nat
  message : DecodedMessage
  record : MessageRecord

namespace StoreActor

variable {η : Type} {flowId other : FlowId} {s t : StoreActor η} {event : ObservationEvent}
  {flow : StoredFlow} {flows : List StoredFlow}

/-- A new actor, with the plugins that were selected. -/
def fresh (maxFlows : Nat) (runId : RunId) (maxBody : Nat) (reveal : Bool)
    (host : Option (Bytes → PluginRunReport)) : StoreActor η :=
  { withInspection maxFlows runId maxBody reveal with pluginHost := host }

/-- One change at a flow that stores no message. -/
inductive Quiet (flowId : FlowId) : StoreActor η → StoreActor η → Prop where
  | update (s : StoreActor η) {f : StoredFlow → StoredFlow} (hf : Mild f) :
      Quiet flowId s { s with flows := updateFlow s.flows flowId f }
  | decoder (s : StoreActor η) (decoder : Option (ProtocolDecoder η)) :
      Quiet flowId s { s with decoders := setEntry s.decoders flowId decoder }
  | drop (s : StoreActor η) :
      Quiet flowId s { s with pendingRequests := dropPending s.pendingRequests flowId }

/-- One change at a flow. -/
inductive Change (flowId : FlowId) : StoreActor η → StoreActor η → Prop where
  | quiet {s t : StoreActor η} (h : Quiet flowId s t) : Change flowId s t
  | message (s : StoreActor η) (timestamp : TimestampPair) (decoded : DecodedMessage) :
      Change flowId s (s.storeMessage flowId timestamp decoded)

/-- Changes that store no message, one after another. -/
abbrev Quiets (flowId : FlowId) : StoreActor η → StoreActor η → Prop := ReflTransGen (Quiet flowId)

/-- Changes at a flow, one after another. -/
abbrev Changes (flowId : FlowId) : StoreActor η → StoreActor η → Prop :=
  ReflTransGen (Change flowId)

theorem Quiets.changes (h : Quiets flowId s t) :
    Changes flowId s t := by
  induction h with
  | refl => exact .refl
  | tail _ hquiet ih => exact ih.tail (.quiet hquiet)

theorem mild_decoderError (reason : String) :
    Mild fun flow => { flow with decoderError := some reason } :=
  ⟨fun _ => rfl, fun _ => rfl, fun _ => rfl⟩

/-! ## Batches -/

/-- What the store makes of a message. -/
def logged (s : StoreActor η) (flowId : FlowId) (timestamp : TimestampPair)
    (decoded : DecodedMessage) : Logged :=
  ⟨timestamp.monoNanos, decoded, s.recordWith s.reveal flowId timestamp decoded⟩

def messagesLog (flowId : FlowId) (timestamp : TimestampPair) :
    List DecodedMessage → StoreActor η → List Logged
  | [], _ => []
  | m :: ms, s =>
    s.logged flowId timestamp m ::
      messagesLog flowId timestamp ms (s.storeMessage flowId timestamp m)

/-- The store when the end of a decoder has been noted. -/
def mark (s : StoreActor η) (flowId : FlowId) (batch : DecodeBatch) : StoreActor η :=
  match batch.desynchronized with
  | none => s
  | some reason => { s with
      flows := updateFlow s.flows flowId fun flow => { flow with decoderError := some reason } }

def batchesLog (flowId : FlowId) (timestamp : TimestampPair) :
    List DecodeBatch → StoreActor η → List Logged
  | [], _ => []
  | b :: batches, s =>
    messagesLog flowId timestamp b.messages (s.mark flowId b) ++
      batchesLog flowId timestamp batches (s.storeBatch flowId timestamp b)

/-- Messages are stored one by one, with the end of a decoder noted in between. -/
inductive Stores (flowId : FlowId) (timestamp : TimestampPair) :
    StoreActor η → List Logged → StoreActor η → Prop where
  | nil (s : StoreActor η) : Stores flowId timestamp s [] s
  | mark {s t : StoreActor η} {log : List Logged} (reason : String) :
      Stores flowId timestamp { s with
        flows := updateFlow s.flows flowId fun flow => { flow with decoderError := some reason } }
        log t → Stores flowId timestamp s log t
  | message {s t : StoreActor η} {log : List Logged} (m : DecodedMessage) :
      Stores flowId timestamp (s.storeMessage flowId timestamp m) log t →
      Stores flowId timestamp s (s.logged flowId timestamp m :: log) t

theorem Stores.messages {timestamp : TimestampPair} {log : List Logged} :
    ∀ (ms : List DecodedMessage) {s : StoreActor η},
      Stores flowId timestamp (ms.foldl (fun s m => s.storeMessage flowId timestamp m) s) log t →
      Stores flowId timestamp s (messagesLog flowId timestamp ms s ++ log) t
  | [], _, h => h
  | m :: ms, _, h => .message m (Stores.messages ms h)

theorem stores_batches (flowId : FlowId) (timestamp : TimestampPair) :
    ∀ (batches : List DecodeBatch) (s : StoreActor η),
      Stores flowId timestamp s (batchesLog flowId timestamp batches s)
        (batches.foldl (fun s b => s.storeBatch flowId timestamp b) s)
  | [], s => .nil s
  | b :: batches, s => by
    have hrest : Stores flowId timestamp (s.mark flowId b) _ _ :=
      .messages b.messages
        (stores_batches flowId timestamp batches (s.storeBatch flowId timestamp b))
    rw [mark] at hrest
    split at hrest
    next hnone =>
      rw [batchesLog, mark, hnone]
      exact hrest
    next reason hsome =>
      rw [batchesLog, mark, hsome]
      exact .mark reason hrest

theorem map_batchesLog (flowId : FlowId) (timestamp : TimestampPair) :
    ∀ (batches : List DecodeBatch) (s : StoreActor η),
      (batchesLog flowId timestamp batches s).map Logged.message =
        batches.flatMap fun batch => batch.messages
  | [], _ => rfl
  | b :: batches, s => by
    have hmessages : ∀ (ms : List DecodedMessage) (s : StoreActor η),
        (messagesLog flowId timestamp ms s).map Logged.message = ms := by
      intro ms
      induction ms with
      | nil => exact fun _ => rfl
      | cons m ms ih => exact fun s => congrArg (m :: ·) (ih _)
    rw [batchesLog, List.map_append, hmessages, map_batchesLog flowId timestamp batches]
    rfl

theorem Stores.changes {timestamp : TimestampPair} {log : List Logged}
    (h : Stores flowId timestamp s log t) : Changes flowId s t := by
  induction h with
  | nil => exact .refl
  | mark reason _ ih => exact .head (.quiet (.update _ (mild_decoderError reason))) ih
  | message m _ ih => exact .head (.message _ timestamp m) ih

/-- The part of a store that no event changes. -/
structure Settings where
  maxFlows : Nat
  runId : RunId
  maxBody : Nat
  reveal : Bool
  pluginHost : Option (Bytes → PluginRunReport)

def settings (s : StoreActor η) : Settings :=
  ⟨s.maxFlows, s.runId, s.maxBody, s.reveal, s.pluginHost⟩

theorem settings_evict (s : StoreActor η) : s.evict.settings = s.settings := by
  rw [evict]
  split
  · cases s.flows.head?.bind fun flow => flow.record.envelope.flowId with
    | none => rfl
    | some flowId => rfl
  · rfl

/-- The store with room made for a flow, and the flow. -/
def enter (s : StoreActor η) (flow : StoredFlow) : StoreActor η :=
  { s.evict with flows := s.evict.flows ++ [flow] }

/-- The record of a flow that is opened. -/
def openedFlow (runId : RunId) (flowId : FlowId) (timestamp : TimestampPair)
    (client upstream : Endpoint) (protocol : Option String) : StoredFlow where
  record := { FlowRecord.new { EventEnvelope.new "flow.opened" runId .proxy with
      flowId := some flowId
      tsMonoNanos := timestamp.monoNanos
      tsWallNanos := timestamp.wallNanos } client upstream with protocol := protocol }
  clientToUpstreamBytes := 0
  upstreamToClientBytes := 0
  failure := none
  decoderError := none
  messages := []
  pluginAnnotations := []
  pluginFailures := 0

theorem openFlow_eq (hp : Hpack η) (s : StoreActor η) (flowId : FlowId)
    (timestamp : TimestampPair) (client upstream : Endpoint) (protocol : Option String) :
    s.openFlow hp flowId timestamp client upstream protocol =
      let s' := s.enter (openedFlow s.runId flowId timestamp client upstream protocol)
      match protocol.bind (ProtocolDecoder.forProtocol hp s.maxBody) with
      | none => s'
      | some decoder => { s' with decoders := setEntry s'.decoders flowId (some decoder) } := by
  have hrun : s.evict.runId = s.runId := congrArg Settings.runId s.settings_evict
  have hbody : s.evict.maxBody = s.maxBody := congrArg Settings.maxBody s.settings_evict
  rw [openFlow, enter, ← hrun, ← hbody]
  dsimp only
  cases protocol.bind (ProtocolDecoder.forProtocol hp s.evict.maxBody) with
  | none => rfl
  | some decoder => rfl

theorem openFlow_quiets (hp : Hpack η) (s : StoreActor η) (flowId : FlowId)
    (timestamp : TimestampPair) (client upstream : Endpoint) (protocol : Option String) :
    Quiets flowId (s.enter (openedFlow s.runId flowId timestamp client upstream protocol))
      (s.openFlow hp flowId timestamp client upstream protocol) := by
  rw [openFlow_eq]
  cases protocol.bind (ProtocolDecoder.forProtocol hp s.maxBody) with
  | none => exact .refl
  | some decoder => exact .single (.decoder _ (some decoder))

/-- An event that opens a flow. -/
def Opens (event : ObservationEvent) : Prop :=
  ∃ client upstream protocol, event.kind = .opened client upstream protocol

/-- A flow without messages that an event lets in, and then changes. -/
structure Entered (hp : Hpack η) (s : StoreActor η) (event : ObservationEvent) (flow : StoredFlow) :
    Prop where
  id : flow.record.envelope.flowId = some event.flowId
  messageIds : flow.record.messageIds = []
  messages : flow.messages = []
  prepare : s.prepare hp event = (s.apply hp event, [])
  quiets : Quiets event.flowId (s.enter flow) (s.apply hp event)

theorem Opens.entered (h : Opens event) (hp : Hpack η) (s : StoreActor η) :
    ∃ flow, Entered hp s event flow := by
  obtain ⟨own, timestamp, kind⟩ := event
  obtain ⟨client, upstream, protocol, rfl⟩ := h
  exact ⟨_, rfl, rfl, rfl, rfl, s.openFlow_quiets hp own timestamp client upstream protocol⟩

theorem conclude_quiets (s : StoreActor η) (event : ObservationEvent) :
    Quiets event.flowId s (s.conclude event) := by
  obtain ⟨flowId, timestamp, kind⟩ := event
  cases kind with
  | closed =>
    have hmild : Mild fun flow => { flow with record := { flow.record with state := .closed } } :=
      ⟨fun _ => rfl, fun _ => rfl, fun _ => rfl⟩
    exact .tail (.single (.drop s)) (.update _ hmild)
  | failed reason =>
    have hmild : Mild fun flow =>
        { flow with record := { flow.record with state := .failed }, failure := some reason } :=
      ⟨fun _ => rfl, fun _ => rfl, fun _ => rfl⟩
    exact .tail (.single (.drop s)) (.update _ hmild)
  | opened _ _ _ | identified _ | protocolDetected _ | transferred _ _ | data _ _ => exact .refl

theorem mild_addTransferred (bytes : Nat) (direction : Direction) :
    Mild fun flow => addTransferred flow bytes direction := by
  cases direction with
  | clientToServer => exact ⟨fun _ => rfl, fun _ => rfl, fun _ => rfl⟩
  | serverToClient => exact ⟨fun _ => rfl, fun _ => rfl, fun _ => rfl⟩

theorem prepare_quiets (hp : Hpack η) (s : StoreActor η)
    (h : ¬ Opens event) : Quiets event.flowId s (s.prepare hp event).1 := by
  obtain ⟨flowId, timestamp, kind⟩ := event
  cases kind with
  | opened client upstream protocol => exact absurd ⟨client, upstream, protocol, rfl⟩ h
  | identified identity =>
    have hmild : Mild fun flow =>
        { flow with record := { flow.record with identity := some identity } } :=
      ⟨fun _ => rfl, fun _ => rfl, fun _ => rfl⟩
    exact .single (.update s hmild)
  | protocolDetected protocol =>
    have hmild : Mild fun flow =>
        { flow with record := { flow.record with protocol := some protocol } } :=
      ⟨fun _ => rfl, fun _ => rfl, fun _ => rfl⟩
    exact .tail (.single (.update s hmild)) (.decoder _ _)
  | transferred direction bytes => exact .single (.update s (mild_addTransferred bytes direction))
  | data _ _ | closed | failed _ =>
    simp only [prepare]
    cases s.decoders flowId with
    | none => exact .refl
    | some decoder => exact .single (.decoder s _)

/-- An event that opens no flow changes its own flow only. -/
theorem apply_changes (hp : Hpack η) (s : StoreActor η)
    (h : ¬ Opens event) : Changes event.flowId s (s.apply hp event) := by
  rw [apply_eq]
  exact ((s.prepare_quiets hp h).changes.trans (stores_batches ..).changes).trans
    (conclude_quiets _ event).changes

theorem Changes.settings (h : Changes flowId s t) :
    t.settings = s.settings := by
  induction h with
  | refl => rfl
  | tail _ hchange ih =>
    rw [← ih]
    cases hchange with
    | quiet h =>
      cases h with
      | update hf => rfl
      | decoder decoder => rfl
      | drop => rfl
    | message timestamp decoded => rfl

theorem settings_apply (hp : Hpack η) (s : StoreActor η) (event : ObservationEvent) :
    (s.apply hp event).settings = s.settings := by
  by_cases hopens : Opens event
  · obtain ⟨flow, hentered⟩ := hopens.entered hp s
    exact hentered.quiets.changes.settings.trans s.settings_evict
  · exact (s.apply_changes hp hopens).settings

/-! ## Views -/

/-- What the store holds about one flow. -/
structure View (η : Type) where
  decoder : Option (ProtocolDecoder η)
  pending : String → Option (List Nat)
  flow : Option StoredFlow

def view (s : StoreActor η) (flowId : FlowId) : View η where
  decoder := s.decoders flowId
  pending := fun stream => s.pendingRequests (flowId, stream)
  flow := findFlow s.flows flowId

theorem trackBoundary_of_ne {pending : PendingRequests} {key key' : FlowId × String}
    {boundary : Option String} {now : Nat} (h : key' ≠ key) :
    (trackBoundary pending key boundary now).1 key' = pending key' := by
  rw [trackBoundary]
  split
  · exact setEntry_of_ne _ _ _ h
  · split
    · split
      · exact setEntry_of_ne _ _ _ h
      · rfl
    · rfl

theorem Quiet.view (h : Quiet flowId s t) (hne : other ≠ flowId) : t.view other = s.view other := by
  cases h with
  | update hf =>
    have hflow : ∀ flow, _ := fun flow => congrArg EventEnvelope.flowId (hf.envelope flow)
    simp only [StoreActor.view, findFlow_updateFlow_of_ne hne hflow]
  | decoder decoder => simp only [StoreActor.view, setEntry_of_ne _ _ _ hne]
  | drop => simp only [StoreActor.view, dropPending, if_neg hne]

theorem Change.view (h : Change flowId s t)
    (hne : other ≠ flowId) : t.view other = s.view other := by
  cases h with
  | quiet h => exact h.view hne
  | message timestamp decoded =>
    have hkey : ∀ {stream stream' : String}, (other, stream) ≠ (flowId, stream') :=
      fun heq => hne (congrArg Prod.fst heq)
    have hpending : (fun stream => (s.boundaryOf flowId timestamp decoded).1 (other, stream)) =
        fun stream => s.pendingRequests (other, stream) :=
      funext fun stream => trackBoundary_of_ne hkey
    simp only [StoreActor.view, storeMessage, hpending,
      findFlow_updateFlow_of_ne hne (s.keepMessage_flowId flowId timestamp decoded)]

/-- Changes at another flow are not seen. -/
theorem Changes.view (h : Changes flowId s t)
    (hne : other ≠ flowId) : t.view other = s.view other := by
  induction h with
  | refl => rfl
  | tail _ hchange ih => rw [hchange.view hne, ih]

/-- A flow that has to make room. -/
def Leaves (s : StoreActor η) (flowId : FlowId) : Prop :=
  s.flows.length = s.maxFlows ∧ ∃ flow, s.flows.head? = some flow ∧
    flow.record.envelope.flowId = some flowId

theorem findFlow_cons_of_ne (h : flow.record.envelope.flowId ≠ some flowId) :
    findFlow (flow :: flows) flowId = findFlow flows flowId := by
  simp [findFlow, h]

theorem findFlow_concat_of_ne (h : flow.record.envelope.flowId ≠ some flowId) :
    findFlow (flows ++ [flow]) flowId = findFlow flows flowId := by
  simp [findFlow, h]

/-- Making room is not seen from the flows that stay. -/
theorem view_evict (h : ¬ s.Leaves flowId) :
    s.evict.view flowId = s.view flowId := by
  rw [evict]
  split
  next hfull =>
    cases hflows : s.flows with
    | nil => simp [view, hflows]
    | cons first flows =>
      have hne : first.record.envelope.flowId ≠ some flowId :=
        fun heq => h ⟨hfull, first, by rw [hflows]; rfl, heq⟩
      cases hid : first.record.envelope.flowId with
      | none => simp [view, hflows, hid, findFlow_cons_of_ne hne]
      | some gone =>
        have hgone : flowId ≠ gone := fun heq => hne (heq ▸ hid)
        simp [view, hflows, hid, findFlow_cons_of_ne hne, setEntry_of_ne _ _ _ hgone, dropPending,
          hgone]
  · rfl

/-- A flow that enters is not seen from the other flows that stay. -/
theorem view_enter (h : ¬ s.Leaves flowId) (hne : flow.record.envelope.flowId ≠ some flowId) :
    (s.enter flow).view flowId = s.view flowId := by
  rw [← view_evict h]
  simp only [view, enter, findFlow_concat_of_ne hne]

/-- The event makes a flow leave. -/
def Evicts (s : StoreActor η) (event : ObservationEvent) (flowId : FlowId) : Prop :=
  Opens event ∧ s.Leaves flowId

/-- An event of another flow is not seen from a flow that stays. -/
theorem view_apply (hp : Hpack η) (hne : flowId ≠ event.flowId) (h : ¬ s.Evicts event flowId) :
    (s.apply hp event).view flowId = s.view flowId := by
  by_cases hopens : Opens event
  · have hstays : ¬ s.Leaves flowId := fun hleaves => h ⟨hopens, hleaves⟩
    obtain ⟨flow, hentered⟩ := hopens.entered hp s
    have hself : flow.record.envelope.flowId ≠ some flowId := by
      rw [hentered.id]
      exact fun heq => hne (Option.some.inj heq).symm
    exact (hentered.quiets.changes.view hne).trans (view_enter hstays hself)
  · exact (s.apply_changes hp hopens).view hne

end StoreActor

end Lens.Store
