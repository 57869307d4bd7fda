import Lens.Store.Retention

/-!
# Flows do not see each other

A store without plugins treats a flow as if it were alone.  A run is compared with the run
of the events of one flow, on the part of the two stores that is about this flow
(`Agree`).  Events of other flows leave that part, and events of the flow itself treat
both stores alike.  Only the numbers of the messages differ.

A flow that is still retained has never left (`stays_of_mem`), when every flow is opened
once.
-/

namespace Lens.Store

open List
open Http2 (Hpack)

/-! ## Flows up to message numbers -/

/-- A message without its number. -/
def unnumberedMessage (m : MessageRecord) : MessageRecord :=
  { m with envelope := { m.envelope with messageId := none } }

/-- A flow without the numbers of its messages. -/
def StoredFlow.unnumbered (flow : StoredFlow) : StoredFlow :=
  { flow with
    record := { flow.record with messageIds := flow.record.messageIds.map fun _ => 0 }
    messages := flow.messages.map unnumberedMessage }

namespace StoreActor

variable {η : Type} {hp : Hpack η} {event : ObservationEvent} {events : List ObservationEvent}
  {s : StoreActor η} {flowId : FlowId}

/-- Two stores without plugins that hold the same about a flow, up to message numbers. -/
structure Agree (flowId : FlowId) (s t : StoreActor η) : Prop where
  settings : s.settings = t.settings
  noPlugins : s.pluginHost = none
  decoder : s.decoders flowId = t.decoders flowId
  pending : ∀ stream, s.pendingRequests (flowId, stream) = t.pendingRequests (flowId, stream)
  flow : (findFlow s.flows flowId).map StoredFlow.unnumbered =
    (findFlow t.flows flowId).map StoredFlow.unnumbered

/-- A flow with one more message, up to numbers. -/
theorem unnumbered_keepMessage (hs : s.pluginHost = none) (flowId : FlowId)
    (timestamp : TimestampPair) (decoded : DecodedMessage) (flow : StoredFlow) :
    (s.keepMessage flowId timestamp decoded flow).unnumbered =
      { flow.unnumbered with
        record := { flow.unnumbered.record with
          protocol :=
            if findHeader decoded.headers "lens-protocol" = some "grpc" then some "grpc"
            else flow.unnumbered.record.protocol
          messageIds := flow.unnumbered.record.messageIds ++ [0] }
        messages := flow.unnumbered.messages ++
          [unnumberedMessage (s.recordWith s.reveal flowId timestamp decoded)] } := by
  simp only [keepMessage, reportOf, hs, Option.map_none, addReport, StoredFlow.unnumbered,
    map_append, map_cons, map_nil]

namespace Agree

variable {t : StoreActor η}

/-- Flows that are alike up to numbers are changed alike. -/
def Alike (f g : StoredFlow → StoredFlow) : Prop :=
  ∀ flow flow', flow.unnumbered = flow'.unnumbered → (f flow).unnumbered = (g flow').unnumbered

theorem runId (h : Agree flowId s t) : s.runId = t.runId := congrArg Settings.runId h.settings

theorem maxBody (h : Agree flowId s t) : s.maxBody = t.maxBody :=
  congrArg Settings.maxBody h.settings

theorem reveal (h : Agree flowId s t) : s.reveal = t.reveal := congrArg Settings.reveal h.settings

theorem noPlugins' (h : Agree flowId s t) : t.pluginHost = none :=
  (congrArg Settings.pluginHost h.settings).symm.trans h.noPlugins

theorem update (h : Agree flowId s t) {f g : StoredFlow → StoredFlow}
    (hf : ∀ flow, (f flow).record.envelope.flowId = flow.record.envelope.flowId)
    (hg : ∀ flow, (g flow).record.envelope.flowId = flow.record.envelope.flowId)
    (halike : Alike f g) :
    Agree flowId { s with flows := updateFlow s.flows flowId f }
      { t with flows := updateFlow t.flows flowId g } := by
  refine { h with flow := ?_ }
  have hflow := h.flow
  rw [findFlow_updateFlow flowId hf, findFlow_updateFlow flowId hg]
  cases hs : findFlow s.flows flowId with
  | none =>
    rw [hs] at hflow
    rw [Option.map_eq_none_iff.mp hflow.symm]
    rfl
  | some flow =>
    rw [hs] at hflow
    obtain ⟨flow', ht, heq⟩ := Option.map_eq_some_iff.mp hflow.symm
    rw [ht]
    exact congrArg some (halike flow flow' heq.symm)

/-- A change of a flow that does not read numbers. -/
theorem change (h : Agree flowId s t) (f : StoredFlow → StoredFlow)
    (hf : ∀ flow, (f flow).record.envelope.flowId = flow.record.envelope.flowId)
    (hcomm : ∀ flow, (f flow).unnumbered = f flow.unnumbered) :
    Agree flowId { s with flows := updateFlow s.flows flowId f }
      { t with flows := updateFlow t.flows flowId f } := by
  refine h.update hf hf fun flow flow' heq => ?_
  rw [hcomm, hcomm, heq]

/-- The waiting requests and the latency depend on the waiting requests of the flow only. -/
theorem boundary (h : Agree flowId s t) (timestamp : TimestampPair) (decoded : DecodedMessage) :
    (∀ stream, (s.boundaryOf flowId timestamp decoded).1 (flowId, stream) =
      (t.boundaryOf flowId timestamp decoded).1 (flowId, stream)) ∧
    (s.boundaryOf flowId timestamp decoded).2 = (t.boundaryOf flowId timestamp decoded).2 := by
  have hkey := h.pending (streamOf decoded)
  have hset : ∀ (v : Option (List Nat)) (stream : String),
      setEntry s.pendingRequests (flowId, streamOf decoded) v (flowId, stream) =
        setEntry t.pendingRequests (flowId, streamOf decoded) v (flowId, stream) := by
    intro v stream
    rw [setEntry, setEntry, h.pending stream]
  simp only [boundaryOf, trackBoundary, hkey]
  split
  · exact ⟨hset _, rfl⟩
  · split
    · split
      · exact ⟨hset _, rfl⟩
      · exact ⟨h.pending, rfl⟩
    · exact ⟨h.pending, rfl⟩

theorem alike_keepMessage (h : Agree flowId s t) (timestamp : TimestampPair)
    (decoded : DecodedMessage) :
    Alike (s.keepMessage flowId timestamp decoded) (t.keepMessage flowId timestamp decoded) := by
  intro flow flow' heq
  have hrecord : unnumberedMessage (s.recordWith s.reveal flowId timestamp decoded) =
      unnumberedMessage (t.recordWith t.reveal flowId timestamp decoded) := by
    simp only [recordWith, messageRecord, messageEnvelope, unnumberedMessage, h.runId, h.reveal,
      (h.boundary timestamp decoded).2]
  rw [unnumbered_keepMessage h.noPlugins, unnumbered_keepMessage h.noPlugins', hrecord, heq]

theorem storeMessage (h : Agree flowId s t) (timestamp : TimestampPair) (decoded : DecodedMessage) :
    Agree flowId (s.storeMessage flowId timestamp decoded)
      (t.storeMessage flowId timestamp decoded) := by
  have hupdate := h.update (s.keepMessage_flowId flowId timestamp decoded)
    (t.keepMessage_flowId flowId timestamp decoded) (h.alike_keepMessage timestamp decoded)
  exact { hupdate with pending := (h.boundary timestamp decoded).1 }

theorem storeBatch (h : Agree flowId s t) (timestamp : TimestampPair) (batch : DecodeBatch) :
    Agree flowId (s.storeBatch flowId timestamp batch) (t.storeBatch flowId timestamp batch) := by
  rw [StoreActor.storeBatch, StoreActor.storeBatch]
  refine foldl_rel ?_ fun m _ _ _ h => h.storeMessage timestamp m
  cases batch.desynchronized with
  | none => exact h
  | some reason =>
    exact h.change (fun flow => { flow with decoderError := some reason })
      (fun _ => rfl) fun _ => rfl

theorem storeBatches (h : Agree flowId s t) (timestamp : TimestampPair)
    (batches : List DecodeBatch) :
    Agree flowId (batches.foldl (fun s b => s.storeBatch flowId timestamp b) s)
      (batches.foldl (fun s b => s.storeBatch flowId timestamp b) t) :=
  foldl_rel h fun b _ _ _ h => h.storeBatch timestamp b

theorem setDecoder (h : Agree flowId s t) {decoder decoder' : Option (ProtocolDecoder η)}
    (hdecoder : decoder = decoder') :
    Agree flowId { s with decoders := setEntry s.decoders flowId decoder }
      { t with decoders := setEntry t.decoders flowId decoder' } := by
  have hentry : setEntry s.decoders flowId decoder flowId =
      setEntry t.decoders flowId decoder' flowId := by
    rw [setEntry_self, setEntry_self, hdecoder]
  exact { h with decoder := hentry }

theorem conclude (h : Agree flowId s t) (timestamp : TimestampPair) (kind : ObservationKind) :
    Agree flowId (s.conclude ⟨flowId, timestamp, kind⟩) (t.conclude ⟨flowId, timestamp, kind⟩) := by
  have hdrop : ∀ stream, dropPending s.pendingRequests flowId (flowId, stream) =
      dropPending t.pendingRequests flowId (flowId, stream) := fun stream => by
    rw [dropPending, dropPending, if_pos rfl, if_pos rfl]
  cases kind with
  | closed =>
    have hchange := h.change (fun flow =>
      { flow with record := { flow.record with state := .closed } }) (fun _ => rfl) fun _ => rfl
    exact { hchange with pending := hdrop }
  | failed reason =>
    have hchange := h.change (fun flow =>
      { flow with record := { flow.record with state := .failed }, failure := some reason })
      (fun _ => rfl) fun _ => rfl
    exact { hchange with pending := hdrop }
  | opened _ _ _ | identified _ | protocolDetected _ | transferred _ _ | data _ _ => exact h

/-- Stores that are seen alike from a flow. -/
theorem of_view {s' t' : StoreActor η} (h : Agree flowId s t) (hs : s'.view flowId = s.view flowId)
    (ht : t'.view flowId = t.view flowId) (hsets : s'.settings = s.settings)
    (hsett : t'.settings = t.settings) : Agree flowId s' t' where
  settings := by rw [hsets, hsett, h.settings]
  noPlugins := (congrArg Settings.pluginHost hsets).trans h.noPlugins
  decoder := by
    rw [show s'.decoders flowId = s.decoders flowId from congrArg View.decoder hs,
      show t'.decoders flowId = t.decoders flowId from congrArg View.decoder ht, h.decoder]
  pending := fun stream => by
    rw [show s'.pendingRequests (flowId, stream) = s.pendingRequests (flowId, stream) from
        congrFun (congrArg View.pending hs) stream,
      show t'.pendingRequests (flowId, stream) = t.pendingRequests (flowId, stream) from
        congrFun (congrArg View.pending ht) stream, h.pending]
  flow := by
    rw [show findFlow s'.flows flowId = findFlow s.flows flowId from congrArg View.flow hs,
      show findFlow t'.flows flowId = findFlow t.flows flowId from congrArg View.flow ht, h.flow]

/-- The same flow enters both stores. -/
theorem enter (h : Agree flowId s t) (hs : ¬ s.Leaves flowId) (ht : ¬ t.Leaves flowId)
    (flow : StoredFlow) (hflow : flow.record.envelope.flowId = some flowId) :
    Agree flowId (s.enter flow) (t.enter flow) := by
  have hevict := h.of_view (view_evict hs) (view_evict ht) s.settings_evict t.settings_evict
  have hfound : ∀ flows : List StoredFlow, findFlow (flows ++ [flow]) flowId =
      (findFlow flows flowId).or (some flow) := by
    intro flows
    simp [findFlow, hflow]
  have hentered : (findFlow (s.evict.flows ++ [flow]) flowId).map StoredFlow.unnumbered =
      (findFlow (t.evict.flows ++ [flow]) flowId).map StoredFlow.unnumbered := by
    rw [hfound, hfound, Option.map_or, Option.map_or, hevict.flow]
  exact { hevict with flow := hentered }

theorem openFlow (h : Agree flowId s t) (hp : Hpack η) (hs : ¬ s.Leaves flowId)
    (ht : ¬ t.Leaves flowId) (timestamp : TimestampPair) (client upstream : Endpoint)
    (protocol : Option String) :
    Agree flowId (s.openFlow hp flowId timestamp client upstream protocol)
      (t.openFlow hp flowId timestamp client upstream protocol) := by
  have hentered := h.enter hs ht (openedFlow s.runId flowId timestamp client upstream protocol) rfl
  rw [openFlow_eq, openFlow_eq, ← h.runId, ← h.maxBody]
  cases protocol.bind (ProtocolDecoder.forProtocol hp s.maxBody) with
  | none => exact hentered
  | some decoder => exact hentered.setDecoder rfl

/-- An event of the flow finds the same batches in both stores. -/
theorem prepare (h : Agree flowId s t) (hp : Hpack η) (timestamp : TimestampPair)
    (kind : ObservationKind) (hs : ¬ s.Evicts ⟨flowId, timestamp, kind⟩ flowId)
    (ht : ¬ t.Evicts ⟨flowId, timestamp, kind⟩ flowId) :
    Agree flowId (s.prepare hp ⟨flowId, timestamp, kind⟩).1
        (t.prepare hp ⟨flowId, timestamp, kind⟩).1 ∧
      (s.prepare hp ⟨flowId, timestamp, kind⟩).2 = (t.prepare hp ⟨flowId, timestamp, kind⟩).2 := by
  cases kind with
  | opened client upstream protocol =>
    have hopens : Opens ⟨flowId, timestamp, .opened client upstream protocol⟩ := ⟨_, _, _, rfl⟩
    exact ⟨h.openFlow hp (fun hl => hs ⟨hopens, hl⟩) (fun hl => ht ⟨hopens, hl⟩) timestamp client
      upstream protocol, rfl⟩
  | identified identity =>
    exact ⟨h.change (fun flow =>
      { flow with record := { flow.record with identity := some identity } }) (fun _ => rfl)
      fun _ => rfl, rfl⟩
  | protocolDetected protocol =>
    have hchange := h.change (fun flow =>
      { flow with record := { flow.record with protocol := some protocol } }) (fun _ => rfl)
      fun _ => rfl
    have hdecoder : ProtocolDecoder.forProtocol hp s.maxBody protocol =
        ProtocolDecoder.forProtocol hp t.maxBody protocol := by rw [h.maxBody]
    exact ⟨hchange.setDecoder hdecoder, rfl⟩
  | transferred direction bytes =>
    cases direction with
    | clientToServer =>
      exact ⟨h.change (fun flow => addTransferred flow bytes .clientToServer) (fun _ => rfl)
        fun _ => rfl, rfl⟩
    | serverToClient =>
      exact ⟨h.change (fun flow => addTransferred flow bytes .serverToClient) (fun _ => rfl)
        fun _ => rfl, rfl⟩
  | data _ _ | closed | failed _ =>
    simp only [StoreActor.prepare, ← h.decoder]
    cases s.decoders flowId with
    | none => exact ⟨h, rfl⟩
    | some decoder => exact ⟨h.setDecoder rfl, rfl⟩

/-- An event of the flow treats both stores alike. -/
theorem apply (h : Agree flowId s t) (hp : Hpack η) (hevent : event.flowId = flowId)
    (hs : ¬ s.Evicts event flowId) (ht : ¬ t.Evicts event flowId) :
    Agree flowId (s.apply hp event) (t.apply hp event) := by
  obtain ⟨own, timestamp, kind⟩ := event
  obtain rfl : own = flowId := hevent
  obtain ⟨hprepared, hbatches⟩ := h.prepare hp timestamp kind hs ht
  rw [apply_eq, apply_eq, hbatches]
  exact (hprepared.storeBatches timestamp _).conclude timestamp kind

/-- An event of another flow, seen by the first store only. -/
theorem skip (h : Agree flowId s t) (hp : Hpack η) (hevent : flowId ≠ event.flowId)
    (hs : ¬ s.Evicts event flowId) :
    Agree flowId (s.apply hp event) t :=
  h.of_view (view_apply hp hevent hs) rfl (s.settings_apply hp event) rfl

end Agree

/-! ## Whole runs -/

/-- No event makes the flow leave. -/
def Stays (hp : Hpack η) (flowId : FlowId) : StoreActor η → List ObservationEvent → Prop
  | _, [] => True
  | s, event :: events => ¬ s.Evicts event flowId ∧ Stays hp flowId (s.apply hp event) events

/-- The events of one flow. -/
def eventsOf (flowId : FlowId) (events : List ObservationEvent) : List ObservationEvent :=
  events.filter fun event => event.flowId = flowId

theorem Agree.run (hp : Hpack η) {flowId : FlowId} :
    ∀ (events : List ObservationEvent) {s t : StoreActor η}, Agree flowId s t →
      Stays hp flowId s events → Stays hp flowId t (eventsOf flowId events) →
      Agree flowId (s.run hp events) (t.run hp (eventsOf flowId events))
  | [], _, _, h, _, _ => h
  | event :: events, s, t, h, hs, ht => by
    by_cases hown : event.flowId = flowId
    · have hcons : eventsOf flowId (event :: events) = event :: eventsOf flowId events :=
        filter_cons_of_pos (by simpa using hown)
      rw [hcons] at ht ⊢
      exact Agree.run hp events (h.apply hp hown hs.1 ht.1) hs.2 ht.2
    · have hcons : eventsOf flowId (event :: events) = eventsOf flowId events :=
        filter_cons_of_neg (by simpa using hown)
      rw [hcons] at ht ⊢
      exact Agree.run hp events (h.skip hp (Ne.symm hown) hs.1) hs.2 ht

/-- The identifiers a store can hold later. -/
def reach (s : StoreActor η) (events : List ObservationEvent) : List (Option FlowId) :=
  s.ids ++ (openedIds events).map some

theorem reach_cons_of_opens (h : Opens event) (events : List ObservationEvent) :
    (s.apply hp event).reach events = (if s.ids.length = s.maxFlows then s.ids.tail else s.ids) ++
      some event.flowId :: (openedIds events).map some := by
  rw [reach, ((frame_apply hp s event).2.1 h).1, append_assoc]
  rfl

theorem reach_cons (hp : Hpack η) (s : StoreActor η) (event : ObservationEvent)
    (events : List ObservationEvent) :
    ((s.apply hp event).reach events).Sublist (s.reach (event :: events)) := by
  have hsplit : openedIds (event :: events) = openedIds [event] ++ openedIds events :=
    openedIds_append [event] events
  rw [reach.eq_def s, hsplit]
  by_cases hopens : Opens event
  · rw [reach_cons_of_opens hopens, openedIds_of_opens hopens]
    refine List.Sublist.append ?_ (List.Sublist.refl _)
    split
    · exact tail_sublist _
    · exact List.Sublist.refl _
  · rw [openedIds_of_not hopens, reach, ((frame_apply hp s event).2.2 hopens).1]
    exact List.Sublist.refl _

theorem ids_run_sublist (hp : Hpack η) : ∀ (events : List ObservationEvent) (s : StoreActor η),
    (s.run hp events).ids.Sublist (s.reach events)
  | [], s => by
    rw [reach]
    exact sublist_append_left _ _
  | event :: events, s =>
    (ids_run_sublist hp events (s.apply hp event)).trans (reach_cons hp s event events)

/-- A flow that leaves does not come back. -/
theorem not_mem_reach (h : s.Evicts event flowId) (hnodup : (s.reach (event :: events)).Nodup) :
    some flowId ∉ (s.apply hp event).reach events := by
  obtain ⟨hopens, hfull, flow, hhead, hid⟩ := h
  obtain ⟨flows, hflows⟩ : ∃ flows, s.flows = flow :: flows := head?_eq_some_iff.mp hhead
  have hids : s.ids = some flowId :: flows.map fun flow => flow.record.envelope.flowId := by
    rw [ids, hflows, map_cons, hid]
  have hlen : s.ids.length = s.maxFlows := s.length_ids.trans hfull
  have hsplit : openedIds (event :: events) = event.flowId :: openedIds events := by
    rw [← singleton_append, openedIds_append, openedIds_of_opens hopens]
    rfl
  rw [reach, hsplit, hids] at hnodup
  rw [reach_cons_of_opens hopens, if_pos hlen, hids]
  exact (nodup_cons.mp hnodup).1

/-- A flow that is retained at the end has never left, when every flow is opened once. -/
theorem stays_of_mem (hp : Hpack η) {flowId : FlowId} :
    ∀ (events : List ObservationEvent) {s : StoreActor η}, (s.reach events).Nodup →
      some flowId ∈ (s.run hp events).ids → Stays hp flowId s events
  | [], _, _, _ => trivial
  | event :: events, s, hnodup, hmem => by
    refine ⟨fun hevicts => ?_, ?_⟩
    · exact not_mem_reach hevicts hnodup
        ((ids_run_sublist hp events (s.apply hp event)).subset hmem)
    · exact stays_of_mem hp events (hnodup.sublist (reach_cons hp s event events)) hmem

/-- No flow has to leave a store that has room for all of them. -/
theorem stays_of_room (hp : Hpack η) {flowId : FlowId} :
    ∀ (events : List ObservationEvent) {s : StoreActor η},
      s.ids.length + (openedIds events).length ≤ s.maxFlows → Stays hp flowId s events
  | [], _, _ => trivial
  | event :: events, s, hroom => by
    obtain ⟨hmax, hopened, hother⟩ := frame_apply hp s event
    rw [← singleton_append, openedIds_append, length_append] at hroom
    by_cases hopens : Opens event
    · rw [openedIds_of_opens hopens, length_singleton] at hroom
      have hlen : s.ids.length ≠ s.maxFlows := by omega
      refine ⟨fun hevicts => hlen (s.length_ids.trans hevicts.2.1), stays_of_room hp events ?_⟩
      rw [(hopened hopens).1, if_neg hlen, length_append, length_singleton, hmax]
      omega
    · rw [openedIds_of_not hopens, length_nil] at hroom
      refine ⟨fun hevicts => hopens hevicts.1, stays_of_room hp events ?_⟩
      rw [(hother hopens).1, hmax]
      omega

/-- A flow is opened at most once by its own events. -/
theorem openedIds_eventsOf (h : (openedIds events).Nodup) :
    (openedIds (eventsOf flowId events)).length ≤ 1 := by
  have hall : ∀ id ∈ openedIds (eventsOf flowId events), id = flowId := by
    intro id hid
    obtain ⟨event, hevent, hopened⟩ := mem_filterMap.mp hid
    have hown : event.flowId = flowId := by simpa using (mem_filter.mp hevent).2
    split at hopened
    · exact (Option.some.inj hopened).symm.trans hown
    · cases hopened
  have hnodup : (openedIds (eventsOf flowId events)).Nodup :=
    h.sublist (filter_sublist.filterMap _)
  rw [eq_replicate_of_mem hall] at hnodup
  exact nodup_replicate.mp hnodup

theorem findFlow_of_mem {flows : List StoredFlow} {flow : StoredFlow}
    (hnodup : (flows.map fun flow => flow.record.envelope.flowId).Nodup) (hflow : flow ∈ flows)
    (hid : flow.record.envelope.flowId = some flowId) : findFlow flows flowId = some flow := by
  induction flows with
  | nil => cases hflow
  | cons first flows ih =>
    rw [map_cons, nodup_cons] at hnodup
    obtain rfl | hflow := mem_cons.mp hflow
    · simp [findFlow, hid]
    · have hne : first.record.envelope.flowId ≠ some flowId := fun heq =>
        hnodup.1 (heq ▸ hid ▸ mem_map_of_mem hflow)
      rw [findFlow_cons_of_ne hne]
      exact ih hnodup.2 hflow

end StoreActor

open StoreActor (openedIds eventsOf)

/-- A retained flow is what its own events alone make of it, up to message numbers. -/
theorem retained_isolated {η : Type} (hp : Hpack η) {maxFlows : Nat} (hmax : 0 < maxFlows)
    (runId : RunId) (maxBody : Nat) (reveal : Bool) (events : List ObservationEvent)
    (hdistinct : (openedIds events).Nodup) {flowId : FlowId} {flow : StoredFlow}
    (hflow : flow ∈ ((StoreActor.withInspection maxFlows runId maxBody reveal : StoreActor η).run
      hp events).flows)
    (hid : flow.record.envelope.flowId = some flowId) :
    ∃ alone, ((StoreActor.withInspection maxFlows runId maxBody reveal : StoreActor η).run
        hp (eventsOf flowId events)).flows = [alone] ∧
      flow.unnumbered = alone.unnumbered := by
  let s : StoreActor η := .withInspection maxFlows runId maxBody reveal
  have hreach : (s.reach events).Nodup := hdistinct.map (Option.some_injective _)
  have hids : (s.run hp events).ids.Nodup := hreach.sublist (s.ids_run_sublist hp events)
  have hmem : some flowId ∈ (s.run hp events).ids :=
    mem_map.mpr ⟨flow, hflow, hid⟩
  have honce : (openedIds (eventsOf flowId events)).length ≤ 1 :=
    StoreActor.openedIds_eventsOf hdistinct
  have hroom : s.ids.length + (openedIds (eventsOf flowId events)).length ≤ s.maxFlows := by
    have hnil : s.ids.length = 0 := rfl
    have hmax' : s.maxFlows = maxFlows := rfl
    omega
  have hfresh : StoreActor.Agree flowId s s := ⟨rfl, rfl, rfl, fun _ => rfl, rfl⟩
  have hagree := hfresh.run hp events (StoreActor.stays_of_mem hp events hreach hmem)
    (StoreActor.stays_of_room hp _ hroom)
  have hfound := hagree.flow
  rw [StoreActor.findFlow_of_mem hids hflow hid] at hfound
  obtain ⟨alone, halone, heq⟩ := Option.map_eq_some_iff.mp hfound.symm
  refine ⟨alone, ?_, heq.symm⟩
  have hlen : (s.run hp (eventsOf flowId events)).flows.length ≤ 1 := by
    have hsub := (s.ids_run_sublist hp (eventsOf flowId events)).length_le
    rw [StoreActor.length_ids] at hsub
    have hreached : (s.reach (eventsOf flowId events)).length =
        (openedIds (eventsOf flowId events)).length := by
      rw [StoreActor.reach, length_append, length_map]
      exact Nat.zero_add _
    omega
  have halone' : alone ∈ (s.run hp (eventsOf flowId events)).flows :=
    mem_of_find?_eq_some halone
  obtain ⟨only, honly⟩ := length_eq_one_iff.mp
    (Nat.le_antisymm hlen (length_pos_of_mem halone'))
  rw [honly, mem_singleton] at halone'
  rw [halone']
  exact honly

/-- Two flows of which the second goes on when the first has left. -/
def crowded : List ObservationEvent :=
  [⟨2, ⟨0, 0⟩, .opened ⟨"client", 2⟩ ⟨"cache", 6379⟩ (some "redis")⟩, redisOpened, twoCommands,
    ⟨2, ⟨5, 5⟩, .protocolDetected "redis"⟩, ⟨2, ⟨6, 6⟩, .data .clientToServer [42]⟩]

theorem crowded_isolated :
    ∃ flow ∈ ((StoreActor.withInspection 1 0 64 false : StoreActor Unit).run idleHpack
        crowded).flows,
      ∃ alone, ((StoreActor.withInspection 1 0 64 false : StoreActor Unit).run idleHpack
          (eventsOf 1 crowded)).flows = [alone] ∧ flow.unnumbered = alone.unnumbered :=
  ⟨_, .head _, retained_isolated idleHpack (by decide : 0 < 1) 0 64 false crowded (by decide)
    (.head _) rfl⟩

end Lens.Store
