import Lens.Store.Pairing

/-!
# Decoders of flows that are gone

A decoder and the waiting requests of a flow should go when the flow is evicted or ends
(`Tidy`).  Every event keeps a tidy store tidy, but for one kind: the detection of a
protocol makes a decoder without a look at the flow.  It leaves the store tidy exactly when
the flow is still retained and open (`tidy_apply_iff`).
-/

namespace Lens.Store

open List
open Http2 (Hpack)

theorem mem_updateFlow_of_ne {f : StoredFlow → StoredFlow} {flowId : FlowId} {flow : StoredFlow}
    (hne : flow.record.envelope.flowId ≠ some flowId) :
    ∀ {flows : List StoredFlow}, flow ∈ flows → flow ∈ updateFlow flows flowId f
  | first :: flows, h => by
    rw [updateFlow]
    split
    next hfirst =>
      obtain rfl | h := mem_cons.mp h
      · exact absurd hfirst hne
      · exact .tail _ h
    next =>
      obtain rfl | h := mem_cons.mp h
      · exact .head _
      · exact .tail _ (mem_updateFlow_of_ne hne h)

namespace StoreActor

variable {η : Type} {s t : StoreActor η} {flowId : FlowId} {event : ObservationEvent}
  {timestamp : TimestampPair} {log : List Logged}

/-- The flow is retained and open. -/
def Live (s : StoreActor η) (flowId : FlowId) : Prop :=
  ∃ flow ∈ s.flows, flow.record.envelope.flowId = some flowId ∧ flow.record.state = .open

/-- Nothing is kept for the flow but its record. -/
def Bare (s : StoreActor η) (flowId : FlowId) : Prop :=
  s.decoders flowId = none ∧ ∀ stream, s.pendingRequests (flowId, stream) = none

/-- Every decoder and all waiting requests belong to flows that are retained and open. -/
structure Tidy (s : StoreActor η) : Prop where
  decoders : ∀ flowId, s.decoders flowId ≠ none → s.Live flowId
  pending : ∀ flowId stream, s.pendingRequests (flowId, stream) ≠ none → s.Live flowId

theorem tidy_iff : s.Tidy ↔ ∀ flowId, ¬ s.Live flowId → s.Bare flowId := by
  constructor
  · intro h flowId hlive
    exact ⟨of_not_not fun hne => hlive (h.decoders flowId hne),
      fun stream => of_not_not fun hne => hlive (h.pending flowId stream hne)⟩
  · intro h
    exact ⟨fun flowId hne => of_not_not fun hlive => hne (h flowId hlive).1,
      fun flowId stream hne => of_not_not fun hlive => hne ((h flowId hlive).2 stream)⟩

/-! ## Flows that stay live -/

/-- The flows and their states. -/
def standing (s : StoreActor η) : List (Option FlowId × FlowState) :=
  s.flows.map fun flow => (flow.record.envelope.flowId, flow.record.state)

theorem standing_update {f : StoredFlow → StoredFlow} (ht : t.flows = updateFlow s.flows flowId f)
    (hid : ∀ flow, (f flow).record.envelope.flowId = flow.record.envelope.flowId)
    (hstate : ∀ flow, (f flow).record.state = flow.record.state) : t.standing = s.standing := by
  rw [standing, ht]
  exact map_updateFlow (fun flow => Prod.ext (hid flow) (hstate flow)) flowId s.flows

theorem Live.of_standing (h : s.Live flowId) (heq : t.standing = s.standing) : t.Live flowId := by
  obtain ⟨flow, hflow, hid, hstate⟩ := h
  have hmem : (some flowId, FlowState.open) ∈ t.standing := by
    rw [heq, ← hid, ← hstate]
    exact mem_map_of_mem hflow
  obtain ⟨flow', hflow', heq'⟩ := mem_map.mp hmem
  exact ⟨flow', hflow', congrArg Prod.fst heq', congrArg Prod.snd heq'⟩

/-- What neither a message nor a decoder error changes in a flow stays after a batch. -/
theorem Stores.map_flows {α : Type} {g : StoredFlow → α} (h : Stores flowId timestamp s log t)
    (hkeep : ∀ (s : StoreActor η) (m : DecodedMessage) (flow : StoredFlow),
      g (s.keepMessage flowId timestamp m flow) = g flow)
    (herror : ∀ (flow : StoredFlow) (reason : String),
      g { flow with decoderError := some reason } = g flow) : t.flows.map g = s.flows.map g := by
  induction h with
  | nil => rfl
  | @mark s _ _ reason _ ih => exact ih.trans (map_updateFlow (herror · reason) flowId s.flows)
  | @message s _ _ m _ ih => exact ih.trans (map_updateFlow (hkeep s m) flowId s.flows)

theorem Changes.live {other : FlowId} (h : Changes flowId s t) (hne : other ≠ flowId)
    (hs : s.Live other) : t.Live other := by
  have hupdate : ∀ {s : StoreActor η} (f : StoredFlow → StoredFlow), s.Live other →
      ∃ flow ∈ updateFlow s.flows flowId f,
        flow.record.envelope.flowId = some other ∧ flow.record.state = .open := by
    intro s f ⟨flow, hflow, hid, hstate⟩
    have hflowne : flow.record.envelope.flowId ≠ some flowId :=
      fun heq => hne (Option.some.inj (hid.symm.trans heq))
    exact ⟨flow, mem_updateFlow_of_ne hflowne hflow, hid, hstate⟩
  induction h with
  | refl => exact hs
  | tail _ hchange ih =>
    cases hchange with
    | quiet h =>
      cases h with
      | update hf => exact hupdate _ ih
      | decoder decoder => exact ih
      | drop => exact ih
    | message timestamp decoded => exact hupdate _ ih

theorem Live.enter (h : s.Live flowId) (hstays : ¬ s.Leaves flowId)
    (flow : StoredFlow) : (s.enter flow).Live flowId := by
  obtain ⟨old, hold, hid, hstate⟩ := h
  refine ⟨old, mem_append_left _ ?_, hid, hstate⟩
  rw [s.evict_frame.1]
  split
  next hfull =>
    cases hflows : s.flows with
    | nil => rw [hflows] at hold; exact absurd hold not_mem_nil
    | cons first flows =>
      rw [hflows] at hold
      obtain rfl | hold := mem_cons.mp hold
      · exact absurd ⟨hfull, old, by rw [hflows]; rfl, hid⟩ hstays
      · exact hold
  next => exact hold

/-! ## Steps -/

theorem bare_of_view (h : s.Bare flowId) (hview : t.view flowId = s.view flowId) : t.Bare flowId :=
  ⟨(congrArg View.decoder hview).trans h.1,
    fun stream => (congrFun (congrArg View.pending hview) stream).trans (h.2 stream)⟩

theorem Bare.enter (h : s.evict.Bare flowId)
    (flow : StoredFlow) : (s.enter flow).Bare flowId := ⟨h.1, h.2⟩

theorem bare_evict (h : s.Leaves flowId) :
    s.evict.Bare flowId := by
  obtain ⟨hfull, flow, hhead, hid⟩ := h
  have hfirst : (s.flows.head?.bind fun flow => flow.record.envelope.flowId) = some flowId := by
    rw [hhead]
    exact hid
  rw [evict, if_pos hfull]
  simp only [hfirst]
  exact ⟨setEntry_self _ _ _, fun stream => if_pos rfl⟩

/-- An event of another flow. -/
theorem tidy_other (hp : Hpack η) (hne : flowId ≠ event.flowId)
    (h : s.Live flowId ∨ s.Bare flowId) :
    (s.apply hp event).Live flowId ∨ (s.apply hp event).Bare flowId := by
  by_cases hopens : Opens event
  · obtain ⟨flow, hentered⟩ := hopens.entered hp s
    have hchanges := hentered.quiets.changes
    by_cases hleaves : s.Leaves flowId
    · exact .inr (bare_of_view ((bare_evict hleaves).enter _) (hchanges.view hne))
    · refine h.imp (fun hlive => hchanges.live hne (hlive.enter hleaves _)) fun hbare => ?_
      exact bare_of_view ((bare_of_view hbare (view_evict hleaves)).enter _) (hchanges.view hne)
  · have hchanges := s.apply_changes hp hopens
    exact h.imp (hchanges.live hne) fun hbare => bare_of_view hbare (hchanges.view hne)

/-- A protocol that has a decoder is detected for flows that are retained and open only. -/
def Timely (hp : Hpack η) (s : StoreActor η) (event : ObservationEvent) : Prop :=
  ∀ protocol, event.kind = .protocolDetected protocol →
    ProtocolDecoder.forProtocol hp s.maxBody protocol ≠ none → s.Live event.flowId

theorem Stores.decoders (h : Stores flowId timestamp s log t) : t.decoders = s.decoders := by
  induction h with
  | nil => rfl
  | mark reason _ ih => exact ih
  | message m _ ih => exact ih

/-- An event that ends a flow leaves its record only. -/
theorem bare_finished (hp : Hpack η) (s : StoreActor η)
    (h : Finishes event) : (s.apply hp event).Bare event.flowId := by
  obtain ⟨own, timestamp, kind⟩ := event
  rw [apply_eq]
  obtain rfl | ⟨reason, rfl⟩ := h
  all_goals
    refine ⟨?_, fun stream => if_pos rfl⟩
    show StoreActor.decoders (List.foldl _ _ _) own = none
    rw [(stores_batches ..).decoders]
    simp only [prepare]
    cases hdecoder : s.decoders own with
    | none => exact hdecoder
    | some decoder => exact setEntry_self _ _ _

/-- An event of the flow itself. -/
theorem tidy_own (hp : Hpack η) (h : s.Live event.flowId ∨ s.Bare event.flowId)
    (htimely : Timely hp s event) :
    (s.apply hp event).Live event.flowId ∨ (s.apply hp event).Bare event.flowId := by
  obtain ⟨own, timestamp, kind⟩ := event
  cases kind with
  | opened client upstream protocol =>
    refine .inl ⟨openedFlow s.runId own timestamp client upstream protocol, ?_, rfl, rfl⟩
    show _ ∈ (s.openFlow hp own timestamp client upstream protocol).flows
    rw [openFlow_eq]
    cases protocol.bind (ProtocolDecoder.forProtocol hp s.maxBody) with
    | none => exact mem_append_right _ (.head _)
    | some decoder => exact mem_append_right _ (.head _)
  | identified identity =>
    exact h.imp (·.of_standing (standing_update rfl (fun _ => rfl) fun _ => rfl)) id
  | protocolDetected protocol =>
    have hlive : s.Live own → Live (s.apply hp ⟨own, timestamp, .protocolDetected protocol⟩) own :=
      (·.of_standing (standing_update rfl (fun _ => rfl) fun _ => rfl))
    cases hdecoder : ProtocolDecoder.forProtocol hp s.maxBody protocol with
    | none => exact h.imp hlive fun hbare => ⟨(setEntry_self _ _ _).trans hdecoder, hbare.2⟩
    | some decoder =>
      exact .inl (hlive (htimely protocol rfl (hdecoder ▸ Option.some_ne_none decoder)))
  | transferred direction bytes =>
    have hmild := mild_addTransferred bytes direction
    refine h.imp (·.of_standing (standing_update rfl ?_ ?_)) id
    · exact fun flow => congrArg EventEnvelope.flowId (hmild.envelope flow)
    · intro flow
      cases direction with
      | clientToServer => rfl
      | serverToClient => rfl
  | data direction bytes =>
    cases hdecoder : s.decoders own with
    | none =>
      have hsame : s.apply hp ⟨own, timestamp, .data direction bytes⟩ = s := by
        simp only [StoreActor.apply, hdecoder]
      rw [hsame]
      exact h
    | some decoder =>
      obtain hlive | hbare := h
      · refine .inl (hlive.of_standing ?_)
        rw [apply_eq]
        simp only [prepare, hdecoder]
        refine (stores_batches own timestamp _ _).map_flows (fun s m flow => ?_) fun _ _ => rfl
        rw [s.keepMessage_flowId own timestamp m, keepMessage, addReport_record]
      · rw [hbare.1] at hdecoder
        cases hdecoder
  | closed => exact .inr (bare_finished hp s (.inl rfl))
  | failed reason => exact .inr (bare_finished hp s (.inr ⟨reason, rfl⟩))

/-- An event leaves a tidy store tidy exactly when it is timely. -/
theorem tidy_apply_iff (hp : Hpack η) (event : ObservationEvent) (hs : s.Tidy) :
    (s.apply hp event).Tidy ↔ Timely hp s event := by
  constructor
  · obtain ⟨own, timestamp, kind⟩ := event
    rintro h protocol rfl hdecoder
    have hmade : (s.apply hp ⟨own, timestamp, .protocolDetected protocol⟩).decoders own ≠ none :=
      fun hnone => hdecoder ((setEntry_self _ _ _).symm.trans hnone)
    have hstanding : standing (s.apply hp ⟨own, timestamp, .protocolDetected protocol⟩) =
        s.standing := standing_update rfl (fun _ => rfl) fun _ => rfl
    exact (h.decoders own hmade).of_standing hstanding.symm
  · intro htimely
    rw [tidy_iff] at hs ⊢
    intro flowId hlive
    have hbefore : s.Live flowId ∨ s.Bare flowId := or_iff_not_imp_left.mpr (hs flowId)
    by_cases hown : flowId = event.flowId
    · obtain rfl := hown
      exact (tidy_own hp hbefore htimely).resolve_left hlive
    · exact (tidy_other hp hown hbefore).resolve_left hlive

/-! ## Runs -/

/-- The store retains no more flows than it was told. -/
theorem length_ids_run (hp : Hpack η) (hmax : 0 < s.maxFlows) (hs : s.ids.length ≤ s.maxFlows)
    (events : List ObservationEvent) :
    (s.run hp events).maxFlows = s.maxFlows ∧ (s.run hp events).ids.length ≤ s.maxFlows := by
  induction events using List.reverseRecOn with
  | nil => exact ⟨rfl, hs⟩
  | append_singleton events event ih =>
    rw [run_concat]
    obtain ⟨hm, hopened, hother⟩ := frame_apply hp (s.run hp events) event
    refine ⟨hm.trans ih.1, ?_⟩
    by_cases hopens : Opens event
    · rw [(hopened hopens).1, length_append, length_singleton]
      split
      next hfull => rw [length_tail]; omega
      next hroom => omega
    · rw [(hother hopens).1]
      exact ih.2

/-- A tidy store has no more decoders than flows. -/
theorem Tidy.length_le (h : s.Tidy) {keys : List FlowId} (hnodup : keys.Nodup)
    (hkeys : ∀ key ∈ keys, s.decoders key ≠ none) : keys.length ≤ s.ids.length := by
  have hsub : keys.map some ⊆ s.ids := by
    intro id hid
    obtain ⟨key, hkey, rfl⟩ := mem_map.mp hid
    obtain ⟨flow, hflow, hid, -⟩ := h.decoders key (hkeys key hkey)
    exact mem_map.mpr ⟨flow, hflow, hid⟩
  have hle := ((hnodup.map (Option.some_injective _)).subperm hsub).length_le
  rwa [length_map] at hle

end StoreActor

open StoreActor (Timely Opens)

/-- Decoders and waiting requests belong to flows that are retained and open, and there are
at most as many decoders as flows may be retained. -/
structure NothingLeft {η : Type} (s : StoreActor η) (maxFlows : Nat) : Prop where
  tidy : s.Tidy
  decoders : ∀ keys : List FlowId, keys.Nodup → (∀ key ∈ keys, s.decoders key ≠ none) →
    keys.length ≤ maxFlows

/-- Nothing of a flow that is gone is left in any state of a run, exactly when each protocol
that has a decoder is detected while its flow is retained and open. -/
theorem nothingLeft_iff_timely {η : Type} (hp : Hpack η) {maxFlows : Nat} (hmax : 0 < maxFlows)
    (runId : RunId) (maxBody : Nat) (reveal : Bool) (host : Option (Bytes → PluginRunReport))
    (events : List ObservationEvent) :
    (∀ before, before <+: events → NothingLeft
      ((StoreActor.fresh maxFlows runId maxBody reveal host : StoreActor η).run hp before)
      maxFlows) ↔
    ∀ before event, before ++ [event] <+: events →
      Timely hp ((StoreActor.fresh maxFlows runId maxBody reveal host).run hp before) event := by
  have hfresh : (StoreActor.fresh maxFlows runId maxBody reveal host : StoreActor η).Tidy :=
    ⟨fun _ h => absurd rfl h, fun _ _ h => absurd rfl h⟩
  refine Iff.trans ?_ (Stream.along_iff (StoreActor.tidy_apply_iff hp) hfresh events)
  refine ⟨fun h before hprefix => (h before hprefix).tidy, fun h before hprefix => ?_⟩
  refine ⟨h before hprefix, fun keys hnodup hkeys => ?_⟩
  exact Nat.le_trans ((h before hprefix).length_le hnodup hkeys)
    (StoreActor.length_ids_run hp (s := .fresh maxFlows runId maxBody reveal host) hmax
      (Nat.zero_le _) before).2

/-- A flow whose protocol is detected and that makes room for another, which is closed. -/
def cameAndWent : List ObservationEvent :=
  [⟨1, ⟨0, 0⟩, .opened ⟨"client", 1⟩ ⟨"cache", 6379⟩ none⟩, ⟨1, ⟨1, 1⟩, .protocolDetected "redis"⟩,
    twoCommands, ⟨2, ⟨2, 2⟩, .opened ⟨"client", 2⟩ ⟨"cache", 6379⟩ (some "redis")⟩,
    ⟨2, ⟨3, 3⟩, .data .clientToServer (Utf8.asBytes "A\r\n")⟩, ⟨2, ⟨4, 4⟩, .closed⟩]

theorem opened_nothingLeft :
    NothingLeft ((StoreActor.fresh 1 0 64 false none : StoreActor Unit).run idleHpack
        (cameAndWent.take 3)) 1 ∧
      NothingLeft ((StoreActor.fresh 1 0 64 false none : StoreActor Unit).run idleHpack
        cameAndWent) 1 := by
  have hall : ∀ before, before <+: cameAndWent → NothingLeft
      ((StoreActor.fresh 1 0 64 false none : StoreActor Unit).run idleHpack before) 1 := by
    refine (nothingLeft_iff_timely idleHpack (by decide) 0 64 false none cameAndWent).mpr ?_
    refine Stream.along_cons (fun _ h => by cases h) (Stream.along_cons (fun protocol _ _ => ?_) ?_)
    · exact ⟨_, mem_singleton_self _, rfl, rfl⟩
    · repeat' refine Stream.along_cons (fun _ h => by cases h) ?_
      exact fun before e h => absurd h (by simp)
  exact ⟨hall _ ⟨cameAndWent.drop 3, rfl⟩, hall _ (prefix_refl _)⟩

/-- What a proxy can send: a flow is opened first, each of a protocol and an identity is
found at most once and at any later time, and nothing else comes after the end of a flow.
Events may be lost. -/
structure Emittable (events : List ObservationEvent) : Prop where
  opened : events.Pairwise fun event later => event.flowId = later.flowId → ¬ Opens later
  detected : events.Pairwise fun event later => event.flowId = later.flowId →
    ∀ protocol protocol', event.kind = .protocolDetected protocol →
      later.kind ≠ .protocolDetected protocol'
  identified : events.Pairwise fun event later => event.flowId = later.flowId →
    ∀ identity identity', event.kind = .identified identity → later.kind ≠ .identified identity'
  finished : events.Pairwise fun event later => event.flowId = later.flowId → Finishes event →
    (∃ protocol, later.kind = .protocolDetected protocol) ∨
      ∃ identity, later.kind = .identified identity

/-- A second flow pushes the first out while the first negotiates its protocol. -/
def slowHandshake : List ObservationEvent :=
  [⟨1, ⟨0, 0⟩, .opened ⟨"client", 1⟩ ⟨"server", 443⟩ (some "http")⟩,
    ⟨2, ⟨1, 1⟩, .opened ⟨"client", 2⟩ ⟨"server", 443⟩ (some "http")⟩,
    ⟨1, ⟨2, 2⟩, .protocolDetected "http1"⟩, ⟨2, ⟨3, 3⟩, .protocolDetected "http2"⟩]

/-- The flow that is gone gets a decoder.  There are two then, where one flow may be
retained. -/
theorem slowHandshake_leaves : Emittable slowHandshake ∧
    ¬ NothingLeft
      ((StoreActor.fresh 1 0 64 false none : StoreActor Unit).run idleHpack slowHandshake) 1 ∧
    ∀ key ∈ [1, 2], ((StoreActor.fresh 1 0 64 false none : StoreActor Unit).run idleHpack
      slowHandshake).decoders key ≠ none := by
  have hkeys : ∀ key ∈ [1, 2], ((StoreActor.fresh 1 0 64 false none : StoreActor Unit).run idleHpack
      slowHandshake).decoders key ≠ none := by
    have hsome : ∀ key ∈ [1, 2], (((StoreActor.fresh 1 0 64 false none : StoreActor Unit).run
        idleHpack slowHandshake).decoders key).isSome := by decide
    exact fun key hkey => Option.isSome_iff_ne_none.mp (hsome key hkey)
  refine ⟨?_, fun h => ?_, hkeys⟩
  · constructor <;> simp [slowHandshake, Opens, Finishes]
  · obtain ⟨flow, hflow, hid, -⟩ := h.tidy.decoders 1 (hkeys 1 (.head _))
    obtain rfl := mem_singleton.mp hflow
    cases hid

end Lens.Store
