import Lens.Store.Changes

/-!
# Retained flows and their messages

The store keeps the flows that were opened last, in the order in which they were opened
(`ids_run`), and counts the others.  The messages of all flows are numbered by one counter.
While it does not saturate, the numbers of a flow increase and no two messages share one
(`Numbered`).
-/

namespace Lens.Store

open List
open Http2 (Hpack)

variable {α : Type}

/-! ## Windows -/

/-- The last elements of a list. -/
def window {α : Type} (k : Nat) (l : List α) : List α := l.drop (l.length - k)

theorem length_window (k : Nat) (l : List α) : (window k l).length = min l.length k := by
  rw [window, length_drop]
  omega

/-- One more element pushes out the first of a full window. -/
theorem window_concat {k : Nat} (hk : 0 < k) (l : List α) (a : α) :
    window k (l ++ [a]) =
      (if (window k l).length = k then (window k l).tail else window k l) ++ [a] := by
  have hlen := length_window k l
  rw [window, length_append, length_singleton]
  split
  next hfull =>
    rw [drop_append_of_le_length (by omega), window, tail_drop]
    congr 2
    omega
  next hroom =>
    rw [drop_append_of_le_length (by omega), window]
    congr 2
    omega

namespace StoreActor

variable {η : Type} {flowId : FlowId} {s t : StoreActor η} {event : ObservationEvent}
  {f : StoredFlow → StoredFlow} {flow : StoredFlow} {new : List MessageId}

/-! ## Identifiers -/

/-- The identifiers of the retained flows, oldest first. -/
def ids (s : StoreActor η) : List (Option FlowId) :=
  s.flows.map fun flow => flow.record.envelope.flowId

theorem length_ids (s : StoreActor η) : s.ids.length = s.flows.length := length_map ..

/-- The identifiers of the flows that events open. -/
def openedIds (events : List ObservationEvent) : List FlowId :=
  events.filterMap fun event => match event.kind with
    | .opened _ _ _ => some event.flowId
    | _ => none

/-- The part of a store that a change at a flow leaves. -/
theorem Change.frame (h : Change flowId s t) :
    t.ids = s.ids ∧ t.evicted = s.evicted ∧ t.maxFlows = s.maxFlows := by
  cases h with
  | quiet h =>
    cases h with
    | update hf =>
      exact ⟨ids_updateFlow (fun flow => congrArg EventEnvelope.flowId (hf.envelope flow))
        flowId _, rfl, rfl⟩
    | decoder decoder => exact ⟨rfl, rfl, rfl⟩
    | drop => exact ⟨rfl, rfl, rfl⟩
  | message timestamp decoded =>
    exact ⟨ids_updateFlow (s.keepMessage_flowId flowId timestamp decoded) flowId _, rfl, rfl⟩

theorem Changes.frame (h : Changes flowId s t) :
    t.ids = s.ids ∧ t.evicted = s.evicted ∧ t.maxFlows = s.maxFlows := by
  induction h with
  | refl => exact ⟨rfl, rfl, rfl⟩
  | tail _ hchange ih =>
    obtain ⟨hids, hevicted, hmax⟩ := hchange.frame
    exact ⟨hids.trans ih.1, hevicted.trans ih.2.1, hmax.trans ih.2.2⟩

theorem evict_frame (s : StoreActor η) :
    s.evict.flows = (if s.flows.length = s.maxFlows then s.flows.tail else s.flows) ∧
      s.evict.evicted =
        (if s.flows.length = s.maxFlows then saturatingAdd s.evicted 1 else s.evicted) ∧
      s.evict.maxFlows = s.maxFlows := by
  rw [evict]
  split
  · cases s.flows.head?.bind fun flow => flow.record.envelope.flowId with
    | none => exact ⟨rfl, rfl, rfl⟩
    | some flowId => exact ⟨rfl, rfl, rfl⟩
  · exact ⟨rfl, rfl, rfl⟩

theorem ids_enter (s : StoreActor η) (flow : StoredFlow) :
    (s.enter flow).ids = (if s.ids.length = s.maxFlows then s.ids.tail else s.ids) ++
      [flow.record.envelope.flowId] := by
  rw [s.length_ids, ids, enter, map_append, (s.evict_frame).1]
  split
  · rw [map_tail]
    rfl
  · rfl

/-- What an event does to the list of flows. -/
theorem frame_apply (hp : Hpack η) (s : StoreActor η) (event : ObservationEvent) :
    (s.apply hp event).maxFlows = s.maxFlows ∧
      (Opens event →
        (s.apply hp event).ids =
            (if s.ids.length = s.maxFlows then s.ids.tail else s.ids) ++ [some event.flowId] ∧
          (s.apply hp event).evicted =
            if s.ids.length = s.maxFlows then saturatingAdd s.evicted 1 else s.evicted) ∧
      (¬ Opens event →
        (s.apply hp event).ids = s.ids ∧ (s.apply hp event).evicted = s.evicted) := by
  by_cases hopens : Opens event
  · obtain ⟨flow, hentered⟩ := hopens.entered hp s
    obtain ⟨hids, hevicted, hmax⟩ := hentered.quiets.changes.frame
    obtain ⟨-, hcount, hmax'⟩ := s.evict_frame
    refine ⟨hmax.trans hmax', fun _ => ⟨?_, ?_⟩, absurd hopens⟩
    · rw [hids, s.ids_enter, hentered.id]
    · rw [s.length_ids, ← hcount]
      exact hevicted
  · obtain ⟨hids, hevicted, hmax⟩ := (s.apply_changes hp hopens).frame
    exact ⟨hmax, fun h => absurd h hopens, fun _ => ⟨hids, hevicted⟩⟩

theorem openedIds_append (events events' : List ObservationEvent) :
    openedIds (events ++ events') = openedIds events ++ openedIds events' :=
  filterMap_append ..

theorem openedIds_of_opens (h : Opens event) :
    openedIds [event] = [event.flowId] := by
  obtain ⟨client, upstream, protocol, hkind⟩ := h
  simp [openedIds, hkind]

theorem openedIds_of_not (h : ¬ Opens event) : openedIds [event] = [] := by
  obtain ⟨flowId, timestamp, kind⟩ := event
  cases kind with
  | opened client upstream protocol => exact absurd ⟨client, upstream, protocol, rfl⟩ h
  | identified _ | protocolDetected _ | transferred _ _ | data _ _ | closed | failed _ => rfl

theorem run_cons (hp : Hpack η) (s : StoreActor η) (event : ObservationEvent)
    (events : List ObservationEvent) :
    s.run hp (event :: events) = (s.apply hp event).run hp events := rfl

theorem run_concat (hp : Hpack η) (s : StoreActor η) (events : List ObservationEvent)
    (event : ObservationEvent) :
    s.run hp (events ++ [event]) = (s.run hp events).apply hp event := by
  rw [run, foldl_append]
  rfl

section Fresh

variable (hp : Hpack η) {maxFlows : Nat} (runId : RunId) (maxBody : Nat) (reveal : Bool)
  (host : Option (Bytes → PluginRunReport))

/-- The retained flows are the last that were opened, and the others are counted. -/
theorem ids_run (hmax : 0 < maxFlows) (events : List ObservationEvent)
    (hcount : (openedIds events).length < 2 ^ 64) :
    let s := (fresh maxFlows runId maxBody reveal host : StoreActor η).run hp events
    s.maxFlows = maxFlows ∧ s.ids = (window maxFlows (openedIds events)).map some ∧
      s.evicted = (openedIds events).length - maxFlows := by
  induction events using List.reverseRecOn with
  | nil => exact ⟨rfl, by rw [window, openedIds, filterMap_nil, drop_nil]; rfl,
      (Nat.zero_sub maxFlows).symm⟩
  | append_singleton events event ih =>
    rw [openedIds_append, length_append] at hcount
    obtain ⟨hm, hids, hevicted⟩ := ih (by omega)
    rw [run_concat]
    obtain ⟨hm', hopened, hother⟩ := frame_apply hp
      ((fresh maxFlows runId maxBody reveal host : StoreActor η).run hp events) event
    refine ⟨hm'.trans hm, ?_⟩
    rw [openedIds_append]
    by_cases hopens : Opens event
    · obtain ⟨hids', hevicted'⟩ := hopened hopens
      have hlen := length_window maxFlows (openedIds events)
      rw [openedIds_of_opens hopens] at hcount ⊢
      rw [hids', hevicted', hids, hm, hevicted, length_map, window_concat hmax, length_append]
      rw [length_singleton] at hcount ⊢
      constructor
      · rw [map_append]
        split
        · rw [map_tail]
          rfl
        · rfl
      · split
        · rw [saturatingAdd, Nat.min_eq_left (by omega)]
          omega
        · omega
    · obtain ⟨hids', hevicted'⟩ := hother hopens
      rw [openedIds_of_not hopens, append_nil, hids', hevicted']
      exact ⟨hids, hevicted⟩

end Fresh

/-! ## Message numbers -/

/-- The messages that an event has decoded. -/
def decodedBy (hp : Hpack η) (s : StoreActor η) (event : ObservationEvent) : List DecodedMessage :=
  (s.prepare hp event).2.flatMap fun batch => batch.messages

/-- The number of messages that events have decoded. -/
def decodedCount (hp : Hpack η) : StoreActor η → List ObservationEvent → Nat
  | _, [] => 0
  | s, event :: events => (s.decodedBy hp event).length + decodedCount hp (s.apply hp event) events

/-- The numbers of the messages of each flow are listed in its record. -/
def Listed (s : StoreActor η) : Prop :=
  ∀ flow ∈ s.flows, flow.messages.map (fun m => m.envelope.messageId) =
    flow.record.messageIds.map some

/-- Messages are numbered upwards, and no two share a number. -/
structure Numbered (s : StoreActor η) : Prop where
  increasing : ∀ flow ∈ s.flows, flow.record.messageIds.Pairwise (· < ·)
  distinct : (s.flows.flatMap fun flow => flow.record.messageIds).Nodup
  bounded : ∀ flow ∈ s.flows, ∀ id ∈ flow.record.messageIds, id ≤ s.nextMessageId

theorem mem_updateFlow :
    ∀ {flows : List StoredFlow}, flow ∈ updateFlow flows flowId f →
      flow ∈ flows ∨ ∃ old ∈ flows, old.record.envelope.flowId = some flowId ∧ flow = f old
  | [], h => .inl h
  | first :: flows, h => by
    rw [updateFlow] at h
    split at h
    next hfirst =>
      obtain rfl | h := mem_cons.mp h
      · exact .inr ⟨first, .head _, hfirst, rfl⟩
      · exact .inl (.tail _ h)
    next =>
      obtain rfl | h := mem_cons.mp h
      · exact .inl (.head _)
      · obtain h | ⟨old, hold, hid, rfl⟩ := mem_updateFlow h
        · exact .inl (.tail _ h)
        · exact .inr ⟨old, .tail _ hold, hid, rfl⟩

theorem keepMessage_messageIds (s : StoreActor η) (flowId : FlowId) (timestamp : TimestampPair)
    (decoded : DecodedMessage) (flow : StoredFlow) :
    (s.keepMessage flowId timestamp decoded flow).record.messageIds =
      flow.record.messageIds ++ [saturatingAdd s.nextMessageId 1] := by
  rw [keepMessage, addReport_record]

theorem keepMessage_messages (s : StoreActor η) (flowId : FlowId) (timestamp : TimestampPair)
    (decoded : DecodedMessage) (flow : StoredFlow) :
    (s.keepMessage flowId timestamp decoded flow).messages =
      flow.messages ++ [s.recordWith s.reveal flowId timestamp decoded] := by
  rw [keepMessage, addReport_messages]

theorem Change.listed (h : Change flowId s t) (hs : s.Listed) : t.Listed := by
  cases h with
  | quiet h =>
    cases h with
    | update hf =>
      intro flow hflow
      obtain hold | ⟨old, hold, -, rfl⟩ := mem_updateFlow hflow
      · exact hs flow hold
      · rw [hf.messages, hf.messageIds]
        exact hs old hold
    | decoder decoder => exact hs
    | drop => exact hs
  | message timestamp decoded =>
    intro flow hflow
    obtain hold | ⟨old, hold, -, rfl⟩ := mem_updateFlow hflow
    · exact hs flow hold
    · rw [keepMessage_messages, keepMessage_messageIds, map_append, map_append, hs old hold]
      rfl

/-- The numbers of all flows after one of them has got new ones. -/
theorem messageIds_updateFlow
    (hf : ∀ flow, (f flow).record.messageIds = flow.record.messageIds ++ new) (flowId : FlowId) :
    ∀ flows : List StoredFlow,
      ((updateFlow flows flowId f).flatMap fun flow => flow.record.messageIds).Subperm
        ((flows.flatMap fun flow => flow.record.messageIds) ++ new)
  | [] => nil_subperm
  | first :: flows => by
    rw [updateFlow]
    split
    · rw [flatMap_cons, flatMap_cons, hf, append_assoc, append_assoc]
      exact (perm_append_comm.append_left _).subperm
    · rw [flatMap_cons, flatMap_cons, append_assoc]
      exact (subperm_append_left _).mpr (messageIds_updateFlow hf flowId flows)

theorem nodup_of_subperm {l l' : List MessageId} (h : l.Subperm l') (hl' : l'.Nodup) : l.Nodup := by
  obtain ⟨middle, hperm, hsub⟩ := h
  exact hperm.nodup_iff.mp (hl'.sublist hsub)

/-- A flow with new numbers, all above the counter that was. -/
theorem Numbered.update (hs : s.Numbered)
    (hf : ∀ flow, (f flow).record.messageIds = flow.record.messageIds ++ new)
    (hnew : new.Pairwise (· < ·)) (hlow : ∀ id ∈ new, s.nextMessageId < id ∧ id ≤ t.nextMessageId)
    (hnext : s.nextMessageId ≤ t.nextMessageId)
    (hflows : t.flows = updateFlow s.flows flowId f) : t.Numbered := by
  have hall : ∀ flow ∈ s.flows, flow.record.messageIds.Pairwise (· < ·) ∧
      ∀ id ∈ flow.record.messageIds, id ≤ s.nextMessageId :=
    fun flow hflow => ⟨hs.increasing flow hflow, hs.bounded flow hflow⟩
  have hlater : ∀ flow ∈ t.flows, flow.record.messageIds.Pairwise (· < ·) ∧
      ∀ id ∈ flow.record.messageIds, id ≤ t.nextMessageId := by
    rw [hflows]
    intro flow hflow
    obtain hold | ⟨old, hold, -, rfl⟩ := mem_updateFlow hflow
    · exact ⟨(hall flow hold).1, fun id hid => Nat.le_trans ((hall flow hold).2 id hid) hnext⟩
    · rw [hf]
      obtain ⟨hincreasing, hbounded⟩ := hall old hold
      refine ⟨pairwise_append.mpr ⟨hincreasing, hnew, fun id hid id' hid' => ?_⟩, fun id hid => ?_⟩
      · exact Nat.lt_of_le_of_lt (hbounded id hid) (hlow id' hid').1
      · obtain hid | hid := mem_append.mp hid
        · exact Nat.le_trans (hbounded id hid) hnext
        · exact (hlow id hid).2
  refine ⟨fun flow hflow => (hlater flow hflow).1, ?_, fun flow hflow => (hlater flow hflow).2⟩
  have hsub := messageIds_updateFlow hf flowId s.flows
  rw [← hflows] at hsub
  refine nodup_of_subperm hsub (nodup_append.mpr ⟨hs.distinct, ?_, ?_⟩)
  · exact hnew.imp Nat.ne_of_lt
  · intro id hid id' hid' heq
    obtain ⟨flow, hflow, hid⟩ := mem_flatMap.mp hid
    exact Nat.ne_of_lt (Nat.lt_of_le_of_lt (hs.bounded flow hflow id hid) (hlow id' hid').1) heq

theorem Quiets.numbered (h : Quiets flowId s t)
    (hs : s.Numbered) : t.Numbered ∧ t.nextMessageId = s.nextMessageId := by
  induction h with
  | refl => exact ⟨hs, rfl⟩
  | tail _ hquiet ih =>
    cases hquiet with
    | update hf =>
      have hids := fun flow => (hf.messageIds flow).trans (append_nil _).symm
      exact ⟨ih.1.update hids .nil (fun id hid => absurd hid not_mem_nil) (Nat.le_refl _) rfl,
        ih.2⟩
    | decoder decoder => exact ⟨⟨ih.1.increasing, ih.1.distinct, ih.1.bounded⟩, ih.2⟩
    | drop => exact ⟨⟨ih.1.increasing, ih.1.distinct, ih.1.bounded⟩, ih.2⟩

/-- A message gets the next number while the counter has room. -/
theorem Numbered.storeMessage (hs : s.Numbered) (hroom : s.nextMessageId < 2 ^ 64 - 1)
    (flowId : FlowId) (timestamp : TimestampPair) (decoded : DecodedMessage) :
    (s.storeMessage flowId timestamp decoded).Numbered ∧
      (s.storeMessage flowId timestamp decoded).nextMessageId = s.nextMessageId + 1 := by
  have hnext : saturatingAdd s.nextMessageId 1 = s.nextMessageId + 1 := Nat.min_eq_left (by omega)
  have hids := s.keepMessage_messageIds flowId timestamp decoded
  rw [hnext] at hids
  refine ⟨hs.update hids (pairwise_singleton _ _) ?_ ?_ rfl, hnext⟩
  · intro id hid
    rw [mem_singleton.mp hid]
    exact ⟨Nat.lt_succ_self _, Nat.le_of_eq hnext.symm⟩
  · exact Nat.le_trans (Nat.le_succ _) (Nat.le_of_eq hnext.symm)

theorem Stores.numbered {timestamp : TimestampPair} {log : List Logged}
    (h : Stores flowId timestamp s log t) (hs : s.Numbered)
    (hroom : s.nextMessageId + log.length < 2 ^ 64) :
    t.Numbered ∧ t.nextMessageId = s.nextMessageId + log.length := by
  induction h with
  | nil => exact ⟨hs, rfl⟩
  | @mark s _ _ reason _ ih =>
    have hmark : Quiets flowId s _ := .single (.update s (mild_decoderError reason))
    exact ih (hmark.numbered hs).1 hroom
  | message m _ ih =>
    rw [length_cons] at hroom ⊢
    obtain ⟨hs', hnext⟩ := hs.storeMessage (by omega) flowId timestamp m
    obtain ⟨hms, hnext'⟩ := ih hs' (by omega)
    exact ⟨hms, by omega⟩

theorem evict_nextMessageId (s : StoreActor η) : s.evict.nextMessageId = s.nextMessageId := by
  rw [evict]
  split
  · cases s.flows.head?.bind fun flow => flow.record.envelope.flowId with
    | none => rfl
    | some flowId => rfl
  · rfl

theorem evict_sublist (s : StoreActor η) : s.evict.flows.Sublist s.flows := by
  rw [s.evict_frame.1]
  split
  · exact tail_sublist _
  · exact List.Sublist.refl _

/-- A flow without messages enters. -/
theorem Numbered.enter (hs : s.Numbered)
    (hflow : flow.record.messageIds = []) : (s.enter flow).Numbered := by
  have hsub := s.evict_sublist
  have hmem : ∀ {f}, f ∈ (s.enter flow).flows → f ∈ s.flows ∨ f = flow := by
    intro f hf
    obtain hf | hf := mem_append.mp hf
    · exact .inl (hsub.subset hf)
    · exact .inr (mem_singleton.mp hf)
  refine ⟨fun f hf => ?_, ?_, fun f hf id hid => ?_⟩
  · obtain hf | rfl := hmem hf
    · exact hs.increasing f hf
    · rw [hflow]
      exact .nil
  · rw [StoreActor.enter, flatMap_append, flatMap_singleton, hflow, append_nil]
    exact hs.distinct.sublist (hsub.flatMap _)
  · obtain hf | rfl := hmem hf
    · exact Nat.le_trans (hs.bounded f hf id hid) (Nat.le_of_eq s.evict_nextMessageId.symm)
    · rw [hflow] at hid
      exact absurd hid not_mem_nil

/-- An event numbers the messages it has decoded. -/
theorem Numbered.apply (hp : Hpack η) (hs : s.Numbered) (event : ObservationEvent)
    (hroom : s.nextMessageId + (s.decodedBy hp event).length < 2 ^ 64) :
    (s.apply hp event).Numbered ∧
      (s.apply hp event).nextMessageId = s.nextMessageId + (s.decodedBy hp event).length := by
  have hprepare : (s.prepare hp event).1.Numbered ∧
      (s.prepare hp event).1.nextMessageId = s.nextMessageId := by
    by_cases hopens : Opens event
    · obtain ⟨flow, hentered⟩ := hopens.entered hp s
      obtain ⟨hnumbered, hnext⟩ := hentered.quiets.numbered (hs.enter hentered.messageIds)
      rw [hentered.prepare]
      exact ⟨hnumbered, hnext.trans s.evict_nextMessageId⟩
    · exact (s.prepare_quiets hp hopens).numbered hs
  rw [apply_eq]
  have hlength := congrArg List.length (map_batchesLog event.flowId event.timestamp
    (s.prepare hp event).2 (s.prepare hp event).1)
  rw [length_map] at hlength
  obtain ⟨hstored, hnext⟩ := (stores_batches ..).numbered hprepare.1
    (by rw [hprepare.2, hlength]; exact hroom)
  obtain ⟨hdone, hnext'⟩ := (conclude_quiets _ event).numbered hstored
  exact ⟨hdone, by rw [hnext', hnext, hprepare.2, hlength, decodedBy]⟩

theorem Numbered.run (hp : Hpack η) : ∀ (events : List ObservationEvent) {s : StoreActor η},
    s.Numbered → s.nextMessageId + decodedCount hp s events < 2 ^ 64 →
    (s.run hp events).Numbered
  | [], _, hs, _ => hs
  | event :: events, s, hs, hroom => by
    rw [decodedCount] at hroom
    obtain ⟨hs', hnext⟩ := hs.apply hp event (by omega)
    have hrest : (s.apply hp event).nextMessageId + decodedCount hp (s.apply hp event) events <
        2 ^ 64 := by omega
    exact Numbered.run hp events hs' hrest

theorem Listed.apply (hp : Hpack η) (hs : s.Listed) (event : ObservationEvent) :
    (s.apply hp event).Listed := by
  have hchanges : ∀ {flowId : FlowId} {s t : StoreActor η}, Changes flowId s t → s.Listed →
      t.Listed := by
    intro flowId s t h hs
    induction h with
    | refl => exact hs
    | tail _ hchange ih => exact hchange.listed ih
  by_cases hopens : Opens event
  · obtain ⟨opened, hentered⟩ := hopens.entered hp s
    refine hchanges hentered.quiets.changes fun flow hflow => ?_
    obtain hflow | hflow := mem_append.mp hflow
    · exact hs flow (s.evict_sublist.subset hflow)
    · rw [mem_singleton.mp hflow, hentered.messages, hentered.messageIds]
      rfl
  · exact hchanges (s.apply_changes hp hopens) hs

theorem Listed.run (hp : Hpack η) : ∀ (events : List ObservationEvent) {s : StoreActor η},
    s.Listed → (s.run hp events).Listed
  | [], _, hs => hs
  | event :: events, _, hs => Listed.run hp events (hs.apply hp event)

end StoreActor

/-! ## Retention -/

open StoreActor (openedIds decodedCount)

/-- The store is a window on the flows that were opened, and numbers their messages. -/
theorem retained_window {η : Type} (hp : Hpack η) {maxFlows : Nat} (hmax : 0 < maxFlows)
    (runId : RunId) (maxBody : Nat) (reveal : Bool) (host : Option (Bytes → PluginRunReport))
    (events : List ObservationEvent) (hevents : events.length < 2 ^ 64)
    (hcount : decodedCount hp (.fresh maxFlows runId maxBody reveal host) events < 2 ^ 64) :
    let s := (StoreActor.fresh maxFlows runId maxBody reveal host : StoreActor η).run hp events
    s.ids = (window maxFlows (openedIds events)).map some ∧
      s.evicted = (openedIds events).length - s.flows.length ∧ s.Listed ∧
      (∀ flow ∈ s.flows, flow.record.messageIds.Pairwise (· < ·)) ∧
      (s.flows.flatMap fun flow => flow.record.messageIds).Nodup := by
  have hopened : (openedIds events).length < 2 ^ 64 :=
    Nat.lt_of_le_of_lt (length_filterMap_le _ _) hevents
  obtain ⟨-, hids, hevicted⟩ := StoreActor.ids_run hp runId maxBody reveal host hmax events hopened
  have hfresh : (StoreActor.fresh maxFlows runId maxBody reveal host : StoreActor η).Numbered :=
    ⟨fun _ h => absurd h not_mem_nil, nodup_nil, fun _ h => absurd h not_mem_nil⟩
  have hroom : 0 + decodedCount hp (.fresh maxFlows runId maxBody reveal host) events < 2 ^ 64 := by
    rw [Nat.zero_add]
    exact hcount
  have hnumbered := hfresh.run hp events hroom
  refine ⟨hids, ?_, StoreActor.Listed.run hp events fun _ h => absurd h not_mem_nil,
    hnumbered.increasing, hnumbered.distinct⟩
  have hlen := congrArg List.length hids
  rw [StoreActor.length_ids, length_map, length_window] at hlen
  rw [hevicted]
  omega

/-- A Redis flow with the number 1 is opened. -/
def redisOpened : ObservationEvent :=
  ⟨1, ⟨0, 0⟩, .opened ⟨"client", 1⟩ ⟨"cache", 6379⟩ (some "redis")⟩

/-- Two commands in one read. -/
def twoCommands : ObservationEvent :=
  ⟨1, ⟨0, 0⟩, .data .clientToServer (Utf8.asBytes "A\r\nB\r\n")⟩

/-- Two flows with commands, of which the first makes room for the second. -/
def replaced : List ObservationEvent :=
  [redisOpened, twoCommands, ⟨2, ⟨0, 0⟩, .opened ⟨"client", 2⟩ ⟨"cache", 6379⟩ (some "redis")⟩,
    ⟨2, ⟨0, 0⟩, .data .clientToServer (Utf8.asBytes "A\r\nB\r\n")⟩, twoCommands]

theorem retained_second :
    let s := (StoreActor.withInspection 1 0 64 false : StoreActor Unit).run idleHpack replaced
    s.ids = [some 2] ∧ s.evicted = 1 ∧ s.Listed ∧
      (s.flows.flatMap fun flow => flow.record.messageIds) = [3, 4] ∧
      (s.flows.flatMap fun flow => flow.record.messageIds).Nodup := by
  obtain ⟨hids, hevicted, hlisted, -, hnodup⟩ := retained_window idleHpack (by decide : 0 < 1) 0 64
    false none replaced (by decide) (by decide +kernel)
  exact ⟨hids, hevicted, hlisted, by decide +kernel, hnodup⟩

/-- A decoder for a flow that was not opened. -/
def detected : ObservationEvent := ⟨2, ⟨0, 0⟩, .protocolDetected "redis"⟩

/-- Two replies in one read. -/
def twoReplies : ObservationEvent :=
  ⟨2, ⟨0, 0⟩, .data .serverToClient (Utf8.asBytes "+\r\n+\r\n")⟩

/-- More messages of a flow that is not retained than there are numbers, and then two commands. -/
def flooded : List ObservationEvent :=
  detected :: (List.replicate (2 ^ 63) twoReplies ++ [redisOpened, twoCommands])

/-- The store while messages of the other flow are counted. -/
def counting (n : Nat) : StoreActor Unit :=
  { (StoreActor.withInspection 1 0 64 false : StoreActor Unit) with
    decoders := setEntry (fun _ => none) 2 (some (.redis (.new 64)))
    nextMessageId := n }

theorem counting_step (n : Nat) : (counting n).apply idleHpack twoReplies =
    counting (saturatingAdd (saturatingAdd n 1) 1) := by
  have hdecoders : setEntry (counting n).decoders 2 (some (.redis (.new 64))) =
      (counting n).decoders := by
    funext flowId
    by_cases h : flowId = 2
    · simp [counting, setEntry, h]
    · simp [counting, setEntry, h]
  have happly : (counting n).apply idleHpack twoReplies =
      { counting (saturatingAdd (saturatingAdd n 1) 1) with
        decoders := setEntry (counting n).decoders 2 (some (.redis (.new 64))) } := rfl
  rw [happly, hdecoders]
  rfl

theorem counting_steps (k : Nat) : (counting 0).run idleHpack (List.replicate k twoReplies) =
    counting (min (2 * k) (2 ^ 64 - 1)) := by
  induction k with
  | zero => rfl
  | succ k ih =>
    have hnext : saturatingAdd (saturatingAdd (min (2 * k) (2 ^ 64 - 1)) 1) 1 =
        min (2 * (k + 1)) (2 ^ 64 - 1) := by
      simp only [saturatingAdd]
      omega
    rw [replicate_succ', StoreActor.run_concat, ih, counting_step, hnext]

/-- The two commands share the last number. -/
theorem flooded_shares : flooded.length < 2 ^ 64 ∧ (openedIds flooded).Nodup ∧
    ((StoreActor.withInspection 1 0 64 false : StoreActor Unit).run idleHpack flooded).flows.map
      (fun flow => flow.record.messageIds) = [[2 ^ 64 - 1, 2 ^ 64 - 1]] := by
  refine ⟨?_, ?_, ?_⟩
  · rw [flooded, length_cons, length_append, length_replicate]
    decide
  · have hnone : openedIds (List.replicate (2 ^ 63) twoReplies) = [] :=
      filterMap_eq_nil_iff.mpr fun event hevent => by rw [eq_of_mem_replicate hevent]; rfl
    rw [flooded, ← singleton_append, StoreActor.openedIds_append,
      StoreActor.openedIds_append, hnone]
    decide
  · have hdetected : (StoreActor.withInspection 1 0 64 false : StoreActor Unit).apply idleHpack
        detected = counting 0 := rfl
    rw [flooded, StoreActor.run_cons, hdetected, StoreActor.run, foldl_append]
    have hsteps : (List.replicate (2 ^ 63) twoReplies).foldl (fun s e => s.apply idleHpack e)
        (counting 0) = _ := counting_steps (2 ^ 63)
    rw [hsteps]
    decide +kernel

end Lens.Store
