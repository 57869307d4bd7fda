import Lens.Store.Tidy

/-!
# What grows with the traffic

Two parts of a store are not bounded by its settings.

*Queues.*  A response takes a request off the queue of its stream, but the queue stays when
it is empty.  So there are entries without a request, and the entries of a flow grow with
the streams it has used.  An entry is left empty exactly when an event carries the response to
the last request that waits on its stream (`proportional_iff_unanswered`).

*Messages.*  The number of flows is bounded, but not the number of messages of a flow
(`held_unbounded`).
-/

namespace Lens.Store

open List
open Http2 (Hpack)

/-! ## Outstanding requests -/

/-- The number of outstanding requests of a stream after a message. -/
def settle (stream : String) (n : Nat) (m : DecodedMessage) : Nat :=
  if IsBoundary stream "request" m then n + 1
  else if IsBoundary stream "response" m then n - 1
  else n

/-- The number of outstanding requests of a stream after some messages. -/
def outstanding (stream : String) (n : Nat) (ms : List DecodedMessage) : Nat :=
  ms.foldl (settle stream) n

/-- One of the messages is the response to the last of the requests that wait, `n` at first, and
no request of the stream comes after it. -/
def Clears (stream : String) : Nat → List DecodedMessage → Prop
  | _, [] => False
  | n, m :: ms =>
    (n = 1 ∧ IsBoundary stream "response" m ∧ ∀ m' ∈ ms, ¬ IsBoundary stream "request" m') ∨
      Clears stream (settle stream n m) ms

theorem Clears.exists_mem {stream : String} : ∀ {n : Nat} {ms : List DecodedMessage},
    Clears stream n ms → ∃ m ∈ ms, streamOf m = stream
  | _, [], h => h.elim
  | _, m :: ms, h => by
    rcases h with ⟨-, hm, -⟩ | h
    · exact ⟨m, .head _, hm.1⟩
    · obtain ⟨m', hm', hstream⟩ := h.exists_mem
      exact ⟨m', .tail _ hm', hstream⟩

theorem outstanding_zero {stream : String} : ∀ {ms : List DecodedMessage},
    (∀ m ∈ ms, ¬ IsBoundary stream "request" m) → outstanding stream 0 ms = 0
  | [], _ => rfl
  | m :: ms, h => by
    rw [forall_mem_cons] at h
    have hsettle : settle stream 0 m = 0 := by simp [settle, h.1]
    rw [outstanding, foldl_cons, hsettle]
    exact outstanding_zero h.2

/-- A stream that has asked has nothing outstanding exactly when its last request is answered. -/
theorem clears_iff {stream : String} : ∀ {n : Nat} {ms : List DecodedMessage},
    Clears stream n ms ↔
      (0 < n ∨ ∃ m ∈ ms, IsBoundary stream "request" m) ∧ outstanding stream n ms = 0
  | n, [] => by simp [Clears, outstanding]; omega
  | n, m :: ms => by
    have ih : Clears stream (settle stream n m) ms ↔ _ := clears_iff
    have houtstanding : outstanding stream n (m :: ms) =
        outstanding stream (settle stream n m) ms := rfl
    rw [Clears, ih, houtstanding]
    simp only [mem_cons, exists_eq_or_imp]
    by_cases hrequest : IsBoundary stream "request" m
    · have hsettle : settle stream n m = n + 1 := if_pos hrequest
      have hresponse : ¬ IsBoundary stream "response" m := by
        intro hresponse
        have hsame := hrequest.2.symm.trans hresponse.2
        simp at hsame
      simp [hsettle, hrequest, hresponse]
    · by_cases hresponse : IsBoundary stream "response" m
      · have hsettle : settle stream n m = n - 1 := by simp [settle, hrequest, hresponse]
        rw [hsettle]
        by_cases hlast : n = 1
        · subst hlast
          by_cases hmore : ∃ m ∈ ms, IsBoundary stream "request" m
          · have hnot : ¬ ∀ m ∈ ms, ¬ IsBoundary stream "request" m := by simpa using hmore
            simp [hresponse, hmore, hnot]
          · have hnone : ∀ m ∈ ms, ¬ IsBoundary stream "request" m := by simpa using hmore
            exact iff_of_true (.inl ⟨rfl, hresponse, hnone⟩)
              ⟨.inl Nat.zero_lt_one, outstanding_zero hnone⟩
        · have hpos : 0 < n - 1 ↔ 0 < n := by omega
          simp [hlast, hpos, hrequest]
      · have hsettle : settle stream n m = n := by simp [settle, hrequest, hresponse]
        simp [hsettle, hrequest, hresponse]

namespace StoreActor

variable {η : Type} {flowId : FlowId} {stream : String} {s t : StoreActor η}
  {event : ObservationEvent}

/-- Every queue has a request that waits. -/
def Occupied (s : StoreActor η) : Prop :=
  ∀ key queue, s.pendingRequests key = some queue → queue ≠ []

/-- The requests of a stream that wait after messages, and whether it has a queue. -/
structure Settles (flowId : FlowId) (stream : String) (s t : StoreActor η)
    (ms : List DecodedMessage) : Prop where
  length : (t.pendingRequests.queue (flowId, stream)).length =
    outstanding stream (s.pendingRequests.queue (flowId, stream)).length ms
  present : t.pendingRequests (flowId, stream) ≠ none ↔
    s.pendingRequests (flowId, stream) ≠ none ∨ ∃ m ∈ ms, IsBoundary stream "request" m

theorem Settles.trans {u : StoreActor η} {ms ms' : List DecodedMessage}
    (h : Settles flowId stream s t ms)
    (h' : Settles flowId stream t u ms') : Settles flowId stream s u (ms ++ ms') where
  length := by rw [h'.length, h.length, outstanding, outstanding, outstanding, foldl_append]
  present := by
    rw [h'.present, h.present, or_assoc]
    simp only [mem_append, or_and_right, exists_or]

theorem Settles.of_pending
    (h : t.pendingRequests (flowId, stream) = s.pendingRequests (flowId, stream)) :
    Settles flowId stream s t [] where
  length := by rw [PendingRequests.queue, h]; rfl
  present := by simp [h]

/-- A message that is no boundary of the stream. -/
theorem settles_other {m : DecodedMessage} (hrequest : ¬ IsBoundary stream "request" m)
    (hresponse : ¬ IsBoundary stream "response" m)
    (h : t.pendingRequests (flowId, stream) = s.pendingRequests (flowId, stream)) :
    Settles flowId stream s t [m] where
  length := by
    rw [PendingRequests.queue, h]
    simp [outstanding, settle, hrequest, hresponse, PendingRequests.queue]
  present := by simp [h, hrequest]

theorem settles_storeMessage (s : StoreActor η) (flowId : FlowId) (timestamp : TimestampPair)
    (stream : String) (m : DecodedMessage) :
    Settles flowId stream s (s.storeMessage flowId timestamp m) [m] := by
  have htrack : ∀ {boundary : String}, IsBoundary stream boundary m →
      (s.storeMessage flowId timestamp m).pendingRequests = (trackBoundary s.pendingRequests
        (flowId, stream) (some boundary) timestamp.monoNanos).1 := by
    rintro boundary ⟨rfl, hm⟩
    rw [← hm]
    rfl
  by_cases hrequest : IsBoundary stream "request" m
  · refine ⟨?_, ?_⟩
    · rw [htrack hrequest, trackBoundary_request.1]
      simp [outstanding, settle, hrequest]
    · rw [htrack hrequest]
      simp [trackBoundary, hrequest]
  · by_cases hresponse : IsBoundary stream "response" m
    · refine ⟨?_, ?_⟩
      · rw [htrack hresponse, trackBoundary_response.1]
        simp [outstanding, settle, hrequest, hresponse]
      · rw [htrack hresponse]
        cases hqueue : s.pendingRequests (flowId, stream) with
        | none => simp [trackBoundary, hqueue, hrequest]
        | some queue =>
          cases queue with
          | nil => simp [trackBoundary, hqueue]
          | cons started rest => simp [trackBoundary, hqueue]
    · refine settles_other hrequest hresponse ?_
      by_cases hstream : streamOf m = stream
      · show (s.boundaryOf flowId timestamp m).1 (flowId, stream) = _
        rw [boundaryOf, trackBoundary, if_neg fun hm => hrequest ⟨hstream, hm⟩,
          if_neg fun hm => hresponse ⟨hstream, hm⟩]
      · exact trackBoundary_of_ne fun heq => hstream (congrArg Prod.snd heq).symm

theorem Stores.settles {timestamp : TimestampPair} {log : List Logged}
    (h : Stores flowId timestamp s log t) (stream : String) :
    Settles flowId stream s t (log.map Logged.message) := by
  induction h with
  | nil => exact .of_pending rfl
  | mark reason _ ih => exact ⟨ih.length, ih.present⟩
  | @message s _ _ m _ ih => exact (s.settles_storeMessage flowId timestamp stream m).trans ih

/-- The requests of the flow of an event that opens and ends no flow. -/
theorem settles_apply (hp : Hpack η) (s : StoreActor η) (hopens : ¬ Opens event)
    (hfinishes : ¬ Finishes event) (stream : String) :
    Settles event.flowId stream s (s.apply hp event) (s.decodedBy hp event) := by
  rw [apply_eq, conclude_of_not_finishes hfinishes]
  have hprepare : Settles event.flowId stream s (s.prepare hp event).1 [] :=
    .of_pending (prepare_pending hp (fun hevicts => hopens hevicts.1) stream)
  have hstored := (stores_batches event.flowId event.timestamp (s.prepare hp event).2
    (s.prepare hp event).1).settles stream
  rw [map_batchesLog] at hstored
  exact hprepare.trans hstored

/-- The event carries the response to the last request that waits on a stream of its flow. -/
def AnswersLast (hp : Hpack η) (s : StoreActor η) (event : ObservationEvent) : Prop :=
  ∃ m ∈ s.decodedBy hp event, Clears (streamOf m)
    (s.pendingRequests.queue (event.flowId, streamOf m)).length (s.decodedBy hp event)

theorem Occupied.length_pos (h : s.Occupied) {key : FlowId × String}
    (hkey : s.pendingRequests key ≠ none) : 0 < (s.pendingRequests.queue key).length := by
  obtain ⟨queue, hqueue⟩ := Option.ne_none_iff_exists'.mp hkey
  rw [PendingRequests.queue, hqueue]
  exact length_pos_iff.mpr (h key queue hqueue)

theorem ne_none_of_length_pos {key : FlowId × String}
    (h : 0 < (s.pendingRequests.queue key).length) : s.pendingRequests key ≠ none := by
  intro hnone
  rw [PendingRequests.queue, hnone] at h
  exact absurd h (Nat.lt_irrefl 0)

theorem occupied_of_length_pos
    (h : ∀ key, s.pendingRequests key ≠ none → 0 < (s.pendingRequests.queue key).length) :
    s.Occupied := by
  rintro key queue hqueue rfl
  have hpos := h key (hqueue ▸ Option.some_ne_none [])
  rw [PendingRequests.queue, hqueue] at hpos
  exact absurd hpos (Nat.lt_irrefl 0)

/-- A flow that is opened takes nothing but whole queues away. -/
theorem pending_opened (hp : Hpack η) (s : StoreActor η) (h : Opens event) (key : FlowId × String) :
    (s.apply hp event).pendingRequests key = none ∨
      (s.apply hp event).pendingRequests key = s.pendingRequests key := by
  obtain ⟨own, timestamp, kind⟩ := event
  obtain ⟨client, upstream, protocol, rfl⟩ := h
  have hopen : (s.openFlow hp own timestamp client upstream protocol).pendingRequests =
      s.evict.pendingRequests := by
    rw [openFlow_eq]
    cases protocol.bind (ProtocolDecoder.forProtocol hp s.maxBody) with
    | none => rfl
    | some decoder => rfl
  show (s.openFlow hp own timestamp client upstream protocol).pendingRequests key = none ∨ _
  rw [show s.apply hp ⟨own, timestamp, .opened client upstream protocol⟩ =
    s.openFlow hp own timestamp client upstream protocol from rfl, hopen, evict]
  split
  · cases s.flows.head?.bind fun flow => flow.record.envelope.flowId with
    | none => exact .inr rfl
    | some gone =>
      by_cases hkey : key.1 = gone
      · exact .inl (if_pos hkey)
      · exact .inr (if_neg hkey)
  · exact .inr rfl

/-- An event leaves all queues occupied unless it answers the last request of a stream and its
flow goes on. -/
theorem occupied_apply_iff (hp : Hpack η) (event : ObservationEvent) (hs : s.Occupied) :
    (s.apply hp event).Occupied ↔ Finishes event ∨ ¬ AnswersLast hp s event := by
  by_cases hopens : Opens event
  · obtain ⟨flow, hentered⟩ := hopens.entered hp s
    have hnone : s.decodedBy hp event = [] := by
      rw [decodedBy, hentered.prepare]
      rfl
    refine iff_of_true (fun key queue hqueue => ?_) (.inr ?_)
    · obtain hgone | hsame := s.pending_opened hp hopens key
      · rw [hgone] at hqueue
        cases hqueue
      · exact hs key queue (hsame ▸ hqueue)
    · rintro ⟨m, hm, -⟩
      rw [hnone] at hm
      exact not_mem_nil hm
  · have hother : ∀ {flowId stream}, flowId ≠ event.flowId →
        (s.apply hp event).pendingRequests (flowId, stream) = s.pendingRequests (flowId, stream) :=
      fun hne => congrFun (congrArg View.pending ((s.apply_changes hp hopens).view hne)) _
    by_cases hfinishes : Finishes event
    · refine iff_of_true ?_ (.inl hfinishes)
      rintro ⟨flowId, stream⟩ queue hqueue
      by_cases hown : flowId = event.flowId
      · rw [hown, (s.bare_finished hp hfinishes).2 stream] at hqueue
        cases hqueue
      · exact hs _ queue (hother hown ▸ hqueue)
    · have hsettles := s.settles_apply hp hopens hfinishes
      constructor
      · rintro h
        refine .inr ?_
        rintro ⟨m, -, hclears⟩
        obtain ⟨hasked, hzero⟩ := clears_iff.mp hclears
        have hpresent := (hsettles (streamOf m)).present.mpr
          (hasked.imp_left ne_none_of_length_pos)
        have hpos := h.length_pos hpresent
        rw [(hsettles _).length, hzero] at hpos
        exact absurd hpos (Nat.lt_irrefl 0)
      · intro h
        refine occupied_of_length_pos ?_
        rintro ⟨flowId, stream⟩ hkey
        by_cases hown : flowId = event.flowId
        · obtain rfl := hown
          rw [(hsettles stream).length]
          have hasked := ((hsettles stream).present.mp hkey).imp_left hs.length_pos
          refine Nat.pos_of_ne_zero fun hzero => ?_
          have hclears := clears_iff.mpr ⟨hasked, hzero⟩
          obtain ⟨m, hm, rfl⟩ := hclears.exists_mem
          exact h.resolve_left hfinishes ⟨m, hm, hclears⟩
        · rw [PendingRequests.queue, hother hown]
          exact hs.length_pos (hother hown ▸ hkey)

end StoreActor

open StoreActor (AnswersLast)

/-- The entries for waiting requests are proportional to the requests that wait. -/
structure Proportional {η : Type} (s : StoreActor η) : Prop where
  occupied : s.Occupied
  entries : ∀ (flowId : FlowId) (streams : List String), streams.Nodup →
    (∀ stream ∈ streams, s.pendingRequests (flowId, stream) ≠ none) →
    streams.length ≤
      (streams.map fun stream => (s.pendingRequests.queue (flowId, stream)).length).sum

theorem StoreActor.Occupied.proportional {η : Type} {s : StoreActor η} (h : s.Occupied) :
    Proportional s where
  occupied := h
  entries := fun flowId streams _ hstreams => by
    have hle := length_le_sum_of_one_le
      (streams.map fun stream => (s.pendingRequests.queue (flowId, stream)).length) (by
        intro n hn
        obtain ⟨stream, hstream, rfl⟩ := mem_map.mp hn
        exact h.length_pos (hstreams stream hstream))
    rwa [length_map] at hle

/-- The entries are proportional to the requests that wait in all states of a run, exactly
when no event answers the last request of a stream whose flow goes on. -/
theorem proportional_iff_unanswered {η : Type} (hp : Hpack η) (maxFlows : Nat) (runId : RunId)
    (maxBody : Nat) (reveal : Bool) (host : Option (Bytes → PluginRunReport))
    (events : List ObservationEvent) :
    (∀ before, before <+: events →
      Proportional ((StoreActor.fresh maxFlows runId maxBody reveal host : StoreActor η).run
        hp before)) ↔
    ∀ before event, before ++ [event] <+: events → Finishes event ∨
      ¬ AnswersLast hp ((StoreActor.fresh maxFlows runId maxBody reveal host).run hp before)
        event := by
  have hfresh : (StoreActor.fresh maxFlows runId maxBody reveal host : StoreActor η).Occupied :=
    fun _ _ h => by cases h
  refine Iff.trans ?_ (Stream.along_iff (StoreActor.occupied_apply_iff hp) hfresh events)
  exact ⟨fun h before hprefix => (h before hprefix).occupied,
    fun h before hprefix => (h before hprefix).proportional⟩

/-- A command and its reply. -/
def answered : List ObservationEvent :=
  [redisOpened, ⟨1, ⟨0, 0⟩, .data .clientToServer (Utf8.asBytes "A\r\n")⟩,
    ⟨1, ⟨7, 7⟩, .data .serverToClient (Utf8.asBytes "+OK\r\n")⟩]

/-- An entry stays, and no request waits. -/
theorem answered_not_proportional :
    ¬ Proportional
      ((StoreActor.fresh 1 0 64 false none : StoreActor Unit).run idleHpack answered) := by
  intro h
  exact h.occupied (1, "") [] (by decide +kernel) rfl

/-! ## Messages -/

namespace StoreActor

variable {η : Type} {s t : StoreActor η} {most : FlowId → Nat} {own : FlowId}

/-- The number of messages of all retained flows. -/
def heldMessages (s : StoreActor η) : Nat := (s.flows.map fun flow => flow.messages.length).sum

variable (hp : Hpack η)

/-- A Redis flow is watched and has got at least `n` messages. -/
structure Watched (s : StoreActor η) (n : Nat) : Prop where
  decoder : s.decoders 1 = some (.redis (.new s.maxBody))
  messages : ∃ kept, s.messagesOf 1 = some kept ∧ n ≤ kept.length

theorem watched_redisOpened (s : StoreActor η) : Watched (s.apply hp redisOpened) 0 := by
  refine ⟨rfl, ?_⟩
  cases hfound : findFlow (s.apply hp redisOpened).flows 1 with
  | none =>
    have hmem : ∃ flow ∈ (s.apply hp redisOpened).flows, flow.record.envelope.flowId = some 1 :=
      ⟨_, mem_append_right _ (.head _), rfl⟩
    obtain ⟨flow, hflow, hid⟩ := hmem
    exact absurd hid (by simpa using find?_eq_none.mp hfound flow hflow)
  | some flow => exact ⟨flow.messages, by rw [messagesOf, hfound]; rfl, Nat.zero_le _⟩

/-- Each read adds its two commands. -/
theorem Watched.step {n : Nat} (h : Watched s n) :
    Watched (s.apply hp twoCommands) (n + 2) := by
  obtain ⟨kept, hkept, hlength⟩ := h.messages
  obtain ⟨m, m', hpush⟩ : ∃ m m', (Redis.RedisDecoder.new s.maxBody).push .clientToServer
      (Utf8.asBytes "A\r\nB\r\n") = (.new s.maxBody, ⟨[m, m'], none⟩) := ⟨_, _, rfl⟩
  have hstays : ¬ s.Evicts twoCommands 1 := by
    rintro ⟨⟨_, _, _, hkind⟩, _⟩
    cases hkind
  have hlog : (s.eventLog hp twoCommands).length = 2 := by
    have hprepare : (s.prepare hp twoCommands).2 = [⟨[m, m'], none⟩] := by
      simp only [prepare, twoCommands, h.decoder, ProtocolDecoder.push, hpush]
    rw [eventLog, hprepare]
    rfl
  refine ⟨?_, _, messagesOf_apply hp hkept hstays, ?_⟩
  · have happly : s.apply hp twoCommands = ({ s with
        decoders := setEntry s.decoders 1 (some (.redis (.new s.maxBody))) }.storeMessage 1 ⟨0, 0⟩
          m).storeMessage 1 ⟨0, 0⟩ m' := by
      simp only [apply, twoCommands, h.decoder, ProtocolDecoder.push, hpush]
      rfl
    rw [happly]
    exact setEntry_self s.decoders 1 _
  · rw [length_append, length_map, hlog]
    omega

theorem Watched.run {n : Nat} (h : Watched s n) : ∀ k,
    Watched (s.run hp (List.replicate k twoCommands)) (n + 2 * k)
  | 0 => h
  | k + 1 => by
    rw [replicate_succ', run_concat]
    exact (h.run k).step hp

theorem Watched.le_heldMessages {n : Nat} (h : Watched s n) : n ≤ s.heldMessages := by
  obtain ⟨kept, hkept, hlength⟩ := h.messages
  obtain ⟨flow, hflow, rfl⟩ := Option.map_eq_some_iff.mp hkept
  exact hlength.trans (le_sum_of_mem (mem_map_of_mem (mem_of_find?_eq_some hflow)))

/-- Whatever came before, a flow is opened and gets any number of commands. -/
theorem exists_held (s : StoreActor η) (n : Nat) :
    ∃ events, n ≤ (s.run hp events).heldMessages := by
  refine ⟨redisOpened :: List.replicate n twoCommands, ?_⟩
  have hheld := ((watched_redisOpened hp s).run hp n).le_heldMessages
  rw [run_cons]
  omega

end StoreActor

/-- There is no bound on the messages of any store, whatever its settings and its past. -/
theorem held_unbounded {η : Type} (hp : Hpack η) (maxFlows : Nat) (runId : RunId) (maxBody : Nat)
    (reveal : Bool) (host : Option (Bytes → PluginRunReport))
    (before : List ObservationEvent) :
    ¬ ∃ bound, ∀ events, ((StoreActor.fresh maxFlows runId maxBody reveal host : StoreActor η).run
      hp (before ++ events)).heldMessages ≤ bound := by
  rintro ⟨bound, h⟩
  obtain ⟨events, hheld⟩ := StoreActor.exists_held hp
    ((StoreActor.fresh maxFlows runId maxBody reveal host : StoreActor η).run hp before) (bound + 1)
  have hle := h events
  rw [StoreActor.run, foldl_append] at hle
  exact absurd (hheld.trans hle) (Nat.not_succ_le_self bound)

/-- No bound on the messages depends on the settings alone. -/
theorem commands_unbounded : ¬ ∃ bound : Nat → Nat → Nat, ∀ maxFlows maxBody : Nat, 0 < maxFlows →
    0 < maxBody → ∀ events : List ObservationEvent,
      ((StoreActor.fresh maxFlows 0 maxBody false none : StoreActor Unit).run idleHpack
        events).heldMessages ≤ bound maxFlows maxBody := by
  rintro ⟨bound, h⟩
  obtain ⟨events, hheld⟩ := StoreActor.exists_held idleHpack
    (StoreActor.fresh 1 0 64 false none) (bound 1 64 + 1)
  have hle := h 1 64 (by decide) (by decide) events
  omega

end Lens.Store
