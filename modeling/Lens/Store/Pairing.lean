import Lens.Store.Isolation
import Lens.Store.Latency
import Lens.Stream.History

/-!
# Latencies of the streams of a flow

The waiting requests of all flows and streams are kept in one map.  What the store makes of
the messages of one flow is its `flowLog`.  For each stream, the entry of the map is the
queue of the requests in the log that no response has taken (`InStep`).  No other stream,
no other flow and no eviction of another flow touches it, so a response that does not come
too early is timed from the request with its own number (`latencies_matched`).
-/

namespace Lens.Store

open List
open Http2 (Hpack)
open Stream (waiting Balanced Matched)

/-- The message is a boundary of a stream. -/
def IsBoundary (stream boundary : String) (m : DecodedMessage) : Prop :=
  streamOf m = stream ∧ findHeader m.headers "lens-boundary" = some boundary

instance (stream boundary : String) (m : DecodedMessage) :
    Decidable (IsBoundary stream boundary m) :=
  inferInstanceAs (Decidable (_ ∧ _))

/-- The message of an entry is a boundary of a stream. -/
def bounds (stream boundary : String) (entry : Logged) : Bool :=
  IsBoundary stream boundary entry.message

/-- The response of a stream has the time since the request as its latency. -/
def Timed (request response : Logged) : Prop :=
  response.record.latencyNanos = some (response.time - request.time)

/-- The event ends its flow. -/
def Finishes (event : ObservationEvent) : Prop :=
  event.kind = .closed ∨ ∃ reason, event.kind = .failed reason

namespace StoreActor

variable {event : ObservationEvent}

variable {η : Type} {s t : StoreActor η} {flowId : FlowId} {log : List Logged}

/-! ## The log of a flow -/

def eventLog (hp : Hpack η) (s : StoreActor η) (event : ObservationEvent) : List Logged :=
  batchesLog event.flowId event.timestamp (s.prepare hp event).2 (s.prepare hp event).1

/-- What the store makes of the messages of a flow, in order. -/
def flowLog (hp : Hpack η) (flowId : FlowId) : StoreActor η → List ObservationEvent → List Logged
  | _, [] => []
  | s, event :: events =>
    (if event.flowId = flowId then s.eventLog hp event else []) ++
      flowLog hp flowId (s.apply hp event) events

theorem flowLog_of_ne (hp : Hpack η) {flowId : FlowId} :
    ∀ {events : List ObservationEvent} (s : StoreActor η),
      (∀ event ∈ events, event.flowId ≠ flowId) → flowLog hp flowId s events = []
  | [], _, _ => rfl
  | event :: events, s, h => by
    rw [flowLog, if_neg (h event (.head _)),
      flowLog_of_ne hp (s.apply hp event) fun e he => h e (.tail _ he)]
    rfl

/-! ## The queue of a stream -/

/-- The queue of a stream holds the requests of the log that wait, and the responses of the
log are timed. -/
structure InStep (flowId : FlowId) (stream : String) (s : StoreActor η) (log : List Logged) :
    Prop where
  queue : s.pendingRequests.queue (flowId, stream) =
    (waiting (bounds stream "request") (bounds stream "response") log).map Logged.time
  matched : Matched (bounds stream "request") (bounds stream "response") Timed log

namespace InStep

variable {timestamp : TimestampPair} {m : DecodedMessage} {stream : String}

theorem of_pending (h : InStep flowId stream s log)
    (hpending : t.pendingRequests (flowId, stream) = s.pendingRequests (flowId, stream)) :
    InStep flowId stream t log where
  queue := by
    rw [PendingRequests.queue, hpending]
    exact h.queue
  matched := h.matched

/-- A message that is no boundary of the stream. -/
theorem other (h : InStep flowId stream s log)
    (hrequest : ¬ bounds stream "request" (s.logged flowId timestamp m))
    (hresponse : ¬ bounds stream "response" (s.logged flowId timestamp m))
    (hpending : (s.boundaryOf flowId timestamp m).1 (flowId, stream) =
      s.pendingRequests (flowId, stream)) :
    InStep flowId stream (s.storeMessage flowId timestamp m)
      (log ++ [s.logged flowId timestamp m]) where
  queue := by
    rw [Stream.waiting_other hrequest hresponse, ← h.queue, PendingRequests.queue,
      PendingRequests.queue]
    exact congrArg (Option.getD · []) hpending
  matched := h.matched.other hresponse

theorem request (h : InStep flowId stream s log)
    (hbalanced : Balanced (bounds stream "request") (bounds stream "response") log)
    (hstream : streamOf m = stream) (hm : findHeader m.headers "lens-boundary" = some "request") :
    InStep flowId stream (s.storeMessage flowId timestamp m)
      (log ++ [s.logged flowId timestamp m]) := by
  have hrequest : bounds stream "request" (s.logged flowId timestamp m) := by
    simp [bounds, IsBoundary, logged, hstream, hm]
  have hresponse : ¬ bounds stream "response" (s.logged flowId timestamp m) := by
    simp [bounds, IsBoundary, logged, hm]
  refine ⟨?_, h.matched.other hresponse⟩
  rw [Stream.waiting_ask hbalanced hrequest hresponse, map_append, ← h.queue]
  show (s.boundaryOf flowId timestamp m).1.queue (flowId, stream) = _
  rw [boundaryOf, hstream, hm]
  exact trackBoundary_request.1

/-- A response is timed from the oldest request that waits. -/
theorem response (h : InStep flowId stream s log)
    (hbalanced : Balanced (bounds stream "request") (bounds stream "response")
      (log ++ [s.logged flowId timestamp m])) (hstream : streamOf m = stream)
    (hm : findHeader m.headers "lens-boundary" = some "response") :
    InStep flowId stream (s.storeMessage flowId timestamp m)
      (log ++ [s.logged flowId timestamp m]) := by
  have hrequest : ¬ bounds stream "request" (s.logged flowId timestamp m) := by
    simp [bounds, IsBoundary, logged, hm]
  have hresponse : bounds stream "response" (s.logged flowId timestamp m) := by
    simp [bounds, IsBoundary, logged, hstream, hm]
  have htrack : s.boundaryOf flowId timestamp m =
      trackBoundary s.pendingRequests (flowId, stream) (some "response") timestamp.monoNanos := by
    rw [boundaryOf, hstream, hm]
  obtain ⟨question, hhead⟩ := hbalanced.head_waiting hrequest hresponse
  refine ⟨?_, h.matched.answer hresponse hhead ?_⟩
  · rw [Stream.waiting_answer hrequest hresponse, map_tail, ← h.queue]
    show (s.boundaryOf flowId timestamp m).1.queue (flowId, stream) = _
    rw [htrack]
    exact trackBoundary_response.1
  · show (s.boundaryOf flowId timestamp m).2 = some (timestamp.monoNanos - question.time)
    rw [htrack, trackBoundary_response.2, h.queue, head?_map, hhead]
    rfl

theorem storeMessage (h : InStep flowId stream s log) (timestamp : TimestampPair)
    (m : DecodedMessage)
    (hbalanced : Balanced (bounds stream "request") (bounds stream "response")
      (log ++ [s.logged flowId timestamp m])) :
    InStep flowId stream (s.storeMessage flowId timestamp m)
      (log ++ [s.logged flowId timestamp m]) := by
  by_cases hstream : streamOf m = stream
  · by_cases hrequest : findHeader m.headers "lens-boundary" = some "request"
    · exact h.request hbalanced.of_append hstream hrequest
    · by_cases hresponse : findHeader m.headers "lens-boundary" = some "response"
      · exact h.response hbalanced hstream hresponse
      · refine h.other (by simp [bounds, IsBoundary, logged, hrequest])
          (by simp [bounds, IsBoundary, logged, hresponse]) ?_
        rw [boundaryOf, trackBoundary, if_neg hrequest, if_neg hresponse]
  · refine h.other (by simp [bounds, IsBoundary, logged, hstream])
      (by simp [bounds, IsBoundary, logged, hstream]) ?_
    exact trackBoundary_of_ne fun heq => hstream (congrArg Prod.snd heq).symm

theorem stores {new : List Logged} (hstores : Stores flowId timestamp s new t)
    (h : InStep flowId stream s log)
    (hbalanced : Balanced (bounds stream "request") (bounds stream "response") (log ++ new)) :
    InStep flowId stream t (log ++ new) := by
  induction hstores generalizing log with
  | nil =>
    rw [append_nil]
    exact h
  | mark reason _ ih => exact ih (h.of_pending rfl) hbalanced
  | message m _ ih =>
    rw [append_cons] at hbalanced ⊢
    exact ih (h.storeMessage timestamp m hbalanced.of_append) hbalanced

end InStep

/-- Before its messages are stored, an event leaves the waiting requests of a flow that
stays. -/
theorem prepare_pending (hp : Hpack η) (h : ¬ s.Evicts event flowId) (stream : String) :
    (s.prepare hp event).1.pendingRequests (flowId, stream) =
      s.pendingRequests (flowId, stream) := by
  obtain ⟨own, timestamp, kind⟩ := event
  cases kind with
  | opened client upstream protocol =>
    have hstays : ¬ s.Leaves flowId := fun hl => h ⟨⟨client, upstream, protocol, rfl⟩, hl⟩
    have hevict : s.evict.pendingRequests (flowId, stream) = s.pendingRequests (flowId, stream) :=
      congrFun (congrArg View.pending (view_evict hstays)) stream
    rw [← hevict]
    show (s.openFlow hp own timestamp client upstream protocol).pendingRequests _ = _
    rw [openFlow_eq]
    cases protocol.bind (ProtocolDecoder.forProtocol hp s.maxBody) with
    | none => rfl
    | some decoder => rfl
  | identified _ | protocolDetected _ | transferred _ _ => rfl
  | data _ _ | closed | failed _ =>
    simp only [prepare]
    cases s.decoders own with
    | none => rfl
    | some decoder => rfl

theorem conclude_of_not_finishes (h : ¬ Finishes event) : s.conclude event = s := by
  obtain ⟨own, timestamp, kind⟩ := event
  cases kind with
  | closed => exact absurd (.inl rfl) h
  | failed reason => exact absurd (.inr ⟨reason, rfl⟩) h
  | opened _ _ _ | identified _ | protocolDetected _ | transferred _ _ | data _ _ => rfl

/-- An event of the flow, up to its end. -/
theorem InStep.batches (hp : Hpack η) {stream : String} (h : InStep event.flowId stream s log)
    (hstays : ¬ s.Evicts event event.flowId)
    (hbalanced : Balanced (bounds stream "request") (bounds stream "response")
      (log ++ s.eventLog hp event)) : InStep event.flowId stream
      ((s.prepare hp event).2.foldl (fun s b => s.storeBatch event.flowId event.timestamp b)
        (s.prepare hp event).1)
      (log ++ s.eventLog hp event) :=
  stores (stores_batches ..) (h.of_pending (prepare_pending hp hstays stream)) hbalanced

/-- No event of the flow comes after its end. -/
def EndsOnce (flowId : FlowId) (events : List ObservationEvent) : Prop :=
  events.Pairwise fun event later => event.flowId = flowId → Finishes event → later.flowId ≠ flowId

/-- The responses of a stream are timed along a whole run. -/
theorem InStep.run (hp : Hpack η) {flowId : FlowId} {stream : String} :
    ∀ (events : List ObservationEvent) {s : StoreActor η} {log : List Logged},
      InStep flowId stream s log → Stays hp flowId s events → EndsOnce flowId events →
      Balanced (bounds stream "request") (bounds stream "response")
        (log ++ flowLog hp flowId s events) →
      Matched (bounds stream "request") (bounds stream "response") Timed
        (log ++ flowLog hp flowId s events)
  | [], s, log, h, _, _, _ => by
    rw [flowLog, append_nil]
    exact h.matched
  | event :: events, s, log, h, hstays, hends, hbalanced => by
    obtain ⟨hlater, hends⟩ := pairwise_cons.mp hends
    by_cases hown : event.flowId = flowId
    · obtain rfl := hown
      rw [flowLog, if_pos rfl, ← append_assoc] at hbalanced ⊢
      have hbatches := h.batches hp hstays.1 hbalanced.of_append
      by_cases hfinishes : Finishes event
      · -- The queue is dropped, but the log does not grow any more.
        rw [flowLog_of_ne hp _ fun e he => hlater e he rfl hfinishes, append_nil]
        exact hbatches.matched
      · have happly :
            InStep event.flowId stream (s.apply hp event) (log ++ s.eventLog hp event) := by
          rw [apply_eq, conclude_of_not_finishes hfinishes]
          exact hbatches
        exact InStep.run hp events happly hstays.2 hends hbalanced
    · rw [flowLog, if_neg hown, nil_append] at hbalanced ⊢
      have hview := congrFun (congrArg View.pending (view_apply hp (Ne.symm hown) hstays.1)) stream
      exact InStep.run hp events (h.of_pending hview) hstays.2 hends hbalanced

/-! ## The messages of the flow -/

theorem Quiets.messagesOf (h : Quiets flowId s t) : t.messagesOf flowId = s.messagesOf flowId := by
  induction h with
  | refl => rfl
  | @tail s' _ _ hquiet ih =>
    rw [← ih]
    cases hquiet with
    | update hf =>
      have hid := fun flow => congrArg EventEnvelope.flowId (hf.envelope flow)
      rw [StoreActor.messagesOf, findFlow_updateFlow flowId hid, StoreActor.messagesOf,
        Option.map_map]
      exact congrArg (Option.map · _) (funext hf.messages)
    | decoder decoder => rfl
    | drop => rfl

theorem Stores.messagesOf {timestamp : TimestampPair} (h : Stores flowId timestamp s log t) :
    t.messagesOf flowId = (s.messagesOf flowId).map (· ++ log.map Logged.record) := by
  induction h with
  | nil => simp
  | @mark s _ _ reason _ ih =>
    rw [ih]
    exact congrArg _ (Quiets.messagesOf (.single (.update s (mild_decoderError reason))))
  | message m _ ih =>
    rw [ih, messagesOf_storeMessage, Option.map_map]
    congr 1
    funext kept
    exact append_assoc ..

/-- An event of a retained flow adds to its messages what it adds to its log. -/
theorem messagesOf_apply (hp : Hpack η) {kept : List MessageRecord}
    (hkept : s.messagesOf event.flowId = some kept) (hstays : ¬ s.Evicts event event.flowId) :
    (s.apply hp event).messagesOf event.flowId =
      some (kept ++ (s.eventLog hp event).map Logged.record) := by
  have hprepare : (s.prepare hp event).1.messagesOf event.flowId = some kept := by
    by_cases hopens : Opens event
    · obtain ⟨opened, hentered⟩ := hopens.entered hp s
      obtain ⟨flow, hflow, hmessages⟩ := Option.map_eq_some_iff.mp hkept
      have hevict : findFlow s.evict.flows event.flowId = some flow :=
        (congrArg View.flow (view_evict fun hleaves => hstays ⟨hopens, hleaves⟩)).trans hflow
      rw [hentered.prepare, hentered.quiets.messagesOf, messagesOf, enter, findFlow, find?_append,
        show s.evict.flows.find? _ = some flow from hevict]
      exact congrArg some hmessages
    · exact (s.prepare_quiets hp hopens).messagesOf.trans hkept
  rw [apply_eq, (conclude_quiets _ event).messagesOf, (stores_batches ..).messagesOf, hprepare]
  rfl

/-- A retained flow keeps what the store makes of its messages. -/
theorem messagesOf_run (hp : Hpack η) {flowId : FlowId} :
    ∀ (events : List ObservationEvent) {s : StoreActor η} {kept : List MessageRecord},
      s.messagesOf flowId = some kept → Stays hp flowId s events →
      (s.run hp events).messagesOf flowId =
        some (kept ++ (flowLog hp flowId s events).map Logged.record)
  | [], s, kept, hkept, _ => by
    rw [flowLog, map_nil, append_nil]
    exact hkept
  | event :: events, s, kept, hkept, hstays => by
    rw [run_cons, flowLog, map_append, ← append_assoc]
    by_cases hown : event.flowId = flowId
    · obtain rfl := hown
      rw [if_pos rfl]
      exact messagesOf_run hp events (messagesOf_apply hp hkept hstays.1) hstays.2
    · have hview : findFlow (s.apply hp event).flows flowId = findFlow s.flows flowId :=
        congrArg View.flow (view_apply hp (Ne.symm hown) hstays.1)
      have hkept' : (s.apply hp event).messagesOf flowId = some kept := by
        rw [messagesOf, hview]
        exact hkept
      rw [if_neg hown, map_nil, append_nil]
      exact messagesOf_run hp events hkept' hstays.2

theorem findFlow_eq_none (h : some flowId ∉ s.ids) : findFlow s.flows flowId = none :=
  find?_eq_none.mpr fun flow hflow hid =>
    h (mem_map.mpr ⟨flow, hflow, by simpa using hid⟩)

/-- A flow is opened without messages. -/
theorem messagesOf_opened (hp : Hpack η) (hopens : Opens event) (hids : some event.flowId ∉ s.ids) :
    (s.apply hp event).messagesOf event.flowId = some [] ∧ s.eventLog hp event = [] := by
  obtain ⟨opened, hentered⟩ := hopens.entered hp s
  have hgone : some event.flowId ∉ s.evict.ids :=
    fun hmem => hids ((s.evict_sublist.map _).subset hmem)
  constructor
  · rw [hentered.quiets.messagesOf, messagesOf, enter, findFlow, find?_append,
      show s.evict.flows.find? _ = none from findFlow_eq_none hgone]
    simp [hentered.id, hentered.messages]
  · rw [eventLog, hentered.prepare]
    rfl

/-- A flow that is not opened does not come in. -/
theorem not_mem_ids_apply (hp : Hpack η) (hids : some flowId ∉ s.ids)
    (h : flowId ∉ openedIds [event]) : some flowId ∉ (s.apply hp event).ids := by
  intro hmem
  have hreach := (reach_cons hp s event []).subset (mem_append_left _ hmem)
  obtain hold | hnew := mem_append.mp hreach
  · exact hids hold
  · obtain ⟨id, hid, heq⟩ := mem_map.mp hnew
    exact h (Option.some.inj heq ▸ hid)

/-- The log of a flow is what was made of its messages before it was opened, and then its
messages. -/
theorem exists_opening (hp : Hpack η) {flowId : FlowId} {flow : StoredFlow} :
    ∀ (events : List ObservationEvent) {s : StoreActor η}, some flowId ∉ s.ids →
      Stays hp flowId s events → findFlow (s.run hp events).flows flowId = some flow →
      ∃ before after, events = before ++ after ∧ flowId ∉ openedIds before ∧
        (flowLog hp flowId s events).map Logged.record =
          (flowLog hp flowId s before).map Logged.record ++ flow.messages
  | [], s, hids, _, hflow => by
    rw [show findFlow (s.run hp []).flows flowId = none from findFlow_eq_none hids] at hflow
    cases hflow
  | event :: events, s, hids, hstays, hflow => by
    by_cases hopened : flowId ∈ openedIds [event]
    · have hopens : Opens event := by
        by_contra hnot
        rw [openedIds_of_not hnot] at hopened
        exact not_mem_nil hopened
      obtain rfl : flowId = event.flowId := by
        rw [openedIds_of_opens hopens] at hopened
        exact mem_singleton.mp hopened
      obtain ⟨hkept, hlog⟩ := messagesOf_opened hp hopens hids
      have hrun := messagesOf_run hp events hkept hstays.2
      rw [← run_cons, messagesOf, hflow] at hrun
      refine ⟨[], event :: events, rfl, not_mem_nil, ?_⟩
      rw [flowLog, flowLog, if_pos rfl, hlog]
      exact (Option.some.inj hrun).symm
    · obtain ⟨before, after, rfl, hbefore, hlog⟩ :=
        exists_opening hp events (not_mem_ids_apply hp hids hopened) hstays.2 hflow
      refine ⟨event :: before, after, rfl, ?_, ?_⟩
      · rw [← singleton_append, openedIds_append, mem_append]
        exact fun h => h.elim hopened hbefore
      · rw [flowLog, flowLog, map_append, hlog, map_append, append_assoc]

end StoreActor

open StoreActor (openedIds flowLog Stays EndsOnce)

/-- A response of a stream is timed from the request of the stream that has its number.
The log of a flow ends with the messages that are stored for it. -/
theorem latencies_matched {η : Type} (hp : Hpack η) (maxFlows : Nat) (runId : RunId) (maxBody : Nat)
    (reveal : Bool) (host : Option (Bytes → PluginRunReport)) {events : List ObservationEvent}
    {flowId : FlowId} {flow : StoredFlow} (stream : String)
    (hstays : Stays hp flowId (.fresh maxFlows runId maxBody reveal host) events)
    (hflow : findFlow ((StoreActor.fresh maxFlows runId maxBody reveal host : StoreActor η).run
      hp events).flows flowId = some flow)
    (hends : EndsOnce flowId events)
    (horder : Balanced (bounds stream "request") (bounds stream "response")
      (flowLog hp flowId (.fresh maxFlows runId maxBody reveal host) events)) :
    Matched (bounds stream "request") (bounds stream "response") Timed
        (flowLog hp flowId (.fresh maxFlows runId maxBody reveal host) events) ∧
      ∃ before after, events = before ++ after ∧ flowId ∉ openedIds before ∧
        (flowLog hp flowId (.fresh maxFlows runId maxBody reveal host) events).map Logged.record =
          (flowLog hp flowId (.fresh maxFlows runId maxBody reveal host) before).map
            Logged.record ++ flow.messages := by
  have hfresh : StoreActor.InStep flowId stream
      (StoreActor.fresh maxFlows runId maxBody reveal host : StoreActor η) [] :=
    ⟨rfl, Stream.matched_nil⟩
  exact ⟨hfresh.run hp events hstays hends horder,
    StoreActor.exists_opening hp events not_mem_nil hstays hflow⟩

/-- Two commands in one read, and a reply in a read of its own to each. -/
def pipelined : List ObservationEvent :=
  [redisOpened, twoCommands, ⟨1, ⟨7, 7⟩, .data .serverToClient (Utf8.asBytes "+OK\r\n")⟩,
    ⟨1, ⟨9, 9⟩, .data .serverToClient (Utf8.asBytes "+OK\r\n")⟩, ⟨1, ⟨9, 9⟩, .closed⟩]

theorem pipelined_matched :
    ((flowLog idleHpack 1 (.fresh 4 0 64 false none) pipelined).map fun entry =>
        entry.record.latencyNanos) = [none, none, some 7, some 9] ∧
      Matched (bounds "" "request") (bounds "" "response") Timed
        (flowLog idleHpack 1 (.fresh 4 0 64 false none) pipelined) := by
  have hstays : Stays idleHpack 1 (.fresh 4 0 64 false none) pipelined :=
    StoreActor.stays_of_room idleHpack pipelined (by decide)
  have hends : EndsOnce 1 pipelined := by
    simp [EndsOnce, Finishes, pipelined, redisOpened, twoCommands]
  refine ⟨by decide +kernel,
    (latencies_matched idleHpack 4 0 64 false none "" hstays rfl hends ?_).1⟩
  exact Stream.balanced_of_take (by decide +kernel)

end Lens.Store
