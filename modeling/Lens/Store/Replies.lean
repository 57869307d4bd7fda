import Lens.Redis.Attributes
import Lens.Store.Latency

/-!
# Latencies of Redis replies

A server answers the commands of a flow in order, so the `k`-th reply should be given the
time since the `k`-th command (`Answers`).  The store gives a message with a boundary
the time since the oldest command that waits.  With one such message for each reply the
two are the same (`replies_iff`).
-/

namespace Lens.Store

open List
open Http2 (Hpack)
open Redis (RespValue RedisDecoder isReply isPush responseMessage Sendable Within heads sent
  sentBytes OneEach)
open Stream (Batch)

/-- The replies among some values have the times since the commands, in order.  `starts`
has the times of the commands that wait. -/
inductive Answers : List RespValue → List MessageRecord → List Nat → Prop where
  | nil (starts : List Nat) : Answers [] [] starts
  | reply {value : RespValue} {values : List RespValue} {record : MessageRecord}
      {records : List MessageRecord} {start : Nat} {starts : List Nat} :
      isReply value = true →
      record.latencyNanos = some (record.envelope.tsMonoNanos - start) →
      Answers values records starts →
        Answers (value :: values) (record :: records) (start :: starts)
  | other {value : RespValue} {values : List RespValue} {record : MessageRecord}
      {records : List MessageRecord} {starts : List Nat} :
      isReply value = false → Answers values records starts →
      Answers (value :: values) (record :: records) starts

theorem Answers.append {values values' : List RespValue} {records records' : List MessageRecord}
    {starts : List Nat} (h : Answers values records starts)
    (h' : Answers values' records' (starts.drop (values.countP isReply))) :
    Answers (values ++ values') (records ++ records') starts := by
  induction h with
  | nil starts => exact h'
  | reply hv hlat _ ih =>
    rw [countP_cons_of_pos hv, drop_succ_cons] at h'
    exact .reply hv hlat (ih h')
  | other hv _ ih =>
    rw [countP_cons_of_neg (by simp [hv])] at h'
    exact .other hv (ih h')

section Flow

variable {η : Type}

/-- A Redis flow between two replies, with the times of the commands that wait. -/
structure Waiting (s : StoreActor η) (flowId : FlowId) (maxBody : Nat)
    (starts : List Nat) : Prop where
  flow : (findFlow s.flows flowId).isSome
  decoder : ∃ client, s.decoders flowId = some (.redis ⟨client, [], maxBody⟩)
  queue : s.pendingRequests.queue (flowId, "") = starts

/-- An observation of bytes from the server. -/
def fromServer (flowId : FlowId) (o : TimestampPair × Bytes) : ObservationEvent :=
  ⟨flowId, o.1, .data .serverToClient o.2⟩

/-- The store gives the replies of a stream the times since the commands, however the
stream is observed. -/
def CommandLatencies (hp : Hpack η) (maxBody : Nat) (stream : List RespValue) : Prop :=
  ∀ (s : StoreActor η) (flowId : FlowId) (starts : List Nat), Waiting s flowId maxBody starts →
    stream.countP isReply ≤ starts.length →
    ∀ os : List (TimestampPair × Bytes), (os.map Prod.snd).flatten = sentBytes stream →
      ∃ old new, s.messagesOf flowId = some old ∧
        (s.run hp (os.map (fromServer flowId))).messagesOf flowId = some (old ++ new) ∧
        Answers stream new starts

/-! ## The marks of a reply -/

/-- The mark of a message: pushes end no wait. -/
def mark (value : RespValue) : Option String := if isPush value then none else some "response"

theorem responseMessage_marks (value : RespValue) (maxBody : Nat) :
    Postgres.Marks (mark value) (responseMessage value maxBody) := by
  refine ⟨?_, ?_⟩
  · rw [Redis.findHeader_responseMessage value maxBody (by decide), mark]
    cases isPush value <;> rfl
  · rw [Redis.findHeader_responseMessage value maxBody (by decide)]
    cases isPush value <;> rfl

variable {s : StoreActor η} {flowId : FlowId} {starts : List Nat}

/-- A flow whose commands wait since some times. -/
structure Queued (s : StoreActor η) (flowId : FlowId) (starts : List Nat) : Prop where
  flow : (findFlow s.flows flowId).isSome
  queue : s.pendingRequests.queue (flowId, "") = starts

theorem Queued.messages (h : Queued s flowId starts) : ∃ old, s.messagesOf flowId = some old := by
  obtain ⟨flow, hfind⟩ := Option.isSome_iff_exists.mp h.flow
  exact ⟨flow.messages, by rw [StoreActor.messagesOf, hfind]; rfl⟩

/-- One message takes the oldest command if it has a boundary. -/
theorem Queued.storeMessage (h : Queued s flowId starts) (timestamp : TimestampPair)
    {m : DecodedMessage} {value : RespValue} (hm : Postgres.Marks (mark value) m) :
    Queued (s.storeMessage flowId timestamp m) flowId
        (if isPush value then starts else starts.tail) ∧
      (s.recordWith s.reveal flowId timestamp m).latencyNanos =
        if isPush value then none else starts.head?.map (timestamp.monoNanos - ·) := by
  have hflow : (findFlow (s.storeMessage flowId timestamp m).flows flowId).isSome := by
    rw [StoreActor.storeMessage,
      findFlow_updateFlow flowId (s.keepMessage_flowId flowId timestamp m), Option.isSome_map]
    exact h.flow
  have hlat : (s.recordWith s.reveal flowId timestamp m).latencyNanos =
      (s.boundaryOf flowId timestamp m).2 := rfl
  refine ⟨⟨hflow, ?_⟩, ?_⟩
  · rw [StoreActor.storeMessage, boundaryOf_marks hm, mark]
    cases isPush value with
    | true => exact h.queue
    | false => exact trackBoundary_response.1.trans (congrArg List.tail h.queue)
  · rw [hlat, boundaryOf_marks hm, mark]
    cases isPush value with
    | true => exact congrArg Prod.snd trackBoundary_none
    | false => exact trackBoundary_response.2.trans (by rw [h.queue]; rfl)

/-- A batch of values. -/
theorem Queued.store (timestamp : TimestampPair) (maxBody : Nat) {values : List RespValue}
    (hnone : ∀ value ∈ values, Redis.isAttr value = false) :
    ∀ {s : StoreActor η} {starts : List Nat}, Queued s flowId starts →
    values.countP isReply ≤ starts.length →
    ∃ old new, s.messagesOf flowId = some old ∧
      (s.storeBatch flowId timestamp
          ⟨values.map (responseMessage · maxBody), none⟩).messagesOf flowId =
        some (old ++ new) ∧
      Answers values new starts ∧
      Queued (s.storeBatch flowId timestamp ⟨values.map (responseMessage · maxBody), none⟩) flowId
        (starts.drop (values.countP isReply)) := by
  induction values with
  | nil =>
    intro s starts h _
    obtain ⟨old, hold⟩ := h.messages
    exact ⟨old, [], hold, by rw [append_nil]; exact hold, .nil starts, h⟩
  | cons value values ih =>
    intro s starts h hlen
    obtain ⟨hvalue, hvalues⟩ := forall_mem_cons.mp hnone
    obtain ⟨old, hold⟩ := h.messages
    obtain ⟨hqueued, hlat⟩ := h.storeMessage timestamp (responseMessage_marks value maxBody)
    have hstored := s.messagesOf_storeMessage flowId timestamp (responseMessage value maxBody)
    rw [hold, Option.map_some] at hstored
    cases hp : isPush value with
    | true =>
      have hreply : isReply value = false := by simp [isReply, hp]
      rw [countP_cons_of_neg (by simp [hreply])] at hlen ⊢
      rw [hp, if_pos rfl] at hqueued
      obtain ⟨old', new, hold', hnew, hanswers, hlast⟩ := ih hvalues hqueued hlen
      obtain rfl := Option.some.inj (hold'.symm.trans hstored)
      refine ⟨old, s.recordWith s.reveal flowId timestamp (responseMessage value maxBody) :: new,
        hold, ?_, .other hreply hanswers, hlast⟩
      rw [append_cons]
      exact hnew
    | false =>
      have hreply : isReply value = true := by simp [isReply, hp, hvalue]
      rw [countP_cons_of_pos hreply] at hlen ⊢
      cases starts with
      | nil => cases hlen
      | cons start starts =>
        rw [hp, if_neg (by simp)] at hqueued hlat
        obtain ⟨old', new, hold', hnew, hanswers, hlast⟩ :=
          ih hvalues hqueued (Nat.le_of_succ_le_succ hlen)
        obtain rfl := Option.some.inj (hold'.symm.trans hstored)
        refine ⟨old, s.recordWith s.reveal flowId timestamp (responseMessage value maxBody) :: new,
          hold, ?_, .reply hreply hlat hanswers, hlast⟩
        rw [append_cons]
        exact hnew

/-- Observations of a stream without attributes. -/
theorem commandLatencies_of_messages (hp : Hpack η) {maxBody : Nat} :
    ∀ (os : List (TimestampPair × Bytes)) {values : List RespValue} {s : StoreActor η}
      {starts : List Nat} {dec : RedisDecoder}, (∀ value ∈ values, Redis.isAttr value = false) →
      Queued s flowId starts → values.countP isReply ≤ starts.length →
      s.decoders flowId = some (.redis dec) →
      (∀ batch ∈ (dec.pushAll .serverToClient (os.map Prod.snd)).2, batch.desynchronized = none) →
      (dec.pushAll .serverToClient (os.map Prod.snd)).2.flatMap Batch.messages =
        values.map (responseMessage · maxBody) →
      ∃ old new, s.messagesOf flowId = some old ∧
        (s.run hp (os.map (fromServer flowId))).messagesOf flowId = some (old ++ new) ∧
        Answers values new starts
  | [], values, s, starts, dec, _, h, _, _, _, hmessages => by
    obtain ⟨old, hold⟩ := h.messages
    obtain rfl : values = [] := map_eq_nil_iff.mp hmessages.symm
    exact ⟨old, [], hold, by rw [append_nil]; exact hold, .nil starts⟩
  | o :: os, values, s, starts, dec, hnone, h, hlen, hdec, hsilent, hmessages => by
    rw [map_cons, RedisDecoder.pushAll] at hsilent hmessages
    obtain ⟨hfirst, hsilent⟩ := forall_mem_cons.mp hsilent
    rw [flatMap_cons] at hmessages
    -- The values of this observation and those of the later ones.
    obtain ⟨now, later, rfl, hnow, hlater⟩ := map_eq_append_iff.mp hmessages.symm
    obtain ⟨hnow', hlater'⟩ := forall_mem_append.mp hnone
    rw [countP_append] at hlen
    let s' : StoreActor η := { s with
      decoders := setEntry s.decoders flowId (some (.redis (dec.push .serverToClient o.2).1)) }
    have hbatch : (dec.push .serverToClient o.2).2 =
        ⟨now.map (responseMessage · maxBody), none⟩ := by
      rw [hnow, ← hfirst]
    have happly : s.apply hp (fromServer flowId o) =
        s'.storeBatch flowId o.1 ⟨now.map (responseMessage · maxBody), none⟩ := by
      rw [← hbatch]
      simp only [StoreActor.apply, fromServer, hdec, ProtocolDecoder.push]
      rfl
    have hqueued : Queued s' flowId starts := ⟨h.flow, h.queue⟩
    obtain ⟨old, new, hold, hnew, hanswers, hnext⟩ :=
      hqueued.store o.1 maxBody hnow' (Nat.le_trans (Nat.le_add_right ..) hlen)
    have hdec' : (s.apply hp (fromServer flowId o)).decoders flowId =
        some (.redis (dec.push .serverToClient o.2).1) := by
      rw [happly, StoreActor.storeBatch_decoders]
      exact setEntry_self ..
    rw [← happly] at hnew hnext
    obtain ⟨old', new', hold', hnew', hanswers'⟩ := commandLatencies_of_messages hp os hlater' hnext
      (by rw [length_drop]; omega) hdec' hsilent hlater.symm
    obtain rfl := Option.some.inj (hold'.symm.trans hnew)
    refine ⟨old, new ++ new', hold, ?_, hanswers.append hanswers'⟩
    rw [← append_assoc]
    exact hnew'

theorem commandLatencies_of_within (hp : Hpack η) {maxBody : Nat} {stream : List RespValue}
    (hlen : (sentBytes stream).length < 2 ^ 63)
    (h : ∀ value ∈ stream, heads .attr (sent value) = 0 ∧ Within maxBody value) :
    CommandLatencies hp maxBody stream := by
  intro s flowId starts hwaiting hcount os hos
  obtain ⟨client, hdec⟩ := hwaiting.decoder
  obtain ⟨-, hmessages, hsilent⟩ :=
    RedisDecoder.pushAll_within ⟨client, [], maxBody⟩ rfl hlen h hos
  exact commandLatencies_of_messages hp os (fun value hv => Redis.isAttr_of_heads (h value hv).1)
    ⟨hwaiting.flow, hwaiting.queue⟩ hcount hdec hsilent hmessages

end Flow

/-- For the replies, pushes and attributes of a server, every reply yields one message with
a boundary and the time since its own command just when there is no attribute and all
values are within the limits of the decoder. -/
theorem replies_iff {maxBody : Nat} {stream : List RespValue}
    (hsend : ∀ value ∈ stream, Sendable value) (hlen : (sentBytes stream).length < 2 ^ 63) :
    (OneEach maxBody stream ∧ ∀ (η : Type) (hp : Hpack η), CommandLatencies hp maxBody stream) ↔
      ∀ value ∈ stream, heads .attr (sent value) = 0 ∧ Within maxBody value := by
  rw [← Redis.oneEach_iff_within hsend hlen, and_iff_left_iff_imp]
  intro h η hp
  exact commandLatencies_of_within hp hlen ((Redis.oneEach_iff_within hsend hlen).mp h)

/-! ## Three streams -/

/-- A status, a push and an array. -/
def plainStream : List RespValue :=
  [.simple [0x4f, 0x4b], .push [.bulk (some [0x6d]), .integer [0x31]],
    .array (some [.bulk none, .map [.null, .boolean true]])]

theorem plainStream_sendable : ∀ value ∈ plainStream, Sendable value := by
  have h : ∀ value ∈ plainStream, (∀ f ∈ sent value, f.Sound) ∧
      ∀ f ∈ (sent value).tail, f.isHead .push = false := by decide
  exact fun value hv => ⟨(h value hv).1, (h value hv).2⟩

theorem plainStream_replies :
    OneEach 64 plainStream ∧ ∀ (η : Type) (hp : Hpack η), CommandLatencies hp 64 plainStream := by
  have hshort : (sentBytes plainStream).length < 64 := by decide
  refine (replies_iff plainStream_sendable (by omega)).mpr ?_
  have h : ∀ value ∈ plainStream, heads .attr (sent value) = 0 ∧
      (∀ f ∈ Redis.frames List.length value, f.Legal) ∧ Redis.levels value ≤ Redis.maxNesting ∧
      (Redis.encode value).length ≤ 64 := by decide
  have hbudget : 64 ≤ saturatingAdd 64 Redis.frameOverheadBudget + 1 := by decide
  intro value hv
  obtain ⟨hnone, hlegal, hlevels, hsize⟩ := h value hv
  exact ⟨hnone, hlegal, hlevels, Nat.le_trans hsize hbudget⟩

/-- An attribute of one pair. -/
def popularity : RespValue := .attr [.simple [0x6b], .double [0x37]]

/-- A reply with an attribute before it. -/
def annotatedReply : List RespValue := [popularity, .bulk (some [0x76])]

/-- A reply of two items with an attribute before the first. -/
def annotatedItem : List RespValue := [.array (some [popularity, .integer [0x31], .integer [0x32]])]

/-- A stream of one reply that yields two messages with a boundary, so that it answers two
commands. -/
structure AnsweredTwice (stream : List RespValue) : Prop where
  sendable : ∀ value ∈ stream, Sendable value
  one : stream.countP isReply = 1
  two : ((RedisDecoder.new 64).push .serverToClient (sentBytes stream)).2.messages.countP
    Redis.isBoundary = 2
  wrong : ¬ (OneEach 64 stream ∧ ∀ (η : Type) (hp : Hpack η), CommandLatencies hp 64 stream)

theorem answeredTwice_of_attr {stream : List RespValue} (hsend : ∀ value ∈ stream, Sendable value)
    (hone : stream.countP isReply = 1)
    (htwo : ((RedisDecoder.new 64).push .serverToClient (sentBytes stream)).2.messages.countP
      Redis.isBoundary = 2)
    (hshort : (sentBytes stream).length < 64)
    (hattr : ∃ value ∈ stream, heads .attr (sent value) ≠ 0) :
    AnsweredTwice stream := by
  refine ⟨hsend, hone, htwo, fun h => ?_⟩
  obtain ⟨value, hv, hne⟩ := hattr
  exact hne ((Redis.oneEach_iff_within hsend (by omega)).mp h.1 value hv).1

/-- A reply with an attribute, before it or before an item, answers two commands. -/
theorem annotated_twice : AnsweredTwice annotatedReply ∧ AnsweredTwice annotatedItem := by
  have hsend : ∀ stream ∈ [annotatedReply, annotatedItem], ∀ value ∈ stream,
      (∀ f ∈ sent value, f.Sound) ∧ ∀ f ∈ (sent value).tail, f.isHead .push = false := by decide
  have hsendable : ∀ stream ∈ [annotatedReply, annotatedItem], ∀ value ∈ stream, Sendable value :=
    fun stream hs value hv => ⟨(hsend stream hs value hv).1, (hsend stream hs value hv).2⟩
  constructor
  · exact answeredTwice_of_attr (hsendable _ (mem_cons_self ..)) (by decide)
      (by decide +kernel) (by decide) (by decide)
  · exact answeredTwice_of_attr (hsendable _ (mem_cons_of_mem _ (mem_cons_self ..)))
      (by decide) (by decide +kernel) (by decide) (by decide)

end Lens.Store
