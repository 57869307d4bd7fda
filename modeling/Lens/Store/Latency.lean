import Lens.Postgres.Conversation
import Lens.Postgres.Interleaving
import Lens.Store.Query

/-!
# Latencies of PostgreSQL messages

The store keeps the times of the requests of a flow in a queue.  A response ends the
oldest wait, and its latency is the time since then.  A conversation reaches the store
as observations of any size (`Sightings`).  While it does, the queue holds the times of
the messages that are unanswered in its `tally` (`Tracks`), so the latencies are those of
the messages' own requests exactly when the conversation is `Paired`
(`ownLatencies_iff`).
-/

namespace Lens.Store

open List
open Http2 (Hpack)
open Postgres (Item Frontend Backend Frame Tally tally Paired Marks PostgresDecoder maxFrameBytes)

/-! ## The queue -/

/-- The times of the waiting requests of a flow and stream. -/
def PendingRequests.queue (pending : PendingRequests) (key : FlowId × String) : List Nat :=
  (pending key).getD []

section Queue

variable {pending : PendingRequests} {key : FlowId × String} {now : Nat}

theorem trackBoundary_request :
    (trackBoundary pending key (some "request") now).1.queue key = pending.queue key ++ [now] ∧
      (trackBoundary pending key (some "request") now).2 = none := by
  simp [trackBoundary, PendingRequests.queue]

theorem trackBoundary_none : trackBoundary pending key none now = (pending, none) := by
  simp [trackBoundary]

/-- A response takes the oldest request off the queue. -/
theorem trackBoundary_response :
    (trackBoundary pending key (some "response") now).1.queue key = (pending.queue key).tail ∧
      (trackBoundary pending key (some "response") now).2 =
        (pending.queue key).head?.map (now - ·) := by
  have hne : ¬ some "response" = some "request" := by decide
  rw [trackBoundary, if_neg hne, if_pos rfl]
  match hp : pending key with
  | none => simp [PendingRequests.queue, hp]
  | some [] => simp [PendingRequests.queue, hp]
  | some (started :: rest) => simp [PendingRequests.queue, hp]

end Queue

/-! ## A conversation with its times -/

/-- The messages of the client with their times. -/
def sentOf (timed : List (Item × Nat)) : List (Frontend × Nat) :=
  timed.filterMap fun p => match p with
    | (.sent f, t) => some (f, t)
    | (.reply _ _, _) => none

@[simp] theorem sentOf_append_sent (pre : List (Item × Nat)) (f : Frontend) (now : Nat) :
    sentOf (pre ++ [(.sent f, now)]) = sentOf pre ++ [(f, now)] := by
  simp [sentOf]

@[simp] theorem sentOf_append_reply (pre : List (Item × Nat)) (f : Backend) (cause : Option Nat)
    (now : Nat) : sentOf (pre ++ [(.reply f cause, now)]) = sentOf pre := by
  simp [sentOf]

theorem length_sentOf (pre : List (Item × Nat)) :
    (sentOf pre).length = (tally (pre.map Prod.fst)).sent := by
  induction pre using List.reverseRecOn with
  | nil => rfl
  | append_singleton pre p ih =>
    obtain ⟨it, now⟩ := p
    rw [map_append, map_cons, map_nil, Postgres.tally_append_singleton]
    cases it with
    | sent f => rw [sentOf_append_sent, length_append, ih]; rfl
    | reply f cause => rw [sentOf_append_reply, ih]; rfl

/-- The `i`-th message of the client asked for something at a time. -/
def AskedAt (pre : List (Item × Nat)) (i t : Nat) : Prop :=
  ∃ f, (sentOf pre)[i]? = some (f, t) ∧ f.asks = true

theorem AskedAt.append {pre : List (Item × Nat)} {i t : Nat} (h : AskedAt pre i t)
    (p : Item × Nat) : AskedAt (pre ++ [p]) i t := by
  obtain ⟨f, hf, ha⟩ := h
  obtain ⟨it, now⟩ := p
  refine ⟨f, ?_, ha⟩
  cases it with
  | sent g =>
    obtain ⟨hlt, -⟩ := List.getElem?_eq_some_iff.mp hf
    rw [sentOf_append_sent, getElem?_append_left hlt]
    exact hf
  | reply g cause => rwa [sentOf_append_reply]

/-! ## Messages -/

section Messages

variable {η : Type} {s : StoreActor η} {flowId : FlowId} {timestamp : TimestampPair}
  {pre : List (Item × Nat)} {it : Item} {m : DecodedMessage}

/-- The queue of a flow holds the times of the messages that are unanswered. -/
structure Tracks (s : StoreActor η) (flowId : FlowId) (pre : List (Item × Nat)) : Prop where
  flow : (findFlow s.flows flowId).isSome
  queue : List.Forall₂ (AskedAt pre) (tally (pre.map Prod.fst)).unanswered
    (s.pendingRequests.queue (flowId, ""))

/-- The latency of the message that was stored last. -/
def lastLatency (s : StoreActor η) (flowId : FlowId) : Option Nat :=
  ((s.messagesOf flowId).bind List.getLast?).bind MessageRecord.latencyNanos

theorem boundaryOf_marks {boundary : Option String} (hm : Marks boundary m) :
    s.boundaryOf flowId timestamp m =
      trackBoundary s.pendingRequests (flowId, "") boundary timestamp.monoNanos := by
  rw [StoreActor.boundaryOf, streamOf, hm.stream, hm.boundary]
  rfl

theorem lastLatency_storeMessage (hflow : (findFlow s.flows flowId).isSome)
    (hm : Marks it.boundary m) : lastLatency (s.storeMessage flowId timestamp m) flowId =
      (trackBoundary s.pendingRequests (flowId, "") it.boundary timestamp.monoNanos).2 := by
  obtain ⟨flow, hfind⟩ := Option.isSome_iff_exists.mp hflow
  rw [lastLatency, StoreActor.messagesOf_storeMessage, StoreActor.messagesOf, hfind,
    ← boundaryOf_marks hm]
  simp [StoreActor.recordWith, messageRecord]

variable (timestamp) in
/-- A stored message of the conversation keeps the queue in step with it. -/
theorem Tracks.storeMessage (h : Tracks s flowId pre) (hm : Marks it.boundary m) :
    Tracks (s.storeMessage flowId timestamp m) flowId (pre ++ [(it, timestamp.monoNanos)]) where
  flow := by
    obtain ⟨flow, hfind⟩ := Option.isSome_iff_exists.mp h.flow
    rw [StoreActor.storeMessage,
      findFlow_updateFlow flowId (s.keepMessage_flowId flowId timestamp m), hfind]
    rfl
  queue := by
    have hkept := h.queue.imp fun _ _ ha => ha.append (it, timestamp.monoNanos)
    rw [StoreActor.storeMessage, boundaryOf_marks hm, map_append, map_cons, map_nil,
      Postgres.tally_append_singleton]
    cases it with
    | sent f =>
      by_cases hf : f.asks = true
      · rw [Item.boundary, if_pos hf, trackBoundary_request.1, Tally.next, if_pos hf]
        refine rel_append hkept (.cons ⟨f, ?_, hf⟩ .nil)
        rw [sentOf_append_sent, ← length_sentOf]
        exact getElem?_concat_length
      · rw [Item.boundary, if_neg hf, trackBoundary_none, Tally.next, if_neg hf]
        exact hkept
    | reply f cause =>
      by_cases hf : f.ends = true
      · rw [Item.boundary, if_pos hf, trackBoundary_response.1, Tally.next, if_pos hf]
        generalize (tally (pre.map Prod.fst)).unanswered = unanswered at hkept
        generalize s.pendingRequests.queue (flowId, "") = queue at hkept
        cases hkept with
        | nil => exact .nil
        | cons _ hrest => exact hrest
      · rw [Item.boundary, if_neg hf, trackBoundary_none, Tally.next, if_neg hf]
        exact hkept

end Messages

/-! ## Observations -/

/-- One observation of a flow: its time, its bytes and the frames that they complete. -/
structure Sighting where
  timestamp : TimestampPair
  direction : Direction
  bytes : Bytes
  items : List Item

namespace Sighting

def event (o : Sighting) (flowId : FlowId) : ObservationEvent :=
  ⟨flowId, o.timestamp, .data o.direction o.bytes⟩

/-- The frames with the time of the observation. -/
def timed (o : Sighting) : List (Item × Nat) := o.items.map (·, o.timestamp.monoNanos)

end Sighting

/-- The beginning of a frame that is not complete. -/
def IsPart (p : Bytes) : Prop := ∃ f : Frame, f.Fits ∧ p <+: f.bytes ∧ p ≠ f.bytes

/-- Observations cut the frames of each direction anywhere.  `left` is what has been
observed of the next frame of a direction. -/
inductive Sightings : (Direction → Bytes) → List Sighting → Prop where
  | nil (left : Direction → Bytes) : Sightings left []
  | cons {left : Direction → Bytes} {o : Sighting} {os : List Sighting} {part : Bytes} :
      (∀ it ∈ o.items, it.direction = o.direction) → IsPart part →
      left o.direction ++ o.bytes = o.items.flatMap (·.frame.bytes) ++ part →
      (left o.direction ++ o.bytes).length ≤ maxFrameBytes + 5 →
      Sightings (Function.update left o.direction part) os → Sightings left (o :: os)

section Observed

variable {η : Type} (hp : Hpack η) {us : List (StoreActor η)} {items : List Item}
  {left : Direction → Bytes} {t i : Nat} {S : Postgres.Session} {flowId : FlowId}
  {pre : List (Item × Nat)} {it : Item} {s : StoreActor η} {m : DecodedMessage}

/-- The states of the store after each message of a batch. -/
def afterEach (flowId : FlowId) (timestamp : TimestampPair) :
    StoreActor η → List DecodedMessage → List (StoreActor η)
  | _, [] => []
  | s, m :: ms =>
    let s' := s.storeMessage flowId timestamp m
    s' :: afterEach flowId timestamp s' ms

/-- The states of the store after each message of an observation. -/
def passed (s : StoreActor η) (flowId : FlowId) (o : Sighting) : List (StoreActor η) :=
  match s.decoders flowId with
  | none => []
  | some decoder =>
    let (decoder, batch) := decoder.push hp o.direction o.bytes
    let s := { s with decoders := setEntry s.decoders flowId (some decoder) }
    afterEach flowId o.timestamp s batch.messages

/-- The states of the store after each message of some observations. -/
def passedAll (flowId : FlowId) : StoreActor η → List Sighting → List (StoreActor η)
  | _, [] => []
  | s, o :: os => passed hp s flowId o ++ passedAll flowId (s.apply hp (o.event flowId)) os

/-- The message that a message answers. -/
def cause : Item → Option Nat
  | .sent _ => none
  | .reply _ cause => cause

/-- After a message the store has given it the latency of its own request, if any, and
has no waiting request when the server is ready after the last `Query` or `Sync`. -/
structure Right (flowId : FlowId) (pre : List (Item × Nat)) (it : Item) (now : Nat)
    (u : StoreActor η) : Prop where
  own : ∀ latency, lastLatency u flowId = some latency →
    ∃ i started, cause it = some i ∧ AskedAt pre i started ∧ latency = now - started
  ready : ∀ status k, it = .reply (.readyForQuery status) (some k) →
    (tally (pre.map Prod.fst)).last = some k → u.pendingRequests.queue (flowId, "") = []

/-- The store is right after each message of the conversation. -/
def OwnLatencies (s : StoreActor η) (flowId : FlowId) (os : List Sighting) : Prop :=
  ∀ pre it now post, os.flatMap Sighting.timed = pre ++ (it, now) :: post →
    ∃ u, (passedAll hp flowId s os)[pre.length]? = some u ∧ Right flowId pre it now u

/-- A flow between two frames, in the typed phase and without a waiting request. -/
structure Ready (s : StoreActor η) (flowId : FlowId) : Prop where
  flow : (findFlow s.flows flowId).isSome
  decoder : ∃ dec, s.decoders flowId = some (.postgres dec) ∧ dec.phase = .typed ∧
    ∀ d, dec.buffer d = []
  queue : s.pendingRequests.queue (flowId, "") = []

/-! ### The store along a conversation -/

/-- States after each message, each from a state whose queue is in step. -/
inductive Along (flowId : FlowId) :
    List (Item × Nat) → List (Item × Nat) → List (StoreActor η) → Prop where
  | nil (pre : List (Item × Nat)) : Along flowId pre [] []
  | cons {pre rest : List (Item × Nat)} {it : Item} {timestamp : TimestampPair}
      {s : StoreActor η} {us : List (StoreActor η)} {m : DecodedMessage} :
      Tracks s flowId pre → Marks it.boundary m →
      Along flowId (pre ++ [(it, timestamp.monoNanos)]) rest us →
      Along flowId pre ((it, timestamp.monoNanos) :: rest)
        (s.storeMessage flowId timestamp m :: us)

theorem Along.append {a b : List (Item × Nat)} {vs : List (StoreActor η)}
    (h : Along flowId pre a us) (h' : Along flowId (pre ++ a) b vs) :
    Along flowId pre (a ++ b) (us ++ vs) := by
  induction h with
  | nil pre => simpa using h'
  | cons ht hm _ ih =>
    refine .cons ht hm (ih ?_)
    rwa [append_assoc]

/-- The state after one of the messages. -/
theorem Along.at {start post : List (Item × Nat)} {now : Nat}
    (h : Along flowId start (pre ++ (it, now) :: post) us) :
    ∃ (s : StoreActor η) (timestamp : TimestampPair) (m : DecodedMessage),
      us[pre.length]? = some (s.storeMessage flowId timestamp m) ∧
        timestamp.monoNanos = now ∧ Tracks s flowId (start ++ pre) ∧ Marks it.boundary m := by
  induction pre generalizing start us with
  | nil =>
    cases h with
    | @cons _ _ _ timestamp s _ m ht hm _ =>
      refine ⟨s, timestamp, m, rfl, rfl, ?_, hm⟩
      rwa [append_nil]
  | cons p pre ih =>
    cases h with
    | cons _ _ hrest =>
      obtain ⟨s, timestamp, m, hu, hnow, ht, hm⟩ := ih hrest
      rw [append_assoc] at ht
      exact ⟨s, timestamp, m, hu, hnow, ht, hm⟩

/-- A batch of messages with the marks of some frames. -/
theorem along_afterEach (timestamp : TimestampPair) {ms : List DecodedMessage}
    (hms : List.Forall₂ (fun it m => Marks it.boundary m) items ms) (h : Tracks s flowId pre) :
    Along flowId pre (items.map (·, timestamp.monoNanos)) (afterEach flowId timestamp s ms) ∧
      Tracks (s.storeBatch flowId timestamp ⟨ms, none⟩) flowId
        (pre ++ items.map (·, timestamp.monoNanos)) := by
  induction hms generalizing s pre with
  | nil =>
    refine ⟨.nil pre, ?_⟩
    rw [map_nil, append_nil]
    exact h
  | @cons it m items ms hm _ ih =>
    obtain ⟨halong, hlast⟩ := ih (h.storeMessage timestamp hm)
    refine ⟨.cons h hm halong, ?_⟩
    rw [append_assoc] at hlast
    exact hlast

/-- A flow that is being observed: its decoder has the parts of frames in its buffers. -/
structure Watching (s : StoreActor η) (flowId : FlowId) (left : Direction → Bytes)
    (pre : List (Item × Nat)) : Prop extends Tracks s flowId pre where
  decoder : ∃ dec, s.decoders flowId = some (.postgres dec) ∧ dec.phase = .typed ∧
    ∀ d, dec.buffer d = left d

/-- Legible frames give messages with their marks. -/
theorem decode_all {d : Direction} (hd : ∀ it ∈ items, it.direction = d)
    (hleg : ∀ it ∈ items, it.Legible) (maxBody : Nat) :
    ∃ ms, List.Forall₂ (fun it m => Marks it.boundary m) items ms ∧
      List.Forall₂ (fun f m => f.Fits ∧ Postgres.decodeTyped d f.tag f.payload maxBody = .ok m)
        (items.map Item.frame) ms := by
  induction items with
  | nil => exact ⟨[], .nil, .nil⟩
  | cons it items ih =>
    obtain ⟨hit, hitems⟩ := forall_mem_cons.mp hleg
    obtain ⟨hdir, hdirs⟩ := forall_mem_cons.mp hd
    obtain ⟨ms, hmarks, hdec⟩ := ih hdirs hitems
    obtain ⟨m, hm, hmark⟩ := Item.decode_marks hit maxBody
    refine ⟨m :: ms, .cons hmark hmarks, .cons ⟨Item.fits hit, ?_⟩ hdec⟩
    rw [← hdir]
    exact hm

/-- One observation. -/
theorem Watching.sighting (h : Watching s flowId left pre) {o : Sighting} {part : Bytes}
    (hd : ∀ it ∈ o.items, it.direction = o.direction) (hleg : ∀ it ∈ o.items, it.Legible)
    (hpart : IsPart part)
    (hbytes : left o.direction ++ o.bytes = o.items.flatMap (·.frame.bytes) ++ part)
    (hlen : (left o.direction ++ o.bytes).length ≤ maxFrameBytes + 5) :
    Along flowId pre o.timed (passed hp s flowId o) ∧
      Watching (s.apply hp (o.event flowId)) flowId (Function.update left o.direction part)
        (pre ++ o.timed) := by
  obtain ⟨dec, hdec, hphase, hbuf⟩ := h.decoder
  obtain ⟨ms, hmarks, hframes⟩ := decode_all hd hleg dec.maxBody
  obtain ⟨g, hg, hpre, hne⟩ := hpart
  have hsettles := Postgres.lane_settles hframes hg hpre hne
  have hin : o.items.flatMap (·.frame.bytes) = (o.items.map Item.frame).flatMap Frame.bytes := by
    rw [flatMap_map]
  have hpush : dec.push o.direction o.bytes = (dec.setBuffer o.direction part, ⟨ms, none⟩) := by
    rw [Postgres.PostgresDecoder.push_typed hphase (by rwa [hbuf, ← length_append]), Stream.push,
      Stream.Feed.list_feed, hbuf, hbytes, hin, hsettles.drive Postgres.lane_decreases _
      (Nat.lt_succ_self _)]
    exact if_pos rfl
  let s' : StoreActor η := { s with
    decoders := setEntry s.decoders flowId (some (.postgres (dec.setBuffer o.direction part))) }
  have htracks : Tracks s' flowId pre := ⟨h.flow, h.queue⟩
  obtain ⟨halong, hlast⟩ := along_afterEach o.timestamp hmarks htracks
  have hpassed : passed hp s flowId o = afterEach flowId o.timestamp s' ms := by
    simp only [passed, hdec, ProtocolDecoder.push, hpush]
    rfl
  have happly : s.apply hp (o.event flowId) = s'.storeBatch flowId o.timestamp ⟨ms, none⟩ := by
    simp only [StoreActor.apply, Sighting.event, hdec, ProtocolDecoder.push, hpush]
    rfl
  refine ⟨hpassed ▸ halong, ?_⟩
  rw [happly]
  refine ⟨hlast, dec.setBuffer o.direction part, ?_, ?_, ?_⟩
  · rw [StoreActor.storeBatch_decoders]
    exact setEntry_self ..
  · rw [Postgres.PostgresDecoder.setBuffer_phase, hphase]
  · intro d
    by_cases hdd : d = o.direction
    · subst hdd
      rw [Postgres.PostgresDecoder.buffer_setBuffer_self, Function.update_self]
    · rw [Postgres.PostgresDecoder.buffer_setBuffer_of_ne _ _ (Ne.symm hdd),
        Function.update_of_ne hdd, hbuf]

/-- Observations of a whole conversation. -/
theorem Watching.along {os : List Sighting} (hos : Sightings left os)
    (hleg : ∀ it ∈ os.flatMap Sighting.items, it.Legible) :
    ∀ {s : StoreActor η} {pre : List (Item × Nat)}, Watching s flowId left pre →
      Along flowId pre (os.flatMap Sighting.timed) (passedAll hp flowId s os) := by
  induction hos with
  | nil left => exact fun _ => .nil _
  | cons hd hpart hbytes hlen _ ih =>
    intro s pre h
    rw [flatMap_cons, forall_mem_append] at hleg
    obtain ⟨halong, hnext⟩ := h.sighting hp hd hleg.1 hpart hbytes hlen
    exact halong.append (ih hleg.2 hnext)

theorem Ready.watching (h : Ready s flowId) : Watching s flowId (fun _ => []) [] where
  flow := h.flow
  queue := by
    rw [h.queue]
    exact .nil
  decoder := h.decoder

/-! ### Right and wrong latencies -/

/-- What the store does with a message of the conversation. -/
theorem lastLatency_eq (timestamp : TimestampPair) (ht : Tracks s flowId pre)
    (hm : Marks it.boundary m) : lastLatency (s.storeMessage flowId timestamp m) flowId =
      match it with
      | .sent _ => none
      | .reply f _ => if f.ends then
          (s.pendingRequests.queue (flowId, "")).head?.map (timestamp.monoNanos - ·) else none := by
  rw [lastLatency_storeMessage ht.flow hm]
  cases it with
  | sent f =>
    by_cases hf : f.asks = true
    · rw [Item.boundary, if_pos hf, trackBoundary_request.2]
    · rw [Item.boundary, if_neg hf, trackBoundary_none]
  | reply f cause =>
    by_cases hf : f.ends = true
    · simp only [Item.boundary, if_pos hf, trackBoundary_response.2]
    · simp only [Item.boundary, if_neg hf, trackBoundary_none]

/-- The request at the front of the queue is the oldest that is unanswered. -/
theorem Tracks.head {s : StoreActor η} {flowId : FlowId} {pre : List (Item × Nat)}
    (h : Tracks s flowId pre) :
    ((tally (pre.map Prod.fst)).unanswered = [] ∧ s.pendingRequests.queue (flowId, "") = []) ∨
      ∃ i started, (tally (pre.map Prod.fst)).unanswered.head? = some i ∧
        (s.pendingRequests.queue (flowId, "")).head? = some started ∧ AskedAt pre i started := by
  have hq := h.queue
  generalize (tally (pre.map Prod.fst)).unanswered = unanswered at hq
  generalize s.pendingRequests.queue (flowId, "") = queue at hq
  cases hq with
  | nil => exact .inl ⟨rfl, rfl⟩
  | cons ha _ => exact .inr ⟨_, _, rfl, rfl, ha⟩

/-- In a paired conversation the store is right after every message. -/
theorem right_of_paired {timestamp : TimestampPair} (post : List (Item × Nat))
    (ht : Tracks s flowId pre) (hm : Marks it.boundary m)
    (hpaired : Paired ((pre ++ (it, timestamp.monoNanos) :: post).map Prod.fst)) :
    Right flowId pre it timestamp.monoNanos (s.storeMessage flowId timestamp m) where
  own := by
    intro latency hlat
    rw [lastLatency_eq timestamp ht hm] at hlat
    cases it with
    | sent f => cases hlat
    | reply f c =>
      by_cases hf : f.ends = true
      · simp only [if_pos hf] at hlat
        rcases ht.head with ⟨-, hnil⟩ | ⟨i, started, hi, hstarted, hasked⟩
        · rw [hnil] at hlat
          cases hlat
        · rw [hstarted] at hlat
          have hcause := hpaired.oldest _ f c _ (by rw [map_append, map_cons]) hf i hi
          exact ⟨i, started, hcause, hasked, (Option.some.inj hlat).symm⟩
      · simp only [if_neg hf] at hlat
        cases hlat
  ready := by
    intro status k hit hlast
    subst hit
    have hnone := hpaired.none_left _ status k _ (by rw [map_append, map_cons]) hlast
    have hnext := (ht.storeMessage timestamp hm).queue
    rw [map_append, map_cons, map_nil, Postgres.tally_append_singleton] at hnext
    have hsame :
        ((tally (pre.map Prod.fst)).next (.reply (.readyForQuery status) (some k))).unanswered =
        [] := hnone
    rw [hsame] at hnext
    exact forall₂_nil_left_iff.mp hnext

/-! ### One frame at a time -/

/-- An observation for each frame, at its place. -/
def oneByOne (n : Nat) (items : List Item) : List Sighting :=
  (items.zipIdx n).map fun p => ⟨⟨p.2, 0⟩, p.1.direction, p.1.frame.bytes, [p.1]⟩

theorem mem_sentOf {timed : List (Item × Nat)} {f : Frontend}
    (h : (f, t) ∈ sentOf timed) : (.sent f, t) ∈ timed := by
  obtain ⟨⟨it, t'⟩, hmem, heq⟩ := mem_filterMap.mp h
  cases it with
  | sent g =>
    cases heq
    exact hmem
  | reply g cause => cases heq

/-- Places are different times. -/
theorem AskedAt.inj {j : Nat} (hi : AskedAt items.zipIdx i t) (hj : AskedAt items.zipIdx j t) :
    i = j := by
  obtain ⟨f, hf, -⟩ := hi
  obtain ⟨g, hg, -⟩ := hj
  have hplaces : items.zipIdx.Pairwise fun p q => p.2 < q.2 := by
    rw [← pairwise_map (R := (· < ·)), zipIdx_map_snd]
    exact pairwise_lt_range'
  have hsorted : (sentOf items.zipIdx).Pairwise fun p q => p.2 < q.2 := by
    refine List.Pairwise.filterMap _ ?_ hplaces
    rintro ⟨it, t⟩ ⟨it', t'⟩ hlt p hp q hq
    cases it with
    | reply => cases hp
    | sent f =>
      cases it' with
      | reply => cases hq
      | sent f' =>
        cases hp
        cases hq
        exact hlt
  obtain ⟨hi, hfi⟩ := List.getElem?_eq_some_iff.mp hf
  obtain ⟨hj, hgj⟩ := List.getElem?_eq_some_iff.mp hg
  rcases Nat.lt_trichotomy i j with hlt | heq | hlt
  · have := pairwise_iff_getElem.mp hsorted i j hi hj hlt
    rw [hfi, hgj] at this
    omega
  · exact heq
  · have := pairwise_iff_getElem.mp hsorted j i hj hi hlt
    rw [hfi, hgj] at this
    omega

theorem AskedAt.lt (h : AskedAt items.zipIdx i t) : t < items.length := by
  obtain ⟨f, hf, -⟩ := h
  exact snd_lt_of_mem_zipIdx (mem_sentOf (mem_of_getElem? hf))

theorem isPart_nil : IsPart [] := ⟨⟨0, []⟩, by decide, nil_prefix, by decide⟩

theorem sightings_oneByOne : ∀ (n : Nat) {items : List Item}, (∀ it ∈ items, it.Legible) →
    Sightings (fun _ => []) (oneByOne n items)
  | _, [], _ => .nil _
  | n, it :: items, hleg => by
    obtain ⟨hit, hitems⟩ := forall_mem_cons.mp hleg
    refine .cons (by simp) isPart_nil (by simp) ?_ ?_
    · have hfits := Item.fits hit
      simp only [nil_append, Frame.length_bytes, Frame.size]
      unfold Frame.Fits at hfits
      omega
    · rw [Function.update_eq_self_iff.mpr rfl]
      exact sightings_oneByOne (n + 1) hitems

theorem items_oneByOne (n : Nat) (items : List Item) :
    (oneByOne n items).flatMap Sighting.items = items := by
  rw [oneByOne, flatMap_map]
  exact map_eq_flatMap.symm.trans (zipIdx_map_fst n items)

theorem timed_oneByOne (n : Nat) (items : List Item) :
    (oneByOne n items).flatMap Sighting.timed = items.zipIdx n := by
  rw [oneByOne, flatMap_map]
  exact flatMap_singleton' _

/-- The store is right after every message of a conversation, however it is observed,
exactly when the conversation is paired. -/
theorem ownLatencies_iff {s : StoreActor η} {flowId : FlowId} (hs : Ready s flowId)
    {items : List Item} (hleg : ∀ it ∈ items, it.Legible) :
    (∀ os, Sightings (fun _ => []) os → os.flatMap Sighting.items = items →
      OwnLatencies hp s flowId os) ↔ Paired items := by
  constructor
  · intro h
    have hown := h (oneByOne 0 items) (sightings_oneByOne 0 hleg) (items_oneByOne 0 items)
    have halong := hs.watching.along hp (sightings_oneByOne 0 hleg)
      (by rwa [items_oneByOne])
    -- The state before and after one message, at its place.
    have hat : ∀ pre it post, items = pre ++ it :: post →
        ∃ (u : StoreActor η) (timestamp : TimestampPair) (m : DecodedMessage),
          timestamp.monoNanos = pre.length ∧ Tracks u flowId pre.zipIdx ∧
          Marks it.boundary m ∧ Right flowId pre.zipIdx it pre.length
            (u.storeMessage flowId timestamp m) := by
      intro pre it post heq
      have hsplit : (oneByOne 0 items).flatMap Sighting.timed =
          pre.zipIdx ++ (it, pre.length) :: post.zipIdx (pre.length + 1) := by
        rw [timed_oneByOne, heq, zipIdx_append, Nat.zero_add]
        rfl
      obtain ⟨v, hv, hright⟩ := hown _ _ _ _ hsplit
      rw [hsplit] at halong
      obtain ⟨u, timestamp, m, hu, hnow, ht, hm⟩ := halong.at
      rw [hv] at hu
      cases hu
      exact ⟨u, timestamp, m, hnow, ht, hm, hright⟩
    refine ⟨?_, ?_⟩
    · intro pre f c post heq hf i hi
      obtain ⟨u, timestamp, m, hnow, ht, hm, hright⟩ := hat _ _ _ heq
      have hhead := ht.head
      rw [zipIdx_map_fst] at hhead
      rcases hhead with ⟨hnil, -⟩ | ⟨j, started, hj, hstarted, hasked⟩
      · rw [hnil] at hi
        cases hi
      · obtain rfl : j = i := Option.some.inj (hj.symm.trans hi)
        have hlat := lastLatency_eq timestamp ht hm
        simp only [if_pos hf, hstarted, Option.map_some, hnow] at hlat
        obtain ⟨k, started', hcause, hasked', hsame⟩ := hright.own _ hlat
        have hlt := hasked.lt
        have hlt' := hasked'.lt
        obtain rfl : started = started' := by omega
        rw [hasked.inj hasked']
        exact hcause
    · intro pre status k post heq hlast
      obtain ⟨u, timestamp, m, hnow, ht, hm, hright⟩ := hat _ _ _ heq
      have hempty := hright.ready status k rfl (by rwa [zipIdx_map_fst])
      have hnext := (ht.storeMessage timestamp hm).queue
      rw [hempty, map_append, zipIdx_map_fst, map_cons, map_nil,
        Postgres.tally_append_singleton] at hnext
      exact forall₂_nil_right_iff.mp hnext
  · intro hpaired os hos hitems pre it now post hsplit
    have halong := hs.watching.along hp hos (by rwa [hitems])
    rw [hsplit] at halong
    obtain ⟨u, timestamp, m, hu, rfl, ht, hm⟩ := halong.at
    refine ⟨_, hu, right_of_paired post ht hm ?_⟩
    rw [← hsplit, map_flatMap]
    have hfst : ∀ o : Sighting, o.timed.map Prod.fst = o.items := by
      intro o
      rw [Sighting.timed, map_map]
      exact map_id o.items
    simp only [hfst, hitems]
    exact hpaired

/-! ### The startup -/

theorem pairs_parameters (parameters : List (Postgres.CString × Postgres.CString)) :
    Postgres.pairs ((parameters.flatMap fun p => [p.1, p.2]).map Subtype.val) =
      parameters.map fun p => (p.1.1, p.2.1) := by
  induction parameters with
  | nil => rfl
  | cons p parameters ih =>
    simp only [flatMap_cons, map_append, map_cons, map_nil, ← ih]
    rfl

theorem startupMessage_marks
    (hplain : ∀ p ∈ S.parameters, Postgres.IsPlainName (Utf8.fromUtf8Lossy p.1.1))
    (h : Postgres.startupMessage S.version S.startupPayload = .ok m) : Marks none m := by
  have hpay : S.startupPayload =
      (S.parameters.flatMap fun p => [p.1, p.2]).flatMap Postgres.CString.wire ++ [0] := by
    simp [Postgres.Session.startupPayload, flatMap_assoc]
  rw [Postgres.startupMessage, hpay, Postgres.cstrings_wire, ok_bind] at h
  split at h
  · cases h
  split at h
  · cases h
  cases h
  rw [pairs_parameters, map_map]
  refine (Postgres.marks_plain ..).append ?_
  intro h hh
  obtain ⟨p, hp, rfl⟩ := mem_map.mp hh
  exact hplain p hp

theorem queue_evict {key : FlowId × String} (h : s.pendingRequests.queue key = []) :
    s.evict.pendingRequests.queue key = [] := by
  rw [StoreActor.evict]
  split
  · cases s.flows.head?.bind fun flow => flow.record.envelope.flowId with
    | none => exact h
    | some other =>
      simp only [PendingRequests.queue, StoreActor.dropPending]
      split
      · rfl
      · exact h
  · exact h

/-- A flow that has been opened for PostgreSQL is ready once its startup frame has been
observed. -/
theorem ready_startup (hS : S.Fits)
    (hplain : ∀ p ∈ S.parameters, Postgres.IsPlainName (Utf8.fromUtf8Lossy p.1.1))
    (hq : s.pendingRequests.queue (flowId, "") = []) (client upstream : Endpoint)
    (t t' : TimestampPair) :
    Ready ((s.apply hp ⟨flowId, t, .opened client upstream (some "postgres")⟩).apply hp
      ⟨flowId, t', .data .clientToServer S.startup⟩) flowId := by
  obtain ⟨m, hm⟩ := Postgres.startupMessage_ok S
  have hmarks := startupMessage_marks hplain hm
  let dec := Postgres.PostgresDecoder.new s.evict.maxBody
  generalize hs₁ : s.apply hp ⟨flowId, t, .opened client upstream (some "postgres")⟩ = s₁
  have hdec : s₁.decoders flowId = some (.postgres dec) := by
    rw [← hs₁]
    exact setEntry_self ..
  have hqueue : s₁.pendingRequests.queue (flowId, "") = [] := by
    rw [← hs₁]
    exact queue_evict hq
  have hflow : (findFlow s₁.flows flowId).isSome := by
    rw [← hs₁, findFlow, find?_isSome]
    exact ⟨_, mem_append_right _ (mem_singleton_self _), by simp [FlowRecord.new]⟩
  have hpush : dec.push .clientToServer S.startup =
      (Postgres.PostgresDecoder.typed s.evict.maxBody [], ⟨[m], none⟩) := by
    have hfits := hS.startup
    have hx : [] ++ S.startup = S.startup ++ [] := (append_nil _).symm
    exact Postgres.PostgresDecoder.push_startup hS _ hm (by rw [length_nil]; omega) hx
  let s₂ : StoreActor η := { s₁ with
    decoders := setEntry s₁.decoders flowId (some (.postgres (.typed s.evict.maxBody []))) }
  have happly : s₁.apply hp ⟨flowId, t', .data .clientToServer S.startup⟩ =
      s₂.storeMessage flowId t' m := by
    simp only [StoreActor.apply, hdec, ProtocolDecoder.push, hpush]
    rfl
  rw [happly]
  refine ⟨?_, ⟨.typed s.evict.maxBody [], setEntry_self .., rfl, fun d => by cases d <;> rfl⟩, ?_⟩
  · rw [StoreActor.storeMessage, findFlow_updateFlow flowId (StoreActor.keepMessage_flowId _ _ _ m),
      Option.isSome_map]
    exact hflow
  · rw [StoreActor.storeMessage, boundaryOf_marks hmarks, trackBoundary_none]
    exact hqueue

end Observed

/-! ## Two conversations -/

/-- The unnamed portal. -/
def unnamed : Postgres.CString := ⟨[], by decide⟩

/-- A statement without text. -/
def select : Frontend := .query unnamed

def executeAll : Frontend := .execute unnamed 0

def sync : Frontend := .other 0x53 [] (by decide)

/-- Two queries sent together, and their answers. -/
def asked : List Item :=
  [.sent select, .sent select, .reply (.commandComplete unnamed) (some 0),
    .reply (.readyForQuery 0x49) (some 0), .reply (.commandComplete unnamed) (some 1),
    .reply (.readyForQuery 0x49) (some 1)]

/-- A batch of two `Execute` messages whose first one fails, and then a query. -/
def skipping : List Item :=
  [.sent executeAll, .sent executeAll, .sent sync, .reply (.errorResponse []) (some 0),
    .reply (.readyForQuery 0x49) (some 2), .sent select, .reply (.commandComplete unnamed) (some 3),
    .reply (.readyForQuery 0x49) (some 3)]

theorem skipping_conformant : Postgres.Conformant skipping where
  served := by
    have hcomplete : Postgres.Outcome [.commandComplete unnamed] false :=
      @Postgres.Outcome.complete [] unnamed (by simp)
    have hfailed : Postgres.Outcome [.errorResponse []] true :=
      @Postgres.Outcome.failure [] [] (by simp)
    have hquery : Postgres.Served 3 false [select] [(.commandComplete unnamed, some 3),
        (.readyForQuery 0x49, some 3)] :=
      @Postgres.Served.query 3 unnamed [] _ false 0x49 [] [] (by simp) hcomplete (.nil ..)
    exact @Postgres.Served.execute 0 unnamed 0 _ true _ _ hfailed
      (.skipped (by decide) (.sync rfl hquery))
  ordered := by
    simp [Postgres.Ordered, skipping]

theorem skipping_legible : ∀ it ∈ skipping, it.Legible := by
  intro it hit
  simp only [skipping, mem_cons, not_mem_nil, or_false] at hit
  rcases hit with rfl | rfl | rfl | rfl | rfl | rfl | rfl | rfl
  all_goals
    simp [Item.Legible, Postgres.Backend.EmptyStatus, Postgres.Backend.Posing]
    decide

theorem asked_legible : ∀ it ∈ asked, it.Legible := by
  intro it hit
  simp only [asked, mem_cons, not_mem_nil, or_false] at hit
  rcases hit with rfl | rfl | rfl | rfl | rfl | rfl
  all_goals
    simp [Item.Legible, Postgres.Backend.EmptyStatus, Postgres.Backend.Posing]
    decide

/-- A store with one PostgreSQL flow after its startup. -/
def greetedStore : StoreActor Unit :=
  ((StoreActor.withInspection 4 1 64 false).apply idleHpack
      ⟨7, ⟨0, 0⟩, .opened ⟨"127.0.0.1", 50000⟩ ⟨"db.test", 5432⟩ (some "postgres")⟩).apply idleHpack
    ⟨7, ⟨0, 0⟩, .data .clientToServer Postgres.greeting.startup⟩

theorem greetedStore_ready : Ready greetedStore 7 :=
  ready_startup idleHpack ⟨by decide, fun d f hf => by
    cases d with
    | clientToServer => cases hf
    | serverToClient =>
      obtain rfl := mem_singleton.mp hf
      decide⟩ (fun p hp => by cases hp) rfl _ _ _ _

/-- The answers to two queries that wait together have the latencies of their own queries. -/
theorem asked_ownLatencies : Ready greetedStore 7 ∧ ∀ os, Sightings (fun _ => []) os →
    os.flatMap Sighting.items = asked → OwnLatencies idleHpack greetedStore 7 os := by
  exact ⟨greetedStore_ready, (ownLatencies_iff idleHpack greetedStore_ready asked_legible).mpr
    (by decide)⟩

/-- The `Execute` that was skipped stays in the queue, and the answer to the next query has
its latency: 5 where the query was sent one tick before. -/
theorem skipping_wrong :
    Ready greetedStore 7 ∧ Postgres.Conformant skipping ∧
      ∃ os, Sightings (fun _ => []) os ∧ os.flatMap Sighting.items = skipping ∧
        (passedAll idleHpack 7 greetedStore os).map
            (fun u => (lastLatency u 7, u.pendingRequests.queue (7, ""))) =
          [(none, [0]), (none, [0, 1]), (none, [0, 1]), (some 3, [1]), (none, [1]), (none, [1, 5]),
            (some 5, [5]), (none, [5])] ∧
        ¬ OwnLatencies idleHpack greetedStore 7 os := by
  have hseen : (passedAll idleHpack 7 greetedStore (oneByOne 0 skipping)).map
      (fun u => (lastLatency u 7, u.pendingRequests.queue (7, ""))) =
      [(none, [0]), (none, [0, 1]), (none, [0, 1]), (some 3, [1]), (none, [1]), (none, [1, 5]),
        (some 5, [5]), (none, [5])] := by decide +kernel
  refine ⟨greetedStore_ready, skipping_conformant, oneByOne 0 skipping,
    sightings_oneByOne 0 skipping_legible, items_oneByOne 0 skipping, hseen, ?_⟩
  intro h
  obtain ⟨u, hu, hright⟩ := h (skipping.take 4).zipIdx (.reply (.readyForQuery 0x49) (some 2)) 4
    ((skipping.drop 5).zipIdx 5) rfl
  have hqueue := hright.ready 0x49 2 rfl rfl
  have hat := congrArg (·[4]?) hseen
  rw [getElem?_map] at hat
  have hfour : (skipping.take 4).zipIdx.length = 4 := rfl
  rw [hfour] at hu
  rw [hu, Option.map_some, hqueue] at hat
  have hnil : ([] : List Nat) = [1] := congrArg Prod.snd (Option.some.inj hat)
  cases hnil

end Lens.Store
