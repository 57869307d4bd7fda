import Lens.Http2.Arrivals
import Lens.Http2.Observed
import Lens.Http2.Payloads

/-!
# gRPC messages and DATA frames

A gRPC call sends envelopes over a stream, cut into DATA frames where the sender likes.
A frame gives its messages all at once.  If a head in the frame is refused, or the frame
ends the stream inside an envelope, it gives none, also not those of envelopes that it
completes.  And the server's END_STREAM takes the stream out of the table for both
directions.  Where neither costs an envelope (`KeepsEnvelopes`), each is reported once
and in order with the frame that completes it (`envelopes_emitted`).
-/

namespace Lens.Http2

open List

/-! ## Envelopes on the wire -/

/-- The headers of the message that tells of an envelope. -/
def envelopeHeaders (id : Nat) (r : Envelope) : Headers :=
  [("lens-protocol", "grpc"), ("lens-content", "protobuf"), ("lens-stream-id", toString id),
    ("grpc-compressed", toString (compressedFlag r.head)),
    ("grpc-message-bytes", toString r.payload.length)]

/-- The message tells of an envelope of the direction.  The last header decides, which is
one that the decoder has put there. -/
def isEnvelope (d : Direction) (m : DecodedMessage) : Bool :=
  decide (m.direction = d) && decide (m.headers.getLast?.map Prod.fst = some "grpc-message-bytes")

/-- The data that an event has of a direction. -/
def Event.dataFrom (d : Direction) : Event → Bytes
  | .data d' _ _ bytes => if d' = d then bytes else []
  | .headers .. | .reset _ => []

def dataFrom (d : Direction) (es : List Event) : Bytes := es.flatMap (Event.dataFrom d)

/-- The event takes a gRPC stream out of the table. -/
def Event.closes : Event → Bool
  | .headers .serverToClient _ endStream _ | .data .serverToClient _ endStream _ => endStream
  | .headers .clientToServer .. | .data .clientToServer .. => false
  | .reset _ => true

/-- The stream begins with the request headers of a gRPC call. -/
def isCall : List Event → Bool
  | .headers .clientToServer _ _ hs :: _ => marksGrpc hs
  | _ => false

/-- After some bytes of the direction, an event that completes an envelope has no head that
is refused and does not end the stream inside an envelope, and the stream is not closed
before the last data of the direction. -/
def KeepsEnvelopes (d : Direction) : Bytes → List Event → Prop
  | _, [] => True
  | bytes, e :: es =>
    ((envelopes.records (bytes ++ e.dataFrom d)).1 ≠ (envelopes.records bytes).1 →
      ∃ left ∈ (envelopes.records (bytes ++ e.dataFrom d)).2, e.last = true → left = []) ∧
    (e.closes = true → dataFrom d es = []) ∧ KeepsEnvelopes d (bytes ++ e.dataFrom d) es

instance decidableKeepsEnvelopes (d : Direction) :
    ∀ bytes es, Decidable (KeepsEnvelopes d bytes es)
  | _, [] => .isTrue trivial
  | bytes, e :: es =>
    have := decidableKeepsEnvelopes d (bytes ++ e.dataFrom d) es
    inferInstanceAs (Decidable (_ ∧ _ ∧ _))

/-! ## A call -/

section Stream

variable (mb : Nat) {id : Nat} {d : Direction} {a : Arrival} {as : List Arrival} {st : StreamState}
  {buf left : Bytes} {old : Option StreamState}

/-- Nothing is to be known of the captured bytes. -/
def anyBody (_ : GrpcPayload) (_ : Bytes) : Prop := True

theorem anyBody_kept (limit : Nat) : GrpcParser.Kept anyBody limit :=
  ⟨fun _ => trivial, fun _ _ _ _ => trivial⟩

/-- A gRPC stream that holds the bytes of an envelope under way. -/
structure Calling (d : Direction) (st : StreamState) (buf : Bytes) : Prop where
  grpc : st.grpc = true
  holds : GrpcParser.Holds anyBody (st.grpcParser d) buf

/-- The bytes of the envelope under way after an event of a call. -/
def envelopeLeft (d : Direction) (buf : Bytes) (e : Event) : Bytes :=
  ((envelopes.records (buf ++ e.dataFrom d)).2).getD []

theorem arrive_grpcData (hg : st.grpc = true) {endStream : Bool} {data : Bytes}
    (ha : a.event = .data d id endStream data) :
    arrive mb (some st) a = grpcDataOutcome d id endStream data mb a.retained st := by
  rw [arrive, ha]
  exact if_pos hg

theorem arrive_headers {endStream : Bool} {hs : Headers}
    (hg : (StreamState.marked old hs).grpc = true) (hfull : (old.isNone && a.full) = false)
    (ha : a.event = .headers d id endStream hs) :
    arrive mb old a =
      if endStream then
        .ended d (.marked old hs) a.retained [grpcMessage d id (.marked old hs) hs]
      else ⟨.put (.marked old hs), a.retained, .ok [grpcMessage d id (.marked old hs) hs]⟩ := by
  rw [arrive, ha]
  simp only [outcome, hfull, Bool.false_eq_true, ↓reduceIte, headersOutcome, hg]

theorem marked_grpc (hg : st.grpc = true) (hs : Headers) :
    (StreamState.marked (some st) hs).grpc = true := by
  simp [StreamState.marked, hg]

/-- A DATA frame that does not end the response leaves the stream in the table. -/
theorem grpcData_open (st : StreamState) (d : Direction) (id : Nat) (endStream : Bool)
    (data : Bytes) (retained : Nat) (hopen : endStream = true → d = .clientToServer) :
    ∃ parser, (grpcDataOutcome d id endStream data mb retained st).change.next (some st) =
      some (st.setGrpcParser d parser) := by
  refine ⟨(st.pushGrpc d id data mb retained).1, ?_⟩
  unfold grpcDataOutcome
  cases (st.pushGrpc d id data mb retained).2 with
  | error reason => rfl
  | ok messages =>
    cases endStream with
    | false => rfl
    | true =>
      obtain rfl := hopen rfl
      simp only [↓reduceIte]
      split <;> rfl

/-- Until it is closed the stream stays in the table. -/
theorem open_next (hg : st.grpc = true) (ha : a.event.closes = false) :
    ∃ st', (arrive mb (some st) a).change.next (some st) = some st' ∧ st'.grpc = true := by
  cases he : a.event with
  | reset id =>
    rw [he] at ha
    cases ha
  | headers d id endStream hs =>
    have hmarked := marked_grpc hg hs
    rw [arrive_headers mb hmarked rfl he]
    cases d with
    | clientToServer => cases endStream <;> exact ⟨_, rfl, hmarked⟩
    | serverToClient =>
      rw [he] at ha
      obtain rfl : endStream = false := ha
      exact ⟨_, rfl, hmarked⟩
  | data d id endStream data =>
    have hopen : endStream = true → d = .clientToServer := by
      rintro rfl
      cases d with
      | clientToServer => rfl
      | serverToClient =>
        rw [he] at ha
        cases ha
    obtain ⟨parser, hnext⟩ := grpcData_open mb st d id endStream data a.retained hopen
    rw [arrive_grpcData mb hg he]
    exact ⟨_, hnext, by cases d <;> exact hg⟩

/-- The stream and the bytes of the envelope under way go on together. -/
theorem Calling.next (h : Calling d st buf) (ha : a.event.closes = false) :
    ∃ st', (arrive mb (some st) a).change.next (some st) = some st' ∧
      Calling d st' (envelopeLeft d buf a.event) := by
  obtain ⟨st', hnext, hg⟩ := open_next mb h.grpc ha
  refine ⟨st', hnext, hg, ?_⟩
  have hleft : envelopeLeft d buf a.event = readOn d (some st) buf a.event := by
    have hnone : ((envelopes.records (buf ++ [])).2).getD [] = buf := by
      rw [append_nil, h.holds.records]
      rfl
    cases a.event with
    | headers | reset => exact hnone
    | data d' id endStream data =>
      rw [envelopeLeft, readOn, Event.dataFrom]
      by_cases hd : d' = d
      · rw [if_pos hd, if_pos ⟨h.grpc, hd⟩]
      · rw [if_neg hd, if_neg fun hown => hd hown.2, hnone]
  rw [outcome_grpcParser hnext, hleft]
  exact holds_readOn h.holds fun _ _ _ _ _ _ => anyBody_kept _

theorem exists_of_isCall {e : Event} {es : List Event} (h : isCall (e :: es) = true) :
    ∃ id endStream hs, e = .headers .clientToServer id endStream hs ∧ marksGrpc hs = true := by
  match e, h with
  | .headers .clientToServer id endStream hs, h => exact ⟨id, endStream, hs, rfl, h⟩

/-- The request headers of a call on a stream that is not refused. -/
theorem calling_first {es : List Event} (hcall : isCall (a.event :: es) = true)
    (hfull : a.full = false) (d : Direction) :
    ∃ st, (arrive mb none a).change.next none = some st ∧ Calling d st [] := by
  obtain ⟨id, endStream, hs, he, hmarks⟩ := exists_of_isCall hcall
  have hg : (StreamState.marked none hs).grpc = true := by simp [StreamState.marked, hmarks]
  rw [arrive_headers mb hg (by rw [hfull]; rfl) he]
  refine ⟨_, ?_, hg, by rw [StreamState.grpcParser_marked]; cases d <;> exact .init⟩
  cases endStream <;> rfl

/-! ## Messages of a call -/

theorem GrpcParser.pushLoop_direction {path : String} {ms : List DecodedMessage} {limit n : Nat}
    {p : GrpcParser} {bytes : Bytes}
    (h : (pushLoop d id path limit n p bytes).2 = .ok ms) : ∀ m ∈ ms, m.direction = d := by
  fun_induction pushLoop d id path limit n p bytes generalizing ms
  case case1 | case2 | case5 =>
    cases h
    simp
  case case3 rest hloop ih | case7 rest hloop ih =>
    cases rest with
    | error reason => cases h
    | ok rest =>
      cases h
      rw [hloop] at ih
      exact forall_mem_cons.mpr ⟨rfl, ih rfl⟩
  case case4 ih | case8 ih => exact ih h
  case case6 => cases h

theorem isEnvelope_endMessages (d d' : Direction) (id : Nat) :
    (endMessages d' id).filter (isEnvelope d) = [] := by
  cases d' <;> simp [endMessages, isEnvelope, Http2Decoder.endedWithoutTrailers]

/-- An event without data of a direction tells of no envelope of it. -/
theorem filter_isEnvelope (h : a.event.dataFrom d = []) :
    (gives (arrive mb old a).result).filter (isEnvelope d) = [] := by
  have hplain : ∀ m id d', isEnvelope d (addHttp2Metadata m id d') = false := by
    intro m id d'
    simp [isEnvelope, addHttp2Metadata, DecodedMessage.pushHeader]
  have hheaders : ∀ d' id st hs, isEnvelope d (grpcMessage d' id st hs) = false := by
    intro d' id st hs
    unfold grpcMessage
    cases findHeader hs ":method" <;> cases findHeader hs ":status" <;> cases d' <;>
      simp [isEnvelope]
  have hyields := outcome_yields mb a.retained a.full old a.event
  rw [arrive]
  generalize a.event = e at h hyields
  generalize outcome mb a.retained a.full old e = o at hyields
  have hpush : ∀ {st : StreamState} {d' id endStream data parser messages},
      Event.dataFrom d (.data d' id endStream data) = [] →
      st.pushGrpc d' id data mb a.retained = (parser, .ok messages) →
      messages.filter (isEnvelope d) = [] := by
    intro st d' id endStream data parser messages hdata hparse
    by_cases hd : d' = d
    · subst hd
      obtain rfl : data = [] := by simpa [Event.dataFrom] using hdata
      cases hparse
      rfl
    · have hdirection := GrpcParser.pushLoop_direction (congrArg Prod.snd hparse)
      refine filter_eq_nil_iff.mpr fun m hm => ?_
      simp [isEnvelope, hdirection m hm, hd]
  cases hyields with
  | reset | full | noStream | noMessage | orphan | start | trailers | data | refused | inside => rfl
  | grpcHeaders | grpcHeadersEnd => simp [gives, hheaders]
  | startEnd | trailersEnd | dataEnd => simp [gives, hplain]
  | push _ _ hparse => exact hpush h hparse
  | pushEnd _ _ hparse =>
    rw [Outcome.ended_result]
    simp only [gives, filter_append, hpush h hparse, isEnvelope_endMessages, append_nil]

theorem headers_of_tells {path : String} {ms : List DecodedMessage} {rs : List Envelope}
    (h : List.Forall₂ (GrpcParser.Tells anyBody d id path) ms rs) :
    ms.filter (isEnvelope d) = ms ∧ ms.map (·.headers) = rs.map (envelopeHeaders id) := by
  induction h with
  | nil => exact ⟨rfl, rfl⟩
  | cons hm _ ih =>
    obtain ⟨q, rfl, hlen, hflag, -⟩ := hm
    refine ⟨?_, ?_⟩
    · rw [filter_cons_of_pos (by simp [isEnvelope, GrpcPayload.finish]), ih.1]
    · rw [map_cons, map_cons, ih.2, envelopeHeaders, ← hlen, ← hflag]
      rfl

/-- The envelopes that a stream tells of, by the headers of their messages. -/
def told (d : Direction) (old : Option StreamState) (as : List Arrival) :
    List Headers :=
  (((streamResults mb old as).flatMap gives).filter (isEnvelope d)).map (·.headers)

theorem told_cons (old : Option StreamState) (as : List Arrival) :
    told mb d old (a :: as) =
      ((gives (arrive mb old a).result).filter (isEnvelope d)).map (·.headers) ++
      told mb d ((arrive mb old a).change.next old) as := by
  rw [told, streamResults, flatMap_cons, filter_append, map_append, told]

/-- An event tells of the envelopes that it completes, if it does not fail. -/
theorem Calling.told_one (h : Calling d st buf) (hid : a.event.id = id)
    (hgood : (envelopes.records (buf ++ a.event.dataFrom d)).1 ≠ [] →
      ∃ left ∈ (envelopes.records (buf ++ a.event.dataFrom d)).2, a.event.last = true → left = []) :
    ((gives (arrive mb (some st) a).result).filter (isEnvelope d)).map (·.headers) =
      (envelopes.records (buf ++ a.event.dataFrom d)).1.map (envelopeHeaders id) := by
  by_cases hdata : a.event.dataFrom d = []
  · rw [filter_isEnvelope mb hdata, hdata, append_nil, h.holds.records]
    rfl
  obtain ⟨endStream, data, he⟩ : ∃ endStream data, a.event = .data d id endStream data := by
    cases he : a.event with
    | headers | reset =>
      rw [he] at hdata
      exact absurd rfl hdata
    | data d' id' endStream data =>
      rw [he] at hdata hid
      by_cases hd : d' = d
      · subst hd
        subst hid
        exact ⟨endStream, data, rfl⟩
      · exact absurd (if_neg hd) hdata
  rw [he] at hgood
  have hself : Event.dataFrom d (.data d id endStream data) = data := if_pos rfl
  rw [arrive_grpcData mb h.grpc he, he, hself]
  rw [hself] at hgood
  have hk := anyBody_kept (captureLimit mb a.retained (st.grpcParser d))
  by_cases hok : ∃ left ∈ (envelopes.records (buf ++ data)).2, endStream = true → left = []
  · obtain ⟨left, hleft, hend⟩ := hok
    obtain ⟨ms, hms, hresult⟩ := grpcData_ok hk h.holds id (Prod.ext rfl hleft) hend
    obtain ⟨hall, hheaders⟩ := headers_of_tells hms
    have htail :
        (if endStream = true then endMessages d id else []).filter (isEnvelope d) = [] := by
      cases endStream with
      | false => rfl
      | true => exact isEnvelope_endMessages d d id
    rw [hresult]
    simp only [gives, filter_append, hall, htail, append_nil, hheaders]
  · -- The frame gives nothing, and completes nothing.
    have hlost : ∀ left, (envelopes.records (buf ++ data)).2 = some left →
        endStream = true ∧ left ≠ [] := by
      intro left hleft
      by_contra hnot
      refine hok ⟨left, hleft, fun hend => ?_⟩
      by_contra hne
      exact hnot ⟨hend, hne⟩
    obtain ⟨reason, hresult⟩ := grpcData_lost hk h.holds id hlost
    have hnone : (envelopes.records (buf ++ data)).1 = [] := by
      by_contra hne
      exact hok (hgood hne)
    rw [hresult, hnone]
    rfl

theorem told_of_no_data : ∀ {as : List Arrival} {old : Option StreamState},
    dataFrom d (as.map Arrival.event) = [] → told mb d old as = []
  | [], _, _ => rfl
  | a :: as, old, h => by
    rw [map_cons, dataFrom, flatMap_cons, append_eq_nil_iff] at h
    rw [told_cons, filter_isEnvelope mb h.1, told_of_no_data h.2]
    rfl

/-- A call tells of its envelopes.  After a head that is refused it may tell of more. -/
theorem Calling.told_run : ∀ {as : List Arrival} {st : StreamState} {bytes left : Bytes}
    {rs : List Envelope}, envelopes.records bytes = (rs, some left) → Calling d st left →
    (∀ a ∈ as, a.event.id = id) → KeepsEnvelopes d bytes (as.map Arrival.event) →
    ∃ new later,
      (envelopes.records (bytes ++ dataFrom d (as.map Arrival.event))).1 = rs ++ new ∧
      told mb d (some st) as = new.map (envelopeHeaders id) ++ later ∧
      ((envelopes.records (bytes ++ dataFrom d (as.map Arrival.event))).2 ≠ none → later = [])
  | [], _, bytes, left, rs, hread, _, _, _ =>
    ⟨[], [], by simp [dataFrom, hread], rfl, fun _ => rfl⟩
  | a :: as, st, bytes, left, rs, hread, h, hids, hkeeps => by
    obtain ⟨hgood, hclosed, hrest⟩ := hkeeps
    obtain ⟨hid, hids⟩ := forall_mem_cons.mp hids
    have hall : bytes ++ dataFrom d ((a :: as).map Arrival.event) =
        bytes ++ a.event.dataFrom d ++ dataFrom d (as.map Arrival.event) := by
      rw [map_cons, dataFrom, flatMap_cons, append_assoc, dataFrom]
    have htold := h.told_one mb hid
    have hone : envelopes.records (bytes ++ a.event.dataFrom d) =
        envelopes.continued (rs, some left) (a.event.dataFrom d) := by
      rw [Stream.Framing.records_append, hread]
    have hnext := h.next mb (a := a)
    rw [envelopeLeft] at hnext
    rw [hone, hread] at hgood
    rw [hall, told_cons]
    rcases hread' : envelopes.records (left ++ a.event.dataFrom d) with ⟨rs', o⟩
    simp only [Stream.Framing.continued, hread'] at hone hgood htold hnext
    rw [htold fun hne => hgood fun heq => hne (by simpa using heq)]
    by_cases hcloses : a.event.closes = true
    · refine ⟨rs', [], ?_, ?_, fun _ => rfl⟩
      · rw [hclosed hcloses, append_nil, hone]
      · rw [told_of_no_data mb (hclosed hcloses)]
    obtain ⟨st', hst', hcalling⟩ := hnext (by simpa using hcloses)
    rw [hst']
    cases o with
    | none =>
      have hrefused : envelopes.records (bytes ++ a.event.dataFrom d ++
          dataFrom d (as.map Arrival.event)) = (rs ++ rs', none) := by
        rw [Stream.Framing.records_append, hone]
        rfl
      rw [hrefused]
      exact ⟨rs', _, rfl, rfl, fun hne => absurd rfl hne⟩
    | some left' =>
      obtain ⟨new, later, hnew, hlater, hexact⟩ := told_run hone hcalling hids hrest
      refine ⟨rs' ++ new, later, ?_, ?_, hexact⟩
      · rw [hnew, append_assoc]
      · rw [hlater, map_append, append_assoc]

end Stream

/-! ## The decoder -/

namespace Http2Decoder

variable {η : Type} (hp : Hpack η)

/-- The events of a stream on the wire. -/
def streamEvents (calls : List Call) (id : Nat) : List Event :=
  (wireEvents hp calls).filter fun e => e.id = id

/-- The decoder tells of the complete envelopes that a direction of a stream has sent, each
once and in order, with its length and flag; and of nothing else, unless a head is refused. -/
structure EmitsComplete (maxBody : Nat) (calls : List Call) (d : Direction) (id : Nat) : Prop where
  complete :
    (envelopes.records (dataFrom d (streamEvents hp calls id))).1.map (envelopeHeaders id) <+:
    (((Table.new maxBody).messagesFor id ((new hp maxBody).events hp calls)).filter
      (isEnvelope d)).map (·.headers)
  exact : (envelopes.records (dataFrom d (streamEvents hp calls id))).2 ≠ none →
    (((Table.new maxBody).messagesFor id ((new hp maxBody).events hp calls)).filter
      (isEnvelope d)).map (·.headers) =
    (envelopes.records (dataFrom d (streamEvents hp calls id))).1.map (envelopeHeaders id)

/-- The connection is within the limits of the decoder and uses no more streams than it tracks. -/
structure Tracked (calls : List Call) : Prop extends Within hp calls where
  few : ((wireEvents hp calls).map Event.id).toFinset.card ≤ maxTrackedStreams

/-- The messages of a stream on a connection within the limits are those of its own arrivals,
none of which is refused. -/
theorem Tracked.arrivals {calls : List Call} (h : Tracked hp calls) (maxBody id : Nat) :
    ∃ as : List Arrival, as.map Arrival.event = streamEvents hp calls id ∧
      (∀ a ∈ as, a.full = false) ∧ (Table.new maxBody).messagesFor id
        ((new hp maxBody).events hp calls) = (streamResults maxBody none as).flatMap gives := by
  refine ⟨(Table.new maxBody).arrivals id (wireEvents hp calls), Table.arrivals_map_event ..,
    Table.arrivals_full (.new maxBody h.few), ?_⟩
  rw [events_eq_wireEvents hp h.toWithin, Table.messagesFor, Table.resultsFor_eq]
  rfl

/-- Envelopes on a gRPC stream, cut into DATA frames in any way and between any other frames,
are all reported if no frame loses one. -/
theorem envelopes_emitted (maxBody : Nat) (calls : List Call) (d : Direction) (id : Nat)
    (htracked : Tracked hp calls) (hcall : isCall (streamEvents hp calls id) = true)
    (hkeeps : KeepsEnvelopes d [] (streamEvents hp calls id)) :
    EmitsComplete hp maxBody calls d id := by
  obtain ⟨as, hevents, hfull, hmessages⟩ := htracked.arrivals hp maxBody id
  have hids : ∀ a ∈ as, a.event.id = id := by
    intro a ha
    have hmem : a.event ∈ streamEvents hp calls id := hevents ▸ mem_map_of_mem ha
    simpa using (mem_filter.mp hmem).2
  obtain ⟨a, as, rfl⟩ : ∃ a as', as = a :: as' := exists_cons_of_ne_nil fun hnil => by
    rw [← hevents, hnil] at hcall
    cases hcall
  rw [← hevents, map_cons] at hcall hkeeps
  obtain ⟨st, hnext, hcalling⟩ := calling_first maxBody hcall (hfull a (mem_cons_self ..)) d
  have hfirst : a.event.dataFrom d = [] := by
    obtain ⟨_, _, _, he, -⟩ := exists_of_isCall hcall
    rw [he]
    rfl
  rw [KeepsEnvelopes, hfirst, append_nil] at hkeeps
  have hstart : envelopes.records [] = ([], some []) := rfl
  obtain ⟨new, later, hnew, hlater, hexact⟩ :=
    hcalling.told_run maxBody hstart (forall_mem_cons.mp hids).2 hkeeps.2.2
  have hdata : dataFrom d (streamEvents hp calls id) = [] ++ dataFrom d (as.map Arrival.event) := by
    rw [← hevents, map_cons, dataFrom, flatMap_cons, hfirst, dataFrom]
  have htold :
      (((Table.new maxBody).messagesFor id ((Http2Decoder.new hp maxBody).events hp calls)).filter
      (isEnvelope d)).map (·.headers) = new.map (envelopeHeaders id) ++ later := by
    rw [hmessages, ← hlater, ← hnext]
    exact (told_cons maxBody none as).trans (by rw [filter_isEnvelope maxBody hfirst]; rfl)
  constructor
  · rw [hdata, hnew, htold]
    exact prefix_append _ _
  · intro hne
    rw [hdata] at hne
    rw [hdata, hnew, htold, hexact hne, append_nil, nil_append]

/-- An HPACK decoder of four header lists: a request, a response, trailers, and a response
that is its trailers. -/
def grpcHpack : Hpack Unit where
  init := ()
  decode _ block :=
    let fields := match block with
      | [1] => [(":method", "POST"), (":path", "/a"), ("content-type", "application/grpc")]
      | [2] => [(":status", "200"), ("content-type", "application/grpc")]
      | [3] => [("grpc-status", "0")]
      | _ => [(":status", "200"), ("grpc-status", "12")]
    ((), .ok (fields.map fun f => (Utf8.asBytes f.1, Utf8.asBytes f.2)))

/-- A call with the beginning of an envelope, the headers of the response, and more DATA. -/
def callWith (frames : List Frame) : List Call :=
  [.push .clientToServer (clientPreface ++ [⟨frameHeaders, flagEndHeaders, 1, [1]⟩,
      ⟨frameData, 0, 1, [0, 0, 0]⟩].flatMap Frame.bytes),
    .push .serverToClient (Frame.bytes ⟨frameHeaders, flagEndHeaders, 1, [2]⟩),
    .push .clientToServer ((frames.flatMap Frame.bytes).take 12),
    .push .clientToServer ((frames.flatMap Frame.bytes).drop 12)]

/-- Two envelopes, and the head of a third that is refused in a frame of its own. -/
def apartFrames : List Frame :=
  [⟨frameData, 0, 1, [0, 2, 7]⟩, ⟨frameData, 0, 3, [1]⟩, ⟨frameData, 0, 1, [8, 1, 0, 0, 0, 0]⟩,
    ⟨frameData, flagEndStream, 1, [9, 0, 0, 0, 0]⟩]

theorem apartFrames_emitted :
    EmitsComplete grpcHpack 16 (callWith apartFrames) .clientToServer 1 := by
  refine envelopes_emitted grpcHpack 16 _ .clientToServer 1
    ⟨⟨fun d => ?_, trivial, by decide +kernel⟩, by decide +kernel⟩ (by decide +kernel)
    (by decide +kernel)
  cases d <;> exact .inl (by decide +kernel)

/-- The frame that completes the envelopes ends with the head that is refused. -/
def togetherFrames : List Frame :=
  [⟨frameData, 0, 1, [0, 2, 7, 8, 1, 0, 0, 0, 0, 9, 0, 0, 0, 0]⟩]

theorem togetherFrames_not_emitted :
    (envelopes.records (dataFrom .clientToServer
        (streamEvents grpcHpack (callWith togetherFrames) 1))).1 =
      [⟨[0, 0, 0, 0, 2], [7, 8]⟩, ⟨[1, 0, 0, 0, 0], []⟩] ∧
    ¬EmitsComplete grpcHpack 16 (callWith togetherFrames) .clientToServer 1 := by
  refine ⟨by decide +kernel, fun h => ?_⟩
  have hcomplete := h.complete
  revert hcomplete
  decide +kernel

end Http2Decoder

end Lens.Http2
