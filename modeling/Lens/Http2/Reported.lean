import Lens.Http2.Arrivals
import Lens.Http2.Observed

/-!
# Requests that are reported

A request is reported when its stream has seen the client's `END_STREAM`.  Request
and response share the entry of the stream, and the end of a response on DATA or on
trailers takes the entry out of the table.  If that happens while the request is not
complete, the rest of the request finds no stream: its DATA is a fault and the request
is never reported.

`request_reported_iff` says that this is the only way to lose one on a connection whose
frames are within the limits of the decoder.  The exchange is the one on the wire
(`wireEvents`).  The proof follows the stream alone over its arrivals: the request has
not begun or is under way (`reported_iff`), is complete (`done_reported`), or has lost
its entry (`lost_not_reported`).
-/

namespace Lens.Http2

open List

/-! ## Labels -/

/-- The message ends with the labels of a request on the stream `id`. -/
def requestOf (id : Nat) (m : DecodedMessage) : Bool :=
  [("lens-stream-id", toString id), ("lens-boundary", "request")].isSuffixOf m.headers

variable {id n : Nat} {hs : Headers} {d : Direction} {st : StreamState} {e : Event}
  {es : List Event} {opened : Direction → Bool} {endStream : Bool} {o : Outcome}
  {rs : List (Except String (List DecodedMessage))}

/-- The last two headers decide. -/
theorem requestOf_append {m : DecodedMessage} {x y : String × String}
    (h : m.headers = hs ++ [x, y]) :
    requestOf id m = true ↔ x = ("lens-stream-id", toString id) ∧
      y = ("lens-boundary", "request") := by
  rw [requestOf, isSuffixOf_iff_suffix, h]
  constructor
  · rintro ⟨pre, hpre⟩
    have hpair := append_inj_right' hpre rfl
    simp only [List.cons.injEq, and_true] at hpair
    exact ⟨hpair.1.symm, hpair.2.symm⟩
  · rintro ⟨rfl, rfl⟩
    exact ⟨hs, rfl⟩

theorem requestOf_plain (id id' : Nat) (m : DecodedMessage) (d : Direction) :
    requestOf id (addHttp2Metadata m id' d) = true ↔ id' = id ∧ d = .clientToServer := by
  have hheaders : (addHttp2Metadata m id' d).headers =
      (m.headers ++ [("lens-protocol", "http2")]) ++
        [("lens-stream-id", toString id'), ("lens-boundary", role d)] := by
    simp [addHttp2Metadata]
  rw [requestOf_append hheaders]
  cases d <;> simp [role, Nat.repr_inj]

theorem grpcMessage_headers (d : Direction) (id : Nat) (st : StreamState)
    (hs : Headers) :
    (grpcMessage d id st hs).headers =
      if (findHeader hs ":method").isSome then
        (hs ++ [("lens-protocol", "grpc")]) ++
          [("lens-stream-id", toString id), ("lens-boundary", "request")]
      else if (findHeader hs ":status").isNone ∧ d = .serverToClient then
        (hs ++ [("lens-protocol", "grpc")]) ++
          [("lens-stream-id", toString id), ("lens-boundary", "response")]
      else hs ++ [("lens-protocol", "grpc"), ("lens-stream-id", toString id)] := by
  unfold grpcMessage
  cases findHeader hs ":method" with
  | some method => simp
  | none => cases findHeader hs ":status" <;> cases d <;> simp

theorem id_of_requestOf_grpc {id' : Nat} (h : requestOf id (grpcMessage d id' st hs) = true) :
    id' = id := by
  have hheaders := grpcMessage_headers d id' st hs
  split at hheaders
  · rw [requestOf_append hheaders] at h
    simpa [Nat.repr_inj] using h
  split at hheaders
  · rw [requestOf_append hheaders] at h
    simp at h
  · rw [requestOf_append hheaders] at h
    simp at h

theorem requestOf_finish (id id' : Nat) (q : GrpcPayload) (d : Direction) (path : String) :
    requestOf id (q.finish d id' path) = false := by
  have hheaders : (q.finish d id' path).headers =
      [("lens-protocol", "grpc"), ("lens-content", "protobuf"), ("lens-stream-id", toString id')] ++
        [("grpc-compressed", toString q.compressed),
          ("grpc-message-bytes", toString q.length)] := rfl
  rw [Bool.eq_false_iff, Ne, requestOf_append hheaders]
  simp

theorem requestOf_endMessages {id' : Nat} : ∀ m ∈ endMessages d id', requestOf id m = false := by
  cases d with
  | clientToServer => simp [endMessages]
  | serverToClient =>
    simp only [endMessages, ↓reduceIte, mem_singleton, forall_eq]
    have hheaders : (Http2Decoder.endedWithoutTrailers .serverToClient id').headers =
        [("lens-protocol", "grpc"), ("lens-stream-id", toString id')] ++
          [("lens-boundary", "response"), ("grpc-status", "missing")] := rfl
    rw [Bool.eq_false_iff, Ne, requestOf_append hheaders]
    simp

/-- A message with the labels of a request on a stream comes from an event of it. -/
theorem id_of_requestOf {t : Table} (h : t.Ok) :
    ∀ m ∈ gives (t.outcome e).result, requestOf id m = true → e.id = id := by
  have hkeeps : (t.outcome e).Keeps (fun _ => True) (fun m => requestOf id m = true → e.id = id)
      (t.streams.lookup e.id) := by
    refine outcome_keeps (R := fun _ => True) t.full (fun _ _ => trivial) (fun _ _ => trivial)
      (fun _ _ => trivial) (fun _ hr => ((requestOf_plain ..).mp hr).1) ?_ ?_
    · rintro d id' endStream hs rfl
      exact ⟨trivial, id_of_requestOf_grpc, fun _ => trivial, fun _ _ => trivial⟩
    · rintro st d id' endStream data hst rfl
      refine ⟨fun _ _ => trivial, fun hpush => ⟨trivial, ?_⟩⟩
      obtain ⟨hparses, -⟩ := StreamState.parses_of_push ((h id' st hst).parser d) hpush
      refine forall_mem_append.mpr ⟨fun m hm hr => ?_, fun m hm hr => ?_⟩
      · obtain ⟨q, rfl⟩ := hparses.finished (gives_eq hm) m hm
        rw [requestOf_finish] at hr
        cases hr
      · rw [requestOf_endMessages m hm] at hr
        cases hr
  exact hkeeps.messages

/-- The requests of a stream are among its own messages. -/
theorem Table.Ok.filter_requestOf {t : Table} (h : t.Ok) (id : Nat) (es : List Event) :
    (t.messages es).filter (requestOf id) = (t.messagesFor id es).filter (requestOf id) := by
  induction es generalizing t with
  | nil => rfl
  | cons e es ih =>
    rw [Table.messages_cons, filter_append, ih (h.apply e), Table.messagesFor, Table.messagesFor]
    by_cases hid : e.id = id
    · rw [Table.resultsFor_self t hid, flatMap_cons, filter_append]
    · have hnone : (gives (t.outcome e).result).filter (requestOf id) = [] := by
        rw [filter_eq_nil_iff]
        exact fun m hm hr => hid (id_of_requestOf h m hm hr)
      rw [Table.resultsFor_other t hid, hnone, nil_append]

/-! ## Requests and responses -/

/-- The direction of an event. -/
def Event.isFrom (d : Direction) : Event → Bool
  | .headers d' _ _ _ => d' = d
  | .data d' _ _ _ => d' = d
  | .reset _ => false

/-- Not a reset, and no headers of gRPC. -/
def Event.plain : Event → Bool
  | .headers _ _ _ hs => !marksGrpc hs
  | .data _ _ _ _ => true
  | .reset _ => false

/-- What follows the initial headers of a request that does not end with them. -/
def requestTail : List Event → Bool
  | .headers _ _ endStream hs :: rest => endStream && (startLine hs).isNone && rest.isEmpty
  | .data _ _ endStream _ :: rest => if endStream then rest.isEmpty else requestTail rest
  | _ => false

/-- Initial headers with `:method` and `:path`, DATA, and `END_STREAM` on the last
frame, which may be trailers. -/
def isRequest : List Event → Bool
  | .headers _ _ endStream hs :: rest =>
    (findHeader hs ":method").isSome && (findHeader hs ":path").isSome &&
      if endStream then rest.isEmpty else requestTail rest
  | _ => false

/-- What follows the first headers of a response, as far as it has come. -/
def responseTail : List Event → Bool
  | [] => true
  | .headers _ _ endStream _ :: rest => if endStream then rest.isEmpty else responseTail rest
  | .data _ _ endStream _ :: rest => if endStream then rest.isEmpty else responseTail rest
  | .reset _ :: _ => false

/-- Headers with `:status`, then DATA, more headers and trailers, with `END_STREAM` on
no frame but the last. -/
def isResponse : List Event → Bool
  | [] => true
  | .headers _ _ endStream hs :: rest =>
    (startLine hs).isSome && if endStream then rest.isEmpty else responseTail rest
  | _ => false

/-- The event ends a response on DATA or on trailers. -/
def Event.endsResponse : Event → Bool
  | .headers d _ endStream hs => endStream && d = .serverToClient && (startLine hs).isNone
  | .data d _ endStream _ => endStream && d = .serverToClient
  | .reset _ => false

/-- A response ends on DATA or on trailers between two frames of the client. -/
def endsBetween : Bool → List Event → Bool
  | _, [] => false
  | begun, e :: es =>
    (begun && e.endsResponse && es.any (·.isFrom .clientToServer)) ||
      endsBetween (begun || e.isFrom .clientToServer) es

/-- No client frame is left for a response to come before. -/
theorem endsBetween_of_done {begun : Bool} (h : es.filter (·.isFrom .clientToServer) = []) :
    endsBetween begun es = false := by
  induction es generalizing begun with
  | nil => rfl
  | cons e es ih =>
    rw [filter_eq_nil_iff] at h
    have hrest : es.filter (·.isFrom .clientToServer) = [] :=
      filter_eq_nil_iff.mpr fun f hf => h f (mem_cons_of_mem _ hf)
    have hany : es.any (·.isFrom .clientToServer) = false := by
      rw [any_eq_false]
      exact filter_eq_nil_iff.mp hrest
    rw [endsBetween, hany, ih hrest]
    simp

/-! ## Streams that are not gRPC -/

/-- A stream that is not gRPC, and the directions in which it has a message under way. -/
structure Plain (old : Option StreamState) (opened : Direction → Bool) : Prop where
  grpc : (old.getD {}).grpc = false
  pending : ∀ d, ((old.getD {}).pending d).isSome = opened d

theorem Plain.absent : Plain none fun _ => false where
  grpc := rfl
  pending d := by cases d <;> rfl

theorem Plain.setPending (hg : st.grpc = false) (h : ∀ d, (st.pending d).isSome = opened d)
    (d : Direction) (p : Option PendingMessage) :
    Plain (some (st.setPending d p)) (Function.update opened d p.isSome) where
  grpc := by cases d <;> exact hg
  pending d' := by
    by_cases hd : d' = d
    · subst hd
      rw [Option.getD_some, StreamState.pending_setPending, Function.update_self]
    · rw [Option.getD_some, StreamState.pending_setPending_other st hd, Function.update_of_ne hd]
      exact h d'

/-- A stream that has a message under way is in the table. -/
theorem Plain.exists_of_opened {old : Option StreamState} (h : Plain old opened)
    (ho : opened d = true) :
    ∃ st p, old = some st ∧ st.grpc = false ∧ (∀ d', (st.pending d').isSome = opened d') ∧
      st.pending d = some p := by
  cases old with
  | none =>
    have hp := h.pending d
    rw [ho] at hp
    cases d <;> cases hp
  | some st =>
    have hp := h.pending d
    rw [ho, Option.isSome_iff_exists] at hp
    obtain ⟨p, hp⟩ := hp
    exact ⟨st, p, rfl, h.grpc, h.pending, hp⟩

/-- A frame gives the message it ends, and nothing if it ends none. -/
def Delivers (id : Nat) (d : Direction) (endStream : Bool) (o : Outcome) : Prop :=
  ∃ m, o.result = .ok (if endStream then [addHttp2Metadata m id d] else [])

section Steps

variable {maxBody retained : Nat} {old : Option StreamState}

theorem Plain.marked (h : Plain old opened) (hg : marksGrpc hs = false) :
    (StreamState.marked old hs).grpc = false ∧
      ∀ d, ((StreamState.marked old hs).pending d).isSome = opened d := by
  refine ⟨?_, fun d => ?_⟩
  · rw [StreamState.marked, hg, h.grpc]
    rfl
  · rw [← h.pending d]
    cases d <;> rfl

/-- The end of a direction, or not, leaves the others as they are. -/
theorem Plain.goesOn {st : StreamState} (hg : st.grpc = false)
    (h : ∀ d, (st.pending d).isSome = opened d) (id : Nat) (d : Direction) (p : PendingMessage)
    (endStream : Bool) (old : Option StreamState) (retained' : Nat) {o : Outcome}
    (ho : o = if endStream then
        .ended d (st.setPending d none) retained [addHttp2Metadata p.finish id d]
      else ⟨.put (st.setPending d (some p)), retained', .ok []⟩) :
    Delivers id d endStream o ∧ if endStream && d = .serverToClient then o.change.next old = none
      else Plain (o.change.next old) (Function.update opened d (!endStream)) := by
  subst ho
  cases endStream with
  | false => exact ⟨⟨p.finish, rfl⟩, .setPending hg h d (some _)⟩
  | true =>
    refine ⟨⟨_, Outcome.ended_result ..⟩, ?_⟩
    cases d with
    | clientToServer => exact .setPending hg h .clientToServer none
    | serverToClient => rfl

/-- A frame of one side of the stream, which is not gRPC. -/
inductive Side (id : Nat) (d : Direction) : Arrival → Prop where
  | headers (retained : Nat) (endStream : Bool) {hs : Headers} :
      marksGrpc hs = false → Side id d ⟨retained, false, .headers d id endStream hs⟩
  | data (retained : Nat) (endStream : Bool) (data : Bytes) :
      Side id d ⟨retained, false, .data d id endStream data⟩

/-- The event begins a message. -/
def Event.starts : Event → Bool
  | .headers _ _ _ hs => (startLine hs).isSome
  | _ => false

/-- A frame begins a message or goes on with the one under way. -/
theorem Plain.step (h : Plain old opened) (maxBody : Nat) {id : Nat} {d : Direction} {a : Arrival}
    (ha : Side id d a) (hgo : a.event.starts = true ∨ opened d = true) :
    Delivers id d a.event.last (arrive maxBody old a) ∧
      if a.event.endsResponse then (arrive maxBody old a).change.next old = none
      else Plain ((arrive maxBody old a).change.next old)
        (Function.update opened d (!a.event.last)) := by
  cases ha with
  | @headers retained endStream hs hg =>
    obtain ⟨hgrpc, hpending⟩ := h.marked hg
    unfold arrive outcome headersOutcome
    cases hl : startLine hs with
    | some line =>
      simp only [Bool.and_false, Bool.false_eq_true, ↓reduceIte, hgrpc, hl, Event.endsResponse,
        Event.last, Option.isNone_some]
      cases endStream with
      | true => exact ⟨⟨_, rfl⟩, .setPending hgrpc hpending d none⟩
      | false => exact ⟨⟨⟨d, line, hs, [], false⟩, rfl⟩, .setPending hgrpc hpending d (some _)⟩
    | none =>
      have hsome := hpending d
      rw [hgo.resolve_left (by simp [Event.starts, hl]), Option.isSome_iff_exists] at hsome
      obtain ⟨p, hp⟩ := hsome
      simp only [Bool.and_false, Bool.false_eq_true, ↓reduceIte, hgrpc, hl, hp, Event.endsResponse,
        Event.last, Option.isNone_none, Bool.and_true]
      exact Plain.goesOn hgrpc hpending id d _ endStream old _ rfl
  | data retained endStream data =>
    obtain ⟨st, p, rfl, hgrpc, hpending, hp⟩ := h.exists_of_opened (hgo.resolve_left Bool.false_ne_true)
    unfold arrive outcome plainDataOutcome
    simp only [hgrpc, Bool.false_eq_true, ↓reduceIte, hp, Event.endsResponse, Event.last]
    exact Plain.goesOn hgrpc hpending id d _ endStream (some st) _ rfl

/-- Trailers on a stream that is not in the table. -/
theorem arrive_trailers_none (hl : startLine hs = none) (hg : marksGrpc hs = false) (id : Nat)
    (d : Direction) (endStream : Bool) :
    (arrive maxBody none ⟨retained, false, .headers d id endStream hs⟩).result =
      .error "HTTP/2 trailers arrived before initial headers" := by
  obtain ⟨hgrpc, -⟩ := Plain.absent.marked hg
  unfold arrive outcome headersOutcome
  simp only [Bool.and_false, Bool.false_eq_true, ↓reduceIte, hgrpc, hl,
    StreamState.pending_marked, Option.bind_none]

end Steps

/-! ## The phases of a request -/

/-- The results hold `n` requests of the stream, and no DATA found the stream missing. -/
structure Reports (id n : Nat) (rs : List (Except String (List DecodedMessage))) : Prop where
  requests : (rs.flatMap gives).countP (requestOf id) = n
  known : .error "HTTP/2 DATA arrived before HEADERS" ∉ rs

/-- The requests of a frame that delivers a message. -/
def delivered (d : Direction) (endStream : Bool) : Nat :=
  if endStream && d = .clientToServer then 1 else 0

theorem Delivers.reports_cons (h : Delivers id d endStream o) (n : Nat)
    (rs : List (Except String (List DecodedMessage))) :
    Reports id (delivered d endStream + n) (o.result :: rs) ↔ Reports id n rs := by
  obtain ⟨m, hm⟩ := h
  have hcount : (gives o.result).countP (requestOf id) = delivered d endStream := by
    rw [hm]
    cases endStream with
    | false => rfl
    | true =>
      simp only [↓reduceIte, gives, countP_singleton, requestOf_plain, delivered, Bool.true_and]
      cases d <;> simp
  constructor
  · rintro ⟨hrequests, hknown⟩
    rw [flatMap_cons, countP_append, hcount] at hrequests
    exact ⟨by omega, fun hmem => hknown (mem_cons_of_mem _ hmem)⟩
  · rintro ⟨hrequests, hknown⟩
    refine ⟨by rw [flatMap_cons, countP_append, hcount, hrequests], fun hmem => ?_⟩
    rcases mem_cons.mp hmem with heq | hmem
    · rw [hm] at heq
      cases heq
    · exact hknown hmem

theorem Delivers.server (h : Delivers id .serverToClient endStream o) :
    Reports id n (o.result :: rs) ↔ Reports id n rs := by
  have hcons := h.reports_cons n rs
  have hzero : delivered .serverToClient endStream = 0 := by cases endStream <;> rfl
  rwa [hzero, Nat.zero_add] at hcons

theorem Delivers.client_open (h : Delivers id .clientToServer false o) :
    Reports id n (o.result :: rs) ↔ Reports id n rs := by
  have hcons := h.reports_cons n rs
  rwa [show delivered .clientToServer false = 0 from rfl, Nat.zero_add] at hcons

theorem Delivers.client_end (h : Delivers id .clientToServer true o) :
    Reports id (1 + n) (o.result :: rs) ↔ Reports id n rs :=
  h.reports_cons n rs

/-- The arrival is one of the stream, which is not gRPC and is not refused. -/
structure Calm (id : Nat) (a : Arrival) : Prop where
  full : a.full = false
  id : a.event.id = id
  plain : a.event.plain = true

/-- The events of a direction among the arrivals of a stream. -/
def eventsFrom (d : Direction) (as : List Arrival) : List Event :=
  (as.map Arrival.event).filter (·.isFrom d)

/-- The server's events are a response, or the rest of one that is under way. -/
def serverFits (opened : Bool) (es : List Event) : Bool :=
  if opened then responseTail es else isResponse es

/-- The client's events are a request, or the rest of one that is under way. -/
def clientFits (opened : Bool) (es : List Event) : Bool :=
  if opened then requestTail es else isRequest es

theorem serverFits_cons {opened : Bool} (h : serverFits opened (e :: es) = true) :
    (e.starts = true ∨ opened = true) ∧ serverFits (!e.last) es = true ∧
      (e.last = true → es = []) := by
  have htail : ∀ endStream : Bool, (if endStream then es.isEmpty else responseTail es) = true →
      serverFits (!endStream) es = true ∧ (endStream = true → es = []) := by
    intro endStream h
    cases endStream with
    | false => exact ⟨h, nofun⟩
    | true =>
      obtain rfl := List.isEmpty_iff.mp h
      exact ⟨rfl, fun _ => rfl⟩
  cases opened with
  | true =>
    cases e with
    | reset id => cases h
    | headers d id endStream hs => exact ⟨.inr rfl, htail endStream h⟩
    | data d id endStream data => exact ⟨.inr rfl, htail endStream h⟩
  | false =>
    cases e with
    | headers d id endStream hs =>
      obtain ⟨hstarts, hrest⟩ := (Bool.and_eq_true _ _).mp h
      exact ⟨.inl hstarts, htail endStream hrest⟩
    | _ => cases h

theorem clientFits_cons {opened : Bool} (h : clientFits opened (e :: es) = true) :
    (e.starts = true ∨ opened = true) ∧ if e.last then es = [] else requestTail es = true := by
  have htail : ∀ endStream : Bool, (if endStream then es.isEmpty else requestTail es) = true →
      if endStream then es = [] else requestTail es = true := by
    intro endStream h
    cases endStream with
    | false => exact h
    | true => exact List.isEmpty_iff.mp h
  cases opened with
  | true =>
    cases e with
    | reset id => cases h
    | headers d id endStream hs =>
      obtain ⟨hlast, hrest⟩ := (Bool.and_eq_true _ _).mp h
      obtain ⟨rfl, -⟩ := (Bool.and_eq_true _ _).mp hlast
      exact ⟨.inr rfl, List.isEmpty_iff.mp hrest⟩
    | data d id endStream data => exact ⟨.inr rfl, htail endStream h⟩
  | false =>
    cases e with
    | headers d id endStream hs =>
      simp only [clientFits, isRequest, Bool.false_eq_true, if_false, Bool.and_eq_true] at h
      obtain ⟨method, hmethod⟩ := Option.isSome_iff_exists.mp h.1.1
      exact ⟨.inl (by simp [Event.starts, startLine, hmethod]), htail endStream h.2⟩
    | _ => cases h

section Phases

variable {maxBody : Nat} {old : Option StreamState} {a : Arrival} {as : List Arrival}

/-- An arrival comes from one side or the other. -/
theorem Calm.side (h : Calm id a) : ∃ d, Side id d a := by
  obtain ⟨retained, full, event⟩ := a
  obtain ⟨rfl, rfl, hplain⟩ := h
  cases event with
  | reset id => cases hplain
  | headers d id endStream hs =>
    exact ⟨d, .headers retained endStream (by simpa [Event.plain] using hplain)⟩
  | data d id endStream data => exact ⟨d, .data retained endStream data⟩

theorem Side.isFrom (h : Side id d a) (d' : Direction) : a.event.isFrom d' = decide (d = d') := by
  cases h <;> rfl

theorem Side.eventsFrom_self (h : Side id d a) (as : List Arrival) :
    eventsFrom d (a :: as) = a.event :: eventsFrom d as :=
  filter_cons_of_pos (by simp [h.isFrom])

theorem Side.eventsFrom_other (h : Side id d a) {d' : Direction} (hne : d ≠ d')
    (as : List Arrival) :
    eventsFrom d' (a :: as) = eventsFrom d' as :=
  filter_cons_of_neg (by simp [h.isFrom, hne])

theorem Side.endsResponse_client (h : Side id .clientToServer a) :
    a.event.endsResponse = false := by
  cases h <;> simp [Event.endsResponse]

theorem Side.last_of_endsResponse (h : Side id .serverToClient a)
    (he : a.event.endsResponse = true) : a.event.last = true := by
  cases h with
  | headers retained endStream hg =>
    simp only [Event.endsResponse, Bool.and_eq_true] at he
    exact he.1.1
  | data retained endStream data =>
    simp only [Event.endsResponse, Bool.and_eq_true] at he
    exact he.1

/-- What an event of the server does, whatever the client has done. -/
theorem Plain.server (h : Plain old opened) (maxBody : Nat) (ha : Side id .serverToClient a)
    {es : List Event} (hfits : serverFits (opened .serverToClient) (a.event :: es) = true) :
    Delivers id .serverToClient a.event.last (arrive maxBody old a) ∧
      ((a.event.endsResponse = false ∧
          Plain ((arrive maxBody old a).change.next old)
            (Function.update opened .serverToClient (!a.event.last)) ∧
          serverFits (!a.event.last) es = true) ∨
        (a.event.endsResponse = true ∧ (arrive maxBody old a).change.next old = none ∧
          es = [])) := by
  obtain ⟨hgo, hrest, hnil⟩ := serverFits_cons hfits
  obtain ⟨hdelivers, hnext⟩ := h.step maxBody ha hgo
  refine ⟨hdelivers, ?_⟩
  cases hends : a.event.endsResponse with
  | false => exact .inl ⟨rfl, by simpa [hends] using hnext, hrest⟩
  | true =>
    exact .inr ⟨rfl, by simpa [hends] using hnext, hnil (ha.last_of_endsResponse hends)⟩

/-- After its last frame a request is not reported again. -/
theorem done_reported (h : Plain old opened) (maxBody : Nat) (hcalm : ∀ a ∈ as, Calm id a)
    (hc : eventsFrom .clientToServer as = [])
    (hfits : serverFits (opened .serverToClient) (eventsFrom .serverToClient as) = true) :
    Reports id 0 (streamResults maxBody old as) := by
  induction as generalizing old opened with
  | nil => exact ⟨rfl, by simp [streamResults]⟩
  | cons a as ih =>
    rw [forall_mem_cons] at hcalm
    obtain ⟨d, ha⟩ := hcalm.1.side
    cases d with
    | clientToServer =>
      rw [ha.eventsFrom_self] at hc
      cases hc
    | serverToClient =>
      rw [ha.eventsFrom_other (by decide)] at hc
      rw [ha.eventsFrom_self] at hfits
      obtain ⟨hdelivers, hnext⟩ := h.server maxBody ha hfits
      rw [streamResults, hdelivers.server]
      rcases hnext with ⟨-, hplain, hfits'⟩ | ⟨-, hgone, hnone⟩
      · exact ih hplain hcalm.2 hc (by rwa [Function.update_self])
      · rw [hgone]
        exact ih .absent hcalm.2 hc (by rw [hnone]; rfl)

/-- A request that has lost its entry is not reported. -/
theorem lost_not_reported (hcalm : ∀ a ∈ as, Calm id a)
    (hserver : eventsFrom .serverToClient as = [])
    (htail : requestTail (eventsFrom .clientToServer as) = true) :
    ¬Reports id 1 (streamResults maxBody none as) := by
  have hclient : ∀ {as : List Arrival}, (∀ a ∈ as, Calm id a) →
      eventsFrom .serverToClient as = [] → eventsFrom .clientToServer as = [] → as = [] := by
    intro as hcalm hs hc
    cases as with
    | nil => rfl
    | cons a as =>
      obtain ⟨d, ha⟩ := (hcalm a (.head _)).side
      cases d with
      | clientToServer => cases (ha.eventsFrom_self as).symm.trans hc
      | serverToClient => cases (ha.eventsFrom_self as).symm.trans hs
  cases as with
  | nil => cases htail
  | cons a as =>
    rw [forall_mem_cons] at hcalm
    obtain ⟨d, ha⟩ := hcalm.1.side
    cases d with
    | serverToClient =>
      rw [ha.eventsFrom_self] at hserver
      cases hserver
    | clientToServer =>
      rw [ha.eventsFrom_self] at htail
      rw [ha.eventsFrom_other (by decide)] at hserver
      intro hreports
      cases ha with
      | data retained endStream data => exact hreports.known (.head _)
      | headers retained endStream hg =>
        simp only [requestTail, Bool.and_eq_true, Option.isNone_iff_eq_none,
          List.isEmpty_iff] at htail
        obtain ⟨⟨-, hl⟩, hrest⟩ := htail
        obtain rfl := hclient hcalm.2 hserver hrest
        have hcount := hreports.requests
        rw [streamResults, arrive_trailers_none hl hg] at hcount
        simp [streamResults, gives] at hcount

/-- A request that is to come or under way is reported unless a response ends too early. -/
theorem reported_iff (h : Plain old opened) {begun : Bool}
    (ho : begun = true → opened .clientToServer = true) (hcalm : ∀ a ∈ as, Calm id a)
    (hreq : clientFits begun (eventsFrom .clientToServer as) = true)
    (hfits : serverFits (opened .serverToClient) (eventsFrom .serverToClient as) = true) :
    Reports id 1 (streamResults maxBody old as) ↔
      endsBetween begun (as.map Arrival.event) = false := by
  induction as generalizing old opened begun with
  | nil => cases begun <;> cases hreq
  | cons a as ih =>
    rw [forall_mem_cons] at hcalm
    obtain ⟨d, ha⟩ := hcalm.1.side
    rw [map_cons, endsBetween, ha.isFrom, streamResults]
    cases d with
    | clientToServer =>
      rw [ha.eventsFrom_self] at hreq
      rw [ha.eventsFrom_other (by decide)] at hfits
      obtain ⟨hgo, htail⟩ := clientFits_cons hreq
      obtain ⟨hdelivers, hplain⟩ := h.step maxBody ha (hgo.imp_right ho)
      rw [ha.endsResponse_client] at hplain ⊢
      have hfits' : serverFits (Function.update opened .clientToServer (!a.event.last)
          .serverToClient) (eventsFrom .serverToClient as) = true := by
        rwa [Function.update_of_ne (by decide)]
      simp only [Bool.and_false, Bool.false_and, Bool.false_or, decide_true, Bool.or_true]
      cases hlast : a.event.last with
      | true =>
        rw [hlast] at hdelivers hplain htail hfits'
        rw [endsBetween_of_done htail]
        exact iff_of_true
          (hdelivers.client_end.mpr (done_reported hplain maxBody hcalm.2 htail hfits'))
          rfl
      | false =>
        rw [hlast] at hdelivers hplain htail hfits'
        rw [hdelivers.client_open]
        exact ih hplain (fun _ => Function.update_self ..) hcalm.2 htail hfits'
    | serverToClient =>
      rw [ha.eventsFrom_other (by decide)] at hreq
      rw [ha.eventsFrom_self] at hfits
      obtain ⟨hdelivers, hnext⟩ := h.server maxBody ha hfits
      rw [hdelivers.server, show decide (Direction.serverToClient = .clientToServer) =
        false from rfl, Bool.or_false]
      rcases hnext with ⟨hends, hplain, hfits'⟩ | ⟨hends, hgone, hnone⟩
      · rw [hends, Bool.and_false, Bool.false_and, Bool.false_or]
        exact ih hplain (fun hb => by rw [Function.update_of_ne (by decide), ho hb]) hcalm.2 hreq
          (by rwa [Function.update_self])
      · rw [hgone, hends, Bool.and_true]
        cases begun with
        | false => exact ih .absent (by rintro ⟨⟩) hcalm.2 hreq (by rw [hnone]; rfl)
        | true =>
          -- The entry is gone, and the rest of the request is still to come.
          have hany : (as.map Arrival.event).any (·.isFrom .clientToServer) = true := by
            rw [any_eq_true]
            by_contra hno
            have hnil : eventsFrom .clientToServer as = [] :=
              filter_eq_nil_iff.mpr fun e he hf => hno ⟨e, he, hf⟩
            rw [hnil] at hreq
            cases hreq
          rw [hany]
          exact iff_of_false (lost_not_reported hcalm.2 hnone hreq) (by simp)

end Phases

/-! ## Runs -/

/-- On the stream `id` the events are a request that is not gRPC and a response to it, or
a part of one, in any order; the streams are few and the stream is not reset. -/
structure IsExchange (id : Nat) (es : List Event) : Prop where
  few : (es.map Event.id).toFinset.card ≤ maxTrackedStreams
  plain : ∀ e ∈ es.filter (·.id = id), e.plain = true
  request : isRequest ((es.filter (·.id = id)).filter (·.isFrom .clientToServer)) = true
  response : isResponse ((es.filter (·.id = id)).filter (·.isFrom .serverToClient)) = true

theorem IsExchange.reports_iff (h : IsExchange id es) (maxBody : Nat) :
    Reports id 1 ((Table.new maxBody).resultsFor id es) ↔
      endsBetween false (es.filter (·.id = id)) = false := by
  have hevents := (Table.new maxBody).arrivals_map_event id es
  have hcalm : ∀ a ∈ (Table.new maxBody).arrivals id es, Calm id a := by
    intro a ha
    have hmem : a.event ∈ es.filter (·.id = id) := hevents ▸ mem_map_of_mem ha
    exact ⟨Table.arrivals_full (.new maxBody h.few) a ha,
      by simpa using (mem_filter.mp hmem).2, h.plain a.event hmem⟩
  rw [Table.resultsFor_eq, ← hevents]
  exact reported_iff .absent (fun hb : false = true => nomatch hb) hcalm
    (by rw [eventsFrom, hevents]; exact h.request) (by rw [eventsFrom, hevents]; exact h.response)

namespace Http2Decoder

variable {η : Type}

/-- The run emits one message with the labels of a request on the stream, and no DATA of
the stream finds it missing. -/
structure RequestReported (hp : Hpack η) (maxBody : Nat) (calls : List Call) (id : Nat) :
    Prop where
  once : (((new hp maxBody).run hp calls).2.flatMap Stream.Batch.messages).countP
    (requestOf id) = 1
  known : .error "HTTP/2 DATA arrived before HEADERS" ∉
    (Table.new maxBody).resultsFor id ((new hp maxBody).events hp calls)

/-- A response that ends while the client still sends its request. -/
def earlyResponse : List Call :=
  [.push .clientToServer (clientPreface ++
      Frame.bytes ⟨frameHeaders, flagEndHeaders, 1, [0x83, 0x84]⟩),
    .push .serverToClient ([⟨frameHeaders, flagEndHeaders, 1, [0x88]⟩,
      ⟨frameData, flagEndStream, 1, [1, 2]⟩].flatMap Frame.bytes),
    .push .clientToServer (Frame.bytes ⟨frameData, flagEndStream, 1, [3, 4]⟩)]

theorem earlyResponse_within : Within .static earlyResponse where
  opens d := by cases d <;> exact .inl (by decide +kernel)
  ends := trivial
  frames := by decide +kernel

theorem earlyResponse_exchange : IsExchange 1 (wireEvents .static earlyResponse) := by
  constructor <;> decide +kernel

/-- The response comes after the request, whose DATA is cut between two pushes. -/
def lateResponse : List Call :=
  [.push .clientToServer (clientPreface ++
      Frame.bytes ⟨frameHeaders, flagEndHeaders, 1, [0x83, 0x84]⟩ ++
        (Frame.bytes ⟨frameData, flagEndStream, 1, [3, 4]⟩).take 10),
    .push .serverToClient (Frame.bytes ⟨frameHeaders, flagEndHeaders, 1, [0x88]⟩),
    .push .clientToServer [4],
    .push .serverToClient (Frame.bytes ⟨frameData, flagEndStream, 1, [1, 2]⟩)]

end Http2Decoder

end Lens.Http2
