import Lens.Http2.Decoder

/-!
# Requests of one stream

A request that is not gRPC is a header list and then DATA frames and perhaps
trailers, the last of them with END_STREAM.  Whatever the frames, the decoder
completes one message for it, with the headers as they were decoded, the trailers
after them, and a body that the headers have no part in (`requestMessages_eq`).
-/

namespace Lens.Http2.Http2Decoder

open List

variable {η : Type} {s : Http2Decoder η} {id : Nat} {p : PendingMessage}

/-- The messages of a handled frame. -/
def messagesOf : Except String (List DecodedMessage) → List DecodedMessage
  | .ok messages => messages
  | .error _ => []

/-- The frames of a request after its headers. -/
def bodyMessages (s : Http2Decoder η) (id : Nat) :
    List Bytes → Option Headers → List DecodedMessage
  | [], none => []
  | [], some trailers => messagesOf (s.applyHeaders .clientToServer id true trailers).2
  | data :: rest, trailers =>
    let last := rest.isEmpty && trailers.isNone
    let r := s.handleData .clientToServer
      ⟨frameData, if last then flagEndStream else 0, id, data⟩
    messagesOf r.2 ++ bodyMessages r.1 id rest trailers

/-- A request as the client sends it: the header list, the data and the trailers. -/
def requestMessages (s : Http2Decoder η) (id : Nat) (headers : Headers)
    (datas : List Bytes) (trailers : Option Headers) :
    List DecodedMessage :=
  let r := s.applyHeaders .clientToServer id (datas.isEmpty && trailers.isNone) headers
  messagesOf r.2 ++ bodyMessages r.1 id datas trailers

/-- A header list that does not make its stream a gRPC one. -/
def NotGrpc (headers : Headers) : Prop :=
  Str.startsWith (Str.toAsciiLowercase ((findHeader headers "content-type").getD ""))
    "application/grpc" = false

/-- A header list of trailers: no method and no status. -/
structure IsTrailers (headers : Headers) : Prop where
  method : findHeader headers ":method" = none
  status : findHeader headers ":status" = none
  notGrpc : NotGrpc headers

/-- A stream that a request can go on. -/
structure Accepts (s : Http2Decoder η) (id : Nat) : Prop where
  nonzero : id ≠ 0
  room : (s.streams.lookup id).isSome ∨ s.streams.entries.length < maxTrackedStreams
  notGrpc : ∀ st, s.streams.lookup id = some st → st.grpc = false

/-- The header list of a request is put on its stream as it is. -/
theorem applyHeaders_request (hs : s.Accepts id) {headers : Headers}
    (hg : NotGrpc headers) {method : String} (hm : findHeader headers ":method" = some method)
    (endStream : Bool) : ∃ st : StreamState, st.grpc = false ∧
      s.applyHeaders .clientToServer id endStream headers =
        (s.setStream id st).plainHeaders .clientToServer id endStream st headers
          (method ++ " " ++ (findHeader headers ":path").getD "/" ++ " HTTP/2") := by
  have hfull : ¬ ((s.streams.lookup id).isNone ∧ maxTrackedStreams ≤ s.streams.entries.length) := by
    rintro ⟨hnone, hlen⟩
    rcases hs.room with hsome | hlt
    · rw [Option.isNone_iff_eq_none] at hnone
      rw [hnone] at hsome
      cases hsome
    · omega
  have hold : ((s.streams.lookup id).getD {}).grpc = false := by
    cases hst : s.streams.lookup id with
    | none => rfl
    | some st => exact hs.notGrpc st hst
  refine ⟨{ (s.streams.lookup id).getD {} with
      path := (findHeader headers ":path").or ((s.streams.lookup id).getD {}).path
      grpc := false }, rfl, ?_⟩
  rw [NotGrpc] at hg
  rw [applyHeaders, if_neg hfull]
  simp only [hold, hg, hm, Bool.or_self, Bool.false_eq_true, if_false]

/-- A stream that waits for the rest of a request. -/
structure Waits (s : Http2Decoder η) (id : Nat) (p : PendingMessage) : Prop where
  nonzero : id ≠ 0
  stream : ∃ st, s.streams.lookup id = some st ∧ st.grpc = false ∧
    st.pending .clientToServer = some p

/-- What a DATA frame adds to the body, and whether something was left out. -/
def captured (s : Http2Decoder η) (p : PendingMessage) (data : Bytes) : Nat :=
  min (min (s.maxBody - p.body.length) (maxInflightCapture - s.retainedBodyBytes)) data.length

/-- A pending message after a DATA frame. -/
def withData (s : Http2Decoder η) (p : PendingMessage) (data : Bytes) : PendingMessage :=
  { p with
    body := p.body ++ data.take (captured s p data)
    truncated := p.truncated || decide (captured s p data < data.length) }

/-- The last DATA frame completes the message. -/
theorem handleData_last (h : s.Waits id p) (data : Bytes) :
    (s.handleData .clientToServer ⟨frameData, flagEndStream, id, data⟩).2 =
      .ok [addHttp2Metadata (withData s p data).finish id .clientToServer] := by
  obtain ⟨st, hst, hg, hp⟩ := h.stream
  have hpad : Frame.has ⟨frameData, flagEndStream, id, data⟩ flagPadded = false := by
    rw [Frame.has_mk]
    decide
  have hfrag : dataFragment ⟨frameData, flagEndStream, id, data⟩ = .ok data := by
    simp [dataFragment, hpad]
  have hend : Frame.has ⟨frameData, flagEndStream, id, data⟩ flagEndStream = true := by
    rw [Frame.has_mk]
    decide
  rw [handleData, if_neg h.nonzero, hfrag]
  simp only [hst, hg, hend, plainData, hp]
  rfl

/-- Any other DATA frame goes to the body under way. -/
theorem handleData_more (h : s.Waits id p) (data : Bytes) :
    (s.handleData .clientToServer ⟨frameData, 0, id, data⟩).2 = .ok [] ∧
      (s.handleData .clientToServer ⟨frameData, 0, id, data⟩).1.Waits id (withData s p data) ∧
      (s.handleData .clientToServer ⟨frameData, 0, id, data⟩).1.maxBody = s.maxBody ∧
      (s.handleData .clientToServer ⟨frameData, 0, id, data⟩).1.retainedBodyBytes =
        saturatingAdd s.retainedBodyBytes (captured s p data) := by
  obtain ⟨st, hst, hg, hp⟩ := h.stream
  have hpad : Frame.has ⟨frameData, 0, id, data⟩ flagPadded = false := by
    rw [Frame.has_mk]
    decide
  have hfrag : dataFragment ⟨frameData, 0, id, data⟩ = .ok data := by
    simp [dataFragment, hpad]
  have hend : Frame.has ⟨frameData, 0, id, data⟩ flagEndStream = false := by
    rw [Frame.has_mk]
    decide
  rw [handleData, if_neg h.nonzero, hfrag]
  simp only [hst, hg, hend, plainData, hp]
  refine ⟨rfl, ⟨h.nonzero, st.setPending .clientToServer (some (withData s p data)), ?_, hg, rfl⟩,
    rfl, rfl⟩
  exact AList.lookup_insert _

/-- Trailers complete the message. -/
theorem applyHeaders_trailers (h : s.Waits id p) {trailers : Headers}
    (ht : IsTrailers trailers) : (s.applyHeaders .clientToServer id true trailers).2 =
      .ok [addHttp2Metadata { p with headers := p.headers ++ trailers }.finish id
        .clientToServer] := by
  obtain ⟨st, hst, hg, hp⟩ := h.stream
  have hp' : ∀ path, StreamState.pending { st with path := path, grpc := false } .clientToServer =
      some p := fun _ => hp
  have hfull : ¬ ((s.streams.lookup id).isNone ∧ maxTrackedStreams ≤ s.streams.entries.length) := by
    rw [hst]
    simp
  have hplain := ht.notGrpc
  rw [NotGrpc] at hplain
  rw [applyHeaders, if_neg hfull]
  simp only [hst, Option.getD_some, hg, hplain, Bool.or_self, ht.method, ht.status, plainTrailers,
    hp']
  rfl

/-- The rest of a request completes one message.  Its body does not depend on the
headers. -/
theorem bodyMessages_eq {id : Nat} {trailers : Option Headers}
    (ht : ∀ ts, trailers = some ts → IsTrailers ts) :
    ∀ (datas : List Bytes) (maxBody retained : Nat) (body : Bytes) (truncated : Bool),
      (datas.isEmpty && trailers.isNone) = false →
      ∃ (body' : Bytes) (truncated' : Bool), ∀ (s : Http2Decoder η) (p : PendingMessage),
        s.maxBody = maxBody → s.retainedBodyBytes = retained → p.direction = .clientToServer →
        p.body = body → p.truncated = truncated → s.Waits id p →
        bodyMessages s id datas trailers = [addHttp2Metadata ⟨.clientToServer, p.startLine,
          p.headers ++ trailers.getD [], body', truncated'⟩ id .clientToServer]
  | [], maxBody, retained, body, truncated, hne => by
    cases trailers with
    | none => cases hne
    | some ts =>
      refine ⟨body, truncated, ?_⟩
      intro s p _ _ hdir hbody htrunc hw
      rw [bodyMessages, applyHeaders_trailers hw (ht ts rfl), messagesOf, ← hbody, ← htrunc, ← hdir]
      rfl
  | data :: rest, maxBody, retained, body, truncated, _ => by
    let size := min (min (maxBody - body.length) (maxInflightCapture - retained)) data.length
    cases hlast : rest.isEmpty && trailers.isNone with
    | true =>
      rw [Bool.and_eq_true, List.isEmpty_iff, Option.isNone_iff_eq_none] at hlast
      obtain ⟨rfl, rfl⟩ := hlast
      refine ⟨body ++ data.take size, truncated || decide (size < data.length), ?_⟩
      intro s p hmax hret hdir hbody htrunc hw
      subst hmax hret hbody htrunc
      simp only [bodyMessages, isEmpty_nil, Option.isNone_none, Bool.and_self, if_true,
        handleData_last hw, messagesOf, append_nil]
      simp [withData, PendingMessage.finish, hdir, captured, size]
    | false =>
      obtain ⟨body', truncated', ih⟩ := bodyMessages_eq ht rest maxBody
        (saturatingAdd retained size) (body ++ data.take size)
        (truncated || decide (size < data.length)) hlast
      refine ⟨body', truncated', ?_⟩
      intro s p hmax hret hdir hbody htrunc hw
      subst hmax hret hbody htrunc
      obtain ⟨hok, hwait, hmax', hret'⟩ := handleData_more hw data
      rw [bodyMessages]
      simp only [hlast, Bool.false_eq_true, if_false, hok, messagesOf, nil_append]
      exact ih _ (withData s p data) hmax' hret' hdir rfl rfl hwait

/-- A request completes one message, with its header list as it was decoded. -/
theorem requestMessages_eq (hs : s.Accepts id) (datas : List Bytes)
    {trailers : Option Headers} (ht : ∀ ts, trailers = some ts → IsTrailers ts) :
    ∃ (body : Bytes) (truncated : Bool),
      ∀ (headers : Headers) (method : String),
      NotGrpc headers → findHeader headers ":method" = some method →
      requestMessages s id headers datas trailers = [addHttp2Metadata ⟨.clientToServer,
        method ++ " " ++ (findHeader headers ":path").getD "/" ++ " HTTP/2",
        headers ++ trailers.getD [], body, truncated⟩ id .clientToServer] := by
  cases hlast : datas.isEmpty && trailers.isNone with
  | true =>
    rw [Bool.and_eq_true, List.isEmpty_iff, Option.isNone_iff_eq_none] at hlast
    obtain ⟨rfl, rfl⟩ := hlast
    refine ⟨[], false, ?_⟩
    intro headers method hg hm
    obtain ⟨st, -, happ⟩ := applyHeaders_request hs hg hm true
    simp only [requestMessages, isEmpty_nil, Option.isNone_none, Bool.and_self, happ]
    simp [plainHeaders, messagesOf, bodyMessages, PendingMessage.finish]
  | false =>
    obtain ⟨body, truncated, hbody⟩ :=
      @bodyMessages_eq η id trailers ht datas s.maxBody s.retainedBodyBytes [] false hlast
    refine ⟨body, truncated, ?_⟩
    intro headers method hg hm
    obtain ⟨st, hst, happ⟩ := applyHeaders_request hs hg hm false
    simp only [requestMessages, hlast, happ]
    have hwait : ((s.setStream id st).plainHeaders .clientToServer id false st headers
        (method ++ " " ++ (findHeader headers ":path").getD "/" ++ " HTTP/2")).1.Waits id
        ⟨.clientToServer, method ++ " " ++ (findHeader headers ":path").getD "/" ++ " HTTP/2",
          headers, [], false⟩ :=
      ⟨hs.nonzero, _, AList.lookup_insert _, hst, rfl⟩
    refine hbody _ _ ?_ ?_ ?_ ?_ ?_ hwait
    all_goals rfl

end Lens.Http2.Http2Decoder
