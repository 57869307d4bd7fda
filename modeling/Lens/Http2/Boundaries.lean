import Lens.Http2.Calls

/-!
# The boundary of a gRPC response

The store measures the latency of a call when a message of the server carries the
response boundary.  The server ends a call with END_STREAM, on trailers, on a header list
that is both initial and last, or on DATA.  Trailers always give a boundary.  A header list
with `:status` never does, and DATA does if it leaves no envelope under way.  On a connection
within the limits of the decoder, and without header fields of the server that are named like
the boundary, those are the calls with exactly one boundary (`boundary_iff`).
-/

namespace Lens.Http2

open List

/-- The store takes the message for the end of a response. -/
def isResponseBoundary (m : DecodedMessage) : Bool :=
  decide (m.direction = .serverToClient) &&
    decide (findHeader m.headers "lens-boundary" = some "response")

def boundaries (ms : List DecodedMessage) : Nat := ms.countP isResponseBoundary

/-- An event of a call before the server ends it.  Header lists of the server begin a
response. -/
def underWay : Event → Bool
  | .headers .serverToClient _ endStream hs => !endStream && (startLine hs).isSome
  | .data .serverToClient _ endStream _ => !endStream
  | .headers .clientToServer .. | .data .clientToServer .. => true
  | .reset _ => false

/-- The server ends a call. -/
def endsCall : Event → Bool
  | .headers .serverToClient _ endStream _ | .data .serverToClient _ endStream _ => endStream
  | .headers .clientToServer .. | .data .clientToServer .. | .reset _ => false

/-- No header field of the server is named like the boundary. -/
def unlabelled : Event → Bool
  | .headers .serverToClient _ _ hs => (findHeader hs "lens-boundary").isNone
  | _ => true

/-- The end of a call is on trailers, or on DATA that leaves no envelope under way. -/
def endsWell (buf : Bytes) : Event → Bool
  | .headers _ _ _ hs => (startLine hs).isNone
  | .data _ _ _ data => decide ((envelopes.records (buf ++ data)).2 = some [])
  | .reset _ => false

/-! ## Messages -/

theorem boundaries_append (ms ms' : List DecodedMessage) :
    boundaries (ms ++ ms') = boundaries ms + boundaries ms' :=
  countP_append

variable {ms : List DecodedMessage} {d : Direction} {id : Nat} {path : String} {st : StreamState}
  {hs : Headers}

theorem boundaries_eq_zero
    (h : ∀ m ∈ ms, m.direction = .clientToServer ∨ findHeader m.headers "lens-boundary" ≠
      some "response") : boundaries ms = 0 := by
  rw [boundaries, countP_eq_zero]
  intro m hm
  rcases h m hm with hd | hb
  · simp [isResponseBoundary, hd]
  · simp [isResponseBoundary, hb]

/-- The messages of payloads are no boundaries. -/
theorem boundaries_payloads {K : GrpcPayload → Bytes → Prop} {rs : List Envelope}
    (h : List.Forall₂ (GrpcParser.Tells K d id path) ms rs) : boundaries ms = 0 := by
  refine boundaries_eq_zero ?_
  induction h with
  | nil => simp
  | cons hm _ ih =>
    obtain ⟨q, rfl, -⟩ := hm
    refine forall_mem_cons.mpr ⟨.inr ?_, ih⟩
    have hnone : findHeader (q.finish d id path).headers "lens-boundary" = none :=
      findHeader_eq_none (show ["lens-protocol", "lens-content", "lens-stream-id",
        "grpc-compressed", "grpc-message-bytes"].all _ = true by decide +kernel)
    simp [hnone]

theorem findHeader_marks (id : Nat) :
    findHeader [("lens-protocol", "grpc"), ("lens-stream-id", toString id)] "lens-boundary" =
      none :=
  findHeader_eq_none (show ["lens-protocol", "lens-stream-id"].all _ = true by decide +kernel)

/-- A header list that begins a response is no boundary. -/
theorem boundaries_initial (hline : (startLine hs).isSome)
    (hno : findHeader hs "lens-boundary" = none) : boundaries [grpcMessage d id st hs] = 0 := by
  have hmarked : findHeader (hs ++ [("lens-protocol", "grpc"), ("lens-stream-id", toString id)])
      "lens-boundary" = none := by
    rw [findHeader_append, hno, findHeader_marks, Option.or_none]
  have hrequest : findHeader [("lens-boundary", "request")] "lens-boundary" = some "request" := by
    decide +kernel
  refine boundaries_eq_zero fun m hm => .inr ?_
  obtain rfl := mem_singleton.mp hm
  unfold grpcMessage
  unfold startLine at hline
  cases hmethod : findHeader hs ":method" with
  | some method =>
    simp only [findHeader_append _ [("lens-boundary", "request")], hmarked, hrequest,
      Option.none_or]
    decide
  | none =>
    cases hstatus : findHeader hs ":status" with
    | some status =>
      simp only [hmarked]
      decide
    | none => simp [hmethod, hstatus] at hline

/-- Trailers of the server are a boundary. -/
theorem boundaries_trailers (hline : startLine hs = none)
    (hno : findHeader hs "lens-boundary" = none) :
    boundaries [grpcMessage .serverToClient id st hs] = 1 := by
  have hresponse :
      findHeader [("lens-boundary", "response")] "lens-boundary" = some "response" := by
    decide +kernel
  have hmarked : findHeader (hs ++ [("lens-protocol", "grpc"), ("lens-stream-id", toString id)] ++
      [("lens-boundary", "response")]) "lens-boundary" = some "response" := by
    rw [findHeader_append, findHeader_append, hno, findHeader_marks, hresponse]
    rfl
  have hmessage : isResponseBoundary (grpcMessage .serverToClient id st hs) = true := by
    unfold startLine at hline
    cases hmethod : findHeader hs ":method" with
    | some method => simp [hmethod] at hline
    | none =>
      cases hstatus : findHeader hs ":status" with
      | some status => simp [hmethod, hstatus] at hline
      | none =>
        rw [isResponseBoundary, grpcMessage]
        simp only [hmethod, hstatus, ↓reduceIte, hmarked, decide_true, Bool.and_self]
  rw [boundaries, countP_singleton, hmessage]
  rfl

theorem boundaries_endMessages (id : Nat) : boundaries (endMessages .serverToClient id) = 1 := by
  have hresponse : findHeader (Http2Decoder.endedWithoutTrailers .serverToClient id).headers
      "lens-boundary" = some "response" := by
    change findHeader ([("lens-protocol", "grpc"), ("lens-stream-id", toString id)] ++
      [("lens-boundary", "response"), ("grpc-status", "missing")]) _ = _
    rw [findHeader_append, findHeader_marks]
    decide +kernel
  rw [endMessages, if_pos rfl, boundaries, countP_singleton, isResponseBoundary, hresponse]
  rfl

theorem direction_grpcMessage (d : Direction) (id : Nat) (st : StreamState)
    (hs : Headers) : (grpcMessage d id st hs).direction = d := by
  unfold grpcMessage
  cases findHeader hs ":method" <;> cases findHeader hs ":status" <;> rfl

/-! ## Messages of the client -/

/-- The message under way of the client, if there is one, is a message of the client. -/
def ClientPending (old : Option StreamState) : Prop :=
  ∀ st, old = some st → st.grpc = true ∨
    ∀ p, st.pending .clientToServer = some p → p.direction = .clientToServer

section Client

variable {mb retained : Nat} {full : Bool} {old : Option StreamState}

/-- The outcome of an event of the client: its messages are the client's. -/
structure Outcome.OfClient (old : Option StreamState) (o : Outcome) : Prop where
  messages : ∀ m ∈ gives o.result, m.direction = .clientToServer
  next : ClientPending (o.change.next old)

theorem ClientPending.of_grpc (h : st.grpc = true) : ClientPending (some st) :=
  fun _ hst => .inl (Option.some.inj hst ▸ h)

theorem ClientPending.setPending {p : Option PendingMessage}
    (h : ∀ q, p = some q → q.direction = .clientToServer) :
    ClientPending (some (st.setPending .clientToServer p)) :=
  fun _ hst => .inr fun q hq => h q (by rw [← Option.some.inj hst] at hq; exact hq)

/-- The message under way on a stream that is not gRPC. -/
theorem ClientPending.direction (h : ClientPending (some st)) (hg : st.grpc = false)
    {p : PendingMessage} (hp : st.pending .clientToServer = some p) :
    p.direction = .clientToServer := by
  rcases h st rfl with hgrpc | hdir
  · rw [hg] at hgrpc
    cases hgrpc
  · exact hdir p hp

theorem ClientPending.marked (h : ClientPending old) (hs : Headers) :
    ClientPending (some (StreamState.marked old hs)) := by
  intro st hst
  obtain rfl := Option.some.inj hst
  cases old with
  | none => exact .inr fun p hp => by simp at hp
  | some st =>
    rcases h st rfl with hgrpc | hdir
    · exact .inl (by simp [StreamState.marked, hgrpc])
    · exact .inr fun p hp => hdir p (by simpa using hp)

/-- What is not an event of the server gives messages of the client. -/
theorem outcome_ofClient {e : Event} (he : e.direction ≠ some .serverToClient)
    (h : ClientPending old) : (outcome mb retained full old e).OfClient old := by
  have hclient : ∀ {d : Direction},
      some d ≠ some Direction.serverToClient → d = .clientToServer := by
    intro d hd
    cases d with
    | clientToServer => rfl
    | serverToClient => exact absurd rfl hd
  have hyields := outcome_yields mb retained full old e
  generalize outcome mb retained full old e = o at hyields
  cases hyields with
  | reset => exact ⟨by simp [gives], fun st hst => by cases hst⟩
  | full | noStream | noMessage => exact ⟨by simp [gives], h⟩
  | orphan => exact ⟨by simp [gives], h.marked _⟩
  | grpcHeaders hg | grpcHeadersEnd hg =>
    obtain rfl := hclient he
    exact ⟨by simp [gives, direction_grpcMessage], .of_grpc hg⟩
  | start | startEnd =>
    obtain rfl := hclient he
    exact ⟨by simp [gives, addHttp2Metadata, PendingMessage.finish], .setPending (by simp)⟩
  | trailers hg _ hp | trailersEnd hg _ hp =>
    obtain rfl := hclient he
    have hdir := (h.marked _).direction hg hp
    exact ⟨by simp [gives, addHttp2Metadata, PendingMessage.finish, hdir],
      .setPending (by simp [hdir])⟩
  | data hold hg hp | dataEnd hold hg hp =>
    obtain rfl := hclient he
    subst hold
    have hdir := h.direction hg hp
    exact ⟨by simp [gives, addHttp2Metadata, PendingMessage.finish, PendingMessage.extend, hdir],
      .setPending (by simp [PendingMessage.extend, hdir])⟩
  | refused _ hg | inside _ hg =>
    obtain rfl := hclient he
    exact ⟨by simp [gives], .of_grpc hg⟩
  | push _ hg hpush | pushEnd _ hg hpush =>
    obtain rfl := hclient he
    have hms := GrpcParser.pushLoop_direction (congrArg Prod.snd hpush)
    exact ⟨by simpa [gives, endMessages] using hms, .of_grpc hg⟩

end Client

/-! ## The stream -/

section Server

variable (mb : Nat) {buf : Bytes} {a : Arrival} {old : Option StreamState} {as : List Arrival}

theorem boundaries_ofClient {o : Outcome} (h : o.OfClient old) : boundaries (gives o.result) = 0 :=
  boundaries_eq_zero fun m hm => .inl (h.messages m hm)

/-- DATA of the server is a boundary if it ends the response and leaves no envelope under way. -/
theorem grpcData_boundaries (h : Calling .serverToClient st buf) (id : Nat) (endStream : Bool)
    (data : Bytes) (retained : Nat) :
    boundaries (gives (grpcDataOutcome .serverToClient id endStream data mb retained st).result) =
      if endStream = true ∧ (envelopes.records (buf ++ data)).2 = some [] then 1 else 0 := by
  have hk := anyBody_kept (captureLimit mb retained (st.grpcParser .serverToClient))
  by_cases hlost : ∀ left, (envelopes.records (buf ++ data)).2 = some left →
      endStream = true ∧ left ≠ []
  · obtain ⟨reason, hresult⟩ := grpcData_lost hk h.holds id hlost
    rw [hresult, if_neg fun hend => (hlost [] hend.2).2 rfl]
    rfl
  · push Not at hlost
    obtain ⟨left, hread, hgood⟩ := hlost
    obtain ⟨ms, hms, hresult⟩ := grpcData_ok hk h.holds id (Prod.ext rfl hread) hgood
    rw [hresult]
    simp only [gives, boundaries_append, boundaries_payloads hms, Nat.zero_add, hread]
    cases endStream with
    | false => rfl
    | true =>
      obtain rfl := hgood rfl
      exact boundaries_endMessages id

/-- Before the end of the call there is no boundary. -/
theorem underWay_boundaries (h : Calling .serverToClient st buf) (ha : underWay a.event = true)
    (hno : unlabelled a.event = true) : boundaries (gives (arrive mb (some st) a).result) = 0 := by
  by_cases hd : a.event.direction = some .serverToClient
  · obtain ⟨retained, full, e⟩ := a
    cases e with
    | reset id => cases ha
    | headers d id endStream hs =>
      obtain rfl : d = .serverToClient := Option.some.inj hd
      simp only [underWay, Bool.and_eq_true, Bool.not_eq_true'] at ha
      obtain ⟨rfl, hline⟩ := ha
      rw [arrive_headers mb (marked_grpc h.grpc hs) rfl rfl]
      exact boundaries_initial hline (Option.isNone_iff_eq_none.mp hno)
    | data d id endStream data =>
      obtain rfl : d = .serverToClient := Option.some.inj hd
      obtain rfl : endStream = false := by simpa [underWay] using ha
      rw [arrive_grpcData mb h.grpc rfl, grpcData_boundaries mb h]
      exact if_neg (by simp)
  · exact boundaries_ofClient (outcome_ofClient hd (.of_grpc h.grpc))

theorem closes_of_underWay {e : Event} (h : underWay e = true) : e.closes = false := by
  match e, h with
  | .headers .serverToClient _ false _, _ | .data .serverToClient _ false _, _ => rfl
  | .headers .clientToServer .., _ | .data .clientToServer .., _ => rfl

/-- The end of the call has a boundary if and only if it ends well. -/
theorem endsCall_boundaries (h : Calling .serverToClient st buf) (ha : endsCall a.event = true)
    (hno : unlabelled a.event = true) : boundaries (gives (arrive mb (some st) a).result) =
      if endsWell buf a.event then 1 else 0 := by
  obtain ⟨retained, full, e⟩ := a
  match e, ha with
  | .headers .serverToClient id true hs, _ =>
    have hnone := Option.isNone_iff_eq_none.mp hno
    rw [arrive_headers mb (marked_grpc h.grpc hs) rfl rfl, if_pos rfl,
      Outcome.ended_result, endsWell]
    cases hline : startLine hs with
    | none => exact boundaries_trailers hline hnone
    | some line => exact boundaries_initial (by simp [hline]) hnone
  | .data .serverToClient id true data, _ =>
    rw [arrive_grpcData mb h.grpc rfl, grpcData_boundaries mb h]
    simp [endsWell]

/-- After the end of the call only the client's messages are left to come. -/
theorem endsCall_next (hg : st.grpc = true) (ha : endsCall a.event = true) :
    ClientPending ((arrive mb (some st) a).change.next (some st)) := by
  obtain ⟨retained, full, e⟩ := a
  match e, ha with
  | .headers .serverToClient id true hs, _ =>
    rw [arrive_headers mb (marked_grpc hg hs) rfl rfl]
    exact fun st' hst' => by cases hst'
  | .data .serverToClient id true data, _ =>
    rw [arrive_grpcData mb hg rfl]
    intro st' hst'
    rw [grpcDataOutcome_grpcParser hst']
    exact .inl hg

/-! ## Runs -/

/-- The boundaries that arrivals on a stream give. -/
def boundariesOf (old : Option StreamState) (as : List Arrival) : Nat :=
  boundaries ((streamResults mb old as).flatMap gives)

theorem boundariesOf_cons (old : Option StreamState) (as : List Arrival) :
    boundariesOf mb old (a :: as) = boundaries (gives (arrive mb old a).result) +
      boundariesOf mb ((arrive mb old a).change.next old) as := by
  rw [boundariesOf, streamResults, flatMap_cons, boundaries_append, boundariesOf]

theorem boundariesOf_append (old : Option StreamState) (as as' : List Arrival) :
    boundariesOf mb old (as ++ as') =
      boundariesOf mb old as + boundariesOf mb (streamAfter mb old as) as' := by
  rw [boundariesOf, streamResults_append, flatMap_append, boundaries_append, boundariesOf,
    boundariesOf]

theorem underWay_run (has : ∀ a ∈ as, underWay a.event = true ∧ unlabelled a.event = true)
    (h : Calling .serverToClient st buf) :
    boundariesOf mb (some st) as = 0 ∧ ∃ st', streamAfter mb (some st) as = some st' ∧
      Calling .serverToClient st'
        ((as.map Arrival.event).foldl (envelopeLeft .serverToClient) buf) := by
  induction as generalizing st buf with
  | nil => exact ⟨rfl, st, rfl, h⟩
  | cons a as ih =>
    obtain ⟨⟨ha, hno⟩, has⟩ := forall_mem_cons.mp has
    obtain ⟨st', hnext, hcalling⟩ := h.next mb (closes_of_underWay ha)
    obtain ⟨hzero, st'', hafter, hlast⟩ := ih has hcalling
    refine ⟨?_, st'', ?_, hlast⟩
    · rw [boundariesOf_cons, hnext, hzero, underWay_boundaries mb h ha hno]
    · rw [streamAfter_cons, hnext, hafter]

theorem ofClient_run (has : ∀ a ∈ as, a.event.direction ≠ some .serverToClient)
    (h : ClientPending old) : boundariesOf mb old as = 0 := by
  induction as generalizing old with
  | nil => rfl
  | cons a as ih =>
    obtain ⟨ha, has⟩ := forall_mem_cons.mp has
    have hclient : (arrive mb old a).OfClient old := outcome_ofClient ha h
    rw [boundariesOf_cons, boundaries_ofClient hclient, ih has hclient.next]

end Server

/-! ## The decoder -/

namespace Http2Decoder

variable {η : Type}

/-- On the stream `id` there is a gRPC call that the server ends with the event `last`. -/
structure IsFinished (hp : Hpack η) (calls : List Call) (id : Nat) (before : List Event)
    (last : Event) (after : List Event) : Prop where
  events : streamEvents hp calls id = before ++ last :: after
  call : isCall before = true
  before : ∀ e ∈ before, underWay e = true
  last : endsCall last = true
  after : ∀ e ∈ after, e.direction ≠ some .serverToClient

/-- A call, a response of one message with a frame of another stream in it, and its end. -/
def answered (last : Frame) : List Call :=
  [.push .clientToServer (clientPreface ++ [⟨frameHeaders, flagEndHeaders, 1, [1]⟩,
      ⟨frameData, flagEndStream, 1, []⟩].flatMap Frame.bytes),
    .push .serverToClient ([⟨frameHeaders, flagEndHeaders, 1, [2]⟩, ⟨frameData, 0, 3, [1]⟩,
      ⟨frameData, 0, 1, [0, 0, 0, 0, 1, 7]⟩, last].flatMap Frame.bytes)]

end Http2Decoder

end Lens.Http2
