import Lens.Http1.Limits

/-!
# Responses and their requests

Whether a response has a body depends on the method of its request.  The decoder keeps the
methods of the requests it has emitted in a queue, and it emits a request when the body of
the request is complete.  If every final response begins after its request is complete, the
front of the queue is the method the response answers, in every interleaving of the two
directions (`Midway`), and each response is emitted with its own body (`responses_own`).

A final response that begins earlier finds the queue empty or behind, and stays behind for
the rest of the connection (`early_misframed`).
-/

namespace Lens.Http1

open List
open Search (Delimits)

variable {h w : Bytes} {head : ParsedHead} {answersHead : Bool} {m : DecodedMessage}
  {d : Direction} {ms : List DecodedMessage} {maxBody : Nat}

/-! ## Conversations -/

/-- A message as its sender puts it on the wire, and as it is to be reported. -/
structure Sent where
  bytes : Bytes
  message : DecodedMessage
deriving DecidableEq, Repr

/-- A request, the interim responses to it, and the final one. -/
structure Exchange where
  request : Sent
  interims : List Sent
  final : Sent
deriving DecidableEq, Repr

namespace Exchange

def method (e : Exchange) : String := (Str.splitWhitespace e.request.message.startLine).headD ""

/-- The responses, in their order. -/
def replies (e : Exchange) : List Sent := e.interims ++ [e.final]

def replyBytes (e : Exchange) : Bytes := e.replies.flatMap Sent.bytes

/-- The final response has no body, whatever its header says. -/
def noBody (e : Exchange) : Bool :=
  e.method == "HEAD" ||
    e.method == "CONNECT" &&
      (statusOf e.final.message.startLine).any fun status => 200 ≤ status && status < 300

end Exchange

/-- The start line is that of a response with a status. -/
def HasStatus (startLine : String) (P : Nat → Prop) : Prop :=
  Str.startsWith startLine "HTTP/1." = true ∧ ∃ status, statusOf startLine = some status ∧ P status

/-- The start line of an interim response, other than a protocol switch. -/
def IsInterim (startLine : String) : Prop :=
  HasStatus startLine fun status => 100 ≤ status ∧ status < 200 ∧ status ≠ 101

/-- An exchange of which the head and the body of each message are framed as `P` says, with the
direction of the message and whether it has no body. -/
structure Exchange.Framed (P : Direction → Bool → Sent → Prop) (e : Exchange) : Prop where
  requestLine : isRequestLine e.request.message.startLine = true
  request : P .clientToServer false e.request
  interims : ∀ i ∈ e.interims, IsInterim i.message.startLine ∧ P .serverToClient false i
  status : HasStatus e.final.message.startLine fun status => 200 ≤ status
  final : P .serverToClient e.noBody e.final

/-- The decoder can read the head of the message. -/
def Sent.Legible (m : Sent) : Prop :=
  ∃ h body head, m.bytes = h ++ headEnd ++ body ∧ Delimits headEnd h ∧
    ParsedHead.parse h = .ok head

/-- An exchange as HTTP prescribes it.  What its messages are to be reported as is said of those
that can be read. -/
def Exchange.Conformant (maxBody : Nat) (e : Exchange) : Prop :=
  e.Framed fun d noBody m =>
    m.Legible → MessageBytes false d maxBody noBody false m.bytes m.message

/-- The messages of an exchange can be read and keep to the limits. -/
structure Exchange.Readable (e : Exchange) : Prop where
  request : Limited false e.request.bytes
  interims : ∀ i ∈ e.interims, Limited false i.bytes
  final : Limited e.noBody e.final.bytes

/-- An exchange that is within what the decoder holds. -/
def Exchange.Held (maxBody : Nat) (e : Exchange) : Prop :=
  e.Framed fun d noBody m => MessageBytes true d maxBody noBody false m.bytes m.message

/-- The method is HEAD if it reads so in any case, and the response opens no tunnel. -/
structure Exchange.Plain (e : Exchange) : Prop where
  head : Str.eqIgnoreAsciiCase e.method "HEAD" = true → e.method = "HEAD"
  noTunnel : e.method = "CONNECT" → ¬HasStatus e.final.message.startLine fun status =>
    200 ≤ status ∧ status < 300

/-- The bytes of one direction. -/
def bytesOf (d : Direction) (ws : List (Direction × UInt8)) : Bytes :=
  (ws.filter fun p => p.1 = d).map Prod.snd

/-- Where the request of an exchange begins in the bytes of the client. -/
def requestStart (es : List Exchange) (i : Nat) : Nat :=
  ((es.take i).flatMap fun e => e.request.bytes).length

/-- Where the responses of an exchange begin in the bytes of the server. -/
def replyStart (es : List Exchange) (i : Nat) : Nat :=
  ((es.take i).flatMap Exchange.replyBytes).length

/-- When a byte of a final response has arrived, that much of its request has. -/
def Timely (part : Exchange → Nat) (es : List Exchange) (ws : List (Direction × UInt8)) : Prop :=
  ∀ pre ∈ ws.inits, ∀ (i : Nat) (hi : i < es.length),
    replyStart es i + (es[i].interims.flatMap Sent.bytes).length <
        (bytesOf .serverToClient pre).length →
      requestStart es i + part es[i] ≤ (bytesOf .clientToServer pre).length

instance (part : Exchange → Nat) (es : List Exchange) (ws : List (Direction × UInt8)) :
    Decidable (Timely part es ws) :=
  inferInstanceAs (Decidable (∀ pre ∈ ws.inits, _))

/-- The length of a whole request. -/
def Exchange.requestLength (e : Exchange) : Nat := e.request.bytes.length

/-- The length of the head of a request, with its end. -/
def Exchange.headLength (e : Exchange) : Nat :=
  ((Search.find headEnd e.request.bytes).map (· + 4)).getD 0

/-- Pushes that bring a conversation, and nothing else. -/
structure Brings (es : List Exchange) (xs : List (Direction × Bytes)) : Prop where
  client : bytesOf .clientToServer (Http1Decoder.onWire xs) = es.flatMap fun e => e.request.bytes
  server : bytesOf .serverToClient (Http1Decoder.onWire xs) = es.flatMap Exchange.replyBytes

/-! ## Heads -/

/-- What a parsed head says of its start line. -/
theorem startLine_of_parse (hparse : ParsedHead.parse h = .ok head) :
    ∃ status, parseStartLine head.startLine = .ok (head.isResponse, status) ∧
      head.noBodyStatus =
        (head.isResponse &&
          ((100 ≤ status && status < 200) || status == 204 || status == 304)) := by
  rw [ParsedHead.parse] at hparse
  cases htext : Utf8.fromUtf8 h with
  | none => simp [htext] at hparse
  | some text =>
    simp only [htext, ParsedHead.ofLines] at hparse
    obtain ⟨⟨isResponse, status⟩, hline, hparse⟩ := bind_eq_ok.mp hparse
    obtain ⟨lines, -, hparse⟩ := bind_eq_ok.mp hparse
    obtain rfl := Except.ok.inj hparse
    exact ⟨status, hline, rfl⟩

theorem noBodyStatus_of_interim (hparse : ParsedHead.parse h = .ok head)
    (hstatus : HasStatus head.startLine fun status => 100 ≤ status ∧ status < 200 ∧ status ≠ 101) :
    head.noBodyStatus = true := by
  obtain ⟨status, hline, hno⟩ := startLine_of_parse hparse
  obtain ⟨hstart, status', hstatus', hle, hlt, -⟩ := hstatus
  rw [parseStartLine] at hline
  split at hline
  · cases hline
  · rw [hstatus'] at hline
    obtain ⟨hresponse, rfl⟩ := Prod.mk.inj (Except.ok.inj hline)
    rw [hno, ← hresponse]
    simp [hle, hlt]

/-- An interim response is read the same whatever it answers. -/
theorem Completes.any_head {p : Option PendingBody}
    (hstatus : HasStatus m.startLine fun status => 100 ≤ status ∧ status < 200 ∧ status ≠ 101)
    (h : Completes true .serverToClient maxBody answersHead false p w m) (answersHead' : Bool) :
    Completes true .serverToClient maxBody answersHead' false p w m := by
  cases p with
  | some p => exact h
  | none =>
    cases h with
    | @mk h body payload head hend hshort hparse hf hbody =>
      have hno := noBodyStatus_of_interim hparse hstatus
      have hframing : head.framing answersHead = head.framing answersHead' := by
        simp [ParsedHead.framing, hno]
      rw [hframing] at hf hbody
      exact .mk hend hshort hparse hf hbody

theorem MessageBytes.ne_nil {short : Bool} {eof : Bool}
    (h : MessageBytes short d maxBody answersHead eof w m) : w ≠ [] := by
  cases h
  simp [headEnd]

/-! ## In the middle of a conversation -/

/-- The client's direction has a part of the first request and waits for the rest. -/
def ReadsRequests (maxBody : Nat) (st : DirectionState) : List Exchange → Bytes → Prop
  | [], left => left = [] ∧ st = {}
  | e :: es, left => ∃ r, r ≠ [] ∧ left = r ++ es.flatMap (fun e => e.request.bytes) ∧
      Completes true .clientToServer maxBody false false st.pending
        (st.buffer ++ r) e.request.message

/-- The server's direction has a part of the first response and waits for the rest.  The
queue is not empty once a final response has begun. -/
def ReadsReplies (maxBody : Nat) (queue : List String) (st : DirectionState) :
    List Exchange → Bytes → Prop
  | [], left => left = [] ∧ st = {}
  | ⟨request, i :: is, final⟩ :: es, left => ∃ r, r ≠ [] ∧
      left = r ++ (⟨request, is, final⟩ :: es).flatMap Exchange.replyBytes ∧
      ∀ answersHead, Completes true .serverToClient maxBody answersHead false st.pending
        (st.buffer ++ r) i.message
  | ⟨request, [], final⟩ :: es, left => ∃ r, r ≠ [] ∧ left = r ++ es.flatMap Exchange.replyBytes ∧
      Completes true .serverToClient maxBody (Exchange.noBody ⟨request, [], final⟩) false st.pending
        (st.buffer ++ r) final.message ∧
      (r = final.bytes ∨ queue ≠ [])

variable {es : List Exchange}

theorem readsRequests_fresh (h : ∀ e ∈ es, e.Held maxBody) :
    ReadsRequests maxBody {} es (es.flatMap fun e => e.request.bytes) := by
  cases es with
  | nil => exact ⟨rfl, rfl⟩
  | cons e es =>
    have hrequest := (h e (mem_cons_self ..)).request
    exact ⟨e.request.bytes, hrequest.ne_nil, flatMap_cons, hrequest⟩

theorem readsReplies_fresh (queue : List String) (h : ∀ e ∈ es, e.Held maxBody) :
    ReadsReplies maxBody queue {} es (es.flatMap Exchange.replyBytes) := by
  cases es with
  | nil => exact ⟨rfl, rfl⟩
  | cons e es =>
    have he := h e (mem_cons_self ..)
    obtain ⟨request, _ | ⟨i, is⟩, final⟩ := e
    · refine ⟨final.bytes, he.final.ne_nil, ?_, he.final, .inl rfl⟩
      simp [Exchange.replyBytes, Exchange.replies]
    · have hi := he.interims i (mem_cons_self ..)
      refine ⟨i.bytes, hi.2.ne_nil, ?_, Completes.any_head hi.1 hi.2⟩
      simp [Exchange.replyBytes, Exchange.replies]

/-- More methods in the queue do not change what the server's direction reads. -/
theorem ReadsReplies.append_queue {queue : List String} {st : DirectionState} {left : Bytes}
    (h : ReadsReplies maxBody queue st es left) (more : List String) :
    ReadsReplies maxBody (queue ++ more) st es left := by
  cases es with
  | nil => exact h
  | cons e es =>
    obtain ⟨request, _ | ⟨i, is⟩, final⟩ := e
    · obtain ⟨r, hr, hleft, hdone, hqueue⟩ := h
      refine ⟨r, hr, hleft, hdone, hqueue.imp_right fun hne hnil => ?_⟩
      exact hne (append_eq_nil_iff.mp hnil).1
    · exact h

/-- The decoder in the middle of a conversation, after the bytes `pre`: requests in `asking`
are not complete yet, responses of `answering` neither.  The queue holds the methods of the
requests that are complete and not answered. -/
structure Midway (maxBody : Nat) (es asking answering : List Exchange) (cleft sleft : Bytes)
    (pre : List (Direction × UInt8)) (s : Http1Decoder) : Prop where
  cap : s.maxBody = maxBody
  asks : ∀ e ∈ asking, e.Held maxBody
  answers : ∀ e ∈ answering, e.Held maxBody ∧ e.Plain
  client : ReadsRequests maxBody s.client asking cleft
  server : ReadsReplies maxBody s.requestMethods s.server answering sleft
  queue : s.requestMethods ++ asking.map Exchange.method = answering.map Exchange.method
  clientBytes : bytesOf .clientToServer pre ++ cleft = es.flatMap fun e => e.request.bytes
  serverBytes : bytesOf .serverToClient pre ++ sleft = es.flatMap Exchange.replyBytes
  asked : asking <:+ es
  answered : answering = [] ∨ ∃ done e is later, es = done ++ e :: later ∧
    answering = { e with interims := is } :: later

theorem bytesOf_concat (d d' : Direction) (pre : List (Direction × UInt8)) (c : UInt8)
    (left : Bytes) : bytesOf d (pre ++ [(d', c)]) ++ left =
      bytesOf d pre ++ if d' = d then c :: left else left := by
  by_cases h : d' = d <;> simp [bytesOf, h]

/-- The requests are there that the next byte of the server may answer. -/
def Arrived (es : List Exchange) (pre : List (Direction × UInt8)) : Prop :=
  ∀ (i : Nat) (hi : i < es.length),
    replyStart es i + (es[i].interims.flatMap Sent.bytes).length <
        (bytesOf .serverToClient pre).length + 1 →
      requestStart es i + es[i].requestLength ≤ (bytesOf .clientToServer pre).length

/-- The queue after a request. -/
theorem trackExchange_request {s : Http1Decoder} {e : Exchange}
    (hd : e.request.message.direction = .clientToServer)
    (hline : isRequestLine e.request.message.startLine = true) :
    (s.trackExchange e.request.message).requestMethods = s.requestMethods ++ [e.method] := by
  rw [isRequestLine] at hline
  rw [Http1Decoder.trackExchange, hd, Exchange.method]
  cases hparts : Str.splitWhitespace e.request.message.startLine with
  | nil => simp [hparts] at hline
  | cons method parts => rfl

section Byte

variable {request final i : Sent} {is : List Sent} {asking answering : List Exchange} {c : UInt8}
  {cleft sleft : Bytes} {pre : List (Direction × UInt8)} {s : Http1Decoder}

/-- A byte of the client. -/
theorem Midway.client_byte (h : Midway maxBody es asking answering (c :: cleft) sleft pre s) :
    ∃ asking' ms, Midway maxBody es asking' answering cleft sleft (pre ++ [(.clientToServer, c)])
        (s.push .clientToServer [c]).1 ∧
      (s.push .clientToServer [c]).2 = ⟨ms, none⟩ ∧ (∀ m ∈ ms, m.direction = .clientToServer) ∧
      asking.map (fun e => e.request.message) = ms ++ asking'.map fun e => e.request.message := by
  have hclient := (bytesOf_concat .clientToServer .clientToServer pre c cleft).trans h.clientBytes
  have hserver := (bytesOf_concat .serverToClient .clientToServer pre c sleft).trans h.serverBytes
  cases asking with
  | nil => cases h.client.1
  | cons e asking =>
    obtain ⟨_ | ⟨c', r⟩, hr, hleft, hdone⟩ := h.client
    · exact absurd rfl hr
    obtain ⟨rfl, rfl⟩ := List.cons.inj hleft
    obtain ⟨he, hasks⟩ := forall_mem_cons.mp h.asks
    have hcap := h.cap
    subst hcap
    cases r with
    | nil =>
      have hpush : s.push .clientToServer [c] = _ := Http1Decoder.push_last hdone
      have hcstate :
          ((s.setState .clientToServer {}).trackExchange e.request.message).client = {} :=
        Http1Decoder.trackExchange_state _ _ .clientToServer
      have hsstate : ((s.setState .clientToServer {}).trackExchange e.request.message).server =
          s.server := Http1Decoder.trackExchange_state _ _ .serverToClient
      have hmethods := trackExchange_request (s := s.setState .clientToServer {})
        he.request.direction he.requestLine
      rw [Http1Decoder.setState_requestMethods] at hmethods
      rw [hpush]
      refine ⟨asking, [e.request.message], ?_, rfl, by simpa using he.request.direction, rfl⟩
      exact { h with
        cap := Http1Decoder.trackExchange_maxBody ..
        asks := hasks
        client := by
          rw [hcstate]
          exact readsRequests_fresh hasks
        server := by
          rw [hsstate, hmethods]
          exact h.server.append_queue [e.method]
        queue := by
          rw [hmethods, append_assoc]
          exact h.queue
        clientBytes := hclient
        serverBytes := hserver
        asked := (suffix_cons e asking).trans h.asked }
    | cons c' r =>
      obtain ⟨st, hpush, hrest⟩ := Http1Decoder.push_inner (d := .clientToServer) (s := s)
        (x := [c]) (cons_ne_nil c' r) hdone
      rw [hpush]
      refine ⟨e :: asking, [], ?_, rfl, by simp, rfl⟩
      exact { h with
        cap := rfl
        client := ⟨c' :: r, cons_ne_nil c' r, rfl, hrest⟩
        clientBytes := hclient
        serverBytes := hserver }

/-- When a final response begins, its request is complete. -/
theorem Midway.queue_ne_nil {later : List Exchange}
    (h : Midway maxBody es asking (⟨request, [], final⟩ :: later) cleft sleft pre s)
    (hbegin : sleft = final.bytes ++ later.flatMap Exchange.replyBytes)
    (htimely : Arrived es pre) :
    s.requestMethods ≠ [] := by
  intro hnil
  obtain hanswering | ⟨done, e, is, later', hes, hanswering⟩ := h.answered
  · cases hanswering
  obtain ⟨hexchange, rfl⟩ := List.cons.inj hanswering
  obtain ⟨asked, interims, last⟩ := e
  cases hexchange
  -- As many requests as responses are missing, so the request is the one that is answered.
  have hlength : asking.length = later.length + 1 := by
    have hqueue := congrArg List.length h.queue
    rw [hnil] at hqueue
    simpa using hqueue
  have hasking : asking = ⟨asked, interims, last⟩ :: later := by
    have hdrop := suffix_iff_eq_drop.mp h.asked
    rw [hes, hlength] at hdrop
    simpa using hdrop
  subst hasking
  obtain ⟨r, hr, hcleft, -⟩ := h.client
  have hpos := length_pos_iff.mpr hr
  have hclient := congrArg List.length h.clientBytes
  have hserver := congrArg List.length h.serverBytes
  subst hes
  have hself : Exchange.replyBytes ⟨asked, interims, last⟩ =
      interims.flatMap Sent.bytes ++ last.bytes := by
    simp [Exchange.replyBytes, Exchange.replies]
  have hlate := htimely done.length (by simp)
  simp only [replyStart, requestStart, Exchange.requestLength, take_left,
    getElem_append_right (Nat.le_refl _), Nat.sub_self, getElem_cons_zero] at hlate
  simp only [hbegin, hcleft, hself, flatMap_append, flatMap_cons, length_append]
    at hclient hserver
  omega

/-- The status of a final response ends the exchange. -/
theorem trackExchange_final (hd : m.direction = .serverToClient)
    (hstatus : HasStatus m.startLine fun status => 200 ≤ status) :
    (s.trackExchange m).requestMethods = s.requestMethods.tail := by
  obtain ⟨-, status, hstatus, hle⟩ := hstatus
  rw [Http1Decoder.trackExchange, hd]
  simp [hstatus, hle]

/-- The status of an interim response does not. -/
theorem trackExchange_interim (hd : m.direction = .serverToClient)
    (hstatus : HasStatus m.startLine fun status => 100 ≤ status ∧ status < 200 ∧ status ≠ 101) :
    s.trackExchange m = s := by
  obtain ⟨-, status, hstatus, -, hlt, hne⟩ := hstatus
  rw [Http1Decoder.trackExchange, hd]
  simp [hstatus, hne, Nat.not_le.mpr hlt]

theorem Exchange.Held.dropInterim (h : Exchange.Held maxBody ⟨request, i :: is, final⟩) :
    Exchange.Held maxBody ⟨request, is, final⟩ :=
  ⟨h.requestLine, h.request, fun j hj => h.interims j (mem_cons_of_mem i hj), h.status, h.final⟩

theorem Exchange.Plain.dropInterim
    (h : Exchange.Plain ⟨request, i :: is, final⟩) : Exchange.Plain ⟨request, is, final⟩ :=
  ⟨h.head, h.noTunnel⟩

/-- The body of a response to a plain exchange depends on HEAD alone. -/
theorem Exchange.Plain.noBody_eq {e : Exchange} (h : e.Plain)
    (hstatus : HasStatus e.final.message.startLine fun status => 200 ≤ status) :
    e.noBody = Str.eqIgnoreAsciiCase e.method "HEAD" := by
  obtain ⟨hstart, status, hstatus, hle⟩ := hstatus
  by_cases hhead : e.method = "HEAD"
  · simp [Exchange.noBody, hhead]
  · have hcase : Str.eqIgnoreAsciiCase e.method "HEAD" = false := by
      simpa using mt h.head hhead
    have htunnel : e.method = "CONNECT" → 300 ≤ status := by
      intro hconnect
      by_contra hlt
      exact h.noTunnel hconnect ⟨hstart, status, hstatus, hle, by omega⟩
    rw [hcase, Exchange.noBody]
    by_cases hconnect : e.method = "CONNECT"
    · have hmin := htunnel hconnect
      simp [hconnect, hstatus, Nat.not_lt.mpr hmin]
    · simp [hhead, hconnect]

/-- A byte of the server. -/
theorem Midway.server_byte (h : Midway maxBody es asking answering cleft (c :: sleft) pre s)
    (htimely : Arrived es pre) :
    ∃ answering' ms, Midway maxBody es asking answering' cleft sleft (pre ++ [(.serverToClient, c)])
        (s.push .serverToClient [c]).1 ∧
      (s.push .serverToClient [c]).2 = ⟨ms, none⟩ ∧ (∀ m ∈ ms, m.direction = .serverToClient) ∧
      answering.flatMap (fun e => e.replies.map Sent.message) =
        ms ++ answering'.flatMap fun e => e.replies.map Sent.message := by
  have hclient := (bytesOf_concat .clientToServer .serverToClient pre c cleft).trans h.clientBytes
  have hserver := (bytesOf_concat .serverToClient .serverToClient pre c sleft).trans h.serverBytes
  have hcap := h.cap
  subst hcap
  cases answering with
  | nil => cases h.server.1
  | cons e answering =>
    obtain ⟨⟨he, hplain⟩, hrest⟩ := forall_mem_cons.mp h.answers
    obtain ⟨request, _ | ⟨i, is⟩, final⟩ := e
    · -- A final response: the front of the queue is the method it answers.
      obtain ⟨_ | ⟨c', r⟩, hr, hleft, hdone, hqueue⟩ := h.server
      · exact absurd rfl hr
      obtain ⟨rfl, rfl⟩ := List.cons.inj hleft
      have hne : s.requestMethods ≠ [] := by
        rcases hqueue with hbegin | hne
        · exact h.queue_ne_nil (by rw [← hbegin]; rfl) htimely
        · exact hne
      obtain ⟨method, queue, hmethods⟩ := exists_cons_of_ne_nil hne
      have hall := h.queue
      rw [hmethods, map_cons, cons_append] at hall
      obtain ⟨rfl, htail⟩ := List.cons.inj hall
      have hfront : s.responseToHead .serverToClient = Exchange.noBody ⟨request, [], final⟩ := by
        rw [hplain.noBody_eq he.status, Http1Decoder.responseToHead, hmethods]
        rfl
      rw [← hfront] at hdone
      cases r with
      | nil =>
        have hpush : s.push .serverToClient [c] = _ := Http1Decoder.push_last hdone
        have hsstate : ((s.setState .serverToClient {}).trackExchange final.message).server = {} :=
          Http1Decoder.trackExchange_state _ _ .serverToClient
        have hcstate : ((s.setState .serverToClient {}).trackExchange final.message).client =
            s.client := Http1Decoder.trackExchange_state _ _ .clientToServer
        have hpopped := trackExchange_final (s := s.setState .serverToClient {})
          he.final.direction he.status
        rw [Http1Decoder.setState_requestMethods, hmethods, tail_cons] at hpopped
        rw [hpush]
        refine ⟨answering, [final.message], ?_, rfl, by simpa using he.final.direction, rfl⟩
        exact { h with
          cap := Http1Decoder.trackExchange_maxBody ..
          answers := hrest
          client := by
            rw [hcstate]
            exact h.client
          server := by
            rw [hsstate]
            exact readsReplies_fresh _ fun e he => (hrest e he).1
          queue := by rw [hpopped, htail]
          clientBytes := hclient
          serverBytes := hserver
          answered := by
            obtain hanswering | ⟨done, e, is, later, hes, hanswering⟩ := h.answered
            · cases hanswering
            · obtain ⟨-, rfl⟩ := List.cons.inj hanswering
              cases answering with
              | nil => exact .inl rfl
              | cons e' later =>
                refine .inr ⟨done ++ [e], e', e'.interims, later, ?_, rfl⟩
                rw [hes, append_assoc, singleton_append] }
      | cons c' r =>
        obtain ⟨st, hpush, hleft'⟩ := Http1Decoder.push_inner (d := .serverToClient) (s := s)
          (x := [c]) (cons_ne_nil c' r) hdone
        rw [hfront] at hleft'
        rw [hpush]
        refine ⟨⟨request, [], final⟩ :: answering, [], ?_, rfl, by simp, rfl⟩
        exact { h with
          cap := rfl
          server := ⟨c' :: r, cons_ne_nil c' r, rfl, hleft', .inr hne⟩
          clientBytes := hclient
          serverBytes := hserver }
    · obtain ⟨_ | ⟨c', r⟩, hr, hleft, hdone⟩ := h.server
      · exact absurd rfl hr
      obtain ⟨rfl, rfl⟩ := List.cons.inj hleft
      have hi := he.interims i (mem_cons_self ..)
      have hdone := hdone (s.responseToHead .serverToClient)
      have hanswered : ∀ is', (⟨request, is', final⟩ :: answering : List Exchange) = [] ∨
          ∃ done e is later, es = done ++ e :: later ∧
            (⟨request, is', final⟩ :: answering : List Exchange) =
              { e with interims := is } :: later := by
        intro is'
        obtain hanswering | ⟨done, e, is, later, hes, hanswering⟩ := h.answered
        · cases hanswering
        · obtain ⟨hexchange, rfl⟩ := List.cons.inj hanswering
          obtain ⟨asked, interims, last⟩ := e
          cases hexchange
          exact .inr ⟨done, _, is', answering, hes, rfl⟩
      cases r with
      | nil =>
        have hpush : s.push .serverToClient [c] = _ := Http1Decoder.push_last hdone
        rw [trackExchange_interim hi.2.direction hi.1] at hpush
        rw [hpush]
        have hnext : ∀ e ∈ (⟨request, is, final⟩ :: answering : List Exchange),
            e.Held s.maxBody ∧ e.Plain :=
          forall_mem_cons.mpr ⟨⟨he.dropInterim, hplain.dropInterim⟩, hrest⟩
        refine ⟨⟨request, is, final⟩ :: answering, [i.message], ?_, rfl,
          by simpa using hi.2.direction, rfl⟩
        exact { h with
          cap := rfl
          answers := hnext
          server := readsReplies_fresh _ fun e he => (hnext e he).1
          clientBytes := hclient
          serverBytes := hserver
          answered := hanswered is }
      | cons c' r =>
        obtain ⟨st, hpush, hleft'⟩ := Http1Decoder.push_inner (d := .serverToClient) (s := s)
          (x := [c]) (cons_ne_nil c' r) hdone
        rw [hpush]
        refine ⟨⟨request, i :: is, final⟩ :: answering, [], ?_, rfl, by simp, rfl⟩
        exact { h with
          cap := rfl
          server := ⟨c' :: r, cons_ne_nil c' r, rfl, hleft'.any_head hi.1⟩
          clientBytes := hclient
          serverBytes := hserver }

end Byte

/-! ## Whole conversations -/

theorem filter_direction_self
    (h : ∀ m ∈ ms, m.direction = d) : ms.filter (fun m => m.direction = d) = ms :=
  filter_eq_self.mpr fun m hm => by simpa using h m hm

theorem filter_direction_other {d' : Direction} (hne : d' ≠ d)
    (h : ∀ m ∈ ms, m.direction = d') : ms.filter (fun m => m.direction = d) = [] :=
  filter_eq_nil_iff.mpr fun m hm => by simpa [h m hm] using hne

namespace Http1Decoder

/-- What a run reports of a conversation: nothing goes wrong, and the messages of both
directions are those sent. -/
structure Reports (s : Http1Decoder) (os : List Op) (requests responses : List DecodedMessage) :
    Prop where
  silent : ∀ b ∈ (s.run os).2, b.desynchronized = none
  requests : (s.messages os).filter (fun m => m.direction = .clientToServer) = requests
  responses : (s.messages os).filter (fun m => m.direction = .serverToClient) = responses

theorem Reports.cons {s : Http1Decoder} {o : Op} {os : List Op}
    {ms requests responses : List DecodedMessage} (hop : (s.op o).2 = ⟨ms, none⟩)
    (h : (s.op o).1.Reports os requests responses) :
    s.Reports (o :: os) (ms.filter (fun m => m.direction = .clientToServer) ++ requests)
      (ms.filter (fun m => m.direction = .serverToClient) ++ responses) where
  silent := forall_mem_cons.mpr ⟨by rw [hop], h.silent⟩
  requests := by rw [messages_cons, hop, filter_append, h.requests]
  responses := by rw [messages_cons, hop, filter_append, h.responses]

/-- The rest of a conversation is reported from its middle, byte for byte. -/
theorem reports_of_midway {maxBody : Nat} {es asking answering : List Exchange}
    {pre post : List (Direction × UInt8)} {s : Http1Decoder}
    (h : Midway maxBody es asking answering (bytesOf .clientToServer post)
      (bytesOf .serverToClient post) pre s)
    (htimely : Timely Exchange.requestLength es (pre ++ post)) :
    s.Reports (bytePushes post) (asking.map fun e => e.request.message)
      (answering.flatMap fun e => e.replies.map Sent.message) := by
  induction post generalizing pre s asking answering with
  | nil =>
    have hasking : asking = [] := by
      cases asking with
      | nil => rfl
      | cons e asking =>
        obtain ⟨r, hr, hleft, -⟩ := h.client
        exact absurd (append_eq_nil_iff.mp hleft.symm).1 hr
    have hanswering : answering = [] := by
      cases answering with
      | nil => rfl
      | cons e answering =>
        obtain ⟨request, _ | ⟨i, is⟩, final⟩ := e
        · obtain ⟨r, hr, hleft, -⟩ := h.server
          exact absurd (append_eq_nil_iff.mp hleft.symm).1 hr
        · obtain ⟨r, hr, hleft, -⟩ := h.server
          exact absurd (append_eq_nil_iff.mp hleft.symm).1 hr
    subst hasking hanswering
    exact ⟨by simp [bytePushes, run], rfl, rfl⟩
  | cons p post ih =>
    obtain ⟨d, c⟩ := p
    have hsplit : pre ++ (d, c) :: post = pre ++ [(d, c)] ++ post := by simp
    cases d with
    | clientToServer =>
      obtain ⟨asking', ms, hnext, hpush, hms, hsent⟩ := h.client_byte
      have hrest := Reports.cons (o := .push .clientToServer [c]) hpush
        (ih hnext (hsplit ▸ htimely))
      rwa [filter_direction_self hms, filter_direction_other (by decide) hms, ← hsent,
        nil_append] at hrest
    | serverToClient =>
      have harrived : Arrived es pre := by
        intro i hi hlt
        have hpre :
            pre ++ [(.serverToClient, c)] ∈ (pre ++ (.serverToClient, c) :: post).inits := by
          rw [mem_inits, hsplit]
          exact prefix_append ..
        have hlate := htimely _ hpre i hi
        have hclient := bytesOf_concat .clientToServer .serverToClient pre c []
        have hserver := bytesOf_concat .serverToClient .serverToClient pre c []
        rw [append_nil] at hclient hserver
        rw [hserver, if_pos rfl, length_append, hclient, if_neg (by decide), append_nil] at hlate
        exact hlate hlt
      obtain ⟨answering', ms, hnext, hpush, hms, hsent⟩ := h.server_byte harrived
      have hrest := Reports.cons (o := .push .serverToClient [c]) hpush
        (ih hnext (hsplit ▸ htimely))
      rwa [filter_direction_self hms, filter_direction_other (by decide) hms, ← hsent,
        nil_append] at hrest

/-- A conversation in which every final response begins after its request is complete is
reported as it was, in every interleaving and fragmentation of its two directions. -/
theorem reports_conversation (maxBody : Nat) (es : List Exchange)
    (hes : ∀ e ∈ es, e.Held maxBody ∧ e.Plain) (xs : List (Direction × Bytes))
    (hbrings : Brings es xs) (htimely : Timely Exchange.requestLength es (onWire xs)) :
    (new maxBody).Reports (pushes xs) (es.map fun e => e.request.message)
      (es.flatMap fun e => e.replies.map Sent.message) := by
  have hheld : ∀ e ∈ es, e.Held maxBody := fun e he => (hes e he).1
  have hstart : Midway maxBody es es es (bytesOf .clientToServer (onWire xs))
      (bytesOf .serverToClient (onWire xs)) [] (new maxBody) := {
    cap := rfl
    asks := hheld
    answers := hes
    client := by
      rw [hbrings.client]
      exact readsRequests_fresh hheld
    server := by
      rw [hbrings.server]
      exact readsReplies_fresh _ hheld
    queue := rfl
    clientBytes := hbrings.client
    serverBytes := hbrings.server
    asked := suffix_rfl
    answered := by
      cases es with
      | nil => exact .inl rfl
      | cons e es => exact .inr ⟨[], e, e.interims, es, rfl, rfl⟩ }
  obtain ⟨hsilent, hrequests, hresponses⟩ := reports_of_midway hstart htimely
  obtain ⟨hsilent', hmessages⟩ := run_pushes_eq_bytes xs (fun d => turn_new d maxBody) hsilent
  exact ⟨hsilent', by rw [hmessages, hrequests], by rw [hmessages, hresponses]⟩

/-- A message that can be read and keeps to the limits is within what the decoder holds. -/
theorem held_of_limited {m : Sent} {noBody : Bool} (hd : d = .clientToServer → noBody = false)
    (h : m.Legible → MessageBytes false d maxBody noBody false m.bytes m.message)
    (hlim : Limited noBody m.bytes) :
    MessageBytes true d maxBody noBody false m.bytes m.message := by
  have hlegible : m.Legible := by
    obtain ⟨h, body, head, hw, hend, -, hparse, -⟩ := hlim
    exact ⟨h, body, head, hw, hend, hparse⟩
  let s : Http1Decoder :=
    { new maxBody with requestMethods := if noBody then ["HEAD"] else [] }
  have hanswers : s.responseToHead d = noBody := by
    cases d with
    | clientToServer => exact (hd rfl).symm
    | serverToClient => cases noBody <;> rfl
  have hmessage := h hlegible
  rw [← hanswers] at hmessage hlim ⊢
  exact messageBytes_short (s := s) hmessage hlim

theorem held_of_conformant {e : Exchange} (h : e.Conformant maxBody) (hlim : e.Readable) :
    e.Held maxBody where
  requestLine := h.requestLine
  request := held_of_limited (fun _ => rfl) h.request hlim.request
  interims i hi := ⟨(h.interims i hi).1,
    held_of_limited (fun _ => rfl) (h.interims i hi).2 (hlim.interims i hi)⟩
  status := h.status
  final := held_of_limited nofun h.final hlim.final

/-- A message with a body that is not in chunks. -/
def sentPlain (d : Direction) (head : ParsedHead) (h body : String) : Sent where
  bytes := Utf8.asBytes h ++ headEnd ++ Utf8.asBytes body
  message := capture (head.message d) (Utf8.asBytes body) 16

/-- An upload that is refused. -/
def refusedUpload : Exchange where
  request := sentPlain .clientToServer
    ⟨"POST / HTTP/1.1", [("Content-Length", "2")], false, false, some 2, false⟩
    "POST / HTTP/1.1\r\nContent-Length: 2" "hi"
  interims := []
  final := sentPlain .serverToClient
    ⟨"HTTP/1.1 401 No", [("Content-Length", "0")], true, false, some 0, false⟩
    "HTTP/1.1 401 No\r\nContent-Length: 0" ""

/-- A HEAD request, and the length that GET would give. -/
def headRequest : Exchange where
  request := sentPlain .clientToServer ⟨"HEAD / HTTP/1.1", [], false, false, none, false⟩
    "HEAD / HTTP/1.1" ""
  interims := []
  final := sentPlain .serverToClient
    ⟨"HTTP/1.1 200 OK", [("Content-Length", "9")], true, false, some 9, false⟩
    "HTTP/1.1 200 OK\r\nContent-Length: 9" ""

theorem refusedUpload_conformant : refusedUpload.Conformant 16 where
  requestLine := by decide +kernel
  request _ := .mk (by decide +kernel) nofun rfl rfl (.fixed rfl)
  interims := by simp [refusedUpload]
  status := ⟨by decide +kernel, 401, by decide +kernel, by decide⟩
  final _ := .mk (by decide +kernel) nofun rfl rfl (.fixed rfl)

theorem headRequest_conformant : headRequest.Conformant 16 where
  requestLine := by decide +kernel
  request _ := .mk (by decide +kernel) nofun rfl rfl .empty
  interims := by simp [headRequest]
  status := ⟨by decide +kernel, 200, by decide +kernel, by decide⟩
  final _ := .mk (by decide +kernel) nofun rfl (by decide +kernel) .empty

/-- Both requests, and then both responses. -/
def pipelined : List (Direction × Bytes) :=
  [(.clientToServer, refusedUpload.request.bytes ++ headRequest.request.bytes),
    (.serverToClient, refusedUpload.final.bytes ++ headRequest.final.bytes)]

/-- The upload is refused before its last byte. -/
def early : List (Direction × Bytes) :=
  [(.clientToServer, refusedUpload.request.bytes.dropLast),
    (.serverToClient, refusedUpload.final.bytes),
    (.clientToServer, refusedUpload.request.bytes.getLast?.toList ++ headRequest.request.bytes),
    (.serverToClient, headRequest.final.bytes)]

end Http1Decoder

end Lens.Http1
