import Lens.Http1.Steps

/-!
# The decoding loop

Three facts about whole runs of `process`, from what its steps do.  Every turn that
goes on makes the measure smaller, so the loop ends by itself (`turn_decreases`).
Two pushes that report nothing are one push (`push_pieces`).  And the headers of a
message under way take no part in how its body is read: a run on the same state
with other headers emits the same messages, but for the headers of the first
(`resume_withHeaders`).
-/

namespace Lens.Http1

open List
open Stream (Turn drive)

namespace Http1Decoder

variable (s : Http1Decoder) (d : Direction) (st : DirectionState)

@[simp] theorem state_setState_self : (s.setState d st).state d = st := by
  cases d with
  | clientToServer => rfl
  | serverToClient => rfl

@[simp] theorem setState_maxBody : (s.setState d st).maxBody = s.maxBody := by
  cases d with
  | clientToServer => rfl
  | serverToClient => rfl

@[simp] theorem setState_requestMethods : (s.setState d st).requestMethods = s.requestMethods := by
  cases d with
  | clientToServer => rfl
  | serverToClient => rfl

@[simp] theorem setState_setState (st' : DirectionState) :
    (s.setState d st).setState d st' = s.setState d st' := by
  cases d with
  | clientToServer => rfl
  | serverToClient => rfl

@[simp] theorem setState_state : s.setState d (s.state d) = s := by
  cases d with
  | clientToServer => rfl
  | serverToClient => rfl

@[simp] theorem trackExchange_state (m : DecodedMessage) (d : Direction) :
    (s.trackExchange m).state d = s.state d := by
  rw [trackExchange]
  split
  · split <;> cases d <;> rfl
  · split <;> cases d <;> rfl

section Turns

variable {s d} {t : Http1Decoder} {b : DecodeBatch}

theorem turn_steps :
    ∃ st step, Steps d s.maxBody (s.responseToHead d) (s.state d) (st, step) ∧
      turn d s = s.follow d (st, step) :=
  ⟨_, _, steps_step (s.state d), rfl⟩

/-- A turn that goes on makes progress, or completes a message. -/
theorem turn_again (h : turn d s = .again t b) :
    ∃ st step, Steps d s.maxBody (s.responseToHead d) (s.state d) (st, step) ∧
      ((step = .progress ∧ t = s.setState d st ∧ b = .needMore) ∨
        ∃ m, step = .message m ∧ t = (s.setState d st).trackExchange m ∧ b = ⟨[m], none⟩) := by
  obtain ⟨st, step, hsteps, hturn⟩ := @turn_steps s d
  rw [hturn] at h
  cases step with
  | needMore => cases h
  | desynchronized reason => cases h
  | progress =>
    cases h
    exact ⟨st, _, hsteps, .inl ⟨rfl, rfl, rfl⟩⟩
  | message m =>
    cases h
    exact ⟨st, _, hsteps, .inr ⟨m, rfl, rfl, rfl⟩⟩

/-- A turn that stops asks for more input, or reports. -/
theorem turn_stop (h : turn d s = .stop t b) :
    ∃ st step, Steps d s.maxBody (s.responseToHead d) (s.state d) (st, step) ∧ t = s.setState d st ∧
      ((step = .needMore ∧ b = .needMore) ∨
        ∃ reason, step = .desynchronized reason ∧ b = ⟨[], some reason⟩) := by
  obtain ⟨st, step, hsteps, hturn⟩ := @turn_steps s d
  rw [hturn] at h
  cases step with
  | needMore =>
    cases h
    exact ⟨st, _, hsteps, rfl, .inl ⟨rfl, rfl⟩⟩
  | desynchronized reason =>
    cases h
    exact ⟨st, _, hsteps, rfl, .inr ⟨reason, rfl, rfl⟩⟩
  | progress => cases h
  | message m => cases h

end Turns

/-- Every turn that goes on makes the measure smaller. -/
theorem turn_decreases : Stream.Decreases (turn d) fun s => (s.state d).measure := by
  intro s s' b h
  obtain ⟨st, step, hsteps, ⟨rfl, rfl, rfl⟩ | ⟨m, rfl, rfl, rfl⟩⟩ := turn_again h
  · simpa only [state_setState_self] using hsteps.measure_lt trivial
  · simpa only [trackExchange_state, state_setState_self] using hsteps.measure_lt trivial

/-- A push is the loop with any bound above the measure. -/
theorem push_eq_drive (bytes : Bytes) (n : Nat) (h : ((feed d s bytes).state d).measure < n) :
    s.push d bytes = drive (turn d) n (feed d s bytes) :=
  Stream.drive_eq_of_lt (turn_decreases d) _ n (feed d s bytes) (Nat.lt_succ_self _) h

theorem follow_setState (r : DirectionState × Step) :
    (s.setState d st).follow d r = s.follow d r := by
  simp only [follow, setState_setState]

end Http1Decoder

/-! ## Pushes -/

namespace Http1Decoder

variable {s t : Http1Decoder} {b : DecodeBatch} {d : Direction}

/-- Appending bytes to the buffer of a direction. -/
def bytes (d : Direction) : Stream.Feed Http1Decoder UInt8 where
  feed := feed d
  feed_nil s := by
    simp only [feed, append_nil]
    exact s.setState_state d
  feed_append s x y := by simp [feed, append_assoc]

theorem state_feed (d : Direction) (s : Http1Decoder) (x : Bytes) :
    (feed d s x).state d = (s.state d).append x := by
  rw [feed, state_setState_self, DirectionState.append]

theorem trackExchange_setState (s : Http1Decoder) (d : Direction) (st : DirectionState)
    (m : DecodedMessage) :
    (s.setState d st).trackExchange m = (s.trackExchange m).setState d st := by
  simp only [trackExchange, setState_requestMethods]
  split
  · split <;> cases d <;> rfl
  · split <;> cases d <;> rfl

theorem turn_feed (d : Direction) (s : Http1Decoder) (x : Bytes) :
    turn d (feed d s x) =
      s.follow d (((s.state d).append x).step d s.maxBody (s.responseToHead d)) := by
  have hhead : (feed d s x).responseToHead d = s.responseToHead d := by
    simp [feed, responseToHead]
  rw [turn, state_feed, hhead, feed, follow_setState, setState_maxBody]

theorem turn_local (d : Direction) : Stream.Local (turn d) (bytes d) where
  again := by
    intro s t b h x
    obtain ⟨st, step, hsteps, ⟨rfl, rfl, rfl⟩ | ⟨m, rfl, rfl, rfl⟩⟩ := turn_again h
    · change turn d (feed d s x) = _
      rw [turn_feed, (hsteps.append trivial x).step_eq]
      simp [follow, bytes, feed, DirectionState.append]
    · change turn d (feed d s x) = _
      rw [turn_feed, (hsteps.append trivial x).step_eq]
      simp [follow, bytes, feed, trackExchange_setState, DirectionState.append]
  stop := by
    intro s t h x
    obtain ⟨st, step, hsteps, rfl, ⟨rfl, -⟩ | ⟨reason, -, hb⟩⟩ := turn_stop h
    · change turn d (feed d s x) = turn d (feed d (s.setState d st) x)
      rw [turn_feed, turn_feed, hsteps.waits_append x]
      simp [follow_setState, responseToHead]
    · cases hb

theorem turn_plain (d : Direction) : Stream.Plain (turn d) := by
  intro s t b h hq
  obtain ⟨-, -, -, -, ⟨-, rfl⟩ | ⟨reason, -, rfl⟩⟩ := turn_stop h
  · rfl
  · cases hq

theorem push_append {a b : Bytes} (ha : (s.push d a).2.desynchronized = none)
    (hb : ((s.push d a).1.push d b).2.desynchronized = none) : s.push d (a ++ b) =
      (((s.push d a).1.push d b).1, (s.push d a).2.seq ((s.push d a).1.push d b).2) :=
  (turn_plain d).push_append (turn_decreases d) (turn_local d).resumes ha hb

/-- Where two pushes report nothing, one push of both fragments does the same: the same
messages, the same state, and no report. -/
theorem push_pieces (s : Http1Decoder) (d : Direction) (a b : Bytes)
    (ha : (s.push d a).2.desynchronized = none)
    (hb : ((s.push d a).1.push d b).2.desynchronized = none) :
    s.push d (a ++ b) = (((s.push d a).1.push d b).1,
      ⟨(s.push d a).2.messages ++ ((s.push d a).1.push d b).2.messages, none⟩) := by
  rw [push_append ha hb, Stream.Batch.seq, ha, hb]
  rfl

/-- A request in two fragments, the first of which ends inside the head. -/
theorem request_pieces :
    ((new 16).push .clientToServer (Utf8.asBytes "GET / HTTP/1.1\r\nContent-Length: 2\r" ++
      Utf8.asBytes "\n\r\nhiGET")).2.messages.length = 1 := by
  rw [push_pieces (new 16) .clientToServer _ _ (by decide +kernel) (by decide +kernel)]
  decide +kernel

end Http1Decoder

/-! ## The headers of a message under way -/

section Headers

variable (g : Headers → Headers)

/-- A message with other headers. -/
def withHeaders (m : DecodedMessage) : DecodedMessage := { m with headers := g m.headers }

def PendingBody.withHeaders : PendingBody → PendingBody
  | .fixed m remaining => .fixed (Http1.withHeaders g m) remaining
  | .chunked m phase => .chunked (Http1.withHeaders g m) phase
  | .untilEof m => .untilEof (Http1.withHeaders g m)

def DirectionState.withHeaders (s : DirectionState) : DirectionState :=
  { s with pending := s.pending.map (PendingBody.withHeaders g) }

def Step.withHeaders : Step → Step
  | .message m => .message (Http1.withHeaders g m)
  | step => step

/-- Other headers make the same step. -/
theorem Steps.withHeaders {d : Direction} {maxBody : Nat} {responseToHead : Bool}
    {buffer : Bytes} {pending : PendingBody} {r : DirectionState × Step}
    (h : Steps d maxBody responseToHead ⟨buffer, some pending⟩ r) :
    Steps d maxBody responseToHead ⟨buffer, some (pending.withHeaders g)⟩
      (r.1.withHeaders g, r.2.withHeaders g) := by
  cases h with
  | fixed => exact .fixed
  | fixedWaits => exact .fixedWaits
  | untilEof => exact .untilEof
  | size hend htext hsize => exact .size hend htext hsize
  | sizeNotText hend htext => exact .sizeNotText hend htext
  | sizeInvalid hend htext hsize => exact .sizeInvalid hend htext hsize
  | sizeWaits hfind hlen => exact .sizeWaits hfind hlen
  | sizeTooLong hfind hlen => exact .sizeTooLong hfind hlen
  | data => exact .data
  | dataWaits => exact .dataWaits
  | dataCrlf => exact .dataCrlf
  | dataCrlfWaits hlen => exact .dataCrlfWaits hlen
  | dataCrlfMissing hlen hp => exact .dataCrlfMissing hlen hp
  | noTrailers => exact .noTrailers
  | trailers hp hend => exact .trailers hp hend
  | trailersWait hp hfind hlen => exact .trailersWait hp hfind hlen
  | trailersTooLong hp hfind hlen => exact .trailersTooLong hp hfind hlen

variable (d : Direction) (responseToHead : Bool)

theorem consumePending_withHeaders (buffer : Bytes) (maxBody : Nat) (pending : PendingBody) :
    consumePending buffer maxBody (pending.withHeaders g) =
      ((consumePending buffer maxBody pending).1.withHeaders g,
        (consumePending buffer maxBody pending).2.withHeaders g) :=
  (@consumePending_steps .clientToServer maxBody false buffer pending).withHeaders g |>.step_eq

theorem beginBody_withHeaders (parsed : ParsedHead) (buffer : Bytes) :
    beginBody d responseToHead { parsed with headers := g parsed.headers } buffer =
      ((beginBody d responseToHead parsed buffer).1.withHeaders g,
        (beginBody d responseToHead parsed buffer).2.withHeaders g) := by
  obtain hbegin | ⟨body, hbody, hbegin⟩ := beginBody_cases d responseToHead parsed
  · rw [hbegin, hbegin parsed.headers]
    rfl
  · rw [hbegin, hbegin parsed.headers]
    cases hbody <;> rfl

/-- A step leaves no body under way with a message, and one when it makes progress.
Either has the given headers. -/
structure Proper (headers : Headers) (r : DirectionState × Step) : Prop where
  progress : r.2 = .progress → ∃ pending, r.1.pending = some pending ∧
    pending.intoMessage.headers = headers
  message : ∀ m, r.2 = .message m → r.1.pending = none ∧ m.headers = headers

section Proper

variable {headers : Headers} {st : DirectionState} {buffer : Bytes}

theorem Proper.needMore : Proper headers (st, .needMore) :=
  ⟨fun h => (by cases h), fun m h => (by cases h)⟩

theorem Proper.desynchronized {reason : String} : Proper headers (st, .desynchronized reason) :=
  ⟨fun h => (by cases h), fun m h => (by cases h)⟩

theorem Proper.of_progress {pending : PendingBody} (h : pending.intoMessage.headers = headers) :
    Proper headers (⟨buffer, some pending⟩, .progress) :=
  ⟨fun _ => ⟨pending, rfl, h⟩, fun m hm => (by cases hm)⟩

theorem Proper.of_message {m : DecodedMessage} (h : m.headers = headers) :
    Proper headers (⟨buffer, none⟩, .message m) :=
  ⟨fun h => (by cases h), fun m' hm => by cases hm; exact ⟨rfl, h⟩⟩

end Proper

theorem Steps.proper {maxBody : Nat} {buffer : Bytes} {pending : PendingBody}
    {r : DirectionState × Step} (h : Steps d maxBody responseToHead ⟨buffer, some pending⟩ r) :
    Proper pending.intoMessage.headers r := by
  cases h with
  | fixed | noTrailers | trailers => exact .of_message rfl
  | size | data | dataCrlf => exact .of_progress rfl
  | fixedWaits | untilEof | sizeWaits | dataWaits | dataCrlfWaits | trailersWait => exact .needMore
  | sizeNotText | sizeInvalid | sizeTooLong | dataCrlfMissing | trailersTooLong =>
    exact .desynchronized

theorem beginBody_proper (parsed : ParsedHead) (buffer : Bytes) :
    Proper parsed.headers (beginBody d responseToHead parsed buffer) := by
  rcases h : beginBody d responseToHead parsed buffer with ⟨t, step⟩
  obtain ⟨rfl, rfl⟩ | ⟨body, hbody, rfl, rfl⟩ := beginBody_begun h
  · exact .of_message rfl
  · exact .of_progress (by rw [hbody.intoMessage])

/-- The same batch, but for the headers of its first message. -/
structure SameButFirst (headers : Headers) (b b' : DecodeBatch) : Prop where
  desynchronized : b'.desynchronized = b.desynchronized
  messages : (b.messages = [] ∧ b'.messages = []) ∨
    ∃ m ms, b.messages = m :: ms ∧ b'.messages = withHeaders g m :: ms ∧ m.headers = headers

namespace Http1Decoder

/-- The runs after a step, with its headers and with other headers. -/
theorem resume_withHeaders (d : Direction) {headers : Headers} :
    ∀ (n : Nat) (s : Http1Decoder) (r : DirectionState × Step), Proper headers r →
      SameButFirst g headers (Stream.resume (turn d) n (s.follow d r)).2
        (Stream.resume (turn d) n (s.follow d (r.1.withHeaders g, r.2.withHeaders g))).2 := by
  intro n
  induction n with
  | zero =>
    intro s r hr
    obtain ⟨st, step⟩ := r
    cases step with
    | needMore => exact ⟨rfl, .inl ⟨rfl, rfl⟩⟩
    | progress => exact ⟨rfl, .inl ⟨rfl, rfl⟩⟩
    | message m => exact ⟨rfl, .inr ⟨m, [], rfl, rfl, (hr.message m rfl).2⟩⟩
    | desynchronized reason => exact ⟨rfl, .inl ⟨rfl, rfl⟩⟩
  | succ n ih =>
    intro s r hr
    obtain ⟨st, step⟩ := r
    cases step with
    | needMore => exact ⟨rfl, .inl ⟨rfl, rfl⟩⟩
    | desynchronized reason => exact ⟨rfl, .inl ⟨rfl, rfl⟩⟩
    | message m =>
      -- The body is complete, so the two runs go on from one state.
      obtain ⟨hnone, hheaders⟩ := hr.message m rfl
      have hp : st.withHeaders g = st := by
        obtain ⟨buffer, pending⟩ := st
        cases hnone
        rfl
      simp only [follow, Step.withHeaders, hp, Stream.resume]
      exact ⟨rfl, .inr ⟨m, _, rfl, rfl, hheaders⟩⟩
    | progress =>
      obtain ⟨pending, hp, rfl⟩ := hr.progress rfl
      obtain ⟨buffer, pending'⟩ := st
      cases hp
      have hturn : ∀ p : PendingBody, turn d (s.setState d ⟨buffer, some p⟩) =
          s.follow d (consumePending buffer s.maxBody p) := by
        intro p
        simp only [turn, state_setState_self, follow_setState, DirectionState.step,
          setState_maxBody]
      simp only [follow, Step.withHeaders, DirectionState.withHeaders, Option.map_some,
        Stream.resume, Stream.Batch.needMore_seq, Stream.drive_succ, hturn,
        consumePending_withHeaders]
      exact ih s _ (consumePending_steps buffer pending |>.proper d false)

end Http1Decoder

end Headers

end Lens.Http1
