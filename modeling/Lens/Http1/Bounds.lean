import Lens.Http1.Loop

/-!
# Bounded inspection

Whatever bytes arrive, a push ends and the decoder holds a bounded amount of them.  A turn
that goes on takes input or moves on to a later phase of its message (`Steps.advances`), so
the loop halts.  A turn that stops leaves no more in the buffer than its phase allows
(`Steps.small`), and bodies never grow beyond the cap (`Steps.within`).  `push_bounded` says
this of every push from every state a decoder can reach.
-/

namespace Lens.Http1

namespace DirectionState

/-- What a direction may hold while it waits for more input. -/
def Small (s : DirectionState) : Prop :=
  match s.pending with
  | none => s.buffer.length ≤ maxHeadBytes
  | some (.fixed _ _) => s.buffer = []
  | some (.untilEof _) => s.buffer = []
  | some (.chunked _ .size) => s.buffer.length ≤ maxChunkLineBytes
  | some (.chunked _ (.data _)) => s.buffer = []
  | some (.chunked _ .dataCrlf) => s.buffer.length ≤ 1
  | some (.chunked _ .trailers) => s.buffer.length ≤ maxHeadBytes

/-- The body under way is within the cap. -/
def Within (maxBody : Nat) (s : DirectionState) : Prop :=
  ∀ p, s.pending = some p → p.intoMessage.body.length ≤ maxBody

/-- How far a message is from its end, among the phases that can end without input. -/
def phase (s : DirectionState) : Nat :=
  match s.pending with
  | none => 0
  | some (.chunked _ (.data _)) => 2
  | some _ => 1

/-- From `s` to `t` some input was taken, or the message moved on. -/
def Advances (s t : DirectionState) : Prop :=
  t.buffer.length < s.buffer.length ∨ t.buffer = s.buffer ∧ t.phase < s.phase

end DirectionState

section Steps

variable {d : Direction} {maxBody : Nat} {responseToHead : Bool}
  {s t : DirectionState} {step : Step}

/-- A step that goes on takes input or moves on. -/
theorem Steps.advances (h : Steps d maxBody responseToHead s (t, step)) (hgo : step.GoesOn) :
    s.Advances t := by
  cases h with
  | head hend hparse hr =>
    refine .inl ?_
    rw [beginBody_buffer hr]
    simp [headEnd]
    omega
  | fixed =>
    rename_i w rest m
    cases w with
    | nil => exact .inr ⟨rfl, Nat.zero_lt_one⟩
    | cons => exact .inl (by simp)
  | data =>
    rename_i w rest m
    cases w with
    | nil => exact .inr ⟨rfl, Nat.one_lt_two⟩
    | cons => exact .inl (by simp)
  | size => exact .inl (by simp [crlf]; omega)
  | dataCrlf | noTrailers => exact .inl (by simp [crlf])
  | trailers => exact .inl (by simp [headEnd]; omega)
  | headInvalid | headTooLong | sizeNotText | sizeInvalid | sizeTooLong | dataCrlfMissing
  | trailersTooLong | headWaits | fixedWaits | untilEof | sizeWaits | dataWaits | dataCrlfWaits
  | trailersWait => exact hgo.elim

/-- A step that stops leaves no more than its phase allows. -/
theorem Steps.small (h : Steps d maxBody responseToHead s (t, step)) (hstop : ¬step.GoesOn) :
    t.Small := by
  cases h with
  | head hend hparse hr => exact absurd (beginBody_goesOn hr) hstop
  | headWaits _ hlen | sizeWaits _ hlen | trailersWait _ _ hlen => exact hlen
  | dataCrlfWaits hlen => exact Nat.le_of_lt_succ hlen
  | fixedWaits | untilEof | dataWaits => rfl
  | headInvalid | headTooLong | sizeNotText | sizeInvalid | sizeTooLong | dataCrlfMissing
  | trailersTooLong => exact Nat.zero_le _
  | fixed | size | data | dataCrlf | noTrailers | trailers => exact absurd trivial hstop

theorem length_capture_le {m : DecodedMessage} (h : m.body.length ≤ maxBody) (w : Bytes) :
    (capture m w maxBody).body.length ≤ maxBody := by
  rw [capture_eq, List.length_append, List.length_take]
  omega

/-- Bodies stay within the cap. -/
theorem Steps.within (h : Steps d maxBody responseToHead s (t, step)) (hs : s.Within maxBody) :
    t.Within maxBody ∧ ∀ m, step = .message m → m.body.length ≤ maxBody := by
  cases h with
  | head hend hparse hr =>
    obtain ⟨rfl, rfl⟩ | ⟨body, hbody, rfl, rfl⟩ := beginBody_begun hr
    · refine ⟨nofun, ?_⟩
      rintro _ ⟨⟩
      exact Nat.zero_le _
    · refine ⟨?_, nofun⟩
      rintro _ ⟨⟩
      rw [hbody.intoMessage]
      exact Nat.zero_le _
  | headWaits | headInvalid | headTooLong | sizeNotText | sizeInvalid | sizeTooLong
  | dataCrlfMissing | trailersTooLong => exact ⟨nofun, nofun⟩
  | fixed =>
    refine ⟨nofun, ?_⟩
    rintro _ ⟨⟩
    exact length_capture_le (hs _ rfl) _
  | fixedWaits | untilEof | data | dataWaits =>
    refine ⟨?_, nofun⟩
    rintro _ ⟨⟩
    exact length_capture_le (hs _ rfl) _
  | size | sizeWaits | dataCrlf | dataCrlfWaits | trailersWait =>
    refine ⟨?_, nofun⟩
    rintro _ ⟨⟩
    exact (hs _ rfl :)
  | noTrailers | trailers =>
    refine ⟨nofun, ?_⟩
    rintro _ ⟨⟩
    exact hs _ rfl

end Steps

namespace Http1Decoder

/-- The states of a decoder with a cap on its bodies. -/
inductive Reachable (maxBody : Nat) : Http1Decoder → Prop where
| new : 0 < maxBody → Reachable maxBody (new maxBody)
| push {s : Http1Decoder} (d : Direction) (x : Bytes) :
  Reachable maxBody s → Reachable maxBody (s.push d x).1
| finish {s : Http1Decoder} (d : Direction) :
  Reachable maxBody s → Reachable maxBody (s.finish d).1

/-- Both bodies under way are within the cap. -/
structure Within (maxBody : Nat) (s : Http1Decoder) : Prop where
  cap : s.maxBody = maxBody
  body : ∀ d, (s.state d).Within maxBody

variable {d : Direction} {maxBody : Nat} {s t : Http1Decoder} {b : DecodeBatch}

theorem Within.setState (h : s.Within maxBody) {st : DirectionState} (hst : st.Within maxBody) :
    (s.setState d st).Within maxBody := by
  refine ⟨by rw [setState_maxBody, h.cap], fun d' => ?_⟩
  have hclient := h.body .clientToServer
  have hserver := h.body .serverToClient
  cases d <;> cases d' <;> assumption

theorem trackExchange_maxBody (s : Http1Decoder) (m : DecodedMessage) :
    (s.trackExchange m).maxBody = s.maxBody := by
  rw [trackExchange]
  split
  · split <;> rfl
  · split <;> rfl

theorem Within.trackExchange (h : s.Within maxBody) (m : DecodedMessage) :
    (s.trackExchange m).Within maxBody :=
  ⟨(trackExchange_maxBody s m).trans h.cap, fun d => trackExchange_state s m d ▸ h.body d⟩

theorem Within.turn_again (hturn : turn d s = .again t b) (h : s.Within maxBody) :
    t.Within maxBody ∧ ∀ m ∈ b.messages, m.body.length ≤ maxBody := by
  obtain ⟨st, step, hsteps, hcases⟩ := Http1Decoder.turn_again hturn
  rw [h.cap] at hsteps
  obtain ⟨hst, hm⟩ := hsteps.within (h.body d)
  obtain ⟨rfl, rfl, rfl⟩ | ⟨m, rfl, rfl, rfl⟩ := hcases
  · exact ⟨h.setState hst, by simp [Stream.Batch.needMore]⟩
  · exact ⟨(h.setState hst).trackExchange m, by simpa using hm m rfl⟩

theorem Within.turn_stop (hturn : turn d s = .stop t b) (h : s.Within maxBody) :
    t.Within maxBody ∧ ∀ m ∈ b.messages, m.body.length ≤ maxBody := by
  obtain ⟨st, step, hsteps, rfl, hcases⟩ := Http1Decoder.turn_stop hturn
  rw [h.cap] at hsteps
  refine ⟨h.setState (hsteps.within (h.body d)).1, ?_⟩
  obtain ⟨-, rfl⟩ | ⟨reason, -, rfl⟩ := hcases
  · simp [Stream.Batch.needMore]
  · simp

theorem Within.push (h : s.Within maxBody) (d : Direction) (x : Bytes) :
    (s.push d x).1.Within maxBody ∧ ∀ m ∈ (s.push d x).2.messages, m.body.length ≤ maxBody :=
  Stream.drive_invariant Within.turn_again Within.turn_stop _ _
    (h.setState fun p hp => h.body d p hp)

theorem Within.finish (h : s.Within maxBody) (d : Direction) : (s.finish d).1.Within maxBody := by
  rw [Http1Decoder.finish, DirectionState.finish]
  cases hp : (s.state d).pending with
  | none => exact h.setState (h.body d)
  | some p =>
    have hnone : DirectionState.Within maxBody ⟨[], none⟩ := nofun
    exact (h.setState hnone).trackExchange _

theorem Reachable.within (h : Reachable maxBody s) : s.Within maxBody := by
  induction h with
  | new => exact ⟨rfl, fun d p hp => by cases d <;> cases hp⟩
  | push d x _ ih => exact (ih.push d x).1
  | finish d _ ih => exact ih.finish d

theorem turn_advances (h : turn d s = .again t b) : (s.state d).Advances (t.state d) := by
  obtain ⟨st, step, hsteps, ⟨rfl, rfl, rfl⟩ | ⟨m, rfl, rfl, rfl⟩⟩ := turn_again h
  · rw [state_setState_self]
    exact hsteps.advances trivial
  · rw [trackExchange_state, state_setState_self]
    exact hsteps.advances trivial

theorem turn_small (h : turn d s = .stop t b) : (t.state d).Small := by
  obtain ⟨st, step, hsteps, rfl, ⟨rfl, -⟩ | ⟨reason, rfl, -⟩⟩ := turn_stop h
  · rw [state_setState_self]
    exact hsteps.small id
  · rw [state_setState_self]
    exact hsteps.small id

/-- From every state of a decoder and for every input a push halts, since every turn that
goes on advances.  The bodies it emits and those under way are within the cap, and the
buffer holds no more than the phase allows. -/
theorem push_bounded (h : Reachable maxBody s) (d : Direction) (x : Bytes) :
    Stream.Halts (turn d) (feed d s x) (s.push d x).1 (s.push d x).2 ∧
      (∀ u v b, turn d u = .again v b → (u.state d).Advances (v.state d)) ∧
      (∀ m ∈ (s.push d x).2.messages, m.body.length ≤ maxBody) ∧
      (∀ d', ((s.push d x).1.state d').Within maxBody) ∧
      ((s.push d x).1.state d).Small := by
  obtain ⟨hwithin, hmessages⟩ := h.within.push d x
  obtain ⟨u, b, hstop⟩ := Stream.drive_stops (turn_decreases d) _ (feed d s x) (Nat.lt_succ_self _)
  exact ⟨Stream.drive_halts (turn_decreases d) _ _ (Nat.lt_succ_self _),
    fun _ _ _ => turn_advances, hmessages, hwithin.body, turn_small hstop⟩

/-- A fragment that ends inside the data of a chunk, with more data than the cap. -/
theorem chunk_bounded :
    (((new 2).push .clientToServer
      (Utf8.asBytes "POST / HTTP/1.1\r\nTransfer-Encoding: chunked\r\n\r\n9\r\nabcd")).1.state
        .clientToServer).Small :=
  (push_bounded (.new (by decide)) _ _).2.2.2.2

end Http1Decoder

end Lens.Http1
