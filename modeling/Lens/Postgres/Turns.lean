import Lens.Postgres.Session

/-!
# Turns of the decoder

Of the state, a turn reads the phase, the limit and the buffer of its own direction
(`step_eq`).  What it takes off the front of that buffer does not depend on what follows
(`offered_append`), so a turn commutes with bytes that arrive later, in its own direction
(`turn_feed`) and in the other (`turn_feed_other`).

A decoder that has gone opaque takes no more bytes.  With that built into how bytes are
appended (`bytes`), a push within the limit is a push of the library (`push_eq`), and a
turn that ends the decoding is final (`turn_closes`).  Then a fragment may be cut in two
anywhere (`push_fragments`).
-/

namespace Lens.Postgres

open List
open Search (be32 beNat)
open Stream (Turn Feed)

/-- The directions whose bytes a phase reads. -/
def Phase.reads : Phase → Direction → Bool
  | .startup, .clientToServer => true
  | .awaitingEncryptionResponse, .serverToClient => true
  | .typed, _ => true
  | _, _ => false

namespace PostgresDecoder

variable {b rest x : Bytes} {o : Step} {reason : String}

variable {d d' : Direction} {phase : Phase} {maxBody : Nat} {s t : PostgresDecoder}

/-! ## What a step reads -/

/-- What a complete startup frame gives. -/
def startupStep (frame : Bytes) : Step :=
  let code := beNat ((frame.drop 4).take 4)
  if code = sslRequestCode then
    .messageAndPhase (message .clientToServer "SSLRequest") .awaitingEncryptionResponse
  else if code = gssencRequestCode then
    .messageAndPhase (message .clientToServer "GSSENCRequest") .awaitingEncryptionResponse
  else if code = cancelRequestCode then
    .messageAndPhase (message .clientToServer "CancelRequest (key material omitted)") .opaqueTraffic
  else
    match startupMessage code (frame.drop 8) with
    | .ok m => .messageAndPhase m .typed
    | .error reason => .desynchronized reason

/-- One startup frame off a buffer. -/
def startupFrame (b : Bytes) : Bytes × Step :=
  let length := beNat (b.take 4)
  if b.length < 4 then (b, .needMore)
  else if ¬ (8 ≤ length ∧ length ≤ maxFrameBytes) then
    (b, .desynchronized s!"invalid PostgreSQL startup frame length {length}")
  else if b.length < length then (b, .needMore)
  else (b.drop length, startupStep (b.take length))

/-- What the answer to a request for encryption gives. -/
def responseStep (response : UInt8) : Step :=
  match Char.ofNat response.toNat with
  | 'S' => .messageAndPhase
      (message .serverToClient "EncryptionResponse accepted (traffic opaque)") .opaqueTraffic
  | 'G' => .messageAndPhase
      (message .serverToClient "GSSENCResponse accepted (traffic opaque)") .opaqueTraffic
  | 'N' => .messageAndPhase (message .serverToClient "EncryptionResponse rejected") .startup
  | _ => .desynchronized "invalid PostgreSQL encryption response"

/-- What a step leaves of the buffer of its direction, and what it gives. -/
def offered (maxBody : Nat) : Phase → Direction → Bytes → Bytes × Step
  | .startup, .clientToServer, b => startupFrame b
  | .awaitingEncryptionResponse, .serverToClient, response :: rest => (rest, responseStep response)
  | .typed, d, b => typedFrame d maxBody b
  | _, _, b => (b, .needMore)

theorem stepStartup_eq (s : PostgresDecoder) :
    s.stepStartup =
      ({ s with client := (startupFrame s.client).1 }, (startupFrame s.client).2) := by
  rw [stepStartup, startupFrame]
  simp only
  split
  · rfl
  · split
    · rfl
    · split
      · rfl
      · rw [startupStep]
        simp only
        split
        · rfl
        · split
          · rfl
          · split
            · rfl
            · generalize startupMessage _ _ = outcome
              cases outcome with
              | ok m => rfl
              | error reason => rfl

theorem stepEncryptionResponse_cons (s : PostgresDecoder) (response : UInt8) (rest : Bytes)
    (h : s.server = response :: rest) :
    s.stepEncryptionResponse = ({ s with server := rest }, responseStep response) := by
  rw [stepEncryptionResponse, h, responseStep]
  simp only
  generalize Char.ofNat response.toNat = letter
  by_cases hS : letter = 'S'
  · subst hS
    rfl
  by_cases hG : letter = 'G'
  · subst hG
    rfl
  by_cases hN : letter = 'N'
  · subst hN
    rfl
  simp

/-- A step is a matter of the phase, the limit and one buffer. -/
theorem step_eq (s : PostgresDecoder) (d : Direction) :
    s.step d = (s.setBuffer d (offered s.maxBody s.phase d (s.buffer d)).1,
      (offered s.maxBody s.phase d (s.buffer d)).2) := by
  obtain ⟨maxBody, client, server, phase⟩ := s
  cases phase with
  | startup =>
    cases d with
    | clientToServer => exact stepStartup_eq _
    | serverToClient => rfl
  | awaitingEncryptionResponse =>
    cases d with
    | clientToServer => rfl
    | serverToClient =>
      cases server with
      | nil => rfl
      | cons response rest =>
        exact stepEncryptionResponse_cons ⟨maxBody, client, _, _⟩ response rest rfl
  | typed => rfl
  | opaqueTraffic => cases d <;> rfl

/-- A complete startup frame begins a phase or is refused. -/
theorem startupStep_cases (frame : Bytes) :
    (∃ m next, startupStep frame = .messageAndPhase m next ∧
      (next = .typed ∨ next.reads .clientToServer = false)) ∨
    ∃ reason, startupStep frame = .desynchronized reason := by
  rw [startupStep]
  split
  · exact .inl ⟨_, _, rfl, .inr rfl⟩
  · split
    · exact .inl ⟨_, _, rfl, .inr rfl⟩
    · split
      · exact .inl ⟨_, _, rfl, .inr rfl⟩
      · split
        · exact .inl ⟨_, _, rfl, .inl rfl⟩
        · exact .inr ⟨_, rfl⟩

/-- The answer to a request for encryption ends a phase or is refused. -/
theorem responseStep_cases (response : UInt8) :
    (∃ m next, responseStep response = .messageAndPhase m next ∧
      next.reads .serverToClient = false) ∨
    ∃ reason, responseStep response = .desynchronized reason := by
  rw [responseStep]
  split
  · exact .inl ⟨_, _, rfl, rfl⟩
  · exact .inl ⟨_, _, rfl, rfl⟩
  · exact .inl ⟨_, _, rfl, rfl⟩
  · exact .inr ⟨_, rfl⟩

/-- What a step can give, and what it leaves. -/
inductive Offers (maxBody : Nat) (phase : Phase) (d : Direction) (b : Bytes) :
    Bytes × Step → Prop where
  | waits : Offers maxBody phase d b (b, .needMore)
  | message {rest : Bytes} {m : DecodedMessage} :
      phase = .typed → rest.length < b.length → Offers maxBody phase d b (rest, .message m)
  | phase {rest : Bytes} {m : DecodedMessage} {next : Phase} :
      phase.reads d = true → phase ≠ .typed → next = .typed ∨ next.reads d = false →
      rest.length < b.length → Offers maxBody phase d b (rest, .messageAndPhase m next)
  | report {rest : Bytes} {reason : String} :
      phase.reads d = true → rest.length ≤ b.length →
      Offers maxBody phase d b (rest, .desynchronized reason)

theorem startupFrame_offers (maxBody : Nat) (b : Bytes) :
    Offers maxBody .startup .clientToServer b (startupFrame b) := by
  rw [startupFrame]
  split
  · exact .waits
  next hshort =>
  split
  · exact .report rfl (Nat.le_refl _)
  next hrange =>
  split
  · exact .waits
  next hlong =>
  have hrest : (b.drop (beNat (b.take 4))).length < b.length := by
    rw [length_drop]
    omega
  obtain ⟨m, next, hm, hnext⟩ | ⟨reason, hr⟩ := startupStep_cases (b.take (beNat (b.take 4)))
  · rw [hm]
    exact .phase rfl (by simp) hnext hrest
  · rw [hr]
    exact .report rfl (Nat.le_of_lt hrest)

theorem typedFrame_offers (d : Direction) (maxBody : Nat) (b : Bytes) :
    Offers maxBody .typed d b (typedFrame d maxBody b) := by
  rw [typedFrame]
  split
  · exact .waits
  next hshort =>
  simp only
  split
  · exact .report rfl (Nat.le_refl _)
  split
  · exact .waits
  have hrest : (b.drop (beNat ((b.drop 1).take 4) + 1)).length < b.length := by
    rw [length_drop]
    omega
  split
  · exact .message rfl hrest
  · exact .report rfl (Nat.le_of_lt hrest)

theorem offered_offers (maxBody : Nat) (phase : Phase) (d : Direction) (b : Bytes) :
    Offers maxBody phase d b (offered maxBody phase d b) := by
  match phase, d, b with
  | .startup, .clientToServer, b => exact startupFrame_offers maxBody b
  | .startup, .serverToClient, b => exact .waits
  | .awaitingEncryptionResponse, .clientToServer, b => exact .waits
  | .awaitingEncryptionResponse, .serverToClient, [] => exact .waits
  | .awaitingEncryptionResponse, .serverToClient, response :: rest =>
    have hrest : rest.length < (response :: rest).length := Nat.lt_succ_self _
    rw [offered]
    obtain ⟨m, next, hm, hnext⟩ | ⟨reason, hr⟩ := responseStep_cases response
    · rw [hm]
      exact .phase rfl (by simp) (.inr hnext) hrest
    · rw [hr]
      exact .report rfl (Nat.le_of_lt hrest)
  | .typed, d, b => exact typedFrame_offers d maxBody b
  | .opaqueTraffic, .clientToServer, b => exact .waits
  | .opaqueTraffic, .serverToClient, b => exact .waits

/-- Nothing is read off an empty buffer. -/
theorem offered_nil (maxBody : Nat) (phase : Phase) (d : Direction) :
    offered maxBody phase d [] = ([], .needMore) := by
  cases phase <;> cases d <;> rfl

theorem startupFrame_append (h : startupFrame b = (rest, o)) (ho : o ≠ .needMore)
    (x : Bytes) : startupFrame (b ++ x) = (rest ++ x, o) := by
  rw [startupFrame] at h ⊢
  split at h
  · cases h
    exact absurd rfl ho
  next hshort =>
  have hlen : (b ++ x).length = b.length + x.length := length_append
  rw [take_append_of_le_length (by omega), if_neg (by omega)]
  split at h
  next hrange =>
    cases h
    rw [if_pos hrange]
  next hrange =>
  split at h
  · cases h
    exact absurd rfl ho
  next hlong =>
  cases h
  rw [if_neg hrange, if_neg (by omega), take_append_of_le_length (by omega),
    drop_append_of_le_length (by omega)]

theorem typedFrame_append (h : typedFrame d maxBody b = (rest, o)) (ho : o ≠ .needMore)
    (x : Bytes) :
    typedFrame d maxBody (b ++ x) = (rest ++ x, o) := by
  rw [typedFrame] at h ⊢
  split at h
  · cases h
    exact absurd rfl ho
  next hshort =>
  have hlen : (b ++ x).length = b.length + x.length := length_append
  have hhead : (b ++ x).headD 0 = b.headD 0 := by
    cases b with
    | nil => simp at hshort
    | cons c b => rfl
  have hnum : ((b ++ x).drop 1).take 4 = (b.drop 1).take 4 := by
    rw [drop_append_of_le_length (by omega), take_append_of_le_length]
    rw [length_drop]
    omega
  simp only at h ⊢
  rw [if_neg (by omega), hnum, hhead]
  split at h
  next hrange =>
    cases h
    rw [if_pos hrange]
  next hrange =>
  split at h
  · cases h
    exact absurd rfl ho
  next hlong =>
  rw [if_neg hrange, if_neg (by omega), take_append_of_le_length (by omega),
    drop_append_of_le_length (by omega)]
  split at h
  · cases h
    rfl
  · cases h
    rfl

/-- Later bytes do not change what a step takes off the front. -/
theorem offered_append (h : offered maxBody phase d b = (rest, o)) (ho : o ≠ .needMore)
    (x : Bytes) :
    offered maxBody phase d (b ++ x) = (rest ++ x, o) := by
  match phase, d, b with
  | .startup, .clientToServer, b => exact startupFrame_append h ho x
  | .startup, .serverToClient, b => cases h; exact absurd rfl ho
  | .awaitingEncryptionResponse, .clientToServer, b => cases h; exact absurd rfl ho
  | .awaitingEncryptionResponse, .serverToClient, [] => cases h; exact absurd rfl ho
  | .awaitingEncryptionResponse, .serverToClient, response :: b => cases h; rfl
  | .typed, d, b => exact typedFrame_append h ho x
  | .opaqueTraffic, .clientToServer, b => cases h; exact absurd rfl ho
  | .opaqueTraffic, .serverToClient, b => cases h; exact absurd rfl ho

/-! ## Bytes that arrive later -/

/-- Append bytes, unless the decoder has gone opaque. -/
def bytes (d : Direction) : Feed PostgresDecoder UInt8 where
  feed s x := if s.phase = .opaqueTraffic then s else feed d s x
  feed_nil s := by
    split
    · rfl
    · rw [feed, append_nil, setBuffer_buffer]
  feed_append s x y := by
    by_cases h : s.phase = .opaqueTraffic
    · simp only [if_pos h]
    · simp only [if_neg h, feed, setBuffer_phase, buffer_setBuffer_self, setBuffer_setBuffer,
        append_assoc]

theorem bytes_feed_closed (h : s.phase = .opaqueTraffic) (x : Bytes) :
    (bytes d).feed s x = s := if_pos h

theorem bytes_feed (h : s.phase ≠ .opaqueTraffic) (x : Bytes) :
    (bytes d).feed s x = s.setBuffer d (s.buffer d ++ x) := if_neg h

theorem setBuffer_comm (s : PostgresDecoder) (h : d' ≠ d) (b b' : Bytes) :
    (s.setBuffer d b).setBuffer d' b' = (s.setBuffer d' b').setBuffer d b := by
  cases d <;> cases d' <;> first | rfl | exact absurd rfl h

/-- What the loop does with a step. -/
def conclude : PostgresDecoder × Step → Turn PostgresDecoder DecodedMessage String
  | (s, .needMore) => .stop s .needMore
  | (s, .message m) => .again s ⟨[m], none⟩
  | (s, .messageAndPhase m phase) =>
    if phase = .opaqueTraffic then .stop s.goOpaque ⟨[m], none⟩
    else .again { s with phase := phase } ⟨[m], none⟩
  | (s, .desynchronized reason) => .stop s.goOpaque ⟨[], some reason⟩

theorem turn_eq (d : Direction) (s : PostgresDecoder) : turn d s =
    conclude (s.setBuffer d (offered s.maxBody s.phase d (s.buffer d)).1,
      (offered s.maxBody s.phase d (s.buffer d)).2) := by
  rw [turn, step_eq]
  rfl

/-- Bytes that arrive are there whatever the loop has done with a step. -/
theorem conclude_feed (h : s.phase ≠ .opaqueTraffic) (o : Step) (x : Bytes) :
    conclude ((bytes d).feed s x, o) = (conclude (s, o)).map ((bytes d).feed · x) := by
  have hlast : (bytes d).feed s.goOpaque x = ((bytes d).feed s x).goOpaque := by
    rw [bytes_feed h, goOpaque_setBuffer]
    exact bytes_feed_closed rfl x
  cases o with
  | needMore => rfl
  | message m => rfl
  | messageAndPhase m next =>
    by_cases hnext : next = .opaqueTraffic
    · simp only [conclude, if_pos hnext, Turn.map, hlast]
    · simp only [conclude, if_neg hnext, Turn.map]
      rw [bytes_feed h, bytes_feed hnext]
      cases d <;> rfl
  | desynchronized reason => simp only [conclude, Turn.map, hlast]

/-! ## Turns -/

/-- What a turn can be. -/
inductive Turns (d : Direction) (s : PostgresDecoder) :
    Turn PostgresDecoder DecodedMessage String → Prop where
  | waits : Turns d s (.stop s .needMore)
  | message {b : Bytes} {m : DecodedMessage} :
      s.phase = .typed → b.length < (s.buffer d).length →
      Turns d s (.again (s.setBuffer d b) ⟨[m], none⟩)
  | phase {b : Bytes} {m : DecodedMessage} {next : Phase} :
      s.phase.reads d = true → s.phase ≠ .typed → next = .typed ∨ next.reads d = false →
      next ≠ .opaqueTraffic → b.length < (s.buffer d).length →
      Turns d s (.again { s.setBuffer d b with phase := next } ⟨[m], none⟩)
  | ends {m : DecodedMessage} :
      s.phase.reads d = true → s.phase ≠ .typed → Turns d s (.stop s.goOpaque ⟨[m], none⟩)
  | report {reason : String} :
      s.phase.reads d = true → Turns d s (.stop s.goOpaque ⟨[], some reason⟩)

theorem turns_turn (d : Direction) (s : PostgresDecoder) : Turns d s (turn d s) := by
  rw [turn_eq]
  have h := offered_offers s.maxBody s.phase d (s.buffer d)
  generalize offered s.maxBody s.phase d (s.buffer d) = r at h
  cases h with
  | waits =>
    rw [setBuffer_buffer]
    exact .waits
  | message hp hb => exact .message hp hb
  | @phase rest m next hp hne hnext hb =>
    by_cases hopaque : next = .opaqueTraffic
    · simp only [conclude, if_pos hopaque, goOpaque_setBuffer]
      exact .ends hp hne
    · simp only [conclude, if_neg hopaque]
      exact .phase hp hne hnext hopaque hb
  | report hp hb =>
    simp only [conclude, goOpaque_setBuffer]
    exact .report hp

/-- Opaque traffic is not read. -/
theorem turn_closed (h : s.phase = .opaqueTraffic) : turn d s = .stop s .needMore := by
  have hturn := turns_turn d s
  have hreads : s.phase.reads d = false := by
    rw [h]
    rfl
  generalize turn d s = r at hturn
  cases hturn with
  | waits => rfl
  | message hp => rw [h] at hp; cases hp
  | phase hp => rw [hreads] at hp; cases hp
  | ends hp => rw [hreads] at hp; cases hp
  | report hp => rw [hreads] at hp; cases hp

/-- A turn commutes with bytes of the other direction. -/
theorem turn_feed_other (h : d' ≠ d) (s : PostgresDecoder) (x : Bytes) :
    turn d ((bytes d').feed s x) = (turn d s).map ((bytes d').feed · x) := by
  by_cases hs : s.phase = .opaqueTraffic
  · rw [bytes_feed_closed hs, turn_closed hs, Turn.map, bytes_feed_closed hs]
  · rw [turn_eq d s, ← conclude_feed (by rwa [setBuffer_phase]), turn_eq, bytes_feed hs,
      bytes_feed (by rwa [setBuffer_phase]), buffer_setBuffer_of_ne _ _ h,
      buffer_setBuffer_of_ne _ _ h.symm, setBuffer_maxBody, setBuffer_phase, setBuffer_comm _ h]

/-- A direction waits when its buffer offers nothing. -/
theorem waits_iff (d : Direction) (s : PostgresDecoder) : turn d s = .stop s .needMore ↔
    (offered s.maxBody s.phase d (s.buffer d)).2 = .needMore := by
  have hoffers := offered_offers s.maxBody s.phase d (s.buffer d)
  rw [turn_eq]
  generalize offered s.maxBody s.phase d (s.buffer d) = r at hoffers
  cases hoffers with
  | waits => simp [conclude]
  | message => simp [conclude]
  | @phase _ _ next =>
    by_cases hnext : next = .opaqueTraffic
    · simp [conclude, if_pos hnext, Stream.Batch.needMore]
    · simp [conclude, if_neg hnext]
  | report => simp [conclude, Stream.Batch.needMore]

/-- A turn that does something commutes with bytes of its own direction. -/
theorem turn_feed (h : turn d s ≠ .stop s .needMore) (x : Bytes) :
    turn d ((bytes d).feed s x) = (turn d s).map ((bytes d).feed · x) := by
  have hs : s.phase ≠ .opaqueTraffic := fun hs => h (turn_closed hs)
  have hturn := turn_eq d s
  rw [Ne, waits_iff] at h
  rcases hoff : offered s.maxBody s.phase d (s.buffer d) with ⟨rest, o⟩
  rw [hoff] at h hturn
  rw [hturn, ← conclude_feed (by rwa [setBuffer_phase]), turn_eq, bytes_feed hs,
    bytes_feed (by rwa [setBuffer_phase]), buffer_setBuffer_self, setBuffer_maxBody,
    setBuffer_phase, offered_append hoff h, setBuffer_setBuffer, buffer_setBuffer_self,
    setBuffer_setBuffer]

/-- A turn that goes on takes bytes off its buffer. -/
theorem turn_decreases (d : Direction) : Stream.Decreases (turn d) (measure d) := by
  intro s t b h
  have hturn := turns_turn d s
  rw [h] at hturn
  cases hturn with
  | message _ hb =>
    rw [measure, buffer_setBuffer_self]
    exact hb
  | @phase b _ next _ _ _ _ hb =>
    have hbuf : buffer { s.setBuffer d b with phase := next } d = b := by cases d <;> rfl
    rw [measure, hbuf]
    exact hb

/-- A turn that stops keeps the state and asks for more, or ends the decoding. -/
theorem turn_stop {b : DecodeBatch} (h : turn d s = .stop t b) :
    (t = s ∧ b = .needMore) ∨ (t = s.goOpaque ∧ b ≠ .needMore) := by
  have hturn := turns_turn d s
  rw [h] at hturn
  cases hturn with
  | waits => exact .inl ⟨rfl, rfl⟩
  | ends => exact .inr ⟨rfl, by simp [Stream.Batch.needMore]⟩
  | report => exact .inr ⟨rfl, by simp [Stream.Batch.needMore]⟩

theorem turn_local (d : Direction) : Stream.Local (turn d) (bytes d) where
  again := by
    intro s t b h x
    rw [turn_feed (by rw [h]; simp), h]
    rfl
  stop := by
    intro s t h x
    obtain ⟨rfl, -⟩ | ⟨-, hb⟩ := turn_stop h
    · rfl
    · exact absurd rfl hb

/-- The end of the decoding stands whatever comes after it. -/
theorem turn_closes (d : Direction) : Stream.Closes (turn d) (bytes d) := by
  intro s t b h hb x
  obtain ⟨-, hnone⟩ | ⟨rfl, -⟩ := turn_stop h
  · exact absurd hnone hb
  · have hlast : s.goOpaque.phase = .opaqueTraffic := rfl
    refine ⟨?_, ?_⟩
    · rw [turn_feed (by rw [h]; simp [hb]), h, Turn.map, bytes_feed_closed hlast]
    · rw [bytes_feed_closed hlast]
      exact turn_closed hlast

/-! ## Pushes -/

/-- The decoder takes the bytes: they fit the buffer, or are dropped unread. -/
def Takes (s : PostgresDecoder) (d : Direction) (x : Bytes) : Prop :=
  s.phase = .opaqueTraffic ∨ (s.buffer d).length + x.length ≤ maxFrameBytes + 5

instance (s : PostgresDecoder) (d : Direction) (x : Bytes) : Decidable (s.Takes d x) :=
  inferInstanceAs (Decidable (_ ∨ _))

/-- A push of bytes that the decoder takes is the loop on them. -/
theorem push_eq (h : s.Takes d x) :
    s.push d x = Stream.push (turn d) (bytes d) (measure d) s x := by
  rw [push, process]
  by_cases hs : s.phase = .opaqueTraffic
  · rw [if_pos hs, Stream.push, bytes_feed_closed hs, Stream.drive_succ, turn_closed hs]
    rfl
  · have hfit := h.resolve_left hs
    rw [if_neg hs, Stream.push, bytes_feed hs]
    simp only [feed, buffer_setBuffer_self, length_append]
    exact if_neg (Nat.not_lt_of_le hfit)

/-- A push of bytes that it does not take ends the decoding. -/
theorem push_of_not_takes (h : ¬ s.Takes d x) :
    s.push d x = (s.goOpaque, ⟨[], some "PostgreSQL buffered data exceeds 16777221 bytes"⟩) := by
  rw [Takes, not_or, Nat.not_le] at h
  rw [push, process, if_neg h.1]
  simp only [feed, buffer_setBuffer_self, length_append, goOpaque_setBuffer]
  exact if_pos h.2

/-- A push leaves no more in the buffer than it found and brought. -/
theorem length_buffer_push_le (s : PostgresDecoder) (d : Direction) (x : Bytes) :
    ((s.push d x).1.buffer d).length ≤ (s.buffer d).length + x.length := by
  by_cases h : s.Takes d x
  · rw [push_eq h]
    refine Stream.drive_keeps (P := fun t => measure d t ≤ (s.buffer d).length + x.length)
      ?_ ?_ _ _ ?_
    · intro t u b hturn ht
      exact Nat.le_of_lt (Nat.lt_of_lt_of_le (turn_decreases d _ _ _ hturn) ht)
    · intro t u b hturn ht
      obtain ⟨rfl, -⟩ | ⟨rfl, -⟩ := turn_stop hturn
      · exact ht
      · cases d <;> exact Nat.zero_le _
    · by_cases hs : s.phase = .opaqueTraffic
      · rw [bytes_feed_closed hs]
        exact Nat.le_add_right ..
      · rw [bytes_feed hs, measure, buffer_setBuffer_self, length_append]
  · rw [push_of_not_takes h]
    cases d <;> exact Nat.zero_le _

/-- A loop that reports leaves nothing to be read. -/
theorem phase_of_halts {b : DecodeBatch} (h : Stream.Halts (turn d) s t b)
    (hb : b.desynchronized = some reason) : t.phase = .opaqueTraffic := by
  induction h with
  | stop hs =>
    obtain ⟨-, rfl⟩ | ⟨rfl, -⟩ := turn_stop hs
    · cases hb
    · rfl
  | @again s u t b c hs _ ih =>
    have hturn := turns_turn d s
    rw [hs] at hturn
    apply ih
    cases hturn with
    | message => exact (Option.or_none).symm.trans hb
    | phase => exact (Option.or_none).symm.trans hb

/-- A push that reports leaves nothing to be read. -/
theorem phase_of_report (h : (s.push d x).2.desynchronized = some reason) :
    (s.push d x).1.phase = .opaqueTraffic := by
  by_cases htakes : s.Takes d x
  · rw [push_eq htakes] at h ⊢
    exact phase_of_halts (Stream.drive_halts (turn_decreases d) _ _ (Nat.lt_succ_self _)) h
  · rw [push_of_not_takes htakes]
    rfl

theorem push_closed (h : s.phase = .opaqueTraffic) (x : Bytes) :
    s.push d x = (s, .needMore) := if_pos h

/-- Two pushes that the decoder takes are one. -/
theorem push_append {a : Bytes}
    (h : (s.buffer d).length + a.length + b.length ≤ maxFrameBytes + 5) :
    s.push d (a ++ b) = (((s.push d a).1.push d b).1,
      (s.push d a).2.seq ((s.push d a).1.push d b).2) := by
  have hleft := length_buffer_push_le s d a
  have hboth : s.Takes d (a ++ b) := .inr (by rw [length_append]; omega)
  have hfirst : s.Takes d a := .inr (by omega)
  have hsecond : (s.push d a).1.Takes d b := .inr (by omega)
  rw [push_eq hsecond, push_eq hboth, Stream.push, ← (bytes d).feed_append, push_eq hfirst]
  exact (Stream.drive_halts (turn_decreases d) _ _ (Nat.lt_succ_self _)).drive_feed
    (turn_decreases d) (turn_local d).resumes (turn_closes d) b _ _ (Nat.lt_succ_self _)
    (Nat.lt_succ_self _)

/-- A fragment may be cut in two anywhere: the messages, the report and the state after
both parts are those of the whole. -/
theorem push_fragments {a b : Bytes}
    (h : (s.buffer d).length + a.length + b.length ≤ maxFrameBytes + 5) :
    ((s.push d a).1.push d b).1 = (s.push d (a ++ b)).1 ∧
      (s.push d a).2.messages ++ ((s.push d a).1.push d b).2.messages =
        (s.push d (a ++ b)).2.messages ∧
      (∀ reason, (s.push d (a ++ b)).2.desynchronized = some reason ↔
        (s.push d a).2.desynchronized = some reason ∨
          ((s.push d a).1.push d b).2.desynchronized = some reason) ∧
      ((s.push d a).2.desynchronized = none ∨
        ((s.push d a).1.push d b).2.desynchronized = none) := by
  rw [push_append h]
  refine ⟨rfl, rfl, ?_⟩
  cases hfirst : (s.push d a).2.desynchronized with
  | none =>
    refine ⟨?_, .inl rfl⟩
    intro reason
    simp [Stream.Batch.seq, hfirst]
  | some reason =>
    -- The report has ended the decoding, so the second part is dropped.
    have hsecond := push_closed (d := d) (phase_of_report hfirst) b
    refine ⟨?_, .inr (by rw [hsecond]; rfl)⟩
    intro reason'
    simp [hsecond, Stream.Batch.seq, Stream.Batch.needMore, hfirst]

/-- A request for encryption. -/
def sslRequest : Bytes := be32 8 ++ be32 sslRequestCode

/-- The request cut after its length, with bytes of the server waiting for it. -/
theorem sslRequest_fragments :
    (feed .serverToClient (new 64) [0x4E]).buffer .clientToServer = [] ∧
      (((feed .serverToClient (new 64) [0x4E]).push .clientToServer (sslRequest.take 4)).1.push
          .clientToServer (sslRequest.drop 4)).1 = ⟨64, [], [0x4E], .awaitingEncryptionResponse⟩ :=
  ⟨rfl, (push_fragments (by decide)).1.trans (by decide)⟩

end PostgresDecoder

end Lens.Postgres
