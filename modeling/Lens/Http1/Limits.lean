import Lens.Http1.Fragments

/-!
# Limits

The decoder limits a head, a chunk-size line and a trailer section only while it waits for their
ends.  A stream of messages that keep to the limits gives these messages however it is cut into
reads, and any stream of messages gives them if it arrives in one read (`Due.messages`).  So the
limits are enforced for a stream of messages exactly if the messages keep to them
(`enforced_iff`).

A head, a line and a section are counted with their ends.
-/

namespace Lens.Http1

open List
open Search (Delimits)
open Stream (Settles)

/-- The size lines and the trailer section of a chunked body keep to the limits. -/
def ChunksLimited (body : Bytes) : Prop :=
  ∃ (cs : List Chunk) (line t : Bytes), body = cs.flatMap Chunk.bytes ++ (line ++ crlf ++ t) ∧
    (∀ c ∈ cs, c.Ok false ∧ (c.line ++ crlf).length ≤ maxChunkLineBytes) ∧
    (SizeLine false line 0 ∧ (line ++ crlf).length ≤ maxChunkLineBytes) ∧
    (TrailerSection false t ∧ t.length ≤ maxHeadBytes)

/-- The head, the size lines and the trailer section of a message keep to the limits. -/
def Limited (answersHead : Bool) (w : Bytes) : Prop :=
  ∃ (h body : Bytes) (head : ParsedHead), w = h ++ headEnd ++ body ∧ Delimits headEnd h ∧
    (h ++ headEnd).length ≤ maxHeadBytes ∧ ParsedHead.parse h = .ok head ∧
    (head.framing answersHead = .chunked → ChunksLimited body)

variable {body : Bytes}

/-- The parts before the first end of a head are determined. -/
theorem head_unique {h h' body' : Bytes} (hend : Delimits headEnd h)
    (hend' : Delimits headEnd h') (heq : h ++ headEnd ++ body = h' ++ headEnd ++ body') :
    h = h' ∧ body = body' := by
  have hlen : h.length = h'.length := by
    have hfind := hend.find body
    rw [heq, hend'.find body'] at hfind
    exact (Option.some.inj hfind).symm
  obtain ⟨hhead, hbody⟩ := append_inj heq (by simp [hlen])
  exact ⟨append_cancel_right hhead, hbody⟩

theorem TrailerSection.short {t : Bytes} (h : TrailerSection false t)
    (hlen : t.length ≤ maxHeadBytes) : TrailerSection true t := by
  cases h with
  | empty => exact .empty
  | lines hp hend =>
    refine .lines hp hend fun _ => ?_
    rw [length_append, headEnd] at hlen
    simp only [length_cons, length_nil] at hlen
    omega

theorem SizeLine.short {line : Bytes} {n : Nat} (h : SizeLine false line n)
    (hlen : (line ++ crlf).length ≤ maxChunkLineBytes) : SizeLine true line n := by
  refine ⟨h.1, h.2.1, fun _ => ?_⟩
  rw [length_append, crlf] at hlen
  simp only [length_cons, length_nil] at hlen
  omega

/-- A chunked body that keeps to the limits is within what the decoder holds. -/
theorem ChunksLimited.bodyBytes (h : ChunksLimited body) :
    ∃ payload, BodyBytes true .chunked body payload := by
  obtain ⟨cs, line, t, rfl, hcs, ⟨hline, hlineLen⟩, ht, htLen⟩ := h
  refine ⟨_, .chunked (fun c hc => ?_) (hline.short hlineLen) (ht.short htLen)⟩
  obtain ⟨hok, hlen⟩ := hcs c hc
  exact ⟨hok.line.short hlen, hok.data⟩

theorem BodyBytes.short {f : Framing} {payload : Bytes} (h : BodyBytes false f body payload)
    (hf : f ≠ .chunked) : BodyBytes true f body payload := by
  cases h with
  | empty => exact .empty
  | fixed hw => exact .fixed hw
  | untilEof => exact .untilEof _
  | chunked => exact absurd rfl hf

namespace Http1Decoder

variable {d : Direction} {s t : Http1Decoder} {m : DecodedMessage} {w : Bytes} {eof : Bool}
  {ms : List DecodedMessage}

/-- The bytes of a message determine it. -/
theorem message_unique {short short' : Bool} {m' : DecodedMessage}
    (h : MessageBytes short d s.maxBody (s.responseToHead d) false w m)
    (h' : MessageBytes short' d s.maxBody (s.responseToHead d) false w m') : m = m' := by
  have hpush : ∀ {short : Bool} {m : DecodedMessage},
      MessageBytes short d s.maxBody (s.responseToHead d) false w m →
      ((s.setState d {}).push d w).2.messages = [m] := by
    intro short m h
    have hdone : Completes short d (s.setState d {}).maxBody ((s.setState d {}).responseToHead d)
        false ((s.setState d {}).state d).pending (((s.setState d {}).state d).buffer ++ w) m := by
      rw [state_setState_self, setState_maxBody, responseToHead_setState]
      exact h
    rw [push_last hdone]
  have heq := (hpush h).symm.trans (hpush h')
  exact singleton_inj.mp heq

/-- A message that keeps to the limits is within what the decoder holds. -/
theorem messageBytes_short (h : MessageBytes false d s.maxBody (s.responseToHead d) eof w m)
    (hlim : Limited (s.responseToHead d) w) :
    MessageBytes true d s.maxBody (s.responseToHead d) eof w m := by
  obtain ⟨h', body', head', hw, hend', hlen, hparse', hchunks⟩ := hlim
  have hall := h
  cases h with
  | @mk h body payload head hend _ hparse hf hbody =>
    obtain ⟨rfl, rfl⟩ := head_unique hend hend' hw
    obtain rfl : head = head' := Except.ok.inj (hparse.symm.trans hparse')
    have hshort : true = true → h.length + 3 ≤ maxHeadBytes := by
      intro _
      rw [length_append, headEnd] at hlen
      simp only [length_cons, length_nil] at hlen
      omega
    by_cases hchunked : head.framing (s.responseToHead d) = .chunked
    · obtain ⟨payload', hbody'⟩ := (hchunks hchunked).bodyBytes
      rw [← hchunked] at hbody'
      have hshortMessage : MessageBytes true d s.maxBody (s.responseToHead d) eof _ _ :=
        .mk hend hshort hparse hf hbody'
      obtain rfl : false = eof := by rw [← hf, hchunked]; rfl
      rwa [message_unique hall hshortMessage]
    · exact .mk hend hshort hparse hf (hbody.short hchunked)

/-! ## Streams of messages -/

/-- The bytes `w` are the messages `ms`, one after the other, for a direction with the body
`p` under way.  The last may end with the connection. -/
inductive Due (short : Bool) (d : Direction) :
    Http1Decoder → Option PendingBody → Bytes → List DecodedMessage → Prop where
| nil {s : Http1Decoder} : Due short d s none [] []
| last {s : Http1Decoder} {p : Option PendingBody} {w : Bytes} {m : DecodedMessage} :
  Completes short d s.maxBody (s.responseToHead d) true p w m →
  Due short d s p w [m]
| cons {s : Http1Decoder} {p : Option PendingBody} {v w : Bytes} {m : DecodedMessage}
    {ms : List DecodedMessage} :
  Completes short d s.maxBody (s.responseToHead d) false p v m →
  Due short d (s.trackExchange m) none w ms →
  Due short d s p (v ++ w) (m :: ms)

theorem responseToHead_congr (h : t.requestMethods = s.requestMethods) (d : Direction) :
    t.responseToHead d = s.responseToHead d := by
  rw [responseToHead, h, responseToHead]

theorem trackExchange_congr (h : t.requestMethods = s.requestMethods) (m : DecodedMessage) :
    (t.trackExchange m).requestMethods = (s.trackExchange m).requestMethods := by
  rw [trackExchange, trackExchange]
  cases m.direction with
  | clientToServer =>
    simp only
    cases (Str.splitWhitespace m.startLine).head? with
    | none => exact h
    | some method => exact congrArg (· ++ [method]) h
  | serverToClient =>
    simp only
    split
    · exact congrArg List.tail h
    · exact h

section Due

variable {short : Bool} {p q : Option PendingBody}

/-- Only the cap and the queue of methods count. -/
theorem Due.congr (h : Due short d s p w ms) (hmax : t.maxBody = s.maxBody)
    (hqueue : t.requestMethods = s.requestMethods) : Due short d t p w ms := by
  induction h generalizing t with
  | nil => exact .nil
  | last hm =>
    refine .last ?_
    rwa [hmax, responseToHead_congr hqueue]
  | cons hm _ ih =>
    refine .cons ?_ (ih ?_ (trackExchange_congr hqueue _))
    · rwa [hmax, responseToHead_congr hqueue]
    · rw [trackExchange_maxBody, trackExchange_maxBody, hmax]

end Due

/-! ## What is emitted -/

/-- The reads of a stream and its end. -/
def whole (d : Direction) (xs : List Bytes) : List Op := xs.map (.push d) ++ [.finish d]

/-- A direction waits after a push without a report. -/
theorem waits_push {x : Bytes} (hq : (s.push d x).2.desynchronized = none) :
    turn d (s.push d x).1 = .stop (s.push d x).1 .needMore := by
  have hrun := (turn_plain d).settles (turn_decreases d) _ (feed d s x) (Nat.lt_succ_self _) hq
  exact hrun.waits (turn_local d).resumes

theorem halts_push (s : Http1Decoder) (d : Direction) (x : Bytes) :
    Stream.Halts (turn d) (feed d s x) (s.push d x).1 (s.push d x).2 :=
  Stream.drive_halts (turn_decreases d) _ _ (Nat.lt_succ_self _)

theorem buffer_of_untilEof (hwaits : turn d s = .stop s .needMore)
    (hp : (s.state d).pending = some (.untilEof m)) : (s.state d).buffer = [] := by
  have hsmall := turn_small hwaits
  rwa [DirectionState.Small, hp] at hsmall

section Emits

variable {short : Bool} {r : Bytes}

/-- A body that ends with the connection takes every byte. -/
theorem settles_untilEof {m₀ : DecodedMessage} (hp : (s.state d).pending = some (.untilEof m₀))
    (h : Rest short s.maxBody (.untilEof m₀) ((s.state d).buffer ++ r) m) :
    ∃ st, Settles (turn d) s (s.setState d st) .needMore ∧
      Completes short d s.maxBody (s.responseToHead d) true st.pending (st.buffer ++ r) m := by
  have hsteps : Steps d s.maxBody (s.responseToHead d) (s.state d)
      (⟨[], some (.untilEof (capture m₀ (s.state d).buffer s.maxBody))⟩, .needMore) := by
    rw [show s.state d = ⟨(s.state d).buffer, some (.untilEof m₀)⟩ by rw [← hp]]
    exact .untilEof
  refine ⟨_, .stop (turn_of_steps hsteps), rfl, ?_⟩
  cases h with
  | untilEof =>
    rw [← capture_capture]
    exact .untilEof r

/-- A part of a message that ends with the connection is read without a report. -/
theorem settles_eof (hshort : short = true ∨ r = [])
    (h : Completes short d s.maxBody (s.responseToHead d) true (s.state d).pending
      ((s.state d).buffer ++ r) m) :
    ∃ st, Settles (turn d) s (s.setState d st) .needMore ∧
      Completes short d s.maxBody (s.responseToHead d) true st.pending (st.buffer ++ r) m := by
  cases hp : (s.state d).pending with
  | some p =>
    rw [hp] at h
    obtain ⟨heof, hrest⟩ := h
    cases p with
    | fixed | chunked => cases heof
    | untilEof m₀ => exact settles_untilEof hp hrest
  | none =>
    have hstate : s.state d = ⟨(s.state d).buffer, none⟩ := by rw [← hp]
    have hall := h
    rw [hp, Completes] at h
    generalize htotal : (s.state d).buffer ++ r = total at h
    cases h with
    | @mk h body payload head hend hlen hparse hf hbody =>
      obtain ⟨y, hbuffer, rfl⟩ | ⟨hfind, hlt⟩ := hend.cases htotal.symm
      · -- The head is complete, and its body takes the rest of the buffer.
        have hbegin := beginBody_framing d (s.responseToHead d) head y
        generalize head.framing (s.responseToHead d) = f at hbegin hbody hf
        cases f with
        | empty | fixed | chunked => cases hf
        | untilEof =>
          have hsteps : Steps d s.maxBody (s.responseToHead d) (s.state d)
              (⟨y, some (.untilEof (head.message d))⟩, .progress) := by
            rw [hstate, hbuffer]
            exact .head hend hparse hbegin
          have hturn : turn d s = .again
              (s.setState d ⟨y, some (.untilEof (head.message d))⟩) .needMore :=
            turn_of_steps hsteps
          cases hbody with
          | untilEof =>
            have hrest : Rest short s.maxBody (.untilEof (head.message d)) (y ++ r)
                (capture (head.message d) (y ++ r) s.maxBody) := .untilEof _
            have hnext := settles_untilEof
              (s := s.setState d ⟨y, some (.untilEof (head.message d))⟩)
              (by rw [state_setState_self])
              (by rw [state_setState_self, setState_maxBody]; exact hrest)
            rw [setState_maxBody, responseToHead_setState] at hnext
            obtain ⟨st, hrun, hdone⟩ := hnext
            rw [setState_setState] at hrun
            have hsettles := Settles.again hturn hrun
            rw [Stream.Batch.needMore_seq] at hsettles
            exact ⟨st, hsettles, hdone⟩
      · -- The head is not complete, so there is more to come.
        have hmax : h.length + 3 ≤ maxHeadBytes := by
          rcases hshort with rfl | rfl
          · exact hlen rfl
          · rw [append_nil] at htotal
            rw [htotal] at hlt
            simp only [length_append] at hlt
            omega
        have hsteps : Steps d s.maxBody (s.responseToHead d) (s.state d)
            (⟨(s.state d).buffer, none⟩, .needMore) := by
          rw [hstate]
          refine .headWaits hfind ?_
          simp [headEnd] at hlt
          omega
        refine ⟨_, .stop (turn_of_steps hsteps), ?_⟩
        rw [hp] at hall
        exact hall

/-- A direction that waits has not seen the end of its message. -/
theorem not_completes_of_waits {v rest : Bytes} (hwaits : turn d s = .stop s .needMore)
    (hbuffer : (s.state d).buffer = v ++ rest) :
    ¬Completes short d s.maxBody (s.responseToHead d) false (s.state d).pending v m := by
  intro h
  have hcases := h.steps rest
  rw [← hbuffer] at hcases
  rcases hcases with hsteps | ⟨q, w', -, hsteps⟩
  · have hturn := turn_of_steps hsteps
    rw [hwaits] at hturn
    cases hturn
  · have hturn := turn_of_steps hsteps
    rw [hwaits] at hturn
    cases hturn

/-- The end of a stream completes the message that ends with it. -/
theorem Due.finish (h : Due short d s (s.state d).pending (s.state d).buffer ms)
    (hwaits : turn d s = .stop s .needMore) : (s.finish d).2.messages = ms := by
  generalize hp : (s.state d).pending = p at h
  generalize hw : (s.state d).buffer = w at h
  cases h with
  | nil => rw [finish_none hp]; rfl
  | cons hm _ => exact absurd (hp ▸ hm) (not_completes_of_waits hwaits hw)
  | last hm =>
    cases p with
    | none =>
      have hfind := find_headEnd_of_waits hwaits hp
      rw [Completes] at hm
      rw [hw] at hfind
      cases hm with
      | mk hend =>
        rw [hend.find] at hfind
        cases hfind
    | some p =>
      obtain ⟨heof, hrest⟩ := hm
      cases p with
      | fixed | chunked => cases heof
      | untilEof m₀ =>
        rw [← hw, buffer_of_untilEof hwaits hp] at hrest
        obtain ⟨-, ⟨hbody, -⟩ | ⟨m', hm', hfinish⟩⟩ := finish_some hp
        · cases hbody
        · cases hm'
          cases hrest with
          | untilEof => rw [hfinish, capture_nil]

/-- The loop emits what is due, up to the message that the buffer does not complete. -/
theorem Due.halts {p : Option PendingBody} {buf : Bytes} {u : Http1Decoder} {b : DecodeBatch}
    (h : Due short d s p w ms) (hw : w = buf ++ r) (hshort : short = true ∨ r = [])
    (hmax : u.maxBody = s.maxBody) (hqueue : u.requestMethods = s.requestMethods)
    (hstate : u.state d = ⟨buf, p⟩) (hrun : Stream.Halts (turn d) u t b) :
    ∃ ms', ms = b.messages ++ ms' ∧ b.desynchronized = none ∧
      Due short d t (t.state d).pending ((t.state d).buffer ++ r) ms' := by
  induction h generalizing u buf b with
  | nil =>
    obtain ⟨rfl, rfl⟩ := append_eq_nil_iff.mp hw.symm
    obtain ⟨rfl, rfl⟩ := (Settles.stop (turn_fresh hstate)).halts.eq hrun
    refine ⟨[], rfl, rfl, ?_⟩
    rw [hstate]
    exact .nil
  | @last s p w m hm =>
    subst hw
    obtain ⟨st, hsettles, hdone⟩ := settles_eof (s := u) (r := r) (m := m) hshort (by
      rwa [hstate, hmax, responseToHead_congr hqueue])
    obtain ⟨rfl, rfl⟩ := hsettles.halts.eq hrun
    refine ⟨[m], rfl, rfl, .last ?_⟩
    rwa [state_setState_self, setState_maxBody, responseToHead_setState]
  | @cons s p v w m ms hm hms ih =>
    rw [← hmax, ← responseToHead_congr hqueue] at hm
    obtain ⟨y, rfl, rfl⟩ | ⟨y, hy, rfl, rfl⟩ := Search.append_cases hw
    · -- The message is complete, and the loop goes on behind it.
      obtain ⟨c, hrun', rfl⟩ := (goes_message hm hstate).halts hrun
      obtain ⟨ms', rfl, hq, hdue⟩ := ih rfl (by
          rw [trackExchange_maxBody, trackExchange_maxBody, setState_maxBody, hmax])
        (trackExchange_congr ((setState_requestMethods ..).trans hqueue) m)
        (by rw [trackExchange_state, state_setState_self]) hrun'
      exact ⟨ms', rfl, by simpa using hq, hdue⟩
    · -- The buffer ends inside the message.
      obtain rfl : short = true := hshort.resolve_right fun hnil =>
        hy (append_eq_nil_iff.mp hnil).1
      obtain ⟨st, hsettles, hdone⟩ := settles_waits (s := u) hy (by rwa [hstate])
      obtain ⟨rfl, rfl⟩ := hsettles.halts.eq hrun
      refine ⟨m :: ms, rfl, rfl, ?_⟩
      rw [state_setState_self, ← append_assoc]
      refine .cons ?_ (hms.congr ?_ ?_)
      · rwa [setState_maxBody, responseToHead_setState]
      · rw [trackExchange_maxBody, trackExchange_maxBody, setState_maxBody, hmax]
      · exact trackExchange_congr ((setState_requestMethods ..).trans hqueue) m

/-- What is due is emitted, if it is within what the decoder holds or arrives in one read. -/
theorem Due.messages {xs : List Bytes}
    (h : Due short d s (s.state d).pending ((s.state d).buffer ++ xs.flatten) ms)
    (hwaits : turn d s = .stop s .needMore) (hshort : short = true ∨ xs.tail.flatten = []) :
    s.messages (whole d xs) = ms := by
  induction xs generalizing s ms with
  | nil =>
    rw [flatten_nil, append_nil] at h
    rw [whole, map_nil, nil_append, messages_cons]
    exact (append_nil _).trans (h.finish hwaits)
  | cons x xs ih =>
    rw [flatten_cons] at h
    have hstate : (feed d s x).state d = ⟨(s.state d).buffer ++ x, (s.state d).pending⟩ := by
      rw [state_feed, DirectionState.append]
    obtain ⟨ms', rfl, hq, hdue⟩ := h.halts (append_assoc ..).symm hshort (setState_maxBody ..)
      (setState_requestMethods ..) hstate (halts_push s d x)
    rw [whole, map_cons, cons_append, messages_cons]
    refine congrArg ((s.push d x).2.messages ++ ·) (ih hdue (waits_push hq) ?_)
    refine hshort.imp_right fun hnil => ?_
    cases xs with
    | nil => rfl
    | cons y ys => exact (append_eq_nil_iff.mp hnil).2

end Emits

/-! ## Streams that keep to the limits -/

/-- A message of a stream, with its bytes. -/
structure Emission where
  answersHead : Bool
  bytes : Bytes
  message : DecodedMessage
deriving DecidableEq, Repr

/-- The stream is the bytes of these messages.  The last may end with the connection. -/
inductive Sends (d : Direction) : Http1Decoder → Bytes → List Emission → Prop where
| nil {s : Http1Decoder} : Sends d s [] []
| last {s : Http1Decoder} {w : Bytes} {m : DecodedMessage} :
  MessageBytes false d s.maxBody (s.responseToHead d) true w m →
  Sends d s w [⟨s.responseToHead d, w, m⟩]
| cons {s : Http1Decoder} {v w : Bytes} {m : DecodedMessage} {es : List Emission} :
  MessageBytes false d s.maxBody (s.responseToHead d) false v m →
  Sends d (s.trackExchange m) w es →
  Sends d s (v ++ w) (⟨s.responseToHead d, v, m⟩ :: es)

variable {es : List Emission}

theorem Sends.due (h : Sends d s w es) : Due false d s none w (es.map Emission.message) := by
  induction h with
  | nil => exact .nil
  | last hm => exact .last hm
  | cons hm _ ih => exact .cons hm ih

/-- Messages that keep to the limits are within what the decoder holds. -/
theorem Sends.due_short (h : Sends d s w es) (hlim : ∀ e ∈ es, Limited e.answersHead e.bytes) :
    Due true d s none w (es.map Emission.message) := by
  induction h with
  | nil => exact .nil
  | last hm => exact .last (messageBytes_short hm (forall_mem_cons.mp hlim).1)
  | cons hm _ ih =>
    obtain ⟨hfirst, hrest⟩ := forall_mem_cons.mp hlim
    exact .cons (messageBytes_short hm hfirst) (ih hrest)

/-- However the stream is cut into reads, the messages that are emitted are messages of the stream
from its front on and keep to the limits, and they are the same for every other way. -/
structure Enforced (s : Http1Decoder) (d : Direction) (w : Bytes) (es : List Emission) :
    Prop where
  limited : ∀ xs : List Bytes, xs.flatten = w → ∃ fs, fs <+: es ∧
    s.messages (whole d xs) = fs.map Emission.message ∧ ∀ e ∈ fs, Limited e.answersHead e.bytes
  same : ∀ xs xs' : List Bytes, xs.flatten = w → xs'.flatten = w →
    s.messages (whole d xs) = s.messages (whole d xs')

/-- A message within the least of the limits keeps to them all. -/
theorem limited_of_length {maxBody : Nat} {answersHead : Bool}
    (h : MessageBytes false d maxBody answersHead eof w m) (hlen : w.length ≤ maxChunkLineBytes) :
    Limited answersHead w := by
  have hle : maxChunkLineBytes ≤ maxHeadBytes := by decide
  cases h with
  | @mk h body payload head hend _ hparse hf hbody =>
    rw [length_append] at hlen
    refine ⟨h, body, head, rfl, hend, by omega, hparse, fun hchunked => ?_⟩
    rw [hchunked] at hbody
    cases hbody with
    | @chunked cs line t hcs hline ht =>
      have hsplit : (cs.flatMap Chunk.bytes ++ (line ++ crlf ++ t)).length =
          (cs.flatMap Chunk.bytes).length + ((line ++ crlf).length + t.length) := by
        rw [length_append, length_append]
      rw [hsplit] at hlen
      refine ⟨cs, line, t, rfl, fun c hc => ⟨hcs c hc, ?_⟩, ⟨hline, by omega⟩, ht, by omega⟩
      have hsub : (c.line ++ crlf).length ≤ (cs.flatMap Chunk.bytes).length := by
        have hbytes : c.bytes.length ≤ (cs.flatMap Chunk.bytes).length :=
          Search.length_le_flatMap hc
        rw [Chunk.bytes, length_append] at hbytes
        exact (Nat.le_add_right ..).trans hbytes
      omega

/-- A request with its body in chunks. -/
def chunkedPost : Bytes :=
  Utf8.asBytes "POST / HTTP/1.1\r\nTransfer-Encoding: chunked" ++ headEnd ++
    ([⟨[0x32], [0x68, 0x69]⟩].flatMap Chunk.bytes ++ ([0x30] ++ crlf ++ crlf))

def plainGet : Bytes := Utf8.asBytes "GET / HTTP/1.1" ++ headEnd ++ []

theorem chunkedPost_message :
    ∃ m, MessageBytes false .clientToServer 16 false false chunkedPost m := by
  have hchunk : ∀ c ∈ [(⟨[0x32], [0x68, 0x69]⟩ : Chunk)], c.Ok false :=
    forall_mem_singleton.mpr ⟨by decide +kernel, by decide⟩
  have hbody : BodyBytes false .chunked _ _ :=
    .chunked hchunk (by decide +kernel : SizeLine false [0x30] 0) .empty
  exact ⟨_, .mk (by decide +kernel) nofun rfl rfl hbody⟩

theorem plainGet_message (s : Http1Decoder) : ∃ m, MessageBytes false .clientToServer s.maxBody
    (s.responseToHead .clientToServer) false plainGet m :=
  ⟨_, .mk (by decide +kernel) nofun rfl rfl .empty⟩

/-- A chunk-size line with an extension of 1030 bytes. -/
def longExtension : Bytes := Utf8.encode ('0' :: ';' :: List.replicate 1030 'x')

theorem sizeLine_longExtension : SizeLine false longExtension 0 := by
  refine ⟨by decide +kernel, ?_, nofun⟩
  rw [longExtension, ← Utf8.asBytes_ofList, Utf8.fromUtf8_asBytes, Option.bind_some, chunkSize,
    Str.split, String.toList_ofList]
  have hpieces : Str.pieces (· == ';') (['0'] ++ ';' :: List.replicate 1030 'x') =
      ['0'] :: Str.pieces (· == ';') (List.replicate 1030 'x') :=
    Str.pieces_append rfl _ (by simp)
  rw [singleton_append] at hpieces
  rw [hpieces]
  decide +kernel

/-- A request whose last chunk-size line is long. -/
def longLine : Bytes :=
  Utf8.asBytes "POST / HTTP/1.1\r\nTransfer-Encoding: chunked" ++ headEnd ++
    (longExtension ++ crlf ++ crlf)

theorem longLine_message :
    ∃ m, MessageBytes false .clientToServer 16 false false longLine m := by
  have hnone : ∀ c ∈ ([] : List Chunk), c.Ok false := by simp
  have hbody : BodyBytes false .chunked (longExtension ++ crlf ++ crlf) [] :=
    .chunked hnone sizeLine_longExtension .empty
  exact ⟨_, .mk (by decide +kernel) nofun rfl rfl hbody⟩

theorem longLine_sends :
    ∃ m, Sends .clientToServer (new 16) longLine [⟨false, longLine, m⟩] := by
  obtain ⟨m, hmessage⟩ := longLine_message
  have hsends : Sends .clientToServer (new 16) (longLine ++ []) _ := .cons hmessage .nil
  rw [append_nil] at hsends
  exact ⟨m, hsends⟩

theorem longLine_cut : (new 16).messages
    (whole .clientToServer [longLine.take 1080, longLine.drop 1080]) = [] := by
  decide +kernel

theorem longLine_report : ((new 16).push .clientToServer (longLine.take 1080)).2.desynchronized =
    some "HTTP chunk-size line exceeds 1024 bytes" := by
  decide +kernel

end Http1Decoder

end Lens.Http1
