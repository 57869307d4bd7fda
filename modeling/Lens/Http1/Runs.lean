import Lens.Http1.Messages

/-!
# Runs and the end of a stream

A run is a sequence of pushes and ends of streams, in any order of the two directions.

The second part is the account of every byte of one direction.  Bytes that were pushed
without a report are those of the messages emitted, those taken for the message under way,
and those still in the buffer (`Account`).  `finish` completes a body that ends with the
connection and reports every other body under way, but it leaves the buffer of a direction
without one as it is.  So nothing is lost in silence unless the stream ends inside a head
(`losesNothing_iff`).
-/

namespace Lens.Http1

open List
open Stream (Settles Halts)

namespace Http1Decoder

/-! ## Runs -/

inductive Op where
  | push (d : Direction) (bytes : Bytes)
  | finish (d : Direction)
deriving DecidableEq, Repr

def op (s : Http1Decoder) : Op → Http1Decoder × DecodeBatch
  | .push d bytes => s.push d bytes
  | .finish d => s.finish d

/-- The batches of a run, and the last state. -/
def run (s : Http1Decoder) : List Op → Http1Decoder × List DecodeBatch
  | [] => (s, [])
  | o :: os => (((s.op o).1.run os).1, (s.op o).2 :: ((s.op o).1.run os).2)

/-- The messages of a run, oldest first. -/
def messages (s : Http1Decoder) (os : List Op) : List DecodedMessage :=
  (s.run os).2.flatMap Stream.Batch.messages

theorem run_append (s : Http1Decoder) (os os' : List Op) :
    s.run (os ++ os') = (((s.run os).1.run os').1, (s.run os).2 ++ ((s.run os).1.run os').2) := by
  induction os generalizing s with
  | nil => rfl
  | cons o os ih =>
    rw [cons_append, run, run, ih]
    rfl

theorem messages_cons (s : Http1Decoder) (o : Op) (os : List Op) :
    s.messages (o :: os) = (s.op o).2.messages ++ (s.op o).1.messages os := by
  rw [messages, run, flatMap_cons, messages]

theorem messages_append (s : Http1Decoder) (os os' : List Op) :
    s.messages (os ++ os') = s.messages os ++ (s.run os).1.messages os' := by
  rw [messages, run_append, flatMap_append, messages, messages]

/-- Pushes of one direction. -/
theorem run_pushes (s : Http1Decoder) (d : Direction) (xs : List Bytes) :
    s.run (xs.map (.push d)) =
      Stream.pushAll (turn d) (bytes d) (fun s => (s.state d).measure) s xs := by
  induction xs generalizing s with
  | nil => rfl
  | cons x xs ih =>
    rw [map_cons, run, ih]
    rfl

theorem turn_new (d : Direction) (maxBody : Nat) :
    turn d (new maxBody) = .stop (new maxBody) .needMore := by
  cases d <;> rfl

/-- Pushes of one direction without a report settle on all of their bytes. -/
theorem settles_run {d : Direction} {maxBody : Nat} {xs : List Bytes}
    (hq : ∀ b ∈ ((new maxBody).run (xs.map (.push d))).2, b.desynchronized = none) :
    Settles (turn d) (feed d (new maxBody) xs.flatten) ((new maxBody).run (xs.map (.push d))).1
      ⟨(new maxBody).messages (xs.map (.push d)), none⟩ := by
  rw [messages]
  rw [run_pushes] at hq ⊢
  exact (turn_plain d).settles_pushAll (turn_decreases d) (turn_local d).resumes xs _ _ .needMore
    (.stop (turn_new d maxBody)) rfl hq

/-! ## One direction on its own -/

/-- Nothing has arrived in the other direction. -/
structure Lone (d : Direction) (maxBody : Nat) (s : Http1Decoder) : Prop where
  cap : s.maxBody = maxBody
  methods : d = .serverToClient → s.requestMethods = []

variable {d : Direction} {maxBody : Nat} {s t : Http1Decoder} {b : DecodeBatch}

theorem Lone.responseToHead (h : s.Lone d maxBody) : s.responseToHead d = false := by
  cases d with
  | clientToServer => rfl
  | serverToClient =>
    rw [Http1Decoder.responseToHead, h.methods rfl]
    rfl

theorem Lone.setState (h : s.Lone d maxBody) (st : DirectionState) :
    (s.setState d st).Lone d maxBody :=
  ⟨by rw [setState_maxBody, h.cap], fun hd => by rw [setState_requestMethods, h.methods hd]⟩

theorem Lone.trackExchange (h : s.Lone d maxBody) {m : DecodedMessage} (hm : m.direction = d) :
    (s.trackExchange m).Lone d maxBody := by
  refine ⟨by rw [trackExchange_maxBody, h.cap], ?_⟩
  rintro rfl
  rw [Http1Decoder.trackExchange, hm]
  simp only
  split
  · rw [h.methods rfl]
    rfl
  · exact h.methods rfl

end Http1Decoder

theorem MessageBytes.direction {short : Bool} {d : Direction} {maxBody : Nat}
    {answersHead eof : Bool}
    {w : Bytes} {m : DecodedMessage} (h : MessageBytes short d maxBody answersHead eof w m) :
    m.direction = d := by
  cases h
  rfl

/-! ## The account of a direction -/

/-- Where the bytes of a direction are: in whole messages that were emitted, in the part
taken of the message under way, and in the buffer. -/
structure Account (d : Direction) (maxBody : Nat) (w : Bytes) (ms : List DecodedMessage)
    (st : DirectionState) (ws : List Bytes) (taken : Bytes) : Prop where
  whole : List.Forall₂ (MessageBytes false d maxBody false false) ws ms
  split : w = ws.flatten ++ (taken ++ st.buffer)
  between : st.pending = none → taken = []
  under : ∀ eof r m, Completes false d maxBody false eof st.pending r m →
    MessageBytes false d maxBody false eof (taken ++ r) m

section Account

variable {d : Direction} {maxBody : Nat} {w taken : Bytes} {ms : List DecodedMessage}
  {s t : DirectionState} {ws : List Bytes}

theorem Account.init (d : Direction) (maxBody : Nat) (w : Bytes) :
    Account d maxBody w [] ⟨w, none⟩ [] [] :=
  ⟨.nil, rfl, fun _ => rfl, fun _ _ _ h => h⟩

/-- A step without a message moves bytes from the buffer to the message under way. -/
theorem Account.onward (h : Account d maxBody w ms s ws taken) {step : Step}
    (hsteps : Steps d maxBody false s (t, step)) (hstep : step = .progress ∨ step = .needMore) :
    ∃ taken', Account d maxBody w ms t ws taken' := by
  obtain ⟨x, hbuffer, hnone, hrest⟩ := hsteps.onward hstep
  refine ⟨taken ++ x, h.whole, ?_, ?_, ?_⟩
  · rw [h.split, hbuffer, append_assoc]
  · intro ht
    obtain ⟨hs, rfl⟩ := hnone ht
    rw [h.between hs, append_nil]
  · intro eof r m hr
    rw [append_assoc]
    exact h.under eof _ m (hrest eof r m hr)

/-- A message takes what was taken for it. -/
theorem Account.completed (h : Account d maxBody w ms s ws taken) {m : DecodedMessage}
    (hsteps : Steps d maxBody false s (t, .message m)) :
    m.direction = d ∧ ∃ w', Account d maxBody w (ms ++ [m]) t (ws ++ [w']) [] := by
  obtain ⟨x, hbuffer, hnone, hdone⟩ := hsteps.completed
  have hwhole := h.under false x m hdone
  refine ⟨hwhole.direction, taken ++ x, ?_, ?_, fun _ => rfl, ?_⟩
  · exact rel_append h.whole (.cons hwhole .nil)
  · rw [h.split, hbuffer]
    simp
  · intro eof r m' hr
    rw [hnone] at hr
    exact hr

end Account

namespace Http1Decoder

variable {d : Direction} {maxBody : Nat} {s t : Http1Decoder} {b : DecodeBatch}
  {ms : List DecodedMessage} {ws : List Bytes} {part : Bytes}

/-- The account is kept through a whole run of the loop. -/
theorem account_of_settles {w taken : Bytes} (h : Settles (turn d) s t b)
    (hlone : s.Lone d maxBody) (ha : Account d maxBody w ms (s.state d) ws taken) :
    ∃ ws' taken', Account d maxBody w (ms ++ b.messages) (t.state d) ws' taken' := by
  induction h generalizing ms ws taken with
  | stop hstop =>
    obtain ⟨st, step, hsteps, rfl, ⟨rfl, -⟩ | ⟨reason, -, hb⟩⟩ := turn_stop hstop
    · rw [hlone.cap, hlone.responseToHead] at hsteps
      obtain ⟨taken', ha'⟩ := ha.onward hsteps (.inr rfl)
      rw [state_setState_self]
      exact ⟨ws, taken', by simpa [Stream.Batch.needMore] using ha'⟩
    · cases hb
  | again hagain _ ih =>
    obtain ⟨st, step, hsteps, hcases⟩ := turn_again hagain
    rw [hlone.cap, hlone.responseToHead] at hsteps
    obtain ⟨rfl, rfl, rfl⟩ | ⟨m, rfl, rfl, rfl⟩ := hcases
    · obtain ⟨taken', ha'⟩ := ha.onward hsteps (.inl rfl)
      rw [Stream.Batch.needMore_seq]
      exact ih (hlone.setState st) (by rwa [state_setState_self])
    · obtain ⟨hm, w', ha'⟩ := ha.completed hsteps
      have hrest := ih ((hlone.setState st).trackExchange hm)
        (by rwa [trackExchange_state, state_setState_self])
      simpa using hrest

/-- Messages at the front of a buffer are emitted one after the other. -/
theorem halts_behind (hws : List.Forall₂ (MessageBytes false d maxBody false false) ws ms)
    (hrun : Halts (turn d) s t b) (hlone : s.Lone d maxBody)
    (hs : s.state d = ⟨ws.flatten ++ part, none⟩) (hb : b.desynchronized = none) :
    ∃ s' b', s'.state d = ⟨part, none⟩ ∧ b'.desynchronized = none ∧ Halts (turn d) s' t b' := by
  induction hws generalizing s b with
  | nil => exact ⟨s, b, hs, hb, hrun⟩
  | @cons w m ws ms hw _ ih =>
    have hw' : Completes false d s.maxBody (s.responseToHead d) false none w m := by
      rw [hlone.cap, hlone.responseToHead]
      exact hw
    rw [flatten_cons, append_assoc] at hs
    obtain ⟨b', hrun', rfl⟩ := (goes_message hw' hs).halts hrun
    rw [Stream.Batch.seq_desynchronized_eq_none] at hb
    refine ih hrun' ((hlone.setState _).trackExchange hw.direction) ?_ hb.2
    rw [trackExchange_state, state_setState_self]

/-- A buffer without the end of a head stays as it is, if nothing is reported. -/
theorem halts_inside_head (hrun : Halts (turn d) s t b) (hs : s.state d = ⟨part, none⟩)
    (hpart : Search.find headEnd part = none) (hb : b.desynchronized = none) :
    t.state d = ⟨part, none⟩ := by
  cases hrun with
  | stop hstop =>
    obtain ⟨st, step, hsteps, rfl, hcases⟩ := turn_stop hstop
    rw [hs] at hsteps
    obtain ⟨rfl, -⟩ | ⟨reason, -, rfl⟩ := hcases
    · rw [state_setState_self]
      obtain ⟨hst, -⟩ | ⟨reason, hreason⟩ := hsteps.inside_head hpart
      · exact hst
      · cases hreason
    · cases hb
  | again hagain _ =>
    obtain ⟨st, step, hsteps, hcases⟩ := turn_again hagain
    rw [hs] at hsteps
    obtain ⟨rfl, -, -⟩ | ⟨m, rfl, -, -⟩ := hcases
    · obtain ⟨-, hstep⟩ | ⟨reason, hstep⟩ := hsteps.inside_head hpart <;> cases hstep
    · obtain ⟨-, hstep⟩ | ⟨reason, hstep⟩ := hsteps.inside_head hpart <;> cases hstep

/-- A direction that waits between messages has not seen the end of a head. -/
theorem find_headEnd_of_waits (h : turn d s = .stop t .needMore)
    (hp : (s.state d).pending = none) : Search.find headEnd (s.state d).buffer = none := by
  obtain ⟨st, step, hsteps, -, ⟨rfl, -⟩ | ⟨reason, -, hb⟩⟩ := turn_stop h
  · have hs : s.state d = ⟨(s.state d).buffer, none⟩ := by rw [← hp]
    rw [hs] at hsteps
    exact hsteps.waits_head
  · cases hb

/-! ## The end of a stream -/

/-- After pushes of one direction and its end: every byte is part of a message that was
emitted, or the end reports, and the buffer is empty. -/
def LosesNothing (d : Direction) (maxBody : Nat) (xs : List Bytes) : Prop :=
  let os := xs.map (Op.push d)
  let last := ((new maxBody).run os).1.finish d
  ((∃ ws, List.Forall₂ (fun w m => ∃ eof, MessageBytes false d maxBody false eof w m) ws
        ((new maxBody).messages os ++ last.2.messages) ∧ ws.flatten = xs.flatten) ∨
      last.2.desynchronized ≠ none) ∧
    (last.1.state d).buffer = []

/-- Whole messages, and then a part of a head. -/
def EndsInsideHead (d : Direction) (maxBody : Nat) (w : Bytes) : Prop :=
  ∃ ws ms part, List.Forall₂ (MessageBytes false d maxBody false false) ws ms ∧
    w = ws.flatten ++ part ∧ part ≠ [] ∧ Search.find headEnd part = none

theorem finish_none (h : (s.state d).pending = none) : s.finish d = (s, .needMore) := by
  rw [finish, DirectionState.finish, h]
  simp only [setState_state]

theorem finish_some {p : PendingBody} (h : (s.state d).pending = some p) :
    ((s.finish d).1.state d).buffer = [] ∧
      ((p.isUntilEof = false ∧ (s.finish d).2.desynchronized ≠ none) ∨
        ∃ m, p = .untilEof m ∧ (s.finish d).2.messages = [m]) := by
  rw [finish, DirectionState.finish, h]
  refine ⟨by simp only [trackExchange_state, state_setState_self], ?_⟩
  cases p with
  | fixed m n => exact .inl ⟨rfl, by simp⟩
  | chunked m phase => exact .inl ⟨rfl, by simp⟩
  | untilEof m => exact .inr ⟨m, rfl, by simp [PendingBody.intoMessage]⟩

/-- Nothing of a silent stream is lost at its end, if and only if it does not end inside a
head. -/
theorem losesNothing_iff (d : Direction) (maxBody : Nat) (xs : List Bytes)
    (hq : ∀ b ∈ ((new maxBody).run (xs.map (.push d))).2, b.desynchronized = none) :
    LosesNothing d maxBody xs ↔ ¬EndsInsideHead d maxBody xs.flatten := by
  have hrun := settles_run hq
  have hwaits := hrun.waits (turn_local d).resumes
  have hlone : (feed d (new maxBody) xs.flatten).Lone d maxBody :=
    Lone.setState (s := new maxBody) ⟨rfl, fun _ => rfl⟩ _
  have hstart : (feed d (new maxBody) xs.flatten).state d = ⟨xs.flatten, none⟩ := by
    cases d <;> rfl
  constructor
  · rintro ⟨-, hbuffer⟩ ⟨ws, ms, part, hws, hflat, hne, hpart⟩
    obtain ⟨s', b', hs', hb', hrun'⟩ :=
      halts_behind hws hrun.halts hlone (hstart.trans (by rw [hflat])) rfl
    have hlast := halts_inside_head hrun' hs' hpart hb'
    rw [finish_none (by rw [hlast]), hlast] at hbuffer
    exact hne hbuffer
  · intro hend
    obtain ⟨ws, taken, ha⟩ := account_of_settles hrun hlone (hstart ▸ Account.init d maxBody _)
    have hsplit := ha.split
    have hwhole : List.Forall₂ (fun w m => ∃ eof, MessageBytes false d maxBody false eof w m) ws
        ((new maxBody).messages (xs.map (.push d))) := ha.whole.imp fun _ _ h => ⟨false, h⟩
    cases hp : (((new maxBody).run (xs.map (.push d))).1.state d).pending with
    | none =>
      -- Between messages the buffer is empty, or it holds a part of a head.
      rw [ha.between hp, nil_append] at hsplit
      have hempty : (((new maxBody).run (xs.map (.push d))).1.state d).buffer = [] := by
        by_contra hne
        exact hend ⟨ws, _, _, ha.whole, hsplit, hne, find_headEnd_of_waits hwaits hp⟩
      rw [LosesNothing]
      simp only [finish_none hp]
      refine ⟨.inl ⟨ws, ?_, ?_⟩, hempty⟩
      · simpa [Stream.Batch.needMore] using hwhole
      · rw [hsplit, hempty, append_nil]
    | some p =>
      obtain ⟨hbuffer, ⟨-, hreport⟩ | ⟨m, rfl, hm⟩⟩ := finish_some hp
      · exact ⟨.inr hreport, hbuffer⟩
      · have hempty : (((new maxBody).run (xs.map (.push d))).1.state d).buffer = [] := by
          have hsmall := turn_small hwaits
          rwa [DirectionState.Small, hp] at hsmall
        have hlast : MessageBytes false d maxBody false true (taken ++ []) m := by
          refine ha.under true [] m ?_
          rw [hp]
          exact ⟨rfl, by simpa using Rest.untilEof (m := m) []⟩
        refine ⟨.inl ⟨ws ++ [taken], ?_, ?_⟩, hbuffer⟩
        · rw [hm]
          exact rel_append hwhole (.cons ⟨true, by simpa using hlast⟩ .nil)
        · rw [hsplit, hempty]
          simp

/-- A request whose body is cut off: the end reports it. -/
theorem cutBody_losesNothing :
    ¬EndsInsideHead .clientToServer 16
      (Utf8.asBytes "POST / HTTP/1.1\r\nContent-Length: 9\r\n\r\nab") := by
  have h := losesNothing_iff .clientToServer 16
    [Utf8.asBytes "POST / HTTP/1.1\r\nContent-Length: 9\r\n\r\nab"] (by decide +kernel)
  rw [flatten_singleton] at h
  exact h.mp ⟨.inr (by decide +kernel), by decide +kernel⟩

/-- A request that is cut off in its head: nothing is emitted, nothing reported, and the
buffer keeps the bytes. -/
theorem cutHead_loses :
    let last :=
      ((new 16).run [.push .clientToServer (Utf8.asBytes "GET / HT")]).1.finish .clientToServer
    last.2 = .needMore ∧ (last.1.state .clientToServer).buffer = Utf8.asBytes "GET / HT" ∧
      ¬LosesNothing .clientToServer 16 [Utf8.asBytes "GET / HT"] := by
  refine ⟨by decide +kernel, by decide +kernel, ?_⟩
  rintro ⟨-, hbuffer⟩
  revert hbuffer
  decide +kernel

end Http1Decoder

end Lens.Http1
