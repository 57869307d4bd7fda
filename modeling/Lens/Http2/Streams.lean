import Lens.Http2.Directions
import Lens.Http2.Envelopes

/-!
# The streams of a connection

What holds of every stream in every run: its gRPC parsers are between two envelopes
or inside one, and no body it holds is longer than the cap (`StreamState.Ok`).  An
outcome keeps that and gives no longer body (`outcome_fits`), so it holds of the
whole table after every sequence of events (`Table.Ok.applyAll`).
-/

namespace Lens.Http2

open List

namespace StreamState

variable {d d' : Direction}

@[simp] theorem pending_marked (old : Option StreamState) (hs : Headers)
    (d : Direction) : (marked old hs).pending d = old.bind (·.pending d) := by
  cases old <;> cases d <;> rfl

@[simp] theorem grpcParser_marked (old : Option StreamState) (hs : Headers)
    (d : Direction) : (marked old hs).grpcParser d = (old.getD {}).grpcParser d := by
  cases d <;> rfl

@[simp] theorem pending_setPending (st : StreamState) (d : Direction) (p : Option PendingMessage) :
    (st.setPending d p).pending d = p := by
  cases d <;> rfl

@[simp] theorem grpcParser_setPending (st : StreamState) (d d' : Direction)
    (p : Option PendingMessage) : (st.setPending d p).grpcParser d' = st.grpcParser d' := by
  cases d <;> cases d' <;> rfl

@[simp] theorem pending_setPending_other (st : StreamState) (h : d' ≠ d)
    (p : Option PendingMessage) : (st.setPending d p).pending d' = st.pending d' := by
  cases d <;> cases d' <;> first | rfl | exact absurd rfl h

@[simp] theorem pending_setGrpcParser (st : StreamState) (d d' : Direction) (p : GrpcParser) :
    (st.setGrpcParser d p).pending d' = st.pending d' := by
  cases d <;> cases d' <;> rfl

@[simp] theorem grpcParser_setGrpcParser (st : StreamState) (d : Direction) (p : GrpcParser) :
    (st.setGrpcParser d p).grpcParser d = p := by
  cases d <;> rfl

@[simp] theorem grpcParser_setGrpcParser_other (st : StreamState) (h : d' ≠ d)
    (p : GrpcParser) : (st.setGrpcParser d p).grpcParser d' = st.grpcParser d' := by
  cases d <;> cases d' <;> first | rfl | exact absurd rfl h

/-- What holds of a stream between two events. -/
structure Ok (maxBody : Nat) (st : StreamState) : Prop where
  parser : ∀ d, (st.grpcParser d).Ok
  kept : ∀ d, (st.grpcParser d).retained ≤ maxBody
  body : ∀ d p, st.pending d = some p → p.body.length ≤ maxBody

variable {maxBody : Nat} {st : StreamState}

theorem Ok.empty (maxBody : Nat) : Ok maxBody {} where
  parser d := by cases d <;> exact .init
  kept d := by cases d <;> exact Nat.zero_le _
  body d p h := by cases d <;> cases h

theorem Ok.marked {old : Option StreamState} (h : ∀ st, old = some st → st.Ok maxBody)
    (hs : Headers) : (StreamState.marked old hs).Ok maxBody := by
  have hold : (old.getD {}).Ok maxBody := by
    cases old with
    | none => exact .empty maxBody
    | some st => exact h st rfl
  exact ⟨hold.parser, hold.kept, hold.body⟩

theorem Ok.setPending (h : st.Ok maxBody) (d : Direction) {p : Option PendingMessage}
    (hp : ∀ q, p = some q → q.body.length ≤ maxBody) : (st.setPending d p).Ok maxBody where
  parser d' := by simpa using h.parser d'
  kept d' := by simpa using h.kept d'
  body d' q hq := by
    by_cases hd : d' = d
    · subst hd
      rw [pending_setPending] at hq
      exact hp q hq
    · rw [pending_setPending_other st hd] at hq
      exact h.body d' q hq

theorem Ok.setGrpcParser (h : st.Ok maxBody) (d : Direction) {p : GrpcParser} (hp : p.Ok)
    (hle : p.retained ≤ maxBody) : (st.setGrpcParser d p).Ok maxBody where
  parser d' := by
    by_cases hd : d' = d
    · subst hd
      rwa [grpcParser_setGrpcParser]
    · rw [grpcParser_setGrpcParser_other st hd]
      exact h.parser d'
  kept d' := by
    by_cases hd : d' = d
    · subst hd
      rwa [grpcParser_setGrpcParser]
    · rw [grpcParser_setGrpcParser_other st hd]
      exact h.kept d'
  body d' q hq := h.body d' q (by simpa using hq)

end StreamState

/-! ## One event -/

/-- An outcome leaves a stream with `S` and gives only messages with `M`. -/
structure Outcome.Keeps (S : StreamState → Prop) (M : DecodedMessage → Prop)
    (old : Option StreamState) (o : Outcome) : Prop where
  next : ∀ st, o.change.next old = some st → S st
  messages : ∀ m ∈ gives o.result, M m

section Keeps

variable {S : StreamState → Prop} {M : DecodedMessage → Prop} {old : Option StreamState}
  {st : StreamState} {retained maxBody : Nat} {result : Except String (List DecodedMessage)}
  {messages : List DecodedMessage}

theorem Outcome.Keeps.put (h : S st) (hm : ∀ m ∈ gives result, M m) :
    Outcome.Keeps S M old ⟨.put st, retained, result⟩ where
  next _ h' := Option.some.inj h' ▸ h
  messages := hm

theorem Outcome.Keeps.remove (hm : ∀ m ∈ gives result, M m) :
    Outcome.Keeps S M old ⟨.remove, retained, result⟩ where
  next _ h := nomatch h
  messages := hm

theorem Outcome.Keeps.ended (h : S st) (d : Direction) (hm : ∀ m ∈ messages, M m) :
    Outcome.Keeps S M old (.ended d st retained messages) := by
  cases d with
  | clientToServer => exact .put h hm
  | serverToClient => exact .remove hm

/-- The rule for an event: `S` is kept by what the event does to the stream, where `R`
holds of the messages under way. -/
theorem outcome_keeps {R : PendingMessage → Prop} (full : Bool) {e : Event}
    (hold : ∀ st, old = some st → S st)
    (hset : ∀ {st d p}, S st → (∀ q, p = some q → R q) → S (st.setPending d p))
    (hpending : ∀ {st d p}, S st → st.pending d = some p → R p)
    (hfinish : ∀ {p d}, R p → M (addHttp2Metadata p.finish e.id d))
    (hheaders : ∀ {d id endStream hs}, e = .headers d id endStream hs →
      S (.marked old hs) ∧ M (grpcMessage d id (.marked old hs) hs) ∧
        (∀ line, R ⟨d, line, hs, [], false⟩) ∧ ∀ p, R p → R { p with headers := p.headers ++ hs })
    (hdata : ∀ {st d id endStream data}, old = some st → e = .data d id endStream data →
      (∀ p, st.pending d = some p → R (p.extend maxBody retained data)) ∧
        ∀ {parser result}, st.pushGrpc d id data maxBody retained = (parser, result) →
          S (st.setGrpcParser d parser) ∧ ∀ m ∈ gives result ++ endMessages d id, M m) :
    (outcome maxBody retained full old e).Keeps S M old := by
  have hyields := outcome_yields maxBody retained full old e
  generalize outcome maxBody retained full old e = o at hyields ⊢
  cases hyields with
  | reset => exact .remove (forall_mem_nil _)
  | full | noStream | noMessage => exact ⟨hold, forall_mem_nil _⟩
  | grpcHeaders =>
    obtain ⟨hmarked, hgrpc, -⟩ := hheaders rfl
    exact .put hmarked (forall_mem_singleton.mpr hgrpc)
  | grpcHeadersEnd =>
    obtain ⟨hmarked, hgrpc, -⟩ := hheaders rfl
    exact .ended hmarked _ (forall_mem_singleton.mpr hgrpc)
  | start =>
    obtain ⟨hmarked, -, hstart, -⟩ := hheaders rfl
    exact .put (hset hmarked (by rintro q ⟨⟩; exact hstart _)) (forall_mem_nil _)
  | startEnd =>
    obtain ⟨hmarked, -, hstart, -⟩ := hheaders rfl
    exact .put (hset hmarked (by simp)) (forall_mem_singleton.mpr (hfinish (hstart _)))
  | orphan => exact .put (hheaders rfl).1 (forall_mem_nil _)
  | trailers _ _ hp =>
    obtain ⟨hmarked, -, -, htrail⟩ := hheaders rfl
    have hmore := htrail _ (hpending hmarked hp)
    exact .put (hset hmarked (by rintro q ⟨⟩; exact hmore)) (forall_mem_nil _)
  | trailersEnd _ _ hp =>
    obtain ⟨hmarked, -, -, htrail⟩ := hheaders rfl
    have hmore := htrail _ (hpending hmarked hp)
    exact .ended (hset hmarked (by simp)) _ (forall_mem_singleton.mpr (hfinish hmore))
  | data hst _ hp =>
    have hmore := (hdata hst rfl).1 _ hp
    exact .put (hset (hold _ hst) (by rintro q ⟨⟩; exact hmore)) (forall_mem_nil _)
  | dataEnd hst _ hp =>
    have hmore := (hdata hst rfl).1 _ hp
    exact .ended (hset (hold _ hst) (by simp)) _ (forall_mem_singleton.mpr (hfinish hmore))
  | refused hst _ hpush | inside hst _ hpush =>
    exact .put ((hdata hst rfl).2 hpush).1 (forall_mem_nil _)
  | push hst _ hpush =>
    obtain ⟨hpushed, hall⟩ := (hdata hst rfl).2 hpush
    exact .put hpushed (forall_mem_append.mp hall).1
  | pushEnd hst _ hpush =>
    obtain ⟨hpushed, hall⟩ := (hdata hst rfl).2 hpush
    exact .ended hpushed _ hall

end Keeps

variable {result : Except String (List DecodedMessage)} {maxBody retained : Nat}

theorem gives_eq {m : DecodedMessage} (h : m ∈ gives result) : result = .ok (gives result) := by
  cases result with
  | error reason => cases h
  | ok messages => rfl

theorem StreamState.parses_of_push {st : StreamState} {d : Direction} {id : Nat} {data : Bytes}
    {parser : GrpcParser} (hok : (st.grpcParser d).Ok)
    (hpush : st.pushGrpc d id data maxBody retained = (parser, result)) :
    GrpcParser.Parses d id (st.path.getD "/unknown")
      (captureLimit maxBody retained (st.grpcParser d)) (st.grpcParser d) data parser result ∧
      parser.Ok := by
  have hparses := pushGrpc_parses hok id data maxBody retained
  have hparser : (st.pushGrpc d id data maxBody retained).1.Ok := hok.push data
  rw [hpush] at hparses hparser
  exact ⟨hparses, hparser⟩

/-- An outcome leaves a stream that is in order, and gives no body over the cap. -/
structure Outcome.Fits (maxBody : Nat) (old : Option StreamState) (o : Outcome) : Prop where
  next : ∀ st, o.change.next old = some st → st.Ok maxBody
  bodies : ∀ m ∈ gives o.result, m.body.length ≤ maxBody

theorem grpcMessage_body (d : Direction) (id : Nat) (st : StreamState)
    (hs : Headers) :
    (grpcMessage d id st hs).body = [] := by
  unfold grpcMessage
  cases findHeader hs ":method" <;> cases findHeader hs ":status" <;> rfl

theorem outcome_fits {old : Option StreamState} (full : Bool) (e : Event)
    (h : ∀ st, old = some st → st.Ok maxBody) :
    (outcome maxBody retained full old e).Fits maxBody old := by
  have hkeeps : (outcome maxBody retained full old e).Keeps (·.Ok maxBody)
      (·.body.length ≤ maxBody) old := by
    refine outcome_keeps (R := fun p => p.body.length ≤ maxBody) full h
      (fun hst hp => hst.setPending _ hp) (fun hst hp => hst.body _ _ hp) id ?_ ?_
    · rintro d id endStream hs rfl
      refine ⟨.marked h hs, ?_, fun _ => Nat.zero_le _, fun _ hp => hp⟩
      simp [grpcMessage_body]
    · rintro st d id endStream data hst rfl
      have hok := h st hst
      refine ⟨fun p hp => ?_, fun hpush => ?_⟩
      · have hle := hok.body d p hp
        rw [PendingMessage.extend, length_append, length_take, capturable]
        omega
      · obtain ⟨hparses, hparser⟩ := StreamState.parses_of_push (hok.parser d) hpush
        have hlimit : max (st.grpcParser d).retained
            (captureLimit maxBody retained (st.grpcParser d)) ≤ maxBody :=
          max_le (hok.kept d) (min_le_left _ _)
        refine ⟨hok.setGrpcParser d hparser (hparses.retained_le.trans hlimit),
          forall_mem_append.mpr ⟨fun m hm => ?_, ?_⟩⟩
        · exact (hparses.body_le (gives_eq hm) m hm).trans hlimit
        · cases d <;> simp [endMessages, Http2Decoder.endedWithoutTrailers]
  exact ⟨hkeeps.next, hkeeps.messages⟩

/-! ## The table -/

namespace Table

variable {t : Table}

/-- Every stream of the table is in order. -/
def Ok (t : Table) : Prop := ∀ id st, t.streams.lookup id = some st → st.Ok t.maxBody

theorem Ok.new (maxBody : Nat) : (Table.new maxBody).Ok := by
  intro id st h
  simp [Table.new] at h

theorem Ok.fits (h : t.Ok) (e : Event) :
    (t.outcome e).Fits t.maxBody (t.streams.lookup e.id) :=
  outcome_fits t.full e (h e.id)

theorem Ok.apply (h : t.Ok) (e : Event) : (t.apply e).Ok := by
  intro id st hst
  by_cases hid : id = e.id
  · subst hid
    rw [lookup_apply_self] at hst
    exact (h.fits e).next st hst
  · rw [lookup_apply_ne t e hid] at hst
    exact h id st hst

/-- No message of a sequence of events has a body over the cap. -/
theorem Ok.body_le (h : t.Ok) (es : List Event) :
    ∀ m ∈ t.messages es, m.body.length ≤ t.maxBody := by
  induction es generalizing t with
  | nil => simp
  | cons e es ih =>
    intro m hm
    rw [messages_cons, mem_append] at hm
    rcases hm with hm | hm
    · exact (h.fits e).bodies m hm
    · exact ih (h.apply e) m hm

end Table

end Lens.Http2
