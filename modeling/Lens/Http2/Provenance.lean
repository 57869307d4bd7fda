import Lens.Http2.Streams

/-!
# Where headers come from

Every header of a message is one that the decoder writes itself (`Own`), or one of a header list
that was decoded before (`Table.carries_messages`).  The headers of a message under way are kept
in the table until the message ends.
-/

namespace Lens.Http2

open List

/-- A header that the decoder writes itself. -/
structure Own (h : String × String) : Prop where
  name : h.1 ∈ ["lens-protocol", "lens-stream-id", "lens-boundary", "lens-content",
    "grpc-compressed", "grpc-message-bytes", "grpc-status"]
  protocol : h.1 = "lens-protocol" → h.2 ∈ ["http2", "grpc"]

theorem Own.of_ne {h : String × String} (hname : h.1 ∈ ["lens-stream-id", "lens-boundary",
    "lens-content", "grpc-compressed", "grpc-message-bytes", "grpc-status"]) : Own h where
  name := mem_cons_of_mem _ hname
  protocol heq := by
    rw [heq] at hname
    exact absurd hname (by decide)

theorem Own.http2 : Own ("lens-protocol", "http2") := ⟨by simp, by simp⟩

theorem Own.grpc : Own ("lens-protocol", "grpc") := ⟨by simp, by simp⟩

/-- The fields of a decoded header list. -/
def Event.fields : Event → Headers
  | .headers _ _ _ hs => hs
  | .data .. => []
  | .reset _ => []

section Carries

variable {result : Except String (List DecodedMessage)} {hs : Headers}

variable (P : String × String → Prop)

/-- The headers of a message come from the wire or from the decoder. -/
def FromWire (m : DecodedMessage) : Prop := ∀ h ∈ m.headers, P h ∨ Own h

/-- The headers that a stream keeps come from the wire. -/
def StreamState.Carries (st : StreamState) : Prop :=
  ∀ d p, st.pending d = some p → ∀ h ∈ p.headers, P h

structure Outcome.Carries (old : Option StreamState) (o : Outcome) : Prop where
  next : ∀ st, o.change.next old = some st → st.Carries P
  messages : ∀ m ∈ gives o.result, FromWire P m

variable {P} {old : Option StreamState} {st : StreamState} {retained : Nat}

theorem StreamState.Carries.setPending (h : st.Carries P) (d : Direction)
    {p : Option PendingMessage}
    (hp : ∀ q, p = some q → ∀ h ∈ q.headers, P h) : (st.setPending d p).Carries P := by
  intro d' q hq
  by_cases hd : d' = d
  · subst hd
    rw [pending_setPending] at hq
    exact hp q hq
  · rw [pending_setPending_other st hd] at hq
    exact h d' q hq

theorem StreamState.Carries.setGrpcParser (h : st.Carries P) (d : Direction) (p : GrpcParser) :
    (st.setGrpcParser d p).Carries P := by
  intro d' q hq
  rw [pending_setGrpcParser] at hq
  exact h d' q hq

theorem StreamState.Carries.marked (h : ∀ st, old = some st → st.Carries P)
    (hs : Headers) : (StreamState.marked old hs).Carries P := by
  intro d p hp
  rw [pending_marked] at hp
  cases old with
  | none => cases d <;> cases hp
  | some st => exact h st rfl d p hp

/-- A message under way, with what the decoder adds at its end. -/
theorem fromWire_finish {p : PendingMessage} (hp : ∀ h ∈ p.headers, P h) (id : Nat)
    (d : Direction) :
    FromWire P (addHttp2Metadata p.finish id d) := by
  intro h hh
  have hheaders : (addHttp2Metadata p.finish id d).headers = p.headers ++
      [("lens-protocol", "http2"), ("lens-stream-id", toString id), ("lens-boundary", role d)] := by
    simp [addHttp2Metadata, DecodedMessage.pushHeader, PendingMessage.finish]
  rw [hheaders, mem_append] at hh
  rcases hh with hh | hh
  · exact .inl (hp h hh)
  · simp only [mem_cons, not_mem_nil, or_false] at hh
    rcases hh with rfl | rfl | rfl
    · exact .inr .http2
    · exact .inr (.of_ne (by simp))
    · exact .inr (.of_ne (by simp))

theorem fromWire_grpcMessage (hp : ∀ h ∈ hs, P h) (d : Direction)
    (id : Nat) : FromWire P (grpcMessage d id st hs) := by
  have hmarked : ∀ h ∈ hs ++ [("lens-protocol", "grpc"), ("lens-stream-id", toString id)],
      P h ∨ Own h := by
    intro h hh
    rw [mem_append] at hh
    rcases hh with hh | hh
    · exact .inl (hp h hh)
    · simp only [mem_cons, not_mem_nil, or_false] at hh
      rcases hh with rfl | rfl
      · exact .inr .grpc
      · exact .inr (.of_ne (by simp))
  have hboundary :
      ∀ role, ∀ h ∈ hs ++ [("lens-protocol", "grpc"), ("lens-stream-id", toString id)] ++
      [("lens-boundary", role)], P h ∨ Own h := by
    intro role h hh
    rw [mem_append, mem_singleton] at hh
    rcases hh with hh | rfl
    · exact hmarked h hh
    · exact .inr (.of_ne (by simp))
  unfold grpcMessage
  cases findHeader hs ":method" with
  | some method => exact hboundary "request"
  | none =>
    cases findHeader hs ":status" with
    | some status => exact hmarked
    | none =>
      cases d with
      | clientToServer => exact hmarked
      | serverToClient => exact hboundary "response"

theorem fromWire_payload (q : GrpcPayload) (d : Direction) (id : Nat) (path : String) :
    FromWire P (q.finish d id path) := by
  intro h hh
  simp only [GrpcPayload.finish, mem_cons, not_mem_nil, or_false] at hh
  rcases hh with rfl | rfl | rfl | rfl | rfl
  · exact .inr .grpc
  all_goals exact .inr (.of_ne (by simp))

theorem fromWire_endMessages (d : Direction) (id : Nat) : ∀ m ∈ endMessages d id, FromWire P m := by
  cases d with
  | clientToServer => simp [endMessages]
  | serverToClient =>
    intro m hm h hh
    obtain rfl : m = Http2Decoder.endedWithoutTrailers .serverToClient id := by
      simpa [endMessages] using hm
    simp only [Http2Decoder.endedWithoutTrailers, mem_cons, not_mem_nil, or_false] at hh
    rcases hh with rfl | rfl | rfl | rfl
    · exact .inr .grpc
    all_goals exact .inr (.of_ne (by simp))

theorem outcome_carries (maxBody : Nat) (full : Bool) {e : Event} (he : ∀ h ∈ e.fields, P h)
    (hok : ∀ st, old = some st → st.Ok maxBody) (h : ∀ st, old = some st → st.Carries P) :
    (outcome maxBody retained full old e).Carries P old := by
  have hkeeps : (outcome maxBody retained full old e).Keeps (·.Carries P) (FromWire P) old := by
    refine outcome_keeps (R := fun p => ∀ h ∈ p.headers, P h) full h
      (fun hst hp => hst.setPending _ hp) (fun hst hp => hst _ _ hp)
      (fun hp => fromWire_finish hp _ _) ?_ ?_
    · rintro d id endStream hs rfl
      exact ⟨.marked h hs, fromWire_grpcMessage he d id, fun _ => he,
        fun p hp => forall_mem_append.mpr ⟨hp, he⟩⟩
    · rintro st d id endStream data hst rfl
      refine ⟨fun p hp => h st hst d p hp, fun hpush => ⟨(h st hst).setGrpcParser d _, ?_⟩⟩
      obtain ⟨hparses, -⟩ := StreamState.parses_of_push ((hok st hst).parser d) hpush
      refine forall_mem_append.mpr ⟨fun m hm => ?_, fromWire_endMessages d id⟩
      obtain ⟨q, rfl⟩ := hparses.finished (gives_eq hm) m hm
      exact fromWire_payload q d id _
  exact ⟨hkeeps.next, hkeeps.messages⟩

end Carries

namespace Table

variable {t : Table}

variable {P : String × String → Prop}

/-- The headers of every message under way come from the wire. -/
def Carries (P : String × String → Prop) (t : Table) : Prop :=
  ∀ id st, t.streams.lookup id = some st → st.Carries P

theorem Carries.new (maxBody : Nat) : (Table.new maxBody).Carries P := by
  intro id st h
  simp [Table.new] at h

theorem Carries.apply (h : t.Carries P) (hok : t.Ok) {e : Event}
    (he : ∀ h ∈ e.fields, P h) : (t.apply e).Carries P := by
  intro id st hst
  by_cases hid : id = e.id
  · subst hid
    rw [lookup_apply_self] at hst
    exact (outcome_carries _ t.full he (hok e.id) (h e.id)).next st hst
  · rw [lookup_apply_ne t e hid] at hst
    exact h id st hst

/-- Every header of a message is from the wire or from the decoder. -/
theorem Carries.messages (h : t.Carries P) (hok : t.Ok) {es : List Event}
    (hes : ∀ e ∈ es, ∀ h ∈ e.fields, P h) : ∀ m ∈ t.messages es, FromWire P m := by
  induction es generalizing t with
  | nil => simp
  | cons e es ih =>
    obtain ⟨he, hes⟩ := forall_mem_cons.mp hes
    rw [messages_cons, forall_mem_append]
    exact ⟨(outcome_carries _ t.full he (hok e.id) (h e.id)).messages,
      ih (h.apply hok he) (hok.apply e) hes⟩

end Table

/-- The header fields that were decoded in a run. -/
def Http2Decoder.wireFields {η : Type} (hp : Hpack η) (s : Http2Decoder η) (calls : List Call) :
    Headers :=
  (s.events hp calls).flatMap Event.fields

/-- Every header of a message of a run was decoded in the run, or the decoder wrote it. -/
theorem Http2Decoder.run_fromWire {η : Type} (hp : Hpack η) (maxBody : Nat) (calls : List Call) :
    ∀ m ∈ ((new hp maxBody).run hp calls).2.flatMap Stream.Batch.messages,
      FromWire (· ∈ (new hp maxBody).wireFields hp calls) m := by
  rw [run_messages]
  refine Table.Carries.messages (.new maxBody) (.new maxBody) fun e he h hh => ?_
  exact mem_flatMap.mpr ⟨e, he, hh⟩

end Lens.Http2
