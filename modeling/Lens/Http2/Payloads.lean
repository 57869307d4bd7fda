import Lens.Http2.Streams
import Lens.Stream.Framing

/-!
# Envelopes in the data of a stream

gRPC messages are records with a head of five bytes: a flag and the length of the
payload.  The parser does not keep the bytes of the envelope under way, only what it
needs of them.  `Holds` says which bytes those are.  The parser of a DATA frame then
answers what the records in those bytes and the data of the frame are
(`Parses.answers`): a message for each complete record, and a fault where a head is
refused.

What is to be known of the captured bytes depends on the limits the frames have met, so
the relation between a payload and its bytes is a parameter.
-/

namespace Lens.Http2

open List
open Search (beNat)

/-- The framing of gRPC messages. -/
def envelopes : Stream.Framing UInt8 where
  head := 5
  head_pos := Nat.zero_lt_succ 4
  size head := if validFlag head then some (beNat ((head.drop 1).take 4)) else none

abbrev Envelope := Stream.Record UInt8

/-- The flag of a compressed payload. -/
def compressedFlag (head : Bytes) : Bool := head.headD 0 = 1

namespace GrpcParser

variable {r : Except String (List DecodedMessage)}

section Holds

variable (K : GrpcPayload → Bytes → Prop)

/-- The bytes of the envelope under way. -/
inductive Holds : GrpcParser → Bytes → Prop where
  | head {xs : Bytes} : xs.length < 5 → Holds ⟨xs, none⟩ xs
  | payload {q : GrpcPayload} {head xs : Bytes} :
      head.length = 5 → envelopes.size head = some q.length →
      q.compressed = compressedFlag head → xs.length + q.remaining = q.length → 0 < q.remaining →
      K q xs → Holds ⟨[], some q⟩ (head ++ xs)

/-- A message tells the length of an envelope and its flag. -/
def Tells (d : Direction) (id : Nat) (path : String) (m : DecodedMessage) (r : Envelope) : Prop :=
  ∃ q : GrpcPayload, m = q.finish d id path ∧ q.length = r.payload.length ∧
    q.compressed = compressedFlag r.head ∧ K q r.payload

/-- A parser and its result, for the records that were read. -/
inductive Answers (d : Direction) (id : Nat) (path : String) :
    GrpcParser → Except String (List DecodedMessage) → List Envelope × Option Bytes →
    Prop where
  | ok {p : GrpcParser} {ms : List DecodedMessage} {rs : List Envelope} {left : Bytes} :
      List.Forall₂ (Tells K d id path) ms rs → Holds K p left →
      Answers d id path p (.ok ms) (rs, some left)
  | error {reason : String} {rs : List Envelope} : Answers d id path {} (.error reason) (rs, none)

/-- What is known of a payload holds when it begins and when it takes more bytes. -/
structure Kept (limit : Nat) : Prop where
  begins : ∀ head, K (.ofHead head limit) []
  fills : ∀ q xs ys, K q xs → K (q.fill limit ys) (xs ++ ys)

end Holds

variable {K : GrpcPayload → Bytes → Prop} {d : Direction} {id : Nat} {path : String}
  {limit : Nat} {p p' : GrpcParser} {bytes buf : Bytes}

theorem Holds.init : Holds K {} [] := .head (Nat.zero_lt_succ 4)

theorem Holds.ok (h : Holds K p buf) : p.Ok := by
  cases h with
  | head hlt => exact ⟨hlt, by simp⟩
  | payload _ _ _ _ hpos => exact .begun hpos

/-- The bytes that are held have no complete record. -/
theorem Holds.records (h : Holds K p buf) : envelopes.records buf = ([], some buf) := by
  cases h with
  | head hlt => exact (Stream.Framing.Splits.short hlt).eq
  | payload hhead hsize _ hlen hpos =>
    exact (Stream.Framing.Splits.waits hhead hsize (by omega)).eq

/-- One more message for one more record. -/
theorem Answers.cons {m : DecodedMessage} {e : Envelope}
    {read : List Envelope × Option Bytes} (hm : Tells K d id path m e)
    (h : Answers K d id path p r read) :
    Answers K d id path p (r.map (m :: ·)) (e :: read.1, read.2) := by
  cases h with
  | ok hms hp => exact .ok (.cons hm hms) hp
  | error => exact .error

theorem size_of_validFlag {head : Bytes} (h : validFlag head = true) (limit : Nat) :
    envelopes.size head = some (GrpcPayload.ofHead head limit).length := if_pos h

/-- A push answers what the records are. -/
theorem Parses.answers (hk : Kept K limit) (h : Parses d id path limit p bytes p' r)
    (hp : Holds K p buf) :
    Answers K d id path p' r (envelopes.records (buf ++ bytes)) := by
  induction h generalizing buf with
  | done =>
    rw [append_nil, hp.records]
    exact .ok .nil hp
  | @grows p q xs hq hlt =>
    cases hp with
    | head => cases hq
    | @payload q' head sofar hhead hsize hflag hlen hpos hK =>
      cases hq
      have hnext : Holds K ⟨[], some (q.fill limit xs)⟩ (head ++ (sofar ++ xs)) := by
        refine .payload hhead hsize hflag ?_ ?_ (hk.fills q sofar xs hK)
        · change (sofar ++ xs).length + (q.remaining - xs.length) = q.length
          rw [length_append]
          omega
        · exact Nat.sub_pos_of_lt hlt
      rw [append_assoc, hnext.records]
      exact .ok .nil hnext
  | @ends p p' q xs ys r hq hxs _ ih =>
    cases hp with
    | head => cases hq
    | @payload q' head sofar hhead hsize hflag hlen hpos hK =>
      cases hq
      have hpayload : (sofar ++ xs).length = q.length := by
        rw [length_append, hxs, hlen]
      have hfits : envelopes.Fits ⟨head, sofar ++ xs⟩ := ⟨hhead, hsize.trans (hpayload ▸ rfl)⟩
      have hread := (Stream.Framing.Splits.record hfits
        (Stream.Framing.splits_records (F := envelopes) ys)).eq
      have hbytes : head ++ sofar ++ (xs ++ ys) =
          Stream.Record.symbols ⟨head, sofar ++ xs⟩ ++ ys := by
        simp [Stream.Record.symbols]
      rw [hbytes, hread]
      exact .cons ⟨_, rfl, hpayload.symm, hflag, hk.fills q sofar xs hK⟩ (ih .init)
  | @waits p xs hq hlt =>
    cases hp with
    | payload => cases hq
    | @head buf =>
      rw [(Stream.Framing.Splits.short (F := envelopes) hlt).eq]
      exact .ok .nil (.head hlt)
  | @rejects p xs ys hq h5 _ hbad =>
    cases hp with
    | payload => cases hq
    | head =>
      have hrefused : envelopes.size _ = none := if_neg (by rw [hbad]; decide)
      rw [← append_assoc, (Stream.Framing.Splits.refused (F := envelopes) h5 hrefused).eq]
      exact .error
  | @empty p p' xs ys r hq h5 _ hgood hzero _ ih =>
    cases hp with
    | payload => cases hq
    | @head buf =>
      have hfits : envelopes.Fits ⟨buf ++ xs, []⟩ :=
        ⟨h5, (size_of_validFlag hgood limit).trans (congrArg some hzero)⟩
      have hread := (Stream.Framing.Splits.record hfits
        (Stream.Framing.splits_records (F := envelopes) ys)).eq
      have hbytes : buf ++ (xs ++ ys) = Stream.Record.symbols ⟨buf ++ xs, []⟩ ++ ys := by
        simp [Stream.Record.symbols]
      rw [hbytes, hread]
      exact .cons ⟨_, rfl, hzero, rfl, hk.begins _⟩ (ih .init)
  | @begins p p' xs ys r hq h5 _ hgood hlen _ ih =>
    cases hp with
    | payload => cases hq
    | @head buf =>
      have hbegun : Holds K ⟨[], some (.ofHead (buf ++ xs) limit)⟩ (buf ++ xs) := by
        have hpayload : Holds K _ (buf ++ xs ++ []) :=
          .payload h5 (size_of_validFlag hgood limit) rfl (Nat.zero_add _)
            (Nat.pos_of_ne_zero hlen) (hk.begins _)
        rwa [append_nil] at hpayload
      rw [← append_assoc]
      exact ih hbegun

/-- An envelope is under way if and only if bytes of it are held. -/
theorem Holds.hasIncomplete (h : Holds K p buf) : p.hasIncomplete = true ↔ buf ≠ [] := by
  cases h with
  | head => simp [GrpcParser.hasIncomplete]
  | payload hhead =>
    refine iff_of_true (by simp [GrpcParser.hasIncomplete]) fun hnil => ?_
    rw [(append_eq_nil_iff.mp hnil).1] at hhead
    cases hhead

end GrpcParser

variable {K : GrpcPayload → Bytes → Prop} {d : Direction} {buf : Bytes} {retained : Nat}

/-- A DATA frame on a gRPC stream answers what the records are. -/
theorem StreamState.pushGrpc_answers {st : StreamState} {maxBody : Nat}
    (hk : GrpcParser.Kept K (captureLimit maxBody retained (st.grpcParser d)))
    (h : GrpcParser.Holds K (st.grpcParser d) buf) (id : Nat) (data : Bytes) :
    GrpcParser.Answers K d id (st.path.getD "/unknown")
      (st.pushGrpc d id data maxBody retained).1 (st.pushGrpc d id data maxBody retained).2
      (envelopes.records (buf ++ data)) :=
  (StreamState.pushGrpc_parses h.ok id data maxBody retained).answers hk h

/-! ## The outcome of a DATA frame -/

section Outcomes

variable {st : StreamState} {data left : Bytes} {rs : List Envelope} {maxBody : Nat}
  {endStream : Bool}
  (hk : GrpcParser.Kept K (captureLimit maxBody retained (st.grpcParser d)))
  (h : GrpcParser.Holds K (st.grpcParser d) buf) (id : Nat)
include hk h

/-- A frame that leaves no envelope under way, or does not end the stream, gives a message
for each record. -/
theorem grpcData_ok (hread : envelopes.records (buf ++ data) = (rs, some left))
    (hend : endStream = true → left = []) :
    ∃ ms, List.Forall₂ (GrpcParser.Tells K d id (st.path.getD "/unknown")) ms rs ∧
      (grpcDataOutcome d id endStream data maxBody retained st).result =
        .ok (ms ++ if endStream then endMessages d id else []) := by
  have hanswers := StreamState.pushGrpc_answers hk h id data
  rw [hread] at hanswers
  generalize hpush : st.pushGrpc d id data maxBody retained = r at hanswers
  obtain ⟨parser, result⟩ := r
  cases hanswers with
  | @ok _ ms _ _ hms hleft =>
    refine ⟨ms, hms, ?_⟩
    cases endStream with
    | false => simp [grpcDataOutcome, hpush]
    | true =>
      have hnone : parser.hasIncomplete = false := by
        rw [Bool.eq_false_iff, Ne, hleft.hasIncomplete]
        exact not_not_intro (hend rfl)
      simp [grpcDataOutcome, hpush, hnone]

/-- A frame with a head that is refused, or one that ends the stream inside an envelope,
gives no message. -/
theorem grpcData_lost
    (hbad : ∀ left, (envelopes.records (buf ++ data)).2 = some left →
      endStream = true ∧ left ≠ []) :
    ∃ reason, (grpcDataOutcome d id endStream data maxBody retained st).result = .error reason := by
  have hanswers := StreamState.pushGrpc_answers hk h id data
  generalize hpush : st.pushGrpc d id data maxBody retained = r at hanswers
  generalize envelopes.records (buf ++ data) = read at hanswers hbad
  obtain ⟨parser, result⟩ := r
  cases hanswers with
  | @error reason _ => exact ⟨reason, by simp [grpcDataOutcome, hpush]⟩
  | ok _ hleft =>
    obtain ⟨rfl, hne⟩ := hbad _ rfl
    have hincomplete : parser.hasIncomplete = true := hleft.hasIncomplete.mpr hne
    simp only [grpcDataOutcome, hpush, hincomplete, ↓reduceIte]
    exact ⟨_, rfl⟩

end Outcomes

/-! ## The parser after an event -/

/-- The parser of a direction after an event of its stream. -/
def parserAfter (mb retained : Nat) (d : Direction) (old : Option StreamState) :
    Event → GrpcParser
  | .data d' id _ data =>
    if (old.getD {}).grpc = true ∧ d' = d then ((old.getD {}).pushGrpc d id data mb retained).1
    else (old.getD {}).grpcParser d
  | .headers .. | .reset _ => (old.getD {}).grpcParser d

section Parser

variable {d' : Direction}

variable {mb : Nat} {old : Option StreamState} {st st' : StreamState}

theorem ended_next {n : Nat} {messages : List DecodedMessage}
    (h : (Outcome.ended d' st n messages).change.next old = some st') : st' = st := by
  cases d' with
  | clientToServer => exact (Option.some.inj h).symm
  | serverToClient => cases h

theorem grpcDataOutcome_grpcParser {id : Nat} {endStream : Bool} {data : Bytes}
    (h : (grpcDataOutcome d' id endStream data mb retained st).change.next (some st) = some st') :
    st' = st.setGrpcParser d' (st.pushGrpc d' id data mb retained).1 := by
  unfold grpcDataOutcome at h
  simp only at h
  split at h
  · exact (Option.some.inj h).symm
  · split at h
    · split at h
      · exact (Option.some.inj h).symm
      · exact ended_next h
    · exact (Option.some.inj h).symm

/-- The parser of a stream that is in the table after an event. -/
theorem outcome_grpcParser {full : Bool} {e : Event}
    (h : (outcome mb retained full old e).change.next old = some st') :
    st'.grpcParser d = parserAfter mb retained d old e := by
  have hyields := outcome_yields mb retained full old e
  generalize outcome mb retained full old e = o at hyields h
  have hpushed : ∀ {st : StreamState} {d' parser}, (st.setGrpcParser d' parser).grpcParser d =
      if d' = d then parser else st.grpcParser d := by
    intro st d' parser
    cases d <;> cases d' <;> rfl
  cases hyields with
  | reset => cases h
  | full hold | noStream hold => cases hold.symm.trans h
  | grpcHeaders | orphan =>
    cases h
    exact StreamState.grpcParser_marked ..
  | start | startEnd | trailers =>
    cases h
    rw [StreamState.grpcParser_setPending]
    exact StreamState.grpcParser_marked ..
  | grpcHeadersEnd =>
    rw [ended_next h]
    exact StreamState.grpcParser_marked ..
  | trailersEnd =>
    rw [ended_next h, StreamState.grpcParser_setPending]
    exact StreamState.grpcParser_marked ..
  | noMessage hold hg =>
    subst hold
    cases h
    simp [parserAfter, hg]
  | data hold hg =>
    cases h
    simp [parserAfter, hold, hg]
  | dataEnd hold hg =>
    rw [ended_next h]
    simp [parserAfter, hold, hg]
  | refused hold hg hpush | inside hold hg hpush | push hold hg hpush =>
    cases h
    rw [hpushed, parserAfter, hold, Option.getD_some, hg]
    split <;> simp_all
  | pushEnd hold hg hpush =>
    rw [ended_next h, hpushed, parserAfter, hold, Option.getD_some, hg]
    split <;> simp_all

end Parser

/-- The bytes of the envelope under way after an event of the stream. -/
def readOn (d : Direction) (old : Option StreamState) (buf : Bytes) : Event → Bytes
  | .data d' _ _ data =>
    if (old.getD {}).grpc = true ∧ d' = d then ((envelopes.records (buf ++ data)).2).getD []
    else buf
  | .headers .. | .reset _ => buf

/-- The parser and the bytes go on together. -/
theorem holds_readOn {mb : Nat} {old : Option StreamState} {e : Event}
    (hold : GrpcParser.Holds K ((old.getD {}).grpcParser d) buf)
    (hk : ∀ d' id endStream data, e = .data d' id endStream data → (old.getD {}).grpc = true →
      GrpcParser.Kept K (captureLimit mb retained ((old.getD {}).grpcParser d'))) :
    GrpcParser.Holds K (parserAfter mb retained d old e) (readOn d old buf e) := by
  cases e with
  | headers | reset => exact hold
  | data d' id endStream data =>
    simp only [parserAfter, readOn]
    by_cases hown : (old.getD {}).grpc = true ∧ d' = d
    · rw [if_pos hown, if_pos hown]
      obtain ⟨hg, rfl⟩ := hown
      have hanswers := StreamState.pushGrpc_answers (hk d' id endStream data rfl hg) hold id data
      generalize (old.getD {}).pushGrpc d' id data mb retained = r at hanswers ⊢
      generalize envelopes.records (buf ++ data) = read at hanswers ⊢
      obtain ⟨parser, result⟩ := r
      cases hanswers with
      | ok _ hleft => exact hleft
      | error => exact .init
    · rwa [if_neg hown, if_neg hown]

end Lens.Http2
