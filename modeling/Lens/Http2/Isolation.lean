import Lens.Http2.Arrivals
import Lens.Http2.Budget

/-!
# Streams do not influence each other

What a stream can feel of the others is the room in the table and the count of
captured bytes.  If a connection names at most `maxTrackedStreams` identifiers and
carries at most `maxInflightCapture` bytes of DATA, neither is ever felt.  The count is
at most the bytes that have come (`Table.counted_le`), so the rest of the budget is at
least the bytes still to come, and no capture is cut by it.

One trace of the count is left in the state: a gRPC payload keeps the limit of the
frame in which its envelope began.  `GrpcPayload.norm` forgets it.  The limit decides
only whether the finished message is marked as truncated, and an envelope that is ever
finished has no more bytes than were still to come, so its limit is not below its length
unless the cap is (`Loose`).
-/

namespace Lens.Http2

open List

/-! ## Payloads without their limits -/

namespace GrpcPayload

variable {mb : Nat} {q : GrpcPayload} {rest : Nat} {xs : Bytes}

/-- The payload with the cap as its limit. -/
def norm (mb : Nat) (q : GrpcPayload) : GrpcPayload := { q with maxBody := mb }

/-- If `rest` bytes are still to come, the payload is not finished beyond its limit. -/
structure Loose (mb rest : Nat) (q : GrpcPayload) : Prop where
  le : q.maxBody ≤ mb
  enough : mb ≤ q.maxBody ∨ q.length + rest ≤ q.maxBody + q.remaining

theorem Loose.mono {rest' : Nat} (h : q.Loose mb rest) (hle : rest' ≤ rest) : q.Loose mb rest' :=
  ⟨h.le, h.enough.imp_right (by omega)⟩

/-- A limit that does not cut the bytes. -/
theorem fill_norm {limit : Nat} (hle : limit ≤ mb)
    (h : limit = mb ∨ q.body.length + xs.length ≤ limit) :
    (q.norm mb).fill mb xs = (q.fill limit xs).norm mb := by
  rcases h with rfl | h
  · rfl
  · have hbody : xs.take (mb - q.body.length) = xs.take (limit - q.body.length) := by
      rw [take_of_length_le (by omega), take_of_length_le (by omega)]
    simp only [fill, norm, hbody]

theorem Loose.fill (h : q.Loose mb rest) (limit : Nat) (hlen : xs.length ≤ q.remaining)
    (hrest : xs.length ≤ rest) : (q.fill limit xs).Loose mb (rest - xs.length) := by
  refine ⟨h.le, h.enough.imp_right fun henough => ?_⟩
  simp only [GrpcPayload.fill]
  omega

/-- A finished payload is marked by the cap. -/
theorem Loose.finish (h : q.Loose mb rest) (hrem : q.remaining = 0) (d : Direction) (id : Nat)
    (path : String) : (q.norm mb).finish d id path = q.finish d id path := by
  have hflag : decide (mb < q.length) = decide (q.maxBody < q.length) := by
    have hle := h.le
    have henough := h.enough
    rw [decide_eq_decide]
    omega
  exact congrArg (DecodedMessage.mk _ _ _ _) hflag

end GrpcPayload

namespace GrpcParser

variable {mb : Nat} {p : GrpcParser} {rest' : Nat}

def norm (mb : Nat) (p : GrpcParser) : GrpcParser :=
  { p with pending := p.pending.map (GrpcPayload.norm mb) }

def Loose (mb rest : Nat) (p : GrpcParser) : Prop := ∀ q, p.pending = some q → q.Loose mb rest

theorem Loose.mono {rest : Nat} (h : p.Loose mb rest) (hle : rest' ≤ rest) :
    p.Loose mb rest' := fun q hq => (h q hq).mono hle

theorem Loose.none {rest : Nat} (h : p.pending = none) : p.Loose mb rest := by
  intro q hq
  rw [h] at hq
  cases hq

/-- A limit that cuts none of the bytes of a frame, nor of the bytes after it. -/
structure Ample (mb limit rest : Nat) (p : GrpcParser) (bytes : Bytes) : Prop where
  le : limit ≤ mb
  enough : limit = mb ∨ (p.retained + bytes.length ≤ limit ∧ rest ≤ limit)
  rest_le : bytes.length ≤ rest

variable {d : Direction} {id : Nat} {path : String} {limit rest : Nat} {p' : GrpcParser}
  {xs ys bytes : Bytes}

/-- The bytes after the first ones of a frame, for a parser without a payload. -/
theorem Ample.right (h : p.Ample mb limit rest (xs ++ ys)) (hp : p'.retained = 0) :
    p'.Ample mb limit (rest - xs.length) ys := by
  have henough := h.enough
  have hrest := h.rest_le
  rw [length_append] at henough hrest
  exact ⟨h.le, by omega, by omega⟩

/-- An envelope that begins under such a limit. -/
theorem Ample.ofHead (h : p.Ample mb limit rest (xs ++ ys)) (head : Bytes) :
    (GrpcPayload.ofHead head limit).Loose mb (rest - xs.length) := by
  refine ⟨h.le, h.enough.imp (fun heq => heq.ge) fun henough => ?_⟩
  simp only [GrpcPayload.ofHead]
  omega

theorem Parses.norm {r : Except String (List DecodedMessage)}
    (h : Parses d id path limit p bytes p' r) (hl : p.Loose mb rest)
    (ha : p.Ample mb limit rest bytes) :
    Parses d id path mb (p.norm mb) bytes (p'.norm mb) r ∧ p'.Loose mb (rest - bytes.length) := by
  induction h generalizing rest with
  | done => exact ⟨.done, hl.mono (Nat.sub_le _ _)⟩
  | @grows p q xs hq hlt =>
    have hroom : limit = mb ∨ q.body.length + xs.length ≤ limit := by
      have henough := ha.enough
      rw [retained_some hq] at henough
      exact henough.imp_right And.left
    have h : Parses d id path mb (p.norm mb) xs _ _ :=
      .grows (q := q.norm mb) (by simp [GrpcParser.norm, hq]) hlt
    rw [GrpcPayload.fill_norm ha.le hroom] at h
    refine ⟨h, fun q' hq' => ?_⟩
    obtain rfl := Option.some.inj hq'
    exact (hl q hq).fill limit hlt.le ha.rest_le
  | @ends p p' q xs ys r hq hlen _ ih =>
    obtain ⟨hnorm, hloose⟩ := ih (.none rfl) (ha.right rfl)
    have hroom : limit = mb ∨ q.body.length + xs.length ≤ limit := by
      have henough := ha.enough
      rw [retained_some hq, length_append] at henough
      exact henough.imp_right (by omega)
    have hxs : xs.length ≤ rest := by
      have hrest := ha.rest_le
      rw [length_append] at hrest
      omega
    have hfinish := ((hl q hq).fill limit hlen.le hxs).finish
      (by simp [GrpcPayload.fill, hlen]) d id path
    have h :=
      Parses.ends (p := p.norm mb) (q := q.norm mb) (by simp [GrpcParser.norm, hq]) hlen hnorm
    rw [GrpcPayload.fill_norm ha.le hroom, hfinish] at h
    rw [length_append, ← Nat.sub_sub]
    exact ⟨h, hloose⟩
  | @waits p xs hq hlt =>
    have hnorm : (p.norm mb).pending = none := by simp [GrpcParser.norm, hq]
    exact ⟨.waits hnorm hlt, .none hq⟩
  | @rejects p xs ys hq h5 hne hbad =>
    have hnorm : (p.norm mb).pending = none := by simp [GrpcParser.norm, hq]
    exact ⟨.rejects hnorm h5 hne hbad, .none hq⟩
  | @empty p p' xs ys r hq h5 hne hgood hlen _ ih =>
    have hpending : (p.norm mb).pending = none := by simp [GrpcParser.norm, hq]
    obtain ⟨hnorm, hloose⟩ := ih (.none rfl) (ha.right rfl)
    have hfinish := (ha.ofHead (p.prefixBytes ++ xs)).finish hlen d id path
    have h : Parses d id path mb (p.norm mb) (xs ++ ys) _ _ :=
      .empty hpending h5 hne hgood hlen hnorm
    rw [length_append, ← Nat.sub_sub]
    exact ⟨hfinish ▸ h, hloose⟩
  | @begins p p' xs ys r hq h5 hne hgood hlen _ ih =>
    have hpending : (p.norm mb).pending = none := by simp [GrpcParser.norm, hq]
    have hbegun : Loose mb (rest - xs.length)
        { pending := some (GrpcPayload.ofHead (p.prefixBytes ++ xs) limit) } := by
      intro q hq'
      obtain rfl := Option.some.inj hq'
      exact ha.ofHead _
    obtain ⟨hnorm, hloose⟩ := ih hbegun (ha.right rfl)
    rw [length_append, ← Nat.sub_sub]
    exact ⟨.begins hpending h5 hne hgood hlen hnorm, hloose⟩

theorem Ok.norm (h : p.Ok) : (p.norm mb).Ok := by
  refine ⟨h.short, fun q hq => ?_⟩
  obtain ⟨q', hq', rfl⟩ := Option.map_eq_some_iff.mp hq
  exact h.remaining q' hq'

@[simp] theorem hasIncomplete_norm (p : GrpcParser) :
    (p.norm mb).hasIncomplete = p.hasIncomplete := by
  simp [hasIncomplete, norm]

/-- Two parsers that differ only in limits which are not felt. -/
structure Similar (mb rest : Nat) (p p' : GrpcParser) : Prop where
  norm : p.norm mb = p'.norm mb
  left : p.Ok ∧ p.Loose mb rest
  right : p'.Ok ∧ p'.Loose mb rest

theorem Similar.init : Similar mb rest {} {} :=
  ⟨rfl, ⟨.init, .none rfl⟩, ⟨.init, .none rfl⟩⟩

theorem Similar.mono (h : Similar mb rest p p') (hle : rest' ≤ rest) : Similar mb rest' p p' :=
  ⟨h.norm, h.left.imp_right (·.mono hle), h.right.imp_right (·.mono hle)⟩

theorem Similar.hasIncomplete (h : Similar mb rest p p') : p.hasIncomplete = p'.hasIncomplete := by
  rw [← hasIncomplete_norm p, h.norm, hasIncomplete_norm]

/-- A push under a limit that is not felt is a push under the cap. -/
theorem push_norm (d : Direction) (id : Nat) (path : String) (hok : p.Ok) (hl : p.Loose mb rest)
    (ha : p.Ample mb limit rest bytes) : (p.norm mb).push d id path bytes mb =
        ((p.push d id path bytes limit).1.norm mb, (p.push d id path bytes limit).2) ∧
      (p.push d id path bytes limit).1.Loose mb (rest - bytes.length) := by
  obtain ⟨hparses, hloose⟩ := (push_parses (d := d) hok bytes).norm hl ha
  exact ⟨hparses.push_eq hok.norm, hloose⟩

theorem Similar.push {p p' : GrpcParser} {bytes : Bytes} {limit' : Nat}
    (h : Similar mb rest p p') (ha : p.Ample mb limit rest bytes)
    (ha' : p'.Ample mb limit' rest bytes) :
    (p.push d id path bytes limit).2 = (p'.push d id path bytes limit').2 ∧
      Similar mb (rest - bytes.length) (p.push d id path bytes limit).1
        (p'.push d id path bytes limit').1 := by
  obtain ⟨heq, hloose⟩ := push_norm d id path h.left.1 h.left.2 ha
  obtain ⟨heq', hloose'⟩ := push_norm d id path h.right.1 h.right.2 ha'
  rw [h.norm, heq'] at heq
  obtain ⟨hnorm, hresult⟩ := Prod.mk.inj heq
  exact ⟨hresult.symm, hnorm.symm, ⟨h.left.1.push bytes, hloose⟩, ⟨h.right.1.push bytes, hloose'⟩⟩

/-- The limit of a frame is not felt if the budget has room for the bytes to come. -/
theorem captureLimit_ample {retained : Nat} (hp : p.retained ≤ retained)
    (hroom : retained + rest ≤ maxInflightCapture) (hrest : bytes.length ≤ rest) :
    p.Ample mb (captureLimit mb retained p) rest bytes := by
  have hadd : saturatingAdd p.retained (maxInflightCapture - retained) =
      p.retained + (maxInflightCapture - retained) := saturatingAdd_of_le (by omega)
  rw [captureLimit, hadd]
  exact ⟨min_le_left _ _, by omega, hrest⟩

end GrpcParser

/-! ## Two streams that cannot be told apart -/

namespace StreamState

variable {mb rest : Nat}

structure Similar (mb rest : Nat) (st st' : StreamState) : Prop where
  grpc : st.grpc = st'.grpc
  path : st.path = st'.path
  pending : ∀ d, st.pending d = st'.pending d
  parser : ∀ d, (st.grpcParser d).Similar mb rest (st'.grpcParser d)

variable {st st' : StreamState} {rest' : Nat}

theorem Similar.mono (h : st.Similar mb rest st') (hle : rest' ≤ rest) : st.Similar mb rest' st' :=
  ⟨h.grpc, h.path, h.pending, fun d => (h.parser d).mono hle⟩

theorem Similar.empty : Similar mb rest {} {} :=
  ⟨rfl, rfl, fun _ => rfl, fun d => by cases d <;> exact .init⟩

theorem Similar.setPending (h : st.Similar mb rest st') (d : Direction)
    (p : Option PendingMessage) :
    (st.setPending d p).Similar mb rest (st'.setPending d p) where
  grpc := by cases d <;> exact h.grpc
  path := by cases d <;> exact h.path
  pending d' := by
    by_cases hd : d' = d
    · subst hd
      simp
    · rw [pending_setPending_other st hd, pending_setPending_other st' hd, h.pending]
  parser d' := by simpa using h.parser d'

theorem Similar.setGrpcParser (h : st.Similar mb rest st') (d : Direction) {p p' : GrpcParser}
    (hp : p.Similar mb rest' p') (hle : rest' ≤ rest) :
    (st.setGrpcParser d p).Similar mb rest' (st'.setGrpcParser d p') where
  grpc := by cases d <;> exact h.grpc
  path := by cases d <;> exact h.path
  pending d' := by simpa using h.pending d'
  parser d' := by
    by_cases hd : d' = d
    · subst hd
      simpa using hp
    · rw [grpcParser_setGrpcParser_other st hd, grpcParser_setGrpcParser_other st' hd]
      exact (h.parser d').mono hle

theorem Similar.marked {old old' : Option StreamState} (h : Option.Rel (Similar mb rest) old old')
    (hs : Headers) :
    (StreamState.marked old hs).Similar mb rest (.marked old' hs) := by
  have hold : (old.getD {}).Similar mb rest (old'.getD {}) := by
    cases h with
    | none => exact .empty
    | some h => exact h
  exact ⟨congrArg (· || marksGrpc hs) hold.grpc, congrArg (Option.or _) hold.path, hold.pending,
    hold.parser⟩

end StreamState

/-- Two changes that leave similar entries. -/
inductive Change.Similar (mb rest : Nat) : Change → Change → Prop where
  | keep : Similar mb rest .keep .keep
  | put {st st' : StreamState} : st.Similar mb rest st' → Similar mb rest (.put st) (.put st')
  | remove : Similar mb rest .remove .remove

variable {mb rest retained : Nat} {old old' : Option StreamState}

theorem Change.Similar.next {rest' : Nat} {c c' : Change} (h : c.Similar mb rest' c')
    (hold : Option.Rel (StreamState.Similar mb rest) old old') (hle : rest' ≤ rest) :
    Option.Rel (StreamState.Similar mb rest') (c.next old) (c'.next old') := by
  cases h with
  | remove => exact .none
  | put h => exact .some h
  | keep =>
    cases hold with
    | none => exact .none
    | some h => exact .some (h.mono hle)

/-- Two outcomes that differ only in the count. -/
structure Outcome.Similar (mb rest : Nat) (o o' : Outcome) : Prop where
  change : o.change.Similar mb rest o'.change
  result : o.result = o'.result

section Outcomes

variable {retained' : Nat} {st st' : StreamState} {data : Bytes}

theorem Outcome.Similar.put (h : st.Similar mb rest st')
    (result : Except String (List DecodedMessage)) :
    Outcome.Similar mb rest ⟨.put st, retained, result⟩ ⟨.put st', retained', result⟩ :=
  ⟨.put h, rfl⟩

theorem Outcome.Similar.ended (h : st.Similar mb rest st') (d : Direction)
    (messages : List DecodedMessage) :
    Outcome.Similar mb rest (.ended d st retained messages) (.ended d st' retained' messages) := by
  cases d with
  | clientToServer => exact .put h _
  | serverToClient => exact ⟨.remove, rfl⟩

theorem headersOutcome_similar (h : st.Similar mb rest st') (d : Direction) (id : Nat)
    (endStream : Bool) (hs : Headers) :
    (headersOutcome d id endStream hs retained st).Similar mb rest
      (headersOutcome d id endStream hs retained' st') := by
  have hmessage : grpcMessage d id st hs = grpcMessage d id st' hs := by
    simp only [grpcMessage, h.path]
  unfold headersOutcome
  rw [← h.grpc, ← hmessage, ← h.pending d]
  by_cases hg : st.grpc = true
  · simp only [if_pos hg]
    cases endStream with
    | false => exact .put h _
    | true => exact .ended h d _
  simp only [if_neg hg]
  cases startLine hs with
  | some line =>
    cases endStream with
    | false => exact .put (h.setPending d _) _
    | true => exact .put (h.setPending d _) _
  | none =>
    cases st.pending d with
    | none => exact .put h _
    | some p =>
      cases endStream with
      | false => exact .put (h.setPending d _) _
      | true => exact .ended (h.setPending d _) d _

/-- What a message under way takes of a frame that the budget has room for. -/
theorem capturable_of_le {p : PendingMessage} (hroom : retained + rest ≤ maxInflightCapture)
    (hrest : data.length ≤ rest) :
    capturable mb retained p data = min (mb - p.body.length) data.length := by
  rw [capturable]
  omega

theorem plainDataOutcome_similar (h : st.Similar mb rest st') (d : Direction) (id : Nat)
    (endStream : Bool) (hrest : data.length ≤ rest) (hroom : retained + rest ≤ maxInflightCapture)
    (hroom' : retained' + rest ≤ maxInflightCapture) :
    (plainDataOutcome d id endStream data mb retained st).Similar mb (rest - data.length)
      (plainDataOutcome d id endStream data mb retained' st') := by
  have hnext := h.mono (Nat.sub_le rest data.length)
  unfold plainDataOutcome
  rw [← h.pending d]
  cases st.pending d with
  | none => exact ⟨.keep, rfl⟩
  | some p =>
    have hextend : p.extend mb retained data = p.extend mb retained' data := by
      simp only [PendingMessage.extend, capturable_of_le hroom hrest, capturable_of_le hroom' hrest]
    simp only [hextend]
    cases endStream with
    | false => exact .put (hnext.setPending d _) _
    | true => exact .ended (hnext.setPending d _) d _

theorem grpcDataOutcome_similar (h : st.Similar mb rest st') (d : Direction) (id : Nat)
    (endStream : Bool) (hrest : data.length ≤ rest) (hheld : st.retainedBodyBytes ≤ retained)
    (hheld' : st'.retainedBodyBytes ≤ retained') (hroom : retained + rest ≤ maxInflightCapture)
    (hroom' : retained' + rest ≤ maxInflightCapture) :
    (grpcDataOutcome d id endStream data mb retained st).Similar mb (rest - data.length)
      (grpcDataOutcome d id endStream data mb retained' st') := by
  have hp := (st.grpcParser_retained_le d).trans hheld
  have hp' := (st'.grpcParser_retained_le d).trans hheld'
  have hpush : (st.pushGrpc d id data mb retained).2 = (st'.pushGrpc d id data mb retained').2 ∧
      GrpcParser.Similar mb (rest - data.length) (st.pushGrpc d id data mb retained).1
        (st'.pushGrpc d id data mb retained').1 := by
    simp only [StreamState.pushGrpc, h.path]
    exact (h.parser d).push (GrpcParser.captureLimit_ample hp hroom hrest)
      (GrpcParser.captureLimit_ample hp' hroom' hrest)
  obtain ⟨hresult, hparser⟩ := hpush
  have hnext := h.setGrpcParser d hparser (Nat.sub_le _ _)
  unfold grpcDataOutcome
  simp only [← hresult, ← hparser.hasIncomplete]
  cases (st.pushGrpc d id data mb retained).2 with
  | error reason => exact .put hnext _
  | ok messages =>
    cases endStream with
    | false => exact .put hnext _
    | true =>
      simp only [↓reduceIte]
      split
      · exact .put hnext _
      · exact .ended hnext d _

end Outcomes

/-- The bytes of DATA that an event carries. -/
def Event.dataLength : Event → Nat
  | .data _ _ _ payload => payload.length
  | .headers .. | .reset _ => 0

/-- The bytes of DATA that a sequence of events carries. -/
def dataBytes (es : List Event) : Nat := (es.map Event.dataLength).sum

@[simp] theorem dataBytes_cons (e : Event) (es : List Event) :
    dataBytes (e :: es) = e.dataLength + dataBytes es := by
  simp [dataBytes]

theorem dataBytes_filter_le (es : List Event) (P : Event → Bool) :
    dataBytes (es.filter P) ≤ dataBytes es :=
  (es.filter_sublist.map Event.dataLength).sum_le_sum (by simp)

/-- Neither the room in the table nor the budget is felt. -/
theorem outcome_similar {retained' : Nat} (h : Option.Rel (StreamState.Similar mb rest) old old')
    (e : Event) (hrest : e.dataLength ≤ rest) (hheld : bytesOf old ≤ retained)
    (hheld' : bytesOf old' ≤ retained') (hroom : retained + rest ≤ maxInflightCapture)
    (hroom' : retained' + rest ≤ maxInflightCapture) :
    (outcome mb retained false old e).Similar mb (rest - e.dataLength)
      (outcome mb retained' false old' e) := by
  cases e with
  | reset id => exact ⟨.remove, rfl⟩
  | headers d id endStream hs =>
    simp only [outcome, Bool.and_false, Bool.false_eq_true, ↓reduceIte]
    exact headersOutcome_similar (.marked h hs) d id endStream hs
  | data d id endStream data =>
    cases h with
    | none => exact ⟨.keep, rfl⟩
    | @some st st' h =>
      simp only [outcome, ← h.grpc]
      split
      · exact grpcDataOutcome_similar h d id endStream hrest hheld hheld' hroom hroom'
      · exact plainDataOutcome_similar h d id endStream hrest hroom hroom'

/-! ## Two runs of a stream -/

/-- Every arrival finds room in the table, and in the budget for all that comes. -/
def Roomy (mb : Nat) : Option StreamState → List Arrival → Prop
  | _, [] => True
  | old, a :: as =>
    a.full = false ∧ bytesOf old ≤ a.retained ∧
      a.retained + dataBytes (a.event :: as.map Arrival.event) ≤ maxInflightCapture ∧
      Roomy mb ((arrive mb old a).change.next old) as

/-- The results of a stream with room are those of its events alone. -/
theorem streamResults_similar {as as' : List Arrival}
    (hevents : as.map Arrival.event = as'.map Arrival.event)
    (h : Option.Rel (StreamState.Similar mb (dataBytes (as.map Arrival.event))) old old')
    (hroom : Roomy mb old as) (hroom' : Roomy mb old' as') :
    streamResults mb old as = streamResults mb old' as' := by
  induction as generalizing old old' as' with
  | nil =>
    obtain rfl := map_eq_nil_iff.mp hevents.symm
    rfl
  | cons a as ih =>
    obtain ⟨a', as', rfl, hevent, hevents⟩ := map_eq_cons_iff.mp hevents.symm
    obtain ⟨hfull, hheld, hle, hroom⟩ := hroom
    obtain ⟨hfull', hheld', hle', hroom'⟩ := hroom'
    rw [map_cons, dataBytes_cons] at h
    rw [dataBytes_cons] at hle
    rw [hevent, hevents, dataBytes_cons] at hle'
    have hsimilar : (arrive mb old a).Similar mb (dataBytes (as.map Arrival.event))
        (arrive mb old' a') := by
      have hout := outcome_similar h a.event (Nat.le_add_right _ _) hheld hheld' hle hle'
      rw [Nat.add_sub_cancel_left] at hout
      rwa [arrive, arrive, hfull, hfull', hevent]
    rw [streamResults, streamResults, hsimilar.result]
    congr 1
    exact ih hevents.symm (hsimilar.change.next h (Nat.le_add_left _ _)) hroom hroom'

/-! ## The table -/

theorem saturatingAdd_le (a b : Nat) : saturatingAdd a b ≤ a + b := min_le_left _ _

theorem GrpcParser.Parses.retained_le_add {d : Direction} {id : Nat} {path : String} {limit : Nat}
    {p p' : GrpcParser} {bytes : Bytes} {r : Except String (List DecodedMessage)}
    (h : Parses d id path limit p bytes p' r) : p'.retained ≤ p.retained + bytes.length := by
  induction h with
  | done => exact Nat.le_add_right _ _
  | grows hq hlt =>
    rw [retained_some hq]
    simp only [retained, Option.map_some, Option.getD_some, GrpcPayload.fill, length_append,
      length_take]
    omega
  | waits hq hlt => exact Nat.le_add_right _ _
  | rejects hq => exact Nat.le_add_right _ _
  | ends _ _ _ ih | empty _ _ _ _ _ _ ih | begins _ _ _ _ _ _ ih =>
    rw [length_append]
    have hzero := ih
    simp only [retained, Option.map_none, Option.map_some, Option.getD_none, Option.getD_some,
      GrpcPayload.ofHead, length_nil] at hzero ⊢
    omega

theorem Outcome.ended_retained_le (d : Direction) (st : StreamState) (retained : Nat)
    (messages : List DecodedMessage) :
    (Outcome.ended d st retained messages).retained ≤ retained := by
  cases d with
  | clientToServer => exact le_refl _
  | serverToClient => exact Nat.sub_le _ _

/-- The count grows by no more than the DATA of the event. -/
theorem outcome_retained_le (full : Bool) (e : Event)
    (hok : ∀ st, old = some st → ∀ d, (st.grpcParser d).Ok) (hheld : bytesOf old ≤ retained) :
    (outcome mb retained full old e).retained ≤ retained + e.dataLength := by
  have hyields := outcome_yields mb retained full old e
  generalize outcome mb retained full old e = o at hyields ⊢
  have hplain : ∀ (p : PendingMessage) (data : Bytes),
      saturatingAdd retained (capturable mb retained p data) ≤
        retained + data.length := fun p data =>
    (saturatingAdd_le _ _).trans (Nat.add_le_add_left (min_le_right _ _) _)
  have hgrpc : ∀ {st d id data parser result}, old = some st →
      st.pushGrpc d id data mb retained = (parser, result) →
      saturatingAdd (retained - (st.grpcParser d).retained) parser.retained ≤
        retained + data.length := by
    intro st d id data parser result hold hpush
    subst hold
    have hp := (st.grpcParser_retained_le d).trans hheld
    have hparses := (StreamState.parses_of_push (hok st rfl d) hpush).1.retained_le_add
    exact (saturatingAdd_le _ _).trans (by omega)
  cases hyields with
  | grpcHeadersEnd => exact Outcome.ended_retained_le ..
  | trailersEnd => exact (Outcome.ended_retained_le ..).trans (Nat.sub_le _ _)
  | data _ _ _ => exact hplain _ _
  | dataEnd _ _ _ =>
    exact (Outcome.ended_retained_le ..).trans ((Nat.sub_le _ _).trans (hplain _ _))
  | inside hold _ hpush | push hold _ hpush => exact hgrpc hold hpush
  | pushEnd hold _ hpush => exact (Outcome.ended_retained_le ..).trans (hgrpc hold hpush)
  | _ => exact Nat.le_add_right ..

namespace Table

variable {t : Table} {es : List Event}

theorem Covered.held_lookup (h : t.Covered) (id : Nat) :
    bytesOf (t.streams.lookup id) ≤ t.retainedBodyBytes := by
  have herase := held_erase t.streams id
  have hle := h.held_le
  omega

theorem Covered.counted_le (h : t.Covered) (e : Event) :
    (t.apply e).retainedBodyBytes ≤ t.retainedBodyBytes + e.dataLength :=
  outcome_retained_le t.full e (fun st hst => (h.ok e.id st hst).parser) (h.held_lookup e.id)

/-- A connection with few identifiers and no more DATA than the budget leaves room for
each of its streams. -/
theorem arrivals_roomy {ids : Finset Nat} (id : Nat) (hfew : t.Fewer ids es) (h : t.Covered)
    (hdata : t.retainedBodyBytes + dataBytes es ≤ maxInflightCapture) :
    Roomy t.maxBody (t.streams.lookup id) (t.arrivals id es) := by
  induction es generalizing t with
  | nil => trivial
  | cons e es ih =>
    have hcount := h.counted_le e
    have hall := hdata
    rw [dataBytes_cons] at hdata
    have hrest := ih hfew.apply (h.apply e) (by omega)
    by_cases hid : e.id = id
    · have hfull : ∀ a ∈ t.arrivals id (e :: es), a.full = false := arrivals_full hfew
      have hown := arrivals_map_event t id (e :: es)
      rw [arrivals_self t hid] at hfull hown ⊢
      rw [map_cons] at hown
      refine ⟨hfull _ (mem_cons_self ..), h.held_lookup id, ?_, ?_⟩
      · rw [hown]
        exact (Nat.add_le_add_left (dataBytes_filter_le _ _) _).trans hall
      · have hlookup := lookup_apply_self t e
        rw [hid] at hlookup
        rw [arrive_eq t hid, ← hlookup]
        exact hrest
    · rw [arrivals_other t hid, ← lookup_apply_ne t e (Ne.symm hid)]
      exact hrest

/-- The results of a stream are those of its events on their own. -/
theorem resultsFor_alone (mb id : Nat) (hids : (es.map Event.id).toFinset.card ≤ maxTrackedStreams)
    (hdata : dataBytes es ≤ maxInflightCapture) : (Table.new mb).resultsFor id es =
      (Table.new mb).resultsFor id (es.filter fun e => e.id = id) := by
  have hsub : ((es.filter fun e => e.id = id).map Event.id).toFinset ⊆ (es.map Event.id).toFinset :=
    fun x hx => mem_toFinset.mpr
      ((es.filter_sublist.map Event.id).subset (mem_toFinset.mp hx))
  have hroom : ∀ es', (es'.map Event.id).toFinset.card ≤ maxTrackedStreams →
      dataBytes es' ≤ maxInflightCapture →
      Roomy mb none ((Table.new mb).arrivals id es') := by
    intro es' hids' hdata'
    exact arrivals_roomy id (.new mb hids') (.new mb) (by simpa [Table.new] using hdata')
  rw [resultsFor_eq, resultsFor_eq]
  refine streamResults_similar ?_ .none (hroom es hids hdata)
    (hroom _ ((Finset.card_le_card hsub).trans hids) ((dataBytes_filter_le _ _).trans hdata))
  rw [arrivals_map_event, arrivals_map_event, filter_filter]
  simp

end Table

/-! ## Decoded blocks and frames -/

/-- A header block as its decoded list, or a frame that is not part of a block. -/
inductive Input where
  | block (direction : Direction) (id : Nat) (endStream : Bool) (headers : Headers)
  | data (direction : Direction) (flags : UInt8) (id : Nat) (payload : Bytes)
  | reset (direction : Direction) (flags : UInt8) (id : Nat) (payload : Bytes)
deriving DecidableEq, Repr

namespace Input

def id : Input → Nat
  | .block _ id _ _ => id
  | .data _ _ id _ => id
  | .reset _ _ id _ => id

/-- The event of an input.  A DATA frame on stream 0 or with bad padding has none. -/
def event : Input → Option Event
  | .block d id endStream hs => some (.headers d id endStream hs)
  | .data d flags id payload =>
    if id = 0 then none
    else (dataFragment ⟨frameData, flags, id, payload⟩).toOption.map
      (.data d id (Frame.has ⟨frameData, flags, id, payload⟩ flagEndStream))
  | .reset _ _ id _ => some (.reset id)

/-- The bytes of DATA that an input carries, without padding. -/
def dataLength (i : Input) : Nat := (i.event.map Event.dataLength).getD 0

theorem id_of_event {i : Input} {e : Event} (h : i.event = some e) : e.id = i.id := by
  cases i with
  | block => cases h; rfl
  | reset => cases h; rfl
  | data d flags id payload =>
    rw [event] at h
    split at h
    · cases h
    · obtain ⟨data, -, rfl⟩ := Option.map_eq_some_iff.mp h
      rfl

/-- The events of the inputs of a stream are the events of the stream. -/
theorem filterMap_event_filter (id : Nat) (inputs : List Input) :
    (inputs.filter fun i => i.id = id).filterMap event =
      (inputs.filterMap event).filter fun e => e.id = id := by
  induction inputs with
  | nil => rfl
  | cons i inputs ih =>
    cases he : i.event with
    | none => by_cases hid : i.id = id <;> simp [hid, he, ih]
    | some e =>
      have heid := id_of_event he
      by_cases hid : i.id = id <;> simp [hid, he, heid, ih]

theorem dataBytes_filterMap_event (inputs : List Input) :
    dataBytes (inputs.filterMap event) = (inputs.map dataLength).sum := by
  induction inputs with
  | nil => rfl
  | cons i inputs ih => cases he : i.event <;> simp [he, ih, dataLength]

theorem ids_filterMap_event (inputs : List Input) :
    ((inputs.filterMap event).map Event.id).toFinset ⊆ (inputs.map id).toFinset := by
  intro x hx
  obtain ⟨e, he, rfl⟩ := mem_map.mp (mem_toFinset.mp hx)
  obtain ⟨i, hi, hie⟩ := mem_filterMap.mp he
  rw [id_of_event hie]
  exact mem_toFinset.mpr (mem_map_of_mem hi)

end Input

namespace Http2Decoder

variable {η : Type} {s : Http2Decoder η} {i : Input}

/-- The decoder after an input. -/
def input (hp : Hpack η) (s : Http2Decoder η) : Input → Handled η
  | .block d id endStream hs => s.applyHeaders d id endStream hs
  | .data d flags id payload => s.handleFrame hp d ⟨frameData, flags, id, payload⟩
  | .reset d flags id payload => s.handleFrame hp d ⟨frameRstStream, flags, id, payload⟩

/-- The messages that the inputs of a stream give in a sequence of inputs. -/
def emitted (hp : Hpack η) (id : Nat) : Http2Decoder η → List Input → List DecodedMessage
  | _, [] => []
  | s, i :: inputs =>
    (if i.id = id then gives (s.input hp i).2 else []) ++ emitted hp id (s.input hp i).1 inputs

/-- No header block is open. -/
def Closed (s : Http2Decoder η) : Prop := ∀ d, (s.state d).continuation = none

/-- A frame that is not part of a block finds its handler. -/
theorem handleFrame_closed (hp : Hpack η) (h : s.Closed) (d : Direction) (flags : UInt8) (id : Nat)
    (payload : Bytes) : s.handleFrame hp d ⟨frameData, flags, id, payload⟩ =
        s.handleData d ⟨frameData, flags, id, payload⟩ ∧
      s.handleFrame hp d ⟨frameRstStream, flags, id, payload⟩ = s.observe (.reset id) := by
  simp only [handleFrame, h d, Option.isSome_none, Bool.false_eq_true, false_and, ↓reduceIte]
  exact ⟨rfl, rfl⟩

/-- An input with an event is that event. -/
theorem input_eq (hp : Hpack η) (h : s.Closed) {e : Event} (he : i.event = some e) :
    s.input hp i = s.observe e := by
  cases i with
  | block d id endStream hs =>
    cases he
    exact s.applyHeaders_eq d id endStream hs
  | reset d flags id payload =>
    cases he
    exact (handleFrame_closed hp h d flags id payload).2
  | data d flags id payload =>
    rw [Input.event] at he
    split at he
    · cases he
    · rename_i hid
      obtain ⟨data, hdata, rfl⟩ := Option.map_eq_some_iff.mp he
      rw [input, (handleFrame_closed hp h d flags id payload).1]
      refine s.handleData_eq d _ data hid ?_
      cases hf : dataFragment ⟨frameData, flags, id, payload⟩ with
      | error reason => simp [hf, Except.toOption] at hdata
      | ok data' => simpa [hf, Except.toOption] using hdata

/-- An input without an event is a fault and leaves the decoder as it was. -/
theorem input_none (hp : Hpack η) (h : s.Closed) (he : i.event = none) :
    ∃ reason, s.input hp i = (s, .error reason) := by
  cases i with
  | block => cases he
  | reset => cases he
  | data d flags id payload =>
    rw [Input.event] at he
    rw [input, (handleFrame_closed hp h d flags id payload).1]
    split at he
    · exact ⟨_, if_pos ‹_›⟩
    · rename_i hid
      cases hf : dataFragment ⟨frameData, flags, id, payload⟩ with
      | error reason => exact ⟨reason, by simp [handleData, hid, hf]⟩
      | ok data => simp [hf, Except.toOption] at he

theorem Closed.observe (h : s.Closed) (e : Event) : (s.observe e).1.Closed := by
  intro d
  rw [Http2Decoder.observe, state_withTable]
  exact h d

/-- The messages of a stream are those of the events of the inputs. -/
theorem emitted_eq (hp : Hpack η) (id : Nat) (h : s.Closed) (inputs : List Input) :
    s.emitted hp id inputs = s.table.messagesFor id (inputs.filterMap Input.event) := by
  induction inputs generalizing s with
  | nil => rfl
  | cons i inputs ih =>
    rw [emitted]
    cases he : i.event with
    | none =>
      obtain ⟨reason, hi⟩ := input_none hp h he
      rw [hi, ih h, filterMap_cons_none he]
      simp [gives]
    | some e =>
      rw [input_eq hp h he, ih (h.observe e), filterMap_cons_some he, Http2Decoder.observe,
        table_withTable, ← Input.id_of_event he, Table.messagesFor, Table.messagesFor]
      by_cases hid : e.id = id
      · rw [Table.resultsFor_self _ hid, if_pos hid, flatMap_cons]
      · rw [Table.resultsFor_other _ hid, if_neg hid, nil_append]

theorem Closed.new (hp : Hpack η) (maxBody : Nat) : (Http2Decoder.new hp maxBody).Closed := by
  intro d
  cases d <;> rfl

/-- The messages of a stream do not depend on what the other streams carry. -/
theorem emitted_eq_alone (hp : Hpack η) (maxBody id : Nat) (inputs : List Input)
    (hids : (inputs.map Input.id).toFinset.card ≤ maxTrackedStreams)
    (hdata : (inputs.map Input.dataLength).sum ≤ maxInflightCapture) :
    (new hp maxBody).emitted hp id inputs =
      (new hp maxBody).emitted hp id (inputs.filter fun i => i.id = id) := by
  have hcard := (Finset.card_le_card (Input.ids_filterMap_event inputs)).trans hids
  have hbytes := (Input.dataBytes_filterMap_event inputs).trans_le hdata
  rw [emitted_eq hp id (.new hp maxBody), emitted_eq hp id (.new hp maxBody),
    Input.filterMap_event_filter, Table.messagesFor, Table.messagesFor]
  exact congrArg _ (Table.resultsFor_alone maxBody id hcard hbytes)

/-- A request on stream 1, between the frames of a gRPC stream with a bad flag and of a
stream that is not open. -/
def mixedInputs : List Input :=
  [.block .clientToServer 3 false [(":method", "POST"), (":path", "/a"),
    ("content-type", "application/grpc")],
    .block .clientToServer 1 false [(":method", "POST"), (":path", "/b")],
    .data .clientToServer 0 3 [9, 0, 0, 0, 1, 7],
    .data .clientToServer 0 1 [1, 2],
    .data .clientToServer flagPadded 5 [200],
    .reset .serverToClient 0 3 [0, 0, 0, 0],
    .data .clientToServer flagEndStream 1 [3]]

theorem mixedInputs_emitted_eq_alone :
    ((new (.always []) 2).emitted (.always []) 1 mixedInputs).map (·.body) = [[1, 2]] ∧
      (new (.always []) 2).emitted (.always []) 1 mixedInputs =
        (new (.always []) 2).emitted (.always []) 1 (mixedInputs.filter fun i => i.id = 1) :=
  ⟨by decide +kernel, emitted_eq_alone _ 2 1 mixedInputs (by decide) (by decide +kernel)⟩

end Http2Decoder

end Lens.Http2
