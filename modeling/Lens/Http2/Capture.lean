import Lens.Http2.Dropped
import Lens.Http2.Roundtrip

/-!
# Captured bodies

A message captures the DATA of its stream up to the cap and to what is left of the
budget that all streams share.  `received` is what there was to capture: the DATA of a
stream and direction since its last initial headers, as the wire has it.

Capture may stop because other streams have used up the budget, and go on with a later
frame once they have given it back.  The body then has a gap, as it has when a DATA frame
is dropped.  As long as a message that has lost bytes finds no room again (`captureEnds`)
and no DATA is dropped, a body is a prefix of the data, and it is marked as truncated if
and only if it is a proper one (`bodies_honest`).
-/

namespace Lens.Http2

open List

variable {d : Direction}

/-! ## What a message could capture -/

/-- The data since the last initial headers, after one more event. -/
def sinceHeaders (d : Direction) (id : Nat) (sofar : Bytes) : Event → Bytes
  | .headers d' id' _ hs => if d' = d ∧ id' = id ∧ (startLine hs).isSome then [] else sofar
  | .data d' id' _ data => if d' = d ∧ id' = id then sofar ++ data else sofar
  | .reset _ => sofar

/-- The DATA of a stream and direction since its last initial headers. -/
def received (d : Direction) (id : Nat) (es : List Event) : Bytes :=
  es.foldl (sinceHeaders d id) []

@[simp] theorem received_append (d : Direction) (id : Nat) (es : List Event) (e : Event) :
    received d id (es ++ [e]) = sinceHeaders d id (received d id es) e := by
  simp [received]

theorem sinceHeaders_ne {id : Nat} {e : Event} (h : e.id ≠ id)
    (sofar : Bytes) : sinceHeaders d id sofar e = sofar := by
  cases e with
  | headers d' id' endStream hs => exact if_neg fun h' => h h'.2.1
  | data d' id' endStream data => exact if_neg fun h' => h h'.2
  | reset id' => rfl

/-- The body is a prefix of the data, and marked if and only if it is a proper one. -/
structure Honest (data body : Bytes) (truncated : Bool) : Prop where
  start : body <+: data
  flag : truncated = true ↔ body ≠ data

theorem Honest.nil : Honest [] [] false := ⟨prefix_refl _, by simp⟩

/-- A frame keeps a message honest, if a message that has lost bytes takes none of it. -/
theorem Honest.extend {data : Bytes} {p : PendingMessage} (h : Honest data p.body p.truncated)
    (mb retained : Nat) (more : Bytes)
    (hlost : p.truncated = true → capturable mb retained p more = 0) :
    Honest (data ++ more) (p.extend mb retained more).body
      (p.extend mb retained more).truncated := by
  cases htr : p.truncated with
  | true =>
    have hne := h.flag.mp htr
    simp only [PendingMessage.extend, hlost htr, take_zero, append_nil, htr, Bool.true_or]
    refine ⟨h.start.trans (prefix_append _ _), iff_of_true rfl fun heq => hne ?_⟩
    -- The data is not longer than the body, so the two are equal.
    exact h.start.eq_of_length_le (by rw [heq, length_append]; omega)
  | false =>
    have hbody : p.body = data := by
      by_contra hne
      exact absurd (h.flag.mpr hne) (by simp [htr])
    simp only [PendingMessage.extend, hbody, htr, Bool.false_or]
    refine ⟨(prefix_append_right_inj data).mpr <| take_prefix _ _, ?_⟩
    rw [Ne, append_cancel_left_eq, take_eq_self_iff, decide_eq_true_iff]
    exact Nat.not_le.symm

/-! ## One event -/

/-- The stream is not a gRPC one when the event is handled. -/
def isPlain (old : Option StreamState) : Event → Bool
  | .headers _ _ _ hs => !(StreamState.marked old hs).grpc
  | .data .. | .reset _ => !(old.getD {}).grpc

/-- The messages under way on a stream that is not gRPC are honest. -/
def StreamState.Honest (data : Direction → Bytes) (st : StreamState) : Prop :=
  st.grpc = false → ∀ d p, st.pending d = some p → Http2.Honest (data d) p.body p.truncated

theorem StreamState.Honest.setPending {data : Direction → Bytes} {st : StreamState}
    (h : st.Honest data) {x : Bytes} {p : Option PendingMessage}
    (hp : st.grpc = false → ∀ q, p = some q → Http2.Honest x q.body q.truncated) :
    (st.setPending d p).Honest (Function.update data d x) := by
  intro hg d' q hq
  have hgrpc : st.grpc = false := by cases d <;> exact hg
  by_cases hdd : d' = d
  · subst hdd
    rw [pending_setPending] at hq
    rw [Function.update_self]
    exact hp hgrpc q hq
  · rw [pending_setPending_other st hdd] at hq
    rw [Function.update_of_ne hdd]
    exact h hgrpc d' q hq

/-- An outcome leaves an honest stream and gives honest messages. -/
structure Outcome.Honest (data : Direction → Bytes) (old : Option StreamState) (e : Event)
    (o : Outcome) : Prop where
  next : ∀ st, o.change.next old = some st → st.Honest data
  messages : isPlain old e = true → ∀ d, e.direction = some d → ∀ m ∈ gives o.result,
    Http2.Honest (data d) m.body m.truncated

section Outcomes

variable {data : Direction → Bytes} {old : Option StreamState} {e : Event} {st : StreamState}
  {retained : Nat} {mb : Nat}

theorem Outcome.Honest.put (h : st.Honest data) {result : Except String (List DecodedMessage)}
    (hm : isPlain old e = true → ∀ d, e.direction = some d → ∀ m ∈ gives result,
      Http2.Honest (data d) m.body m.truncated) :
    Outcome.Honest data old e ⟨.put st, retained, result⟩ where
  next _ h' := Option.some.inj h' ▸ h
  messages := hm

theorem Outcome.Honest.ended (h : st.Honest data) (d : Direction) {messages : List DecodedMessage}
    (hm : isPlain old e = true → ∀ d, e.direction = some d → ∀ m ∈ messages,
      Http2.Honest (data d) m.body m.truncated) :
    Outcome.Honest data old e (.ended d st retained messages) := by
  cases d with
  | clientToServer => exact .put h hm
  | serverToClient =>
    refine ⟨fun _ h' => ?_, hm⟩
    simp [Outcome.ended, Change.next] at h'

/-- The data of a stream after an event of the stream. -/
def sinceEvent (id : Nat) (data : Direction → Bytes) (e : Event)
    (d : Direction) : Bytes :=
  sinceHeaders d id (data d) e

theorem StreamState.Honest.marked (h : ∀ st, old = some st → st.Honest data)
    (hs : Headers) : (StreamState.marked old hs).Honest data := by
  intro hg d p hp
  cases old with
  | none => simp at hp
  | some st =>
    rw [pending_marked] at hp
    exact h st rfl (by simp_all [StreamState.marked]) d p hp

/-- A gRPC stream has no messages of this kind. -/
theorem StreamState.Honest.of_grpc (h : st.grpc = true) : st.Honest data := by
  intro hg
  rw [h] at hg
  cases hg

section Since

variable {id : Nat} {endStream : Bool} {hs : Headers}

theorem sinceEvent_start (h : (startLine hs).isSome) :
    sinceEvent id data (.headers d id endStream hs) = Function.update data d [] := by
  funext d'
  by_cases hd : d' = d
  · simp [sinceEvent, sinceHeaders, hd, h]
  · simp [sinceEvent, sinceHeaders, hd, Ne.symm hd]

theorem sinceEvent_trailers (h : startLine hs = none) :
    sinceEvent id data (.headers d id endStream hs) = data := by
  funext d'
  exact if_neg (by simp [h])

theorem sinceEvent_data (more : Bytes) :
    sinceEvent id data (.data d id endStream more) = Function.update data d (data d ++ more) := by
  funext d'
  by_cases hd : d' = d
  · simp [sinceEvent, sinceHeaders, hd]
  · simp [sinceEvent, sinceHeaders, hd, Ne.symm hd]

end Since

/-- A message that is all an event of its direction gives. -/
theorem honest_singleton {x : Bytes} {m : DecodedMessage} (hd : e.direction = some d)
    (hm : Http2.Honest x m.body m.truncated) : ∀ d', e.direction = some d' → ∀ m' ∈ [m],
      Http2.Honest (Function.update data d x d') m'.body m'.truncated := by
  intro d' hd' m' hm'
  obtain rfl := mem_singleton.mp hm'
  obtain rfl : d = d' := Option.some.inj (hd.symm.trans hd')
  rwa [Function.update_self]

/-- A DATA frame finds no room for a message that has already lost bytes. -/
def captureEnded (mb retained : Nat) (old : Option StreamState) : Event → Bool
  | .data d _ _ more =>
    match old with
    | none => true
    | some st =>
      st.grpc || match st.pending d with
        | none => true
        | some p => !p.truncated || decide (mb ≤ p.body.length) ||
            decide (maxInflightCapture ≤ retained) || more.isEmpty
  | .headers .. | .reset _ => true

theorem capturable_of_captureEnded {id : Nat} {endStream : Bool} {more : Bytes}
    {p : PendingMessage} (h : captureEnded mb retained (some st) (.data d id endStream more) = true)
    (hg : st.grpc = false) (hp : st.pending d = some p) (htr : p.truncated = true) :
    capturable mb retained p more = 0 := by
  simp only [captureEnded, hg, hp, htr, Bool.false_or, Bool.not_true, Bool.or_eq_true,
    decide_eq_true_eq, List.isEmpty_iff] at h
  rw [capturable]
  rcases h with (h | h) | rfl
  · omega
  · omega
  · simp

theorem outcome_honest (full : Bool) (h : ∀ st, old = some st → st.Honest data)
    (hended : captureEnded mb retained old e = true) :
    (outcome mb retained full old e).Honest (sinceEvent e.id data e) old e := by
  have hyields := outcome_yields mb retained full old e
  generalize outcome mb retained full old e = o at hyields ⊢
  have hmarked := StreamState.Honest.marked h
  -- A DATA frame takes a message as far as it goes without a gap.
  have hextend : ∀ {st d id endStream more p}, old = some st → e = .data d id endStream more →
      st.grpc = false → st.pending d = some p →
      Http2.Honest (data d ++ more) (p.extend mb retained more).body
        (p.extend mb retained more).truncated := by
    intro st d id endStream more p hold he hg hp
    subst hold he
    exact (h st rfl hg d p hp).extend mb retained more
      (capturable_of_captureEnded hended hg hp)
  cases hyields with
  | reset => exact ⟨by rintro _ ⟨⟩, by simp [gives]⟩
  | full hold | noStream hold =>
    subst hold
    exact ⟨by rintro _ ⟨⟩, by simp [gives]⟩
  | grpcHeaders hg => exact .put (.of_grpc hg) (by simp [isPlain, hg])
  | grpcHeadersEnd hg => exact .ended (.of_grpc hg) _ (by simp [isPlain, hg])
  | start _ hline =>
    rw [Event.id, sinceEvent_start (by simp [hline])]
    refine .put ((hmarked _).setPending fun _ q hq => ?_) (by simp [gives])
    cases hq
    exact .nil
  | startEnd _ hline =>
    rw [Event.id, sinceEvent_start (by simp [hline])]
    exact .put ((hmarked _).setPending (by simp)) fun _ => honest_singleton rfl .nil
  | orphan _ hline =>
    rw [Event.id, sinceEvent_trailers hline]
    exact .put (hmarked _) (by simp [gives])
  | @trailers d _ _ _ hg hline hp =>
    rw [Event.id, sinceEvent_trailers hline, ← Function.update_eq_self d data]
    have hpend := hmarked _ hg _ _ hp
    refine .put ((hmarked _).setPending fun _ q hq => ?_) (by simp [gives])
    cases hq
    exact hpend
  | @trailersEnd d _ _ _ hg hline hp =>
    rw [Event.id, sinceEvent_trailers hline, ← Function.update_eq_self d data]
    exact .ended ((hmarked _).setPending (by simp)) _ fun _ =>
      honest_singleton rfl (hmarked _ hg _ _ hp)
  | @noMessage st d _ _ _ hold hg hp =>
    subst hold
    rw [Event.id, sinceEvent_data]
    refine ⟨fun _ hst => ?_, by simp [gives]⟩
    cases hst
    intro _ d' q hq
    by_cases hd : d' = d
    · rw [hd, hp] at hq
      cases hq
    · rw [Function.update_of_ne hd]
      exact h st rfl hg d' q hq
  | data hold hg hp =>
    rw [Event.id, sinceEvent_data]
    refine .put ((h _ hold).setPending fun _ q hq => ?_) (by simp [gives])
    cases hq
    exact hextend hold rfl hg hp
  | dataEnd hold hg hp =>
    rw [Event.id, sinceEvent_data]
    exact .ended ((h _ hold).setPending (by simp)) _ fun _ =>
      honest_singleton rfl (hextend hold rfl hg hp)
  | @refused st d _ _ _ _ _ hold hg | @inside st d _ _ _ _ hold hg | @push st d _ _ _ _ hold hg =>
    exact .put (.of_grpc (by cases d <;> exact hg)) (by simp [isPlain, hold, hg])
  | @pushEnd st d _ _ _ _ hold hg =>
    exact .ended (.of_grpc (by cases d <;> exact hg)) _ (by simp [isPlain, hold, hg])

end Outcomes

/-! ## Runs -/

namespace Table

variable {t : Table} {pre : List Event} {e : Event}

/-- In a sequence of events no message captures again after it has lost bytes. -/
def captureEnds : Table → List Event → Bool
  | _, [] => true
  | t, e :: es =>
    captureEnded t.maxBody t.retainedBodyBytes (t.streams.lookup e.id) e &&
      captureEnds (t.apply e) es

theorem captureEnds_split {post : List Event} (h : t.captureEnds (pre ++ e :: post) = true) :
    captureEnded (t.applyAll pre).maxBody (t.applyAll pre).retainedBodyBytes
      ((t.applyAll pre).streams.lookup e.id) e = true := by
  induction pre generalizing t with
  | nil => exact (Bool.and_eq_true_iff.mp h).1
  | cons e' pre ih => exact ih (Bool.and_eq_true_iff.mp h).2

/-- The messages under way on the streams are honest about the events so far. -/
def Honest (es : List Event) (t : Table) : Prop :=
  ∀ id st, t.streams.lookup id = some st → st.Honest fun d => received d id es

theorem Honest.outcome (h : t.Honest pre)
    (hended : captureEnded t.maxBody t.retainedBodyBytes (t.streams.lookup e.id) e = true) :
    (t.outcome e).Honest (fun d => received d e.id (pre ++ [e])) (t.streams.lookup e.id) e := by
  simp only [received_append]
  exact outcome_honest t.full (h e.id) hended

theorem Honest.apply (h : t.Honest pre)
    (hended : captureEnded t.maxBody t.retainedBodyBytes (t.streams.lookup e.id) e = true) :
    (t.apply e).Honest (pre ++ [e]) := by
  intro id st hst
  by_cases hid : id = e.id
  · subst hid
    rw [lookup_apply_self] at hst
    exact (h.outcome hended).next st hst
  · rw [lookup_apply_ne t e hid] at hst
    simp only [received_append, sinceHeaders_ne (Ne.symm hid)]
    exact h id st hst

end Table

namespace Http2Decoder

variable {η : Type}

/-- The events of a run up to one of a direction, with the DATA of the direction that was
dropped. -/
def wire (hp : Hpack η) (d : Direction) (calls : List Call) (es : List (Direction × Event)) :
    List Event :=
  (woven d (log hp d calls) es).map Logged.event

/-- Every message of a run that is not a gRPC one has an honest body: `pre` is what came
before the event that gives it. -/
def BodiesHonest (hp : Hpack η) (maxBody : Nat) (calls : List Call) : Prop :=
  ∀ pre d e post, (new hp maxBody).directed hp calls = pre ++ (d, e) :: post →
    isPlain (((Table.new maxBody).applyAll (pre.map Prod.snd)).streams.lookup e.id) e = true →
    ∀ m ∈ gives (((Table.new maxBody).applyAll (pre.map Prod.snd)).outcome e).result,
      Honest (received d e.id (wire hp d calls (pre ++ [(d, e)]))) m.body m.truncated

theorem wire_of_taken {hp : Hpack η} {calls : List Call}
    (h : (log hp d calls).all Logged.isTaken = true) (es : List (Direction × Event)) :
    wire hp d calls es = es.map Prod.snd := by
  rw [wire, woven_of_taken d h, map_map]
  rfl

/-- If no DATA is dropped and no message captures again after it has lost bytes, all
bodies are honest. -/
theorem bodies_honest (hp : Hpack η) (maxBody : Nat) (calls : List Call)
    (htaken : ∀ d, (log hp d calls).all Logged.isTaken = true)
    (hended : (Table.new maxBody).captureEnds ((new hp maxBody).events hp calls) = true) :
    BodiesHonest hp maxBody calls := by
  intro pre d e post hdirected hplain m hm
  have hes : (new hp maxBody).events hp calls = pre.map Prod.snd ++ e :: post.map Prod.snd := by
    rw [← directed_snd, hdirected]
    simp
  rw [hes] at hended
  have hstep : ∀ pre' e' post', pre.map Prod.snd ++ e :: post.map Prod.snd = pre' ++ e' :: post' →
      captureEnded ((Table.new maxBody).applyAll pre').maxBody
        ((Table.new maxBody).applyAll pre').retainedBodyBytes
        (((Table.new maxBody).applyAll pre').streams.lookup e'.id) e' = true :=
    fun pre' e' post' heq => Table.captureEnds_split (heq ▸ hended)
  have hnew : (Table.new maxBody).Honest [] := by
    intro id st hst
    simp [Table.new] at hst
  have hpre := Table.applyAll_history (P := fun es t => t.Honest es) hnew
    (fun pre' e' post' heq h => h.apply (hstep pre' e' post' heq)) _ (e :: post.map Prod.snd) rfl
  have hmessages := (hpre.outcome (hstep _ e _ rfl)).messages hplain
  rw [wire_of_taken (htaken d), map_append]
  cases hd : e.direction with
  | some d' =>
    have hmem : (d, e) ∈ (new hp maxBody).directed hp calls := by simp [hdirected]
    obtain rfl := directed_direction hp hmem hd
    exact hmessages d' hd m hm
  | none =>
    cases e with
    | headers | data => cases hd
    | reset id => simp [Table.outcome, Http2.outcome, gives] at hm

/-- An upload over the cap. -/
def cappedUpload : List Call :=
  [.push .clientToServer (clientPreface ++
    [headersFrame 1 false true none none [0x83, 0x84], dataFrame 1 false none [1, 2, 3],
      dataFrame 1 true none [4]].flatMap Frame.bytes)]

theorem cappedUpload_honest :
    (Table.new 2).captureEnds ((new .static 2).events .static cappedUpload) = true ∧
      BodiesHonest .static 2 cappedUpload :=
  ⟨by decide +kernel, bodies_honest .static 2 cappedUpload
    (fun d => by cases d <;> decide +kernel) (by decide +kernel)⟩

end Http2Decoder

/-! ## A budget that is used up and given back -/

/-- The largest payload that is observed. -/
def zeros : Bytes := List.replicate maxObservedFramePayload 0

theorem length_zeros : zeros.length = maxObservedFramePayload := length_replicate

namespace Http2Decoder

/-- The header list of a POST. -/
def postHeaders : Headers := [(":method", "POST"), (":path", "/")]

/-- The message of a POST with the data that has come. -/
abbrev post (data : Bytes) : PendingMessage :=
  underway maxInflightCapture "POST / HTTP/2" postHeaders data

/-- A POST under way with the data that has come. -/
def posted (data : Bytes) : StreamState :=
  (StreamState.marked none postHeaders).setPending .clientToServer (some (post data))

theorem posted_grpc (data : Bytes) : (posted data).grpc = false := by
  change (StreamState.marked none postHeaders).grpc = false
  decide +kernel

theorem posted_pending (data : Bytes) :
    (posted data).pending .clientToServer = some (post data) := rfl

section Posts

variable {streams : Streams} {id retained : Nat} {more sofar : Bytes}

/-- A POST begins on a new stream. -/
theorem apply_posted (retained : Nat) (hst : streams.lookup id = none)
    (hroom : streams.entries.length < maxTrackedStreams) :
    (⟨streams, maxInflightCapture, retained⟩ : Table).apply
        (.headers .clientToServer id false postHeaders) =
      ⟨streams.insert id (posted []), maxInflightCapture, retained⟩ := by
  have hfull : (⟨streams, maxInflightCapture, retained⟩ : Table).full = false := by
    rw [Bool.eq_false_iff, Ne, Table.full_iff]
    exact not_le.mpr hroom
  have hgrpc : (StreamState.marked none postHeaders).grpc = false := posted_grpc []
  have hline : startLine postHeaders = some "POST / HTTP/2" := by decide +kernel
  simp only [Table.apply, Table.outcome, Http2.outcome, Event.id, hst, hfull, Option.isNone_none,
    Bool.and_false, Bool.false_eq_true, ↓reduceIte, headersOutcome, hgrpc, hline]
  rfl

/-- A DATA frame, as the message under way takes it. -/
theorem outcome_data {t : Table} {st : StreamState} (hst : t.streams.lookup id = some st)
    (hg : st.grpc = false) (endStream : Bool) (more : Bytes) :
    t.outcome (.data .clientToServer id endStream more) =
      plainDataOutcome .clientToServer id endStream more t.maxBody t.retainedBodyBytes st := by
  simp only [Table.outcome, Http2.outcome, Event.id, hst, hg, Bool.false_eq_true, ↓reduceIte]

/-- A DATA frame of a POST that does not end it. -/
theorem apply_data (more : Bytes) :
    (⟨streams.insert id (posted sofar), maxInflightCapture, retained⟩ : Table).apply
        (.data .clientToServer id false more) =
      ⟨streams.insert id ((posted sofar).setPending .clientToServer
          (some ((post sofar).extend maxInflightCapture retained more))), maxInflightCapture,
        saturatingAdd retained (capturable maxInflightCapture retained (post sofar) more)⟩ := by
  have houtcome := outcome_data
    (t := ⟨streams.insert id (posted sofar), maxInflightCapture, retained⟩) (AList.lookup_insert _)
    (posted_grpc sofar) false more
  simp only [plainDataOutcome, posted_pending, Bool.false_eq_true, ↓reduceIte] at houtcome
  simp only [Table.apply, houtcome]
  exact congrArg (⟨·, _, _⟩ : Streams → Table) (AList.insert_insert ..)

/-- Equal frames one after the other, for which there is room. -/
theorem applyAll_replicate (more : Bytes) : ∀ (n : Nat) {retained : Nat} {sofar : Bytes},
    sofar.length ≤ retained → retained + n * more.length ≤ maxInflightCapture →
    (⟨streams.insert id (posted sofar), maxInflightCapture, retained⟩ : Table).applyAll
        (List.replicate n (.data .clientToServer id false more)) =
      ⟨streams.insert id (posted (sofar ++ (List.replicate n more).flatten)), maxInflightCapture,
        retained + n * more.length⟩
  | 0, retained, sofar, _, _ => by
    rw [replicate_zero, replicate_zero, flatten_nil, append_nil, Nat.zero_mul]
    rfl
  | n + 1, retained, sofar, hheld, hroom => by
    rw [Nat.succ_mul] at hroom
    have hroom' : retained + more.length ≤ maxInflightCapture := by omega
    have hcount : capturable maxInflightCapture retained (post sofar) more = more.length := by
      rw [capturable_of_le hroom' (le_refl _), post, underway, length_take]
      omega
    have hsum : retained + more.length + n * more.length = retained + (n + 1) * more.length := by
      rw [Nat.succ_mul]
      omega
    have hstep := @apply_data streams id retained sofar more
    rw [underway_extend hroom', hcount, saturatingAdd_of_le hroom'] at hstep
    rw [replicate_succ, Table.applyAll_cons, hstep, replicate_succ, flatten_cons, ← append_assoc,
      ← hsum]
    exact applyAll_replicate more n (by rw [length_append]; omega) (by omega)

/-- The bytes of a POST that holds all of the budget. -/
def held4 : Bytes := (List.replicate 4 zeros).flatten

theorem length_held4 : held4.length = maxInflightCapture := by
  rw [held4, length_flatten, map_replicate, length_zeros]
  rfl

/-- A POST uses up the budget. -/
theorem applyAll_posted (hst : streams.lookup id = none)
    (hroom : streams.entries.length < maxTrackedStreams) :
    (⟨streams, maxInflightCapture, 0⟩ : Table).applyAll
        (.headers .clientToServer id false postHeaders ::
          List.replicate 4 (.data .clientToServer id false zeros)) =
      ⟨streams.insert id (posted held4), maxInflightCapture, maxInflightCapture⟩ := by
  have hlen : 0 + 4 * zeros.length = maxInflightCapture := by
    rw [length_zeros]
    rfl
  rw [Table.applyAll_cons, apply_posted 0 hst hroom,
    applyAll_replicate zeros 4 (Nat.le_refl 0) hlen.le, hlen, nil_append,
    held4]

/-- A DATA frame that the used-up budget has no room for. -/
theorem apply_lost (hmore : more ≠ []) :
    (⟨streams.insert id (posted sofar), maxInflightCapture, maxInflightCapture⟩ : Table).apply
        (.data .clientToServer id false more) =
      ⟨streams.insert id ((posted sofar).setPending .clientToServer
        (some { post sofar with truncated := true })), maxInflightCapture, maxInflightCapture⟩ := by
  have hnone : capturable maxInflightCapture maxInflightCapture (post sofar) more = 0 := by
    simp [capturable]
  rw [apply_data]
  simp [PendingMessage.extend, hnone, length_pos_iff.mpr hmore, saturatingAdd_of_le]

/-- The end of a POST gives back what it holds. -/
theorem retained_apply_ended (hst : streams.lookup id = some (posted sofar))
    (hall : sofar.length = maxInflightCapture) :
    ((⟨streams, maxInflightCapture, maxInflightCapture⟩ : Table).apply
      (.data .clientToServer id true [])).retainedBodyBytes = 0 := by
  have hnone : capturable maxInflightCapture maxInflightCapture (post sofar) [] = 0 := by
    simp [capturable]
  have hbody : ((post sofar).extend maxInflightCapture maxInflightCapture []).body.length =
      maxInflightCapture := by
    simp [PendingMessage.extend, underway, hall]
  change (Table.outcome _ _).retained = 0
  rw [outcome_data hst (posted_grpc sofar)]
  simp only [plainDataOutcome, posted_pending, hnone, hbody, ↓reduceIte, Outcome.ended,
    reduceCtorEq, saturatingAdd_of_le (Nat.add_zero _).le, Nat.add_zero, Nat.sub_self]

end Posts

/-- Stream 1 uses up the budget while stream 3 loses a byte, and gives it back before
stream 3 ends. -/
def gapFrames : List Frame :=
  headersFrame 1 false true none none [0x83, 0x84] ::
    List.replicate 4 (dataFrame 1 false none zeros) ++
    [headersFrame 3 false true none none [0x83, 0x84], dataFrame 3 false none [1],
      dataFrame 1 true none [], dataFrame 3 true none [2]]

def gapEvents : List Event :=
  .headers .clientToServer 1 false postHeaders ::
    List.replicate 4 (.data .clientToServer 1 false zeros) ++
    [.headers .clientToServer 3 false postHeaders, .data .clientToServer 3 false [1],
      .data .clientToServer 1 true []]

/-- The frames in one push. -/
def gapCalls : List Call := [.push .clientToServer (clientPreface ++ gapFrames.flatMap Frame.bytes)]

/-- The HEADERS frame of a POST, and its event. -/
theorem receive_post {id : Nat} (hid : id ≠ 0) :
    (DirectionState.new Hpack.static false).receive .static .clientToServer
        (headersFrame id false true none none [0x83, 0x84]) =
      (.new .static false, [.headers .clientToServer id false postHeaders]) := by
  have hdecode : Hpack.static.decode (DirectionState.new Hpack.static false).hpack [0x83, 0x84] =
      ((DirectionState.new Hpack.static false).hpack,
        .ok (postHeaders.map fun f => (Utf8.asBytes f.1, Utf8.asBytes f.2))) := rfl
  have htext : headerText (postHeaders.map fun f => (Utf8.asBytes f.1, Utf8.asBytes f.2)) =
      postHeaders := by decide +kernel
  rw [← htext]
  exact DirectionState.receive_headersFrame rfl hid (by decide) hdecode (by decide +kernel)

/-- All events of the frames. -/
def gapAll : List Event := gapEvents ++ [.data .clientToServer 3 true [2]]

theorem gapFrames_onWire : ∀ f ∈ gapFrames, f.OnWire := by
  have hwire : (dataFrame 1 false none zeros).OnWire :=
    ⟨length_zeros.trans_lt (by decide), by decide⟩
  simp only [gapFrames, List.replicate, cons_append, nil_append, forall_mem_cons]
  exact ⟨by decide, hwire, hwire, hwire, hwire, by decide, by decide, by decide, by decide, by simp⟩

theorem gapFrames_receive :
    List.Forall₂ (fun f e => (DirectionState.new Hpack.static false).receive .static
      .clientToServer f = (.new .static false, [e])) gapFrames gapAll := by
  have hdata : ∀ id endStream data, id ≠ 0 → data.length ≤ maxObservedFramePayload →
      (DirectionState.new Hpack.static false).receive .static .clientToServer
        (dataFrame id endStream none data) =
        (.new .static false, [.data .clientToServer id endStream data]) :=
    fun id endStream data hid hlen => DirectionState.receive_dataFrame rfl hid hlen
  have hzeros := hdata 1 false zeros one_ne_zero length_zeros.le
  exact .cons (receive_post one_ne_zero) (.cons hzeros (.cons hzeros (.cons hzeros (.cons hzeros
    (.cons (receive_post (by decide)) (.cons (hdata 3 false [1] (by decide) (by decide))
      (.cons (hdata 1 true [] (by decide) (by decide))
        (.cons (hdata 3 true [2] (by decide) (by decide)) .nil))))))))

theorem gapCalls_directed :
    (new .static maxInflightCapture).directed .static gapCalls =
      gapEvents.map (.clientToServer, ·) ++
        [(.clientToServer, .data .clientToServer 3 true [2])] := by
  have hevents := events_push .static maxInflightCapture gapFrames_onWire gapFrames_receive
  rw [events, events, append_nil] at hevents
  rw [gapCalls, directed, directed, append_nil, hevents, gapAll, map_append]
  rfl

/-- Stream 1 has used up the budget when stream 3 begins. -/
theorem gapEvents_begin :
    (Table.new maxInflightCapture).applyAll (gapEvents.take 6) =
      ⟨((∅ : Streams).insert 1 (posted held4)).insert 3 (posted []), maxInflightCapture,
        maxInflightCapture⟩ := by
  have hthird : ((∅ : Streams).insert 1 (posted held4)).lookup 3 = none := by
    rw [AList.lookup_insert_ne (by decide), AList.lookup_empty]
  have htake : gapEvents.take 6 = .headers .clientToServer 1 false postHeaders ::
      List.replicate 4 (.data .clientToServer 1 false zeros) ++
        [.headers .clientToServer 3 false postHeaders] := rfl
  rw [htake, Table.applyAll_append, Table.new, applyAll_posted (AList.lookup_empty 1) (by decide),
    Table.applyAll_cons, Table.applyAll_nil]
  exact apply_posted _ hthird (Nat.lt_of_le_of_lt (Nat.le_refl 1) (by decide))

/-- The table before the last frame: stream 3 has lost a byte and the budget is free. -/
structure GapOpen (t : Table) : Prop where
  retained : t.retainedBodyBytes = 0
  stream : ∃ st, t.streams.lookup 3 = some st ∧ st.grpc = false ∧ st.pending .clientToServer =
    some ⟨.clientToServer, "POST / HTTP/2", postHeaders, [], true⟩

/-- Stream 3 loses a byte, and the end of stream 1 gives back all that it held. -/
theorem GapOpen.of_ended {held : Bytes} (hlen : held.length = maxInflightCapture) :
    GapOpen ((⟨((∅ : Streams).insert 1 (posted held)).insert 3 (posted []), maxInflightCapture,
      maxInflightCapture⟩ : Table).applyAll
        [.data .clientToServer 3 false [1], .data .clientToServer 1 true []]) := by
  rw [Table.applyAll_cons, Table.applyAll_cons, Table.applyAll_nil, apply_lost (cons_ne_nil 1 [])]
  constructor
  · refine retained_apply_ended ?_ hlen
    rw [AList.lookup_insert_ne (by decide), AList.lookup_insert]
  · have hthird : (3 : Nat) ≠ (Event.data .clientToServer 1 true []).id := by decide
    rw [Table.lookup_apply_ne _ _ hthird, AList.lookup_insert]
    exact ⟨_, rfl, posted_grpc [], rfl⟩

theorem gapEvents_open : GapOpen ((Table.new maxInflightCapture).applyAll gapEvents) := by
  have hsplit : gapEvents =
      gapEvents.take 6 ++
        [.data .clientToServer 3 false [1], .data .clientToServer 1 true []] := rfl
  rw [hsplit, Table.applyAll_append, gapEvents_begin]
  exact .of_ended length_held4

/-- The message of the last frame lacks the byte that was lost. -/
theorem GapOpen.gives {t : Table} (h : GapOpen t) (hmb : t.maxBody = maxInflightCapture) :
    addHttp2Metadata (PendingMessage.finish
        ⟨.clientToServer, "POST / HTTP/2", postHeaders, [2], true⟩) 3 .clientToServer ∈
      Http2.gives (t.outcome (.data .clientToServer 3 true [2])).result := by
  obtain ⟨st, hst, hg, hp⟩ := h.stream
  have hextend : PendingMessage.extend maxInflightCapture 0
      ⟨.clientToServer, "POST / HTTP/2", postHeaders, [], true⟩ [2] =
      ⟨.clientToServer, "POST / HTTP/2", postHeaders, [2], true⟩ := rfl
  rw [outcome_data hst hg, h.retained, hmb]
  simp only [plainDataOutcome, hp, hextend, ↓reduceIte]
  exact mem_singleton.mpr rfl

theorem gapCalls_not_honest : ¬BodiesHonest .static maxInflightCapture gapCalls := by
  intro h
  have hlog := log_push gapFrames_onWire gapFrames_receive
  have htaken : (log .static .clientToServer gapCalls).all Logged.isTaken = true := by
    rw [gapCalls, hlog]
    simp [Logged.isTaken]
  have hpre : (gapEvents.map ((Direction.clientToServer, ·) : Event → _)).map Prod.snd =
      gapEvents := by simp
  obtain ⟨st, hst, hg, -⟩ := gapEvents_open.stream
  have hplain : isPlain (((Table.new maxInflightCapture).applyAll gapEvents).streams.lookup 3)
      (.data .clientToServer 3 true [2]) = true := by
    simp [isPlain, hst, hg]
  have hgives := gapEvents_open.gives (Table.applyAll_maxBody _ _)
  have hhonest := h _ .clientToServer _ [] gapCalls_directed
  rw [hpre, wire_of_taken htaken, map_append, hpre, map_singleton] at hhonest
  have hstart := (hhonest hplain _ hgives).start
  have hreceived : received .clientToServer 3 (gapEvents ++ [.data .clientToServer 3 true [2]]) =
      [1, 2] := rfl
  change [2] <+: received .clientToServer 3 _ at hstart
  rw [hreceived] at hstart
  revert hstart
  decide

end Http2Decoder

end Lens.Http2
