import Lens.Http2.Decoder

/-!
# The table of streams

What a frame does to the streams is an `Event`: a decoded header list, the data of a
DATA frame without its padding, or a reset.  An event is about one stream.
`outcome` says what becomes of that stream, of the count of captured bytes and which
messages it gives; of the rest of the table it needs to know only whether there is
room for another stream.  `Table.apply` puts the outcome into the table, and
`applyHeaders_eq`, `handleData_eq` and `handleReset_eq` say that this is what the
handlers of the decoder do.
-/

namespace Lens.Http2

/-! ## Events and outcomes -/

inductive Event where
  | headers (direction : Direction) (id : Nat) (endStream : Bool) (headers : Headers)
  | data (direction : Direction) (id : Nat) (endStream : Bool) (payload : Bytes)
  | reset (id : Nat)
deriving DecidableEq, Repr

/-- The stream of an event. -/
def Event.id : Event → Nat
  | .headers _ id _ _ => id
  | .data _ id _ _ => id
  | .reset id => id

/-- What becomes of the entry of a stream. -/
inductive Change where
  | keep
  | put (st : StreamState)
  | remove
deriving DecidableEq, Repr

/-- The entry after a change. -/
def Change.next (old : Option StreamState) : Change → Option StreamState
  | .keep => old
  | .put st => some st
  | .remove => none

structure Outcome where
  change : Change
  /-- The count of captured bytes afterwards. -/
  retained : Nat
  result : Except String (List DecodedMessage)

namespace Outcome

/-- A direction of the stream has ended.  The end of the response takes the stream out
of the table. -/
def ended (d : Direction) (st : StreamState) (retained : Nat) (messages : List DecodedMessage) :
    Outcome :=
  if d = .serverToClient then ⟨.remove, retained - st.retainedBodyBytes, .ok messages⟩
  else ⟨.put st, retained, .ok messages⟩

@[simp] theorem ended_result (d : Direction) (st : StreamState) (retained : Nat)
    (messages : List DecodedMessage) : (ended d st retained messages).result = .ok messages := by
  cases d <;> rfl

end Outcome

/-! ## Headers -/

/-- Whether a header list makes its stream a gRPC one. -/
def marksGrpc (hs : Headers) : Bool :=
  Str.startsWith (Str.toAsciiLowercase ((findHeader hs "content-type").getD "")) "application/grpc"

/-- The stream with what a header list says about it. -/
def StreamState.marked (old : Option StreamState) (hs : Headers) : StreamState :=
  { old.getD {} with
    path := (findHeader hs ":path").or (old.getD {}).path
    grpc := (old.getD {}).grpc || marksGrpc hs }

/-- The start line of a header list that begins a message. -/
def startLine (hs : Headers) : Option String :=
  match findHeader hs ":method", findHeader hs ":status" with
  | some method, _ => some (method ++ " " ++ (findHeader hs ":path").getD "/" ++ " HTTP/2")
  | none, some status => some ("HTTP/2 " ++ status)
  | none, none => none

/-- The message of a header list on a gRPC stream. -/
def grpcMessage (d : Direction) (id : Nat) (st : StreamState) (hs : Headers) :
    DecodedMessage :=
  let marked := hs ++ [("lens-protocol", "grpc"), ("lens-stream-id", toString id)]
  match findHeader hs ":method", findHeader hs ":status" with
  | some method, _ =>
    ⟨d, "gRPC " ++ method ++ " " ++ ((findHeader hs ":path").or st.path).getD "/unknown",
      marked ++ [("lens-boundary", "request")], [], false⟩
  | none, some status => ⟨d, "gRPC response HTTP " ++ status, marked, [], false⟩
  | none, none =>
    let marked := if d = .serverToClient then marked ++ [("lens-boundary", "response")] else marked
    ⟨d, "gRPC trailers status=" ++ (findHeader marked "grpc-status").getD "unknown", marked, [],
      false⟩

/-- A header list on a stream that is in the table or has room in it. -/
def headersOutcome (d : Direction) (id : Nat) (endStream : Bool) (hs : Headers)
    (retained : Nat) (st : StreamState) : Outcome :=
  if st.grpc then
    if endStream then .ended d st retained [grpcMessage d id st hs]
    else ⟨.put st, retained, .ok [grpcMessage d id st hs]⟩
  else
    match startLine hs with
    | some line =>
      let p : PendingMessage := ⟨d, line, hs, [], false⟩
      if endStream then
        ⟨.put (st.setPending d none), retained, .ok [addHttp2Metadata p.finish id d]⟩
      else ⟨.put (st.setPending d (some p)), retained, .ok []⟩
    | none =>
      match st.pending d with
      | none => ⟨.put st, retained, .error "HTTP/2 trailers arrived before initial headers"⟩
      | some p =>
        let p := { p with headers := p.headers ++ hs }
        if endStream then
          .ended d (st.setPending d none) (retained - p.body.length)
            [addHttp2Metadata p.finish id d]
        else ⟨.put (st.setPending d (some p)), retained, .ok []⟩

/-! ## Data -/

/-- The bytes of a DATA frame that a message under way takes. -/
def capturable (maxBody retained : Nat) (p : PendingMessage) (data : Bytes) : Nat :=
  min (min (maxBody - p.body.length) (maxInflightCapture - retained)) data.length

/-- A message under way after a DATA frame. -/
def PendingMessage.extend (maxBody retained : Nat) (p : PendingMessage) (data : Bytes) :
    PendingMessage :=
  { p with
    body := p.body ++ data.take (capturable maxBody retained p data)
    truncated := p.truncated || decide (capturable maxBody retained p data < data.length) }

def plainDataOutcome (d : Direction) (id : Nat) (endStream : Bool) (data : Bytes)
    (maxBody retained : Nat) (st : StreamState) : Outcome :=
  match st.pending d with
  | none => ⟨.keep, retained, .error "HTTP/2 DATA arrived without message headers"⟩
  | some p =>
    let grown := saturatingAdd retained (capturable maxBody retained p data)
    let p := p.extend maxBody retained data
    if endStream then
      .ended d (st.setPending d none) (grown - p.body.length) [addHttp2Metadata p.finish id d]
    else ⟨.put (st.setPending d (some p)), grown, .ok []⟩

/-- The most bytes a gRPC payload may hold after a DATA frame. -/
def captureLimit (maxBody retained : Nat) (p : GrpcParser) : Nat :=
  min maxBody (saturatingAdd p.retained (maxInflightCapture - retained))

/-- The parser of a gRPC stream after a DATA frame, and the messages of the frame. -/
def StreamState.pushGrpc (d : Direction) (id : Nat) (data : Bytes) (maxBody retained : Nat)
    (st : StreamState) : GrpcParser × Except String (List DecodedMessage) :=
  (st.grpcParser d).push d id (st.path.getD "/unknown") data
    (captureLimit maxBody retained (st.grpcParser d))

/-- The messages at the end of a direction of a gRPC stream. -/
def endMessages (d : Direction) (id : Nat) : List DecodedMessage :=
  if d = .serverToClient then [Http2Decoder.endedWithoutTrailers d id] else []

def grpcDataOutcome (d : Direction) (id : Nat) (endStream : Bool) (data : Bytes)
    (maxBody retained : Nat) (st : StreamState) : Outcome :=
  let parser := (st.pushGrpc d id data maxBody retained).1
  let pushed := st.setGrpcParser d parser
  match (st.pushGrpc d id data maxBody retained).2 with
  | .error reason => ⟨.put pushed, retained, .error reason⟩
  | .ok messages =>
    let grown := saturatingAdd (retained - (st.grpcParser d).retained) parser.retained
    if endStream then
      if parser.hasIncomplete then
        ⟨.put pushed, grown, .error "gRPC stream ended inside a message envelope"⟩
      else .ended d pushed grown (messages ++ endMessages d id)
    else ⟨.put pushed, grown, .ok messages⟩

/-! ## The table -/

/-- What an event does to its stream. -/
def outcome (maxBody retained : Nat) (full : Bool) (old : Option StreamState) : Event → Outcome
  | .headers d id endStream hs =>
    if old.isNone && full then
      ⟨.keep, retained, .error "HTTP/2 connection exceeded 256 tracked streams"⟩
    else headersOutcome d id endStream hs retained (.marked old hs)
  | .data d id endStream data =>
    match old with
    | none => ⟨.keep, retained, .error "HTTP/2 DATA arrived before HEADERS"⟩
    | some st =>
      if st.grpc then grpcDataOutcome d id endStream data maxBody retained st
      else plainDataOutcome d id endStream data maxBody retained st
  | .reset _ => ⟨.remove, retained, .ok []⟩

section Yields

open StreamState (marked)

variable (maxBody retained : Nat) (full : Bool) (old : Option StreamState)

/-- All that an event can do to its stream, case by case. -/
inductive Yields : Event → Outcome → Prop where
  | reset {id} : Yields (.reset id) ⟨.remove, retained, .ok []⟩
  | full {d id endStream hs} (hold : old = none) (hfull : full = true) :
    Yields (.headers d id endStream hs)
      ⟨.keep, retained, .error "HTTP/2 connection exceeded 256 tracked streams"⟩
  | grpcHeaders {d id hs} (hg : (marked old hs).grpc = true) :
    Yields (.headers d id false hs)
      ⟨.put (marked old hs), retained, .ok [grpcMessage d id (marked old hs) hs]⟩
  | grpcHeadersEnd {d id hs} (hg : (marked old hs).grpc = true) :
    Yields (.headers d id true hs)
      (.ended d (marked old hs) retained [grpcMessage d id (marked old hs) hs])
  | start {d id hs line} (hg : (marked old hs).grpc = false) (hline : startLine hs = some line) :
    Yields (.headers d id false hs)
      ⟨.put ((marked old hs).setPending d (some ⟨d, line, hs, [], false⟩)), retained, .ok []⟩
  | startEnd {d id hs line} (hg : (marked old hs).grpc = false)
      (hline : startLine hs = some line) :
    Yields (.headers d id true hs)
      ⟨.put ((marked old hs).setPending d none), retained,
        .ok [addHttp2Metadata (PendingMessage.finish ⟨d, line, hs, [], false⟩) id d]⟩
  | orphan {d id endStream hs} (hg : (marked old hs).grpc = false) (hline : startLine hs = none)
      (hp : (marked old hs).pending d = none) :
    Yields (.headers d id endStream hs)
      ⟨.put (marked old hs), retained, .error "HTTP/2 trailers arrived before initial headers"⟩
  | trailers {d id hs p} (hg : (marked old hs).grpc = false) (hline : startLine hs = none)
      (hp : (marked old hs).pending d = some p) :
    Yields (.headers d id false hs)
      ⟨.put ((marked old hs).setPending d (some { p with headers := p.headers ++ hs })), retained,
        .ok []⟩
  | trailersEnd {d id hs p} (hg : (marked old hs).grpc = false) (hline : startLine hs = none)
      (hp : (marked old hs).pending d = some p) :
    Yields (.headers d id true hs)
      (.ended d ((marked old hs).setPending d none) (retained - p.body.length)
        [addHttp2Metadata (PendingMessage.finish { p with headers := p.headers ++ hs }) id d])
  | noStream {d id endStream data} (hold : old = none) :
    Yields (.data d id endStream data)
      ⟨.keep, retained, .error "HTTP/2 DATA arrived before HEADERS"⟩
  | noMessage {st d id endStream data} (hold : old = some st) (hg : st.grpc = false)
      (hp : st.pending d = none) :
    Yields (.data d id endStream data)
      ⟨.keep, retained, .error "HTTP/2 DATA arrived without message headers"⟩
  | data {st d id data p} (hold : old = some st) (hg : st.grpc = false)
      (hp : st.pending d = some p) :
    Yields (.data d id false data)
      ⟨.put (st.setPending d (some (p.extend maxBody retained data))),
        saturatingAdd retained (capturable maxBody retained p data), .ok []⟩
  | dataEnd {st d id data p} (hold : old = some st) (hg : st.grpc = false)
      (hp : st.pending d = some p) :
    Yields (.data d id true data)
      (.ended d (st.setPending d none)
        (saturatingAdd retained (capturable maxBody retained p data) -
          (p.extend maxBody retained data).body.length)
        [addHttp2Metadata (p.extend maxBody retained data).finish id d])
  | refused {st d id endStream data parser reason} (hold : old = some st) (hg : st.grpc = true)
      (hpush : st.pushGrpc d id data maxBody retained = (parser, .error reason)) :
    Yields (.data d id endStream data)
      ⟨.put (st.setGrpcParser d parser), retained, .error reason⟩
  | inside {st d id data parser messages} (hold : old = some st) (hg : st.grpc = true)
      (hpush : st.pushGrpc d id data maxBody retained = (parser, .ok messages))
      (hinside : parser.hasIncomplete = true) :
    Yields (.data d id true data)
      ⟨.put (st.setGrpcParser d parser),
        saturatingAdd (retained - (st.grpcParser d).retained) parser.retained,
        .error "gRPC stream ended inside a message envelope"⟩
  | push {st d id data parser messages} (hold : old = some st) (hg : st.grpc = true)
      (hpush : st.pushGrpc d id data maxBody retained = (parser, .ok messages)) :
    Yields (.data d id false data)
      ⟨.put (st.setGrpcParser d parser),
        saturatingAdd (retained - (st.grpcParser d).retained) parser.retained, .ok messages⟩
  | pushEnd {st d id data parser messages} (hold : old = some st) (hg : st.grpc = true)
      (hpush : st.pushGrpc d id data maxBody retained = (parser, .ok messages))
      (hinside : parser.hasIncomplete = false) :
    Yields (.data d id true data)
      (.ended d (st.setGrpcParser d parser)
        (saturatingAdd (retained - (st.grpcParser d).retained) parser.retained)
        (messages ++ endMessages d id))

theorem outcome_yields (e : Event) :
    Yields maxBody retained full old e (outcome maxBody retained full old e) := by
  cases e with
  | reset id => exact .reset
  | headers d id endStream hs =>
    simp only [outcome]
    split
    next hfull =>
      rw [Bool.and_eq_true, Option.isNone_iff_eq_none] at hfull
      exact .full hfull.1 hfull.2
    unfold headersOutcome
    cases hg : (marked old hs).grpc with
    | true => cases endStream <;> constructor <;> exact hg
    | false =>
      cases hline : startLine hs with
      | some line => cases endStream <;> constructor <;> assumption
      | none =>
        cases hp : (marked old hs).pending d with
        | none => exact .orphan hg hline hp
        | some p =>
          cases endStream with
          | false => exact .trailers hg hline hp
          | true => exact .trailersEnd hg hline hp
  | data d id endStream data =>
    cases old with
    | none => exact .noStream rfl
    | some st =>
      simp only [outcome]
      cases hg : st.grpc with
      | true =>
        rcases hpush : st.pushGrpc d id data maxBody retained with ⟨parser, result⟩
        simp only [↓reduceIte, grpcDataOutcome, hpush]
        cases result with
        | error reason => exact .refused rfl hg hpush
        | ok messages =>
          cases endStream with
          | false => exact .push rfl hg hpush
          | true =>
            cases hinside : parser.hasIncomplete with
            | true => exact .inside rfl hg hpush hinside
            | false => exact .pushEnd rfl hg hpush hinside
      | false =>
        simp only [Bool.false_eq_true, ↓reduceIte, plainDataOutcome]
        cases hp : st.pending d with
        | none => exact .noMessage rfl hg hp
        | some p =>
          cases endStream with
          | false => exact .data rfl hg hp
          | true => exact .dataEnd rfl hg hp

end Yields

structure Table where
  streams : Streams
  maxBody : Nat
  retainedBodyBytes : Nat

namespace Table

def new (maxBody : Nat) : Table := ⟨∅, maxBody, 0⟩

/-- No room for another stream. -/
def full (t : Table) : Bool := decide (maxTrackedStreams ≤ t.streams.entries.length)

variable (t : Table) (e : Event) (es : List Event)

theorem full_iff : t.full = true ↔ maxTrackedStreams ≤ t.streams.entries.length :=
  decide_eq_true_iff

/-- The streams after a change of one entry. -/
def change (streams : Streams) (id : Nat) : Change → Streams
  | .keep => streams
  | .put st => streams.insert id st
  | .remove => streams.erase id

/-- What an event does to its stream in this table. -/
def outcome (t : Table) (e : Event) : Outcome :=
  Http2.outcome t.maxBody t.retainedBodyBytes t.full (t.streams.lookup e.id) e

/-- The table after an event. -/
def apply (t : Table) (e : Event) : Table where
  streams := change t.streams e.id (t.outcome e).change
  maxBody := t.maxBody
  retainedBodyBytes := (t.outcome e).retained

/-- The table after a sequence of events. -/
def applyAll (t : Table) (es : List Event) : Table := es.foldl apply t

@[simp] theorem applyAll_nil : t.applyAll [] = t := rfl

@[simp] theorem applyAll_cons : t.applyAll (e :: es) = (t.apply e).applyAll es := rfl

theorem applyAll_append (es' : List Event) :
    t.applyAll (es ++ es') = (t.applyAll es).applyAll es' := List.foldl_append

/-- What each event of a sequence gives. -/
def results : Table → List Event → List (Except String (List DecodedMessage))
  | _, [] => []
  | t, e :: es => (t.outcome e).result :: results (t.apply e) es

theorem results_append (es' : List Event) :
    t.results (es ++ es') = t.results es ++ (t.applyAll es).results es' := by
  induction es generalizing t with
  | nil => rfl
  | cons e es ih => simp [results, ih]

@[simp] theorem apply_maxBody : (t.apply e).maxBody = t.maxBody := rfl

@[simp] theorem applyAll_maxBody : (t.applyAll es).maxBody = t.maxBody := by
  induction es generalizing t with
  | nil => rfl
  | cons e es ih => rw [applyAll_cons, ih, apply_maxBody]

/-- The entry of the event's stream afterwards. -/
theorem lookup_apply_self :
    (t.apply e).streams.lookup e.id = (t.outcome e).change.next (t.streams.lookup e.id) := by
  unfold apply change Change.next
  cases (t.outcome e).change with
  | keep => rfl
  | put st => exact AList.lookup_insert _
  | remove => exact AList.lookup_erase _ _

/-- An event does not touch the other streams. -/
theorem lookup_apply_ne {id : Nat} (h : id ≠ e.id) :
    (t.apply e).streams.lookup id = t.streams.lookup id := by
  unfold apply change
  cases (t.outcome e).change with
  | keep => rfl
  | put st => exact AList.lookup_insert_ne h
  | remove => exact AList.lookup_erase_ne h

/-- What holds of the table and is kept by every event holds after every sequence. -/
theorem applyAll_induction {P : Table → Prop} (hstep : ∀ t e, P t → P (t.apply e)) {t : Table}
    (h : P t) (es : List Event) : P (t.applyAll es) := by
  induction es generalizing t with
  | nil => exact h
  | cons e es ih => exact ih (hstep t e h)

/-- What holds of the table before a sequence, and of the table after each event if it
did before the event, holds with the events so far after every part of the sequence. -/
theorem applyAll_history {P : List Event → Table → Prop} {t : Table} {es : List Event} (h : P [] t)
    (hstep : ∀ pre e post, es = pre ++ e :: post → P pre (t.applyAll pre) →
      P (pre ++ [e]) ((t.applyAll pre).apply e)) :
    ∀ pre post, es = pre ++ post → P pre (t.applyAll pre) := by
  intro pre
  induction pre using List.reverseRecOn with
  | nil => exact fun _ _ => h
  | append_singleton pre e ih =>
    intro post hes
    rw [List.append_assoc, List.singleton_append] at hes
    rw [applyAll_append]
    exact hstep pre e post hes (ih (e :: post) hes)

end Table

/-! ## The handlers of the decoder -/

theorem erase_insert (streams : Streams) (id : Nat) (st : StreamState) :
    (streams.insert id st).erase id = streams.erase id := by
  apply AList.ext
  simp [AList.erase, AList.entries_insert]

namespace Http2Decoder

variable {η : Type} (s : Http2Decoder η)

def table : Table := ⟨s.streams, s.maxBody, s.retainedBodyBytes⟩

def withTable (t : Table) : Http2Decoder η :=
  { s with streams := t.streams, maxBody := t.maxBody, retainedBodyBytes := t.retainedBodyBytes }

@[simp] theorem withTable_table : s.withTable s.table = s := rfl

variable (d : Direction) (t : Table) (id : Nat) (endStream : Bool) (st : StreamState)

@[simp] theorem table_withTable : (s.withTable t).table = t := rfl

@[simp] theorem withTable_withTable (u : Table) : (s.withTable t).withTable u = s.withTable u := rfl

@[simp] theorem state_withTable (d : Direction) : (s.withTable t).state d = s.state d := by
  cases d <;> rfl

@[simp] theorem table_setState (st : DirectionState η) : (s.setState d st).table = s.table := by
  cases d <;> rfl

theorem setState_withTable (st : DirectionState η) (t : Table) :
    (s.withTable t).setState d st = (s.setState d st).withTable t := by
  cases d <;> rfl

/-- The decoder after an outcome for the stream `id`. -/
def settle (id : Nat) (o : Outcome) : Handled η :=
  (s.withTable ⟨Table.change s.streams id o.change, s.maxBody, o.retained⟩, o.result)

/-- The decoder after an event. -/
def observe (e : Event) : Handled η := (s.withTable (s.table.apply e), (s.table.outcome e).result)

theorem observe_eq_settle (e : Event) : s.observe e = s.settle e.id (s.table.outcome e) := rfl

/-- Taking out the stream that was just put in. -/
theorem removeStream_setStream (retained : Nat) :
    ({ s.setStream id st with retainedBodyBytes := retained } : Http2Decoder η).removeStream id =
      { s with
        streams := s.streams.erase id
        retainedBodyBytes := retained - st.retainedBodyBytes } := by
  simp [removeStream, setStream, erase_insert]

/-- The end of a direction, as the handlers write it. -/
theorem settle_ended (retained : Nat) (messages : List DecodedMessage) :
    ((if d = .serverToClient then
        ({ s.setStream id st with retainedBodyBytes := retained } : Http2Decoder η).removeStream id
      else { s.setStream id st with retainedBodyBytes := retained }), .ok messages) =
      s.settle id (.ended d st retained messages) := by
  cases d with
  | clientToServer => rfl
  | serverToClient => simp [removeStream_setStream, settle, Outcome.ended, Table.change, withTable]

theorem setStream_setStream (st' : StreamState) :
    (s.setStream id st).setStream id st' = s.setStream id st' := by
  simp [setStream, AList.insert_insert]

theorem grpcHeaders_eq (hs : Headers) (hg : st.grpc = true) :
    (s.setStream id st).grpcHeaders d id endStream st hs =
      s.settle id (headersOutcome d id endStream hs s.retainedBodyBytes st) := by
  rw [headersOutcome, if_pos hg]
  have hm : ((s.setStream id st).grpcHeaders d id endStream st hs) =
      ((if endStream = true ∧ d = .serverToClient then (s.setStream id st).removeStream id
        else s.setStream id st), .ok [grpcMessage d id st hs]) := by
    unfold grpcHeaders grpcMessage
    cases findHeader hs ":method" with
    | some method => rfl
    | none => cases findHeader hs ":status" <;> rfl
  rw [hm]
  cases endStream with
  | false => simp only [Bool.false_eq_true, false_and, ↓reduceIte]; rfl
  | true =>
    simp only [true_and, ↓reduceIte]
    exact s.settle_ended d id st s.retainedBodyBytes _

theorem plainHeaders_eq (hs : Headers) (line : String) (hg : st.grpc = false)
    (hl : startLine hs = some line) : (s.setStream id st).plainHeaders d id endStream st hs line =
      s.settle id (headersOutcome d id endStream hs s.retainedBodyBytes st) := by
  simp only [headersOutcome, hg, Bool.false_eq_true, ↓reduceIte, hl, plainHeaders,
    setStream_setStream]
  cases endStream <;> rfl

theorem plainTrailers_eq (hs : Headers) (hg : st.grpc = false)
    (hl : startLine hs = none) : (s.setStream id st).plainTrailers d id endStream st hs =
      s.settle id (headersOutcome d id endStream hs s.retainedBodyBytes st) := by
  simp only [headersOutcome, hg, Bool.false_eq_true, ↓reduceIte, hl, plainTrailers,
    setStream_setStream]
  cases hp : st.pending d with
  | none => rfl
  | some p =>
    cases endStream with
    | false => rfl
    | true =>
      simp only [↓reduceIte]
      exact s.settle_ended d id (st.setPending d none) (s.retainedBodyBytes - p.body.length) _

theorem applyHeaders_eq (hs : Headers) :
    s.applyHeaders d id endStream hs = s.observe (.headers d id endStream hs) := by
  rw [observe_eq_settle]
  unfold applyHeaders
  by_cases hfull : (s.streams.lookup id).isNone ∧ maxTrackedStreams ≤ s.streams.entries.length
  · have ho : s.table.outcome (.headers d id endStream hs) =
        ⟨.keep, s.retainedBodyBytes, .error "HTTP/2 connection exceeded 256 tracked streams"⟩ :=
      if_pos (by simpa [table, Table.full_iff, Event.id] using hfull)
    rw [ho]
    exact if_pos hfull
  · have ho : s.table.outcome (.headers d id endStream hs) =
        headersOutcome d id endStream hs s.retainedBodyBytes (.marked (s.streams.lookup id) hs) :=
      if_neg (by rw [Bool.and_eq_true, Table.full_iff]; exact hfull)
    rw [ho]
    refine (if_neg hfull).trans ?_
    change (if (StreamState.marked (s.streams.lookup id) hs).grpc = true then _ else _) = _
    by_cases hg : (StreamState.marked (s.streams.lookup id) hs).grpc = true
    · rw [if_pos hg]
      exact s.grpcHeaders_eq d id endStream _ hs hg
    · rw [if_neg hg]
      have hg' : (StreamState.marked (s.streams.lookup id) hs).grpc = false := by simpa using hg
      cases hm : findHeader hs ":method" with
      | some method => exact s.plainHeaders_eq d id endStream _ hs _ hg' (by simp [startLine, hm])
      | none =>
        cases hst : findHeader hs ":status" with
        | some status =>
          exact s.plainHeaders_eq d id endStream _ hs _ hg' (by simp [startLine, hm, hst])
        | none => exact s.plainTrailers_eq d id endStream _ hs hg' (by simp [startLine, hm, hst])

theorem plainData_eq (data : Bytes) : s.plainData d id endStream st data =
      s.settle id (plainDataOutcome d id endStream data s.maxBody s.retainedBodyBytes st) := by
  simp only [plainData, plainDataOutcome]
  cases hp : st.pending d with
  | none => rfl
  | some p =>
    cases endStream with
    | false => rfl
    | true => exact s.settle_ended d id (st.setPending d none) _ _

theorem grpcData_eq (data : Bytes) : s.grpcData d id endStream st data =
      s.settle id (grpcDataOutcome d id endStream data s.maxBody s.retainedBodyBytes st) := by
  rcases hp : st.pushGrpc d id data s.maxBody s.retainedBodyBytes with ⟨parser, result⟩
  have hp' := hp
  simp only [StreamState.pushGrpc, captureLimit] at hp'
  simp only [grpcData, grpcDataOutcome, hp, hp']
  cases result with
  | error reason => rfl
  | ok messages =>
    simp only
    cases endStream with
    | false => rfl
    | true =>
      simp only [↓reduceIte]
      split
      · rfl
      · cases d with
        | clientToServer => simp [endMessages]; rfl
        | serverToClient =>
          simp only [↓reduceIte, endMessages]
          exact s.settle_ended .serverToClient id (st.setGrpcParser .serverToClient parser) _ _

/-- A DATA frame whose padding is well formed is an event. -/
theorem handleData_eq (f : Frame) (data : Bytes) (hid : f.streamId ≠ 0)
    (hf : dataFragment f = .ok data) :
    s.handleData d f = s.observe (.data d f.streamId (f.has flagEndStream) data) := by
  rw [observe_eq_settle]
  simp only [handleData, hid, ↓reduceIte, hf, Table.outcome, Http2.outcome, table, Event.id]
  cases hst : s.streams.lookup f.streamId with
  | none => rfl
  | some st =>
    simp only
    split
    · exact s.grpcData_eq d f.streamId _ st data
    · exact s.plainData_eq d f.streamId _ st data

end Http2Decoder

end Lens.Http2
