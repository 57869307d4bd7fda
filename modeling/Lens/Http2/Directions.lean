import Lens.Http2.Table

/-!
# The two directions

The bytes of a direction decide which events it gives, whatever the streams hold:
`DirectionState.handle` and `DirectionState.turn` are `handle_frame` and a turn of
`decode_available` without the streams.  A turn of the decoder is a turn of the
direction and then its event in the table of streams (`turn_eq`), so a push is a
push of the direction and then all its events (`push_eq`).  A run of the decoder is
then a sequence of events, `events`, and the table and the messages of the run are
those of the sequence (`run_table`, `run_messages`).
-/

namespace Lens.Http2

open Stream (Turn)

/-! ## Results as batches -/

/-- The messages of a result. -/
def gives : Except String (List DecodedMessage) → List DecodedMessage
  | .ok messages => messages
  | .error _ => []

/-- The report of a result. -/
def faultOf : Except String (List DecodedMessage) → Option String
  | .ok _ => none
  | .error reason => some reason

namespace Table

/-- The messages of a sequence of events. -/
def messages (t : Table) (es : List Event) : List DecodedMessage := (t.results es).flatMap gives

@[simp] theorem messages_nil (t : Table) : t.messages [] = [] := rfl

@[simp] theorem messages_cons (t : Table) (e : Event) (es : List Event) :
    t.messages (e :: es) = gives (t.outcome e).result ++ (t.apply e).messages es := rfl

theorem messages_append (t : Table) (es es' : List Event) :
    t.messages (es ++ es') = t.messages es ++ (t.applyAll es).messages es' := by
  simp [messages, results_append]

/-- The fault a sequence of events reports: the last one. -/
def fault : Table → List Event → Option String
  | _, [] => none
  | t, e :: es => (fault (t.apply e) es).or (faultOf (t.outcome e).result)

@[simp] theorem fault_nil (t : Table) : t.fault [] = none := rfl

variable {es : List Event}

theorem fault_cons_eq_none {t : Table} {e : Event} : t.fault (e :: es) = none ↔
      faultOf (t.outcome e).result = none ∧ (t.apply e).fault es = none := by
  rw [fault, Option.or_eq_none_iff]
  exact And.comm

theorem fault_append_eq_none {t : Table} {es' : List Event} :
    t.fault (es ++ es') = none ↔ t.fault es = none ∧ (t.applyAll es).fault es' = none := by
  induction es generalizing t with
  | nil => simp
  | cons e es ih => rw [List.cons_append, fault_cons_eq_none, fault_cons_eq_none, ih,
      applyAll_cons, and_assoc]

end Table

/-! ## Frames to events -/

namespace DirectionState

variable {η : Type} (hp : Hpack η) (d : Direction)

/-- What a frame gives before the streams come in: an event, nothing, or a fault. -/
abbrev Recognized (η : Type) := DirectionState η × Except String (Option Event)

def completeHeaderBlock (st : DirectionState η) (block : HeaderBlock) : Recognized η :=
  if block.exceeded then (st, .error "HTTP/2 header block exceeded 64 KiB and was skipped")
  else
    let (hpack, decoded) := hp.decode st.hpack block.bytes
    let st := { st with hpack := hpack }
    match decoded with
    | .error e => (st, .error ("HPACK decode failed: " ++ e))
    | .ok fields =>
      if maxDecodedHeaders < Http2Decoder.decodedSize fields then
        (st, .error "decoded HTTP/2 headers exceeded 128 KiB")
      else
        (st, .ok (some (.headers d block.streamId block.endStream
          (Http2Decoder.headerText fields))))

def handleHeaders (st : DirectionState η) (f : Frame) : Recognized η :=
  if f.streamId = 0 then (st, .error "HTTP/2 HEADERS frame used stream 0")
  else
    match headerFragment f with
    | .error e => (st, .error e)
    | .ok fragment =>
      let block := HeaderBlock.extend ⟨f.streamId, f.has flagEndStream, [], false⟩ fragment
      if !f.has flagEndHeaders then ({ st with continuation := some block }, .ok none)
      else st.completeHeaderBlock hp d block

def handleContinuation (st : DirectionState η) (f : Frame) : Recognized η :=
  match st.continuation with
  | none => (st, .error "unexpected HTTP/2 CONTINUATION frame")
  | some block =>
    let st := { st with continuation := none }
    if f.streamId ≠ block.streamId then
      (st, .error "HTTP/2 CONTINUATION changed stream identifiers")
    else
      let block := block.extend f.payload
      if !f.has flagEndHeaders then ({ st with continuation := some block }, .ok none)
      else st.completeHeaderBlock hp d block

def handleData (st : DirectionState η) (f : Frame) : Recognized η :=
  if f.streamId = 0 then (st, .error "HTTP/2 DATA frame used stream 0")
  else
    match dataFragment f with
    | .error e => (st, .error e)
    | .ok data => (st, .ok (some (.data d f.streamId (f.has flagEndStream) data)))

def handle (st : DirectionState η) (f : Frame) : Recognized η :=
  if st.continuation.isSome ∧ f.kind ≠ frameContinuation then
    ({ st with continuation := none },
      .error "HTTP/2 header block was interrupted before END_HEADERS")
  else if f.kind = frameHeaders then st.handleHeaders hp d f
  else if f.kind = frameContinuation then st.handleContinuation hp d f
  else if f.kind = frameData then st.handleData d f
  else if f.kind = frameRstStream then (st, .ok (some (.reset f.streamId)))
  else (st, .ok none)

/-- The turn of a frame.  A fault closes the header block. -/
def handled (r : Recognized η) : Turn (DirectionState η) Event String :=
  match r with
  | (st, .ok event) => .again st ⟨event.toList, none⟩
  | (st, .error reason) => .again { st with continuation := none } ⟨[], some reason⟩

/-- One turn of `decode_available`, without the streams. -/
def turn (st : DirectionState η) : Turn (DirectionState η) Event String :=
  let (st, next) := st.nextFrame
  match next with
  | .frame f => handled (st.handle hp d f)
  | .skipped reason => .again st ⟨[], some reason⟩
  | .needMore => .stop st .needMore
  | .invalid reason => .stop st ⟨[], some reason⟩

section Turn

variable {hp d} {st t : DirectionState η} {reason : String}

theorem turn_frame {f : Frame} (h : st.nextFrame = (t, .frame f)) :
    st.turn hp d = handled (t.handle hp d f) := by
  rw [turn, h]

theorem turn_skipped (h : st.nextFrame = (t, .skipped reason)) :
    st.turn hp d = .again t ⟨[], some reason⟩ := by
  rw [turn, h]

theorem turn_needMore (h : st.nextFrame = (t, .needMore)) : st.turn hp d = .stop t .needMore := by
  rw [turn, h]

theorem turn_invalid (h : st.nextFrame = (t, .invalid reason)) :
    st.turn hp d = .stop t ⟨[], some reason⟩ := by
  rw [turn, h]

theorem handled_ne_stop (r : Recognized η) (t : DirectionState η) (b : Stream.Batch Event String) :
    handled r ≠ .stop t b := by
  rcases r with ⟨st, _ | e⟩ <;> simp [handled]

end Turn

def feed (st : DirectionState η) (bytes : Bytes) : DirectionState η :=
  { st with buffer := st.buffer ++ bytes }

def decodeAvailable (st : DirectionState η) : DirectionState η × Stream.Batch Event String :=
  Stream.drive (turn hp d) (st.buffer.length + 1) st

def push (st : DirectionState η) (bytes : Bytes) :
    DirectionState η × Stream.Batch Event String :=
  (st.feed bytes).decodeAvailable hp d

/-- Something is left that `finish` gives up. -/
def unfinished (st : DirectionState η) : Bool :=
  !st.buffer.isEmpty || st.continuation.isSome || decide (0 < st.skipPayload)

/-- The state after `finish` gave up what is left. -/
def flushed (st : DirectionState η) : DirectionState η :=
  if st.unfinished then { st with buffer := [], continuation := none, skipPayload := 0 } else st

def finish (st : DirectionState η) : DirectionState η × Stream.Batch Event String :=
  let r := st.decodeAvailable hp d
  if r.1.unfinished then
    (r.1.flushed, { r.2 with desynchronized := some "HTTP/2 stream ended inside a frame" })
  else r

/-! ### No header block is open at an event -/

theorem completeHeaderBlock_continuation (st : DirectionState η) (block : HeaderBlock) :
    (st.completeHeaderBlock hp d block).1.continuation = st.continuation := by
  unfold completeHeaderBlock
  rcases hp.decode st.hpack block.bytes with ⟨hpack, _ | fields⟩ <;> simp only <;>
    split <;> try rfl
  split <;> rfl

theorem handle_continuation {st st' : DirectionState η} {f : Frame} {e : Event}
    (h : st.handle hp d f = (st', .ok (some e))) : st'.continuation = none := by
  unfold handle at h
  split at h
  · cases h
  next hopen =>
  split at h
  · -- A block that HEADERS completes was not begun before.
    next hk =>
    have hnone : st.continuation = none := by
      by_contra hc
      exact hopen ⟨Option.isSome_iff_ne_none.mpr hc, by rw [hk]; decide⟩
    unfold handleHeaders at h
    split at h
    · cases h
    split at h
    · cases h
    simp only at h
    split at h
    · cases h
    rw [← hnone, ← completeHeaderBlock_continuation hp d st _, h]
  split at h
  · unfold handleContinuation at h
    split at h
    · cases h
    simp only at h
    split at h
    · cases h
    split at h
    · cases h
    next block _ _ _ =>
    have hc := completeHeaderBlock_continuation hp d { st with continuation := none }
      (block.extend f.payload)
    rwa [h] at hc
  next hk =>
  have hnone : st.continuation = none := by
    by_contra hc
    exact hopen ⟨Option.isSome_iff_ne_none.mpr hc, hk⟩
  split at h
  · unfold handleData at h
    split at h
    · cases h
    split at h
    · cases h
    cases h
    exact hnone
  split at h
  · cases h
    exact hnone
  · cases h

end DirectionState

/-! ## The decoder follows the direction -/

namespace Http2Decoder

variable {η : Type} (hp : Hpack η) (d : Direction) (s : Http2Decoder η) {d' : Direction}

@[simp] theorem state_setState (st : DirectionState η) : (s.setState d st).state d = st := by
  cases d <;> rfl

theorem state_setState_ne (h : d' ≠ d) (st : DirectionState η) :
    (s.setState d st).state d' = s.state d' := by
  cases d <;> cases d' <;> first | rfl | exact absurd rfl h

@[simp] theorem setState_state : s.setState d (s.state d) = s := by
  cases d <;> rfl

@[simp] theorem setState_setState (st st' : DirectionState η) :
    (s.setState d st).setState d st' = s.setState d st' := by
  cases d <;> rfl

@[simp] theorem setState_withTable_table (st : DirectionState η) :
    (s.setState d st).withTable s.table = s.setState d st := by
  cases d <;> rfl

/-- The decoder after a frame, from what the frame gave. -/
def follow (r : DirectionState.Recognized η) : Handled η :=
  match r with
  | (st, .error reason) => (s.setState d st, .error reason)
  | (st, .ok none) => (s.setState d st, .ok [])
  | (st, .ok (some e)) => (s.setState d st).observe e

theorem completeHeaderBlock_eq (block : HeaderBlock) :
    s.completeHeaderBlock hp d block = s.follow d ((s.state d).completeHeaderBlock hp d block) := by
  unfold completeHeaderBlock DirectionState.completeHeaderBlock
  split
  · simp [follow]
  · rcases hp.decode (s.state d).hpack block.bytes with ⟨hpack, _ | fields⟩
    · rfl
    · simp only [applyHeaders_eq]
      split <;> rfl

theorem handleHeaders_eq (f : Frame) :
    s.handleHeaders hp d f = s.follow d ((s.state d).handleHeaders hp d f) := by
  unfold handleHeaders DirectionState.handleHeaders
  split
  · simp [follow]
  cases headerFragment f with
  | error e => simp [follow]
  | ok fragment =>
    simp only [completeHeaderBlock_eq]
    split <;> rfl

theorem handleContinuation_eq (f : Frame) :
    s.handleContinuation hp d f = s.follow d ((s.state d).handleContinuation hp d f) := by
  unfold handleContinuation DirectionState.handleContinuation
  cases hc : (s.state d).continuation with
  | none => simp [follow]
  | some block =>
    simp only [completeHeaderBlock_eq, setContinuation, state_setState, setState_setState]
    split
    · rfl
    split
    · rfl
    · rcases DirectionState.completeHeaderBlock hp d _ _ with ⟨st, _ | _ | e⟩ <;>
        simp [follow]

theorem handleFrame_eq (f : Frame) :
    s.handleFrame hp d f = s.follow d ((s.state d).handle hp d f) := by
  unfold handleFrame DirectionState.handle
  split
  · rfl
  split
  · exact s.handleHeaders_eq hp d f
  split
  · exact s.handleContinuation_eq hp d f
  split
  · unfold DirectionState.handleData
    by_cases hid : f.streamId = 0
    · simp [handleData, hid, follow]
    · cases hf : dataFragment f with
      | error e => simp [handleData, hid, hf, follow]
      | ok data => simp [s.handleData_eq d f data hid hf, hid, follow]
  split
  · simp only [follow, setState_state]
    rfl
  · simp [follow]

/-- The decoder after a batch of events of the direction. -/
def followAll (r : DirectionState η × Stream.Batch Event String) : Http2Decoder η :=
  (s.setState d r.1).withTable (s.table.applyAll r.2.messages)

@[simp] theorem state_followAll (r : DirectionState η × Stream.Batch Event String) :
    (s.followAll d r).state d = r.1 := by
  simp [followAll]

theorem state_followAll_ne (h : d' ≠ d) (r : DirectionState η × Stream.Batch Event String) :
    (s.followAll d r).state d' = s.state d' := by
  rw [followAll, state_withTable, state_setState_ne _ _ h]

@[simp] theorem table_followAll (r : DirectionState η × Stream.Batch Event String) :
    (s.followAll d r).table = s.table.applyAll r.2.messages := rfl

theorem followAll_followAll (r r' : DirectionState η × Stream.Batch Event String) :
    (s.followAll d r).followAll d r' = s.followAll d (r'.1, r.2.seq r'.2) := by
  simp [followAll, setState_withTable, Table.applyAll_append]

/-- The batch of the decoder for a batch of at most one event. -/
def batchOf (t : Table) (c : Stream.Batch Event String) : DecodeBatch :=
  ⟨t.messages c.messages, (t.fault c.messages).or c.desynchronized⟩

/-- A turn of the decoder is a turn of the direction, then its event. -/
theorem turn_eq :
    s.turn hp d = match (s.state d).turn hp d with
      | .again st b => .again (s.followAll d (st, b)) (batchOf s.table b)
      | .stop st b => .stop (s.followAll d (st, b)) (batchOf s.table b) := by
  unfold turn DirectionState.turn DirectionState.handled followAll batchOf
  rcases (s.state d).nextFrame with ⟨st, f | reason | _ | reason⟩
  · simp only [handleFrame_eq, state_setState]
    cases hh : st.handle hp d f with
    | mk st' result =>
    rcases result with reason | _ | e
    · simp [follow, setContinuation]
    · simp [follow]
    · -- The fault of an event closes no header block: none is open.
      have hc := DirectionState.handle_continuation hp d hh
      have hset : ∀ u : Http2Decoder η, u.state d = st' → u.setContinuation d none = u := by
        intro u hu
        have : ({ st' with continuation := none } : DirectionState η) = st' := by
          rw [← hc]
        rw [setContinuation, hu, this, ← hu, setState_state]
      simp only [follow, setState_setState, observe, table_setState]
      cases hr : (s.table.outcome e).result with
      | ok messages => simp [Table.fault, hr, gives, faultOf]
      | error reason => simp [Table.fault, hr, gives, faultOf, hset]
  · simp
  · simp [Stream.Batch.needMore]
  · simp

/-- The batch of the decoder goes with the batch of events. -/
structure Follows (t : Table) (b : DecodeBatch) (c : Stream.Batch Event String) : Prop where
  messages : b.messages = t.messages c.messages
  silent : b.desynchronized = none ↔ t.fault c.messages = none ∧ c.desynchronized = none

theorem Follows.batchOf (t : Table) (c : Stream.Batch Event String) :
    Follows t (batchOf t c) c where
  messages := rfl
  silent := Option.or_eq_none_iff

theorem Follows.seq {t : Table} {b b' : DecodeBatch} {c c' : Stream.Batch Event String}
    (h : Follows t b c) (h' : Follows (t.applyAll c.messages) b' c') :
    Follows t (b.seq b') (c.seq c') where
  messages := by
    rw [Stream.Batch.seq_messages, Stream.Batch.seq_messages, Table.messages_append, h.messages,
      h'.messages]
  silent := by
    rw [Stream.Batch.seq_desynchronized_eq_none, Stream.Batch.seq_desynchronized_eq_none,
      Stream.Batch.seq_messages, Table.fault_append_eq_none, h.silent, h'.silent]
    tauto

/-- The loop of the decoder is the loop of the direction, then its events. -/
theorem drive_turn (n : Nat) :
    (Stream.drive (turn hp d) n s).1 =
        s.followAll d (Stream.drive (DirectionState.turn hp d) n (s.state d)) ∧
      Follows s.table (Stream.drive (turn hp d) n s).2
        (Stream.drive (DirectionState.turn hp d) n (s.state d)).2 := by
  induction n generalizing s with
  | zero =>
    constructor
    · simp [Stream.drive, followAll, Stream.Batch.needMore]
    · exact .batchOf s.table .needMore
  | succ n ih =>
    rw [Stream.drive_succ, Stream.drive_succ, turn_eq]
    cases (s.state d).turn hp d with
    | stop st b => exact ⟨rfl, .batchOf s.table b⟩
    | again st b =>
      obtain ⟨hstate, hbatch⟩ := ih (s.followAll d (st, b))
      rw [state_followAll] at hstate hbatch
      constructor
      · rw [Stream.resume, hstate, followAll_followAll]
        rfl
      · exact Follows.seq (.batchOf s.table b) hbatch

/-! ## Calls -/

theorem decodeAvailable_eq :
    (s.decodeAvailable hp d).1 = s.followAll d ((s.state d).decodeAvailable hp d) ∧
      Follows s.table (s.decodeAvailable hp d).2 ((s.state d).decodeAvailable hp d).2 :=
  s.drive_turn hp d _

theorem push_eq (bytes : Bytes) :
    (s.push hp d bytes).1 = s.followAll d ((s.state d).push hp d bytes) ∧
      Follows s.table (s.push hp d bytes).2 ((s.state d).push hp d bytes).2 := by
  have h := (s.setState d ((s.state d).feed bytes)).decodeAvailable_eq hp d
  rw [state_setState, table_setState] at h
  refine ⟨h.1.trans ?_, h.2⟩
  simp [followAll, DirectionState.push]

theorem finish_eq :
    (s.finish hp d).1 = s.followAll d ((s.state d).finish hp d) ∧
      Follows s.table (s.finish hp d).2 ((s.state d).finish hp d).2 := by
  obtain ⟨hstate, hbatch⟩ := s.decodeAvailable_eq hp d
  have hst : (s.decodeAvailable hp d).1.state d = ((s.state d).decodeAvailable hp d).1 := by
    rw [hstate, state_followAll]
  have hfinish : s.finish hp d =
      if ((s.decodeAvailable hp d).1.state d).unfinished = true then
        ((s.decodeAvailable hp d).1.setState d { (s.decodeAvailable hp d).1.state d with
            buffer := [], continuation := none, skipPayload := 0 },
          { (s.decodeAvailable hp d).2 with
            desynchronized := some "HTTP/2 stream ended inside a frame" })
      else s.decodeAvailable hp d := rfl
  rw [hfinish, hst, DirectionState.finish]
  by_cases hu : ((s.state d).decodeAvailable hp d).1.unfinished = true
  · simp only [hu, ↓reduceIte, DirectionState.flushed, hstate]
    exact ⟨by simp [followAll, setState_withTable], hbatch.messages, by simp⟩
  · simp only [hu, Bool.false_eq_true, ↓reduceIte]
    exact ⟨hstate, hbatch⟩

/-- One call of the decoder. -/
def call : Call → Http2Decoder η × DecodeBatch
  | .push d bytes => s.push hp d bytes
  | .finish d => s.finish hp d

/-- What a call gives in its direction. -/
def callDirection : Call → DirectionState η × Stream.Batch Event String
  | .push d bytes => (s.state d).push hp d bytes
  | .finish d => (s.state d).finish hp d

theorem call_eq (c : Call) :
    (s.call hp c).1 = s.followAll c.direction (s.callDirection hp c) ∧
      Follows s.table (s.call hp c).2 (s.callDirection hp c).2 := by
  cases c with
  | push d bytes => exact s.push_eq hp d bytes
  | finish d => exact s.finish_eq hp d

/-- A sequence of calls: the last state, and the batch of each call. -/
def run : Http2Decoder η → List Call → Http2Decoder η × List DecodeBatch
  | s, [] => (s, [])
  | s, c :: cs =>
    let r := s.call hp c
    let rs := run r.1 cs
    (rs.1, r.2 :: rs.2)

/-- The events of a sequence of calls. -/
def events : Http2Decoder η → List Call → List Event
  | _, [] => []
  | s, c :: cs => (s.callDirection hp c).2.messages ++ events (s.call hp c).1 cs

/-- The table after a run is the table after its events. -/
theorem run_table (calls : List Call) :
    (s.run hp calls).1.table = s.table.applyAll (s.events hp calls) := by
  induction calls generalizing s with
  | nil => rfl
  | cons c cs ih =>
    rw [run, ih, events, Table.applyAll_append, (s.call_eq hp c).1, table_followAll]

/-- The messages of a run are those of its events. -/
theorem run_messages (calls : List Call) :
    (s.run hp calls).2.flatMap Stream.Batch.messages = s.table.messages (s.events hp calls) := by
  induction calls generalizing s with
  | nil => rfl
  | cons c cs ih =>
    rw [run, List.flatMap_cons, ih, events, Table.messages_append, (s.call_eq hp c).2.messages,
      (s.call_eq hp c).1, table_followAll]

end Http2Decoder

end Lens.Http2
