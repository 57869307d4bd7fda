import Lens.Http2.Received

/-!
# DATA that is dropped

The bytes of a direction, read as frames without the caps of the decoder, say which DATA
has come (`wireFrames`).  The decoder makes an event of most of it, but it drops a DATA
frame over the observation cap, and one that stands inside a header block.  The log of a
direction has both in their order (`logAll`).  What is not dropped in it is just what the
decoder makes of the direction in a run, whatever the fragmentation
(`eventsOf_eq_taken`).

A run interleaves two directions.  `woven` is the run as one direction saw it: all events,
with the dropped DATA of the direction where it came.
-/

namespace Lens.Http2

open List
open Search (beNat)
open Stream (Settles)

/-! ## Frames in bytes -/

/-- The frames that stand complete in bytes. -/
def splitFrames : Nat → Bytes → List Frame
  | n + 1, a :: b :: c :: kind :: flags :: i :: j :: k :: l :: rest =>
    let length := beNat [a, b, c]
    if rest.length < length then []
    else
      ⟨kind, flags, beNat [i &&& 0x7f, j, k, l], rest.take length⟩ ::
        splitFrames n (rest.drop length)
  | _, _ => []

/-- The frames of a direction in all its bytes. -/
def wireFrames (d : Direction) (bytes : Bytes) : List Frame :=
  splitFrames bytes.length (bytes.drop (opening d).length)

theorem splitFrames_short {bytes : Bytes} (h : bytes.length < frameHeaderBytes) (n : Nat) :
    splitFrames n bytes = [] := by
  match n, bytes with
  | 0, _ => rfl
  | n + 1, a :: b :: c :: kind :: flags :: i :: j :: k :: l :: rest =>
    simp [frameHeaderBytes] at h
    omega
  | n + 1, [] | n + 1, [_] | n + 1, [_, _] | n + 1, [_, _, _] | n + 1, [_, _, _, _]
  | n + 1, [_, _, _, _, _] | n + 1, [_, _, _, _, _, _] | n + 1, [_, _, _, _, _, _, _]
  | n + 1, [_, _, _, _, _, _, _, _] => rfl

theorem splitFrames_bytes {f : Frame} (hf : f.OnWire) (n : Nat) (rest : Bytes) :
    splitFrames (n + 1) (f.bytes ++ rest) = f :: splitFrames n rest := by
  have hlen : beNat (Search.be24 f.payload.length) = f.payload.length :=
    Search.beNat_be24 hf.payload
  have hid := Frame.beNat_masked hf.streamId
  change splitFrames (n + 1) (_ :: _ :: _ :: _ :: _ :: _ :: _ :: _ :: _ :: (f.payload ++ rest)) = _
  simp only [Search.be24] at hlen
  simp only [splitFrames, hlen, hid, length_append]
  rw [if_neg (by omega), drop_left, take_left]

variable {frames : List Frame}

/-- The frames of the bytes of frames. -/
theorem splitFrames_flatMap (hf : ∀ f ∈ frames, f.OnWire) :
    ∀ n, frames.length ≤ n → splitFrames n (frames.flatMap Frame.bytes) = frames := by
  induction frames with
  | nil => exact fun n _ => splitFrames_short (by decide) n
  | cons f fs ih =>
    intro n hn
    cases n with
    | zero => simp at hn
    | succ n =>
      rw [flatMap_cons, splitFrames_bytes (hf f (mem_cons_self ..)),
        ih (fun g hg => hf g (mem_cons_of_mem _ hg)) n (by simpa using hn)]

theorem length_le_flatMap_bytes (frames : List Frame) :
    frames.length ≤ (frames.flatMap Frame.bytes).length := by
  induction frames with
  | nil => exact Nat.le_refl 0
  | cons f fs ih =>
    rw [flatMap_cons, length_append, Frame.length_bytes, length_cons]
    omega

theorem wireFrames_flatMap (d : Direction) (hf : ∀ f ∈ frames, f.OnWire) :
    wireFrames d (opening d ++ frames.flatMap Frame.bytes) = frames := by
  rw [wireFrames, drop_left]
  refine splitFrames_flatMap hf _ ((length_le_flatMap_bytes frames).trans ?_)
  rw [length_append]
  omega

/-! ## The log of a direction -/

/-- A frame in the log of a direction: the event that it gives, or the event of DATA that
is dropped. -/
inductive Logged where
  | taken (e : Event)
  | lost (e : Event)

namespace Logged

/-- What the wire says, dropped or not. -/
def event : Logged → Event
  | taken e => e
  | lost e => e

def taken? : Logged → Option Event
  | taken e => some e
  | lost _ => none

def isTaken : Logged → Bool
  | taken _ => true
  | lost _ => false

end Logged

namespace DirectionState

variable {η : Type} (hp : Hpack η) (d : Direction)

/-- A DATA frame that does not come to `handleData`: it is over the cap, or a header block
is open. -/
def dropsData (st : DirectionState η) (f : Frame) : Bool :=
  f.kind == frameData && (decide (maxObservedFramePayload < f.payload.length) ||
    st.continuation.isSome)

/-- A frame in the log. -/
def log (st : DirectionState η) (f : Frame) : List Logged :=
  if st.dropsData f then
    match (st.handleData d f).2 with
    | .ok e => e.toList.map .lost
    | .error _ => []
  else (st.receive hp d f).2.map .taken

/-- The log of a sequence of frames. -/
def logAll : DirectionState η → List Frame → List Logged
  | _, [] => []
  | st, f :: fs => st.log hp d f ++ logAll (st.receive hp d f).1 fs

variable {hp d} {st : DirectionState η}

variable (hp d) in
theorem receive_dropped {f : Frame} (h : st.dropsData f = true) : (st.receive hp d f).2 = [] := by
  rw [dropsData, Bool.and_eq_true, beq_iff_eq, Bool.or_eq_true, decide_eq_true_iff] at h
  obtain ⟨hkind, hlen | hopen⟩ := h
  · rw [receive_skipped hlen]
  · by_cases hlen : maxObservedFramePayload < f.payload.length
    · rw [receive_skipped hlen]
    · have hne : f.kind ≠ frameContinuation := by rw [hkind]; decide
      have hhandle : st.handle hp d f = _ := if_pos ⟨hopen, hne⟩
      rw [receive_error (not_lt.mp hlen) hhandle]

theorem taken_log (st : DirectionState η) (f : Frame) :
    (st.log hp d f).filterMap Logged.taken? = (st.receive hp d f).2 := by
  unfold log
  split
  · next h =>
    rw [receive_dropped hp d h]
    split
    · rename_i e _
      cases e <;> rfl
    · rfl
  · induction (st.receive hp d f).2 with
    | nil => rfl
    | cons e es ih => simp_all [Logged.taken?]

theorem taken_logAll (st : DirectionState η) (frames : List Frame) :
    (st.logAll hp d frames).filterMap Logged.taken? = (st.receiveAll hp d frames).2 := by
  induction frames generalizing st with
  | nil => rfl
  | cons f fs ih => rw [logAll, filterMap_append, taken_log, ih, receiveAll]

/-- Frames that each give one event and leave the direction as it is. -/
theorem logAll_forall₂ {frames : List Frame} {events : List Event}
    (h : List.Forall₂ (fun f e => st.receive hp d f = (st, [e])) frames events) :
    st.logAll hp d frames = events.map .taken := by
  induction h with
  | nil => rfl
  | cons hf _ ih =>
    rename_i f e _ _ _
    have hkept : st.dropsData f = false := by
      by_contra hdrops
      have hnil := receive_dropped hp d (by simpa using hdrops)
      rw [hf] at hnil
      cases hnil
    rw [logAll, log, if_neg (by simp [hkept]), hf, ih]
    rfl

/-- A payload that is skipped and has not all arrived. -/
theorem nextFrame_skipping (st : DirectionState η) (hpre : st.expectClientPreface = false)
    (h : st.buffer.length < st.skipPayload) :
    st.nextFrame =
      ({ st with buffer := [], skipPayload := st.skipPayload - st.buffer.length }, .needMore) := by
  rw [nextFrame_eq_skipThenTake hpre, skipThenTake_short h]

variable (hp d) in
/-- The loop on any bytes receives the frames that are complete. -/
theorem settles_split (h : st.Ready) (n : Nat) {bytes : Bytes} (hn : bytes.length ≤ n) :
    ∃ t b, Settles (turn hp d) (st.feed bytes) t b ∧
      b.messages = (st.receiveAll hp d (splitFrames n bytes)).2 := by
  induction n generalizing st bytes with
  | zero =>
    obtain rfl : bytes = [] := length_eq_zero_iff.mp (by omega)
    have hnil : st.feed [] = st := by rw [feed, append_nil]
    rw [hnil]
    exact ⟨_, _, .stop (turn_needMore (nextFrame_ready h)), rfl⟩
  | succ n ih =>
    have hnext : (st.feed bytes).nextFrame = (st.feed bytes).takeFrame :=
      nextFrame_eq_takeFrame h.preface h.skip
    have hbuffer : (st.feed bytes).buffer = bytes := by
      rw [feed_buffer, h.buffer, nil_append]
    by_cases hshort : bytes.length < frameHeaderBytes
    · rw [takeFrame_short (by rwa [hbuffer])] at hnext
      rw [splitFrames_short hshort]
      exact ⟨_, _, .stop (turn_needMore hnext), rfl⟩
    obtain ⟨a, b, c, kind, flags, i, j, k, l, rest, rfl⟩ := exists_head hshort
    rw [splitFrames]
    by_cases hrest : rest.length < beNat [a, b, c]
    · -- The last frame is not complete: it waits, or what there is of it is skipped.
      rw [if_pos hrest]
      rw [takeFrame_head hbuffer] at hnext
      simp only [if_pos hrest] at hnext
      by_cases hcap : maxObservedFramePayload < beNat [a, b, c]
      · rw [if_pos hcap] at hnext
        have hwaits := nextFrame_skipping ({ st with
          buffer := rest.drop (beNat [a, b, c]), skipPayload := beNat [a, b, c] - rest.length } :
            DirectionState η) h.preface (by simp; omega)
        exact ⟨_, _, .again (turn_skipped hnext) (.stop (turn_needMore hwaits)), rfl⟩
      · rw [if_neg hcap] at hnext
        exact ⟨_, _, .stop (turn_needMore hnext), rfl⟩
    · rw [if_neg hrest]
      have htake : (rest.take (beNat [a, b, c])).length = beNat [a, b, c] := by
        rw [length_take, Nat.min_eq_left (not_lt.mp hrest)]
      obtain ⟨fault, hturn⟩ := turn_head hp d h
        (f := ⟨kind, flags, beNat [i &&& 0x7f, j, k, l], rest.take (beNat [a, b, c])⟩)
        htake.symm rfl
        (rest.drop (beNat [a, b, c]))
      simp only [take_append_drop] at hturn
      have hshorter : (rest.drop (beNat [a, b, c])).length ≤ n := by
        simp only [length_cons] at hn
        rw [length_drop]
        omega
      obtain ⟨t, b', hsettles, hmessages⟩ := ih (h.receive _) hshorter
      exact ⟨_, _, .again hturn hsettles, congrArg _ hmessages⟩

end DirectionState

/-! ## The direction of an event -/

/-- The direction that an event names. -/
def Event.direction : Event → Option Direction
  | .headers d .. => some d
  | .data d .. => some d
  | .reset _ => none

/-- What a direction can make of a frame. -/
inductive Recognizes (d : Direction) : Event → Prop where
  | headers {id endStream fields} (h : Http2Decoder.decodedSize fields ≤ maxDecodedHeaders) :
    Recognizes d (.headers d id endStream (Http2Decoder.headerText fields))
  | data {id endStream data} : Recognizes d (.data d id endStream data)
  | reset {id} : Recognizes d (.reset id)

namespace DirectionState

variable {η : Type} {hp : Hpack η} {d : Direction} {st st' : DirectionState η} {e : Event}

theorem completeHeaderBlock_recognizes {block : HeaderBlock}
    (h : st.completeHeaderBlock hp d block = (st', .ok (some e))) : Recognizes d e := by
  unfold completeHeaderBlock at h
  simp only at h
  split at h
  · cases h
  split at h
  · cases h
  split at h
  · cases h
  next hsize =>
    cases h
    exact .headers (Nat.le_of_not_lt hsize)

theorem handle_recognizes {f : Frame} (h : st.handle hp d f = (st', .ok (some e))) :
    Recognizes d e := by
  unfold handle at h
  split at h
  · cases h
  split at h
  · unfold handleHeaders at h
    split at h
    · cases h
    split at h
    · cases h
    simp only at h
    split at h
    · cases h
    exact completeHeaderBlock_recognizes h
  split at h
  · unfold handleContinuation at h
    split at h
    · cases h
    simp only at h
    split at h
    · cases h
    split at h
    · cases h
    exact completeHeaderBlock_recognizes h
  split at h
  · unfold handleData at h
    split at h
    · cases h
    split at h
    · cases h
    cases h
    exact .data
  split at h <;> cases h
  exact .reset

theorem turn_recognizes {t : DirectionState η} {b : Stream.Batch Event String}
    (h : st.turn hp d = .again t b ∨ st.turn hp d = .stop t b) :
    ∀ e ∈ b.messages, Recognizes d e := by
  rcases hst : st.nextFrame with ⟨w, f | reason | _ | reason⟩
  · rw [turn_frame hst] at h
    rcases hr : w.handle hp d f with ⟨w', reason | _ | event⟩ <;> rw [hr] at h <;>
      simp only [handled, reduceCtorEq, or_false] at h <;> cases h
    · simp
    · simp
    · exact forall_mem_singleton.mpr (handle_recognizes hr)
  · rw [turn_skipped hst] at h
    rcases h with h | h <;> cases h
    simp
  · rw [turn_needMore hst] at h
    rcases h with h | h <;> cases h
    simp [Stream.Batch.needMore]
  · rw [turn_invalid hst] at h
    rcases h with h | h <;> cases h
    simp

theorem decodeAvailable_recognizes (hp : Hpack η) (d : Direction) (st : DirectionState η) :
    ∀ e ∈ (st.decodeAvailable hp d).2.messages, Recognizes d e :=
  Stream.drive_messages (fun h => turn_recognizes (.inl h)) (fun h => turn_recognizes (.inr h)) _ _

end DirectionState

/-! ## The log of a run -/

namespace Http2Decoder

variable {η : Type} (hp : Hpack η) (d : Direction) {calls : List Call} {s : Http2Decoder η}
  {e : Event}

/-- The log of a direction in a sequence of calls. -/
def log (calls : List Call) : List Logged :=
  (DirectionState.new hp false).logAll hp d (wireFrames d (sent d calls))

/-- What is not dropped is what the decoder makes of the direction. -/
theorem eventsOf_eq_taken (maxBody : Nat) (hpush : .finish d ∉ calls)
    (hopening : opening d <+: sent d calls) :
    (new hp maxBody).eventsOf hp d calls = (log hp d calls).filterMap Logged.taken? := by
  obtain ⟨bytes, hbytes⟩ := hopening
  have hready : (DirectionState.new hp false).Ready := ⟨rfl, rfl, rfl⟩
  have hlen : bytes.length ≤ (sent d calls).length := by
    rw [← hbytes, length_append]
    omega
  obtain ⟨t, b, hsettles, hmessages⟩ := DirectionState.settles_split hp d hready _ hlen
  have hrun := run_settles hpush (hsettles.congr (by rw [← hbytes, turn_opening]))
    (turn_new hp d maxBody)
  rw [hrun.2, hmessages, log, DirectionState.taken_logAll, wireFrames, ← hbytes, drop_left]

/-- The preface, a header block that stays open, DATA that comes inside it and RST_STREAM, with
both frames cut between pushes. -/
def brokenOff : List Call :=
  [.push .clientToServer (opening .clientToServer ++ [0, 0, 0, 1, 0, 0, 0, 0, 3, 0, 0, 1, 0, 0]),
    .push .clientToServer [0, 0, 0, 1, 7, 0, 0, 4, 3, 0, 0],
    .push .clientToServer [0, 0, 1, 0, 0, 0, 0]]

/-- The DATA is in the log and is dropped. -/
theorem eventsOf_reset :
    (log Hpack.static .clientToServer brokenOff).map Logged.event =
        [.data .clientToServer 1 false [7], .reset 1] ∧
      [.reset 1] = (log Hpack.static .clientToServer brokenOff).filterMap Logged.taken? :=
  ⟨by decide +kernel, .trans (by decide +kernel)
    (eventsOf_eq_taken _ .clientToServer 8 (by simp [brokenOff]) (by decide +kernel))⟩

variable {hp} in
/-- The log of frames in one push of the client, if they leave the HPACK state as it is. -/
theorem log_push {frames : List Frame} {es : List Event} (hf : ∀ f ∈ frames, f.OnWire)
    (h : List.Forall₂ (fun f e => (DirectionState.new hp false).receive hp .clientToServer f =
      (.new hp false, [e])) frames es) :
    log hp .clientToServer [.push .clientToServer (clientPreface ++ frames.flatMap Frame.bytes)] =
      es.map .taken := by
  have hsent : sent .clientToServer
      [.push .clientToServer (clientPreface ++ frames.flatMap Frame.bytes)] =
      opening .clientToServer ++ frames.flatMap Frame.bytes := append_nil _
  rw [log, hsent, wireFrames_flatMap _ hf, DirectionState.logAll_forall₂ h]

/-- The events of a run, each with the direction of its call. -/
def directed : Http2Decoder η → List Call → List (Direction × Event)
  | _, [] => []
  | s, c :: cs =>
    (s.callDirection hp c).2.messages.map (c.direction, ·) ++ directed (s.call hp c).1 cs

theorem directed_snd (s : Http2Decoder η) (calls : List Call) :
    (s.directed hp calls).map Prod.snd = s.events hp calls := by
  induction calls generalizing s with
  | nil => rfl
  | cons c cs ih => simp [directed, events, ih, Function.comp_def]

/-- An event is one of the direction of its call. -/
theorem directed_recognizes {d : Direction} (h : (d, e) ∈ s.directed hp calls) :
    Recognizes d e := by
  induction calls generalizing s with
  | nil => simp [directed] at h
  | cons c cs ih =>
    rw [directed, mem_append, mem_map] at h
    rcases h with ⟨e', hmem, heq⟩ | h
    · cases heq
      cases c with
      | push d bytes => exact DirectionState.decodeAvailable_recognizes hp d _ e hmem
      | finish d =>
        refine DirectionState.decodeAvailable_recognizes hp d (s.state d) e ?_
        simp only [callDirection, DirectionState.finish] at hmem
        split at hmem <;> exact hmem
    · exact ih h

/-- An event names the direction of its call, or none. -/
theorem directed_direction {d : Direction} (h : (d, e) ∈ s.directed hp calls) {d' : Direction}
    (he : e.direction = some d') : d' = d := by
  cases directed_recognizes hp h with
  | headers | data => exact (Option.some.inj he).symm
  | reset => cases he

end Http2Decoder

/-- The run as a direction saw it: the DATA of the direction that was dropped stands
before the next event of the direction. -/
def woven (d : Direction) : List Logged → List (Direction × Event) → List Logged
  | _, [] => []
  | log, (d', e) :: es =>
    if d' = d then
      log.takeWhile (!·.isTaken) ++ .taken e :: woven d ((log.dropWhile (!·.isTaken)).drop 1) es
    else .taken e :: woven d log es

/-- Nothing is dropped. -/
theorem woven_of_taken (d : Direction) {log : List Logged} (h : log.all Logged.isTaken = true)
    (es : List (Direction × Event)) : woven d log es = es.map fun e => .taken e.2 := by
  induction es generalizing log with
  | nil => rfl
  | cons e es ih =>
    obtain ⟨d', e⟩ := e
    have hnone : log.takeWhile (!·.isTaken) = [] := by
      cases log with
      | nil => rfl
      | cons x log => simp_all
    have hall : log.dropWhile (!·.isTaken) = log := by
      cases log with
      | nil => rfl
      | cons x log => simp_all
    have hrest : (log.drop 1).all Logged.isTaken = true := by
      cases log with
      | nil => rfl
      | cons x log => simp_all
    rw [woven, hnone, hall, ih h, ih hrest]
    simp

end Lens.Http2
