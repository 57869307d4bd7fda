import Lens.Http2.Wire

/-!
# The frames of a direction

What a direction makes of a sequence of frames, one frame after the other: `receive`
is a frame, `receiveAll` the sequence.  A frame over the observation cap is dropped, and
a fault closes the open header block.  The bytes of the frames, pushed in any
fragmentation and between any calls of the other direction, do just that
(`run_receives`).
-/

namespace Lens.Http2

open List
open Search (be24 be32 beNat)
open Stream (Settles)

/-- What the head of a frame can say: a length of 24 bits, an identifier of 31. -/
structure Frame.OnWire (f : Frame) : Prop where
  payload : f.payload.length < 0x1000000
  streamId : f.streamId < 0x80000000

instance (f : Frame) : Decidable f.OnWire :=
  decidable_of_iff (f.payload.length < 0x1000000 ∧ f.streamId < 0x80000000)
    ⟨fun h => ⟨h.1, h.2⟩, fun h => ⟨h.1, h.2⟩⟩

namespace DirectionState

variable {η : Type} (hp : Hpack η) (d : Direction)

/-- The direction after a frame, and the events of the frame. -/
def receive (st : DirectionState η) (f : Frame) : DirectionState η × List Event :=
  if maxObservedFramePayload < f.payload.length then (st, [])
  else
    match st.handle hp d f with
    | (st, .ok event) => (st, event.toList)
    | (st, .error _) => ({ st with continuation := none }, [])

/-- The direction after a sequence of frames, and their events. -/
def receiveAll : DirectionState η → List Frame → DirectionState η × List Event
  | st, [] => (st, [])
  | st, f :: fs =>
    let r := st.receive hp d f
    let rs := receiveAll r.1 fs
    (rs.1, r.2 ++ rs.2)

variable {hp d} {st : DirectionState η} {st' t : DirectionState η} {f : Frame} {reason : String}
  {frames : List Frame}

theorem receive_ok {event : Option Event} (hlen : f.payload.length ≤ maxObservedFramePayload)
    (h : st.handle hp d f = (st', .ok event)) : st.receive hp d f = (st', event.toList) := by
  rw [receive, if_neg (not_lt.mpr hlen), h]

theorem receive_error (hlen : f.payload.length ≤ maxObservedFramePayload)
    (h : st.handle hp d f = (st', .error reason)) :
    st.receive hp d f = ({ st' with continuation := none }, []) := by
  rw [receive, if_neg (not_lt.mpr hlen), h]

theorem receive_skipped (hlen : maxObservedFramePayload < f.payload.length) :
    st.receive hp d f = (st, []) :=
  if_pos hlen

theorem Ready.receive (h : st.Ready) (f : Frame) : (st.receive hp d f).1.Ready := by
  have hhandle : (st.handle hp d f).1.Ready := by
    rw [handle_eq]
    exact ⟨h.preface, h.skip, h.buffer⟩
  by_cases hlen : maxObservedFramePayload < f.payload.length
  · rwa [receive_skipped hlen]
  · rcases hr : st.handle hp d f with ⟨st', reason | event⟩
    · rw [hr] at hhandle
      rw [receive_error (not_lt.mp hlen) hr]
      exact ⟨hhandle.preface, hhandle.skip, hhandle.buffer⟩
    · rw [hr] at hhandle
      rw [receive_ok (not_lt.mp hlen) hr]
      exact hhandle

variable (hp d) in
/-- The turn of a complete frame at the front of the buffer.  The reserved bit of its
identifier may be set. -/
theorem turn_head (h : st.Ready) {a b c i j k l : UInt8} {f : Frame}
    (hlen : beNat [a, b, c] = f.payload.length) (hid : beNat [i &&& 0x7f, j, k, l] = f.streamId)
    (rest : Bytes) :
    ∃ fault,
      (st.feed (a :: b :: c :: f.kind :: f.flags :: i :: j :: k :: l :: (f.payload ++ rest))).turn
          hp d =
        .again ((st.receive hp d f).1.feed rest) ⟨(st.receive hp d f).2, fault⟩ := by
  generalize hx : a :: b :: c :: f.kind :: f.flags :: i :: j :: k :: l :: (f.payload ++ rest) = x
  have hbuffer : (st.feed x).buffer =
      a :: b :: c :: f.kind :: f.flags :: i :: j :: k :: l :: (f.payload ++ rest) := by
    rw [feed_buffer, h.buffer, nil_append, hx]
  have hfed : ({ st.feed x with buffer := rest } : DirectionState η) = st.feed rest := by
    simp [feed, h.buffer]
  have hnext : (st.feed x).nextFrame = (st.feed x).takeFrame :=
    nextFrame_eq_takeFrame h.preface h.skip
  rw [takeFrame_head hbuffer] at hnext
  simp only [hlen, hid, length_append, drop_left, take_left,
    Nat.sub_eq_zero_of_le (Nat.le_add_right f.payload.length rest.length),
    if_neg (not_lt.mpr (Nat.le_add_right f.payload.length rest.length)), hfed] at hnext
  by_cases hcap : maxObservedFramePayload < f.payload.length
  · rw [if_pos hcap] at hnext
    have hskip : ({ st.feed x with buffer := rest, skipPayload := 0 } : DirectionState η) =
        st.feed rest := by
      rw [← hfed, ← h.skip]
      rfl
    rw [receive_skipped hcap, turn_skipped hnext, hskip]
    exact ⟨_, rfl⟩
  · rw [if_neg hcap] at hnext
    rw [turn_frame hnext, handle_feed]
    rcases hr : st.handle hp d f with ⟨st', reason | event⟩
    · rw [receive_error (not_lt.mp hcap) hr]
      exact ⟨_, rfl⟩
    · rw [receive_ok (not_lt.mp hcap) hr]
      exact ⟨_, rfl⟩

variable (hp d) in
/-- The turn of the bytes of a frame. -/
theorem turn_receive (h : st.Ready) {f : Frame} (hf : f.OnWire) (rest : Bytes) :
    ∃ fault, (st.feed (f.bytes ++ rest)).turn hp d =
      .again ((st.receive hp d f).1.feed rest) ⟨(st.receive hp d f).2, fault⟩ :=
  turn_head hp d h (Search.beNat_be24 hf.payload) (Frame.beNat_masked hf.streamId) rest

/-- The loop on the bytes of frames receives the frames. -/
theorem settles_frames (hf : ∀ f ∈ frames, f.OnWire) (h : st.Ready) :
    ∃ fault, Settles (turn hp d) (st.feed (frames.flatMap Frame.bytes))
      (st.receiveAll hp d frames).1 ⟨(st.receiveAll hp d frames).2, fault⟩ := by
  induction frames generalizing st with
  | nil =>
    have hnil : st.feed [] = st := by rw [feed, append_nil]
    rw [flatMap_nil, hnil]
    exact ⟨none, .stop (turn_needMore (nextFrame_ready h))⟩
  | cons f fs ih =>
    obtain ⟨fault, hturn⟩ := turn_receive hp d h (hf f (mem_cons_self ..))
      (fs.flatMap Frame.bytes)
    obtain ⟨fault', hrest⟩ := ih (fun g hg => hf g (mem_cons_of_mem _ hg)) (h.receive f)
    rw [flatMap_cons]
    exact ⟨_, .again hturn hrest⟩

/-- Frames that each give one event and leave the direction as it is. -/
theorem receiveAll_forall₂ {events : List Event}
    (h : List.Forall₂ (fun f e => st.receive hp d f = (st, [e])) frames events) :
    st.receiveAll hp d frames = (st, events) := by
  induction h with
  | nil => rfl
  | cons hf _ ih =>
    rw [receiveAll, hf, ih]
    rfl

/-- A bad preface stands whatever comes after it. -/
theorem nextFrame_invalid_feed (h : st.nextFrame = (t, .invalid reason)) (x : Bytes) :
    (st.feed x).nextFrame = (t, .invalid reason) := by
  have hpre : st.expectClientPreface = true := by
    by_contra hpre
    rw [nextFrame_eq_skipThenTake (by simpa using hpre)] at h
    exact skipThenTake_ne_invalid h
  unfold nextFrame at h ⊢
  simp only [hpre, ↓reduceIte] at h
  simp only [feed, hpre, ↓reduceIte]
  split at h
  · next hne =>
    cases h
    refine if_pos fun heq => hne ?_
    -- Equal on the longer part, the two are equal on the shorter one.
    have htake := congrArg (List.take (min st.buffer.length clientPreface.length)) heq
    rw [take_take, take_take, length_append, Nat.min_eq_left (by omega),
      take_append_of_le_length (by omega)] at htake
    exact htake
  · split at h
    · cases h
    · exact absurd h skipThenTake_ne_invalid

theorem turn_stop_feed {b : Stream.Batch Event String} (h : st.turn hp d = .stop t b)
    (hb : b ≠ .needMore) (x : Bytes) : ∃ t', (st.feed x).turn hp d = .stop t' b := by
  rcases hst : st.nextFrame with ⟨w, f | reason | _ | reason⟩
  · rw [turn_frame hst] at h
    exact absurd h (handled_ne_stop _ _ _)
  · rw [turn_skipped hst] at h
    cases h
  · rw [turn_needMore hst] at h
    cases h
    exact absurd rfl hb
  · rw [turn_invalid hst] at h
    cases h
    exact ⟨_, turn_invalid (nextFrame_invalid_feed hst x)⟩

end DirectionState

/-! ## Calls -/

/-- What a direction begins with. -/
def opening : Direction → Bytes
  | .clientToServer => clientPreface
  | .serverToClient => []

/-- The bytes pushed in a direction. -/
def sent (d : Direction) : List Call → Bytes
  | [] => []
  | .push d' bytes :: calls => if d' = d then bytes ++ sent d calls else sent d calls
  | .finish _ :: calls => sent d calls

namespace Http2Decoder

variable {η : Type} (hp : Hpack η) (d : Direction)

/-- The events of a direction in a sequence of calls. -/
def eventsOf : Http2Decoder η → List Call → List Event
  | _, [] => []
  | s, c :: calls =>
    if c.direction = d then (s.callDirection hp c).2.messages ++ eventsOf (s.call hp c).1 calls
    else eventsOf (s.call hp c).1 calls

variable {hp d} {calls : List Call} {frames : List Frame}

theorem state_call_ne (s : Http2Decoder η) {c : Call} (h : c.direction ≠ d) :
    (s.call hp c).1.state d = s.state d := by
  rw [(s.call_eq hp c).1, state_followAll_ne _ _ (Ne.symm h)]

theorem sent_cons_ne {c : Call} (h : c.direction ≠ d) (calls : List Call) :
    sent d (c :: calls) = sent d calls := by
  cases c with
  | push d' bytes => exact if_neg h
  | finish d' => rfl

/-- Pushes in any fragmentation do what one push of all the bytes does. -/
theorem run_settles (hpush : .finish d ∉ calls) {s : Http2Decoder η} {t : DirectionState η}
    {b : Stream.Batch Event String}
    (h : Settles (DirectionState.turn hp d) ((s.state d).feed (sent d calls)) t b)
    (hstart : (s.state d).turn hp d = .stop (s.state d) .needMore) :
    (s.run hp calls).1.state d = t ∧ s.eventsOf hp d calls = b.messages := by
  have hresumes := DirectionState.direction_resumes hp d
  induction calls generalizing s b with
  | nil =>
    rw [sent, ← DirectionState.bytes_feed, DirectionState.bytes.feed_nil] at h
    cases h with
    | stop hs =>
      rw [hstart] at hs
      cases hs
      exact ⟨rfl, rfl⟩
    | again hs _ =>
      rw [hstart] at hs
      cases hs
  | cons c calls ih =>
    have hrest : .finish d ∉ calls := fun hmem => hpush (mem_cons_of_mem _ hmem)
    rw [run, eventsOf]
    by_cases hd : c.direction = d
    · cases c with
      | finish d' =>
        obtain rfl : d' = d := hd
        exact absurd (mem_cons_self ..) hpush
      | push d' bytes =>
        obtain rfl : d' = d := hd
        have hsent : sent d' (.push d' bytes :: calls) = bytes ++ sent d' calls := if_pos rfl
        rw [hsent, ← DirectionState.bytes_feed, ← DirectionState.bytes.feed_append] at h
        obtain ⟨u, c, hu⟩ := h.of_feed (DirectionState.direction_decreases hp d') hresumes
          DirectionState.turn_stop_feed
        have hcall : (s.state d').push hp d' bytes = (u, c) :=
          hu.drive (DirectionState.direction_decreases hp d') _ (Nat.lt_succ_self _)
        obtain ⟨b', hb', rfl⟩ := hu.rest hresumes h
        have hstate : (s.call hp (.push d' bytes)).1.state d' = u := by
          rw [(s.call_eq hp _).1]
          exact (state_followAll ..).trans (congrArg Prod.fst hcall)
        rw [← hstate] at hb'
        obtain ⟨h1, h2⟩ := ih hrest hb' (hstate.symm ▸ hu.waits hresumes)
        rw [if_pos (show Call.direction (.push d' bytes) = d' from rfl), h2, callDirection, hcall]
        exact ⟨h1, rfl⟩
    · rw [if_neg hd]
      rw [sent_cons_ne hd, ← @state_call_ne η hp d s c hd] at h
      exact ih hrest h (by rw [state_call_ne s hd]; exact hstart)

/-- What a direction begins with is no frame. -/
theorem turn_opening (hp : Hpack η) (d : Direction) (maxBody : Nat) (bytes : Bytes) :
    (((new hp maxBody).state d).feed (opening d ++ bytes)).turn hp d =
      ((DirectionState.new hp false).feed bytes).turn hp d := by
  cases d with
  | serverToClient => rfl
  | clientToServer =>
    have hnext := DirectionState.nextFrame_of_preface
      ((DirectionState.new hp true).feed (clientPreface ++ bytes)) rfl rfl
    have hseen : ((DirectionState.new hp false).feed bytes).nextFrame = _ :=
      DirectionState.nextFrame_eq_skipThenTake rfl
    change ((DirectionState.new hp true).feed (clientPreface ++ bytes)).turn hp _ = _
    rw [DirectionState.turn, DirectionState.turn, hnext, hseen]
    rfl

theorem turn_new (hp : Hpack η) (d : Direction) (maxBody : Nat) :
    ((new hp maxBody).state d).turn hp d = .stop ((new hp maxBody).state d) .needMore := by
  cases d <;> exact DirectionState.turn_needMore rfl

/-- The bytes of frames, after what the direction begins with, are the frames. -/
theorem run_receives (hp : Hpack η) (maxBody : Nat) (hpush : .finish d ∉ calls)
    (hf : ∀ f ∈ frames, f.OnWire) (hsent : sent d calls = opening d ++ frames.flatMap Frame.bytes) :
    ((new hp maxBody).run hp calls).1.state d =
        ((DirectionState.new hp false).receiveAll hp d frames).1 ∧
      (new hp maxBody).eventsOf hp d calls =
        ((DirectionState.new hp false).receiveAll hp d frames).2 := by
  obtain ⟨fault, hsettles⟩ := DirectionState.settles_frames (d := d) hf
    (⟨rfl, rfl, rfl⟩ : (DirectionState.new hp false).Ready)
  refine run_settles hpush (hsettles.congr ?_) (turn_new hp d maxBody)
  rw [hsent, turn_opening]

/-- The events of frames in one push of the client, if they leave the HPACK state as it is. -/
theorem events_push (hp : Hpack η) (maxBody : Nat) {es : List Event} (hf : ∀ f ∈ frames, f.OnWire)
    (h : List.Forall₂ (fun f e => (DirectionState.new hp false).receive hp .clientToServer f =
      (.new hp false, [e])) frames es) : (new hp maxBody).events hp
      [.push .clientToServer (clientPreface ++ frames.flatMap Frame.bytes)] = es := by
  have hsent : sent .clientToServer
      [.push .clientToServer (clientPreface ++ frames.flatMap Frame.bytes)] =
      opening .clientToServer ++ frames.flatMap Frame.bytes := append_nil _
  have hreceives := (run_receives hp maxBody (by simp) hf hsent).2
  rw [DirectionState.receiveAll_forall₂ h] at hreceives
  exact hreceives

end Http2Decoder

end Lens.Http2
