import Lens.Http2.Fragments

/-!
# Frames on the wire

A frame as HTTP/2 writes it: three bytes of length, the type, the flags, four bytes
of stream identifier and the payload.  A direction that waits reads the bytes of a
frame in any fragmentation (`frame_reads`), and the client's direction reads the
connection preface before them (`preface_reads`).
-/

namespace Lens.Http2

open List
open Search (be24 be32 beNat)
open Stream (Turn Reads Settles)

namespace Frame

def bytes (f : Frame) : Bytes :=
  be24 f.payload.length ++ [f.kind, f.flags] ++ be32 f.streamId ++ f.payload

/-- The payload is within the cap and the identifier has 31 bits. -/
structure Fits (f : Frame) : Prop where
  payload : f.payload.length ≤ maxObservedFramePayload
  streamId : f.streamId < 0x80000000

instance (f : Frame) : Decidable f.Fits :=
  decidable_of_iff (f.payload.length ≤ maxObservedFramePayload ∧ f.streamId < 0x80000000)
    ⟨fun h => ⟨h.1, h.2⟩, fun h => ⟨h.1, h.2⟩⟩

theorem length_bytes (f : Frame) : f.bytes.length = 9 + f.payload.length := by
  simp only [bytes, length_append, Search.length_be24, Search.length_be32, length_cons, length_nil]

/-- The reserved bit of an identifier is not set. -/
theorem beNat_masked {n : Nat} (h : n < 0x80000000) :
    beNat [UInt8.ofNat (n / 0x1000000) &&& 0x7f, UInt8.ofNat (n / 0x10000), UInt8.ofNat (n / 0x100),
      UInt8.ofNat n] = n := by
  have hmask : (UInt8.ofNat (n / 0x1000000) &&& 0x7f).toNat = n / 0x1000000 := by
    rw [UInt8.toNat_and, UInt8.toNat_ofNat']
    change (n / 0x1000000 % 2 ^ 8) &&& (2 ^ 7 - 1) = _
    rw [Nat.and_two_pow_sub_one_eq_mod]
    omega
  simp only [beNat, foldl_cons, foldl_nil, hmask, UInt8.toNat_ofNat']
  omega

end Frame

/-- An HPACK decoder that knows four entries of the static table. -/
def Hpack.static : Hpack Unit where
  init := ()
  decode _ block :=
    let field : UInt8 → Option (String × String) := fun
      | 0x82 => some (":method", "GET")
      | 0x83 => some (":method", "POST")
      | 0x84 => some (":path", "/")
      | 0x88 => some (":status", "200")
      | _ => none
    match block.mapM field with
    | some fields => ((), .ok (fields.map fun f => (Utf8.asBytes f.1, Utf8.asBytes f.2)))
    | none => ((), .error "not in the table")

namespace DirectionState

variable {η : Type} {st : DirectionState η} {f : Frame}

/-- A direction between two frames, after the preface. -/
structure Ready (st : DirectionState η) : Prop where
  preface : st.expectClientPreface = false
  skip : st.skipPayload = 0
  buffer : st.buffer = []

theorem nextFrame_ready (h : st.Ready) : st.nextFrame = (st, .needMore) := by
  rw [nextFrame_eq_takeFrame h.preface h.skip]
  exact takeFrame_short (by rw [h.buffer]; exact Nat.zero_lt_succ 8)

/-- A direction that has seen the preface. -/
def afterPreface (st : DirectionState η) : DirectionState η :=
  { st with expectClientPreface := false }

theorem Ready.afterPreface (hskip : st.skipPayload = 0) (hbuffer : st.buffer = []) :
    st.afterPreface.Ready :=
  ⟨rfl, hskip, hbuffer⟩

/-- A frame at the front of the buffer is taken. -/
theorem nextFrame_bytes (st : DirectionState η) (hpre : st.expectClientPreface = false)
    (hskip : st.skipPayload = 0) (hf : f.Fits) {rest : Bytes}
    (h : st.buffer = f.bytes ++ rest) :
    st.nextFrame = ({ st with buffer := rest }, .frame f) := by
  have hsmall : f.payload.length < 0x1000000 := by
    have := hf.payload
    simp only [maxObservedFramePayload] at this
    omega
  have hlen : beNat (be24 f.payload.length) = f.payload.length := Search.beNat_be24 hsmall
  have hid := Frame.beNat_masked hf.streamId
  have hhead : st.buffer = _ :: _ :: _ :: _ :: _ :: _ :: _ :: _ :: _ :: (f.payload ++ rest) := h
  rw [nextFrame_eq_takeFrame hpre hskip, takeFrame_head hhead]
  simp only [be24] at hlen
  simp only [hlen, hid, if_neg (not_lt.mpr hf.payload), length_append]
  rw [if_neg (by omega), drop_left, take_left]

/-- A part of a frame is kept. -/
theorem nextFrame_prefix (hpre : st.expectClientPreface = false) (hskip : st.skipPayload = 0)
    (hf : f.Fits) (h : st.buffer <+: f.bytes) (hne : st.buffer ≠ f.bytes) :
    st.nextFrame = (st, .needMore) := by
  rw [nextFrame_eq_takeFrame hpre hskip]
  by_cases hshort : st.buffer.length < frameHeaderBytes
  · exact takeFrame_short hshort
  obtain ⟨a, b, c, kind, flags, i, j, k, l, rest, hbuffer⟩ := exists_head hshort
  obtain ⟨more, hmore⟩ := h
  have hlen : rest.length < f.payload.length := by
    have hall := congrArg List.length hmore
    have hpos : 0 < more.length := length_pos_iff.mpr fun hnil => hne (by
      rw [← hmore, hnil, append_nil])
    rw [length_append, Frame.length_bytes, hbuffer] at hall
    simp only [length_cons] at hall
    omega
  have hhead : [a, b, c] = be24 f.payload.length := by
    have htake := congrArg (List.take 3) hmore
    rw [hbuffer] at htake
    exact htake
  have hsmall : f.payload.length < 0x1000000 := by
    have := hf.payload
    simp only [maxObservedFramePayload] at this
    omega
  rw [takeFrame_head hbuffer]
  simp only [hhead, Search.beNat_be24 hsmall]
  rw [if_neg (not_lt.mpr hf.payload), if_pos hlen]

end DirectionState

namespace Http2Decoder

variable {η : Type} {hp : Hpack η} {d : Direction} {s t : Http2Decoder η} {f : Frame}
  {ms : List DecodedMessage} {fs : List Frame}

theorem turn_needMore (h : (s.state d).nextFrame = (s.state d, .needMore)) :
    s.turn hp d = .stop s .needMore := by
  rw [turn_eq, DirectionState.turn_needMore h]
  simp [followAll, batchOf, Stream.Batch.needMore]

theorem turn_ready (h : (s.state d).Ready) : s.turn hp d = .stop s .needMore :=
  turn_needMore (DirectionState.nextFrame_ready h)

theorem state_follow (r : DirectionState.Recognized η) : ((s.follow d r).1).state d = r.1 := by
  rcases r with ⟨st, _ | _ | e⟩ <;> simp [follow, observe]

/-- A frame leaves its direction between two frames. -/
theorem handleFrame_ready (h : (s.state d).Ready) {r : Except String (List DecodedMessage)}
    (hs : s.handleFrame hp d f = (t, r)) : (t.state d).Ready := by
  have ht : t.state d = ((s.state d).handle hp d f).1 := by
    rw [← state_follow, ← handleFrame_eq, hs]
  rw [ht, DirectionState.handle_eq]
  exact ⟨h.preface, h.skip, h.buffer⟩

/-- A frame without a fault is read in any fragmentation. -/
theorem frame_reads (h : (s.state d).Ready) (hf : f.Fits)
    (hs : s.handleFrame hp d f = (t, .ok ms)) :
    Reads (turn hp d) (bytes d) s f.bytes t ms := by
  refine Reads.of_stop ?_ ?_
  · intro p hp hne
    refine ⟨_, .needMore, .stop (turn_needMore ?_), rfl⟩
    have hbuffer : (((bytes d).feed s p).state d).buffer = p := by
      rw [bytes_feed, state_setState, DirectionState.feed_buffer, h.buffer, nil_append]
    rw [bytes_feed, state_setState] at hbuffer ⊢
    exact DirectionState.nextFrame_prefix h.preface h.skip hf (hbuffer.symm ▸ hp)
      (hbuffer.symm ▸ hne)
  · have hbuffer : ((s.state d).feed f.bytes).buffer = f.bytes ++ [] := by
      rw [DirectionState.feed_buffer, h.buffer, nil_append, append_nil]
    have hnext : (((bytes d).feed s f.bytes).state d).nextFrame = (s.state d, .frame f) := by
      rw [bytes_feed, state_setState,
        DirectionState.nextFrame_bytes ((s.state d).feed f.bytes) h.preface h.skip hf
        hbuffer, ← h.buffer]
      rfl
    have hturn : turn hp d ((bytes d).feed s f.bytes) = .again t ⟨ms, none⟩ := by
      rw [turn, hnext]
      simp only [bytes_feed, setState_setState, setState_state, hs]
    rw [← Stream.Batch.seq_needMore ⟨ms, none⟩]
    exact .again hturn (.stop (turn_ready (handleFrame_ready h hs)))

/-- The decoder handles the frames one after the other without a fault. -/
inductive HandlesAll (hp : Hpack η) (d : Direction) :
    Http2Decoder η → List Frame → Http2Decoder η → List DecodedMessage → Prop where
  | nil {s : Http2Decoder η} : HandlesAll hp d s [] s []
  | cons {s t u : Http2Decoder η} {f : Frame} {fs : List Frame} {ms ms' : List DecodedMessage} :
      s.handleFrame hp d f = (t, .ok ms) → HandlesAll hp d t fs u ms' →
      HandlesAll hp d s (f :: fs) u (ms ++ ms')

theorem HandlesAll.append {u : Http2Decoder η} {gs : List Frame} {ms' : List DecodedMessage}
    (h : HandlesAll hp d s fs t ms) (h' : HandlesAll hp d t gs u ms') :
    HandlesAll hp d s (fs ++ gs) u (ms ++ ms') := by
  induction h with
  | nil => exact h'
  | cons hs _ ih =>
    rw [cons_append, append_assoc]
    exact .cons hs (ih h')

/-- Frames without a fault are read in any fragmentation. -/
theorem HandlesAll.reads (h : HandlesAll hp d s fs t ms) (hready : (s.state d).Ready)
    (hf : ∀ f ∈ fs, f.Fits) : Reads (turn hp d) (bytes d) s (fs.flatMap Frame.bytes) t ms := by
  induction h with
  | nil => exact Reads.nil (turn_ready hready)
  | cons hs _ ih =>
    have hrest := ih (handleFrame_ready hready hs) fun g hg => hf g (mem_cons_of_mem _ hg)
    rw [flatMap_cons]
    exact (frame_reads hready (hf _ (mem_cons_self ..)) hs).append (decoder_resumes hp d)
      hrest

/-- The client's direction reads the connection preface. -/
theorem preface_reads (hpre : (s.state d).expectClientPreface = true)
    (hskip : (s.state d).skipPayload = 0) (hbuffer : (s.state d).buffer = []) :
    Reads (turn hp d) (bytes d) s clientPreface
      (s.setState d (s.state d).afterPreface) [] := by
  refine Reads.of_stop ?_ ?_
  · intro p hp hne
    refine ⟨_, .needMore, .stop (turn_needMore ?_), rfl⟩
    rw [bytes_feed, state_setState]
    obtain ⟨rest, hrest⟩ := hp
    have hlt : p.length < clientPreface.length := by
      have hpos : 0 < rest.length := length_pos_iff.mpr fun hnil => hne (by
        rw [← hrest, hnil, append_nil])
      rw [← hrest, length_append]
      omega
    unfold DirectionState.nextFrame
    simp only [DirectionState.feed, hpre, ↓reduceIte, hbuffer, nil_append,
      Nat.min_eq_left hlt.le, take_length]
    have htake : clientPreface.take p.length = p := by rw [← hrest, take_left]
    rw [htake, if_neg (not_not_intro rfl), if_pos hlt]
  · refine .stop ?_
    have hready := DirectionState.Ready.afterPreface hskip hbuffer
    have hnext : (((bytes d).feed s clientPreface).state d).nextFrame =
        ((s.state d).afterPreface, .needMore) := by
      have hfed : ((s.state d).feed clientPreface).buffer = clientPreface ++ [] := by
        rw [DirectionState.feed_buffer, hbuffer, nil_append, append_nil]
      rw [bytes_feed, state_setState,
        DirectionState.nextFrame_of_preface ((s.state d).feed clientPreface) hpre hfed,
        ← DirectionState.nextFrame_ready hready,
        DirectionState.nextFrame_eq_skipThenTake hready.preface, ← hbuffer]
      rfl
    rw [turn, hnext]
    simp [bytes_feed]

end Http2Decoder

end Lens.Http2
