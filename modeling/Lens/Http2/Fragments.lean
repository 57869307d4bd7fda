import Lens.Http2.Directions

/-!
# Read boundaries

Where a direction's bytes are cut into fragments does not matter.  A turn takes the
same frame off a longer buffer.  A frame over the cap is skipped as far as it has
arrived, so that turn takes more of a longer buffer, but both ways of skipping end in
the same place (`nextFrame_skipped`).  The loop of a direction therefore resumes
(`direction_resumes`), and by the equations of `Directions` so does the decoder.
-/

namespace Lens.Http2

open List
open Search (beNat)
open Stream (Turn)

namespace DirectionState

variable {η : Type} {st t : DirectionState η} {rest : Bytes} {reason : String}
  {next : NextFrame}

@[simp] theorem feed_buffer (st : DirectionState η) (x : Bytes) :
    (st.feed x).buffer = st.buffer ++ x := rfl

/-- Bytes are appended to the buffer of a direction. -/
def bytes : Stream.Feed (DirectionState η) UInt8 where
  feed := feed
  feed_nil st := by simp [feed]
  feed_append st x y := by simp [feed]

@[simp] theorem bytes_feed (st : DirectionState η) (x : Bytes) :
    bytes.feed st x = st.feed x := rfl

/-! ## Taking a frame -/

theorem takeFrame_short (h : st.buffer.length < frameHeaderBytes) :
    st.takeFrame = (st, .needMore) := by
  rw [takeFrame, if_pos h]

/-- A frame header that is complete decides what is taken. -/
theorem takeFrame_head {a b c kind flags i j k l : UInt8}
    (h : st.buffer = a :: b :: c :: kind :: flags :: i :: j :: k :: l :: rest) : st.takeFrame =
      let length := beNat [a, b, c]
      if maxObservedFramePayload < length then
        ({ st with buffer := rest.drop length, skipPayload := length - rest.length },
          .skipped s!"HTTP/2 frame payload of {length} bytes exceeded the 1 MiB observation cap")
      else if rest.length < length then (st, .needMore)
      else
        ({ st with buffer := rest.drop length },
          .frame ⟨kind, flags, beNat [i &&& 0x7f, j, k, l], rest.take length⟩) := by
  have hlen : st.buffer.length = 9 + rest.length := by
    rw [h]
    simp only [length_cons]
    omega
  unfold takeFrame
  rw [if_neg (by rw [hlen, frameHeaderBytes]; omega)]
  simp only [hlen, frameHeaderBytes]
  have htake : st.buffer.take 3 = [a, b, c] := by rw [h]; rfl
  have hdrop : st.buffer.drop 9 = rest := by rw [h]; rfl
  simp only [htake, hdrop]
  split
  · congr 2
    · rcases Nat.le_total (beNat [a, b, c]) rest.length with hle | hle
      · rw [Nat.min_eq_left hle]
      · rw [Nat.min_eq_right hle, drop_length, drop_of_length_le hle]
    · omega
  · by_cases hshort : rest.length < beNat [a, b, c]
    · rw [if_pos (by omega), if_pos hshort]
    · rw [if_neg (by omega), if_neg hshort, h]
      simp only [Nat.add_comm 9, drop_succ_cons, take_succ_cons, headD_cons, drop_zero, take_zero]

/-- A buffer with a complete frame header. -/
theorem exists_head {buffer : Bytes} (h : ¬buffer.length < frameHeaderBytes) :
    ∃ a b c kind flags i j k l rest,
      buffer = a :: b :: c :: kind :: flags :: i :: j :: k :: l :: rest := by
  match buffer with
  | a :: b :: c :: kind :: flags :: i :: j :: k :: l :: rest =>
    exact ⟨a, b, c, kind, flags, i, j, k, l, rest, rfl⟩
  | [] | [_] | [_, _] | [_, _, _] | [_, _, _, _] | [_, _, _, _, _] | [_, _, _, _, _, _]
  | [_, _, _, _, _, _, _] | [_, _, _, _, _, _, _, _] => simp [frameHeaderBytes] at h

/-- A skipped payload of which more is to come. -/
theorem skipThenTake_short (h : st.buffer.length < st.skipPayload) : st.skipThenTake =
      ({ st with buffer := [], skipPayload := st.skipPayload - st.buffer.length }, .needMore) := by
  unfold skipThenTake
  simp only [Nat.min_eq_right h.le, drop_length]
  rw [if_pos (by omega), if_pos (by omega)]

/-- The rest of a skipped payload is there. -/
theorem skipThenTake_long (h : st.skipPayload ≤ st.buffer.length) : st.skipThenTake =
      ({ st with buffer := st.buffer.drop st.skipPayload, skipPayload := 0 } :
        DirectionState η).takeFrame := by
  unfold skipThenTake
  by_cases hskip : 0 < st.skipPayload
  · simp only [hskip, ↓reduceIte, Nat.min_eq_left h, Nat.sub_self, lt_irrefl]
  · have hzero : st.skipPayload = 0 := by omega
    rw [if_neg hskip, hzero, drop_zero]
    cases st
    subst hzero
    rfl

theorem nextFrame_eq_skipThenTake (h : st.expectClientPreface = false) :
    st.nextFrame = st.skipThenTake := by
  simp [nextFrame, h]

theorem nextFrame_eq_takeFrame (h : st.expectClientPreface = false) (hskip : st.skipPayload = 0) :
    st.nextFrame = st.takeFrame := by
  rw [nextFrame_eq_skipThenTake h, skipThenTake, if_neg (by omega)]

/-- Two ways to skip a payload that has arrived in two parts. -/
theorem nextFrame_skipped (st : DirectionState η) (h : st.expectClientPreface = false)
    (rest x : Bytes) (length : Nat) :
    ({ st with
        buffer := (rest ++ x).drop length
        skipPayload := length - (rest ++ x).length } : DirectionState η).nextFrame =
      ({ st with
        buffer := rest.drop length ++ x
        skipPayload := length - rest.length } : DirectionState η).nextFrame := by
  have hnext : ∀ buffer skip,
      ({ st with buffer := buffer, skipPayload := skip } : DirectionState η).nextFrame =
        ({ st with buffer := buffer, skipPayload := skip } : DirectionState η).skipThenTake :=
    fun _ _ => nextFrame_eq_skipThenTake h
  rw [hnext, hnext]
  by_cases hlt : rest.length + x.length < length
  · rw [skipThenTake_short (by simp; omega), skipThenTake_short (by simp; omega)]
    simp only [length_append, length_drop]
    congr 2
    omega
  · have hdrop : List.drop (length - (rest ++ x).length) ((rest ++ x).drop length) =
        List.drop (length - rest.length) (rest.drop length ++ x) := by
      have hzero : length - (rest ++ x).length = 0 := by simp; omega
      rw [hzero, drop_zero, drop_append, drop_append, length_drop, drop_drop]
      congr 1
      · by_cases hle : length ≤ rest.length
        · rw [Nat.sub_eq_zero_of_le hle, Nat.add_zero]
        · rw [drop_of_length_le (by omega), drop_of_length_le (by omega)]
      · congr 1
        omega
    rw [skipThenTake_long (by simp; omega), skipThenTake_long (by simp; omega)]
    simp only [hdrop]

/-- What a longer buffer changes in what is taken: nothing for a frame, how far a
skipped payload is gone, and whether there is enough. -/
structure Resumed (next : DirectionState η → DirectionState η × NextFrame)
    (st : DirectionState η) : Prop where
  frame : ∀ {t f}, next st = (t, .frame f) → ∀ x, next (st.feed x) = (t.feed x, .frame f)
  skipped : ∀ {t reason}, next st = (t, .skipped reason) → ∀ x, ∃ u,
    next (st.feed x) = (u, .skipped reason) ∧ u.nextFrame = (t.feed x).nextFrame
  needMore : ∀ {t}, next st = (t, .needMore) → ∀ x, next (st.feed x) = (t.feed x).nextFrame

section Resumed

variable {next next' : DirectionState η → DirectionState η × NextFrame} {w : DirectionState η}

theorem Resumed.of_needMore (h : next st = (t, .needMore))
    (hfeed : ∀ x, next (st.feed x) = (t.feed x).nextFrame) : Resumed next st where
  frame ht := by
    rw [h] at ht
    cases ht
  skipped ht := by
    rw [h] at ht
    cases ht
  needMore ht x := by
    rw [h] at ht
    cases ht
    exact hfeed x

theorem Resumed.of_eq (h : next st = next' w) (hfeed : ∀ x, next (st.feed x) = next' (w.feed x))
    (hw : Resumed next' w) : Resumed next st where
  frame ht x := by
    rw [hfeed]
    exact hw.frame (h ▸ ht) x
  skipped ht x := by
    rw [hfeed]
    exact hw.skipped (h ▸ ht) x
  needMore ht x := by
    rw [hfeed]
    exact hw.needMore (h ▸ ht) x

end Resumed

theorem takeFrame_resumed (hpre : st.expectClientPreface = false) (hskip : st.skipPayload = 0) :
    Resumed takeFrame st := by
  have hfeed : ∀ x, (st.feed x).takeFrame = (st.feed x).nextFrame := by
    intro x
    rw [nextFrame_eq_takeFrame]
    · exact hpre
    · exact hskip
  by_cases hshort : st.buffer.length < frameHeaderBytes
  · exact .of_needMore (takeFrame_short hshort) hfeed
  obtain ⟨a, b, c, kind, flags, i, j, k, l, rest, hbuffer⟩ := exists_head hshort
  have hst := takeFrame_head hbuffer
  have hfed : ∀ x, (st.feed x).buffer =
      a :: b :: c :: kind :: flags :: i :: j :: k :: l :: (rest ++ x) := by
    intro x
    rw [feed_buffer, hbuffer]
    rfl
  simp only at hst
  split at hst
  next hlarge =>
    -- The payload is skipped as far as it has arrived.
    refine ⟨fun h => ?_, fun h x => ?_, fun h => ?_⟩
    · rw [hst] at h
      cases h
    · rw [hst] at h
      cases h
      rw [takeFrame_head (hfed x)]
      simp only [hlarge, ↓reduceIte]
      exact ⟨_, rfl, nextFrame_skipped st hpre rest x _⟩
    · rw [hst] at h
      cases h
  next hsmall =>
  split at hst
  · exact .of_needMore hst hfeed
  next hwhole =>
    refine ⟨fun h x => ?_, fun h => ?_, fun h => ?_⟩
    · rw [hst] at h
      cases h
      rw [takeFrame_head (hfed x)]
      have hle : beNat [a, b, c] ≤ rest.length := not_lt.mp hwhole
      simp only [hsmall, ↓reduceIte, length_append]
      rw [if_neg (by omega), drop_append_of_le_length hle, take_append_of_le_length hle]
      rfl
    · rw [hst] at h
      cases h
    · rw [hst] at h
      cases h

theorem skipThenTake_resumed (hpre : st.expectClientPreface = false) : Resumed skipThenTake st := by
  by_cases hlt : st.buffer.length < st.skipPayload
  · refine .of_needMore (skipThenTake_short hlt) fun x => ?_
    rw [nextFrame_eq_skipThenTake (by exact hpre)]
    by_cases hx : st.buffer.length + x.length < st.skipPayload
    · rw [skipThenTake_short (by simpa [feed] using hx), skipThenTake_short (by simp [feed]; omega)]
      simp only [feed, nil_append, length_append]
      congr 2
      omega
    · rw [skipThenTake_long (by simp [feed]; omega), skipThenTake_long (by simp [feed]; omega)]
      simp only [feed, nil_append, drop_append, drop_of_length_le hlt.le]
  · have hle : st.skipPayload ≤ st.buffer.length := not_lt.mp hlt
    refine .of_eq (skipThenTake_long hle) (fun x => ?_) (takeFrame_resumed hpre rfl)
    rw [skipThenTake_long (by simp [feed]; omega)]
    simp only [feed, drop_append_of_le_length hle]

theorem takeFrame_ne_invalid : st.takeFrame ≠ (t, .invalid reason) := by
  unfold takeFrame
  simp only
  repeat' split
  all_goals simp

theorem skipThenTake_ne_invalid : st.skipThenTake ≠ (t, .invalid reason) := by
  by_cases hlt : st.buffer.length < st.skipPayload
  · rw [skipThenTake_short hlt]
    simp
  · rw [skipThenTake_long (not_lt.mp hlt)]
    exact takeFrame_ne_invalid

/-- The preface, by what of it has arrived. -/
theorem nextFrame_preface (hpre : st.expectClientPreface = true) :
    (∃ t, st.nextFrame = (t, .invalid "invalid HTTP/2 client connection preface")) ∨
      st.nextFrame = (st, .needMore) ∨
      (clientPreface <+: st.buffer ∧ st.nextFrame =
        ({ st with
          buffer := st.buffer.drop clientPreface.length
          expectClientPreface := false } : DirectionState η).skipThenTake) := by
  unfold nextFrame
  simp only [hpre, ↓reduceIte]
  split
  · exact .inl ⟨_, rfl⟩
  next hmatch =>
  split
  · exact .inr (.inl rfl)
  next hlong =>
    refine .inr (.inr ⟨?_, rfl⟩)
    rw [Nat.min_eq_right (not_lt.mp hlong), not_not, take_length] at hmatch
    rw [← hmatch]
    exact take_prefix _ _

theorem nextFrame_invalid (h : st.nextFrame = (t, .invalid reason)) :
    reason = "invalid HTTP/2 client connection preface" := by
  by_cases hpre : st.expectClientPreface = true
  · rcases nextFrame_preface hpre with ⟨t', hst⟩ | hst | ⟨-, hst⟩
    · rw [hst] at h
      cases h
      rfl
    · rw [hst] at h
      cases h
    · rw [hst] at h
      exact absurd h skipThenTake_ne_invalid
  · rw [nextFrame_eq_skipThenTake (by simpa using hpre)] at h
    exact absurd h skipThenTake_ne_invalid

theorem nextFrame_of_preface (st : DirectionState η) (hpre : st.expectClientPreface = true)
    (h : st.buffer = clientPreface ++ rest) : st.nextFrame =
      ({ st with buffer := rest, expectClientPreface := false } :
        DirectionState η).skipThenTake := by
  unfold nextFrame
  have hlen : min st.buffer.length clientPreface.length = clientPreface.length := by
    rw [h, length_append]
    omega
  simp only [hpre, ↓reduceIte, hlen]
  rw [h, take_left, take_length, if_neg (not_not_intro rfl),
    if_neg (by rw [length_append]; omega), drop_left]

theorem nextFrame_resumed (st : DirectionState η) : Resumed nextFrame st := by
  by_cases hpre : st.expectClientPreface = true
  · rcases nextFrame_preface hpre with ⟨t, hst⟩ | hst | ⟨⟨rest, hrest⟩, hst⟩
    · refine ⟨fun h => ?_, fun h => ?_, fun h => ?_⟩ <;>
      · rw [hst] at h
        cases h
    · exact .of_needMore hst fun x => rfl
    · refine .of_eq hst (fun x => ?_) (skipThenTake_resumed rfl)
      have hfed : (st.feed x).buffer = clientPreface ++ (rest ++ x) := by
        rw [feed_buffer, ← hrest, append_assoc]
      rw [nextFrame_of_preface (st.feed x) hpre hfed, ← hrest, drop_left]
      rfl
  · have hpre' : st.expectClientPreface = false := by simpa using hpre
    refine .of_eq (nextFrame_eq_skipThenTake hpre') (fun x => ?_) (skipThenTake_resumed hpre')
    exact nextFrame_eq_skipThenTake hpre'

/-! ## The loop -/

/-- What is taken off the buffer shortens it. -/
theorem takeFrame_shortens (h : st.takeFrame = (t, next)) : t.buffer.length ≤ st.buffer.length ∧
      (next = .needMore ∨ t.buffer.length < st.buffer.length) := by
  by_cases hshort : st.buffer.length < frameHeaderBytes
  · rw [takeFrame_short hshort] at h
    cases h
    exact ⟨le_refl _, .inl rfl⟩
  obtain ⟨a, b, c, kind, flags, i, j, k, l, rest, hbuffer⟩ := exists_head hshort
  rw [takeFrame_head hbuffer] at h
  have hlen : rest.length + 9 = st.buffer.length := by rw [hbuffer]; rfl
  have hdrop : (rest.drop (beNat [a, b, c])).length ≤ rest.length := by
    rw [length_drop]
    omega
  simp only at h
  split at h
  · cases h
    exact ⟨by simp only; omega, .inr (by simp only; omega)⟩
  split at h
  · cases h
    exact ⟨le_refl _, .inl rfl⟩
  · cases h
    exact ⟨by simp only; omega, .inr (by simp only; omega)⟩

theorem skipThenTake_shortens (h : st.skipThenTake = (t, next)) :
    t.buffer.length ≤ st.buffer.length ∧
      (next = .needMore ∨ t.buffer.length < st.buffer.length) := by
  by_cases hlt : st.buffer.length < st.skipPayload
  · rw [skipThenTake_short hlt] at h
    cases h
    exact ⟨Nat.zero_le _, .inl rfl⟩
  · rw [skipThenTake_long (not_lt.mp hlt)] at h
    have hshort := takeFrame_shortens h
    simp only [length_drop] at hshort
    exact ⟨by omega, hshort.2.imp_right (by omega)⟩

theorem nextFrame_shortens (h : st.nextFrame = (t, next)) :
    (∃ reason, next = .invalid reason) ∨ next = .needMore ∨
      t.buffer.length < st.buffer.length := by
  by_cases hpre : st.expectClientPreface = true
  · rcases nextFrame_preface hpre with ⟨t', hst⟩ | hst | ⟨-, hst⟩
    · rw [hst] at h
      cases h
      exact .inl ⟨_, rfl⟩
    · rw [hst] at h
      cases h
      exact .inr (.inl rfl)
    · rw [hst] at h
      have hshort := skipThenTake_shortens h
      simp only [length_drop] at hshort
      exact .inr (hshort.2.imp_right (by omega))
  · rw [nextFrame_eq_skipThenTake (by simpa using hpre)] at h
    exact .inr (skipThenTake_shortens h).2

variable (hp : Hpack η) (d : Direction) {r : Recognized η} {b : Stream.Batch Event String}

/-- A header block changes the HPACK state and nothing else. -/
theorem completeHeaderBlock_eq (st : DirectionState η) (block : HeaderBlock) :
    (st.completeHeaderBlock hp d block).1 =
      { st with hpack := (st.completeHeaderBlock hp d block).1.hpack } := by
  unfold completeHeaderBlock
  split
  · rfl
  rcases hp.decode st.hpack block.bytes with ⟨hpack, _ | fields⟩
  · rfl
  · simp only
    split <;> rfl

/-- Handling a frame changes the HPACK state, the open header block and nothing else. -/
theorem handle_eq (st : DirectionState η) (f : Frame) :
    (st.handle hp d f).1 =
      { st with
        hpack := (st.handle hp d f).1.hpack
        continuation := (st.handle hp d f).1.continuation } := by
  unfold handle
  split
  · rfl
  split
  · unfold handleHeaders
    split
    · rfl
    split
    · rfl
    simp only
    split
    · rfl
    · rw [completeHeaderBlock_eq]
  split
  · unfold handleContinuation
    split
    · rfl
    simp only
    split
    · rfl
    split
    · rfl
    · rw [completeHeaderBlock_eq]
  split
  · unfold handleData
    split
    · rfl
    split <;> rfl
  split <;> rfl

@[simp] theorem handle_buffer (st : DirectionState η) (f : Frame) :
    (st.handle hp d f).1.buffer = st.buffer := by
  rw [handle_eq]

theorem handled_buffer (h : handled r = .again t b) : t.buffer = r.1.buffer := by
  rcases r with ⟨st, _ | e⟩ <;> cases h <;> rfl

theorem completeHeaderBlock_feed (st : DirectionState η) (block : HeaderBlock) (x : Bytes) :
    (st.feed x).completeHeaderBlock hp d block =
      ((st.completeHeaderBlock hp d block).1.feed x, (st.completeHeaderBlock hp d block).2) := by
  unfold completeHeaderBlock
  by_cases hex : block.exceeded = true
  · simp only [hex, ↓reduceIte]
  · have hdecode : hp.decode (st.feed x).hpack block.bytes = hp.decode st.hpack block.bytes := rfl
    rw [if_neg hex, if_neg hex, hdecode]
    rcases hp.decode st.hpack block.bytes with ⟨hpack, _ | fields⟩
    · rfl
    · simp only
      split <;> rfl

/-- Handling a frame does not look at the buffer. -/
theorem handle_feed (st : DirectionState η) (f : Frame) (x : Bytes) :
    (st.feed x).handle hp d f = ((st.handle hp d f).1.feed x, (st.handle hp d f).2) := by
  have hcont : (st.feed x).continuation = st.continuation := rfl
  unfold handle
  rw [hcont]
  split
  · rfl
  split
  · unfold handleHeaders
    split
    · rfl
    split
    · rfl
    simp only
    split
    · rfl
    · exact completeHeaderBlock_feed hp d st _ x
  split
  · unfold handleContinuation
    rw [hcont]
    split
    · rfl
    simp only
    split
    · rfl
    split
    · rfl
    · exact completeHeaderBlock_feed hp d { st with continuation := none } _ x
  split
  · unfold handleData
    split
    · rfl
    split <;> rfl
  split <;> rfl

theorem handled_feed (h : handled r = .again t b) (x : Bytes) :
    handled (r.1.feed x, r.2) = .again (t.feed x) b := by
  rcases r with ⟨st, _ | e⟩ <;> cases h <;> rfl

theorem direction_decreases : Stream.Decreases (turn hp d) fun st => st.buffer.length := by
  intro st t b h
  change t.buffer.length < st.buffer.length
  rcases hst : st.nextFrame with ⟨w, f | reason | _ | reason⟩
  · rw [turn_frame hst] at h
    rw [handled_buffer h, handle_buffer]
    simpa using nextFrame_shortens hst
  · rw [turn_skipped hst] at h
    cases h
    simpa using nextFrame_shortens hst
  · rw [turn_needMore hst] at h
    cases h
  · rw [turn_invalid hst] at h
    cases h

theorem direction_resumes : Stream.Resumes (turn hp d) bytes where
  again := by
    intro st t b h x
    have hnext := nextFrame_resumed st
    rcases hst : st.nextFrame with ⟨w, f | reason | _ | reason⟩
    · rw [turn_frame hst] at h
      refine ⟨t.feed x, ?_, rfl⟩
      rw [bytes_feed, turn_frame (hnext.frame hst x), handle_feed]
      exact handled_feed h x
    · rw [turn_skipped hst] at h
      cases h
      obtain ⟨u, hu, heq⟩ := hnext.skipped hst x
      exact ⟨u, turn_skipped hu, by rw [turn, heq]; rfl⟩
    · rw [turn_needMore hst] at h
      cases h
    · rw [turn_invalid hst] at h
      cases h
  stop := by
    intro st t h x
    have hnext := nextFrame_resumed st
    rcases hst : st.nextFrame with ⟨w, f | reason | _ | reason⟩
    · rw [turn_frame hst] at h
      exact absurd h (handled_ne_stop _ _ _)
    · rw [turn_skipped hst] at h
      cases h
    · rw [turn_needMore hst] at h
      cases h
      rw [bytes_feed, bytes_feed, turn, hnext.needMore hst x]
      rfl
    · rw [turn_invalid hst] at h
      cases h

/-- A turn that stops asks for more, or has seen a bad preface. -/
theorem turn_stop (h : st.turn hp d = .stop t b) :
    b = .needMore ∨ b = ⟨[], some "invalid HTTP/2 client connection preface"⟩ := by
  rcases hst : st.nextFrame with ⟨w, f | reason | _ | reason⟩
  · rw [turn_frame hst] at h
    exact absurd h (handled_ne_stop _ _ _)
  · rw [turn_skipped hst] at h
    cases h
  · rw [turn_needMore hst] at h
    cases h
    exact .inl rfl
  · rw [turn_invalid hst] at h
    cases h
    rw [nextFrame_invalid hst]
    exact .inr rfl

end DirectionState

/-! ## The decoder -/

/-- An HPACK decoder that gives the same fields for every block. -/
def Hpack.always (fields : Headers) : Hpack Unit where
  init := ()
  decode _ _ := ((), .ok (fields.map fun f => (Utf8.asBytes f.1, Utf8.asBytes f.2)))

namespace Http2Decoder

variable {η : Type} (hp : Hpack η) (d : Direction)

/-- Bytes are appended to the buffer of one direction. -/
def bytes : Stream.Feed (Http2Decoder η) UInt8 where
  feed s x := s.setState d ((s.state d).feed x)
  feed_nil s := by
    have h := DirectionState.bytes.feed_nil (s.state d)
    rw [DirectionState.bytes_feed] at h
    rw [h, setState_state]
  feed_append s x y := by simp [DirectionState.feed]

theorem bytes_feed (s : Http2Decoder η) (x : Bytes) :
    (bytes d).feed s x = s.setState d ((s.state d).feed x) := rfl

@[simp] theorem followAll_setState (s : Http2Decoder η) (st : DirectionState η)
    (r : DirectionState η × Stream.Batch Event String) :
    (s.setState d st).followAll d r = s.followAll d r := by
  simp [followAll]

theorem decoder_decreases : Stream.Decreases (turn hp d) fun s => (s.state d).buffer.length := by
  intro s t b h
  rw [turn_eq] at h
  cases hturn : (s.state d).turn hp d with
  | stop st c =>
    rw [hturn] at h
    cases h
  | again st c =>
    rw [hturn] at h
    cases h
    simpa using DirectionState.direction_decreases hp d _ _ _ hturn

theorem decoder_resumes : Stream.Resumes (turn hp d) (bytes d) where
  again := by
    intro s t b h x
    rw [turn_eq] at h
    cases hturn : (s.state d).turn hp d with
    | stop st c =>
      rw [hturn] at h
      cases h
    | again st c =>
      rw [hturn] at h
      cases h
      obtain ⟨u, hu, hnext⟩ := (DirectionState.direction_resumes hp d).again hturn x
      rw [DirectionState.bytes_feed] at hu hnext
      refine ⟨s.followAll d (u, c), ?_, ?_⟩
      · rw [turn_eq, bytes_feed, state_setState, hu]
        simp
      · have hset : s.followAll d (u, c) = (s.followAll d (st, c)).setState d u := by
          simp [followAll, setState_withTable]
        rw [hset, bytes_feed, state_followAll, turn_eq, turn_eq, state_setState, state_setState,
          hnext]
        cases DirectionState.turn hp d (st.feed x) <;> simp
  stop := by
    intro s t h x
    rw [turn_eq] at h
    cases hturn : (s.state d).turn hp d with
    | again st c =>
      rw [hturn] at h
      cases h
    | stop st c =>
      rw [hturn] at h
      rcases DirectionState.turn_stop hp d hturn with rfl | rfl
      · cases h
        have hnext := (DirectionState.direction_resumes hp d).stop hturn x
        rw [DirectionState.bytes_feed, DirectionState.bytes_feed] at hnext
        rw [bytes_feed, bytes_feed, state_followAll, turn_eq, turn_eq, state_setState,
          state_setState, hnext]
        cases DirectionState.turn hp d (st.feed x) <;> simp [followAll, Stream.Batch.needMore]
      · cases h

/-- A turn of the decoder that stops asks for more, or has seen a bad preface. -/
theorem turn_stop {s t : Http2Decoder η} {b : DecodeBatch} (h : s.turn hp d = .stop t b) :
    b = .needMore ∨ b = ⟨[], some "invalid HTTP/2 client connection preface"⟩ := by
  rw [turn_eq] at h
  cases hturn : (s.state d).turn hp d with
  | again st c =>
    rw [hturn] at h
    cases h
  | stop st c =>
    rw [hturn] at h
    cases h
    rcases DirectionState.turn_stop hp d hturn with rfl | rfl
    · exact .inl rfl
    · exact .inr rfl

theorem push_eq_push (s : Http2Decoder η) (x : Bytes) :
    s.push hp d x =
      Stream.push (turn hp d) (bytes d) (fun s => (s.state d).buffer.length) s x := rfl

/-- A push that reports no bad preface settles. -/
theorem push_settles (s : Http2Decoder η) (x : Bytes)
    (h : (s.push hp d x).2.desynchronized ≠ some "invalid HTTP/2 client connection preface") :
    Stream.Settles (turn hp d) ((bytes d).feed s x) (s.push hp d x).1 (s.push hp d x).2 := by
  rw [push_eq_push] at h ⊢
  rcases Stream.settles_or_stops (decoder_decreases hp d) _ ((bytes d).feed s x)
    (Nat.lt_succ_self _) with hs | ⟨u, b, c, hu, hc, heq⟩
  · exact hs
  · -- The report of the last turn is the one that stays.
    rcases turn_stop hp d hu with rfl | rfl
    · exact absurd rfl hc
    · refine absurd ?_ h
      rw [Stream.push, heq]
      rfl

/-- Pushing two fragments is pushing them at once: the same state and the same
messages, from every state. -/
theorem push_push_eq (s : Http2Decoder η) (a b : Bytes)
    (h : (s.push hp d a).2.desynchronized ≠ some "invalid HTTP/2 client connection preface") :
    ((s.push hp d a).1.push hp d b).1 = (s.push hp d (a ++ b)).1 ∧
      (s.push hp d a).2.messages ++ ((s.push hp d a).1.push hp d b).2.messages =
        (s.push hp d (a ++ b)).2.messages := by
  have hsettles := push_settles hp d s a h
  have hrun : s.push hp d (a ++ b) =
      (((s.push hp d a).1.push hp d b).1,
        (s.push hp d a).2.seq ((s.push hp d a).1.push hp d b).2) := by
    rw [push_eq_push hp d s (a ++ b), Stream.push, ← (bytes d).feed_append]
    exact hsettles.drive_feed (decoder_decreases hp d) (decoder_resumes hp d) b _ _
      (Nat.lt_succ_self _) (Nat.lt_succ_self _)
  rw [hrun]
  exact ⟨rfl, rfl⟩

/-- A connection without a byte of either direction. -/
def fresh : Http2Decoder Unit := new (.always []) 16

/-- The preface and a part of a frame header in two pieces. -/
theorem preface_push_push_eq :
    (fresh.push (.always []) .clientToServer (clientPreface.take 10)).2.desynchronized ≠
        some "invalid HTTP/2 client connection preface" ∧
      ((fresh.push (.always []) .clientToServer (clientPreface.take 10)).1.push (.always [])
          .clientToServer (clientPreface.drop 10 ++ [0, 0, 4])).1 =
        (fresh.push (.always []) .clientToServer
          (clientPreface.take 10 ++ (clientPreface.drop 10 ++ [0, 0, 4]))).1 := by
  refine ⟨by decide, ?_⟩
  exact (push_push_eq _ _ _ _ _ (by decide)).1

end Http2Decoder

end Lens.Http2
