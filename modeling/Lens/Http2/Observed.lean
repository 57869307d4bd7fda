import Lens.Http2.Dropped
import Lens.Http2.HpackSync

/-!
# What the wire says

The frames of both directions, in the order in which calls complete them (`history`),
have a meaning apart from the decoder: header blocks are put together and decoded in
order whatever their size, and DATA and RST_STREAM stand for themselves (`wireEvents`).
While every frame is within the limits of the decoder (`Within`), the events of a run
are those of the wire, in any fragmentation (`events_eq_wireEvents`).
-/

namespace Lens.Http2

open List
open Search (beNat)
open Stream (Settles)

/-! ## Frames in order -/

/-- The frames that calls complete, in the order they do, after some bytes of each direction. -/
def historyFrom : (Direction → Bytes) → List Call → List (Direction × Frame)
  | _, [] => []
  | before, .push d bytes :: calls =>
    let frames := wireFrames d (before d ++ bytes)
    (frames.drop (wireFrames d (before d)).length).map (fun f => (d, f)) ++
      historyFrom (fun d' => if d' = d then before d ++ bytes else before d') calls
  | before, .finish _ :: calls => historyFrom before calls

def history : List Call → List (Direction × Frame) := historyFrom fun _ => []

/-- More bytes complete more frames. -/
theorem splitFrames_append (x : Bytes) : ∀ (n m : Nat) (bytes : Bytes),
    bytes.length ≤ n → (bytes ++ x).length ≤ m →
    splitFrames n bytes <+: splitFrames m (bytes ++ x) := by
  intro n
  induction n with
  | zero => exact fun m bytes _ _ => nil_prefix
  | succ n ih =>
    intro m bytes hn hm
    by_cases hshort : bytes.length < frameHeaderBytes
    · rw [splitFrames_short hshort]
      exact nil_prefix
    obtain ⟨a, b, c, kind, flags, i, j, k, l, rest, rfl⟩ := DirectionState.exists_head hshort
    obtain ⟨m, rfl⟩ := Nat.exists_eq_succ_of_ne_zero (n := m) (by simp at hm; omega)
    simp only [cons_append, length_cons] at hn hm
    simp only [cons_append, splitFrames]
    by_cases hrest : rest.length < beNat [a, b, c]
    · rw [if_pos hrest]
      exact nil_prefix
    · have hmore : ¬ (rest ++ x).length < beNat [a, b, c] := by rw [length_append]; omega
      rw [if_neg hrest, if_neg hmore, take_append_of_le_length (by omega),
        drop_append_of_le_length (by omega)]
      refine cons_prefix_cons.mpr ⟨rfl, ih m _ ?_ ?_⟩
      · rw [length_drop]; omega
      · rw [length_append, length_drop]
        rw [length_append] at hm
        omega

theorem wireFrames_append (d : Direction) (bytes x : Bytes) :
    wireFrames d bytes <+: wireFrames d (bytes ++ x) := by
  rw [wireFrames, wireFrames]
  by_cases hlen : (opening d).length ≤ bytes.length
  · rw [drop_append_of_le_length hlen]
    refine splitFrames_append x _ _ _ ?_ ?_
    · rw [length_drop]; omega
    · rw [length_append, length_append, length_drop]; omega
  · rw [drop_eq_nil_of_le (by omega), splitFrames_short (by decide)]
    exact nil_prefix

/-! ## Frames as events -/

/-- What has been read of a direction: the state of HPACK and the block that is open. -/
structure Reading (η : Type) where
  hpack : η
  opened : Option WireBlock

namespace Reading

variable {η : Type} (hp : Hpack η)

def next (r : Reading η) (f : Frame) : Reading η :=
  ⟨hp.after r.hpack (f.completes r.opened).toList, f.leaves r.opened⟩

/-- The header list that a frame completes, or its own event. -/
def events (d : Direction) (r : Reading η) (f : Frame) : List Event :=
  hp.read d r.hpack (f.completes r.opened).toList ++ (f.event d).toList

/-- The frame is within the limits of the decoder: it is under the observation cap, drops no
header block, and the list of a block that it completes is not too large. -/
structure Admits (r : Reading η) (f : Frame) : Prop where
  keeps : KeepsAll r.opened [f]
  legible : f.Legible hp r.hpack r.opened
  length : f.payload.length ≤ maxObservedFramePayload

instance (r : Reading η) (f : Frame) : Decidable (r.Admits hp f) :=
  have : Decidable (f.Legible hp r.hpack r.opened) := inferInstanceAs (Decidable (∀ b ∈ _, _))
  decidable_of_iff (KeepsAll r.opened [f] ∧ f.Legible hp r.hpack r.opened ∧
    f.payload.length ≤ maxObservedFramePayload)
    ⟨fun h => ⟨h.1, h.2.1, h.2.2⟩, fun h => ⟨h.1, h.2, h.3⟩⟩

end Reading

section

variable {η : Type} (hp : Hpack η)

/-- The readings of both directions after a frame of one. -/
def readOne (rs : Direction → Reading η) (d : Direction) (f : Frame) : Direction → Reading η :=
  fun d' => if d' = d then (rs d).next hp f else rs d'

def wireEventsFrom : (Direction → Reading η) → List (Direction × Frame) → List Event
  | _, [] => []
  | rs, (d, f) :: fs => (rs d).events hp d f ++ wireEventsFrom (readOne hp rs d f) fs

def WithinFrom : (Direction → Reading η) → List (Direction × Frame) → Prop
  | _, [] => True
  | rs, (d, f) :: fs => (rs d).Admits hp f ∧ WithinFrom (readOne hp rs d f) fs

instance decidableWithinFrom : ∀ rs fs, Decidable (WithinFrom hp rs fs)
  | _, [] => .isTrue trivial
  | rs, (d, f) :: fs =>
    have := decidableWithinFrom (readOne hp rs d f) fs
    inferInstanceAs (Decidable ((rs d).Admits hp f ∧ WithinFrom hp (readOne hp rs d f) fs))

/-- The events on the wire. -/
def wireEvents (calls : List Call) : List Event :=
  wireEventsFrom hp (fun _ => ⟨hp.init, none⟩) (history calls)

end

/-- The bytes begin as the direction does, as far as they go. -/
def Opens (d : Direction) (bytes : Bytes) : Prop :=
  opening d <+: bytes ∨ bytes <+: opening d

theorem Opens.left {d : Direction} {a b : Bytes} (h : Opens d (a ++ b)) : Opens d a := by
  rcases h with h | h
  · exact prefix_or_prefix_of_prefix h (prefix_append a b)
  · exact .inr ((prefix_append a b).trans h)

/-- The end of a direction is its last call. -/
def EndsLast : List Call → Prop
  | [] => True
  | .push _ _ :: calls => EndsLast calls
  | .finish d :: calls => (∀ c ∈ calls, c.direction ≠ d) ∧ EndsLast calls

/-- The calls of a connection whose frames are all within the limits of the decoder. -/
structure Within {η : Type} (hp : Hpack η) (calls : List Call) : Prop where
  opens : ∀ d, Opens d (sent d calls)
  ends : EndsLast calls
  frames : WithinFrom hp (fun _ => ⟨hp.init, none⟩) (history calls)

/-! ## One direction -/

namespace DirectionState

variable {η : Type} {hp : Hpack η} {d : Direction}

theorem receiveAll_append (st : DirectionState η) (fs fs' : List Frame) :
    st.receiveAll hp d (fs ++ fs') =
      (((st.receiveAll hp d fs).1.receiveAll hp d fs').1,
        (st.receiveAll hp d fs).2 ++ ((st.receiveAll hp d fs).1.receiveAll hp d fs').2) := by
  induction fs generalizing st with
  | nil => rfl
  | cons f fs ih => simp [receiveAll, ih]

variable (hp d) in
/-- What the frames in the bytes of a direction leave and give. -/
def observed (bytes : Bytes) : DirectionState η × List Event :=
  (DirectionState.new hp false).receiveAll hp d (wireFrames d bytes)

variable (hp d) in
/-- The direction has come to a stop on these bytes, and has given their events. -/
def Settled (bytes : Bytes) (st : DirectionState η) : Prop :=
  ∃ b, Settles (turn hp d) (((Http2Decoder.new hp 0).state d).feed bytes) st b ∧
    b.messages = (observed hp d bytes).2

variable (hp) in
theorem exists_settled {bytes : Bytes} (h : Opens d bytes) : ∃ st, Settled hp d bytes st := by
  have hall : ∀ rest, ∃ st, Settled hp d (opening d ++ rest) st := by
    intro rest
    have hready : (DirectionState.new hp false).Ready := ⟨rfl, rfl, rfl⟩
    have hle : rest.length ≤ (opening d ++ rest).length := by rw [length_append]; omega
    obtain ⟨t, b, hsettles, hmessages⟩ := settles_split hp d hready _ hle
    refine ⟨t, b, hsettles.congr (Http2Decoder.turn_opening hp d 0 rest), ?_⟩
    rw [hmessages, observed, wireFrames, drop_left]
  rcases h with ⟨rest, rfl⟩ | ⟨rest, hrest⟩
  · exact hall rest
  · -- A part of what the direction begins with gives nothing, since the whole gives nothing.
    obtain ⟨t, b, hsettles, hmessages⟩ := hall []
    have hnone : ∀ bytes : Bytes, bytes.length ≤ (opening d).length →
        (observed hp d bytes).2 = [] := by
      intro bytes hlen
      rw [observed, wireFrames, drop_eq_nil_of_le hlen, splitFrames_short (by decide)]
      rfl
    rw [append_nil, hnone _ (Nat.le_refl _)] at hmessages
    rw [append_nil, ← hrest, ← bytes_feed, ← DirectionState.bytes.feed_append] at hsettles
    obtain ⟨u, c, hu⟩ := hsettles.of_feed (direction_decreases hp d) (direction_resumes hp d)
      turn_stop_feed
    obtain ⟨b', -, rfl⟩ := hu.rest (direction_resumes hp d) hsettles
    refine ⟨u, c, hu, ?_⟩
    rw [hnone _ (by rw [← hrest, length_append]; omega)]
    exact (append_eq_nil_iff.mp hmessages).1

/-- A push goes on with the frames that it completes. -/
theorem Settled.push {bytes : Bytes} {st : DirectionState η} (h : Settled hp d bytes st)
    {x : Bytes} (hx : Opens d (bytes ++ x)) :
    Settled hp d (bytes ++ x) (st.push hp d x).1 ∧
      (observed hp d (bytes ++ x)).2 = (observed hp d bytes).2 ++ (st.push hp d x).2.messages := by
  obtain ⟨b, hsettles, hmessages⟩ := h
  obtain ⟨t, b', hsettles', hmessages'⟩ := exists_settled hp hx
  have hfeed := hsettles'
  rw [← bytes_feed, ← DirectionState.bytes.feed_append] at hfeed
  obtain ⟨c, hc, rfl⟩ := hsettles.rest (direction_resumes hp d) hfeed
  have hpush : st.push hp d x = (t, c) :=
    hc.drive (direction_decreases hp d) _ (Nat.lt_succ_self _)
  rw [hpush, ← hmessages, ← hmessages']
  exact ⟨⟨_, hsettles', hmessages'⟩, rfl⟩

/-- A direction that has come to a stop has nothing to give at its end. -/
theorem Settled.finish {bytes : Bytes} {st : DirectionState η} (h : Settled hp d bytes st) :
    (st.finish hp d).2.messages = [] := by
  obtain ⟨b, hsettles, -⟩ := h
  have hwaits := hsettles.waits (direction_resumes hp d)
  have hdecode : st.decodeAvailable hp d = (st, .needMore) := by
    simp [decodeAvailable, Stream.drive, hwaits]
  simp only [DirectionState.finish, hdecode]
  split <;> rfl

end DirectionState

/-! ## Runs -/

section

variable {η : Type} {hp : Hpack η} {rs : Direction → Reading η} {d : Direction}

/-- The decoder is in step with the frames in the bytes of both directions. -/
def InStepWith (hp : Hpack η) (before : Direction → Bytes) (rs : Direction → Reading η) :
    Prop :=
  ∀ d, (DirectionState.observed hp d (before d)).1.Tracks (rs d).hpack (rs d).opened

/-- Frames of one direction that are within the limits are received as they are read. -/
theorem wireEventsFrom_frames {rest : List (Direction × Frame)} : ∀ {fs : List Frame}
    {rs : Direction → Reading η} {st : DirectionState η},
    st.Tracks (rs d).hpack (rs d).opened → WithinFrom hp rs (fs.map (fun f => (d, f)) ++ rest) →
    ∃ rs', wireEventsFrom hp rs (fs.map (fun f => (d, f)) ++ rest) =
        (st.receiveAll hp d fs).2 ++ wireEventsFrom hp rs' rest ∧ WithinFrom hp rs' rest ∧
      (st.receiveAll hp d fs).1.Tracks (rs' d).hpack (rs' d).opened ∧ ∀ d', d' ≠ d → rs' d' = rs d'
  | [], rs, st, ht, hw => ⟨rs, rfl, hw, ht, fun _ _ => rfl⟩
  | f :: fs, rs, st, ht, hw => by
    obtain ⟨⟨hkeeps, hlegible, hlen⟩, hrest⟩ := hw
    obtain ⟨hnext, -, hevents⟩ := ht.receive (d := d) hkeeps
    have hself : readOne hp rs d f d = (rs d).next hp f := if_pos rfl
    have hnext' : (st.receive hp d f).1.Tracks (readOne hp rs d f d).hpack
        (readOne hp rs d f d).opened := by rw [hself]; exact hnext
    obtain ⟨rs', heq, hwithin, htracks, hothers⟩ := wireEventsFrom_frames hnext' hrest
    refine ⟨rs', ?_, hwithin, htracks, fun d' hd' => (hothers d' hd').trans (if_neg hd')⟩
    rw [map_cons, cons_append, wireEventsFrom, heq, DirectionState.receiveAll,
      hevents hlegible hlen, append_assoc]
    rfl

end

namespace Http2Decoder

variable {η : Type} (hp : Hpack η)

theorem events_eq_from : ∀ (calls : List Call) (s : Http2Decoder η)
    (before : Direction → Bytes) (rs : Direction → Reading η),
    (∀ c ∈ calls, DirectionState.Settled hp c.direction (before c.direction)
      (s.state c.direction)) →
    InStepWith hp before rs → (∀ d, Opens d (before d ++ sent d calls)) → EndsLast calls →
    WithinFrom hp rs (historyFrom before calls) →
    s.events hp calls = wireEventsFrom hp rs (historyFrom before calls)
  | [], _, _, _, _, _, _, _, _ => rfl
  | .finish d :: calls, s, before, rs, hsettled, hstep, hopens, hends, hw => by
    have hnone := (hsettled (.finish d) (mem_cons_self ..)).finish
    rw [events, callDirection, historyFrom]
    simp only [Call.direction] at hnone
    rw [hnone, nil_append]
    refine events_eq_from calls _ before rs (fun c hc => ?_) hstep hopens hends.2 hw
    rw [state_call_ne s (Ne.symm (hends.1 c hc))]
    exact hsettled c (mem_cons_of_mem _ hc)
  | .push d x :: calls, s, before, rs, hsettled, hstep, hopens, hends, hw => by
    have hx : Opens d (before d ++ x) := by
      have hall := hopens d
      rw [sent, if_pos rfl, ← append_assoc] at hall
      exact hall.left
    obtain ⟨hpushed, hmessages⟩ := (hsettled (.push d x) (mem_cons_self ..)).push hx
    simp only [Call.direction] at hpushed hmessages
    obtain ⟨new, hnew⟩ := wireFrames_append d (before d) x
    have hdrop : (wireFrames d (before d ++ x)).drop (wireFrames d (before d)).length = new := by
      rw [← hnew, drop_left]
    rw [historyFrom, hdrop] at hw ⊢
    obtain ⟨rs', heq, hwithin, htracks, hothers⟩ := wireEventsFrom_frames (hstep d) hw
    -- The frames after the ones that were complete before are those of the push.
    have hobserved : DirectionState.observed hp d (before d ++ x) =
        (((DirectionState.observed hp d (before d)).1.receiveAll hp d new).1,
          (DirectionState.observed hp d (before d)).2 ++
            ((DirectionState.observed hp d (before d)).1.receiveAll hp d new).2) := by
      rw [DirectionState.observed, ← hnew, DirectionState.receiveAll_append]
      rfl
    rw [hobserved] at hmessages
    rw [events, heq, callDirection, ← append_cancel_left hmessages]
    congr 1
    refine events_eq_from calls _ _ rs' (fun c hc => ?_) (fun d' => ?_) (fun d' => ?_) hends hwithin
    · by_cases hd : c.direction = d
      · have hstate : (s.call hp (.push d x)).1.state d = ((s.state d).push hp d x).1 := by
          rw [(s.call_eq hp _).1]
          exact state_followAll ..
        rw [hd, if_pos rfl, hstate]
        exact hpushed
      · rw [if_neg hd, state_call_ne s (Ne.symm hd)]
        exact hsettled c (mem_cons_of_mem _ hc)
    · by_cases hd : d' = d
      · subst hd
        rw [if_pos rfl, hobserved]
        exact htracks
      · rw [if_neg hd, hothers d' hd]
        exact hstep d'
    · have hall := hopens d'
      by_cases hd : d' = d
      · subst hd
        rw [sent, if_pos rfl, ← append_assoc] at hall
        rwa [if_pos rfl]
      · rw [sent, if_neg (Ne.symm hd)] at hall
        rwa [if_neg hd]

/-- Within the limits, the events of a run are those of the wire. -/
theorem events_eq_wireEvents {calls : List Call} (h : Within hp calls) (maxBody : Nat) :
    (new hp maxBody).events hp calls = wireEvents hp calls := by
  refine events_eq_from hp calls _ _ _ (fun c _ => ?_) (fun d => ?_) h.opens h.ends h.frames
  · refine ⟨.needMore, .stop ?_, rfl⟩
    rw [← DirectionState.bytes_feed, DirectionState.bytes.feed_nil]
    exact turn_new hp c.direction maxBody
  · cases d <;> exact ⟨rfl, rfl, by simp⟩

end Http2Decoder

end Lens.Http2
