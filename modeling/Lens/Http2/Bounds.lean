import Lens.Http2.Budget

/-!
# Bounded inspection

Whatever bytes arrive, the decoder holds a bounded amount of them.  A direction
stops only when its buffer holds less than a frame within the cap
(`nextFrame_needMore_short`), a header block is cut at its cap, a stream is put into
the table only if there is room (`Table.apply_length_le`), and the bodies are within
the budget by the account of `Budget`.
-/

namespace Lens.Http2

open List
open Search (beNat)

/-! ## Directions -/

namespace DirectionState

variable {η : Type} {hp : Hpack η} {d : Direction} {st t : DirectionState η}

theorem takeFrame_needMore_short (h : st.takeFrame = (t, .needMore)) :
    t.buffer.length < frameHeaderBytes + maxObservedFramePayload := by
  by_cases hshort : st.buffer.length < frameHeaderBytes
  · rw [takeFrame_short hshort] at h
    cases h
    omega
  obtain ⟨a, b, c, kind, flags, i, j, k, l, rest, hbuffer⟩ := exists_head hshort
  have hlen : st.buffer.length = frameHeaderBytes + rest.length := by
    rw [hbuffer, frameHeaderBytes]
    simp only [length_cons]
    omega
  rw [takeFrame_head hbuffer] at h
  simp only at h
  split at h
  · cases h
  split at h
  · cases h
    omega
  · cases h

theorem skipThenTake_needMore_short (h : st.skipThenTake = (t, .needMore)) :
    t.buffer.length < frameHeaderBytes + maxObservedFramePayload := by
  by_cases hlt : st.buffer.length < st.skipPayload
  · rw [skipThenTake_short hlt] at h
    cases h
    exact Nat.zero_lt_succ _
  · rw [skipThenTake_long (not_lt.mp hlt)] at h
    exact takeFrame_needMore_short h

/-- A direction that asks for more holds less than a frame within the cap. -/
theorem nextFrame_needMore_short (h : st.nextFrame = (t, .needMore)) :
    t.buffer.length < frameHeaderBytes + maxObservedFramePayload := by
  by_cases hpre : st.expectClientPreface = true
  · unfold nextFrame at h
    simp only [hpre, ↓reduceIte] at h
    split at h
    · cases h
    split at h
    next hlt =>
      cases h
      exact hlt.trans (by decide)
    · exact skipThenTake_needMore_short h
  · rw [nextFrame_eq_skipThenTake (by simpa using hpre)] at h
    exact skipThenTake_needMore_short h

theorem nextFrame_invalid_buffer {reason : String} (h : st.nextFrame = (t, .invalid reason)) :
    t.buffer = [] := by
  unfold nextFrame at h
  split at h
  · simp only at h
    split at h
    · cases h
      rfl
    split at h
    · cases h
    · exact absurd h skipThenTake_ne_invalid
  · exact absurd h skipThenTake_ne_invalid

/-- Where the loop of a direction stops, its buffer is short. -/
theorem turn_stop_short {b : Stream.Batch Event String} (h : st.turn hp d = .stop t b) :
    t.buffer.length < frameHeaderBytes + maxObservedFramePayload := by
  rcases hst : st.nextFrame with ⟨w, f | reason | _ | reason⟩
  · rw [turn_frame hst] at h
    exact absurd h (handled_ne_stop _ _ _)
  · rw [turn_skipped hst] at h
    cases h
  · rw [turn_needMore hst] at h
    cases h
    exact nextFrame_needMore_short hst
  · rw [turn_invalid hst] at h
    cases h
    rw [nextFrame_invalid_buffer hst]
    exact Nat.zero_lt_succ _

theorem decodeAvailable_short (st : DirectionState η) :
    (st.decodeAvailable hp d).1.buffer.length < frameHeaderBytes + maxObservedFramePayload := by
  obtain ⟨u, c, hu⟩ := Stream.drive_stops (direction_decreases hp d) (st.buffer.length + 1) st
    (Nat.lt_succ_self _)
  exact turn_stop_short hu

/-! ### The open header block -/

/-- The open header block is within the cap. -/
def BlockBounded (st : DirectionState η) : Prop :=
  ∀ block, st.continuation = some block → block.bytes.length ≤ maxHeaderBlock

end DirectionState

theorem HeaderBlock.length_extend_le {b : HeaderBlock} (h : b.bytes.length ≤ maxHeaderBlock)
    (fragment : Bytes) : (b.extend fragment).bytes.length ≤ maxHeaderBlock := by
  simp only [extend, length_append, length_take]
  omega

namespace DirectionState

variable {η : Type} {hp : Hpack η} {d : Direction} {st : DirectionState η}

/-- Taking a frame changes the buffer, what is skipped and the preface. -/
theorem nextFrame_lane (st : DirectionState η) :
    (st.nextFrame).1.continuation = st.continuation ∧ (st.nextFrame).1.hpack = st.hpack := by
  have htake : ∀ w : DirectionState η,
      w.takeFrame.1.continuation = w.continuation ∧ w.takeFrame.1.hpack = w.hpack := by
    intro w
    unfold takeFrame
    simp only
    repeat' split
    all_goals exact ⟨rfl, rfl⟩
  have hskip : ∀ w : DirectionState η,
      w.skipThenTake.1.continuation = w.continuation ∧ w.skipThenTake.1.hpack = w.hpack := by
    intro w
    by_cases hlt : w.buffer.length < w.skipPayload
    · rw [skipThenTake_short hlt]
      exact ⟨rfl, rfl⟩
    · rw [skipThenTake_long (not_lt.mp hlt)]
      exact htake _
  unfold nextFrame
  split
  · simp only
    split
    · exact ⟨rfl, rfl⟩
    split
    · exact ⟨rfl, rfl⟩
    · exact hskip _
  · exact hskip st

/-- A property of the open block and the HPACK state that frames keep. -/
structure KeptByFrames (hp : Hpack η) (d : Direction)
    (P : Option HeaderBlock → η → Prop) : Prop where
  close : ∀ {block h}, P block h → P none h
  handle : ∀ {st : DirectionState η} (f : Frame), P st.continuation st.hpack →
    P (st.handle hp d f).1.continuation (st.handle hp d f).1.hpack

namespace KeptByFrames

variable {P : Option HeaderBlock → η → Prop} (hP : KeptByFrames hp d P)
include hP

theorem turn (h : P st.continuation st.hpack) {t : DirectionState η}
    {b : Stream.Batch Event String} (hturn : st.turn hp d = .again t b ∨ st.turn hp d = .stop t b) :
    P t.continuation t.hpack := by
  have hlane := nextFrame_lane st
  rcases hst : st.nextFrame with ⟨w, f | reason | _ | reason⟩ <;> rw [hst] at hlane <;>
    rw [← hlane.1, ← hlane.2] at h
  · rw [turn_frame hst] at hturn
    have hkept := hP.handle f h
    rcases hr : w.handle hp d f with ⟨w', _ | e⟩ <;> rw [hr] at hturn hkept <;>
      rcases hturn with hturn | hturn <;> cases hturn
    · exact hP.close hkept
    · exact hkept
  · rw [turn_skipped hst] at hturn
    rcases hturn with hturn | hturn <;> cases hturn
    exact h
  · rw [turn_needMore hst] at hturn
    rcases hturn with hturn | hturn <;> cases hturn
    exact h
  · rw [turn_invalid hst] at hturn
    rcases hturn with hturn | hturn <;> cases hturn
    exact h

theorem decodeAvailable (h : P st.continuation st.hpack) :
    P (st.decodeAvailable hp d).1.continuation (st.decodeAvailable hp d).1.hpack :=
  Stream.drive_keeps (P := fun st => P st.continuation st.hpack)
    (fun hturn h => hP.turn h (.inl hturn)) (fun hturn h => hP.turn h (.inr hturn)) _ st h

theorem finish (h : P st.continuation st.hpack) :
    P (st.finish hp d).1.continuation (st.finish hp d).1.hpack := by
  have hrun := hP.decodeAvailable h
  unfold DirectionState.finish flushed
  simp only
  split
  · exact hP.close hrun
  · exact hrun

end KeptByFrames

theorem BlockBounded.none (h : st.continuation = none) : st.BlockBounded := by
  intro block hb
  rw [h] at hb
  cases hb

theorem BlockBounded.handle (h : st.BlockBounded) (f : Frame) :
    (st.handle hp d f).1.BlockBounded := by
  unfold DirectionState.handle
  split
  · exact .none rfl
  split
  · unfold handleHeaders
    split
    · exact h
    split
    · exact h
    simp only
    split
    · intro block hb
      cases hb
      exact HeaderBlock.length_extend_le (Nat.zero_le _) _
    · intro block hb
      exact h block ((completeHeaderBlock_continuation hp d st _).symm.trans hb)
  split
  · unfold handleContinuation
    split
    · exact h
    next block hblock =>
    simp only
    split
    · exact .none rfl
    split
    · intro block' hb
      cases hb
      exact HeaderBlock.length_extend_le (h block hblock) _
    · exact .none (completeHeaderBlock_continuation hp d _ _)
  split
  · unfold handleData
    split
    · exact h
    split <;> exact h
  split <;> exact h

theorem blockBounded_kept (hp : Hpack η) (d : Direction) : KeptByFrames hp d
    fun held _ => ∀ block, held = some block → block.bytes.length ≤ maxHeaderBlock :=
  ⟨fun _ => nofun, fun f h => BlockBounded.handle h f⟩

/-- A direction between two calls. -/
structure Bounded (st : DirectionState η) : Prop where
  buffer : st.buffer.length < frameHeaderBytes + maxObservedFramePayload
  block : st.BlockBounded

theorem Bounded.new (hp : Hpack η) (expectClientPreface : Bool) :
    (DirectionState.new hp expectClientPreface).Bounded :=
  ⟨Nat.zero_lt_succ _, .none rfl⟩

theorem Bounded.push {st : DirectionState η} (h : st.Bounded) (bytes : Bytes) :
    (st.push hp d bytes).1.Bounded :=
  ⟨decodeAvailable_short _, (blockBounded_kept hp d).decodeAvailable h.block⟩

theorem Bounded.finish (h : st.Bounded) : (st.finish hp d).1.Bounded := by
  refine ⟨?_, (blockBounded_kept hp d).finish h.block⟩
  unfold DirectionState.finish flushed
  simp only
  split
  · exact Nat.zero_lt_succ _
  · exact decodeAvailable_short st

end DirectionState

/-! ## The table -/

namespace Table

theorem length_erase_le (streams : Streams) (id : Nat) :
    (streams.erase id).entries.length + (if (streams.lookup id).isSome then 1 else 0) =
      streams.entries.length := by
  change (streams.entries.kerase id).length +
    (if (streams.entries.dlookup id).isSome then 1 else 0) = streams.entries.length
  induction streams.entries with
  | nil => rfl
  | cons entry rest ih =>
    by_cases hid : id = entry.1
    · rw [kerase_cons_eq hid]
      obtain ⟨id', st⟩ := entry
      subst hid
      rw [dlookup_cons_eq]
      rfl
    · rw [kerase_cons_ne hid, dlookup_cons_ne _ _ hid, length_cons,
        length_cons, Nat.add_right_comm, ih]

/-- A stream that is not in a full table is not put in. -/
theorem outcome_full (maxBody retained : Nat) (e : Event) (st : StreamState) :
    (Http2.outcome maxBody retained true none e).change ≠ .put st := by
  cases e <;> simp [Http2.outcome]

theorem apply_length_le {t : Table} (h : t.streams.entries.length ≤ maxTrackedStreams) (e : Event) :
    (t.apply e).streams.entries.length ≤ maxTrackedStreams := by
  have herase := length_erase_le t.streams e.id
  unfold apply
  cases hc : (t.outcome e).change with
  | keep => exact h
  | remove =>
    simp only [change]
    omega
  | put st =>
    simp only [change, AList.entries_insert, length_cons]
    change (t.streams.erase e.id).entries.length + 1 ≤ maxTrackedStreams
    by_cases hold : (t.streams.lookup e.id).isSome
    · rw [if_pos hold] at herase
      omega
    · rw [if_neg hold] at herase
      have hnone : t.streams.lookup e.id = none := by simpa using hold
      have hroom : ¬maxTrackedStreams ≤ t.streams.entries.length := by
        intro hfull
        rw [outcome, hnone, (full_iff t).mpr hfull] at hc
        exact outcome_full _ _ e st hc
      omega

theorem applyAll_length_le {t : Table} (h : t.streams.entries.length ≤ maxTrackedStreams)
    (es : List Event) : (t.applyAll es).streams.entries.length ≤ maxTrackedStreams :=
  applyAll_induction (P := fun t => t.streams.entries.length ≤ maxTrackedStreams)
    (fun _ e ht => apply_length_le ht e) h es

end Table

/-! ## Runs -/

namespace Http2Decoder

variable {η : Type}

/-- What the decoder holds. -/
structure Bounded (s : Http2Decoder η) : Prop where
  streams : s.streams.entries.length ≤ maxTrackedStreams
  buffer : ∀ d, (s.state d).buffer.length < frameHeaderBytes + maxObservedFramePayload
  block : ∀ d block, (s.state d).continuation = some block → block.bytes.length ≤ maxHeaderBlock
  bodies : held s.streams ≤ s.retainedBodyBytes
  budget : s.retainedBodyBytes ≤ maxInflightCapture

/-- A call keeps what holds of both directions, if it does so in its own. -/
theorem call_states {P : DirectionState η → Prop} (hp : Hpack η) {s : Http2Decoder η} (c : Call)
    (h : ∀ d, P (s.state d)) (hc : P (s.callDirection hp c).1) (d : Direction) :
    P ((s.call hp c).1.state d) := by
  rw [(s.call_eq hp c).1]
  by_cases hd : d = c.direction
  · subst hd
    rw [state_followAll]
    exact hc
  · rw [state_followAll_ne _ _ hd]
    exact h d

/-- What every call keeps of the directions holds of them after every run. -/
theorem run_states {P : DirectionState η → Prop} (hp : Hpack η)
    (hstep : ∀ (s : Http2Decoder η) c, (∀ d, P (s.state d)) → P (s.callDirection hp c).1) :
    ∀ (calls : List Call) (s : Http2Decoder η), (∀ d, P (s.state d)) →
      ∀ d, P ((s.run hp calls).1.state d)
  | [], _, h => h
  | c :: cs, s, h => run_states hp hstep cs _ (call_states hp c h (hstep s c h))

theorem callDirection_bounded (hp : Hpack η) (s : Http2Decoder η) (c : Call)
    (h : ∀ d, (s.state d).Bounded) : (s.callDirection hp c).1.Bounded := by
  cases c with
  | push d bytes => exact (h d).push bytes
  | finish d => exact (h d).finish

/-- After any calls the decoder is bounded, and no message has a body over the cap. -/
theorem run_bounded (hp : Hpack η) (maxBody : Nat) (calls : List Call) :
    ((new hp maxBody).run hp calls).1.Bounded ∧
      ∀ b ∈ ((new hp maxBody).run hp calls).2, ∀ m ∈ b.messages, m.body.length ≤ maxBody := by
  have htable := (new hp maxBody).run_table hp calls
  have hmessages := (new hp maxBody).run_messages hp calls
  have hstart : (new hp maxBody).table = Table.new maxBody := rfl
  rw [hstart] at htable hmessages
  have hcovered := (Table.Covered.new maxBody).applyAll ((new hp maxBody).events hp calls)
  have hlength : ((Table.new maxBody).applyAll
      ((new hp maxBody).events hp calls)).streams.entries.length ≤ maxTrackedStreams :=
    Table.applyAll_length_le (Nat.zero_le _) _
  rw [← htable] at hcovered hlength
  have hstates := run_states hp (callDirection_bounded hp) calls (new hp maxBody) fun d => by
    cases d <;> exact .new hp _
  refine ⟨⟨hlength, fun d => (hstates d).buffer, fun d => (hstates d).block, hcovered.held_le,
    hcovered.within⟩, ?_⟩
  intro b hb m hm
  have hall := (Table.Ok.new maxBody).body_le ((new hp maxBody).events hp calls)
  rw [← hmessages] at hall
  exact hall m (mem_flatMap.mpr ⟨b, hb, hm⟩)

end Http2Decoder

end Lens.Http2
