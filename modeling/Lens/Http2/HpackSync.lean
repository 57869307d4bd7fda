import Lens.Http2.Received

/-!
# The HPACK state of a direction

HPACK compresses against a table that every header block of the connection changes, so
a header list is right only if all blocks before it were decoded, in the order of the
wire.  `wireBlocks` collects the blocks of a sequence of frames as HTTP/2 defines them,
those of PUSH_PROMISE included, and `Hpack.read` decodes all of them in order.

The decoder drops some blocks without decoding them: a block over the cap, in a frame
over the cap, with bad padding or on stream 0, one that another frame interrupts or
whose CONTINUATION names another stream, and every block of a PUSH_PROMISE.  It goes on
afterwards with the state it has.  If no frame of a direction drops a block
(`KeepsAll`), every header list that the decoder uses is one that `Hpack.read` gives
(`lists_in_step`).
-/

namespace Lens.Http2

open List
open DirectionState (Recognized)

/-! ## Header blocks on the wire -/

def framePushPromise : UInt8 := 0x5

structure WireBlock where
  streamId : Nat
  endStream : Bool
  /-- The block of a PUSH_PROMISE, which makes no message. -/
  promise : Bool
  bytes : Bytes
deriving DecidableEq, Repr

/-- The fragment of a PUSH_PROMISE, after the identifier of the promised stream. -/
def promiseFragment (f : Frame) : Option Bytes :=
  match headerFragment { f with flags := f.flags &&& flagPadded } with
  | .ok fragment => if fragment.length < 4 then none else some (fragment.drop 4)
  | .error _ => none

namespace Frame

/-- The block that the frame begins. -/
def opens (f : Frame) : Option WireBlock :=
  if f.kind = frameHeaders then
    (headerFragment f).toOption.map (⟨f.streamId, f.has flagEndStream, false, ·⟩)
  else if f.kind = framePushPromise then
    (promiseFragment f).map (⟨f.streamId, false, true, ·⟩)
  else none

/-- The block that the frame is the last part of so far. -/
def part (f : Frame) (opened : Option WireBlock) : Option WireBlock :=
  if f.kind = frameContinuation then
    opened.map fun b => { b with bytes := b.bytes ++ f.payload }
  else f.opens

/-- The block that is open after the frame. -/
def leaves (f : Frame) (opened : Option WireBlock) : Option WireBlock :=
  if f.has flagEndHeaders then none else f.part opened

/-- The block that the frame completes. -/
def completes (f : Frame) (opened : Option WireBlock) : Option WireBlock :=
  if f.has flagEndHeaders then f.part opened else none

end Frame

/-- The header blocks of a sequence of frames, with one that is open before it. -/
def wireBlocks : Option WireBlock → List Frame → List WireBlock
  | _, [] => []
  | opened, f :: fs => (f.completes opened).toList ++ wireBlocks (f.leaves opened) fs

/-- The header list of a block, from what HPACK makes of it. -/
def WireBlock.list (d : Direction) (b : WireBlock) :
    Except String (List (Bytes × Bytes)) → Option Event
  | .error _ => none
  | .ok fields =>
    if b.promise then none
    else some (.headers d b.streamId b.endStream (Http2Decoder.headerText fields))

namespace Hpack

variable {η : Type} (hp : Hpack η)

/-- The header lists of blocks that are decoded in order, none left out. -/
def read (d : Direction) : η → List WireBlock → List Event
  | _, [] => []
  | state, b :: bs =>
    let r := hp.decode state b.bytes
    (b.list d r.2).toList ++ read d r.1 bs

/-- The state after blocks that are decoded in order. -/
def after (state : η) (bs : List WireBlock) : η :=
  bs.foldl (fun state b => (hp.decode state b.bytes).1) state

variable {hp}

theorem after_append (state : η) (bs bs' : List WireBlock) :
    hp.after state (bs ++ bs') = hp.after (hp.after state bs) bs' := foldl_append

theorem read_append (d : Direction) (state : η) (bs bs' : List WireBlock) :
    hp.read d state (bs ++ bs') = hp.read d state bs ++ hp.read d (hp.after state bs) bs' := by
  induction bs generalizing state with
  | nil => rfl
  | cons b bs ih =>
    rw [cons_append, read, ih, read, append_assoc]
    rfl

end Hpack

/-! ## Frames that drop no block -/

/-- A frame that comes with a block open drops nothing. -/
structure Frame.Continues (f : Frame) (b : WireBlock) : Prop where
  kind : f.kind = frameContinuation
  streamId : f.streamId = b.streamId
  length : (b.bytes ++ f.payload).length ≤ maxHeaderBlock

/-- A frame that comes with no block open drops nothing. -/
structure Frame.Begins (f : Frame) : Prop where
  kind : f.kind ≠ framePushPromise
  headers : f.kind = frameHeaders → f.payload.length ≤ maxObservedFramePayload ∧ f.streamId ≠ 0 ∧
    ∃ fragment, headerFragment f = .ok fragment ∧ fragment.length ≤ maxHeaderBlock

instance (f : Frame) (b : WireBlock) : Decidable (f.Continues b) :=
  decidable_of_iff (f.kind = frameContinuation ∧ f.streamId = b.streamId ∧
    (b.bytes ++ f.payload).length ≤ maxHeaderBlock)
    ⟨fun h => ⟨h.1, h.2.1, h.2.2⟩, fun h => ⟨h.1, h.2, h.3⟩⟩

instance decidableExistsOk {ε α : Type} (e : Except ε α) (P : α → Prop) [DecidablePred P] :
    Decidable (∃ x, e = .ok x ∧ P x) :=
  match e with
  | .ok x => decidable_of_iff (P x) (by simp)
  | .error _ => .isFalse (by simp)

instance (f : Frame) : Decidable f.Begins :=
  decidable_of_iff (f.kind ≠ framePushPromise ∧ (f.kind = frameHeaders →
    f.payload.length ≤ maxObservedFramePayload ∧ f.streamId ≠ 0 ∧
      ∃ fragment, headerFragment f = .ok fragment ∧ fragment.length ≤ maxHeaderBlock))
    ⟨fun h => ⟨h.1, h.2⟩, fun h => ⟨h.1, h.2⟩⟩

/-- No frame of the sequence drops a header block. -/
def KeepsAll : Option WireBlock → List Frame → Prop
  | _, [] => True
  | some b, f :: fs => f.Continues b ∧ KeepsAll (f.leaves (some b)) fs
  | none, f :: fs => f.Begins ∧ KeepsAll (f.leaves none) fs

instance decidableKeepsAll : ∀ opened frames, Decidable (KeepsAll opened frames)
  | _, [] => .isTrue trivial
  | some b, f :: fs =>
    have := decidableKeepsAll (f.leaves (some b)) fs
    inferInstanceAs (Decidable (f.Continues b ∧ KeepsAll (f.leaves (some b)) fs))
  | none, f :: fs =>
    have := decidableKeepsAll (f.leaves none) fs
    inferInstanceAs (Decidable (f.Begins ∧ KeepsAll (f.leaves none) fs))

/-! ## One frame -/

/-- The open block as the decoder keeps it. -/
def WireBlock.kept (b : WireBlock) : HeaderBlock := ⟨b.streamId, b.endStream, b.bytes, false⟩

theorem WireBlock.kept_extend {b : WireBlock} {fragment : Bytes}
    (h : (b.bytes ++ fragment).length ≤ maxHeaderBlock) :
    b.kept.extend fragment = ({ b with bytes := b.bytes ++ fragment } : WireBlock).kept := by
  rw [length_append] at h
  have hmin : min (maxHeaderBlock - b.bytes.length) fragment.length = fragment.length := by omega
  simp [HeaderBlock.extend, kept, hmin]

/-- Whether an event is a header list. -/
def Event.isList : Event → Bool
  | .headers .. => true
  | .data .. | .reset _ => false

/-- The event that a frame has apart from header blocks. -/
def Frame.event (d : Direction) (f : Frame) : Option Event :=
  if f.kind = frameData then
    if f.streamId = 0 then none
    else (dataFragment f).toOption.map (.data d f.streamId (f.has flagEndStream))
  else if f.kind = frameRstStream then some (.reset f.streamId)
  else none

theorem Frame.event_isList {d : Direction} {f : Frame} : ∀ e ∈ f.event d, e.isList = false := by
  intro e he
  unfold Frame.event at he
  split at he
  · split at he
    · cases he
    · obtain ⟨data, -, rfl⟩ := Option.map_eq_some_iff.mp he
      rfl
  · split at he
    · cases he
      rfl
    · cases he

/-- HPACK takes the block that the frame completes, and its list is within the limit. -/
def Frame.Legible {η : Type} (hp : Hpack η) (state : η) (opened : Option WireBlock) (f : Frame) :
    Prop :=
  ∀ b ∈ f.completes opened, ∃ fields, (hp.decode state b.bytes).2 = .ok fields ∧
    Http2Decoder.decodedSize fields ≤ maxDecodedHeaders

namespace DirectionState

variable {η : Type} {hp : Hpack η} {d : Direction} {st : DirectionState η} {f : Frame}
  {opened : Option WireBlock} {state : η}

/-- HEADERS without an open block. -/
theorem handle_of_headers {fragment : Bytes} (hc : st.continuation = none)
    (hk : f.kind = frameHeaders) (hid : f.streamId ≠ 0) (hf : headerFragment f = .ok fragment) :
    st.handle hp d f =
      let block := HeaderBlock.extend ⟨f.streamId, f.has flagEndStream, [], false⟩ fragment
      if f.has flagEndHeaders then st.completeHeaderBlock hp d block
      else ({ st with continuation := some block }, .ok none) := by
  simp only [handle, hc, hk, handleHeaders, hid, hf, Option.isSome_none, Bool.false_eq_true,
    false_and, ↓reduceIte]
  cases f.has flagEndHeaders <;> rfl

/-- CONTINUATION of the open block. -/
theorem handle_of_continuation {block : HeaderBlock} (hc : st.continuation = some block)
    (hk : f.kind = frameContinuation) (hid : f.streamId = block.streamId) : st.handle hp d f =
      if f.has flagEndHeaders then
        ({ st with continuation := none } : DirectionState η).completeHeaderBlock hp d
          (block.extend f.payload)
      else ({ st with continuation := some (block.extend f.payload) }, .ok none) := by
  have hne : ¬frameContinuation = frameHeaders := by decide
  simp only [handle, hc, hk, handleContinuation, hid, ne_eq, not_true_eq_false,
    and_false, ↓reduceIte, hne]
  cases f.has flagEndHeaders <;> rfl

/-- The direction is in step with the blocks of the wire. -/
structure Tracks (st : DirectionState η) (state : η) (opened : Option WireBlock) : Prop where
  hpack : st.hpack = state
  continuation : st.continuation = opened.map WireBlock.kept
  message : ∀ b, opened = some b → b.promise = false

variable (hp d) in
/-- A block that is complete is decoded, and used if it is not too large. -/
theorem completeHeaderBlock_kept (st : DirectionState η) {b : WireBlock} (hb : b.promise = false) :
    ((st.completeHeaderBlock hp d b.kept).1 =
        { st with hpack := (hp.decode st.hpack b.bytes).1 }) ∧
      (∀ event, (st.completeHeaderBlock hp d b.kept).2 = .ok event →
        event.toList.Sublist (b.list d (hp.decode st.hpack b.bytes).2).toList) ∧
      ∀ fields, (hp.decode st.hpack b.bytes).2 = .ok fields →
        Http2Decoder.decodedSize fields ≤ maxDecodedHeaders →
        (st.completeHeaderBlock hp d b.kept).2 = .ok (b.list d (.ok fields)) := by
  have hkept : b.kept.exceeded = false := rfl
  have hbytes : b.kept.bytes = b.bytes := rfl
  rcases hdecode : hp.decode st.hpack b.bytes with ⟨hpack, e | fields⟩ <;>
    simp only [completeHeaderBlock, hkept, hbytes, hdecode, Bool.false_eq_true, ↓reduceIte]
  · exact ⟨trivial, by simp⟩
  · split
    next hsize =>
      refine ⟨rfl, by simp, fun fields' h hle => ?_⟩
      cases h
      omega
    next =>
      refine ⟨rfl, fun event h => ?_, fun fields' h _ => ?_⟩
      · cases h
        simp [WireBlock.list, hb, WireBlock.kept]
      · cases h
        simp [WireBlock.list, hb, WireBlock.kept]

variable (hp d) in
/-- A frame that is no part of a block leaves the direction as it is. -/
theorem handle_of_other (hc : st.continuation = none) {f : Frame} (hh : f.kind ≠ frameHeaders) :
    ∃ r, st.handle hp d f = (st, r) ∧ r.toOption.join = f.event d := by
  unfold handle Frame.event
  simp only [hc, Option.isSome_none, Bool.false_eq_true, false_and, ↓reduceIte, hh]
  split
  next hk =>
    rw [handleContinuation, hc, hk]
    exact ⟨_, rfl, rfl⟩
  split
  · unfold handleData
    split
    · exact ⟨_, rfl, rfl⟩
    cases dataFragment f with
    | error reason => exact ⟨_, rfl, rfl⟩
    | ok data => exact ⟨_, rfl, rfl⟩
  split
  · exact ⟨_, rfl, rfl⟩
  · exact ⟨_, rfl, rfl⟩

variable (hp d) in
theorem receive_other (hc : st.continuation = none) {f : Frame} (hh : f.kind ≠ frameHeaders) :
    st.receive hp d f =
      (st, if maxObservedFramePayload < f.payload.length then [] else (f.event d).toList) := by
  have hclosed : ({ st with continuation := none } : DirectionState η) = st := by rw [← hc]
  by_cases hlen : maxObservedFramePayload < f.payload.length
  · rw [receive_skipped hlen, if_pos hlen]
  · obtain ⟨r, hr, hevent⟩ := handle_of_other hp d hc hh
    rw [if_neg hlen, ← hevent]
    cases r with
    | error reason =>
      rw [receive_error (not_lt.mp hlen) hr, hclosed]
      rfl
    | ok event => rw [receive_ok (not_lt.mp hlen) hr]; rfl

/-- A frame that goes on with a block, or completes it. -/
theorem receive_part {b : WireBlock} (hlen : f.payload.length ≤ maxObservedFramePayload)
    (hb : b.promise = false) (hpart : f.part opened = some b) (hhandle : st.handle hp d f =
      if f.has flagEndHeaders then
        ({ st with continuation := none } : DirectionState η).completeHeaderBlock hp d b.kept
      else ({ st with continuation := some b.kept }, .ok none)) :
    (st.receive hp d f).1.Tracks (hp.after st.hpack (f.completes opened).toList) (f.leaves opened) ∧
      ((st.receive hp d f).2.filter Event.isList).Sublist
        (hp.read d st.hpack (f.completes opened).toList) ∧
      (f.Legible hp st.hpack opened →
        (st.receive hp d f).2 = hp.read d st.hpack (f.completes opened).toList) := by
  cases hend : f.has flagEndHeaders with
  | false =>
    simp only [hend, Bool.false_eq_true, ↓reduceIte] at hhandle
    simp only [receive_ok hlen hhandle, Frame.completes, Frame.leaves, hend, Bool.false_eq_true,
      ↓reduceIte, hpart]
    exact ⟨⟨rfl, rfl, fun b' hb' => Option.some.inj hb' ▸ hb⟩, List.Sublist.refl _, fun _ => rfl⟩
  | true =>
    simp only [hend, ↓reduceIte] at hhandle
    obtain ⟨hstate, hlist, hall⟩ := completeHeaderBlock_kept hp d
      ({ st with continuation := none } : DirectionState η) hb
    rw [← hhandle] at hstate hlist hall
    have hcompletes : f.completes opened =
        some b := by rw [Frame.completes, hend, if_pos rfl, hpart]
    rw [Frame.Legible, hcompletes, Frame.leaves, hend, if_pos rfl]
    rcases hr : st.handle hp d f with ⟨st', reason | event⟩
    · rw [hr] at hstate hall
      obtain rfl : st' = _ := hstate
      rw [receive_error hlen hr]
      refine ⟨⟨rfl, rfl, by simp⟩, nil_sublist _, fun hlegible => ?_⟩
      obtain ⟨fields, hfields, hsize⟩ := hlegible b rfl
      cases hall fields hfields hsize
    · rw [hr] at hstate hlist hall
      obtain rfl : st' = _ := hstate
      rw [receive_ok hlen hr]
      refine ⟨⟨rfl, rfl, by simp⟩, filter_sublist.trans ?_, fun hlegible => ?_⟩
      · simpa [Hpack.read] using hlist event rfl
      · obtain ⟨fields, hfields, hsize⟩ := hlegible b rfl
        cases hall fields hfields hsize
        simp [Hpack.read, show (hp.decode st.hpack b.bytes).2 = .ok fields from hfields]

/-- A frame that drops no block keeps the direction in step. -/
theorem Tracks.receive (h : st.Tracks state opened) {fs : List Frame}
    (hk : KeepsAll opened (f :: fs)) :
    (st.receive hp d f).1.Tracks (hp.after state (f.completes opened).toList) (f.leaves opened) ∧
      ((st.receive hp d f).2.filter Event.isList).Sublist
        (hp.read d state (f.completes opened).toList) ∧
      (f.Legible hp state opened → f.payload.length ≤ maxObservedFramePayload →
        (st.receive hp d f).2 =
          hp.read d state (f.completes opened).toList ++ (f.event d).toList) := by
  obtain ⟨rfl, hc, hmessage⟩ := h
  have hplain : ∀ kind, f.kind = kind → kind = frameHeaders ∨ kind = frameContinuation →
      f.event d = none := by
    rintro _ hkind (rfl | rfl) <;> rw [Frame.event, hkind] <;> rfl
  cases opened with
  | some b =>
    obtain ⟨⟨hkind, hid, hlen⟩, -⟩ := hk
    have hpart : f.part (some b) = some { b with bytes := b.bytes ++ f.payload } := if_pos hkind
    have hsmall : f.payload.length ≤ maxObservedFramePayload := by
      rw [length_append] at hlen
      simp only [maxHeaderBlock, maxObservedFramePayload] at hlen ⊢
      omega
    have hhandle : st.handle hp d f = _ := handle_of_continuation hc hkind hid
    rw [WireBlock.kept_extend hlen] at hhandle
    have hreceive := receive_part hsmall (by exact hmessage b rfl) hpart hhandle
    refine ⟨hreceive.1, hreceive.2.1, fun hlegible _ => ?_⟩
    rw [hreceive.2.2 hlegible, hplain _ hkind (.inr rfl), Option.toList_none, append_nil]
  | none =>
    obtain ⟨⟨hpromise, hheaders⟩, -⟩ := hk
    have hcont : ∀ c, f.kind = c → c ≠ frameContinuation → f.part none = f.opens :=
      fun c hc' hne => if_neg (hc' ▸ hne)
    by_cases hkind : f.kind = frameHeaders
    · obtain ⟨hsmall, hid, fragment, hf, hlen⟩ := hheaders hkind
      have hpart : f.part none = some ⟨f.streamId, f.has flagEndStream, false, fragment⟩ := by
        rw [hcont _ hkind (by decide), Frame.opens, if_pos hkind, hf]
        rfl
      have hclosed : ({ st with continuation := none } : DirectionState η) = st := by
        rw [← show st.continuation = none from hc]
      have hextend : HeaderBlock.extend ⟨f.streamId, f.has flagEndStream, [], false⟩ fragment =
          WireBlock.kept ⟨f.streamId, f.has flagEndStream, false, fragment⟩ :=
        WireBlock.kept_extend (b := ⟨f.streamId, f.has flagEndStream, false, []⟩) hlen
      have hhandle : st.handle hp d f = _ := handle_of_headers hc hkind hid hf
      simp only [hextend] at hhandle
      have hreceive := receive_part hsmall rfl hpart (by rw [hhandle, hclosed])
      refine ⟨hreceive.1, hreceive.2.1, fun hlegible _ => ?_⟩
      rw [hreceive.2.2 hlegible, hplain _ hkind (.inl rfl), Option.toList_none, append_nil]
    · have hpart : f.part none = none := by
        unfold Frame.part Frame.opens
        simp [hkind, hpromise]
      have hcompletes : f.completes none = none := by simp [Frame.completes, hpart]
      have hleaves : f.leaves none = none := by simp [Frame.leaves, hpart]
      rw [receive_other hp d hc hkind, hcompletes, hleaves]
      refine ⟨⟨rfl, hc, hmessage⟩, ?_, fun _ hlen => if_neg (not_lt.mpr hlen)⟩
      rw [filter_eq_nil_iff.mpr]
      · exact nil_sublist _
      · intro e he
        split at he
        · cases he
        · simp [Frame.event_isList e (Option.mem_toList.mp he)]

/-- Frames that drop no block keep the direction in step, and the lists used are those
of the blocks. -/
theorem Tracks.receiveAll (h : st.Tracks state opened) {frames : List Frame}
    (hk : KeepsAll opened frames) :
    (st.receiveAll hp d frames).1.hpack = hp.after state (wireBlocks opened frames) ∧
      ((st.receiveAll hp d frames).2.filter Event.isList).Sublist
        (hp.read d state (wireBlocks opened frames)) := by
  induction frames generalizing st state opened with
  | nil => exact ⟨h.hpack, List.Sublist.refl _⟩
  | cons f fs ih =>
    obtain ⟨hstep, hlist, -⟩ := h.receive (d := d) hk
    have hrest : KeepsAll (f.leaves opened) fs := by
      cases opened with
      | none => exact hk.2
      | some b => exact hk.2
    obtain ⟨hstate, hlists⟩ := ih hstep hrest
    rw [wireBlocks, Hpack.after_append, Hpack.read_append]
    refine ⟨hstate, ?_⟩
    simp only [DirectionState.receiveAll, filter_append]
    exact hlist.append hlists

end DirectionState

/-! ## Runs -/

namespace Http2Decoder

variable {η : Type}

/-- Every header list that the decoder uses in a direction is the one that the blocks of
the frames give, decoded in order with none left out. -/
def InStep (hp : Hpack η) (maxBody : Nat) (d : Direction) (calls : List Call)
    (frames : List Frame) : Prop :=
  (((new hp maxBody).eventsOf hp d calls).filter Event.isList).Sublist
    (hp.read d hp.init (wireBlocks none frames))

theorem lists_in_step (hp : Hpack η) (maxBody : Nat) (d : Direction) (calls : List Call)
    (frames : List Frame) (hwire : ∀ f ∈ frames, f.OnWire) (hpush : .finish d ∉ calls)
    (hsent : sent d calls = opening d ++ frames.flatMap Frame.bytes)
    (hkeeps : KeepsAll none frames) : InStep hp maxBody d calls frames := by
  have htracks : (DirectionState.new hp false).Tracks hp.init none := ⟨rfl, rfl, by simp⟩
  rw [InStep, (run_receives hp maxBody hpush hwire hsent).2]
  exact (htracks.receiveAll hkeeps).2

/-- An HPACK decoder whose lists tell how many blocks came before. -/
def counting : Hpack Nat where
  init := 0
  decode n _ := (n + 1, .ok [(Utf8.asBytes ":status", Utf8.asBytes (toString (200 + n)))])

/-- Two responses, the first in a HEADERS frame and its CONTINUATION. -/
def continuedFrames : List Frame :=
  [⟨frameHeaders, flagEndStream, 1, [1]⟩, ⟨frameContinuation, flagEndHeaders, 1, [2]⟩,
    ⟨frameHeaders, flagEndHeaders ||| flagEndStream, 3, [3]⟩]

theorem continuedFrames_in_step :
    InStep counting 16 .serverToClient
      [.push .serverToClient ((continuedFrames.flatMap Frame.bytes).take 12),
        .push .serverToClient ((continuedFrames.flatMap Frame.bytes).drop 12)] continuedFrames := by
  exact lists_in_step counting 16 .serverToClient _ continuedFrames (by decide) (by decide)
    (by decide) (by decide)

/-- A promise and a response on the stream it is made on. -/
def promisedFrames : List Frame :=
  [⟨framePushPromise, flagEndHeaders, 1, [0, 0, 0, 2]⟩,
    ⟨frameHeaders, flagEndHeaders ||| flagEndStream, 1, []⟩]

/-- The block of the promise is not decoded, and the response is then given another
block's list. -/
theorem promisedFrames_not_in_step :
    ((new counting 16).run counting
        [.push .serverToClient (promisedFrames.flatMap Frame.bytes)]).2.flatMap
          (fun b => b.messages.map (·.startLine)) = ["HTTP/2 200"] ∧
      counting.read .serverToClient counting.init (wireBlocks none promisedFrames) =
        [.headers .serverToClient 1 true [(":status", "201")]] ∧
      ¬InStep counting 16 .serverToClient
        [.push .serverToClient (promisedFrames.flatMap Frame.bytes)] promisedFrames := by
  refine ⟨by decide +kernel, by decide +kernel, ?_⟩
  unfold InStep
  decide +kernel

end Http2Decoder

end Lens.Http2
