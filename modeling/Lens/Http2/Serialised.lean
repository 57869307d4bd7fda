import Lens.Http2.HpackSync

/-!
# What a sender writes

The frames of a message as its sender writes them: a header list as one block in a
HEADERS frame and any number of CONTINUATION frames, and the body in DATA frames, with
any padding and priority fields.  The decoder finds in each of these parts what was put
in (`headerFragment_headersFrame`, `dataFragment_dataFrame`), and handles it as the one
event that it is (`part_handles`).
-/

namespace Lens.Http2

open List

/-! ## Frames -/

/-- Padding, whose length is one byte of the frame. -/
structure Padding where
  bytes : Bytes
  length_le : bytes.length ≤ 255

/-- The five bytes of a priority field. -/
structure Priority where
  bytes : Bytes
  length_eq : bytes.length = 5

/-- A flag, or none. -/
def flagIf (flag : UInt8) (b : Bool) : UInt8 := if b then flag else 0

def padded (padding : Option Padding) (inner : Bytes) : Bytes :=
  match padding with
  | none => inner
  | some p => UInt8.ofNat p.bytes.length :: (inner ++ p.bytes)

def priorityBytes (priority : Option Priority) : Bytes := (priority.map Priority.bytes).getD []

def headersFrame (id : Nat) (endStream endHeaders : Bool) (padding : Option Padding)
    (priority : Option Priority) (fragment : Bytes) : Frame where
  kind := frameHeaders
  flags := flagIf flagEndStream endStream ||| flagIf flagEndHeaders endHeaders |||
    flagIf flagPadded padding.isSome ||| flagIf flagPriority priority.isSome
  streamId := id
  payload := padded padding (priorityBytes priority ++ fragment)

def continuationFrame (id : Nat) (endHeaders : Bool) (fragment : Bytes) : Frame where
  kind := frameContinuation
  flags := flagIf flagEndHeaders endHeaders
  streamId := id
  payload := fragment

def dataFrame (id : Nat) (endStream : Bool) (padding : Option Padding) (data : Bytes) :
    Frame where
  kind := frameData
  flags := flagIf flagEndStream endStream ||| flagIf flagPadded padding.isSome
  streamId := id
  payload := padded padding data

section Flags

variable (id : Nat) (endStream endHeaders : Bool) (padding : Option Padding)
  (priority : Option Priority) (fragment : Bytes)

theorem headersFrame_flags :
    (headersFrame id endStream endHeaders padding priority fragment).has flagEndStream = endStream ∧
      (headersFrame id endStream endHeaders padding priority fragment).has flagEndHeaders =
        endHeaders ∧
      (headersFrame id endStream endHeaders padding priority fragment).has flagPadded =
        padding.isSome ∧
      (headersFrame id endStream endHeaders padding priority fragment).has flagPriority =
        priority.isSome := by
  simp only [headersFrame, Frame.has_mk]
  generalize padding.isSome = a
  generalize priority.isSome = b
  revert endStream endHeaders a b
  decide

theorem continuationFrame_flags :
    (continuationFrame id endHeaders fragment).has flagEndHeaders = endHeaders := by
  simp only [continuationFrame, Frame.has_mk]
  revert endHeaders
  decide

theorem dataFrame_flags :
    (dataFrame id endStream padding fragment).has flagEndStream = endStream ∧
      (dataFrame id endStream padding fragment).has flagPadded = padding.isSome := by
  simp only [dataFrame, Frame.has_mk]
  generalize padding.isSome = a
  revert endStream a
  decide

theorem Padding.toNat_length (p : Padding) :
    (UInt8.ofNat p.bytes.length).toNat = p.bytes.length := by
  have := p.length_le
  rw [UInt8.toNat_ofNat']
  omega

/-- Padding and priority are taken off a HEADERS frame. -/
theorem headerFragment_headersFrame :
    headerFragment (headersFrame id endStream endHeaders padding priority fragment) =
      .ok fragment := by
  obtain ⟨-, -, hpadded, hpriority⟩ :=
    headersFrame_flags id endStream endHeaders padding priority fragment
  have hpayload : (headersFrame id endStream endHeaders padding priority fragment).payload =
    padded padding (priorityBytes priority ++ fragment) := rfl
  have hstart : ∀ start, (if priority.isSome = true then start + 5 else start) =
      start + (priorityBytes priority).length := by
    intro start
    cases priority with
    | none => rfl
    | some p => simp [priorityBytes, p.length_eq]
  unfold headerFragment
  rw [hpadded, hpriority, hpayload]
  cases padding with
  | none =>
    simp only [Option.isSome_none, Bool.false_eq_true, ↓reduceIte, pure_bind, hstart, padded,
      length_append, Nat.zero_add]
    rw [if_neg (by omega), take_of_length_le (by simp), drop_left]
    rfl
  | some q =>
    have hstop : (priorityBytes priority).length + fragment.length + q.bytes.length + 1 -
        q.bytes.length = (priorityBytes priority ++ fragment).length + 1 := by
      rw [length_append]
      omega
    simp only [Option.isSome_some, ↓reduceIte, padded, q.toNat_length, length_cons, length_append]
    rw [if_neg (by omega)]
    simp only [pure_bind, hstart, hstop]
    rw [if_neg (by rw [length_append]; omega), take_succ_cons, Nat.add_comm 1,
      drop_succ_cons, take_left, drop_left]
    rfl

theorem dataFragment_dataFrame :
    dataFragment (dataFrame id endStream padding fragment) = .ok fragment := by
  obtain ⟨-, hpadded⟩ := dataFrame_flags id endStream padding fragment
  have hpayload : (dataFrame id endStream padding fragment).payload = padded padding fragment := rfl
  unfold dataFragment
  rw [hpadded, hpayload]
  cases padding with
  | none => rfl
  | some p =>
    simp only [Option.isSome_some, Bool.not_true, Bool.false_eq_true, ↓reduceIte, padded,
      p.toNat_length, length_cons, length_append]
    rw [if_neg (by omega), if_neg (by omega)]
    have hstop : fragment.length + p.bytes.length + 1 - p.bytes.length = fragment.length + 1 := by
      omega
    rw [hstop, take_succ_cons, drop_one, tail_cons, take_left]

end Flags

/-! ## Parts of a message -/

/-- A header list as one block, and how its frames cut the block. -/
structure HeaderUnit where
  fields : List (Bytes × Bytes)
  padding : Option Padding
  priority : Option Priority
  fragment : Bytes
  /-- The fragments of the CONTINUATION frames. -/
  more : List Bytes

structure DataUnit where
  padding : Option Padding
  data : Bytes

namespace HeaderUnit

/-- The header block. -/
def bytes (u : HeaderUnit) : Bytes := u.fragment ++ u.more.flatten

/-- The header list as text. -/
def headers (u : HeaderUnit) : Headers := Http2Decoder.headerText u.fields

/-- The block and the list are within the caps. -/
structure Fits (u : HeaderUnit) : Prop where
  bytes : u.bytes.length ≤ maxHeaderBlock
  fields : Http2Decoder.decodedSize u.fields ≤ maxDecodedHeaders

end HeaderUnit

/-- The CONTINUATION frames of a block, of which the last has END_HEADERS. -/
def continuations (id : Nat) : List Bytes → List Frame
  | [] => []
  | x :: xs => continuationFrame id xs.isEmpty x :: continuations id xs

/-- What a message is sent in: a header block that nothing interrupts, or a DATA frame. -/
inductive MessagePart where
  | headers (endStream : Bool) (u : HeaderUnit)
  | data (endStream : Bool) (u : DataUnit)

namespace MessagePart

def endStream : MessagePart → Bool
  | .headers e _ => e
  | .data e _ => e

def frames (id : Nat) : MessagePart → List Frame
  | .headers e u =>
    headersFrame id e u.more.isEmpty u.padding u.priority u.fragment :: continuations id u.more
  | .data e u => [dataFrame id e u.padding u.data]

/-- The event of the part. -/
def event (d : Direction) (id : Nat) : MessagePart → Event
  | .headers e u => .headers d id e u.headers
  | .data e u => .data d id e u.data

/-- The part is within the caps. -/
def Fits : MessagePart → Prop
  | .headers _ u => u.Fits
  | .data _ u => (padded u.padding u.data).length ≤ maxObservedFramePayload

/-- The HPACK decoder reads the fields of the part from its block, and goes on with
another state. -/
def Decodes {η : Type} (hp : Hpack η) (state state' : η) : MessagePart → Prop
  | .headers _ u => hp.decode state u.bytes = (state', .ok u.fields)
  | .data .. => state' = state

@[simp] theorem id_event (d : Direction) (id : Nat) (p : MessagePart) : (p.event d id).id = id := by
  cases p <;> rfl

end MessagePart

theorem length_padded_le (padding : Option Padding) (inner : Bytes) :
    (padded padding inner).length ≤ inner.length + 256 := by
  cases padding with
  | none => exact Nat.le_add_right _ _
  | some p =>
    have := p.length_le
    simp only [padded, length_cons, length_append]
    omega

theorem length_priorityBytes_le (priority : Option Priority) :
    (priorityBytes priority).length ≤ 5 := by
  cases priority with
  | none => exact Nat.zero_le _
  | some p => exact p.length_eq.le

theorem continuations_fit {id : Nat} (hid : id < 0x80000000) :
    ∀ {xs : List Bytes}, xs.flatten.length ≤ maxHeaderBlock →
      ∀ f ∈ continuations id xs, f.Fits
  | [], _, f, hf => by simp [continuations] at hf
  | x :: xs, hlen, f, hf => by
    rw [flatten_cons, length_append] at hlen
    rcases mem_cons.mp hf with rfl | hf
    · refine ⟨?_, hid⟩
      simp only [continuationFrame, maxHeaderBlock, maxObservedFramePayload] at hlen ⊢
      omega
    · exact continuations_fit hid (by omega) f hf

/-- The frames of a part within the caps are within the caps. -/
theorem MessagePart.Fits.frames {p : MessagePart} (h : p.Fits) {id : Nat} (hid : id < 0x80000000) :
    ∀ f ∈ p.frames id, f.Fits := by
  intro f hf
  cases p with
  | data e u =>
    obtain rfl := mem_singleton.mp hf
    exact ⟨h, hid⟩
  | headers e u =>
    have hlen : u.fragment.length + u.more.flatten.length ≤ maxHeaderBlock := by
      have := HeaderUnit.Fits.bytes h
      rwa [HeaderUnit.bytes, length_append] at this
    rcases mem_cons.mp hf with rfl | hf
    · refine ⟨?_, hid⟩
      have hpad := length_padded_le u.padding (priorityBytes u.priority ++ u.fragment)
      have hprio := length_priorityBytes_le u.priority
      rw [length_append] at hpad
      simp only [headersFrame, maxHeaderBlock, maxObservedFramePayload] at hlen ⊢
      omega
    · exact continuations_fit hid (by omega) f hf

/-! ## Handling a part -/

namespace DirectionState

variable {η : Type} {hp : Hpack η} {d : Direction} {st : DirectionState η} {data : Bytes}
  {fields : List (Bytes × Bytes)} {id : Nat}

theorem handle_of_data {f : Frame} (hc : st.continuation = none) (hk : f.kind = frameData)
    (hid : f.streamId ≠ 0) (hf : dataFragment f = .ok data) :
    st.handle hp d f = (st, .ok (some (.data d f.streamId (f.has flagEndStream) data))) := by
  have hne : ¬frameData = frameHeaders := by decide
  have hne' : ¬frameData = frameContinuation := by decide
  simp only [handle, hc, hk, hne, hne', handleData, hid, hf, Option.isSome_none, Bool.false_eq_true,
    false_and, ↓reduceIte]

theorem completeHeaderBlock_ok {block : HeaderBlock} {state : η} (hb : block.exceeded = false)
    (hdecode : hp.decode st.hpack block.bytes = (state, .ok fields))
    (hsize : Http2Decoder.decodedSize fields ≤ maxDecodedHeaders) :
    st.completeHeaderBlock hp d block =
      ({ st with hpack := state },
        .ok (some
          (.headers d block.streamId block.endStream (Http2Decoder.headerText fields)))) := by
  simp only [completeHeaderBlock, hb, hdecode, Bool.false_eq_true, ↓reduceIte,
    if_neg (not_lt.mpr hsize)]

/-- A HEADERS frame with a whole block, which leaves the HPACK state as it is. -/
theorem receive_headersFrame {endStream : Bool} {padding : Option Padding}
    {priority : Option Priority} {fragment : Bytes} (hc : st.continuation = none)
    (hid : id ≠ 0) (hlen : fragment.length ≤ maxHeaderBlock)
    (hdecode : hp.decode st.hpack fragment = (st.hpack, .ok fields))
    (hsize : Http2Decoder.decodedSize fields ≤ maxDecodedHeaders) :
    st.receive hp d (headersFrame id endStream true padding priority fragment) =
      (st, [.headers d id endStream (Http2Decoder.headerText fields)]) := by
  have hflags := headersFrame_flags id endStream true padding priority fragment
  have hsmall : (headersFrame id endStream true padding priority fragment).payload.length ≤
      maxObservedFramePayload := by
    have hpad := length_padded_le padding (priorityBytes priority ++ fragment)
    have hprio := length_priorityBytes_le priority
    rw [length_append] at hpad
    simp only [headersFrame, maxHeaderBlock, maxObservedFramePayload] at hlen ⊢
    omega
  have hblock : HeaderBlock.extend ⟨id, endStream, [], false⟩ fragment =
      ⟨id, endStream, fragment, false⟩ :=
    WireBlock.kept_extend (b := ⟨id, endStream, false, []⟩) hlen
  have hhandle : st.handle hp d (headersFrame id endStream true padding priority fragment) = _ :=
    handle_of_headers hc rfl hid (headerFragment_headersFrame ..)
  simp only [hflags.1, hflags.2.1, ↓reduceIte, show (headersFrame id endStream true padding priority
    fragment).streamId = id from rfl, hblock] at hhandle
  exact receive_ok hsmall (hhandle.trans (completeHeaderBlock_ok rfl hdecode hsize))

/-- A DATA frame without padding. -/
theorem receive_dataFrame {endStream : Bool} (hc : st.continuation = none) (hid : id ≠ 0)
    (hlen : data.length ≤ maxObservedFramePayload) :
    st.receive hp d (dataFrame id endStream none data) = (st, [.data d id endStream data]) := by
  have hhandle : st.handle hp d (dataFrame id endStream none data) = _ :=
    handle_of_data hc rfl hid (dataFragment_dataFrame id endStream none data)
  rw [(dataFrame_flags id endStream none data).1] at hhandle
  exact receive_ok hlen hhandle

end DirectionState

namespace Http2Decoder

variable {η : Type} {hp : Hpack η} {d : Direction} {s : Http2Decoder η} {f : Frame} {state : η}
  {ms : List DecodedMessage}

/-- The decoder after a part. -/
def accept (s : Http2Decoder η) (d : Direction) (state : η) (e : Event) : Http2Decoder η :=
  (s.setState d { s.state d with hpack := state, continuation := none }).withTable (s.table.apply e)

/-- A frame that gives an event. -/
theorem handleFrame_event {e : Event} {st : DirectionState η}
    (hh : (s.state d).handle hp d f = (st, .ok (some e)))
    (hst : st = { s.state d with hpack := state, continuation := none })
    (hr : (s.table.outcome e).result = .ok ms) :
    s.handleFrame hp d f = (s.accept d state e, .ok ms) := by
  rw [handleFrame_eq, hh, hst, follow, observe, table_setState, hr]
  rfl

/-- A frame that opens a block or goes on with it. -/
theorem handleFrame_open {block : HeaderBlock}
    (hh : (s.state d).handle hp d f = ({ s.state d with continuation := some block }, .ok none)) :
    s.handleFrame hp d f =
      (s.setState d { s.state d with continuation := some block }, .ok []) := by
  rw [handleFrame_eq, hh, follow]

theorem accept_setState (s : Http2Decoder η) (block : HeaderBlock) (state : η) (e : Event) :
    (s.setState d { s.state d with continuation := some block }).accept d state e =
      s.accept d state e := by
  simp [accept]

/-- CONTINUATION frames complete the open block. -/
theorem continuations_handles {id : Nat} {endStream : Bool} {state : η}
    {fields : List (Bytes × Bytes)} {ms : List DecodedMessage}
    (hsize : decodedSize fields ≤ maxDecodedHeaders) :
    ∀ {xs : List Bytes} {s : Http2Decoder η} {acc : Bytes}, xs ≠ [] →
      (s.state d).continuation = some ⟨id, endStream, acc, false⟩ →
      (acc ++ xs.flatten).length ≤ maxHeaderBlock →
      hp.decode (s.state d).hpack (acc ++ xs.flatten) = (state, .ok fields) →
      (s.table.outcome (.headers d id endStream (headerText fields))).result = .ok ms →
      HandlesAll hp d s (continuations id xs)
        (s.accept d state (.headers d id endStream (headerText fields))) ms
  | [], _, _, hne, _, _, _, _ => absurd rfl hne
  | x :: xs, s, acc, _, hc, hlen, hdecode, hr => by
    rw [flatten_cons, ← append_assoc] at hlen hdecode
    have hx : (acc ++ x).length ≤ maxHeaderBlock := by
      rw [length_append] at hlen
      omega
    have hblock : HeaderBlock.extend ⟨id, endStream, acc, false⟩ x =
        ⟨id, endStream, acc ++ x, false⟩ :=
      WireBlock.kept_extend (b := ⟨id, endStream, false, acc⟩) hx
    have hhandle : (s.state d).handle hp d (continuationFrame id xs.isEmpty x) = _ :=
      DirectionState.handle_of_continuation hc rfl rfl
    rw [continuationFrame_flags, show (continuationFrame id xs.isEmpty x).payload = x from rfl,
      hblock] at hhandle
    cases xs with
    | nil =>
      rw [flatten_nil, append_nil] at hdecode
      have hdone : DirectionState.completeHeaderBlock hp d { s.state d with continuation := none }
          ⟨id, endStream, acc ++ x, false⟩ = _ :=
        DirectionState.completeHeaderBlock_ok rfl hdecode hsize
      rw [← append_nil ms]
      exact .cons (handleFrame_event (hhandle.trans hdone) rfl hr) .nil
    | cons y ys =>
      have hrest : HandlesAll hp d
          (s.setState d { s.state d with continuation := some ⟨id, endStream, acc ++ x, false⟩ })
          (continuations id (y :: ys)) _ ms :=
        continuations_handles hsize (cons_ne_nil y ys) (by rw [state_setState])
          hlen (by rw [state_setState]; exact hdecode) (by rw [table_setState]; exact hr)
      rw [accept_setState] at hrest
      exact .cons (handleFrame_open hhandle) hrest

/-- A part is handled as its event. -/
theorem part_handles {p : MessagePart} {id : Nat} (hid : id ≠ 0)
    (hc : (s.state d).continuation = none) (hfits : p.Fits)
    (hdecodes : p.Decodes hp (s.state d).hpack state)
    (hr : (s.table.outcome (p.event d id)).result = .ok ms) :
    HandlesAll hp d s (p.frames id) (s.accept d state (p.event d id)) ms := by
  have hclosed : ({ s.state d with continuation := none } : DirectionState η) = s.state d := by
    rw [← hc]
  cases p with
  | data e u =>
    obtain rfl : state = (s.state d).hpack := hdecodes
    have hhandle : (s.state d).handle hp d (dataFrame id e u.padding u.data) = _ :=
      DirectionState.handle_of_data hc rfl hid (dataFragment_dataFrame id e u.padding u.data)
    rw [(dataFrame_flags id e u.padding u.data).1] at hhandle
    rw [← append_nil ms]
    exact .cons (handleFrame_event hhandle hclosed.symm hr) .nil
  | headers e u =>
    obtain ⟨hbytes, hsize⟩ := hfits
    have hflags := headersFrame_flags id e u.more.isEmpty u.padding u.priority u.fragment
    have hhandle : (s.state d).handle hp d
        (headersFrame id e u.more.isEmpty u.padding u.priority u.fragment) = _ :=
      DirectionState.handle_of_headers hc rfl hid (headerFragment_headersFrame ..)
    have hfragment : ([] ++ u.fragment).length ≤ maxHeaderBlock := by
      rw [HeaderUnit.bytes, length_append] at hbytes
      rw [nil_append]
      omega
    have hblock : HeaderBlock.extend ⟨id, e, [], false⟩ u.fragment = ⟨id, e, u.fragment, false⟩ :=
      WireBlock.kept_extend (b := ⟨id, e, false, []⟩) hfragment
    simp only [hflags.1, hflags.2.1, show (headersFrame id e u.more.isEmpty u.padding u.priority
      u.fragment).streamId = id from rfl, hblock] at hhandle
    rw [MessagePart.frames]
    cases hmore : u.more with
    | nil =>
      simp only [hmore, isEmpty_nil, ↓reduceIte] at hhandle
      have hdecode : hp.decode (s.state d).hpack u.fragment = (state, .ok u.fields) := by
        have hbytes' : u.bytes = u.fragment := by simp [HeaderUnit.bytes, hmore]
        rw [← hbytes']
        exact hdecodes
      have hdone :
          DirectionState.completeHeaderBlock hp d (s.state d) ⟨id, e, u.fragment, false⟩ = _ :=
        DirectionState.completeHeaderBlock_ok rfl hdecode hsize
      rw [← append_nil ms]
      exact .cons (handleFrame_event (hhandle.trans hdone) (by rw [hc]) hr) .nil
    | cons x xs =>
      simp only [hmore, isEmpty_cons, Bool.false_eq_true, ↓reduceIte] at hhandle
      have hrest : HandlesAll hp d
          (s.setState d { s.state d with continuation := some ⟨id, e, u.fragment, false⟩ })
          (continuations id (x :: xs)) _ ms :=
        continuations_handles hsize (cons_ne_nil x xs) (by rw [state_setState])
          (by rw [← hmore]; exact hbytes) (by rw [state_setState, ← hmore]; exact hdecodes)
          (by rw [table_setState]; exact hr)
      rw [accept_setState] at hrest
      exact .cons (handleFrame_open hhandle) hrest

end Http2Decoder

end Lens.Http2
