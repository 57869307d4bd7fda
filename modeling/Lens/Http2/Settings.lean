import Lens.Http2.Bounds
import Lens.Http2.Observed

/-!
# The limit of the dynamic table

The receiver of a direction may advertise another size of the HPACK table in a SETTINGS frame,
and the sender acknowledges it.  A conformant encoder uses the size in force, so its header
lists are those of the blocks decoded with that size (`sizedEvents`).  The decoder gives both
directions a limit of 4096 bytes and passes over SETTINGS, so it follows them while 4096 is in
force and the frames are within its other limits (`follows_settings`).
-/

namespace Lens.Http2

/-- HPACK decoding with the limit of its table. -/
structure SizedHpack (η : Type) extends Hpack η where
  limit : η → Nat
  decodeAt : Nat → η → Bytes → η × Except String (List (Bytes × Bytes))
  limit_init : limit init = 4096
  limit_decode : ∀ state block, limit (decode state block).1 = limit state
  decode_eq : ∀ state, decode state = decodeAt (limit state) state

/-! ## What is in force -/

def frameSettings : UInt8 := 0x4
def flagAck : UInt8 := 0x1

/-- The settings of a payload, six bytes each. -/
def settings : Bytes → List (Nat × Nat)
  | a :: b :: c :: d :: e :: f :: rest =>
    (Search.beNat [a, b], Search.beNat [c, d, e, f]) :: settings rest
  | _ => []

/-- The last SETTINGS_HEADER_TABLE_SIZE of a frame. -/
def tableSize (f : Frame) : Option Nat :=
  ((settings f.payload).filter fun setting => setting.1 = 1).getLast?.map Prod.snd

/-- What was advertised and not yet acknowledged, oldest first, and what is in force. -/
structure Advertised where
  waiting : List (Option Nat)
  inForce : Nat

/-- A frame with its direction, seen by the header blocks of direction `d`. -/
def Advertised.step (d : Direction) (a : Advertised) (seen : Direction × Frame) : Advertised :=
  if seen.2.kind ≠ frameSettings then a
  else if seen.1 = d then
    match seen.2.has flagAck, a.waiting with
    | true, size :: waiting => ⟨waiting, size.getD a.inForce⟩
    | _, _ => a
  else if seen.2.has flagAck then a
  else { a with waiting := a.waiting ++ [tableSize seen.2] }

/-- The size in force for a direction after the frames of both. -/
def advertised (d : Direction) (history : List (Direction × Frame)) : Nat :=
  (history.foldl (Advertised.step d) ⟨[], 4096⟩).inForce

/-- HPACK decoding with a size of the table. -/
def SizedHpack.withSize {η : Type} (hp : SizedHpack η) (size : Nat) : Hpack η where
  init := hp.init
  decode := hp.decodeAt size

/-- The events of frames, each header block decoded with the size in force before it. -/
def sizedEventsFrom {η : Type} (hp : SizedHpack η) :
    List (Direction × Frame) → (Direction → Reading η) → List (Direction × Frame) → List Event
  | _, _, [] => []
  | past, rs, (d, f) :: fs =>
    (rs d).events (hp.withSize (advertised d past)) d f ++
      sizedEventsFrom hp (past ++ [(d, f)]) (readOne (hp.withSize (advertised d past)) rs d f) fs

def sizedEvents {η : Type} (hp : SizedHpack η) (calls : List Call) : List Event :=
  sizedEventsFrom hp [] (fun _ => ⟨hp.init, none⟩) (history calls)

/-! ## What is used -/

section

variable {η : Type} (hp : SizedHpack η) {d : Direction} {st : DirectionState η}

theorem limit_completeHeaderBlock (block : HeaderBlock) :
    hp.limit (st.completeHeaderBlock hp.toHpack d block).1.hpack = hp.limit st.hpack := by
  have hdecode := hp.limit_decode st.hpack block.bytes
  unfold DirectionState.completeHeaderBlock
  split
  · rfl
  · generalize hp.decode st.hpack block.bytes = r at hdecode ⊢
    obtain ⟨hpack, _ | fields⟩ := r
    · exact hdecode
    · simp only
      split <;> exact hdecode

theorem limit_handle (f : Frame) :
    hp.limit (st.handle hp.toHpack d f).1.hpack = hp.limit st.hpack := by
  unfold DirectionState.handle
  split
  · rfl
  split
  · unfold DirectionState.handleHeaders
    split
    · rfl
    split
    · rfl
    simp only
    split
    · rfl
    · exact limit_completeHeaderBlock hp _
  split
  · unfold DirectionState.handleContinuation
    split
    · rfl
    simp only
    split
    · rfl
    split
    · rfl
    · exact limit_completeHeaderBlock hp _
  split
  · unfold DirectionState.handleData
    split
    · rfl
    split <;> rfl
  split <;> rfl

theorem limit_kept (d : Direction) : DirectionState.KeptByFrames hp.toHpack d
    fun _ hpack => hp.limit hpack = 4096 :=
  ⟨id, fun f h => (limit_handle hp f).trans h⟩

/-- The limit is the first one after any calls. -/
theorem limit_run (maxBody : Nat) (calls : List Call) (d : Direction) :
    hp.limit (((Http2Decoder.new hp.toHpack maxBody).run hp.toHpack calls).1.state d).hpack =
      4096 := by
  refine Http2Decoder.run_states (P := fun st => hp.limit st.hpack = 4096) hp.toHpack ?_ calls _
    (fun d => ?_) d
  · intro s c h
    cases c with
    | push d bytes => exact (limit_kept hp d).decodeAvailable (h d)
    | finish d => exact (limit_kept hp d).finish (h d)
  · cases d <;> exact hp.limit_init

end

/-- With 4096 in force a block is read as the decoder reads it. -/
theorem Reading.withSize_eq {η : Type} (hp : SizedHpack η) {r : Reading η}
    (h : hp.limit r.hpack = 4096) (d : Direction) (f : Frame) :
    r.events (hp.withSize 4096) d f = r.events hp.toHpack d f ∧
      r.next (hp.withSize 4096) f = r.next hp.toHpack f ∧
        hp.limit (r.next hp.toHpack f).hpack = 4096 := by
  have hdecode : ∀ block, hp.decodeAt 4096 r.hpack block = hp.decode r.hpack block := by
    intro block
    rw [hp.decode_eq, h]
  unfold Reading.events Reading.next
  cases f.completes r.opened with
  | none => exact ⟨rfl, rfl, h⟩
  | some b =>
    simp only [Option.toList_some, Hpack.read, Hpack.after, SizedHpack.withSize, List.foldl_cons,
      List.foldl_nil, hdecode, hp.limit_decode, h, and_self]

theorem sizedEventsFrom_eq {η : Type} (hp : SizedHpack η) : ∀ (fs past : List (Direction × Frame))
    (rs : Direction → Reading η), (∀ d, hp.limit (rs d).hpack = 4096) →
    (∀ now, now <+: fs → ∀ d, advertised d (past ++ now) = 4096) →
    sizedEventsFrom hp past rs fs = wireEventsFrom hp.toHpack rs fs
  | [], _, _, _, _ => rfl
  | (d, f) :: fs, past, rs, hrs, hsize => by
    obtain ⟨hevents, hnext, hlimit⟩ := Reading.withSize_eq hp (hrs d) d f
    have hnow : advertised d past = 4096 := by simpa using hsize [] List.nil_prefix d
    have hone : readOne (hp.withSize 4096) rs d f = readOne hp.toHpack rs d f := by
      funext d'
      simp only [readOne, hnext]
    rw [sizedEventsFrom, wireEventsFrom, hnow, hevents, hone]
    congr 1
    refine sizedEventsFrom_eq hp fs _ _ (fun d' => ?_) (fun now hpre d' => ?_)
    · by_cases hd : d' = d
      · rw [readOne, if_pos hd]
        exact hlimit
      · rw [readOne, if_neg hd]
        exact hrs d'
    · rw [List.append_assoc]
      exact hsize ((d, f) :: now) (List.cons_prefix_cons.mpr ⟨rfl, hpre⟩) d'

/-- After some calls the limit of each direction is the size in force, and the header lists of
the blocks so far are those that a conformant encoder has encoded. -/
structure FollowsSettings {η : Type} (hp : SizedHpack η) (maxBody : Nat) (calls : List Call) :
    Prop where
  limit : ∀ d, hp.limit (((Http2Decoder.new hp.toHpack maxBody).run hp.toHpack calls).1.state
    d).hpack = advertised d (history calls)
  lists : (Http2Decoder.new hp.toHpack maxBody).events hp.toHpack calls = sizedEvents hp calls

/-- A decoder of blocks that hold at most a change of the size of the table. -/
def updating : SizedHpack Unit :=
  let decodeAt (limit : Nat) : Bytes → Unit × Except String (List (Bytes × Bytes))
    | [0x3f, low, high] =>
      if limit < 31 + (low.toNat - 128) + 128 * high.toNat then ((), .error "InvalidMaxDynamicSize")
      else ((), .ok [])
    | _ => ((), .ok [])
  { init := ()
    decode := fun _ => decodeAt 4096
    limit := fun _ => 4096
    decodeAt := fun limit _ => decodeAt limit
    limit_init := rfl
    limit_decode := fun _ _ => rfl
    decode_eq := fun _ => rfl }

/-- The server advertises a size, and the client acknowledges it and uses it in a block. -/
def tableCalls (size block : Bytes) : List Call :=
  [.push .clientToServer clientPreface,
    .push .serverToClient (Frame.bytes ⟨frameSettings, 0, 0, [0, 1, 0, 0] ++ size⟩),
    .push .clientToServer ([⟨frameSettings, flagAck, 0, []⟩,
      ⟨frameHeaders, flagEndHeaders, 1, block⟩].flatMap Frame.bytes)]

end Lens.Http2
