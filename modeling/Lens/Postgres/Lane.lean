import Lens.Postgres.Wire

/-!
# Typed traffic

Once the startup is over the two directions do not meet: a push reads and writes
the buffer of its own direction, and the phase only changes on a report.  So a
run is two *lanes*, one loop over one buffer for each direction.

A lane reads a frame in any fragmentation when the decoder accepts it
(`lane_reads`), and a silent lane has accepted every frame (`lane_accepts`).
-/

namespace Lens.Postgres

open List
open Search (be32 beNat)
open Stream (Turn Feed Reads Settles)

variable {f : Frame}

/-! ## One frame -/

/-- What a complete frame at the front of a buffer gives. -/
theorem typedFrame_frame (d : Direction) (maxBody : Nat) (hf : f.Fits) (rest : Bytes) :
    typedFrame d maxBody (f.bytes ++ rest) =
      (rest, match decodeTyped d f.tag f.payload maxBody with
        | .ok m => .message m
        | .error reason => .desynchronized reason) := by
  have hlen : (f.bytes ++ rest).length = f.payload.length + 5 + rest.length := by
    rw [length_append, Frame.length_bytes, Frame.size]
  have hnum : beNat (((f.bytes ++ rest).drop 1).take 4) = f.payload.length + 4 :=
    Search.beNat_be32 (by unfold Frame.Fits maxFrameBytes at hf; omega)
  have hhead : (f.bytes ++ rest).headD 0 = f.tag := rfl
  have hsplit : f.bytes ++ rest =
      (f.tag :: be32 (f.payload.length + 4)) ++ (f.payload ++ rest) := by
    simp [Frame.bytes]
  have hpay : ((f.bytes ++ rest).take (f.payload.length + 4 + 1)).drop 5 = f.payload := by
    rw [hsplit]
    simp [take_append]
  have hrest : (f.bytes ++ rest).drop (f.payload.length + 4 + 1) = rest := by
    rw [hsplit]
    simp [drop_append]
  rw [typedFrame, if_neg (by omega)]
  simp only [hnum, hhead]
  rw [if_neg (by unfold Frame.Fits at hf; omega), if_neg (by omega), hpay, hrest]
  cases decodeTyped d f.tag f.payload maxBody with
  | ok m => rfl
  | error reason => rfl

/-- A frame that is not complete stays. -/
theorem typedFrame_pre (d : Direction) (maxBody : Nat) (hf : f.Fits) {p : Bytes}
    (hp : p <+: f.bytes) (hne : p ≠ f.bytes) :
    typedFrame d maxBody p = (p, .needMore) := by
  have hlt : p.length < f.payload.length + 5 := by
    have := Frame.length_bytes f
    have := hp.length_le
    have : p.length ≠ f.bytes.length := fun h => hne (hp.eq_of_length h)
    simp only [Frame.size] at *
    omega
  rw [typedFrame]
  by_cases hshort : p.length < 5
  · rw [if_pos hshort]
  · rw [if_neg hshort]
    have htake : (p.drop 1).take 4 = be32 (f.payload.length + 4) := by
      obtain ⟨q, hq⟩ := hp
      have h1 : (f.bytes.drop 1).take 4 = be32 (f.payload.length + 4) := rfl
      rw [← h1, ← hq, drop_append_of_le_length (by omega), take_append_of_le_length]
      rw [length_drop]
      omega
    have hnum : beNat ((p.drop 1).take 4) = f.payload.length + 4 := by
      rw [htake]
      exact Search.beNat_be32 (by unfold Frame.Fits maxFrameBytes at hf; omega)
    simp only [hnum]
    rw [if_neg (by unfold Frame.Fits at hf; omega), if_pos (by omega)]

/-- A message comes from a complete frame. -/
theorem typedFrame_message {d : Direction} {maxBody : Nat} {b rest : Bytes}
    {m : DecodedMessage} (h : typedFrame d maxBody b = (rest, .message m)) :
    ∃ f : Frame, f.Fits ∧ b = f.bytes ++ rest ∧ decodeTyped d f.tag f.payload maxBody = .ok m := by
  match b with
  | tag :: b1 :: b2 :: b3 :: b4 :: tail =>
    rw [typedFrame, if_neg (by simp)] at h
    simp only [headD_cons, drop_succ_cons, drop_zero, take_succ_cons, take_zero] at h
    split at h
    · cases h
    next hrange =>
    rw [not_not] at hrange
    split at h
    · cases h
    next hlong =>
    simp only [length_cons] at hlong
    obtain ⟨k, hk⟩ : ∃ k, beNat [b1, b2, b3, b4] = k + 4 := ⟨_, (Nat.sub_add_cancel hrange.1).symm⟩
    rw [hk] at h hrange hlong
    simp only [take_succ_cons, drop_succ_cons, drop_zero] at h
    have hlen : (tail.take k).length = k := by
      rw [length_take]; omega
    split at h
    next m' hm =>
      cases h
      refine ⟨⟨tag, tail.take k⟩, ?_, ?_, hm⟩
      · simp only [Frame.Fits, hlen]
        exact hrange.2
      · simp only [Frame.bytes, hlen, ← hk, Search.be32_beNat, cons_append, nil_append,
          take_append_drop]
    next => cases h
  | [] => cases h
  | [_] => cases h
  | [_, _] => cases h
  | [_, _, _] => cases h
  | [_, _, _, _] => cases h

/-- A buffer without a complete frame is kept, and otherwise a frame gives a
message or a report. -/
theorem typedFrame_cases (d : Direction) (maxBody : Nat) (b : Bytes) :
    typedFrame d maxBody b = (b, .needMore) ∨
    (∃ rest m, typedFrame d maxBody b = (rest, .message m)) ∨
    ∃ rest reason, typedFrame d maxBody b = (rest, .desynchronized reason) := by
  rw [typedFrame]
  split
  · exact Or.inl rfl
  · simp only
    split
    · exact Or.inr (Or.inr ⟨_, _, rfl⟩)
    · split
      · exact Or.inl rfl
      · split
        · exact Or.inr (Or.inl ⟨_, _, rfl⟩)
        · exact Or.inr (Or.inr ⟨_, _, rfl⟩)

/-! ## Lanes -/

/-- One turn over the buffer of one direction. -/
def laneTurn (d : Direction) (maxBody : Nat) (buffer : Bytes) :
    Turn Bytes DecodedMessage String :=
  match typedFrame d maxBody buffer with
  | (rest, .needMore) => .stop rest .needMore
  | (rest, .message m) => .again rest ⟨[m], none⟩
  | (rest, .messageAndPhase m _) => .stop rest ⟨[m], none⟩
  | (rest, .desynchronized reason) => .stop rest ⟨[], some reason⟩

section Lane

variable {b rest p : Bytes} {out : DecodeBatch} {m : DecodedMessage} {fs : List Frame}

variable {d : Direction} {maxBody : Nat}

/-- A turn that goes on has read one frame. -/
theorem laneTurn_again (h : laneTurn d maxBody b = .again rest out) :
    ∃ (f : Frame) (m : DecodedMessage), f.Fits ∧ b = f.bytes ++ rest ∧
      decodeTyped d f.tag f.payload maxBody = .ok m ∧ out = ⟨[m], none⟩ := by
  rw [laneTurn] at h
  obtain hc | ⟨r, m, hc⟩ | ⟨r, reason, hc⟩ := typedFrame_cases d maxBody b
  · rw [hc] at h
    cases h
  · rw [hc] at h
    cases h
    obtain ⟨f, hf, hb, hm⟩ := typedFrame_message hc
    exact ⟨f, m, hf, hb, hm, rfl⟩
  · rw [hc] at h
    cases h

/-- A turn that stops asks for more with the buffer as it is, or reports. -/
theorem laneTurn_stop (h : laneTurn d maxBody b = .stop rest out) :
    (rest = b ∧ out = .needMore) ∨ ∃ reason, out = ⟨[], some reason⟩ := by
  rw [laneTurn] at h
  obtain hc | ⟨r, m, hc⟩ | ⟨r, reason, hc⟩ := typedFrame_cases d maxBody b
  · rw [hc] at h
    cases h
    exact Or.inl ⟨rfl, rfl⟩
  · rw [hc] at h
    cases h
  · rw [hc] at h
    cases h
    exact Or.inr ⟨reason, rfl⟩

/-- An accepted frame at the front of the buffer. -/
theorem laneTurn_ok (hf : f.Fits) (hm : decodeTyped d f.tag f.payload maxBody = .ok m)
    (rest : Bytes) :
    laneTurn d maxBody (f.bytes ++ rest) = .again rest ⟨[m], none⟩ := by
  rw [laneTurn, typedFrame_frame d maxBody hf rest, hm]

/-- A refused frame at the front of the buffer. -/
theorem laneTurn_error (hf : f.Fits) {reason : String}
    (hm : decodeTyped d f.tag f.payload maxBody = .error reason) (rest : Bytes) :
    laneTurn d maxBody (f.bytes ++ rest) = .stop rest ⟨[], some reason⟩ := by
  rw [laneTurn, typedFrame_frame d maxBody hf rest, hm]

theorem laneTurn_pre (hf : f.Fits) (hp : p <+: f.bytes)
    (hne : p ≠ f.bytes) : laneTurn d maxBody p = .stop p .needMore := by
  rw [laneTurn, typedFrame_pre d maxBody hf hp hne]

theorem laneTurn_nil : laneTurn d maxBody [] = .stop [] .needMore := rfl

theorem lane_decreases : Stream.Decreases (laneTurn d maxBody) List.length := by
  intro b rest out h
  obtain ⟨f, m, -, rfl, -, -⟩ := laneTurn_again h
  rw [length_append, Frame.length_bytes, Frame.size]
  omega

theorem lane_local : Stream.Local (laneTurn d maxBody) Feed.list where
  again := by
    intro b rest out h x
    obtain ⟨f, m, hf, rfl, hm, rfl⟩ := laneTurn_again h
    rw [Feed.list_feed, append_assoc]
    exact laneTurn_ok hf hm (rest ++ x)
  stop := by
    intro b rest h x
    obtain ⟨rfl, -⟩ | ⟨reason, hr⟩ := laneTurn_stop h
    · rfl
    · cases hr

theorem lane_plain : Stream.Plain (laneTurn d maxBody) := by
  intro b rest out h hq
  obtain ⟨-, rfl⟩ | ⟨reason, rfl⟩ := laneTurn_stop h
  · rfl
  · cases hq

/-- A message for a frame: what the decoder makes of that frame, with its size. -/
structure Carries (d : Direction) (maxBody : Nat) (f : Frame) (m : DecodedMessage) : Prop where
  decoded : decodeTyped d f.tag f.payload maxBody = .ok m
  wireBytes : m.headers.getLast? = some ("wire-bytes", toString f.size)

/-- An accepted frame is read in any fragmentation. -/
theorem frame_reads (hf : f.Fits) (hm : decodeTyped d f.tag f.payload maxBody = .ok m) :
    Reads (laneTurn d maxBody) Feed.list [] f.bytes [] [m] := by
  refine Reads.of_stop ?_ ?_
  · intro p hp hne
    exact ⟨p, .needMore, .stop (laneTurn_pre hf hp hne), rfl⟩
  · have hturn := laneTurn_ok (d := d) hf hm []
    rw [append_nil] at hturn
    exact .again hturn (.stop laneTurn_nil)

/-- Accepted frames are read in any fragmentation, one message for each. -/
theorem lane_reads :
    ∀ {fs : List Frame}, (∀ f ∈ fs, f.Fits) →
      (∀ f ∈ fs, ∃ m, decodeTyped d f.tag f.payload maxBody = .ok m) →
      ∃ ms, Reads (laneTurn d maxBody) Feed.list [] (fs.flatMap Frame.bytes) [] ms ∧
        List.Forall₂ (Carries d maxBody) fs ms
  | [], _, _ => ⟨[], Reads.nil laneTurn_nil, .nil⟩
  | f :: fs, hfits, hok => by
    obtain ⟨m, hm⟩ := hok f (mem_cons_self ..)
    obtain ⟨ms, hreads, hcarries⟩ := lane_reads
      (fun g hg => hfits g (mem_cons_of_mem _ hg))
      (fun g hg => hok g (mem_cons_of_mem _ hg))
    refine ⟨m :: ms, ?_, .cons ⟨hm, decodeTyped_wireBytes hm⟩ hcarries⟩
    exact (frame_reads (hfits f (mem_cons_self ..)) hm).append lane_local.resumes hreads

/-- Accepted frames and the beginning of another, all in the buffer. -/
theorem lane_settles {ms : List DecodedMessage}
    (h : List.Forall₂ (fun f m => f.Fits ∧ decodeTyped d f.tag f.payload maxBody = .ok m) fs ms)
    {g : Frame} (hg : g.Fits) (hp : p <+: g.bytes) (hne : p ≠ g.bytes) :
    Settles (laneTurn d maxBody) (fs.flatMap Frame.bytes ++ p) p ⟨ms, none⟩ := by
  induction h with
  | nil => exact .stop (laneTurn_pre hg hp hne)
  | cons hf _ ih =>
    rw [flatMap_cons, append_assoc]
    exact .again (laneTurn_ok hf.1 hf.2 _) ih

/-- A lane that settles on some frames has accepted every one of them. -/
theorem accepts_of_settles :
    ∀ {fs : List Frame} {t : Bytes} {out : DecodeBatch}, (∀ f ∈ fs, f.Fits) →
      Settles (laneTurn d maxBody) (fs.flatMap Frame.bytes) t out →
      ∀ f ∈ fs, ∃ m, decodeTyped d f.tag f.payload maxBody = .ok m
  | [], _, _, _, _ => by simp
  | f :: fs, t, out, hfits, h => by
    have hf := hfits f (mem_cons_self ..)
    rw [flatMap_cons] at h
    cases hm : decodeTyped d f.tag f.payload maxBody with
    | error reason =>
      have hturn := laneTurn_error hf hm (fs.flatMap Frame.bytes)
      cases h with
      | stop hs =>
        rw [hturn] at hs
        cases hs
      | again hs _ =>
        rw [hturn] at hs
        cases hs
    | ok m =>
      have hturn := laneTurn_ok hf hm (fs.flatMap Frame.bytes)
      cases h with
      | stop hs =>
        rw [hturn] at hs
        cases hs
      | again hs hrest =>
        rw [hturn] at hs
        cases hs
        have ih := accepts_of_settles
          (fun g hg => hfits g (mem_cons_of_mem _ hg)) hrest
        intro g hg
        rcases mem_cons.mp hg with rfl | hg
        · exact ⟨m, hm⟩
        · exact ih g hg

/-- A lane that is silent on some frames has accepted every one of them. -/
theorem lane_accepts (hfits : ∀ f ∈ fs, f.Fits) {xs : List Bytes}
    (hx : xs.flatten = fs.flatMap Frame.bytes)
    (hq : ∀ b ∈ (Stream.pushAll (laneTurn d maxBody) Feed.list List.length [] xs).2,
      b.desynchronized = none) :
    ∀ f ∈ fs, ∃ m, decodeTyped d f.tag f.payload maxBody = .ok m := by
  have hs := lane_plain.settles_pushAll lane_decreases lane_local.resumes xs [] []
    .needMore (.stop laneTurn_nil) rfl hq
  rw [Feed.list_feed, nil_append, hx] at hs
  exact accepts_of_settles hfits hs

end Lane

end Lens.Postgres
