import Lens.Postgres.Lane

/-!
# Whole sessions

A session of protocol 3 is a startup frame and then any frames of either side
(`Session`).  Its bytes reach the decoder in fragments, one push for each, and
the two directions interleave freely once the startup is through.

`run` is a sequence of pushes.  In the typed phase it is the two lanes side by
side (`run_of_lanes`, `lanes_of_run`), and before that it waits for the startup
frame and then behaves like a typed run that begins with the rest of the push
(`run_startup`).
-/

namespace Lens.Postgres

open List
open Search (be16 be32 beNat)
open Stream (Feed)

/-! ## Runs -/

/-- The bytes of one push and their direction. -/
abbrev Fragment := Direction × Bytes

/-- What one push left behind. -/
structure Event where
  direction : Direction
  state : PostgresDecoder
  batch : DecodeBatch

/-- One push for each fragment. -/
def run : PostgresDecoder → List Fragment → List Event
  | _, [] => []
  | s, (d, x) :: fs => ⟨d, (s.push d x).1, (s.push d x).2⟩ :: run (s.push d x).1 fs

/-- The fragments of one direction. -/
def fragmentsOf (d : Direction) (fs : List Fragment) : List Bytes :=
  (fs.filter (·.1 = d)).map Prod.snd

/-- The bytes of one direction. -/
def bytesOf (d : Direction) (fs : List Fragment) : Bytes := (fragmentsOf d fs).flatten

/-- The messages emitted in one direction. -/
def emitted (d : Direction) (es : List Event) : List DecodedMessage :=
  (es.filter (·.direction = d)).flatMap fun e => e.batch.messages

/-- No push finds more than the limit in its buffer. -/
def Within : PostgresDecoder → List Fragment → Prop
  | _, [] => True
  | s, (d, x) :: fs =>
    (s.buffer d).length + x.length ≤ maxFrameBytes + 5 ∧ Within (s.push d x).1 fs

/-- No push reports. -/
def Silent (es : List Event) : Prop := ∀ e ∈ es, e.batch.desynchronized = none

section Directions

variable {d d' : Direction} {x : Bytes} {fs : List Fragment} {s : PostgresDecoder}
  {b : DecodeBatch} {es : List Event}

@[simp] theorem fragmentsOf_cons_self : fragmentsOf d ((d, x) :: fs) = x :: fragmentsOf d fs := by
  simp [fragmentsOf]

@[simp] theorem fragmentsOf_cons_of_ne (h : d' ≠ d) :
    fragmentsOf d ((d', x) :: fs) = fragmentsOf d fs := by
  simp [fragmentsOf, h]

@[simp] theorem bytesOf_cons_self : bytesOf d ((d, x) :: fs) = x ++ bytesOf d fs := by
  simp [bytesOf]

@[simp] theorem bytesOf_cons_of_ne (h : d' ≠ d) :
    bytesOf d ((d', x) :: fs) = bytesOf d fs := by
  simp [bytesOf, h]

@[simp] theorem emitted_cons_self :
    emitted d (⟨d, s, b⟩ :: es) = b.messages ++ emitted d es := by
  simp [emitted]

@[simp] theorem emitted_cons_of_ne (h : d' ≠ d) : emitted d (⟨d', s, b⟩ :: es) = emitted d es := by
  simp [emitted, h]

theorem emitted_append (es es' : List Event) :
    emitted d (es ++ es') = emitted d es ++ emitted d es' := by
  simp [emitted]

theorem emitted_eq_nil (h : ∀ e ∈ es, e.batch = .needMore) : emitted d es = [] := by
  rw [emitted, flatMap_eq_nil_iff]
  intro e he
  rw [h e (mem_of_mem_filter he)]
  rfl

end Directions

/-! ## The typed phase -/

namespace PostgresDecoder

variable {d d' : Direction}

variable (s : PostgresDecoder) (b : Bytes)

@[simp] theorem buffer_setBuffer_self : (s.setBuffer d b).buffer d = b := by
  cases d <;> rfl

@[simp] theorem buffer_setBuffer_of_ne (h : d' ≠ d) : (s.setBuffer d' b).buffer d = s.buffer d := by
  cases d <;> cases d' <;> first | rfl | exact absurd rfl h

@[simp] theorem setBuffer_buffer : s.setBuffer d (s.buffer d) = s := by
  cases d <;> rfl

@[simp] theorem setBuffer_setBuffer (b' : Bytes) :
    (s.setBuffer d b).setBuffer d b' = s.setBuffer d b' := by
  cases d <;> rfl

@[simp] theorem setBuffer_phase : (s.setBuffer d b).phase = s.phase := by
  cases d <;> rfl

@[simp] theorem setBuffer_maxBody : (s.setBuffer d b).maxBody = s.maxBody := by
  cases d <;> rfl

@[simp] theorem goOpaque_setBuffer : (s.setBuffer d b).goOpaque = s.goOpaque := by
  cases d <;> rfl

/-- The state a lane's outcome stands for. -/
def settle (s : PostgresDecoder) (d : Direction) (r : Bytes × DecodeBatch) :
    PostgresDecoder × DecodeBatch :=
  if r.2.desynchronized = none then (s.setBuffer d r.1, r.2) else (s.goOpaque, r.2)

/-- In the typed phase the loop is the loop of the lane. -/
theorem drive_typed (d : Direction) :
    ∀ (n : Nat) (s : PostgresDecoder), s.phase = .typed →
      Stream.drive (turn d) n s =
        s.settle d (Stream.drive (laneTurn d s.maxBody) n (s.buffer d))
  | 0, s, _ => by simp [Stream.drive, settle, Stream.Batch.needMore]
  | n + 1, s, hs => by
    have hstep : s.step d = s.stepTyped d := by
      simp [step, hs]
    obtain hc | ⟨r, m, hc⟩ | ⟨r, reason, hc⟩ := typedFrame_cases d s.maxBody (s.buffer d)
    · have hturn : turn d s = .stop s .needMore := by
        simp [turn, hstep, stepTyped, hc]
      simp [Stream.drive, hturn, laneTurn, hc, settle, Stream.Batch.needMore]
    · have hturn : turn d s = .again (s.setBuffer d r) ⟨[m], none⟩ := by
        simp [turn, hstep, stepTyped, hc]
      have ih := drive_typed d n (s.setBuffer d r) (by simp [hs])
      simp only [Stream.drive, hturn, laneTurn, hc, ih, settle, setBuffer_maxBody,
        buffer_setBuffer_self, Stream.Batch.seq_desynchronized_eq_none, true_and]
      split
      · simp
      · simp
    · have hturn : turn d s = .stop s.goOpaque ⟨[], some reason⟩ := by
        simp [turn, hstep, stepTyped, hc]
      simp [Stream.drive, hturn, laneTurn, hc, settle]

/-- In the typed phase a push is a push on its lane. -/
theorem push_typed {s : PostgresDecoder} (hs : s.phase = .typed) {x : Bytes}
    (hw : (s.buffer d).length + x.length ≤ maxFrameBytes + 5) : s.push d x =
      s.settle d (Stream.push (laneTurn d s.maxBody) Feed.list List.length (s.buffer d) x) := by
  have hfit : ¬ maxFrameBytes + 5 < ((feed d s x).buffer d).length := by
    rw [feed, buffer_setBuffer_self, length_append]
    omega
  have hopen : ¬ s.phase = .opaqueTraffic := by
    rw [hs]
    simp
  rw [push, process, if_neg hopen]
  simp only [if_neg hfit]
  rw [drive_typed d _ _ (by simp [feed, hs])]
  simp [feed, measure, settle, Stream.push]

end PostgresDecoder

open PostgresDecoder (push_typed settle)

/-- What the lane of a direction does with the fragments of a run. -/
def laneRun (s : PostgresDecoder) (d : Direction) (fs : List Fragment) :
    Bytes × List DecodeBatch :=
  Stream.pushAll (laneTurn d s.maxBody) Feed.list List.length (s.buffer d) (fragmentsOf d fs)

/-- No push of the lane reports. -/
def LaneSilent (s : PostgresDecoder) (d : Direction) (fs : List Fragment) : Prop :=
  ∀ b ∈ (laneRun s d fs).2, b.desynchronized = none

/-- A push on a lane, and the rest of the run from the state it leaves. -/
theorem laneRun_cons_self (s : PostgresDecoder) (d : Direction) (x : Bytes)
    (fs : List Fragment) :
    let r := Stream.push (laneTurn d s.maxBody) Feed.list List.length (s.buffer d) x
    (laneRun s d ((d, x) :: fs)).2 = r.2 :: (laneRun (s.setBuffer d r.1) d fs).2 := by
  simp [laneRun, Stream.pushAll]

variable {d : Direction}

/-- The other lane does not see the push. -/
theorem laneRun_cons_of_ne (s : PostgresDecoder) {d' : Direction} (h : d' ≠ d) (x b : Bytes)
    (fs : List Fragment) : laneRun s d ((d', x) :: fs) = laneRun (s.setBuffer d' b) d fs := by
  simp [laneRun, h]

/-- Two silent lanes make a silent run, which stays in the typed phase and emits
what the lanes emit. -/
theorem run_of_lanes :
    ∀ (fs : List Fragment) (s : PostgresDecoder), s.phase = .typed → Within s fs →
      (∀ d, LaneSilent s d fs) →
      Silent (run s fs) ∧ (∀ e ∈ run s fs, e.state.phase = .typed) ∧
        ∀ d, emitted d (run s fs) = (laneRun s d fs).2.flatMap Stream.Batch.messages
  | [], s, _, _, _ => by
    refine ⟨by simp [run, Silent], by simp [run], ?_⟩
    intro d
    rfl
  | (d, x) :: fs, s, hs, hw, hq => by
    have hpush := push_typed hs hw.1
    have hcons := laneRun_cons_self s d x fs
    generalize Stream.push (laneTurn d s.maxBody) Feed.list List.length (s.buffer d) x = r at *
    have hd := hq d
    rw [LaneSilent, hcons, forall_mem_cons] at hd
    rw [settle, if_pos hd.1] at hpush
    have hw' := hw.2
    rw [hpush] at hw'
    have hq' : ∀ d', LaneSilent (s.setBuffer d r.1) d' fs := by
      intro d'
      by_cases hdd : d = d'
      · subst hdd
        exact hd.2
      · have hother := hq d'
        rw [LaneSilent, laneRun_cons_of_ne s hdd x r.1 fs] at hother
        exact hother
    obtain ⟨h1, h2, h3⟩ := run_of_lanes fs (s.setBuffer d r.1) (by simp [hs]) hw' hq'
    have hrun : run s ((d, x) :: fs) =
        ⟨d, s.setBuffer d r.1, r.2⟩ :: run (s.setBuffer d r.1) fs := by
      rw [run, hpush]
    rw [hrun]
    refine ⟨?_, ?_, ?_⟩
    · exact forall_mem_cons.mpr ⟨hd.1, h1⟩
    · exact forall_mem_cons.mpr ⟨by simp [hs], h2⟩
    · intro d'
      by_cases hdd : d = d'
      · subst hdd
        rw [emitted_cons_self, hcons, flatMap_cons, h3]
      · rw [emitted_cons_of_ne hdd, h3, laneRun_cons_of_ne s hdd x r.1 fs]

/-- A silent run has silent lanes. -/
theorem lanes_of_run :
    ∀ (fs : List Fragment) (s : PostgresDecoder), s.phase = .typed → Within s fs →
      Silent (run s fs) → ∀ d, LaneSilent s d fs
  | [], _, _, _, _, _ => by simp [LaneSilent, laneRun, fragmentsOf, Stream.pushAll]
  | (d, x) :: fs, s, hs, hw, hq, d' => by
    have hpush := push_typed hs hw.1
    have hcons := laneRun_cons_self s d x fs
    generalize Stream.push (laneTurn d s.maxBody) Feed.list List.length (s.buffer d) x = r at *
    rw [Silent, run, forall_mem_cons] at hq
    have hr : r.2.desynchronized = none := by
      have h := hq.1
      rw [hpush, settle] at h
      split at h
      · exact h
      · exact h
    rw [settle, if_pos hr] at hpush
    have hw' := hw.2
    have hq' := hq.2
    rw [hpush] at hw' hq'
    have ih := lanes_of_run fs (s.setBuffer d r.1) (by simp [hs]) hw' hq' d'
    by_cases hdd : d = d'
    · subst hdd
      rw [LaneSilent, hcons]
      exact forall_mem_cons.mpr ⟨hr, ih⟩
    · rw [LaneSilent, laneRun_cons_of_ne s hdd x r.1 fs]
      exact ih

/-! ## Sessions -/

/-- A session of protocol 3. -/
structure Session where
  minor : UInt16
  parameters : List (CString × CString)
  client : List Frontend
  server : List Backend

namespace Session

/-- The version number of the startup frame. -/
def version (S : Session) : Nat := 0x30000 + S.minor.toNat

/-- The parameters and their terminator. -/
def startupPayload (S : Session) : Bytes :=
  (S.parameters.flatMap fun p => p.1.wire ++ p.2.wire) ++ [0]

/-- The startup frame.  Its length counts itself. -/
def startup (S : Session) : Bytes :=
  be32 (S.startupPayload.length + 8) ++ be32 S.version ++ S.startupPayload

/-- The typed frames of one side. -/
def frames (S : Session) : Direction → List Frame
  | .clientToServer => S.client.map Frontend.frame
  | .serverToClient => S.server.map Backend.frame

/-- The bytes of one side. -/
def stream (S : Session) : Direction → Bytes
  | .clientToServer => S.startup ++ (S.frames .clientToServer).flatMap Frame.bytes
  | .serverToClient => (S.frames .serverToClient).flatMap Frame.bytes

/-- Every frame length is within the limit. -/
structure Fits (S : Session) : Prop where
  startup : S.startup.length ≤ maxFrameBytes
  frames : ∀ d, ∀ f ∈ S.frames d, f.Fits

/-- The fragments carry the session, and the startup frame is pushed before any
byte of the server. -/
structure Pushes (S : Session) (fs : List Fragment) : Prop where
  bytes : ∀ d, bytesOf d fs = S.stream d
  startupFirst : ∀ pre x post, fs = pre ++ (.serverToClient, x) :: post → x ≠ [] →
    S.startup.length ≤ (bytesOf .clientToServer pre).length

theorem length_startup (S : Session) : S.startup.length = S.startupPayload.length + 8 := by
  simp only [startup, length_append, Search.length_be32]
  omega

end Session

/-- What a decoder that follows a session has done: no report, no opaque phase,
and one message for each frame in the order of the wire. -/
structure Decodes (maxBody : Nat) (S : Session) (es : List Event) : Prop where
  silent : Silent es
  decoding : ∀ e ∈ es, e.state.phase ≠ .opaqueTraffic
  client : ∃ m ms, emitted .clientToServer es = m :: ms ∧
    startupMessage S.version S.startupPayload = .ok m ∧
    List.Forall₂ (Carries .clientToServer maxBody) (S.frames .clientToServer) ms
  server : List.Forall₂ (Carries .serverToClient maxBody) (S.frames .serverToClient)
    (emitted .serverToClient es)

/-! ## The startup frame -/

/-- The decoder accepts every startup frame of protocol 3. -/
theorem startupMessage_ok (S : Session) :
    ∃ m, startupMessage S.version S.startupPayload = .ok m := by
  have hminor := S.minor.toNat_lt
  have hmajor : S.version / 0x10000 = 3 := by
    simp only [Session.version]
    omega
  let strings := S.parameters.flatMap fun p => [p.1, p.2]
  have hpay : S.startupPayload = strings.flatMap CString.wire ++ [0] := by
    simp [Session.startupPayload, strings, flatMap_assoc]
  have heven : (strings.map Subtype.val).length % 2 = 0 := by
    simp [strings]
  rw [startupMessage, hmajor, hpay, cstrings_wire]
  simp only [ne_eq, heven, not_true_eq_false, if_false, ok_bind]
  exact ⟨_, rfl⟩

namespace PostgresDecoder

variable {S : Session} {p : Bytes} {m : DecodedMessage} {maxBody : Nat} {x : Bytes}

/-- A decoder that has read part of the startup frame. -/
def starting (maxBody : Nat) (p : Bytes) : PostgresDecoder := ⟨maxBody, p, [], .startup⟩

/-- A decoder in the typed phase with one client buffer. -/
def typed (maxBody : Nat) (p : Bytes) : PostgresDecoder := ⟨maxBody, p, [], .typed⟩

theorem beNat_startup (S : Session) (hS : S.Fits) (rest : Bytes) :
    beNat ((S.startup ++ rest).take 4) = S.startup.length := by
  have hfit := hS.startup
  have hlen := S.length_startup
  rw [hlen]
  exact Search.beNat_be32 (by unfold maxFrameBytes at hfit; omega)

/-- A startup frame that is not complete stays. -/
theorem turn_startup_pre (hS : S.Fits) (maxBody : Nat) (hp : p <+: S.startup)
    (hlt : p.length < S.startup.length) :
    turn .clientToServer (starting maxBody p) = .stop (starting maxBody p) .needMore := by
  have hstep : stepStartup (starting maxBody p) = (starting maxBody p, .needMore) := by
    rw [stepStartup]
    by_cases hshort : (starting maxBody p).client.length < 4
    · rw [if_pos hshort]
    · rw [if_neg hshort]
      have hnum : beNat (p.take 4) = S.startup.length := by
        rw [← beNat_startup S hS [], append_nil]
        obtain ⟨q, hq⟩ := hp
        rw [← hq, take_append_of_le_length]
        simp only [starting] at hshort
        omega
      have hrange : 8 ≤ S.startup.length ∧ S.startup.length ≤ maxFrameBytes :=
        ⟨by rw [S.length_startup]; omega, hS.startup⟩
      simp only [starting, hnum]
      rw [if_neg (not_not.mpr hrange), if_pos hlt]
  have hphase : step (starting maxBody p) .clientToServer = stepStartup (starting maxBody p) := rfl
  rw [turn, hphase, hstep]

/-- A complete startup frame begins the typed phase. -/
theorem turn_startup (hS : S.Fits) (maxBody : Nat)
    (hm : startupMessage S.version S.startupPayload = .ok m) (rest : Bytes) :
    turn .clientToServer (starting maxBody (S.startup ++ rest)) =
      .again (typed maxBody rest) ⟨[m], none⟩ := by
  have hlen := S.length_startup
  have hfull : (S.startup ++ rest).length = S.startup.length + rest.length := length_append
  have hnum := beNat_startup S hS rest
  have hrange : 8 ≤ S.startup.length ∧ S.startup.length ≤ maxFrameBytes :=
    ⟨by omega, hS.startup⟩
  have hminor := S.minor.toNat_lt
  have hcode : beNat ((S.startup.drop 4).take 4) = S.version :=
    Search.beNat_be32 (by simp only [Session.version]; omega)
  have hver : S.version ≠ sslRequestCode ∧ S.version ≠ gssencRequestCode ∧
      S.version ≠ cancelRequestCode := by
    simp only [Session.version, sslRequestCode, gssencRequestCode, cancelRequestCode]
    omega
  have hpay : S.startup.drop 8 = S.startupPayload := rfl
  have hstep : stepStartup (starting maxBody (S.startup ++ rest)) =
      (starting maxBody rest, .messageAndPhase m .typed) := by
    rw [stepStartup]
    simp only [starting, hnum]
    rw [if_neg (by omega), if_neg (not_not.mpr hrange), if_neg (by omega), take_left, drop_left,
      hcode, if_neg hver.1, if_neg hver.2.1, if_neg hver.2.2, hpay, hm]
  have hphase : step (starting maxBody (S.startup ++ rest)) .clientToServer =
      stepStartup (starting maxBody (S.startup ++ rest)) := rfl
  rw [turn, hphase, hstep]
  rfl

/-- The server side waits while the startup frame is out. -/
theorem push_starting_server (maxBody : Nat) (p : Bytes) :
    (starting maxBody p).push .serverToClient [] = (starting maxBody p, .needMore) := rfl

theorem push_starting (hw : p.length + x.length ≤ maxFrameBytes + 5) :
    (starting maxBody p).push .clientToServer x =
      Stream.drive (turn .clientToServer) ((p ++ x).length + 1) (starting maxBody (p ++ x)) := by
  have hfit : ¬ maxFrameBytes + 5 < (p ++ x).length := by
    rw [length_append]
    omega
  have hopen : ¬ (starting maxBody p).phase = .opaqueTraffic := by simp [starting]
  rw [push, process, if_neg hopen]
  exact if_neg hfit

theorem push_typed_eq_drive (hw : x.length ≤ maxFrameBytes + 5) :
    (typed maxBody []).push .clientToServer x =
      Stream.drive (turn .clientToServer) (x.length + 1) (typed maxBody x) := by
  have hfit : ¬ maxFrameBytes + 5 < x.length := by omega
  have hopen : ¬ (typed maxBody []).phase = .opaqueTraffic := by simp [typed]
  rw [push, process, if_neg hopen]
  exact if_neg hfit

/-- A push that does not complete the startup frame. -/
theorem push_startup_pre (hS : S.Fits) (maxBody : Nat)
    (hw : p.length + x.length ≤ maxFrameBytes + 5) (hp : p ++ x <+: S.startup)
    (hlt : (p ++ x).length < S.startup.length) :
    (starting maxBody p).push .clientToServer x = (starting maxBody (p ++ x), .needMore) := by
  rw [push_starting hw, Stream.drive, turn_startup_pre hS maxBody hp hlt]

/-- A push that completes the startup frame goes on as a push in the typed phase. -/
theorem push_startup (hS : S.Fits) (maxBody : Nat)
    (hm : startupMessage S.version S.startupPayload = .ok m) {rest : Bytes}
    (hw : p.length + x.length ≤ maxFrameBytes + 5) (hx : p ++ x = S.startup ++ rest) :
    (starting maxBody p).push .clientToServer x =
      (((typed maxBody []).push .clientToServer rest).1,
        Stream.Batch.seq ⟨[m], none⟩ ((typed maxBody []).push .clientToServer rest).2) := by
  have hlen := congrArg List.length hx
  rw [length_append, length_append] at hlen
  have hpos := S.length_startup
  rw [push_starting hw, hx, Stream.drive, turn_startup hS maxBody hm rest,
    push_typed_eq_drive (by omega)]
  have hfuel : Stream.drive (turn .clientToServer) (S.startup ++ rest).length (typed maxBody rest) =
      Stream.drive (turn .clientToServer) (rest.length + 1) (typed maxBody rest) := by
    rw [drive_typed _ _ _ rfl, drive_typed _ _ _ rfl]
    have hlane : Stream.drive (laneTurn .clientToServer maxBody) (S.startup ++ rest).length rest =
        Stream.drive (laneTurn .clientToServer maxBody) (rest.length + 1) rest :=
      Stream.drive_eq_of_lt lane_decreases _ _ rest (by rw [length_append]; omega)
        (Nat.lt_succ_self _)
    exact congrArg _ hlane
  simp only [hfuel]

end PostgresDecoder

open PostgresDecoder (starting typed push_starting_server push_startup_pre push_startup)

/-- A run from the startup phase: silent pushes until the startup frame is
complete, and then a typed run whose first push also emits the startup message. -/
theorem run_startup {S : Session} (hS : S.Fits) {maxBody : Nat} {m : DecodedMessage}
    (hm : startupMessage S.version S.startupPayload = .ok m) {w : Bytes} :
    ∀ (fs : List Fragment) (p : Bytes), p.length < S.startup.length →
      p ++ bytesOf .clientToServer fs = S.startup ++ w →
      (∀ pre x post, fs = pre ++ (.serverToClient, x) :: post → x ≠ [] →
        S.startup.length ≤ p.length + (bytesOf .clientToServer pre).length) →
      Within (starting maxBody p) fs →
      ∃ (waiting : List Event) (x : Bytes) (post : List Fragment),
        (∀ e ∈ waiting, e.state.phase = .startup ∧ e.batch = .needMore) ∧
        bytesOf .clientToServer ((.clientToServer, x) :: post) = w ∧
        bytesOf .serverToClient post = bytesOf .serverToClient fs ∧
        Within (typed maxBody []) ((.clientToServer, x) :: post) ∧
        run (starting maxBody p) fs = waiting ++
          ⟨.clientToServer, ((typed maxBody []).push .clientToServer x).1,
            Stream.Batch.seq ⟨[m], none⟩ ((typed maxBody []).push .clientToServer x).2⟩ ::
          run ((typed maxBody []).push .clientToServer x).1 post
  | [], p, hlt, hw, _, _ => by
    have hlen := congrArg List.length hw
    simp only [bytesOf, fragmentsOf, filter_nil, map_nil, flatten_nil,
      append_nil, length_append] at hlen
    omega
  | (.serverToClient, x) :: fs, p, hlt, hw, hfirst, hin => by
    have hx : x = [] := by
      by_contra hne
      have := hfirst [] x fs rfl hne
      simp only [bytesOf, fragmentsOf, filter_nil, map_nil, flatten_nil, length_nil] at this
      omega
    subst hx
    rw [bytesOf_cons_of_ne (by decide)] at hw
    have hin' := hin.2
    rw [push_starting_server] at hin'
    obtain ⟨waiting, x, post, h1, h2, h3, h4, h5⟩ := run_startup hS hm fs p hlt hw
      (fun pre x post he hne => by
        have := hfirst ((.serverToClient, []) :: pre) x post (by rw [he]; rfl) hne
        rw [bytesOf_cons_of_ne (by decide)] at this
        exact this) hin'
    refine ⟨⟨.serverToClient, starting maxBody p, .needMore⟩ :: waiting, x, post, ?_,
      h2, ?_, h4, ?_⟩
    · exact forall_mem_cons.mpr ⟨⟨rfl, rfl⟩, h1⟩
    · rw [h3, bytesOf_cons_self, nil_append]
    · rw [run, push_starting_server, h5]
      rfl
  | (.clientToServer, x) :: fs, p, hlt, hw, hfirst, hin => by
    rw [bytesOf_cons_self, ← append_assoc] at hw
    have hbound : p.length + x.length ≤ maxFrameBytes + 5 := hin.1
    by_cases hshort : (p ++ x).length < S.startup.length
    · have hp : p ++ x <+: S.startup :=
        prefix_of_prefix_length_le ⟨_, hw⟩ (prefix_append ..) (Nat.le_of_lt hshort)
      have hpush := push_startup_pre hS maxBody hbound hp hshort
      have hin' := hin.2
      rw [hpush] at hin'
      obtain ⟨waiting, y, post, h1, h2, h3, h4, h5⟩ := run_startup hS hm fs (p ++ x) hshort hw
        (fun pre y post he hne => by
          have := hfirst ((.clientToServer, x) :: pre) y post (by rw [he]; rfl) hne
          rw [bytesOf_cons_self, length_append] at this
          rw [length_append]
          omega) hin'
      refine ⟨⟨.clientToServer, starting maxBody (p ++ x), .needMore⟩ :: waiting, y, post, ?_, h2,
        ?_, h4, ?_⟩
      · exact forall_mem_cons.mpr ⟨⟨rfl, rfl⟩, h1⟩
      · rw [h3, bytesOf_cons_of_ne (by decide)]
      · rw [run, hpush, h5]
        rfl
    · -- The startup frame ends in this push; what follows it is typed traffic.
      obtain ⟨rest, hrest⟩ : S.startup <+: p ++ x :=
        prefix_of_prefix_length_le (prefix_append ..) ⟨_, hw⟩ (Nat.le_of_not_lt hshort)
      have hpush := push_startup hS maxBody hm hbound hrest.symm
      refine ⟨[], rest, fs, by simp, ?_, ?_, ?_, ?_⟩
      · rw [← hrest, append_assoc] at hw
        rw [bytesOf_cons_self]
        exact append_cancel_left hw
      · rw [bytesOf_cons_of_ne (by decide)]
      · have hlen := congrArg List.length hrest
        rw [length_append, length_append] at hlen
        refine ⟨?_, ?_⟩
        · have hzero : ((typed maxBody []).buffer .clientToServer).length = 0 := rfl
          omega
        · have hin' := hin.2
          rw [hpush] at hin'
          exact hin'
      · rw [run, hpush, nil_append]

/-! ## Decoded sessions -/

/-- A lane that reads its frames is silent and emits one message for each. -/
theorem laneRun_of_accepted {s : PostgresDecoder} (hs : s.buffer d = []) {frames : List Frame}
    (hfits : ∀ f ∈ frames, f.Fits)
    (hok : ∀ f ∈ frames, ∃ m, decodeTyped d f.tag f.payload s.maxBody = .ok m) {fs : List Fragment}
    (hb : bytesOf d fs = frames.flatMap Frame.bytes) :
    LaneSilent s d fs ∧ List.Forall₂ (Carries d s.maxBody) frames
      ((laneRun s d fs).2.flatMap Stream.Batch.messages) := by
  obtain ⟨ms, hreads, hcarries⟩ := lane_reads hfits hok
  obtain ⟨-, hmsgs, hq⟩ := hreads.pushAll lane_decreases lane_local.resumes laneTurn_nil hb
  rw [LaneSilent, laneRun, hs, hmsgs]
  exact ⟨hq, hcarries⟩

/-- The decoder follows a session, in any fragmentation and interleaving, exactly
when the server sends no parameter status without a value. -/
theorem session_decodes_iff {maxBody : Nat} {S : Session} {fs : List Fragment} (hS : S.Fits)
    (hfs : S.Pushes fs) (hw : Within (PostgresDecoder.new maxBody) fs) :
    Decodes maxBody S (run (PostgresDecoder.new maxBody) fs) ↔
      ∀ f ∈ S.server, ¬ f.EmptyStatus := by
  obtain ⟨m, hm⟩ := startupMessage_ok S
  obtain ⟨waiting, x, post, hwait, hclient, hserver, hin, hrun⟩ :=
    run_startup hS hm (w := (S.frames .clientToServer).flatMap Frame.bytes) fs []
      (by rw [S.length_startup, length_nil]; omega) (hfs.bytes .clientToServer)
      (fun pre x post he hne => by
        rw [length_nil, Nat.zero_add]
        exact hfs.startupFirst pre x post he hne) hw
  have htyped : (typed maxBody []).phase = .typed := rfl
  have hserver' : bytesOf .serverToClient ((.clientToServer, x) :: post) =
      (S.frames .serverToClient).flatMap Frame.bytes := by
    rw [bytesOf_cons_of_ne (by decide), hserver]
    exact hfs.bytes .serverToClient
  have hnew : PostgresDecoder.new maxBody = starting maxBody [] := rfl
  rw [hnew, hrun]
  constructor
  · intro h f hf
    have hsilent : Silent (run (typed maxBody []) ((.clientToServer, x) :: post)) := by
      have hall := h.silent
      rw [Silent, forall_mem_append, forall_mem_cons] at hall
      rw [Silent, run, forall_mem_cons]
      exact ⟨(Stream.Batch.seq_desynchronized_eq_none.mp hall.2.1).2, hall.2.2⟩
    have hlane := lanes_of_run _ _ htyped hin hsilent .serverToClient
    have hacc := lane_accepts (hS.frames .serverToClient) hserver' hlane
    exact (f.decode_ok_iff maxBody).mp (hacc f.frame (mem_map_of_mem hf))
  · intro h
    have hcl := laneRun_of_accepted (s := typed maxBody []) (d := .clientToServer) rfl
      (hS.frames .clientToServer)
      (fun f hf => by
        obtain ⟨g, -, rfl⟩ := mem_map.mp hf
        exact g.decode_ok maxBody) hclient
    have hsv := laneRun_of_accepted (s := typed maxBody []) (d := .serverToClient) rfl
      (hS.frames .serverToClient)
      (fun f hf => by
        obtain ⟨g, hg, rfl⟩ := mem_map.mp hf
        exact (g.decode_ok_iff maxBody).mpr (h g hg)) hserver'
    obtain ⟨hsilent, hphase, hemit⟩ := run_of_lanes _ _ htyped hin
      (fun d => match d with
        | .clientToServer => hcl.1
        | .serverToClient => hsv.1)
    have hnone : ∀ d, emitted d waiting = [] := fun d => emitted_eq_nil fun e he => (hwait e he).2
    have hcm := hcl.2
    have hsm := hsv.2
    rw [← hemit, run, emitted_cons_self] at hcm
    rw [← hemit, run, emitted_cons_of_ne (by decide)] at hsm
    rw [run] at hsilent hphase
    obtain ⟨hq, hqs⟩ := forall_mem_cons.mp hsilent
    obtain ⟨hp, hps⟩ := forall_mem_cons.mp hphase
    refine ⟨?_, ?_, ?_, ?_⟩
    · refine forall_mem_append.mpr ⟨?_, forall_mem_cons.mpr ⟨?_, hqs⟩⟩
      · intro e he
        rw [(hwait e he).2]
        rfl
      · exact Stream.Batch.seq_desynchronized_eq_none.mpr ⟨rfl, hq⟩
    · refine forall_mem_append.mpr ⟨?_, forall_mem_cons.mpr ⟨?_, ?_⟩⟩
      · intro e he
        rw [(hwait e he).1]
        simp
      · rw [hp]
        simp
      · intro e he
        rw [hps e he]
        simp
    · refine ⟨m, _, ?_, hm, hcm⟩
      rw [emitted_append, hnone, nil_append, emitted_cons_self]
      rfl
    · rw [emitted_append, hnone, nil_append, emitted_cons_of_ne (by decide)]
      exact hsm

/-- A session of one user whose server announces an application name. -/
def announced (name : CString) : Session where
  minor := 0
  parameters := [(⟨Utf8.asBytes "user", by decide⟩, ⟨Utf8.asBytes "app", by decide⟩)]
  client := []
  server := [.parameterStatus ⟨Utf8.asBytes "application_name", by decide⟩ name,
    .readyForQuery 0x49]

/-- The session in two pushes. -/
def announcedPushes (name : CString) : List Fragment :=
  [(.clientToServer, (announced name).startup),
    (.serverToClient, (announced name).stream .serverToClient)]

theorem announced_pushes (name : CString) : (announced name).Pushes (announcedPushes name) where
  bytes := by
    intro d
    cases d with
    | clientToServer => rfl
    | serverToClient => simp [announcedPushes, bytesOf, fragmentsOf]
  startupFirst := by
    intro pre x post h _
    cases pre with
    | nil => cases h
    | cons y pre =>
      obtain ⟨rfl, -⟩ := List.cons.inj h
      rw [bytesOf_cons_self, length_append]
      omega

theorem announced_fits {name : CString} (h : name.1.length ≤ 64) : (announced name).Fits where
  startup := by
    have hlen : (announced name).startup.length = 18 := rfl
    rw [hlen]
    decide
  frames := by
    intro d f hf
    cases d with
    | clientToServer => cases hf
    | serverToClient =>
      rcases mem_cons.mp hf with rfl | hf
      · have hname : (Utf8.asBytes "application_name").length = 16 := by decide
        simp only [Frame.Fits, Backend.frame, length_append, CString.length_wire, hname,
          maxFrameBytes]
        omega
      · obtain rfl := mem_singleton.mp hf
        decide

/-- With a name the session is decoded. -/
theorem announced_psql_decodes :
    Decodes 64 (announced ⟨Utf8.asBytes "psql", by decide⟩)
      (run (PostgresDecoder.new 64) (announcedPushes ⟨Utf8.asBytes "psql", by decide⟩)) := by
  refine (session_decodes_iff (announced_fits (by decide)) (announced_pushes _)
    ⟨by decide, by decide, trivial⟩).mpr ?_
  intro f hf
  rcases mem_cons.mp hf with rfl | hf
  · exact (by decide : Utf8.asBytes "psql" ≠ [])
  · obtain rfl := mem_singleton.mp hf
    exact id

/-- Without one the decoder gives up on the connection. -/
theorem announced_empty_fails :
    ∃ S fs, S = announced ⟨[], by decide⟩ ∧ fs = announcedPushes ⟨[], by decide⟩ ∧
      S.Fits ∧ S.Pushes fs ∧ Within (PostgresDecoder.new 64) fs ∧
      (run (PostgresDecoder.new 64) fs).map (fun e => (e.state.phase, e.batch.desynchronized)) =
        [(.typed, none), (.opaqueTraffic, some "invalid PostgreSQL ParameterStatus")] ∧
      ¬ Decodes 64 S (run (PostgresDecoder.new 64) fs) := by
  have hrun : (run (PostgresDecoder.new 64) (announcedPushes ⟨[], by decide⟩)).map
        (fun e => (e.state.phase, e.batch.desynchronized)) =
        [(.typed, none), (.opaqueTraffic, some "invalid PostgreSQL ParameterStatus")] := by decide
  refine ⟨_, _, rfl, rfl, announced_fits (by decide), announced_pushes _,
    ⟨by decide, by decide, trivial⟩, hrun, ?_⟩
  intro h
  have hphase : ∀ p ∈ (run (PostgresDecoder.new 64) (announcedPushes ⟨[], by decide⟩)).map
      (fun e => (e.state.phase, e.batch.desynchronized)), p.2 = none := by
    intro p hp
    obtain ⟨e, he, rfl⟩ := mem_map.mp hp
    exact h.silent e he
  rw [hrun] at hphase
  exact absurd (hphase _ (mem_cons_of_mem _ (mem_singleton_self _))) (by simp)

end Lens.Postgres
