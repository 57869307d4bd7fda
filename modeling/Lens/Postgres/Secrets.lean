import Lens.Postgres.Session

/-!
# What the decoder never retains

Passwords, SASL payloads, bind values, row values, COPY data and key material are
the rest of a frame after some first bytes (`shownPayload`).  Two runs whose frames
agree on those first bytes return the same batches (`batches_left_eq_right`).

`Twins` is a decoder with a pair of bytes at every place of its buffers, one for each
of two runs.  The left run says where the frames are, and `Twins.agrees` says that
the frame at the front of a buffer has its differences in the never retained part.
A frame that is not complete yet is looked at as far as it goes, and bytes that no
turn ever looks at may differ as they like.
-/

namespace Lens.Postgres

open List
open Search (beNat)
open Stream (Turn)

/-! ## Strings that agree at the front -/

/-- Two strings of one length with the same first `n` bytes. -/
structure Agree (n : Nat) (p q : Bytes) : Prop where
  length : p.length = q.length
  take : p.take n = q.take n

namespace Agree

variable {n m : Nat} {p q : Bytes}

theorem mono (h : Agree n p q) (hm : m ≤ n) : Agree m p q where
  length := h.length
  take := by
    have htake := congrArg (List.take m) h.take
    rwa [take_take, take_take, Nat.min_eq_left hm] at htake

theorem drop (h : Agree (m + n) p q) : Agree n (p.drop m) (q.drop m) where
  length := by rw [length_drop, length_drop, h.length]
  take := by
    have hdrop := congrArg (List.drop m) h.take
    rwa [drop_take, drop_take, Nat.add_sub_cancel_left] at hdrop

theorem takeBoth (h : Agree n p q) (k : Nat) : Agree n (p.take k) (q.take k) where
  length := by rw [length_take, length_take, h.length]
  take := by
    rw [take_take, take_take, Nat.min_comm, ← take_take, h.take, take_take]

/-- Strings that agree on everything are the same. -/
theorem eq (h : Agree n p q) (hn : p.length ≤ n) : p = q := by
  have htake := h.take
  rwa [take_of_length_le hn, take_of_length_le (h.length ▸ hn)] at htake

/-- A front part read off one string can be read off the other. -/
theorem take_eq (h : Agree n p q) (hm : m ≤ n) : p.take m = q.take m := (h.mono hm).take

/-- A string cut in two, with the first part agreed on. -/
theorem exists_append {x y : Bytes} (h : Agree (x.length + n) (x ++ y) q) :
    ∃ z, q = x ++ z ∧ Agree n y z := by
  have hx : x = q.take x.length := by
    have htake := h.take_eq (Nat.le_add_right _ _)
    rwa [take_left] at htake
  refine ⟨q.drop x.length, ?_, ?_⟩
  · conv_lhs => rw [← take_append_drop x.length q]
    rw [← hx]
  · have hdrop := h.drop
    rwa [drop_left] at hdrop

end Agree

/-! ## Payloads -/

/-- The bytes of a `Bind` payload up to its parameter count.  A payload that cannot be
read that far has no values. -/
def bindShown (payload : Bytes) : Nat :=
  match takeCstring payload with
  | .error _ => payload.length
  | .ok (portal, afterPortal) =>
    match takeCstring afterPortal with
    | .error _ => payload.length
    | .ok (statement, rest) =>
      let counts := beNat (rest.take 2) * 2 + 4
      if rest.length < counts then payload.length
      else portal.length + 1 + (statement.length + 1 + counts)

/-- The tags whose whole payload is never retained. -/
def omittedTags : Direction → List Char
  | .clientToServer => ['p', 'd', 'f', 'F']
  | .serverToClient => ['d', 'K', 'A']

/-- The first bytes of a payload that a message may depend on.  The bytes after them
are never retained. -/
def shownPayload (d : Direction) (tag : UInt8) (payload : Bytes) : Nat :=
  let c := Char.ofNat tag.toNat
  if (omittedTags d).contains c then 0
  else
    match d with
    | .clientToServer => if c = 'B' then bindShown payload else payload.length
    | .serverToClient => if c = 'D' then 2 else if c = 'R' then 4 else payload.length

variable {value rest p q : Bytes} {d : Direction}

/-- A C string at the front of a payload. -/
theorem takeCstring_eq {payload : Bytes} (h : takeCstring payload = .ok (value, rest)) :
    0 ∉ value ∧ payload = value ++ 0 :: rest := by
  rw [takeCstring] at h
  split at h
  · cases h
  next e he =>
    cases h
    rw [findIdx?_eq_some_iff_getElem] at he
    obtain ⟨hlt, hzero, hbefore⟩ := he
    refine ⟨?_, ?_⟩
    · intro hmem
      obtain ⟨i, hi, hget⟩ := getElem_of_mem hmem
      rw [length_take] at hi
      have hne := hbefore i (by omega)
      rw [getElem_take] at hget
      simp [hget] at hne
    · have hsplit := take_append_drop e payload
      rw [drop_eq_getElem_cons hlt, beq_iff_eq.mp hzero] at hsplit
      exact hsplit.symm

/-- A C string in the agreed part is read off both payloads. -/
theorem takeCstring_agree {n : Nat} (hp : takeCstring p = .ok (value, rest))
    (h : Agree (value.length + 1 + n) p q) :
    ∃ rest', takeCstring q = .ok (value, rest') ∧ Agree n rest rest' := by
  obtain ⟨hzero, rfl⟩ := takeCstring_eq hp
  have hsplit : value ++ 0 :: rest = (value ++ [0]) ++ rest := by simp
  rw [hsplit] at h
  have hlen : (value ++ [0]).length + n = value.length + 1 + n := by simp
  obtain ⟨rest', rfl, hrest⟩ := Agree.exists_append (hlen ▸ h)
  exact ⟨rest', takeCstring_wire ⟨value, hzero⟩ rest', hrest⟩

/-- A `Bind` message does not depend on the bytes after its parameter count. -/
theorem bindMessage_agree (h : Agree (bindShown p) p q) : bindMessage p = bindMessage q := by
  rw [bindShown] at h
  split at h
  · rw [h.eq (Nat.le_refl _)]
  next portal afterPortal hportal =>
    split at h
    · rw [h.eq (Nat.le_refl _)]
    next statement rest hstatement =>
      simp only at h
      split at h
      · rw [h.eq (Nat.le_refl _)]
      next hlong =>
        rw [Nat.not_lt] at hlong
        obtain ⟨afterPortal', hportal', hafter⟩ := takeCstring_agree hportal h
        obtain ⟨rest', hstatement', hrest⟩ := takeCstring_agree hstatement hafter
        have hformats : rest.take 2 = rest'.take 2 := hrest.take_eq (by omega)
        have hcount : (rest.drop (beNat (rest.take 2) * 2 + 2)).take 2 =
            (rest'.drop (beNat (rest.take 2) * 2 + 2)).take 2 :=
          (hrest.mono (m := beNat (rest.take 2) * 2 + 2 + 2) (by omega)).drop.take
        simp only [bindMessage, hportal, hportal', hstatement, hstatement', ok_bind, hcount,
          ← hformats, ← hrest.length]

/-- A message depends on the shown part of its payload. -/
theorem decodeTyped_agree {tag : UInt8} (h : Agree (shownPayload d tag p) p q) (maxBody : Nat) :
    decodeTyped d tag p maxBody = decodeTyped d tag q maxBody := by
  have hwire : ∀ m, withWireBytes m p = withWireBytes m q := by
    intro m
    rw [withWireBytes, withWireBytes, h.length]
  unfold shownPayload at h
  simp only at h
  split at h
  next homitted =>
    -- Only the size of an omitted payload is used.
    cases d with
    | clientToServer =>
      simp only [omittedTags, contains_cons, contains_nil, Bool.or_false,
        Bool.or_eq_true, beq_iff_eq] at homitted
      rw [decodeTyped, decodeTyped, decodeFrontend, decodeFrontend, frontendMessage,
        frontendMessage]
      rcases homitted with hc | hc | hc | hc
      all_goals
        simp only [hc]
        simp [Except.map, hwire]
    | serverToClient =>
      simp only [omittedTags, contains_cons, contains_nil, Bool.or_false,
        Bool.or_eq_true, beq_iff_eq] at homitted
      rw [decodeTyped, decodeTyped, decodeBackend, decodeBackend, backendMessage, backendMessage]
      rcases homitted with hc | hc | hc
      all_goals
        simp only [hc]
        simp [Except.map, hwire]
  next homitted =>
    cases d with
    | clientToServer =>
      simp only at h
      split at h
      next hbind =>
        rw [decodeTyped, decodeTyped, decodeFrontend, decodeFrontend, frontendMessage,
          frontendMessage]
        simp only [hbind, bindMessage_agree h, hwire]
      · rw [h.eq (Nat.le_refl _)]
    | serverToClient =>
      simp only at h
      split at h
      next hrow =>
        rw [decodeTyped, decodeTyped, decodeBackend, decodeBackend, backendMessage, backendMessage]
        simp only [hrow, h.take, h.length, hwire]
      · split at h
        next hauth =>
          rw [decodeTyped, decodeTyped, decodeBackend, decodeBackend, backendMessage,
            backendMessage]
          simp only [hauth, h.take, h.length, hwire]
        · rw [h.eq (Nat.le_refl _)]

/-! ## Frames at the front of a buffer -/

/-- The first bytes of a startup frame that a message may depend on: all of the frame,
or the code of a cancel request. -/
def shownStartup (buffer : Bytes) : Nat :=
  if 8 ≤ buffer.length ∧ beNat ((buffer.drop 4).take 4) = cancelRequestCode then 8
  else max 8 (beNat (buffer.take 4))

/-- The first bytes of a typed frame that a message may depend on. -/
def shownTyped (d : Direction) (buffer : Bytes) : Nat :=
  let length := beNat ((buffer.drop 1).take 4)
  5 + shownPayload d (buffer.headD 0) ((buffer.take (length + 1)).drop 5)

/-- The first bytes of a buffer that the next step may depend on. -/
def PostgresDecoder.shown (s : PostgresDecoder) (d : Direction) : Nat :=
  match s.phase, d with
  | .startup, .clientToServer => shownStartup s.client
  | .awaitingEncryptionResponse, .serverToClient => 1
  | .typed, d => shownTyped d (s.buffer d)
  | _, _ => 0

/-- A typed frame is taken off both buffers, and it gives the same. -/
theorem typedFrame_agree (h : Agree (shownTyped d p) p q) (maxBody : Nat) :
    ∃ n step, typedFrame d maxBody p = (p.drop n, step) ∧
      typedFrame d maxBody q = (q.drop n, step) := by
  have hfive : 5 ≤ shownTyped d p := Nat.le_add_right _ _
  have htag : p.headD 0 = q.headD 0 := by
    have htake := h.take_eq (m := 1) (by omega)
    cases p with
    | nil =>
      rw [length_eq_zero_iff.mp h.length.symm]
    | cons a p =>
      cases q with
      | nil => cases h.length
      | cons b q => exact (List.cons.inj htake).1
  have hlength : (p.drop 1).take 4 = (q.drop 1).take 4 :=
    (h.mono (m := 1 + 4) (by omega)).drop.take
  rw [typedFrame, typedFrame, ← h.length, ← htag, ← hlength]
  split
  · exact ⟨0, .needMore, rfl, rfl⟩
  simp only
  split
  · exact ⟨0, _, rfl, rfl⟩
  split
  · exact ⟨0, .needMore, rfl, rfl⟩
  next =>
    have hpayload := (h.takeBoth (beNat ((p.drop 1).take 4) + 1)).drop
    rw [← decodeTyped_agree hpayload maxBody]
    split
    · exact ⟨_, _, rfl, rfl⟩
    · exact ⟨_, _, rfl, rfl⟩

namespace PostgresDecoder

variable {a b : PostgresDecoder}

/-- A startup frame is taken off both buffers, and it gives the same. -/
theorem stepStartup_agree (h : Agree (shownStartup a.client) a.client b.client) :
    ∃ n step, a.stepStartup = ({ a with client := a.client.drop n }, step) ∧
      b.stepStartup = ({ b with client := b.client.drop n }, step) := by
  have height : 8 ≤ shownStartup a.client := by
    rw [shownStartup]
    split
    · exact Nat.le_refl _
    · exact Nat.le_max_left _ _
  have hlength : a.client.take 4 = b.client.take 4 := h.take_eq (by omega)
  rw [stepStartup, stepStartup, ← h.length, ← hlength]
  split
  · exact ⟨0, .needMore, rfl, rfl⟩
  simp only
  split
  · exact ⟨0, _, rfl, rfl⟩
  next hrange =>
  rw [not_not] at hrange
  split
  · exact ⟨0, .needMore, rfl, rfl⟩
  next hlong =>
  have hcode : ((a.client.take (beNat (a.client.take 4))).drop 4).take 4 =
      ((b.client.take (beNat (a.client.take 4))).drop 4).take 4 :=
    ((h.takeBoth _).mono (m := 4 + 4) (by omega)).drop.take
  rw [← hcode]
  split
  · exact ⟨_, _, rfl, rfl⟩
  split
  · exact ⟨_, _, rfl, rfl⟩
  split
  · exact ⟨_, _, rfl, rfl⟩
  next hcancel =>
    -- Every other frame is shown as a whole.
    have hshown : beNat (a.client.take 4) ≤ shownStartup a.client := by
      have hfour : ((a.client.take (beNat (a.client.take 4))).drop 4).take 4 =
          (a.client.drop 4).take 4 := by
        rw [drop_take, take_take, Nat.min_eq_left (by omega)]
      rw [hfour] at hcancel
      rw [shownStartup, if_neg fun hc => hcancel hc.2]
      exact Nat.le_max_right _ _
    rw [← h.take_eq hshown]
    split
    · exact ⟨_, _, rfl, rfl⟩
    · exact ⟨_, _, rfl, rfl⟩

/-- An encryption response is taken off both buffers, and it gives the same. -/
theorem stepEncryptionResponse_agree (h : Agree 1 a.server b.server) :
    ∃ n step, a.stepEncryptionResponse = ({ a with server := a.server.drop n }, step) ∧
      b.stepEncryptionResponse = ({ b with server := b.server.drop n }, step) := by
  obtain ⟨maxBody, client, server, phase⟩ := a
  obtain ⟨maxBody', client', server', phase'⟩ := b
  simp only at h
  cases server with
  | nil =>
    rw [length_eq_zero_iff.mp h.length.symm]
    exact ⟨0, .needMore, rfl, rfl⟩
  | cons response rest =>
    cases server' with
    | nil => cases h.length
    | cons response' rest' =>
      obtain rfl : response = response' := (List.cons.inj h.take).1
      refine ⟨1, (stepEncryptionResponse ⟨maxBody, client, response :: rest, phase⟩).2, ?_, ?_⟩
      · simp only [stepEncryptionResponse]
        split
        all_goals rfl
      · simp only [stepEncryptionResponse]
        split
        all_goals rfl

/-- Decoders whose buffers agree on what the step may depend on take the same step. -/
theorem step_agree {d : Direction} (hphase : a.phase = b.phase) (hmax : a.maxBody = b.maxBody)
    (h : Agree (a.shown d) (a.buffer d) (b.buffer d)) :
    ∃ n step, a.step d = (a.setBuffer d ((a.buffer d).drop n), step) ∧
      b.step d = (b.setBuffer d ((b.buffer d).drop n), step) := by
  have hidle : ∃ n step, (a, Step.needMore) = (a.setBuffer d ((a.buffer d).drop n), step) ∧
      (b, Step.needMore) = (b.setBuffer d ((b.buffer d).drop n), step) :=
    ⟨0, .needMore, by simp, by simp⟩
  have htyped : a.phase = .typed → ∃ n step, a.stepTyped d =
      (a.setBuffer d ((a.buffer d).drop n), step) ∧
        b.stepTyped d = (b.setBuffer d ((b.buffer d).drop n), step) := by
    intro hp
    have hshown : a.shown d = shownTyped d (a.buffer d) := by
      cases d with
      | clientToServer => simp [shown, hp]
      | serverToClient => simp [shown, hp]
    rw [hshown] at h
    obtain ⟨n, step, ha, hb⟩ := typedFrame_agree h a.maxBody
    rw [stepTyped, stepTyped, ← hmax, ha, hb]
    exact ⟨n, step, rfl, rfl⟩
  cases hp : a.phase with
  | startup =>
    cases d with
    | clientToServer =>
      simp only [step, ← hphase, hp]
      simp only [shown, hp] at h
      exact stepStartup_agree h
    | serverToClient =>
      simp only [step, ← hphase, hp]
      exact hidle
  | awaitingEncryptionResponse =>
    cases d with
    | clientToServer =>
      simp only [step, ← hphase, hp]
      exact hidle
    | serverToClient =>
      simp only [step, ← hphase, hp]
      simp only [shown, hp] at h
      exact stepEncryptionResponse_agree h
  | typed =>
    have hboth := htyped hp
    cases d with
    | clientToServer =>
      simp only [step, ← hphase, hp]
      exact hboth
    | serverToClient =>
      simp only [step, ← hphase, hp]
      exact hboth
  | opaqueTraffic =>
    cases d with
    | clientToServer =>
      simp only [step, ← hphase, hp]
      exact hidle
    | serverToClient =>
      simp only [step, ← hphase, hp]
      exact hidle

end PostgresDecoder

/-! ## Two runs side by side -/

namespace PostgresDecoder

def call (s : PostgresDecoder) : Call → PostgresDecoder × DecodeBatch
  | .push d bytes => s.push d bytes
  | .finish d => s.finish d

/-- What a sequence of calls returns. -/
def batches : PostgresDecoder → List Call → List DecodeBatch
  | _, [] => []
  | s, c :: cs => (s.call c).2 :: batches (s.call c).1 cs

end PostgresDecoder

/-- One byte of each of two runs. -/
abbrev Twin := UInt8 × UInt8

/-- A call of each of two runs, with the same direction and length. -/
inductive TwinCall where
  | push (direction : Direction) (bytes : List Twin)
  | finish (direction : Direction)

namespace TwinCall

def left : TwinCall → Call
  | push d bytes => .push d (bytes.map Prod.fst)
  | finish d => .finish d

def right : TwinCall → Call
  | push d bytes => .push d (bytes.map Prod.snd)
  | finish d => .finish d

end TwinCall

/-- The decoders of two runs in one phase. -/
structure Twins where
  maxBody : Nat
  client : List Twin
  server : List Twin
  phase : Phase

namespace Twins

def new (maxBody : Nat) : Twins where
  maxBody := maxBody
  client := []
  server := []
  phase := .startup

def left (t : Twins) : PostgresDecoder :=
  ⟨t.maxBody, t.client.map Prod.fst, t.server.map Prod.fst, t.phase⟩

def right (t : Twins) : PostgresDecoder :=
  ⟨t.maxBody, t.client.map Prod.snd, t.server.map Prod.snd, t.phase⟩

def buffer (t : Twins) : Direction → List Twin
  | .clientToServer => t.client
  | .serverToClient => t.server

def setBuffer (t : Twins) (d : Direction) (bytes : List Twin) : Twins :=
  match d with
  | .clientToServer => { t with client := bytes }
  | .serverToClient => { t with server := bytes }

/-- The twins after the left decoder went on to `s`: what it took off its buffers is
taken off both. -/
def advance (t : Twins) (s : PostgresDecoder) : Twins where
  maxBody := t.maxBody
  client := t.client.drop (t.client.length - s.client.length)
  server := t.server.drop (t.server.length - s.server.length)
  phase := s.phase

/-- The frame at the front of a buffer differs in its never retained part only. -/
def agrees (t : Twins) (d : Direction) : Bool :=
  ((t.buffer d).take (t.left.shown d)).all fun p => p.1 == p.2

/-- The loop of a push, and whether every frame it looked at agrees. -/
def loop (d : Direction) : Nat → Twins → Twins × Bool
  | 0, t => (t, true)
  | n + 1, t =>
    match PostgresDecoder.turn d t.left with
    | .again s _ => ((loop d n (t.advance s)).1, t.agrees d && (loop d n (t.advance s)).2)
    | .stop s _ => (t.advance s, t.agrees d)

def goOpaque (t : Twins) : Twins :=
  { t with client := [], server := [], phase := .opaqueTraffic }

def push (t : Twins) (d : Direction) (bytes : List Twin) : Twins × Bool :=
  if t.phase = .opaqueTraffic then (t, true)
  else
    let t := t.setBuffer d (t.buffer d ++ bytes)
    if maxFrameBytes + 5 < (t.buffer d).length then (t.goOpaque, true)
    else loop d ((t.buffer d).length + 1) t

/-- In a sequence of calls, every frame that a turn looks at differs in its never
retained part only. -/
def onlySecretsDiffer : Twins → List TwinCall → Bool
  | _, [] => true
  | t, .push d bytes :: cs => (t.push d bytes).2 && onlySecretsDiffer (t.push d bytes).1 cs
  | t, .finish d :: cs => onlySecretsDiffer (t.setBuffer d []) cs

/-! ### The two decoders of a pair -/

section Views

variable (t : Twins) (d)

theorem left_buffer : t.left.buffer d = (t.buffer d).map Prod.fst := by
  cases d with
  | clientToServer => rfl
  | serverToClient => rfl

theorem right_buffer : t.right.buffer d = (t.buffer d).map Prod.snd := by
  cases d with
  | clientToServer => rfl
  | serverToClient => rfl

theorem left_setBuffer (x : List Twin) :
    (t.setBuffer d x).left = t.left.setBuffer d (x.map Prod.fst) := by
  cases d with
  | clientToServer => rfl
  | serverToClient => rfl

theorem right_setBuffer (x : List Twin) :
    (t.setBuffer d x).right = t.right.setBuffer d (x.map Prod.snd) := by
  cases d with
  | clientToServer => rfl
  | serverToClient => rfl

/-- Both decoders took `n` bytes off a buffer. -/
def took (n : Nat) : Twins := t.setBuffer d ((t.buffer d).drop n)

theorem left_took (n : Nat) :
    (t.took d n).left = t.left.setBuffer d ((t.left.buffer d).drop n) := by
  rw [took, left_setBuffer, map_drop, left_buffer]

theorem right_took (n : Nat) :
    (t.took d n).right = t.right.setBuffer d ((t.right.buffer d).drop n) := by
  rw [took, right_setBuffer, map_drop, right_buffer]

/-- The twins follow the left decoder. -/
theorem advance_took (n : Nat) (phase : Phase) :
    t.advance { (t.took d n).left with phase := phase } = { t.took d n with phase := phase } := by
  have hdrop : ∀ x : List Twin, x.drop (x.length - (x.length - n)) = x.drop n := by
    intro x
    rcases Nat.le_total n x.length with hn | hn
    · rw [Nat.sub_sub_self hn]
    · rw [Nat.sub_eq_zero_of_le hn, Nat.sub_zero, drop_length, drop_of_length_le hn]
  cases d with
  | clientToServer => simp [advance, left, took, setBuffer, buffer, hdrop]
  | serverToClient => simp [advance, left, took, setBuffer, buffer, hdrop]

theorem advance_goOpaque : t.advance t.left.goOpaque = t.goOpaque := by
  simp [advance, goOpaque, PostgresDecoder.goOpaque]

theorem agree_of_agrees {t : Twins} {d : Direction} (h : t.agrees d = true) :
    Agree (t.left.shown d) (t.left.buffer d) (t.right.buffer d) where
  length := by rw [left_buffer, right_buffer, length_map, length_map]
  take := by
    rw [agrees, all_eq_true] at h
    rw [left_buffer, right_buffer, ← map_take, ← map_take]
    refine map_congr_left ?_
    intro p hp
    exact beq_iff_eq.mp (h p hp)

end Views

/-! ### Turns and calls of a pair -/

/-- What the two decoders of a pair do in one turn: the same, on to the pair `u`. -/
inductive SameTurn (t : Twins) (d : Direction) : Prop where
  | again (u : Twins) (b : DecodeBatch) (left : PostgresDecoder.turn d t.left = .again u.left b)
      (right : PostgresDecoder.turn d t.right = .again u.right b) (next : t.advance u.left = u)
  | stop (u : Twins) (b : DecodeBatch) (left : PostgresDecoder.turn d t.left = .stop u.left b)
      (right : PostgresDecoder.turn d t.right = .stop u.right b) (next : t.advance u.left = u)

/-- Where the front frames agree, both decoders take the same turn. -/
theorem sameTurn {t : Twins} (h : t.agrees d = true) : t.SameTurn d := by
  obtain ⟨n, step, hleft, hright⟩ :=
    PostgresDecoder.step_agree (a := t.left) (b := t.right) rfl rfl (agree_of_agrees h)
  rw [← left_took] at hleft
  rw [← right_took] at hright
  have hnext := t.advance_took d n
  have hopaque : (t.took d n).left.goOpaque = t.left.goOpaque := by
    rw [left_took, PostgresDecoder.goOpaque_setBuffer]
  have hopaque' : (t.took d n).right.goOpaque = t.left.goOpaque := by
    rw [right_took, PostgresDecoder.goOpaque_setBuffer]
    rfl
  cases step with
  | needMore =>
    refine .stop (t.took d n) .needMore ?_ ?_ (hnext (t.took d n).phase)
    · rw [PostgresDecoder.turn, hleft]
    · rw [PostgresDecoder.turn, hright]
  | message m =>
    refine .again (t.took d n) ⟨[m], none⟩ ?_ ?_ (hnext (t.took d n).phase)
    · rw [PostgresDecoder.turn, hleft]
    · rw [PostgresDecoder.turn, hright]
  | messageAndPhase m phase =>
    by_cases hp : phase = .opaqueTraffic
    · refine .stop t.goOpaque ⟨[m], none⟩ ?_ ?_ t.advance_goOpaque
      · simp only [PostgresDecoder.turn, hleft, hp, if_true, hopaque]
        rfl
      · simp only [PostgresDecoder.turn, hright, hp, if_true, hopaque']
        rfl
    · refine .again { t.took d n with phase := phase } ⟨[m], none⟩ ?_ ?_ (hnext phase)
      · simp only [PostgresDecoder.turn, hleft, hp, if_false]
        rfl
      · simp only [PostgresDecoder.turn, hright, hp, if_false]
        rfl
  | desynchronized reason =>
    refine .stop t.goOpaque ⟨[], some reason⟩ ?_ ?_ t.advance_goOpaque
    · simp only [PostgresDecoder.turn, hleft, hopaque]
      rfl
    · simp only [PostgresDecoder.turn, hright, hopaque']
      rfl

/-- A loop whose frames agree is the same loop in both runs. -/
theorem loop_same (d : Direction) : ∀ (n : Nat) (t : Twins), (loop d n t).2 = true →
    ∃ b, Stream.drive (PostgresDecoder.turn d) n t.left = ((loop d n t).1.left, b) ∧
      Stream.drive (PostgresDecoder.turn d) n t.right = ((loop d n t).1.right, b) := by
  intro n
  induction n with
  | zero =>
    intro t _
    exact ⟨_, rfl, rfl⟩
  | succ n ih =>
    intro t h
    have hagrees : t.agrees d = true := by
      rw [loop] at h
      split at h
      · exact (Bool.and_eq_true_iff.mp h).1
      · exact h
    rw [Stream.drive_succ, Stream.drive_succ]
    cases sameTurn hagrees with
    | again u b hleft hright hnext =>
      simp only [loop, hleft, hnext] at h ⊢
      rw [Bool.and_eq_true] at h
      obtain ⟨c, hl, hr⟩ := ih u h.2
      simp only [hright, Stream.resume, hl, hr]
      exact ⟨_, rfl, rfl⟩
    | stop u b hleft hright hnext =>
      simp only [loop, hleft, hright, hnext, Stream.resume]
      exact ⟨_, rfl, rfl⟩

/-- A push whose frames agree returns the same in both runs. -/
theorem push_same {t : Twins} {bytes : List Twin} (h : (t.push d bytes).2 = true) :
    ∃ b, t.left.push d (bytes.map Prod.fst) = ((t.push d bytes).1.left, b) ∧
      t.right.push d (bytes.map Prod.snd) = ((t.push d bytes).1.right, b) := by
  have hfeed : PostgresDecoder.feed d t.left (bytes.map Prod.fst) =
      (t.setBuffer d (t.buffer d ++ bytes)).left := by
    rw [PostgresDecoder.feed, left_setBuffer, left_buffer, map_append]
  have hfeed' : PostgresDecoder.feed d t.right (bytes.map Prod.snd) =
      (t.setBuffer d (t.buffer d ++ bytes)).right := by
    rw [PostgresDecoder.feed, right_setBuffer, right_buffer, map_append]
  have hlen : ∀ u : Twins, (u.left.buffer d).length = (u.buffer d).length := by
    intro u
    rw [left_buffer, length_map]
  have hlen' : ∀ u : Twins, (u.right.buffer d).length = (u.buffer d).length := by
    intro u
    rw [right_buffer, length_map]
  rw [push] at h ⊢
  rw [PostgresDecoder.push, PostgresDecoder.push, PostgresDecoder.process, PostgresDecoder.process]
  by_cases hopaque : t.phase = .opaqueTraffic
  · have hl : t.left.phase = .opaqueTraffic := hopaque
    have hr : t.right.phase = .opaqueTraffic := hopaque
    rw [if_pos hopaque, if_pos hl, if_pos hr]
    exact ⟨_, rfl, rfl⟩
  · have hl : ¬ t.left.phase = .opaqueTraffic := hopaque
    have hr : ¬ t.right.phase = .opaqueTraffic := hopaque
    rw [if_neg hopaque] at h ⊢
    rw [if_neg hl, if_neg hr, hfeed, hfeed']
    generalize t.setBuffer d (t.buffer d ++ bytes) = u at h ⊢
    simp only [hlen, hlen', PostgresDecoder.measure] at h ⊢
    split at h
    next hlarge =>
      simp only [if_pos hlarge]
      exact ⟨_, rfl, rfl⟩
    next hlarge =>
      simp only [if_neg hlarge]
      exact loop_same d _ _ h

/-- The end of a direction returns the same in both runs. -/
theorem finish_same (t : Twins) (d : Direction) :
    ∃ b, t.left.finish d = ((t.setBuffer d []).left, b) ∧
      t.right.finish d = ((t.setBuffer d []).right, b) := by
  have hlen : (t.left.buffer d).length = (t.right.buffer d).length := by
    rw [left_buffer, right_buffer, length_map, length_map]
  have hphase : (t.left.setBuffer d []).phase = (t.right.setBuffer d []).phase := by
    rw [PostgresDecoder.setBuffer_phase, PostgresDecoder.setBuffer_phase]
    rfl
  rw [left_setBuffer, right_setBuffer, PostgresDecoder.finish, PostgresDecoder.finish, hlen]
  simp only [hphase, map_nil]
  split
  · exact ⟨_, rfl, rfl⟩
  · exact ⟨_, rfl, rfl⟩

/-- Runs that differ in never retained bytes only return the same batches. -/
theorem batches_left_eq_right : ∀ (cs : List TwinCall) (t : Twins),
    t.onlySecretsDiffer cs = true →
      t.left.batches (cs.map TwinCall.left) = t.right.batches (cs.map TwinCall.right) := by
  intro cs
  induction cs with
  | nil =>
    intro t _
    rfl
  | cons c cs ih =>
    intro t h
    cases c with
    | push d bytes =>
      rw [onlySecretsDiffer, Bool.and_eq_true] at h
      obtain ⟨b, hl, hr⟩ := push_same h.1
      simp only [map_cons, PostgresDecoder.batches, TwinCall.left, TwinCall.right,
        PostgresDecoder.call, hl, hr, ih _ h.2]
    | finish d =>
      rw [onlySecretsDiffer] at h
      obtain ⟨b, hl, hr⟩ := finish_same t d
      simp only [map_cons, PostgresDecoder.batches, TwinCall.left, TwinCall.right,
        PostgresDecoder.call, hl, hr, ih _ h]

end Twins

/-- From a fresh decoder on, whatever is pushed in whatever fragments, never retained
bytes show nowhere. -/
theorem secrets_never_retained (maxBody : Nat) (cs : List TwinCall)
    (h : (Twins.new maxBody).onlySecretsDiffer cs = true) :
    (PostgresDecoder.new maxBody).batches (cs.map TwinCall.left) =
      (PostgresDecoder.new maxBody).batches (cs.map TwinCall.right) :=
  Twins.batches_left_eq_right cs (Twins.new maxBody) h

/-- The same byte in both runs. -/
def same (bytes : Bytes) : List Twin := bytes.map fun b => (b, b)

/-- A startup message, and a password message in two fragments with other passwords. -/
def passwordCalls : List TwinCall :=
  [.push .clientToServer (same [0, 0, 0, 16, 0, 3, 0, 0, 117, 115, 101, 114, 0, 97, 0, 0]),
    .push .clientToServer (same [112, 0, 0, 0, 7] ++ [(120, 121)]),
    .push .clientToServer [(49, 50), (0, 0)],
    .finish .clientToServer]

theorem password_never_retained :
    (PostgresDecoder.new 64).batches (passwordCalls.map TwinCall.left) =
      (PostgresDecoder.new 64).batches (passwordCalls.map TwinCall.right) :=
  secrets_never_retained 64 passwordCalls (by decide +kernel)

end Lens.Postgres
