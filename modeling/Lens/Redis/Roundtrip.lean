import Lens.Redis.Wire

/-!
# RESP streams

A turn of the decoder takes one value off its buffer or waits, and later input changes
neither (`lane_local`).  So values that are encoded one after another come out again
one by one, however the stream is cut (`RedisDecoder.pushAll_encode`).
-/

namespace Lens.Redis

open List
open Stream (Batch Feed Local Decreases Plain Settles Reads)

/-! ## Turns -/

section Lane

variable {direction : Direction} {maxBody : Nat} {buffer : Bytes} {rest : Bytes}
  {batch : DecodeBatch}

theorem laneTurn_nil : laneTurn direction maxBody [] = .stop [] .needMore := rfl

theorem laneTurn_complete {value : RespValue} {consumed : Nat}
    (h : parseValue maxNesting buffer = .complete value consumed) :
    laneTurn direction maxBody buffer =
      .again (buffer.drop consumed) ⟨[toMessage direction value maxBody], none⟩ := by
  cases buffer with
  | nil => cases h
  | cons b buffer => simp only [laneTurn, isEmpty_cons, Bool.false_eq_true, if_false, h]

/-- A turn that goes on has taken one value. -/
theorem laneTurn_again (h : laneTurn direction maxBody buffer = .again rest batch) :
    ∃ value consumed, parseValue maxNesting buffer = .complete value consumed ∧
      rest = buffer.drop consumed ∧ batch = ⟨[toMessage direction value maxBody], none⟩ := by
  rw [laneTurn] at h
  split at h
  · cases h
  split at h
  next value consumed hv =>
    cases h
    exact ⟨value, consumed, hv, rfl, rfl⟩
  next => split at h <;> cases h
  next => cases h

/-- A turn that stops without a report has taken nothing and waits. -/
theorem laneTurn_stop (h : laneTurn direction maxBody buffer = .stop rest batch)
    (hb : batch.desynchronized = none) : rest = buffer ∧ batch = .needMore := by
  rw [laneTurn] at h
  split at h
  · cases h
    exact ⟨rfl, rfl⟩
  split at h
  · cases h
  · split at h
    · cases h
      cases hb
    · cases h
      exact ⟨rfl, rfl⟩
  · cases h
    cases hb

/-- Input that is not decided yet is kept, up to the limit of the buffer. -/
theorem laneTurn_incomplete (h : parseValue maxNesting buffer = .incomplete)
    (hlen : buffer.length ≤ saturatingAdd maxBody frameOverheadBudget) :
    laneTurn direction maxBody buffer = .stop buffer .needMore := by
  cases buffer with
  | nil => rfl
  | cons b buffer =>
    simp only [laneTurn, isEmpty_cons, Bool.false_eq_true, if_false, h]
    rw [if_neg (Nat.not_lt.mpr hlen)]

variable (direction maxBody)

theorem lane_local : Local (laneTurn direction maxBody) Feed.list where
  again := by
    intro s t b h x
    obtain ⟨value, consumed, hv, rfl, rfl⟩ := laneTurn_again h
    have hsteady := framing_value maxNesting
    rw [Feed.list_feed, Feed.list_feed, laneTurn_complete (hsteady.append hv x),
      drop_append_of_le_length (hsteady.within hv)]
  stop := by
    intro s t h x
    rw [(laneTurn_stop h rfl).1]

theorem lane_decreases : Decreases (laneTurn direction maxBody) List.length := by
  intro s t b h
  obtain ⟨value, consumed, hv, rfl, rfl⟩ := laneTurn_again h
  have hpos := (framing_value maxNesting).takes hv
  have hle := (framing_value maxNesting).within hv
  rw [length_drop]
  omega

theorem lane_plain : Plain (laneTurn direction maxBody) :=
  fun _ _ _ h hb => (laneTurn_stop h hb).2

end Lane

/-! ## Pushes -/

namespace RedisDecoder

/-- The batches of a sequence of pushes to one direction, and the decoder after them. -/
def pushAll (s : RedisDecoder) (d : Direction) : List Bytes → RedisDecoder × List DecodeBatch
  | [] => (s, [])
  | x :: xs =>
    let r := s.push d x
    let rs := r.1.pushAll d xs
    (rs.1, r.2 :: rs.2)

variable (s : RedisDecoder) (d : Direction)

@[simp] theorem state_setState (buffer : Bytes) : (s.setState d buffer).state d = buffer := by
  cases d <;> rfl

@[simp] theorem maxBody_setState (buffer : Bytes) :
    (s.setState d buffer).maxBody = s.maxBody := by
  cases d <;> rfl

@[simp] theorem setState_setState (a b : Bytes) :
    (s.setState d a).setState d b = s.setState d b := by
  cases d <;> rfl

@[simp] theorem setState_state : s.setState d (s.state d) = s := by
  cases d <;> rfl

theorem push_eq (x : Bytes) : s.push d x =
      (s.setState d (Stream.push (laneTurn d s.maxBody) Feed.list List.length (s.state d) x).1,
        (Stream.push (laneTurn d s.maxBody) Feed.list List.length (s.state d) x).2) := by
  simp [push, decodeAvailable, Stream.push]

theorem pushAll_eq (d : Direction) : ∀ (xs : List Bytes) (s : RedisDecoder),
    s.pushAll d xs =
      (s.setState d (Stream.pushAll (laneTurn d s.maxBody) Feed.list List.length (s.state d) xs).1,
        (Stream.pushAll (laneTurn d s.maxBody) Feed.list List.length (s.state d) xs).2)
  | [], s => by simp [pushAll, Stream.pushAll]
  | x :: xs, s => by
    rw [pushAll, push_eq]
    simp only [pushAll_eq d xs, state_setState, maxBody_setState, setState_setState, Stream.pushAll]

/-- Pushes to both directions, with the batch of each. -/
def run (s : RedisDecoder) :
    List (Direction × Bytes) → RedisDecoder × List (Direction × DecodeBatch)
  | [] => (s, [])
  | (d, x) :: xs =>
    let r := s.push d x
    let rs := r.1.run xs
    (rs.1, (d, r.2) :: rs.2)

/-- The entries of a direction. -/
def own {α : Type} (d : Direction) (xs : List (Direction × α)) : List α :=
  (xs.filter (·.1 = d)).map Prod.snd

/-- A run does to a direction what its own pushes do. -/
theorem run_eq (d : Direction) : ∀ (xs : List (Direction × Bytes)) (s : RedisDecoder),
    ((s.run xs).1.state d, own d (s.run xs).2) =
      Stream.pushAll (laneTurn d s.maxBody) Feed.list length (s.state d) (own d xs)
  | [], s => rfl
  | (e, x) :: xs, s => by
    have hrest := run_eq d xs (s.push e x).1
    rw [push_eq, maxBody_setState] at hrest
    simp only [run, push_eq]
    by_cases he : e = d
    · subst he
      rw [state_setState, Prod.mk.injEq] at hrest
      simp_all [own, Stream.pushAll]
    · have hother (b : Bytes) : (s.setState e b).state d = s.state d := by
        cases d <;> cases e <;> first | rfl | exact absurd rfl he
      rw [hother] at hrest
      simpa [own, he] using hrest

/-- However the directions are cut and interleaved, if no push reports, each comes to what one
push of its bytes does. -/
theorem push_flatten_own (maxBody : Nat) (xs : List (Direction × Bytes))
    (hquiet : ∀ r ∈ ((new maxBody).run xs).2, r.2.desynchronized = none) (d : Direction) :
    (new maxBody).push d (own d xs).flatten =
      ((new maxBody).setState d (((new maxBody).run xs).1.state d),
        ⟨(own d ((new maxBody).run xs).2).flatMap Batch.messages, none⟩) := by
  have hempty : (new maxBody).state d = [] := by cases d <;> rfl
  have hrun := run_eq d xs (new maxBody)
  rw [hempty, show (new maxBody).maxBody = maxBody from rfl] at hrun
  have hsettles := (lane_plain d maxBody).settles_pushAll (lane_decreases d maxBody)
    (lane_local d maxBody).resumes (own d xs) [] [] .needMore (.stop laneTurn_nil) rfl
  rw [← hrun] at hsettles
  have hdrive := (hsettles ?_).drive (lane_decreases d maxBody) _ (Nat.lt_add_one _)
  · rw [push_eq, hempty]
    exact congrArg (fun r => ((new maxBody).setState d r.1, r.2)) hdrive
  · intro c hc
    obtain ⟨r, hr, rfl⟩ := mem_map.mp hc
    exact hquiet r (mem_filter.mp hr).1

theorem push_cut : ((new 8).push .clientToServer [43, 80, 13, 10]).2.desynchronized = none :=
  congrArg (·.2.desynchronized) (push_flatten_own 8 [(.clientToServer, [43, 80]),
    (.serverToClient, [43]), (.clientToServer, [13, 10])] (by decide +kernel) .clientToServer)

end RedisDecoder

/-! ## Encoded values -/

/-- A value whose frames the decoder takes and that is not nested too deeply. -/
structure Conformant (value : RespValue) : Prop where
  legal : ∀ f ∈ frames List.length value, f.Legal
  nesting : nesting value < maxNesting

section Encoded

variable {value : RespValue} (hlegal : ∀ f ∈ frames List.length value, f.Legal)
  (hlevels : levels value ≤ maxNesting) (hlen : (encode value).length < 2 ^ 63)
include hlegal hlevels hlen

/-- A proper prefix of an encoding is not decided. -/
theorem parseValue_part {p : Bytes} (hp : p <+: encode value) (hne : p ≠ encode value) :
    parseValue maxNesting p = .incomplete := by
  obtain ⟨rest, hrest⟩ := hp
  have hsteady := framing_value maxNesting
  have hwhole : parseValue maxNesting (p ++ rest) = .complete value (encode value).length := by
    have hfront := parseValue_encode hlegal hlen hlevels []
    rw [append_nil] at hfront
    rw [hrest, hfront]
  by_contra hdecided
  rw [hsteady.stands hdecided] at hwhole
  -- The answer would take the whole encoding from less than the whole.
  have hle := hsteady.within hwhole
  rw [← hrest, length_append] at hle
  have hnil : rest = [] := eq_nil_of_length_eq_zero (by omega)
  rw [hnil, append_nil] at hrest
  exact hne hrest

/-- The decoder reads one encoding whose proper prefixes fit the buffer. -/
theorem reads_encode (direction : Direction) {maxBody : Nat}
    (hfits : (encode value).length ≤ saturatingAdd maxBody frameOverheadBudget + 1) :
    Reads (laneTurn direction maxBody) Feed.list [] (encode value) []
      [toMessage direction value maxBody] := by
  refine Reads.of_stop ?_ ?_
  · intro p hp hne
    have hshort : p.length < (encode value).length :=
      Nat.lt_of_le_of_ne hp.length_le fun h => hne (hp.eq_of_length h)
    have hturn : laneTurn direction maxBody p = .stop p .needMore :=
      laneTurn_incomplete (parseValue_part hlegal hlevels hlen hp hne) (by omega)
    exact ⟨p, .needMore, .stop hturn, rfl⟩
  · have hfront := parseValue_encode hlegal hlen hlevels []
    rw [append_nil] at hfront
    have hturn := @laneTurn_complete direction maxBody _ _ _ hfront
    rw [drop_length] at hturn
    have hsettles := Settles.again hturn (.stop laneTurn_nil)
    rwa [Batch.seq_needMore] at hsettles

end Encoded

/-- Encodings that the decoder reads one by one it reads however their stream is cut. -/
theorem RedisDecoder.pushAll_reads (s : RedisDecoder) (d : Direction) (hs : s.state d = [])
    {values : List RespValue}
    (h : ∀ value ∈ values, Reads (laneTurn d s.maxBody) Feed.list [] (encode value) []
      [toMessage d value s.maxBody])
    {fragments : List Bytes} (hf : fragments.flatten = values.flatMap encode) :
    (s.pushAll d fragments).1.state d = [] ∧
      (s.pushAll d fragments).2.flatMap Batch.messages =
        values.map (toMessage d · s.maxBody) ∧
      ∀ batch ∈ (s.pushAll d fragments).2, batch.desynchronized = none := by
  have hlocal := (lane_local d s.maxBody).resumes
  obtain ⟨hstate, hmessages, hsilent⟩ := (Reads.flatMap hlocal laneTurn_nil h).pushAll
    (lane_decreases d s.maxBody) hlocal laneTurn_nil hf
  rw [← hs] at hstate hmessages hsilent
  rw [RedisDecoder.pushAll_eq]
  refine ⟨?_, ?_, hsilent⟩
  · rw [RedisDecoder.state_setState, hstate, hs]
  · rw [hmessages, ← map_eq_flatMap]

/-- Values that are encoded one after another come out one by one, however the stream is
cut.  Each encoding fits the buffer, and a slice has fewer than `2 ^ 63` bytes. -/
theorem RedisDecoder.pushAll_encode (s : RedisDecoder) (d : Direction) (hs : s.state d = [])
    (values : List RespValue) (h : ∀ value ∈ values, Conformant value ∧
      (encode value).length ≤ saturatingAdd s.maxBody frameOverheadBudget ∧
      (encode value).length < 2 ^ 63)
    (fragments : List Bytes) (hf : fragments.flatten = values.flatMap encode) :
    (s.pushAll d fragments).1.state d = [] ∧
      (s.pushAll d fragments).2.flatMap Batch.messages =
        values.map (toMessage d · s.maxBody) ∧
      ∀ batch ∈ (s.pushAll d fragments).2, batch.desynchronized = none := by
  refine s.pushAll_reads d hs (fun value hv => ?_) hf
  obtain ⟨hvalue, hfits, hlen⟩ := h value hv
  have hlevels := levels_le value
  have hnesting := hvalue.nesting
  exact reads_encode hvalue.legal (by omega) hlen d (by omega)

/-- A reply with a nested map. -/
def nestedReply : RespValue :=
  .array (some [.bulk (some [0x6b, 0x0d, 0x0a]), .map [.simple [0x61], .integer [0x37]], .null])

theorem nestedReply_pushAll :
    ((RedisDecoder.new 8).pushAll .serverToClient
        [(encode nestedReply).take 9, (encode nestedReply).drop 9 ++ encode (.bulk none)]).2.flatMap
          Batch.messages =
      [responseMessage nestedReply 8, responseMessage (.bulk none) 8] :=
  (RedisDecoder.pushAll_encode (RedisDecoder.new 8) .serverToClient rfl [nestedReply, .bulk none]
    (by
      have hlegal : ∀ value ∈ [nestedReply, .bulk none], (∀ f ∈ frames List.length value, f.Legal) ∧
          nesting value < maxNesting ∧ (encode value).length < 64 := by decide
      intro value hv
      obtain ⟨hframes, hdepth, hlen⟩ := hlegal value hv
      have hbudget : 64 ≤ saturatingAdd (RedisDecoder.new 8).maxBody frameOverheadBudget := by
        decide
      exact ⟨⟨hframes, hdepth⟩, by omega, by omega⟩)
    _ (by simp [← append_assoc])).2.1

end Lens.Redis
