import Lens.Http1.Decoder

/-!
# The steps of a direction

`Steps` says what a step of a direction can do, with one constructor for each way out of
`step` and of the phases of `consume_pending`.  It is the graph of the function
(`steps_iff`), so what holds of every step is read off its constructors: a step does not
look past the bytes it takes (`Steps.append`), a step that asks for more loses nothing of
what it has seen (`Steps.waits_append`), a step that goes on makes the measure smaller
(`Steps.measure_lt`), and a direction that waits holds only the bytes its phase allows
(`Steps.small`, in `Bounds`).
-/

namespace Lens.Http1

open List

/-- A step the loop goes on after. -/
def Step.GoesOn : Step → Prop
  | .progress => True
  | .message _ => True
  | _ => False

/-- What a step does.  A step that goes on takes a part off the front of the buffer. -/
inductive Steps (d : Direction) (maxBody : Nat) (responseToHead : Bool) :
    DirectionState → DirectionState × Step → Prop where
| head {h rest : Bytes} {parsed : ParsedHead} {r : DirectionState × Step} :
  Search.Delimits headEnd h →
  ParsedHead.parse h = .ok parsed →
  beginBody d responseToHead parsed rest = r →
  Steps d maxBody responseToHead ⟨h ++ headEnd ++ rest, none⟩ r
| headInvalid {h rest : Bytes} {reason : String} :
  Search.Delimits headEnd h →
  ParsedHead.parse h = .error reason →
  Steps d maxBody responseToHead ⟨h ++ headEnd ++ rest, none⟩ (⟨[], none⟩, .desynchronized reason)
| headWaits {buf : Bytes} :
  Search.find headEnd buf = none →
  buf.length ≤ maxHeadBytes →
  Steps d maxBody responseToHead ⟨buf, none⟩ (⟨buf, none⟩, .needMore)
| headTooLong {buf : Bytes} :
  Search.find headEnd buf = none →
  maxHeadBytes < buf.length →
  Steps d maxBody responseToHead ⟨buf, none⟩
    (⟨[], none⟩, .desynchronized "HTTP headers exceed 65536 bytes")
| fixed {w rest : Bytes} {m : DecodedMessage} :
  Steps d maxBody responseToHead ⟨w ++ rest, some (.fixed m w.length)⟩
    (⟨rest, none⟩, .message (capture m w maxBody))
| fixedWaits {buf : Bytes} {k : Nat} {m : DecodedMessage} :
  Steps d maxBody responseToHead ⟨buf, some (.fixed m (buf.length + (k + 1)))⟩
    (⟨[], some (.fixed (capture m buf maxBody) (k + 1))⟩, .needMore)
| untilEof {buf : Bytes} {m : DecodedMessage} :
  Steps d maxBody responseToHead ⟨buf, some (.untilEof m)⟩
    (⟨[], some (.untilEof (capture m buf maxBody))⟩, .needMore)
| size {line rest : Bytes} {text : String} {n : Nat} {m : DecodedMessage} :
  Search.Delimits crlf line →
  Utf8.fromUtf8 line = some text →
  chunkSize text = some n →
  Steps d maxBody responseToHead ⟨line ++ crlf ++ rest, some (.chunked m .size)⟩
    (⟨rest, some (.chunked m (if n = 0 then .trailers else .data n))⟩, .progress)
| sizeNotText {line rest : Bytes} {m : DecodedMessage} :
  Search.Delimits crlf line →
  Utf8.fromUtf8 line = none →
  Steps d maxBody responseToHead ⟨line ++ crlf ++ rest, some (.chunked m .size)⟩
    (⟨[], none⟩, .desynchronized "HTTP chunk-size line is not ASCII")
| sizeInvalid {line rest : Bytes} {text : String} {m : DecodedMessage} :
  Search.Delimits crlf line →
  Utf8.fromUtf8 line = some text →
  chunkSize text = none →
  Steps d maxBody responseToHead ⟨line ++ crlf ++ rest, some (.chunked m .size)⟩
    (⟨[], none⟩, .desynchronized "invalid HTTP chunk size")
| sizeWaits {buf : Bytes} {m : DecodedMessage} :
  Search.find crlf buf = none →
  buf.length ≤ maxChunkLineBytes →
  Steps d maxBody responseToHead ⟨buf, some (.chunked m .size)⟩
    (⟨buf, some (.chunked m .size)⟩, .needMore)
| sizeTooLong {buf : Bytes} {m : DecodedMessage} :
  Search.find crlf buf = none →
  maxChunkLineBytes < buf.length →
  Steps d maxBody responseToHead ⟨buf, some (.chunked m .size)⟩
    (⟨[], none⟩, .desynchronized "HTTP chunk-size line exceeds 1024 bytes")
| data {w rest : Bytes} {m : DecodedMessage} :
  Steps d maxBody responseToHead ⟨w ++ rest, some (.chunked m (.data w.length))⟩
    (⟨rest, some (.chunked (capture m w maxBody) .dataCrlf)⟩, .progress)
| dataWaits {buf : Bytes} {k : Nat} {m : DecodedMessage} :
  Steps d maxBody responseToHead ⟨buf, some (.chunked m (.data (buf.length + (k + 1))))⟩
    (⟨[], some (.chunked (capture m buf maxBody) (.data (k + 1)))⟩, .needMore)
| dataCrlf {rest : Bytes} {m : DecodedMessage} :
  Steps d maxBody responseToHead ⟨crlf ++ rest, some (.chunked m .dataCrlf)⟩
    (⟨rest, some (.chunked m .size)⟩, .progress)
| dataCrlfWaits {buf : Bytes} {m : DecodedMessage} :
  buf.length < 2 →
  Steps d maxBody responseToHead ⟨buf, some (.chunked m .dataCrlf)⟩
    (⟨buf, some (.chunked m .dataCrlf)⟩, .needMore)
| dataCrlfMissing {buf : Bytes} {m : DecodedMessage} :
  2 ≤ buf.length →
  ¬crlf <+: buf →
  Steps d maxBody responseToHead ⟨buf, some (.chunked m .dataCrlf)⟩
    (⟨[], none⟩, .desynchronized "HTTP chunk data is missing CRLF")
| noTrailers {rest : Bytes} {m : DecodedMessage} :
  Steps d maxBody responseToHead ⟨crlf ++ rest, some (.chunked m .trailers)⟩
    (⟨rest, none⟩, .message m)
| trailers {t rest : Bytes} {m : DecodedMessage} :
  ¬crlf <+: t ++ headEnd →
  Search.Delimits headEnd t →
  Steps d maxBody responseToHead ⟨t ++ headEnd ++ rest, some (.chunked m .trailers)⟩
    (⟨rest, none⟩, .message m)
| trailersWait {buf : Bytes} {m : DecodedMessage} :
  ¬crlf <+: buf →
  Search.find headEnd buf = none →
  buf.length ≤ maxHeadBytes →
  Steps d maxBody responseToHead ⟨buf, some (.chunked m .trailers)⟩
    (⟨buf, some (.chunked m .trailers)⟩, .needMore)
| trailersTooLong {buf : Bytes} {m : DecodedMessage} :
  ¬crlf <+: buf →
  Search.find headEnd buf = none →
  maxHeadBytes < buf.length →
  Steps d maxBody responseToHead ⟨buf, some (.chunked m .trailers)⟩
    (⟨[], none⟩, .desynchronized "HTTP chunk trailers exceed 65536 bytes")

/-! ## After a head -/

/-- The bodies a head opens. -/
inductive Opens : (DecodedMessage → PendingBody) → Prop where
| fixed (n : Nat) : Opens (.fixed · n)
| chunked : Opens (.chunked · .size)
| untilEof : Opens .untilEof

theorem Opens.intoMessage {body : DecodedMessage → PendingBody} (h : Opens body)
    (m : DecodedMessage) : (body m).intoMessage = m := by
  cases h <;> rfl

/-- A head completes its message or opens a body, whatever the headers and what follows. -/
theorem beginBody_cases (d : Direction) (responseToHead : Bool) (parsed : ParsedHead) :
    (∀ headers rest, beginBody d responseToHead { parsed with headers } rest =
      (⟨rest, none⟩, .message ⟨d, parsed.startLine, headers, [], false⟩)) ∨
    ∃ body, Opens body ∧ ∀ headers rest, beginBody d responseToHead { parsed with headers } rest =
      (⟨rest, some (body ⟨d, parsed.startLine, headers, [], false⟩)⟩, .progress) := by
  by_cases hno : (responseToHead || parsed.noBodyStatus) = true
  · exact .inl fun _ _ => if_pos hno
  by_cases hchunked : parsed.chunked = true
  · exact .inr ⟨_, .chunked, fun _ _ => (if_neg hno).trans (if_pos hchunked)⟩
  have hrest : ∀ headers rest, beginBody d responseToHead { parsed with headers } rest = _ :=
    fun _ _ => (if_neg hno).trans (if_neg hchunked)
  simp only [hrest]
  cases parsed.contentLength with
  | some n =>
    by_cases hn : n = 0
    · exact .inl fun _ _ => if_pos hn
    · exact .inr ⟨_, .fixed n, fun _ _ => if_neg hn⟩
  | none =>
    by_cases hresponse : parsed.isResponse = true
    · exact .inr ⟨_, .untilEof, fun _ _ => if_pos hresponse⟩
    · exact .inl fun _ _ => if_neg hresponse

section Begun

variable {d : Direction} {responseToHead : Bool} {parsed : ParsedHead} {rest : Bytes}
  {t : DirectionState} {step : Step}

/-- What a head leaves: the rest of the buffer, with the empty message it opens. -/
theorem beginBody_begun (h : beginBody d responseToHead parsed rest = (t, step)) :
    (t = ⟨rest, none⟩ ∧ step = .message ⟨d, parsed.startLine, parsed.headers, [], false⟩) ∨
      ∃ body, Opens body ∧ step = .progress ∧
        t = ⟨rest, some (body ⟨d, parsed.startLine, parsed.headers, [], false⟩)⟩ := by
  obtain hbegin | ⟨body, hbody, hbegin⟩ := beginBody_cases d responseToHead parsed
  · cases h.symm.trans (hbegin parsed.headers rest)
    exact .inl ⟨rfl, rfl⟩
  · cases h.symm.trans (hbegin parsed.headers rest)
    exact .inr ⟨body, hbody, rfl, rfl⟩

/-- A head is followed by a message or by its body. -/
theorem beginBody_goesOn (h : beginBody d responseToHead parsed rest = (t, step)) :
    step.GoesOn := by
  obtain ⟨-, rfl⟩ | ⟨-, -, rfl, -⟩ := beginBody_begun h
  · trivial
  · trivial

theorem beginBody_buffer (h : beginBody d responseToHead parsed rest = (t, step)) :
    t.buffer = rest := by
  obtain ⟨rfl, -⟩ | ⟨-, -, -, rfl⟩ := beginBody_begun h
  · rfl
  · rfl

theorem beginBody_append (h : beginBody d responseToHead parsed rest = (t, step))
    (x : Bytes) :
    beginBody d responseToHead parsed (rest ++ x) = (⟨rest ++ x, t.pending⟩, step) := by
  obtain hbegin | ⟨body, -, hbegin⟩ := beginBody_cases d responseToHead parsed
  · cases h.symm.trans (hbegin parsed.headers rest)
    exact hbegin parsed.headers (rest ++ x)
  · cases h.symm.trans (hbegin parsed.headers rest)
    exact hbegin parsed.headers (rest ++ x)

end Begun

section Steps

variable {s t : DirectionState}

variable {d : Direction} {maxBody : Nat} {responseToHead : Bool}

/-! ## The graph of the function -/

theorem step_of_find {buf : Bytes} {stop : Nat} (h : Search.find headEnd buf = some stop) :
    DirectionState.step ⟨buf, none⟩ d maxBody responseToHead =
      afterHead d responseToHead (ParsedHead.parse (buf.take stop)) (buf.drop (stop + 4)) := by
  simp only [DirectionState.step, h]

/-- Each way out is what the function computes. -/
theorem Steps.step_eq {r : DirectionState × Step}
    (h : Steps d maxBody responseToHead s r) : s.step d maxBody responseToHead = r := by
  have hdrop4 : ∀ w rest : Bytes, (w ++ headEnd ++ rest).drop (w.length + 4) = rest := by
    intro w rest
    rw [show w.length + 4 = (w ++ headEnd).length by simp [headEnd], drop_left]
  have hdrop2 : ∀ w rest : Bytes, (w ++ crlf ++ rest).drop (w.length + 2) = rest := by
    intro w rest
    rw [show w.length + 2 = (w ++ crlf).length by simp [crlf], drop_left]
  have htake : ∀ w needle rest : Bytes, (w ++ needle ++ rest).take w.length = w := by simp
  cases h with
  | head hend hparse hr =>
    rw [step_of_find (hend.find _), htake, hdrop4, hparse]
    exact hr
  | headInvalid hend hparse =>
    rw [step_of_find (hend.find _), htake, hdrop4, hparse]
    rfl
  | headWaits hfind hlen => simp [DirectionState.step, hfind, Nat.not_lt.mpr hlen]
  | headTooLong hfind hlen => simp [DirectionState.step, hfind, hlen]
  | fixed => simp [DirectionState.step, consumePending]
  | fixedWaits => simp [DirectionState.step, consumePending]
  | untilEof => rfl
  | size hend htext hsize =>
    simp only [DirectionState.step, consumePending, stepChunked, hend.find, htake, hdrop2, htext,
      hsize]
  | sizeNotText hend htext =>
    simp only [DirectionState.step, consumePending, stepChunked, hend.find, htake, htext]
  | sizeInvalid hend htext hsize =>
    simp only [DirectionState.step, consumePending, stepChunked, hend.find, htake, htext, hsize]
  | sizeWaits hfind hlen =>
    simp [DirectionState.step, consumePending, stepChunked, hfind, Nat.not_lt.mpr hlen]
  | sizeTooLong hfind hlen => simp [DirectionState.step, consumePending, stepChunked, hfind, hlen]
  | data => simp [DirectionState.step, consumePending, stepChunked]
  | dataWaits => simp [DirectionState.step, consumePending, stepChunked]
  | dataCrlf => simp [DirectionState.step, consumePending, stepChunked, crlf]
  | dataCrlfWaits hlen => simp [DirectionState.step, consumePending, stepChunked, hlen]
  | dataCrlfMissing hlen hp =>
    rename_i buf m
    have hne : buf.take 2 ≠ crlf := fun heq => hp (heq ▸ take_prefix 2 buf)
    simp [DirectionState.step, consumePending, stepChunked, Nat.not_lt.mpr hlen, hne]
  | noTrailers =>
    simp [DirectionState.step, consumePending, stepChunked, crlf]
  | trailers hp hend =>
    rename_i t rest m
    have hnot : crlf.isPrefixOf (t ++ headEnd ++ rest) = false := by
      rw [Search.isPrefixOf_append_of_le rest (by simp [crlf, headEnd])]
      simpa [← isPrefixOf_iff_prefix] using hp
    simp only [DirectionState.step, consumePending, stepChunked, hnot, hend.find, hdrop4,
      Bool.false_eq_true, ↓reduceIte]
  | trailersWait hp hfind hlen =>
    simp [DirectionState.step, consumePending, stepChunked, hp, hfind, Nat.not_lt.mpr hlen]
  | trailersTooLong hp hfind hlen =>
    simp [DirectionState.step, consumePending, stepChunked, hp, hfind, hlen]

/-- Every state has a way out. -/
theorem exists_steps (s : DirectionState) : ∃ r, Steps d maxBody responseToHead s r := by
  obtain ⟨buf, _ | pending⟩ := s
  · cases hfind : Search.find headEnd buf with
    | none =>
      rcases Nat.lt_or_ge maxHeadBytes buf.length with hlong | hshort
      · exact ⟨_, .headTooLong hfind hlong⟩
      · exact ⟨_, .headWaits hfind hshort⟩
    | some stop =>
      obtain ⟨h, rest, rfl, rfl, hend⟩ := Search.delimits_of_find hfind
      cases hparse : ParsedHead.parse h with
      | error reason => exact ⟨_, .headInvalid hend hparse⟩
      | ok parsed => exact ⟨_, .head hend hparse rfl⟩
  rcases pending with ⟨m, n⟩ | ⟨m, phase⟩ | m
  · obtain ⟨w, rest, rfl, rfl⟩ | ⟨k, rfl⟩ := Search.split_or_short n buf
    · exact ⟨_, .fixed⟩
    · exact ⟨_, .fixedWaits⟩
  · cases phase with
    | size =>
      cases hfind : Search.find crlf buf with
      | none =>
        rcases Nat.lt_or_ge maxChunkLineBytes buf.length with hlong | hshort
        · exact ⟨_, .sizeTooLong hfind hlong⟩
        · exact ⟨_, .sizeWaits hfind hshort⟩
      | some stop =>
        obtain ⟨line, rest, rfl, rfl, hline⟩ := Search.delimits_of_find hfind
        cases htext : Utf8.fromUtf8 line with
        | none => exact ⟨_, .sizeNotText hline htext⟩
        | some text =>
          cases hsize : chunkSize text with
          | none => exact ⟨_, .sizeInvalid hline htext hsize⟩
          | some n => exact ⟨_, .size hline htext hsize⟩
    | data n =>
      obtain ⟨w, rest, rfl, rfl⟩ | ⟨k, rfl⟩ := Search.split_or_short n buf
      · exact ⟨_, .data⟩
      · exact ⟨_, .dataWaits⟩
    | dataCrlf =>
      rcases Nat.lt_or_ge buf.length 2 with hshort | hlong
      · exact ⟨_, .dataCrlfWaits hshort⟩
      by_cases hp : crlf <+: buf
      · obtain ⟨rest, rfl⟩ := hp
        exact ⟨_, .dataCrlf⟩
      · exact ⟨_, .dataCrlfMissing hlong hp⟩
    | trailers =>
      by_cases hp : crlf <+: buf
      · obtain ⟨rest, rfl⟩ := hp
        exact ⟨_, .noTrailers⟩
      cases hfind : Search.find headEnd buf with
      | none =>
        rcases Nat.lt_or_ge maxHeadBytes buf.length with hlong | hshort
        · exact ⟨_, .trailersTooLong hp hfind hlong⟩
        · exact ⟨_, .trailersWait hp hfind hshort⟩
      | some stop =>
        obtain ⟨t, rest, rfl, rfl, ht⟩ := Search.delimits_of_find hfind
        exact ⟨_, .trailers (fun h => hp (h.trans (prefix_append ..))) ht⟩
  · exact ⟨_, .untilEof⟩

/-- A step is one of the ways out. -/
theorem steps_step (s : DirectionState) :
    Steps d maxBody responseToHead s (s.step d maxBody responseToHead) := by
  obtain ⟨r, h⟩ := @exists_steps d maxBody responseToHead s
  rwa [h.step_eq]

theorem consumePending_steps (buf : Bytes) (pending : PendingBody) :
    Steps d maxBody responseToHead ⟨buf, some pending⟩ (consumePending buf maxBody pending) :=
  steps_step ⟨buf, some pending⟩

/-! ## Longer buffers -/

def DirectionState.append (s : DirectionState) (x : Bytes) : DirectionState :=
  { s with buffer := s.buffer ++ x }

/-- A step that goes on does not look past what it takes. -/
theorem Steps.append {step : Step} (h : Steps d maxBody responseToHead s (t, step))
    (hgo : step.GoesOn) (x : Bytes) :
    Steps d maxBody responseToHead (s.append x) (t.append x, step) := by
  cases h with
  | head hend hparse hr =>
    simp only [DirectionState.append, append_assoc _ _ x]
    rw [beginBody_buffer hr]
    exact .head hend hparse (beginBody_append hr x)
  | fixed =>
    simp only [DirectionState.append, append_assoc _ _ x]
    exact .fixed
  | size hend htext hsize =>
    simp only [DirectionState.append, append_assoc _ _ x]
    exact .size hend htext hsize
  | data =>
    simp only [DirectionState.append, append_assoc _ _ x]
    exact .data
  | dataCrlf =>
    simp only [DirectionState.append, append_assoc _ _ x]
    exact .dataCrlf
  | noTrailers =>
    simp only [DirectionState.append, append_assoc _ _ x]
    exact .noTrailers
  | trailers hp hend =>
    simp only [DirectionState.append, append_assoc _ _ x]
    exact .trailers hp hend
  | headInvalid | headTooLong | sizeNotText | sizeInvalid | sizeTooLong | dataCrlfMissing
  | trailersTooLong | headWaits | fixedWaits | untilEof | sizeWaits | dataWaits | dataCrlfWaits
  | trailersWait => exact hgo.elim

/-- A step that goes on makes the measure smaller. -/
theorem Steps.measure_lt {step : Step} (h : Steps d maxBody responseToHead s (t, step))
    (hgo : step.GoesOn) : t.measure < s.measure := by
  cases h with
  | head hend hparse hr =>
    obtain ⟨rfl, -⟩ | ⟨body, hbody, -, rfl⟩ := beginBody_begun hr
    · simp [DirectionState.measure, headEnd]
      omega
    · cases hbody <;> simp [DirectionState.measure, headEnd] <;> omega
  | size =>
    split <;> simp [DirectionState.measure, crlf] <;> omega
  | fixed | data | noTrailers => simp [DirectionState.measure]
  | trailers =>
    simp [DirectionState.measure]
    omega
  | dataCrlf => simp [DirectionState.measure, crlf]
  | headInvalid | headTooLong | sizeNotText | sizeInvalid | sizeTooLong | dataCrlfMissing
  | trailersTooLong | headWaits | fixedWaits | untilEof | sizeWaits | dataWaits | dataCrlfWaits
  | trailersWait => exact hgo.elim

/-- A body takes what there is room for. -/
theorem capture_eq (m : DecodedMessage) (bytes : Bytes) (maxBody : Nat) :
    capture m bytes maxBody =
      { m with
        body := m.body ++ bytes.take (maxBody - m.body.length)
        truncated := m.truncated || decide (maxBody - m.body.length < bytes.length) } := by
  have htake : bytes.take (min (maxBody - m.body.length) bytes.length) =
      bytes.take (maxBody - m.body.length) := by
    rw [← take_take, take_length]
  have hlt : min (maxBody - m.body.length) bytes.length < bytes.length ↔
      maxBody - m.body.length < bytes.length := by omega
  simp only [capture, htake, hlt]

theorem capture_capture (m : DecodedMessage) (a b : Bytes) (maxBody : Nat) :
    capture (capture m a maxBody) b maxBody = capture m (a ++ b) maxBody := by
  have hroom : maxBody - (m.body ++ a.take (maxBody - m.body.length)).length =
      maxBody - m.body.length - a.length := by
    rw [length_append, length_take]
    omega
  have hlost : (decide (maxBody - m.body.length < a.length) ||
      decide (maxBody - m.body.length - a.length < b.length)) =
        decide (maxBody - m.body.length < (a ++ b).length) := by
    rw [length_append, ← Bool.decide_or]
    congr 1
    rw [eq_iff_iff]
    omega
  rw [capture_eq m a, capture_eq, capture_eq m (a ++ b)]
  simp only [hroom, append_assoc, take_append, Bool.or_assoc, hlost]

/-- A body that waits: the rest of it comes with `x`, or more of it is still missing. -/
theorem body_waits_append (body : DecodedMessage → Nat → PendingBody)
    (next : DecodedMessage → Bytes → DirectionState × Step)
    (hdone : ∀ w rest m, Steps d maxBody responseToHead ⟨w ++ rest, some (body m w.length)⟩
      (next (capture m w maxBody) rest))
    (hwaits : ∀ buf k m, Steps d maxBody responseToHead ⟨buf, some (body m (buf.length + (k + 1)))⟩
      (⟨[], some (body (capture m buf maxBody) (k + 1))⟩, .needMore))
    {buf : Bytes} {k : Nat} {m : DecodedMessage} (x : Bytes) :
    (DirectionState.append ⟨buf, some (body m (buf.length + (k + 1)))⟩ x).step d maxBody
        responseToHead =
      (DirectionState.append ⟨[], some (body (capture m buf maxBody) (k + 1))⟩ x).step d maxBody
        responseToHead := by
  rw [DirectionState.append, DirectionState.append, nil_append]
  obtain ⟨w, rest, rfl, hk⟩ | ⟨j, hk⟩ := Search.split_or_short (k + 1) x
  · have hall := hdone (buf ++ w) rest m
    rw [length_append, ← hk, append_assoc] at hall
    rw [hall.step_eq, hk, (hdone w rest _).step_eq, capture_capture]
  · have hall := hwaits (buf ++ x) j m
    rw [length_append, Nat.add_assoc, ← hk] at hall
    rw [hall.step_eq, hk, (hwaits x j _).step_eq, capture_capture]

/-- A step that asks for more loses nothing: with more input it is as if all of it had
come at once. -/
theorem Steps.waits_append (h : Steps d maxBody responseToHead s (t, .needMore)) (x : Bytes) :
    (s.append x).step d maxBody responseToHead = (t.append x).step d maxBody responseToHead := by
  cases h with
  | head hend hparse hr =>
    exact (beginBody_goesOn hr).elim
  | headWaits | sizeWaits | dataCrlfWaits | trailersWait => rfl
  | untilEof => simp [DirectionState.append, DirectionState.step, consumePending, capture_capture]
  | fixedWaits =>
    exact body_waits_append .fixed (fun m rest => (⟨rest, none⟩, .message m)) (fun _ _ _ => .fixed)
      (fun _ _ _ => .fixedWaits) x
  | dataWaits =>
    exact body_waits_append (fun m k => .chunked m (.data k))
      (fun m rest => (⟨rest, some (.chunked m .dataCrlf)⟩, .progress)) (fun _ _ _ => .data)
      (fun _ _ _ => .dataWaits) x

end Steps

end Lens.Http1
