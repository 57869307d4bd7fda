import Lens.Http1.Bounds

/-!
# Messages on the wire

`MessageBytes` is the form of a message on the wire, without reference to the decoder's
states: a head that parses, and a body framed as the head asks for (`BodyBytes`).

`Rest` is what is left of a message while its body is under way, one constructor for each
phase.  The two agree (`rest_chunked_iff`), and what completes a message (`Completes`) moves
with the steps: bytes that a step takes belong to the message the direction is in
(`Steps.onward`, `Steps.completed`), and a direction whose buffer begins with what completes
its message emits that message next (`Http1Decoder.goes_message`).

With `short`, the lines and sections are also within what the decoder holds while it waits
for their ends.
-/

namespace Lens.Http1

open List
open Search (Delimits)

/-! ## The form of a message -/

/-- How the end of a body is found. -/
inductive Framing where
  | empty
  | fixed (n : Nat)
  | chunked
  | untilEof
deriving DecidableEq, Repr

def Framing.isUntilEof : Framing → Bool
  | .untilEof => true
  | .empty | .fixed _ | .chunked => false

/-- The framing of the body after a head.  An answer to HEAD has no body. -/
def ParsedHead.framing (answersHead : Bool) (head : ParsedHead) : Framing :=
  if answersHead || head.noBodyStatus then .empty
  else if head.chunked then .chunked
  else
    match head.contentLength with
    | some n => .fixed n
    | none => if head.isResponse then .untilEof else .empty

/-- A message without its body. -/
def ParsedHead.message (d : Direction) (head : ParsedHead) : DecodedMessage :=
  ⟨d, head.startLine, head.headers, [], false⟩

/-- A chunk-size line, without its end. -/
def SizeLine (short : Bool) (line : Bytes) (n : Nat) : Prop :=
  Delimits crlf line ∧ (Utf8.fromUtf8 line).bind chunkSize = some n ∧
    (short = true → line.length < maxChunkLineBytes)

instance (short : Bool) (line : Bytes) (n : Nat) : Decidable (SizeLine short line n) :=
  inferInstanceAs (Decidable (_ ∧ _ ∧ _))

/-- The end of a chunked body: an empty line, or trailers and an empty line. -/
inductive TrailerSection (short : Bool) : Bytes → Prop where
| empty : TrailerSection short crlf
| lines {t : Bytes} :
  ¬crlf <+: t ++ headEnd →
  Delimits headEnd t →
  (short = true → t.length + 3 ≤ maxHeadBytes) →
  TrailerSection short (t ++ headEnd)

structure Chunk where
  line : Bytes
  data : Bytes
deriving DecidableEq, Repr

def Chunk.bytes (c : Chunk) : Bytes := c.line ++ crlf ++ (c.data ++ crlf)

/-- A chunk has data, and its line gives the size. -/
structure Chunk.Ok (short : Bool) (c : Chunk) : Prop where
  line : SizeLine short c.line c.data.length
  data : c.data ≠ []

/-- The bytes of a body, and the payload they carry. -/
inductive BodyBytes (short : Bool) : Framing → Bytes → Bytes → Prop where
| empty : BodyBytes short .empty [] []
| fixed {n : Nat} {w : Bytes} : w.length = n → BodyBytes short (.fixed n) w w
| untilEof (w : Bytes) : BodyBytes short .untilEof w w
| chunked {cs : List Chunk} {line t : Bytes} :
  (∀ c ∈ cs, c.Ok short) →
  SizeLine short line 0 →
  TrailerSection short t →
  BodyBytes short .chunked (cs.flatMap Chunk.bytes ++ (line ++ crlf ++ t)) (cs.flatMap Chunk.data)

/-- The bytes of a message: its head, and the body that the head asks for.  The message ends
with the connection if `eof`. -/
inductive MessageBytes (short : Bool) (d : Direction) (maxBody : Nat) (answersHead eof : Bool) :
    Bytes → DecodedMessage → Prop where
| mk {h body payload : Bytes} {head : ParsedHead} :
  Delimits headEnd h →
  (short = true → h.length + 3 ≤ maxHeadBytes) →
  ParsedHead.parse h = .ok head →
  (head.framing answersHead).isUntilEof = eof →
  BodyBytes short (head.framing answersHead) body payload →
  MessageBytes short d maxBody answersHead eof (h ++ headEnd ++ body)
    (capture (head.message d) payload maxBody)

@[simp] theorem capture_nil (m : DecodedMessage) (maxBody : Nat) : capture m [] maxBody = m := by
  simp [capture]

/-! ## The rest of a message -/

/-- What is left of a body under way, and the message it then is. -/
inductive Rest (short : Bool) (maxBody : Nat) :
    PendingBody → Bytes → DecodedMessage → Prop where
| fixed {m : DecodedMessage} {w : Bytes} {n : Nat} :
  w.length = n →
  Rest short maxBody (.fixed m n) w (capture m w maxBody)
| untilEof {m : DecodedMessage} (w : Bytes) :
  Rest short maxBody (.untilEof m) w (capture m w maxBody)
| size {m m' : DecodedMessage} {line r : Bytes} {n : Nat} :
  SizeLine short line n →
  Rest short maxBody (.chunked m (if n = 0 then .trailers else .data n)) r m' →
  Rest short maxBody (.chunked m .size) (line ++ crlf ++ r) m'
| data {m m' : DecodedMessage} {w r : Bytes} {n : Nat} :
  w.length = n →
  Rest short maxBody (.chunked (capture m w maxBody) .dataCrlf) r m' →
  Rest short maxBody (.chunked m (.data n)) (w ++ r) m'
| dataCrlf {m m' : DecodedMessage} {r : Bytes} :
  Rest short maxBody (.chunked m .size) r m' →
  Rest short maxBody (.chunked m .dataCrlf) (crlf ++ r) m'
| trailers {m : DecodedMessage} {t : Bytes} :
  TrailerSection short t →
  Rest short maxBody (.chunked m .trailers) t m

section Rest

variable {m m' : DecodedMessage} {w : Bytes}

variable {short : Bool} {maxBody : Nat}

theorem Chunk.Ok.rest {c : Chunk} (hc : c.Ok short) {r : Bytes}
    (h : Rest short maxBody (.chunked (capture m c.data maxBody) .size) r m') :
    Rest short maxBody (.chunked m .size) (c.bytes ++ r) m' := by
  have hn : c.data.length ≠ 0 := fun h0 => hc.data (length_eq_zero_iff.mp h0)
  have hdata : Rest short maxBody (.chunked m (.data c.data.length)) (c.data ++ (crlf ++ r)) m' :=
    .data rfl (.dataCrlf h)
  rw [Chunk.bytes, append_assoc, append_assoc c.data]
  exact .size hc.line (by rwa [if_neg hn])

/-- A chunked body is what is left of a message that has just begun. -/
theorem BodyBytes.rest {cs : List Chunk} (hcs : ∀ c ∈ cs, c.Ok short) {line t : Bytes}
    (hline : SizeLine short line 0) (ht : TrailerSection short t) (m : DecodedMessage) :
    Rest short maxBody (.chunked m .size) (cs.flatMap Chunk.bytes ++ (line ++ crlf ++ t))
      (capture m (cs.flatMap Chunk.data) maxBody) := by
  induction cs generalizing m with
  | nil =>
    rw [flatMap_nil, flatMap_nil, nil_append, capture_nil]
    exact .size hline (.trailers ht)
  | cons c cs ih =>
    obtain ⟨hc, hcs⟩ := forall_mem_cons.mp hcs
    rw [flatMap_cons, flatMap_cons, append_assoc, ← capture_capture]
    exact hc.rest (ih hcs _)

/-- What is left of a chunked body, by its phase. -/
def RestBytes (short : Bool) (maxBody : Nat) (m m' : DecodedMessage) (w : Bytes) :
    ChunkPhase → Prop
  | .size => ∃ payload, BodyBytes short .chunked w payload ∧ m' = capture m payload maxBody
  | .data n => ∃ (data body payload : Bytes), w = data ++ crlf ++ body ∧ data.length = n ∧
      BodyBytes short .chunked body payload ∧ m' = capture m (data ++ payload) maxBody
  | .dataCrlf => ∃ body payload, w = crlf ++ body ∧ BodyBytes short .chunked body payload ∧
      m' = capture m payload maxBody
  | .trailers => TrailerSection short w ∧ m' = m

theorem Rest.bytes {phase : ChunkPhase}
    (h : Rest short maxBody (.chunked m phase) w m') : RestBytes short maxBody m m' w phase := by
  generalize hp : PendingBody.chunked m phase = p at h
  induction h generalizing m phase with
  | fixed | untilEof => cases hp
  | trailers ht =>
    cases hp
    exact ⟨ht, rfl⟩
  | dataCrlf _ ih =>
    cases hp
    obtain ⟨payload, hbody, hm⟩ := ih rfl
    exact ⟨_, payload, rfl, hbody, hm⟩
  | @data _ _ w _ _ hw _ ih =>
    cases hp
    obtain ⟨body, payload, rfl, hbody, rfl⟩ := ih rfl
    exact ⟨w, body, payload, by rw [append_assoc], hw, hbody, capture_capture ..⟩
  | @size _ _ line r n hline _ ih =>
    cases hp
    have hrest := ih rfl
    by_cases hn : n = 0
    · subst hn
      obtain ⟨ht, rfl⟩ := hrest
      refine ⟨[], ?_, (capture_nil ..).symm⟩
      have hnone : ∀ c ∈ ([] : List Chunk), c.Ok short := by simp
      exact .chunked hnone hline ht
    · rw [if_neg hn] at hrest
      obtain ⟨data, body, payload, rfl, rfl, hbody, rfl⟩ := hrest
      cases hbody with
      | @chunked cs last t hcs hlast ht =>
        -- The chunk just read comes before the others.
        have hchunk : Chunk.Ok short ⟨line, data⟩ :=
          ⟨hline, fun hnil => hn (length_eq_zero_iff.mpr hnil)⟩
        have hall := BodyBytes.chunked (forall_mem_cons.mpr ⟨hchunk, hcs⟩) hlast ht
        refine ⟨_, ?_, rfl⟩
        simpa [Chunk.bytes, append_assoc] using hall

/-- What is left of a message whose first chunk is still to come is a chunked body. -/
theorem rest_chunked_iff :
    Rest short maxBody (.chunked m .size) w m' ↔
      ∃ payload, BodyBytes short .chunked w payload ∧ m' = capture m payload maxBody := by
  refine ⟨Rest.bytes, ?_⟩
  rintro ⟨payload, hbody, rfl⟩
  cases hbody with
  | chunked hcs hline ht => exact BodyBytes.rest hcs hline ht m

end Rest

/-! ## Steps on the bytes of a message -/

section Steps

variable {m : DecodedMessage} {step : Step} {buf : Bytes}

variable {d : Direction} {maxBody : Nat} {answersHead : Bool} {s t : DirectionState}

/-- The step after a head, by the framing it asks for. -/
theorem beginBody_framing (d : Direction) (answersHead : Bool) (head : ParsedHead)
    (buf : Bytes) :
    beginBody d answersHead head buf =
      match head.framing answersHead with
      | .empty => (⟨buf, none⟩, .message (head.message d))
      | .fixed 0 => (⟨buf, none⟩, .message (head.message d))
      | .fixed (n + 1) => (⟨buf, some (.fixed (head.message d) (n + 1))⟩, .progress)
      | .chunked => (⟨buf, some (.chunked (head.message d) .size)⟩, .progress)
      | .untilEof => (⟨buf, some (.untilEof (head.message d))⟩, .progress) := by
  simp only [beginBody, ParsedHead.framing, ParsedHead.message]
  split
  · rfl
  · split
    · rfl
    · cases head.contentLength with
      | some n => cases n <;> rfl
      | none => cases head.isResponse <;> rfl

/-- The body ends with the connection. -/
def PendingBody.isUntilEof : PendingBody → Bool
  | .untilEof _ => true
  | .fixed .. | .chunked .. => false

/-- What completes a message: a whole one, or the rest of the one under way. -/
def Completes (short : Bool) (d : Direction) (maxBody : Nat) (answersHead eof : Bool) :
    Option PendingBody → Bytes → DecodedMessage → Prop
  | none, w, m => MessageBytes short d maxBody answersHead eof w m
  | some p, w, m => p.isUntilEof = eof ∧ Rest short maxBody p w m

/-- After a head, what is left of the message makes it whole. -/
theorem MessageBytes.of_rest {eof : Bool} {h r : Bytes} {head : ParsedHead} {p : PendingBody}
    {rest : Bytes} (hend : Delimits headEnd h) (hparse : ParsedHead.parse h = .ok head)
    (hp : (beginBody d answersHead head rest).1.pending = some p)
    (hr : Completes false d maxBody answersHead eof (some p) r m) :
    MessageBytes false d maxBody answersHead eof (h ++ headEnd ++ r) m := by
  rw [beginBody_framing] at hp
  obtain ⟨heof, hr⟩ := hr
  have hmk : ∀ f payload, head.framing answersHead = f → f.isUntilEof = eof →
      BodyBytes false f r payload → m = capture (head.message d) payload maxBody →
      MessageBytes false d maxBody answersHead eof (h ++ headEnd ++ r) m := by
    rintro _ payload rfl hf hbody rfl
    exact .mk hend nofun hparse hf hbody
  split at hp
  · cases hp
  · cases hp
  · rename_i hf
    cases hp
    cases hr with
    | fixed hw => exact hmk _ r hf heof (.fixed hw) rfl
  · rename_i hf
    cases hp
    obtain ⟨payload, hbody, hm⟩ := rest_chunked_iff.mp hr
    exact hmk _ payload hf heof hbody hm
  · rename_i hf
    cases hp
    cases hr with
    | untilEof => exact hmk _ r hf heof (.untilEof r) rfl

theorem sizeLine_of_text {line : Bytes} {text : String} {n : Nat} (hend : Delimits crlf line)
    (htext : Utf8.fromUtf8 line = some text) (hsize : chunkSize text = some n) :
    SizeLine false line n :=
  ⟨hend, by rw [htext, Option.bind_some, hsize], nofun⟩

/-- Bytes that a step takes without completing a message belong to the message, whatever
completes it. -/
theorem Steps.onward (h : Steps d maxBody answersHead s (t, step))
    (hstep : step = .progress ∨ step = .needMore) :
    ∃ taken, s.buffer = taken ++ t.buffer ∧ (t.pending = none → s.pending = none ∧ taken = []) ∧
      ∀ eof r m, Completes false d maxBody answersHead eof t.pending r m →
        Completes false d maxBody answersHead eof s.pending (taken ++ r) m := by
  cases h with
  | headWaits => exact ⟨[], rfl, fun _ => ⟨rfl, rfl⟩, fun eof r m hr => hr⟩
  | head hend hparse hr =>
    rename_i h rest head
    obtain ⟨rfl, rfl⟩ | ⟨body, -, rfl, rfl⟩ := beginBody_begun hr
    · simp at hstep
    · refine ⟨h ++ headEnd, rfl, nofun, fun eof r m hrest => ?_⟩
      exact .of_rest hend hparse (by rw [hr]) hrest
  | fixedWaits =>
    rename_i buf k m
    refine ⟨buf, (append_nil buf).symm, nofun, ?_⟩
    rintro eof r _ ⟨heof, ⟨hw⟩⟩
    rw [capture_capture]
    exact ⟨heof, .fixed (by rw [length_append, hw])⟩
  | untilEof =>
    rename_i buf m
    refine ⟨buf, (append_nil buf).symm, nofun, ?_⟩
    rintro eof r _ ⟨heof, ⟨⟩⟩
    rw [capture_capture]
    exact ⟨heof, .untilEof _⟩
  | size hend htext hsize =>
    refine ⟨_, rfl, nofun, fun eof r m hr => ⟨hr.1, ?_⟩⟩
    exact .size (sizeLine_of_text hend htext hsize) hr.2
  | data => exact ⟨_, rfl, nofun, fun eof r m hr => ⟨hr.1, .data rfl hr.2⟩⟩
  | dataWaits =>
    rename_i buf k m
    refine ⟨buf, (append_nil buf).symm, nofun, ?_⟩
    rintro eof r m' ⟨heof, hr⟩
    cases hr with
    | data hw hr =>
      rw [capture_capture] at hr
      rw [← append_assoc]
      exact ⟨heof, .data (by rw [length_append, hw]) hr⟩
  | dataCrlf => exact ⟨_, rfl, nofun, fun eof r m hr => ⟨hr.1, .dataCrlf hr.2⟩⟩
  | sizeWaits | dataCrlfWaits | trailersWait => exact ⟨[], rfl, nofun, fun eof r m hr => hr⟩
  | headInvalid | headTooLong | sizeNotText | sizeInvalid | sizeTooLong | dataCrlfMissing
  | trailersTooLong | fixed | noTrailers | trailers => rcases hstep with h | h <;> cases h

/-- Between messages, a direction without the end of a head waits for it, or reports. -/
theorem Steps.inside_head (h : Steps d maxBody answersHead ⟨buf, none⟩ (t, step))
    (hfind : Search.find headEnd buf = none) :
    (t = ⟨buf, none⟩ ∧ step = .needMore) ∨ ∃ reason, step = .desynchronized reason := by
  cases h with
  | head hend | headInvalid hend =>
    rw [hend.find] at hfind
    cases hfind
  | headWaits => exact .inl ⟨rfl, rfl⟩
  | headTooLong => exact .inr ⟨_, rfl⟩

/-- Between messages, a direction that waits has not seen the end of a head. -/
theorem Steps.waits_head (h : Steps d maxBody answersHead ⟨buf, none⟩ (t, .needMore)) :
    Search.find headEnd buf = none := by
  cases h with
  | head hend hparse hr =>
    exact (beginBody_goesOn hr).elim
  | headWaits hfind => exact hfind

/-- Bytes that complete a message belong to it. -/
theorem Steps.completed (h : Steps d maxBody answersHead s (t, .message m)) :
    ∃ taken, s.buffer = taken ++ t.buffer ∧ t.pending = none ∧
      Completes false d maxBody answersHead false s.pending taken m := by
  cases h with
  | head hend hparse hr =>
    rename_i h rest head
    have hmk : ∀ f, head.framing answersHead = f → f.isUntilEof = false → BodyBytes false f [] [] →
        MessageBytes false d maxBody answersHead false (h ++ headEnd) (head.message d) := by
      rintro _ rfl hf hbody
      have hbytes : MessageBytes false d maxBody answersHead _ _ _ := .mk hend nofun hparse hf hbody
      rwa [append_nil, capture_nil] at hbytes
    rw [beginBody_framing] at hr
    generalize hf : head.framing answersHead = f at hr
    split at hr
    · cases hr
      exact ⟨_, rfl, rfl, hmk _ hf rfl .empty⟩
    · cases hr
      exact ⟨_, rfl, rfl, hmk _ hf rfl (.fixed rfl)⟩
    · cases hr
    · cases hr
    · cases hr
  | fixed => exact ⟨_, rfl, rfl, rfl, .fixed rfl⟩
  | noTrailers => exact ⟨_, rfl, rfl, rfl, .trailers .empty⟩
  | trailers hp hend => exact ⟨_, rfl, rfl, rfl, .trailers (.lines hp hend nofun)⟩

end Steps

/-! ## Messages at the front of a buffer -/

section Front

variable {w : Bytes} {m : DecodedMessage}

variable {short : Bool} {maxBody : Nat} {d : Direction} {answersHead : Bool}

theorem TrailerSection.steps {t : Bytes} (h : TrailerSection short t) (d : Direction)
    (answersHead : Bool) (m : DecodedMessage) (rest : Bytes) :
    Steps d maxBody answersHead ⟨t ++ rest, some (.chunked m .trailers)⟩
      (⟨rest, none⟩, .message m) := by
  cases h with
  | empty => exact .noTrailers
  | lines hp hend => exact .trailers hp hend

/-- The next step on the rest of a message takes a part of it, or all of it. -/
theorem Rest.steps {p : PendingBody} (h : Rest short maxBody p w m) (hp : p.isUntilEof = false)
    (d : Direction) (answersHead : Bool) (rest : Bytes) :
    Steps d maxBody answersHead ⟨w ++ rest, some p⟩ (⟨rest, none⟩, .message m) ∨
      ∃ q w', (q.isUntilEof = false ∧ Rest short maxBody q w' m) ∧
        Steps d maxBody answersHead ⟨w ++ rest, some p⟩ (⟨w' ++ rest, some q⟩, .progress) := by
  cases h with
  | untilEof => cases hp
  | fixed hw =>
    subst hw
    exact .inl .fixed
  | size hline hr =>
    obtain ⟨hend, htext, -⟩ := hline
    obtain ⟨text, htext, hsize⟩ := Option.bind_eq_some_iff.mp htext
    rw [append_assoc]
    exact .inr ⟨_, _, ⟨rfl, hr⟩, .size hend htext hsize⟩
  | data hw hr =>
    subst hw
    rw [append_assoc]
    exact .inr ⟨_, _, ⟨rfl, hr⟩, .data⟩
  | dataCrlf hr =>
    rw [append_assoc]
    exact .inr ⟨_, _, ⟨rfl, hr⟩, .dataCrlf⟩
  | trailers ht => exact .inl (ht.steps d answersHead m rest)

/-- A message at the front of a buffer begins with its head. -/
theorem MessageBytes.steps (h : MessageBytes short d maxBody answersHead false w m)
    (rest : Bytes) : Steps d maxBody answersHead ⟨w ++ rest, none⟩ (⟨rest, none⟩, .message m) ∨
      ∃ p w', (p.isUntilEof = false ∧ Rest short maxBody p w' m) ∧
        Steps d maxBody answersHead ⟨w ++ rest, none⟩ (⟨w' ++ rest, some p⟩, .progress) := by
  cases h with
  | @mk h body payload head hend _ hparse hf hbody =>
    rw [append_assoc]
    have hbegin := beginBody_framing d answersHead head (body ++ rest)
    generalize head.framing answersHead = f at hbegin hbody hf
    cases hbody with
    | empty =>
      rw [capture_nil]
      exact .inl (.head hend hparse hbegin)
    | untilEof => cases hf
    | chunked hcs hline ht =>
      exact .inr ⟨_, _, ⟨rfl, BodyBytes.rest hcs hline ht _⟩, .head hend hparse hbegin⟩
    | @fixed n _ hw =>
      cases n with
      | zero =>
        obtain rfl := length_eq_zero_iff.mp hw
        rw [capture_nil]
        exact .inl (.head hend hparse hbegin)
      | succ n => exact .inr ⟨_, _, ⟨rfl, .fixed hw⟩, .head hend hparse hbegin⟩

/-- The next step on what completes a message takes a part of it, or all of it. -/
theorem Completes.steps {p : Option PendingBody}
    (h : Completes short d maxBody answersHead false p w m) (rest : Bytes) :
    Steps d maxBody answersHead ⟨w ++ rest, p⟩ (⟨rest, none⟩, .message m) ∨
      ∃ q w', (∀ answersHead', Completes short d maxBody answersHead' false (some q) w' m) ∧
        Steps d maxBody answersHead ⟨w ++ rest, p⟩ (⟨w' ++ rest, some q⟩, .progress) := by
  cases p with
  | none =>
    rcases MessageBytes.steps h rest with hall | ⟨q, w', hq, hsteps⟩
    · exact .inl hall
    · exact .inr ⟨q, w', fun _ => hq, hsteps⟩
  | some p =>
    rcases h.2.steps h.1 d answersHead rest with hall | ⟨q, w', hq, hsteps⟩
    · exact .inl hall
    · exact .inr ⟨q, w', fun _ => hq, hsteps⟩

end Front

namespace Http1Decoder

open Stream (Goes)

variable {d : Direction} {s : Http1Decoder}

theorem turn_of_steps {r : DirectionState × Step}
    (h : Steps d s.maxBody (s.responseToHead d) (s.state d) r) : turn d s = s.follow d r := by
  rw [turn, h.step_eq]

theorem responseToHead_setState (s : Http1Decoder) (d : Direction) (st : DirectionState) :
    (s.setState d st).responseToHead d = s.responseToHead d := by
  rw [responseToHead, setState_requestMethods, responseToHead]

/-- A direction whose buffer begins with what completes a message emits the message and goes
on behind it. -/
theorem goes_message {short : Bool} {p : Option PendingBody} {w rest : Bytes}
    {m : DecodedMessage} (h : Completes short d s.maxBody (s.responseToHead d) false p w m)
    (hs : s.state d = ⟨w ++ rest, p⟩) :
    Goes (turn d) s ((s.setState d ⟨rest, none⟩).trackExchange m) ⟨[m], none⟩ := by
  induction hn : (s.state d).measure using Nat.strong_induction_on generalizing s p w with
  | _ n ih =>
  have hcases := h.steps rest
  rw [← hs] at hcases
  rcases hcases with hmessage | ⟨q, w', hq, hprogress⟩
  · exact .again (turn_of_steps hmessage) (.refl _)
  · have hturn : turn d s = .again (s.setState d ⟨w' ++ rest, some q⟩) .needMore :=
      turn_of_steps hprogress
    have hlt : ((s.setState d ⟨w' ++ rest, some q⟩).state d).measure < (s.state d).measure :=
      turn_decreases d _ _ _ hturn
    have hrest := ih _ (hn ▸ hlt) (s := s.setState d ⟨w' ++ rest, some q⟩)
      (by rw [setState_maxBody]; exact hq _) (state_setState_self ..) rfl
    rw [setState_setState] at hrest
    have hall := Goes.again hturn hrest
    rwa [Stream.Batch.needMore_seq] at hall

end Http1Decoder

end Lens.Http1
