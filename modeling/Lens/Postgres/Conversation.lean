import Lens.Postgres.Wire

/-!
# Conversations

A conversation is the typed frames of both sides in the order they are observed, each
frame of the server with the message of the client that it answers (`Item`).  `Served`
says what a server answers: any number of statements to a query, one outcome to each
`Execute`, and after a failure nothing until the next `Sync`.

The decoder marks the messages that begin and end an exchange with a header, a request
for `Query` and `Execute` and a response for the messages of `endTags`
(`Frontend.marks`, `Backend.marks`).  A reader of these marks who takes each response for
the answer to the oldest request is right when `Paired` holds of the conversation.
-/

namespace Lens.Postgres

open Search (be32 beNat)

variable {payload : Bytes} {tag : UInt8} {maxBody : Nat} {m : DecodedMessage}

/-! ## Marks -/

/-- The headers of a message that say what exchange it belongs to. -/
structure Marks (boundary : Option String) (m : DecodedMessage) : Prop where
  boundary : findHeader m.headers "lens-boundary" = boundary
  stream : findHeader m.headers "lens-stream-id" = none

/-- A header name that is not one of the two. -/
def IsPlainName (name : String) : Prop :=
  Str.eqIgnoreAsciiCase name "lens-boundary" = false ∧
    Str.eqIgnoreAsciiCase name "lens-stream-id" = false

instance (name : String) : Decidable (IsPlainName name) := inferInstanceAs (Decidable (_ ∧ _))

section Marks

variable {name : String} {boundary : Option String}

theorem findHeader_singleton (name value other : String) :
    findHeader [(name, value)] other =
      if Str.eqIgnoreAsciiCase name other = true then some value else none := by
  by_cases h : Str.eqIgnoreAsciiCase name other = true
  · simp [findHeader, h]
  · simp [findHeader, h]

theorem marks_message (d : Direction) (startLine : String) : Marks none (message d startLine) where
  boundary := by
    show findHeader [("lens-protocol", "postgres")] "lens-boundary" = none
    decide
  stream := by
    show findHeader [("lens-protocol", "postgres")] "lens-stream-id" = none
    decide

theorem Marks.pushHeader (h : Marks boundary m) (hname : IsPlainName name)
    (value : String) : Marks boundary (m.pushHeader name value) where
  boundary := by
    rw [DecodedMessage.pushHeader_headers, findHeader_append, h.boundary, findHeader_singleton,
      hname.1]
    exact Option.or_none
  stream := by
    rw [DecodedMessage.pushHeader_headers, findHeader_append, h.stream, findHeader_singleton,
      hname.2]
    rfl

theorem Marks.append (h : Marks boundary m) {hs : Headers}
    (hnames : ∀ h ∈ hs, IsPlainName h.1) :
    Marks boundary { m with headers := m.headers ++ hs } where
  boundary := by
    rw [findHeader_append, h.boundary, findHeader_eq_none, Option.or_none]
    simpa using fun name value hmem => (hnames (name, value) hmem).1
  stream := by
    rw [findHeader_append, h.stream, findHeader_eq_none, Option.or_none]
    simpa using fun name value hmem => (hnames (name, value) hmem).2

theorem Marks.withKind (h : Marks boundary m) (kind : String) : Marks boundary (withKind m kind) :=
  h.pushHeader (by decide) kind

theorem Marks.withBoundary (h : Marks none m) (value : String) :
    Marks (some value) (withBoundary m value) where
  boundary := by
    rw [Postgres.withBoundary, DecodedMessage.pushHeader_headers, findHeader_append, h.boundary,
      findHeader_singleton, if_pos (by decide)]
    rfl
  stream := by
    rw [Postgres.withBoundary, DecodedMessage.pushHeader_headers, findHeader_append, h.stream,
      findHeader_singleton, if_neg (by decide)]
    rfl

theorem Marks.capture (h : Marks boundary m) (bytes : Bytes) (maxBody : Nat) :
    Marks boundary (capture m bytes maxBody) := ⟨h.boundary, h.stream⟩

theorem errorFieldName_plain {code : UInt8} (h : errorFieldName code = some name) :
    IsPlainName name := by
  rw [errorFieldName] at h
  split at h <;> cases h <;> decide

theorem Marks.pushErrorField (h : Marks boundary m) (maxBody : Nat) (field : UInt8 × Bytes) :
    Marks boundary (pushErrorField maxBody m field) := by
  rw [Postgres.pushErrorField]
  split
  · exact h
  next hname =>
    refine Marks.pushHeader ?_ (errorFieldName_plain hname) _
    split
    · exact ⟨h.boundary, h.stream⟩
    · exact h

theorem Marks.pushErrorFields (maxBody : Nat) :
    ∀ (fields : List (UInt8 × Bytes)) {m : DecodedMessage}, Marks boundary m →
      Marks boundary (fields.foldl (Postgres.pushErrorField maxBody) m)
  | [], _, h => h
  | field :: fields, _, h => pushErrorFields maxBody fields (h.pushErrorField maxBody field)

end Marks

/-- A message without a mark of its own. -/
theorem marks_plain (d : Direction) (startLine kind : String) :
    Marks none (withKind (message d startLine) kind) := (marks_message d startLine).withKind kind

/-! ## Frames that begin and end an exchange -/

/-- The tags of `Query` and `Execute`. -/
def beginTags : Bytes := [0x51, 0x45]

/-- The tags of `CommandComplete`, `ErrorResponse`, `PortalSuspended`,
`EmptyQueryResponse` and `CopyDone`. -/
def endTags : Bytes := [0x43, 0x45, 0x73, 0x49, 0x63]

theorem bindMessage_marks (h : bindMessage payload = .ok m) : Marks none m := by
  rw [bindMessage] at h
  obtain ⟨⟨portal, rest⟩, -, h⟩ := bind_eq_ok.mp h
  obtain ⟨⟨statement, rest⟩, -, h⟩ := bind_eq_ok.mp h
  simp only at h
  split at h
  · cases h
  · split at h
    · cases h
    · cases h
      exact marks_plain ..

theorem executeMessage_marks (h : executeMessage payload = .ok m) : Marks (some "request") m := by
  rw [executeMessage] at h
  obtain ⟨⟨portal, rest⟩, -, h⟩ := bind_eq_ok.mp h
  simp only at h
  split at h
  · cases h
  · cases h
    exact (marks_plain ..).withBoundary _

/-- A tag that is none of some characters. -/
theorem not_mem_of_char_ne {tags : Bytes}
    (h : ∀ t ∈ tags, Char.ofNat tag.toNat ≠ Char.ofNat t.toNat) : tag ∉ tags :=
  fun hmem => h tag hmem rfl

theorem frontendMessage_marks (h : frontendMessage tag payload maxBody = .ok m) :
    Marks (if tag ∈ beginTags then some "request" else none) m := by
  simp only [frontendMessage] at h
  split at h
  next hc =>
    obtain rfl := (tagChar_eq_iff (by decide)).mp hc
    obtain ⟨sql, -, h⟩ := bind_eq_ok.mp h
    cases h
    exact (((marks_plain ..).withBoundary _).capture sql maxBody).pushHeader (by decide) _
  next hc =>
    obtain rfl := (tagChar_eq_iff (by decide)).mp hc
    obtain ⟨name, -, h⟩ := bind_eq_ok.mp h
    obtain ⟨sql, -, h⟩ := bind_eq_ok.mp h
    cases h
    exact ((marks_plain ..).capture _ maxBody).pushHeader (by decide) _
  next hc =>
    obtain rfl := (tagChar_eq_iff (by decide)).mp hc
    exact bindMessage_marks h
  next hc =>
    obtain rfl := (tagChar_eq_iff (by decide)).mp hc
    exact executeMessage_marks h
  -- What is left are frames whose payload is not read.
  all_goals
    cases h
    first
      | (next hc =>
        obtain rfl := (tagChar_eq_iff (by decide)).mp hc
        exact marks_plain ..)
      | (rw [if_neg (not_mem_of_char_ne (by simp_all [beginTags]))]
         exact marks_plain ..)

theorem errorOrNotice_marks {isError : Bool} (h : errorOrNotice isError payload maxBody = .ok m) :
    Marks (if isError then some "response" else none) m := by
  rw [errorOrNotice] at h
  obtain ⟨fields, -, h⟩ := bind_eq_ok.mp h
  have hplain :=
    (marks_plain .serverToClient (if isError then "ErrorResponse" else "NoticeResponse")
    (if isError then "error" else "notice")).pushErrorFields maxBody fields
  cases isError with
  | true =>
    cases h
    exact hplain.withBoundary _
  | false =>
    cases h
    exact hplain

theorem rowDescription_marks (h : rowDescription payload = .ok m) : Marks none m := by
  rw [rowDescription] at h
  split at h
  · cases h
  · obtain ⟨fields, -, h⟩ := bind_eq_ok.mp h
    cases h
    split
    · exact marks_plain ..
    · exact (marks_plain ..).pushHeader (by decide) _

theorem backendMessage_marks (htag : tag ≠ 0x53) (h : backendMessage tag payload maxBody = .ok m) :
    Marks (if tag ∈ endTags then some "response" else none) m := by
  simp only [backendMessage] at h
  split at h
  next hc =>
    obtain rfl := (tagChar_eq_iff (by decide)).mp hc
    split at h
    · cases h
    · cases h
      exact marks_plain ..
  next hc => exact absurd ((tagChar_eq_iff (by decide)).mp hc) htag
  next hc =>
    obtain rfl := (tagChar_eq_iff (by decide)).mp hc
    cases h
    exact marks_plain ..
  next hc =>
    obtain rfl := (tagChar_eq_iff (by decide)).mp hc
    cases h
    exact marks_plain ..
  next hc =>
    obtain rfl := (tagChar_eq_iff (by decide)).mp hc
    obtain ⟨commandTag, -, h⟩ := bind_eq_ok.mp h
    cases h
    exact (marks_plain ..).withBoundary _
  next hc =>
    obtain rfl := (tagChar_eq_iff (by decide)).mp hc
    exact errorOrNotice_marks h
  next hc =>
    obtain rfl := (tagChar_eq_iff (by decide)).mp hc
    exact errorOrNotice_marks h
  next hc =>
    obtain rfl := (tagChar_eq_iff (by decide)).mp hc
    exact rowDescription_marks h
  next hc =>
    obtain rfl := (tagChar_eq_iff (by decide)).mp hc
    split at h
    · cases h
    · cases h
      exact marks_plain ..
  -- What is left are frames whose payload is not read.
  all_goals
    cases h
    first
      | (next hc =>
        obtain rfl := (tagChar_eq_iff (by decide)).mp hc
        first | exact marks_plain .. | exact (marks_plain ..).withBoundary _)
      | (rw [if_neg (not_mem_of_char_ne (by simp_all [endTags]))]
         exact marks_plain ..)

/-- `Query` and `Execute` ask for something to be run. -/
def Frontend.asks (f : Frontend) : Bool := decide (f.frame.tag ∈ beginTags)

/-- `Query` and `Sync` are answered with `ReadyForQuery`. -/
def Frontend.closes (f : Frontend) : Bool := decide (f.frame.tag ∈ [0x51, 0x53])

/-- The end of what was asked for, as the decoder sees it. -/
def Backend.ends (f : Backend) : Bool := decide (f.frame.tag ∈ endTags)

/-- A parameter status with the name of a header that marks an exchange. -/
def Backend.Posing : Backend → Prop
  | .parameterStatus name _ => ¬ IsPlainName (Utf8.fromUtf8Lossy name.1)
  | _ => False

theorem Frontend.marks {f : Frontend}
    (h : frontendMessage f.frame.tag f.frame.payload maxBody = .ok m) :
    Marks (if f.asks then some "request" else none) m := by
  simpa [Frontend.asks] using frontendMessage_marks h

theorem parameterStatus_marks {name value : CString}
    (hname : IsPlainName (Utf8.fromUtf8Lossy name.1))
    (h : parameterStatus (name.wire ++ value.wire) = .ok m) : Marks none m := by
  rw [parameterStatus, cstrings_pair] at h
  by_cases hv : value.1 = []
  · rw [if_pos hv] at h
    cases h
  · rw [if_neg hv] at h
    cases h
    exact (marks_plain ..).pushHeader hname _

theorem Backend.marks {f : Backend} (hf : ¬ f.Posing)
    (h : backendMessage f.frame.tag f.frame.payload maxBody = .ok m) :
    Marks (if f.ends then some "response" else none) m := by
  have hmarks : f.frame.tag ≠ 0x53 → Marks (if f.ends then some "response" else none) m := by
    intro htag
    simpa [Backend.ends] using backendMessage_marks htag h
  cases f with
  | parameterStatus name value => exact parameterStatus_marks (not_not.mp hf) h
  | other tag payload htag =>
    refine hmarks ?_
    rintro rfl
    exact htag (by decide)
  | _ => exact hmarks (by simp [Backend.frame])

/-- A frame of either side.  A frame of the server comes with the message it answers, by
its place among the messages of the client. -/
inductive Item where
  | sent (f : Frontend)
  | reply (f : Backend) (cause : Option Nat)

namespace Item

variable {it : Item}

def direction : Item → Direction
  | sent _ => .clientToServer
  | reply _ _ => .serverToClient

def frame : Item → Frame
  | sent f => f.frame
  | reply f _ => f.frame

/-- The message of a frame. -/
def decode (maxBody : Nat) (it : Item) : Except String DecodedMessage :=
  decodeTyped it.direction it.frame.tag it.frame.payload maxBody

/-- The mark of a frame. -/
def boundary : Item → Option String
  | sent f => if f.asks then some "request" else none
  | reply f _ => if f.ends then some "response" else none

/-- The decoder reads the frame, and the frame does not pose as another. -/
def Legible : Item → Prop
  | sent f => f.frame.Fits
  | reply f _ => f.frame.Fits ∧ ¬ f.EmptyStatus ∧ ¬ f.Posing

theorem fits (h : it.Legible) : it.frame.Fits := by
  cases it with
  | sent f => exact h
  | reply f cause => exact h.1

theorem decode_marks (h : it.Legible) (maxBody : Nat) :
    ∃ m, it.decode maxBody = .ok m ∧ Marks it.boundary m := by
  cases it with
  | sent f =>
    obtain ⟨m, hm⟩ := decodeFrontend_ok_iff.mp (f.decode_ok maxBody)
    refine ⟨withWireBytes m f.frame.payload, ?_, ?_⟩
    · simp [decode, decodeTyped, decodeFrontend, direction, frame, hm, Except.map]
    · exact (f.marks hm).pushHeader (by decide) _
  | reply f cause =>
    obtain ⟨m, hm⟩ := decodeBackend_ok_iff.mp ((f.decode_ok_iff maxBody).mpr h.2.1)
    refine ⟨withWireBytes m f.frame.payload, ?_, ?_⟩
    · simp [decode, decodeTyped, decodeBackend, direction, frame, hm, Except.map]
    · exact (f.marks h.2.2 hm).pushHeader (by decide) _

end Item

/-! ## What a server answers -/

/-- Messages that come with a statement and end nothing: rows and their description,
notices and notifications, parameter changes, COPY data and its end. -/
def noteTags : Bytes := [0x54, 0x44, 0x4E, 0x41, 0x53, 0x47, 0x48, 0x57, 0x64, 0x63]

/-- The answers to `Parse`, `Bind`, `Close` and `Describe`. -/
def acknowledgementTags : Bytes := [0x31, 0x32, 0x33, 0x74, 0x54, 0x6E]

/-- Messages that answer nothing: the authentication with its parameters, key and first
`ReadyForQuery`, notices, notifications and parameter changes. -/
def unaskedTags : Bytes := [0x52, 0x53, 0x4B, 0x5A, 0x4E, 0x41]

/-- What one statement or one portal is answered with, and whether it failed. -/
inductive Outcome : List Backend → Bool → Prop where
  | complete {notes : List Backend} (commandTag : CString) :
      (∀ n ∈ notes, n.frame.tag ∈ noteTags) → Outcome (notes ++ [.commandComplete commandTag]) false
  /-- An empty query, or a portal that is suspended. -/
  | pause {notes : List Backend} {f : Backend} :
      (∀ n ∈ notes, n.frame.tag ∈ noteTags) → f.frame.tag ∈ [0x49, 0x73] →
      Outcome (notes ++ [f]) false
  | failure {notes : List Backend} (fields : List ErrorField) :
      (∀ n ∈ notes, n.frame.tag ∈ noteTags) → Outcome (notes ++ [.errorResponse fields]) true

/-- What the messages of a client from the `k`-th on are answered with.  After a failure
outside a simple query the server skips messages up to the next `Sync`. -/
inductive Served : Nat → Bool → List Frontend → List (Backend × Option Nat) → Prop where
  | nil (k : Nat) (skipping : Bool) : Served k skipping [] []
  | query {k : Nat} {sql : CString} {statements : List (List Backend)} {last : List Backend}
      {failed : Bool} {status : UInt8} {fs : List Frontend} {as : List (Backend × Option Nat)} :
      (∀ rs ∈ statements, Outcome rs false) → Outcome last failed → Served (k + 1) false fs as →
      Served k false (.query sql :: fs)
        ((statements.flatten ++ last ++ [Backend.readyForQuery status]).map (·, some k) ++ as)
  | execute {k : Nat} {portal : CString} {maxRows : UInt32} {rs : List Backend} {failed : Bool}
      {fs : List Frontend} {as : List (Backend × Option Nat)} :
      Outcome rs failed → Served (k + 1) failed fs as →
      Served k false (.execute portal maxRows :: fs) (rs.map (·, some k) ++ as)
  | other {k : Nat} {f : Frontend} {rs : List Backend} {fs : List Frontend}
      {as : List (Backend × Option Nat)} :
      f.asks = false → f.closes = false → (∀ r ∈ rs, r.frame.tag ∈ acknowledgementTags) →
      Served (k + 1) false fs as → Served k false (f :: fs) (rs.map (·, some k) ++ as)
  | refused {k : Nat} {f : Frontend} {fields : List ErrorField} {fs : List Frontend}
      {as : List (Backend × Option Nat)} :
      f.asks = false → f.closes = false → Served (k + 1) true fs as →
      Served k false (f :: fs) ((.errorResponse fields, some k) :: as)
  | skipped {k : Nat} {f : Frontend} {fs : List Frontend} {as : List (Backend × Option Nat)} :
      f.frame.tag ≠ 0x53 → Served (k + 1) true fs as → Served k true (f :: fs) as
  | sync {k : Nat} {skipping : Bool} {f : Frontend} {status : UInt8} {fs : List Frontend}
      {as : List (Backend × Option Nat)} :
      f.frame.tag = 0x53 → Served (k + 1) false fs as →
      Served k skipping (f :: fs) ((.readyForQuery status, some k) :: as)

/-- The messages of the client. -/
def clientOf (items : List Item) : List Frontend :=
  items.filterMap fun it => match it with
    | .sent f => some f
    | .reply _ _ => none

/-- The answers of the server. -/
def answersOf (items : List Item) : List (Backend × Option Nat) :=
  items.filterMap fun it => match it with
    | .reply f (some k) => some (f, some k)
    | _ => none

/-- A message comes after what it answers.  One that answers nothing is of the kinds that
come unasked, or an error before the first query. -/
def Ordered : Nat → Bool → List Item → Prop
  | _, _, [] => True
  | k, asked, .sent f :: items => Ordered (k + 1) (asked || f.asks || f.closes) items
  | k, asked, .reply f none :: items =>
    (f.frame.tag ∈ unaskedTags ∨ f.frame.tag = 0x45 ∧ asked = false) ∧ Ordered k asked items
  | k, asked, .reply _ (some i) :: items => i < k ∧ Ordered k asked items

/-- A conversation that follows the protocol, in causal order. -/
structure Conformant (items : List Item) : Prop where
  served : Served 0 false (clientOf items) (answersOf items)
  ordered : Ordered 0 false items

/-! ## Requests and responses in order -/

/-- What is known of a conversation so far: how many messages the client has sent, which
of them is the last `Query` or `Sync`, and which of its `Query` and `Execute` messages are
unanswered when each end is taken for the answer to the oldest of them. -/
structure Tally where
  sent : Nat
  last : Option Nat
  unanswered : List Nat
deriving DecidableEq, Repr

def Tally.next (t : Tally) : Item → Tally
  | .sent f =>
    { sent := t.sent + 1
      last := if f.closes then some t.sent else t.last
      unanswered := if f.asks then t.unanswered ++ [t.sent] else t.unanswered }
  | .reply f _ => { t with unanswered := if f.ends then t.unanswered.tail else t.unanswered }

def tally (items : List Item) : Tally := items.foldl Tally.next ⟨0, none, []⟩

@[simp] theorem tally_append_singleton (items : List Item) (it : Item) :
    tally (items ++ [it]) = (tally items).next it := by
  simp [tally]

/-- Each end answers the oldest message that is unanswered, and none is left when the
server is ready after the last `Query` or `Sync`. -/
structure Paired (items : List Item) : Prop where
  oldest : ∀ pre f cause post, items = pre ++ .reply f cause :: post → f.ends = true →
    ∀ i, (tally pre).unanswered.head? = some i → cause = some i
  none_left : ∀ pre status k post,
    items = pre ++ .reply (.readyForQuery status) (some k) :: post →
    (tally pre).last = some k → (tally pre).unanswered = []

/-- An end answers the oldest message that is unanswered. -/
def Tally.answersOldest (t : Tally) (f : Backend) (cause : Option Nat) : Bool :=
  !f.ends || t.unanswered.head?.all fun i => cause == some i

/-- Nothing is unanswered when the server is ready after the last `Query` or `Sync`. -/
def Tally.leavesNone (t : Tally) : Backend → Option Nat → Bool
  | .readyForQuery _, some k => decide (t.last = some k → t.unanswered = [])
  | _, _ => true

/-- What is asked of one more frame. -/
def Tally.allows (t : Tally) : Item → Bool
  | .sent _ => true
  | .reply f cause => t.answersOldest f cause && t.leavesNone f cause

/-- What is asked of the rest of a conversation. -/
def Tally.allowsAll : Tally → List Item → Bool
  | _, [] => true
  | t, it :: items => t.allows it && (t.next it).allowsAll items

theorem Tally.allowsAll_iff (items : List Item) (t : Tally) : t.allowsAll items = true ↔
    ∀ pre it post, items = pre ++ it :: post → (pre.foldl Tally.next t).allows it = true := by
  induction items generalizing t with
  | nil =>
    refine ⟨fun _ pre it post h => ?_, fun _ => rfl⟩
    have hlen := congrArg List.length h
    simp at hlen
  | cons it items ih =>
    rw [allowsAll, Bool.and_eq_true, ih]
    constructor
    · rintro ⟨hit, hrest⟩ pre it' post h
      cases pre with
      | nil =>
        cases h
        exact hit
      | cons x pre =>
        cases h
        exact hrest pre it' post rfl
    · intro h
      exact ⟨h [] it items rfl, fun pre it' post heq => h (it :: pre) it' post (by rw [heq]; rfl)⟩

/-- Whether a conversation is paired can be read off it frame by frame. -/
theorem paired_iff (items : List Item) :
    Paired items ↔ Tally.allowsAll ⟨0, none, []⟩ items = true := by
  rw [Tally.allowsAll_iff]
  constructor
  · intro h pre it post heq
    cases it with
    | sent f => rfl
    | reply f cause =>
      rw [Tally.allows, Bool.and_eq_true]
      refine ⟨?_, ?_⟩
      · have holdest := h.oldest pre f cause post heq
        rw [tally] at holdest
        rw [Tally.answersOldest, Bool.or_eq_true, Bool.not_eq_true', or_iff_not_imp_left,
          Bool.not_eq_false]
        intro hf
        cases hhead : (pre.foldl Tally.next ⟨0, none, []⟩).unanswered.head? with
        | none => rfl
        | some i => exact beq_iff_eq.mpr (holdest hf i hhead)
      · match f, cause, heq with
        | .readyForQuery status, some k, heq =>
          exact decide_eq_true (h.none_left pre status k post heq)
        | .readyForQuery status, none, _ => rfl
        | .authentication .., _, _ => rfl
        | .parameterStatus .., _, _ => rfl
        | .commandComplete .., _, _ => rfl
        | .errorResponse .., _, _ => rfl
        | .noticeResponse .., _, _ => rfl
        | .rowDescription .., _, _ => rfl
        | .dataRow .., _, _ => rfl
        | .other .., _, _ => rfl
  · intro h
    refine ⟨?_, ?_⟩
    · intro pre f cause post heq hf i hi
      have hallows := h pre _ post heq
      rw [Tally.allows, Bool.and_eq_true, Tally.answersOldest, hf] at hallows
      rw [tally] at hi
      rw [hi] at hallows
      exact eq_of_beq hallows.1
    · intro pre status k post heq
      have hallows := h pre _ post heq
      rw [Tally.allows, Bool.and_eq_true] at hallows
      exact of_decide_eq_true hallows.2

instance (items : List Item) : Decidable (Paired items) :=
  decidable_of_iff _ (paired_iff items).symm

end Lens.Postgres
