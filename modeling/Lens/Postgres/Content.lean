import Lens.Text.Lossy
import Lens.Postgres.Wire

/-!
# What a message is made of

A frame is read into the texts that its message shows (`Content`), and the message is
written from them under the cap.  Reading does not know the cap (`decode_eq`).  The
texts of a frame can be replaced one by one by others of the same length, without a
zero byte, and the frame is read in the same way (`exists_source`).
-/

namespace Lens.Postgres

open List
open Search (beNat)
open Utf8 (width width_append)

/-! ## Contents -/

/-- The texts of a frame that its message shows, by kind of frame.  The other frames
give a message without such a text. -/
inductive Content where
  | query (sql : Bytes)
  | parse (name sql : Bytes)
  | bind (portal statement : Bytes) (parameters : Nat)
  | execute (portal : Bytes) (maxRows : Nat)
  | startup (minor : Nat) (parameters : List (Bytes × Bytes))
  | parameterStatus (name value : Bytes)
  | commandComplete (commandTag : Bytes)
  | report (isError : Bool) (fields : List (UInt8 × Bytes))
  | rowDescription (columns : Nat) (names : List Bytes)
  | fixed (m : DecodedMessage)
deriving DecidableEq

/-- A message without a body. -/
def plain (direction : Direction) (startLine kind : String) : DecodedMessage :=
  withKind (message direction startLine) kind

/-- The message of a content under a cap. -/
def Content.message (maxBody : Nat) : Content → DecodedMessage
  | .query sql =>
    (capture (withBoundary (plain .clientToServer "Query" "query") "request") sql
      maxBody).pushHeader "lens-content" "sql"
  | .parse name sql =>
    (capture (plain .clientToServer ("Parse statement=" ++ displayName name) "parse") sql
      maxBody).pushHeader "lens-content" "sql"
  | .bind portal statement parameters =>
    let portal := displayName portal
    let statement := displayName statement
    plain .clientToServer
      s!"Bind portal={portal} statement={statement} parameters={parameters} (values omitted)"
      "bind"
  | .execute portal maxRows =>
    let portalName := displayName portal
    withBoundary
      (plain .clientToServer s!"Execute portal={portalName} max_rows={maxRows}" "execute")
      "request"
  | .startup minor parameters =>
    let major := 3
    let m := plain .clientToServer s!"StartupMessage protocol={major}.{minor}" "startup"
    { m with headers := m.headers ++ parameters.map fun p => parameterHeader p.1 p.2 }
  | .parameterStatus name value =>
    let h := parameterHeader name value
    (plain .serverToClient "ParameterStatus" "parameter-status").pushHeader h.1 h.2
  | .commandComplete commandTag =>
    let shown := Utf8.fromUtf8Lossy commandTag
    withBoundary (plain .serverToClient s!"CommandComplete {shown}" "command-complete") "response"
  | .report isError fields =>
    let title := if isError then "ErrorResponse" else "NoticeResponse"
    let kind := if isError then "error" else "notice"
    let m := fields.foldl (pushErrorField maxBody) (plain .serverToClient title kind)
    if isError then withBoundary m "response" else m
  | .rowDescription columns names =>
    let shown := (names.take 32).map Utf8.fromUtf8Lossy
    let m := plain .serverToClient s!"RowDescription columns={columns}" "row-description"
    if shown.isEmpty then m else m.pushHeader "columns" (Str.join "," shown)
  | .fixed m => m

def bindContent (payload : Bytes) : Except String Content := do
  let (portal, rest) ← takeCstring payload
  let (statement, rest) ← takeCstring rest
  if rest.length < 2 then
    throw "truncated PostgreSQL Bind message"
  let formatsBytes := beNat (rest.take 2) * 2 + 2
  if rest.length < formatsBytes + 2 then
    throw "truncated PostgreSQL Bind formats"
  return .bind portal statement (beNat ((rest.drop formatsBytes).take 2))

def executeContent (payload : Bytes) : Except String Content := do
  let (portal, rest) ← takeCstring payload
  if rest.length ≠ 4 then
    throw "invalid PostgreSQL Execute message"
  return .execute portal (beNat rest)

def rowContent (payload : Bytes) : Except String Content := do
  if payload.length < 2 then
    throw "truncated PostgreSQL RowDescription"
  let columns := beNat (payload.take 2)
  return .rowDescription columns (← rowFields columns (payload.drop 2))

def statusContent (payload : Bytes) : Except String Content := do
  match ← cstrings payload with
  | name :: value :: _ => return .parameterStatus name value
  | _ => throw "invalid PostgreSQL ParameterStatus"

/-- The content of a frontend frame. -/
def frontendContent (tag : UInt8) (payload : Bytes) : Except String Content :=
  let fixed := fun (startLine kind : String) =>
    Except.ok (.fixed (plain .clientToServer startLine kind))
  match Char.ofNat tag.toNat with
  | 'Q' => (firstCstring payload).map .query
  | 'P' => do
      let (name, rest) ← takeCstring payload
      let (sql, _) ← takeCstring rest
      return .parse name sql
  | 'B' => bindContent payload
  | 'E' => executeContent payload
  | 'p' => fixed "AuthenticationResponse (credentials omitted)" "authentication-response"
  | 'C' => fixed "Close" "close"
  | 'D' => fixed "Describe" "describe"
  | 'F' => fixed "FunctionCall (arguments omitted)" "function-call"
  | 'd' => fixed "CopyData (payload omitted)" "copy-data"
  | 'c' => fixed "CopyDone" "copy-done"
  | 'f' => fixed "CopyFail (detail omitted)" "copy-fail"
  | 'H' => fixed "Flush" "flush"
  | 'S' => fixed "Sync" "sync"
  | 'X' => fixed "Terminate" "terminate"
  | _ =>
    let tagHex := Str.hex2 tag
    let size := payload.length
    fixed s!"FrontendMessage tag=0x{tagHex} bytes={size}" "unknown"

/-- The content of a backend frame. -/
def backendContent (tag : UInt8) (payload : Bytes) : Except String Content :=
  let fixed := fun (startLine kind : String) => Content.fixed (plain .serverToClient startLine kind)
  let final := fun (startLine kind : String) =>
    Content.fixed (withBoundary (plain .serverToClient startLine kind) "response")
  match Char.ofNat tag.toNat with
  | 'R' =>
    if payload.length < 4 then .error "truncated PostgreSQL Authentication message"
    else
      let name := authenticationName (beNat (payload.take 4))
      .ok (fixed s!"Authentication {name}" "authentication")
  | 'S' => statusContent payload
  | 'K' => .ok (fixed "BackendKeyData (key material omitted)" "backend-key-data")
  | 'Z' =>
    let status := Char.ofNat (payload.headD 63).toNat
    .ok (fixed s!"ReadyForQuery status={status}" "ready")
  | 'C' => (firstCstring payload).map .commandComplete
  | 'E' => (errorFields payload).map (.report true)
  | 'N' => (errorFields payload).map (.report false)
  | 'T' => rowContent payload
  | 'D' =>
    if payload.length < 2 then .error "truncated PostgreSQL DataRow"
    else
      let columns := beNat (payload.take 2)
      .ok (fixed s!"DataRow columns={columns} (values omitted)" "data-row")
  | '1' => .ok (fixed "ParseComplete" "parse-complete")
  | '2' => .ok (fixed "BindComplete" "bind-complete")
  | '3' => .ok (fixed "CloseComplete" "close-complete")
  | 'n' => .ok (fixed "NoData" "no-data")
  | 's' => .ok (final "PortalSuspended" "portal-suspended")
  | 'I' => .ok (final "EmptyQueryResponse" "empty-query")
  | 'A' => .ok (fixed "NotificationResponse (payload omitted)" "notification")
  | 'G' => .ok (fixed "CopyResponse" "copy-response")
  | 'H' => .ok (fixed "CopyResponse" "copy-response")
  | 'W' => .ok (fixed "CopyResponse" "copy-response")
  | 'd' => .ok (fixed "CopyData (payload omitted)" "copy-data")
  | 'c' => .ok (final "CopyDone" "copy-done")
  | _ =>
    let tagHex := Str.hex2 tag
    let size := payload.length
    .ok (fixed s!"BackendMessage tag=0x{tagHex} bytes={size}" "unknown")

/-- The content of a startup message. -/
def startupContent (version : Nat) (payload : Bytes) : Except String Content := do
  let major := version / 0x10000
  let minor := version % 0x10000
  if major ≠ 3 then
    throw s!"unsupported PostgreSQL protocol version {major}.{minor}"
  let fields ← cstrings payload
  if fields.length % 2 ≠ 0 then
    throw "PostgreSQL startup parameters are not key/value pairs"
  return .startup minor (pairs fields)

/-! ## Reading and writing -/

theorem bindMessage_eq (payload : Bytes) (maxBody : Nat) :
    bindMessage payload = (bindContent payload).map (Content.message maxBody) := by
  rw [bindMessage, bindContent]
  cases takeCstring payload with
  | error reason => rfl
  | ok first =>
    obtain ⟨portal, rest⟩ := first
    simp only [ok_bind]
    cases takeCstring rest with
    | error reason => rfl
    | ok second =>
      obtain ⟨statement, rest⟩ := second
      simp only [ok_bind]
      split
      · rfl
      · split
        · rfl
        · rfl

theorem executeMessage_eq (payload : Bytes) (maxBody : Nat) :
    executeMessage payload = (executeContent payload).map (Content.message maxBody) := by
  rw [executeMessage, executeContent]
  cases takeCstring payload with
  | error reason => rfl
  | ok first =>
    obtain ⟨portal, rest⟩ := first
    simp only [ok_bind]
    split
    · rfl
    · rfl

theorem frontendMessage_eq (tag : UInt8) (payload : Bytes) (maxBody : Nat) :
    frontendMessage tag payload maxBody =
      (frontendContent tag payload).map (Content.message maxBody) := by
  unfold frontendMessage
  generalize hletter : Char.ofNat tag.toNat = letter
  dsimp only
  split
  all_goals simp only [frontendContent, hletter]
  case h_1 =>
    cases firstCstring payload with
    | error reason => rfl
    | ok sql => rfl
  case h_2 =>
    cases takeCstring payload with
    | error reason => rfl
    | ok first =>
      obtain ⟨name, rest⟩ := first
      simp only [ok_bind]
      cases takeCstring rest with
      | error reason => rfl
      | ok second => rfl
  case h_3 => exact bindMessage_eq payload maxBody
  case h_4 => exact executeMessage_eq payload maxBody
  all_goals rfl

theorem rowDescription_eq (payload : Bytes) (maxBody : Nat) :
    rowDescription payload = (rowContent payload).map (Content.message maxBody) := by
  rw [rowDescription, rowContent]
  split
  · rfl
  · dsimp only
    cases rowFields (beNat (payload.take 2)) (payload.drop 2) with
    | error reason => rfl
    | ok names => rfl

theorem parameterStatus_eq (payload : Bytes) (maxBody : Nat) :
    parameterStatus payload = (statusContent payload).map (Content.message maxBody) := by
  rw [parameterStatus, statusContent]
  cases cstrings payload with
  | error reason => rfl
  | ok fields =>
    rcases fields with _ | ⟨_, _ | _⟩
    · rfl
    · rfl
    · rfl

theorem errorOrNotice_eq (isError : Bool) (payload : Bytes) (maxBody : Nat) :
    errorOrNotice isError payload maxBody =
      ((errorFields payload).map (.report isError)).map (Content.message maxBody) := by
  rw [errorOrNotice]
  cases errorFields payload with
  | error reason => rfl
  | ok fields => rfl

theorem backendMessage_eq (tag : UInt8) (payload : Bytes) (maxBody : Nat) :
    backendMessage tag payload maxBody =
      (backendContent tag payload).map (Content.message maxBody) := by
  unfold backendMessage
  generalize hletter : Char.ofNat tag.toNat = letter
  dsimp only
  split
  all_goals simp only [backendContent, hletter]
  case h_1 =>
    split
    · rfl
    · rfl
  case h_2 => exact parameterStatus_eq payload maxBody
  case h_5 =>
    cases firstCstring payload with
    | error reason => rfl
    | ok commandTag => rfl
  case h_6 => exact errorOrNotice_eq true payload maxBody
  case h_7 => exact errorOrNotice_eq false payload maxBody
  case h_8 => exact rowDescription_eq payload maxBody
  case h_9 =>
    split
    · rfl
    · rfl
  all_goals rfl

theorem startupMessage_eq (version : Nat) (payload : Bytes) (maxBody : Nat) :
    startupMessage version payload =
      (startupContent version payload).map (Content.message maxBody) := by
  rw [startupMessage, startupContent]
  dsimp only
  split
  · rfl
  next hmajor =>
    rw [not_not] at hmajor
    cases cstrings payload with
    | error reason => rfl
    | ok fields =>
      simp only [ok_bind, hmajor]
      split
      · rfl
      · rfl

/-! ## Sources -/

/-- What the decoder makes a message of: a startup message, or a typed frame. -/
inductive Source where
  | startup (version : Nat) (payload : Bytes)
  | typed (direction : Direction) (tag : UInt8) (payload : Bytes)

namespace Source

def payload : Source → Bytes
  | startup _ payload => payload
  | typed _ _ payload => payload

def content : Source → Except String Content
  | startup version payload => startupContent version payload
  | typed .clientToServer tag payload => frontendContent tag payload
  | typed .serverToClient tag payload => backendContent tag payload

def decode (maxBody : Nat) : Source → Except String DecodedMessage
  | startup version payload => startupMessage version payload
  | typed direction tag payload => decodeTyped direction tag payload maxBody

/-- The message of a source that shows a content. -/
def finish (m : DecodedMessage) : Source → DecodedMessage
  | startup _ _ => m
  | typed _ _ payload => withWireBytes m payload

/-- Reading does not know the cap, and writing knows nothing else of the frame but its size. -/
theorem decode_eq (source : Source) (maxBody : Nat) :
    source.decode maxBody =
      source.content.map fun c => source.finish (c.message maxBody) := by
  cases source with
  | startup version payload => exact startupMessage_eq version payload maxBody
  | typed direction tag payload =>
    cases direction with
    | clientToServer =>
      rw [decode, decodeTyped, decodeFrontend, frontendMessage_eq, content]
      cases frontendContent tag payload with
      | error reason => rfl
      | ok c => rfl
    | serverToClient =>
      rw [decode, decodeTyped, decodeBackend, backendMessage_eq, content]
      cases backendContent tag payload with
      | error reason => rfl
      | ok c => rfl

end Source

/-! ## Sizes -/

/-- A number with at most `k` digits. -/
theorem width_toString {n k : Nat} (hk : 0 < k) (hn : n < 10 ^ k) : width (toString n) ≤ k := by
  have hlist : (toString n).toList = Nat.toDigits 10 n := by
    rw [Nat.toString_eq_repr, Nat.repr_eq_ofList_toDigits, String.toList_ofList]
  have hascii : ∀ c ∈ Nat.toDigits 10 n, c.toNat < 0x80 := by
    intro c hc
    have hdigit := Nat.isDigit_of_mem_toDigits (by decide) (by decide) hc
    rw [Char.isDigit, Bool.and_eq_true, decide_eq_true_eq, decide_eq_true_eq] at hdigit
    exact Nat.lt_of_le_of_lt (UInt32.le_iff_toNat_le.mp hdigit.2) (by decide)
  rw [width, Utf8.asBytes, hlist, Utf8.length_encode_ascii hascii]
  exact Nat.toDigits_length 10 n k hk hn

theorem width_ofList (cs : List Char) : width (String.ofList cs) ≤ 4 * cs.length := by
  induction cs with
  | nil => exact Nat.le_refl 0
  | cons c cs ih =>
    rw [width, Utf8.asBytes_ofList] at ih ⊢
    rw [Utf8.encode_cons, length_append, String.length_utf8EncodeChar, length_cons]
    have hfour := c.utf8Size_le_four
    omega

/-- The bytes of the start line and of the stored part of a message. -/
def written (m : DecodedMessage) : Nat := width m.startLine + m.render.length

theorem written_pushHeader (m : DecodedMessage) (name value : String) :
    written (m.pushHeader name value) = written m + width name + width value + 4 := by
  have hcolon : (Utf8.asBytes ": ").length = 2 := by decide
  have hend : (Utf8.asBytes "\r\n").length = 2 := by decide
  simp only [written, DecodedMessage.render, DecodedMessage.pushHeader, flatMap_append,
    flatMap_singleton, renderHeader, length_append, width, hcolon, hend]
  omega

theorem written_plain (direction : Direction) (startLine kind : String) :
    written (plain direction startLine kind) = width startLine + width kind + 40 := by
  rw [plain, withKind, written_pushHeader]
  have hmessage : written (message direction startLine) = width startLine + 27 := rfl
  have hkind : width "lens-kind" = 9 := by decide
  omega

theorem width_authenticationName (code : Nat) : width (authenticationName code) ≤ 20 := by
  rw [authenticationName.eq_def]
  split
  all_goals decide

/-- The part of a content that is no text is small. -/
def Content.Small : Content → Prop
  | .bind _ _ parameters => parameters < 10 ^ 5
  | .execute _ maxRows => maxRows < 10 ^ 10
  | .startup minor _ => minor < 10 ^ 5
  | .rowDescription columns _ => columns < 10 ^ 5
  | .fixed m => written m ≤ 256
  | _ => True

section

variable {direction : Direction} {startLine kind : String}

theorem small_plain (h : width startLine + width kind ≤ 128) :
    (Content.fixed (plain direction startLine kind)).Small := by
  show written _ ≤ 256
  rw [written_plain]
  omega

theorem small_final (h : width startLine + width kind ≤ 128) :
    (Content.fixed (withBoundary (plain direction startLine kind) "response")).Small := by
  show written _ ≤ 256
  have hname : width "lens-boundary" = 13 := by decide
  have hvalue : width "response" = 8 := by decide
  rw [withBoundary, written_pushHeader, written_plain]
  omega

end

theorem beNat_take_two (bs : Bytes) : beNat (bs.take 2) < 10 ^ 5 := by
  have hlt := Search.beNat_lt (bs.take 2)
  have hle : 256 ^ (bs.take 2).length ≤ 256 ^ 2 :=
    Nat.pow_le_pow_right (by decide) (length_take_le 2 bs)
  omega

/-- The start line of a frame that is shown by its tag and its size. -/
theorem width_unknown {payload : Bytes} (title : String) (tag : UInt8)
    (hfit : payload.length ≤ maxFrameBytes) (htitle : width title ≤ 32) :
    width (title ++ Str.hex2 tag ++ " bytes=" ++ toString payload.length) + width "unknown" ≤
      128 := by
  have hsize : width (toString payload.length) ≤ 8 :=
    width_toString (by decide) (Nat.lt_of_le_of_lt hfit (by decide))
  have htag : width (Str.hex2 tag) ≤ 8 := width_ofList _
  have hbytes : width " bytes=" = 7 := by decide
  have hkind : width "unknown" = 7 := by decide
  rw [width_append, width_append, width_append]
  omega

/-! ## Replaced texts -/

/-- A text that can stand for another one on the wire. -/
def StandsFor (x y : Bytes) : Prop := y.length = x.length ∧ 0 ∉ y

/-- Two error fields with one code whose texts are related. -/
def FieldRel (R : Bytes → Bytes → Prop) (f f' : UInt8 × Bytes) : Prop :=
  f.1 = f'.1 ∧ R f.2 f'.2

/-- Two pairs whose texts are related. -/
def PairRel (R : Bytes → Bytes → Prop) (p p' : Bytes × Bytes) : Prop :=
  R p.1 p'.1 ∧ R p.2 p'.2

/-- Two contents whose texts are related one by one. -/
inductive Content.Rel (R : Bytes → Bytes → Prop) : Content → Content → Prop where
  | query {sql sql' : Bytes} : R sql sql' → Rel R (.query sql) (.query sql')
  | parse {name name' sql sql' : Bytes} : R name name' → R sql sql' →
      Rel R (.parse name sql) (.parse name' sql')
  | bind {portal portal' statement statement' : Bytes} {parameters : Nat} :
      R portal portal' → R statement statement' →
      Rel R (.bind portal statement parameters) (.bind portal' statement' parameters)
  | execute {portal portal' : Bytes} {maxRows : Nat} : R portal portal' →
      Rel R (.execute portal maxRows) (.execute portal' maxRows)
  | startup {minor : Nat} {parameters parameters' : List (Bytes × Bytes)} :
      List.Forall₂ (PairRel R) parameters parameters' →
      Rel R (.startup minor parameters) (.startup minor parameters')
  | parameterStatus {name name' value value' : Bytes} : R name name' → R value value' →
      Rel R (.parameterStatus name value) (.parameterStatus name' value')
  | commandComplete {commandTag commandTag' : Bytes} : R commandTag commandTag' →
      Rel R (.commandComplete commandTag) (.commandComplete commandTag')
  | report {isError : Bool} {fields fields' : List (UInt8 × Bytes)} :
      List.Forall₂ (FieldRel R) fields fields' →
      Rel R (.report isError fields) (.report isError fields')
  | rowDescription {columns : Nat} {names names' : List Bytes} :
      List.Forall₂ R names names' →
      Rel R (.rowDescription columns names) (.rowDescription columns names')
  | fixed (m : DecodedMessage) : Rel R (.fixed m) (.fixed m)

/-- A reader whose results can be replaced by related ones, in a payload of the same size. -/
def Replaceable {α : Type} (R : α → α → Prop) (reader : Bytes → Except String α) : Prop :=
  ∀ ⦃payload : Bytes⦄ ⦃c : α⦄, reader payload = .ok c →
    R c c ∧ ∀ {c' : α}, R c c' →
      ∃ payload', payload'.length = payload.length ∧ reader payload' = .ok c'

/-- The texts of a content can be replaced in its payload, and its other parts are small. -/
structure ReadsAs (reader : Bytes → Except String Content) (payload : Bytes)
    (c : Content) : Prop where
  small : payload.length ≤ maxFrameBytes → c.Small
  self : c.Rel StandsFor c
  replace : ∀ {c' : Content}, c.Rel StandsFor c' →
    ∃ payload', payload'.length = payload.length ∧ reader payload' = .ok c'

/-- A reader of such contents. -/
def Reads (reader : Bytes → Except String Content) : Prop :=
  ∀ ⦃payload : Bytes⦄ ⦃c : Content⦄, reader payload = .ok c → ReadsAs reader payload c

variable {α : Type} {R : α → α → Prop} {reader : Bytes → Except String α}
  {payload : Bytes} {c : α}

/-- A result that is related to itself only. -/
theorem replaceable_alone (h : reader payload = .ok c) (hself : R c c)
    (honly : ∀ {c'}, R c c' → c' = c) :
    R c c ∧ ∀ {c' : α}, R c c' →
      ∃ payload', payload'.length = payload.length ∧ reader payload' = .ok c' :=
  ⟨hself, fun hr => ⟨payload, rfl, honly hr ▸ h⟩⟩

/-- What a string at the front was read from. -/
theorem read_cstring {k : Bytes × Bytes → Except String α}
    (h : takeCstring payload >>= k = .ok c) :
    ∃ (x : CString) (rest : Bytes), payload = x.wire ++ rest ∧ k (x.1, rest) = .ok c := by
  rw [takeCstring] at h
  split at h
  · cases h
  next e he =>
    obtain ⟨hlt, hzero, hbefore⟩ := findIdx?_eq_some_iff_getElem.mp he
    have hnot : 0 ∉ payload.take e := by
      intro hmem
      obtain ⟨i, hi, hget⟩ := mem_take_iff_getElem.mp hmem
      have hne := hbefore i (by omega)
      rw [hget] at hne
      exact hne rfl
    refine ⟨⟨payload.take e, hnot⟩, payload.drop (e + 1), ?_, h⟩
    have hget : payload[e] = 0 := by simpa using hzero
    have hdrop : payload.drop e = 0 :: payload.drop (e + 1) := by
      rw [← hget, getElem_cons_drop]
    rw [CString.wire, append_assoc, singleton_append, ← hdrop, take_append_drop]

/-- The string that stands for another one. -/
def StandsFor.cstring {x y : Bytes} (h : StandsFor x y) : CString := ⟨y, h.2⟩

theorem StandsFor.length_wire {x : CString} {y : Bytes} (h : StandsFor x.1 y)
    {rest rest' : Bytes} (hrest : rest'.length = rest.length) :
    (h.cstring.wire ++ rest').length = (x.wire ++ rest).length := by
  rw [length_append, length_append, CString.length_wire, CString.length_wire, hrest]
  exact congrArg (· + 1 + rest.length) h.1

theorem CString.standsFor (x : CString) : StandsFor x.1 x.1 := ⟨rfl, x.2⟩

/-- A content of one text. -/
theorem reads_first {build : Bytes → Content} (hsmall : ∀ x, (build x).Small)
    (hbuild : ∀ {x c'}, (build x).Rel StandsFor c' ↔ ∃ y, StandsFor x y ∧ c' = build y) :
    Reads fun payload => (firstCstring payload).map build := by
  have hmap : ∀ payload, (firstCstring payload).map build =
      takeCstring payload >>= fun first => .ok (build first.1) := by
    intro payload
    rw [firstCstring]
    cases takeCstring payload with
    | error reason => rfl
    | ok first => rfl
  intro payload c h
  simp only [hmap] at h ⊢
  obtain ⟨x, rest, rfl, hk⟩ := read_cstring h
  cases hk
  refine ⟨fun _ => hsmall _, hbuild.mpr ⟨_, x.standsFor, rfl⟩, fun hr => ?_⟩
  obtain ⟨y, hy, rfl⟩ := hbuild.mp hr
  refine ⟨hy.cstring.wire ++ rest, hy.length_wire rfl, ?_⟩
  rw [takeCstring_wire, ok_bind]
  rfl

theorem reads_query : Reads fun payload => (firstCstring payload).map .query := by
  refine reads_first (fun _ => trivial) ⟨fun hr => ?_, fun ⟨y, hy, heq⟩ => heq ▸ .query hy⟩
  cases hr with
  | query hsql => exact ⟨_, hsql, rfl⟩

theorem reads_commandComplete :
    Reads fun payload => (firstCstring payload).map .commandComplete := by
  refine reads_first (fun _ => trivial)
    ⟨fun hr => ?_, fun ⟨y, hy, heq⟩ => heq ▸ .commandComplete hy⟩
  cases hr with
  | commandComplete htag => exact ⟨_, htag, rfl⟩

theorem reads_parse : Reads fun payload => do
    let (name, rest) ← takeCstring payload
    let (sql, _) ← takeCstring rest
    return .parse name sql := by
  intro payload c h
  obtain ⟨name, rest, rfl, hk⟩ := read_cstring h
  obtain ⟨sql, rest, rfl, hk'⟩ := read_cstring hk
  cases hk'
  refine ⟨fun _ => trivial, .parse name.standsFor sql.standsFor, fun hr => ?_⟩
  cases hr with
  | parse hname hsql =>
    refine ⟨hname.cstring.wire ++ (hsql.cstring.wire ++ rest),
      hname.length_wire (hsql.length_wire rfl), ?_⟩
    simp only [takeCstring_wire, ok_bind]
    rfl

theorem reads_bind : Reads bindContent := by
  intro payload c h
  rw [bindContent] at h
  obtain ⟨portal, rest, rfl, hk⟩ := read_cstring h
  obtain ⟨statement, rest, rfl, hk'⟩ := read_cstring hk
  dsimp only at hk'
  split at hk'
  · cases hk'
  next hshort =>
    split at hk'
    · cases hk'
    next hformats =>
      cases hk'
      refine ⟨fun _ => beNat_take_two _, .bind portal.standsFor statement.standsFor, fun hr => ?_⟩
      cases hr with
      | bind hportal hstatement =>
        refine ⟨hportal.cstring.wire ++ (hstatement.cstring.wire ++ rest),
          hportal.length_wire (hstatement.length_wire rfl), ?_⟩
        simp only [bindContent, takeCstring_wire, ok_bind]
        rw [if_neg hshort, if_neg hformats]
        rfl

theorem reads_execute : Reads executeContent := by
  intro payload c h
  rw [executeContent] at h
  obtain ⟨portal, rest, rfl, hk⟩ := read_cstring h
  dsimp only at hk
  split at hk
  · cases hk
  next hfour =>
    cases hk
    refine ⟨fun _ => ?_, .execute portal.standsFor, fun hr => ?_⟩
    · have hlt := Search.beNat_lt rest
      rw [not_not.mp hfour] at hlt
      exact Nat.lt_of_lt_of_le hlt (by decide)
    · cases hr with
      | execute hportal =>
        refine ⟨hportal.cstring.wire ++ rest, hportal.length_wire rfl, ?_⟩
        simp only [executeContent, takeCstring_wire, ok_bind]
        rw [if_neg hfour]
        rfl

/-! ## Lists of texts -/

theorem bind_ok {β : Type} {x : Except String α} {k : α → Except String β} {c : β}
    (h : x >>= k = .ok c) : ∃ a, x = .ok a ∧ k a = .ok c := by
  cases x with
  | error reason => cases h
  | ok a => exact ⟨a, rfl, h⟩

theorem replaceable_cstringsLoop (n : Nat) :
    Replaceable (List.Forall₂ StandsFor) (cstringsLoop n) := by
  induction n with
  | zero =>
    intro payload fields h
    cases h
    exact replaceable_alone rfl .nil forall₂_nil_left_iff.mp
  | succ n ih =>
    intro payload fields h
    have hread := h
    rw [cstringsLoop] at h
    split at h
    · cases h
      exact replaceable_alone hread .nil forall₂_nil_left_iff.mp
    · split at h
      · cases h
        exact replaceable_alone hread .nil forall₂_nil_left_iff.mp
      next hzero =>
        obtain ⟨value, rest, rfl, hk⟩ := read_cstring h
        obtain ⟨values, hvalues, hk'⟩ := bind_ok hk
        cases hk'
        obtain ⟨hself, hreplace⟩ := ih hvalues
        refine ⟨.cons value.standsFor hself, fun hr => ?_⟩
        cases hr with
        | cons hvalue hrest =>
          obtain ⟨rest', hlen, hread'⟩ := hreplace hrest
          have hlen' := hvalue.length_wire hlen
          refine ⟨hvalue.cstring.wire ++ rest', hlen', ?_⟩
          -- The replaced payload is no lone terminator, as it is as long as the first.
          rw [cstringsLoop_append n hvalue.cstring, hread']
          · rfl
          · intro hlone
            rw [hlone, length_append, CString.length_wire, length_singleton] at hlen'
            have hv : value.1 = [] := length_eq_zero_iff.mp (by omega)
            have hrest : rest = [] := length_eq_zero_iff.mp (by omega)
            exact hzero (by rw [CString.wire, hv, hrest]; rfl)

theorem replaceable_cstrings : Replaceable (List.Forall₂ StandsFor) cstrings := by
  intro payload fields h
  obtain ⟨hself, hreplace⟩ := replaceable_cstringsLoop payload.length h
  refine ⟨hself, fun hr => ?_⟩
  obtain ⟨payload', hlen, hread⟩ := hreplace hr
  exact ⟨payload', hlen, by rw [cstrings, hlen]; exact hread⟩

theorem replaceable_errorFieldsLoop (n : Nat) :
    Replaceable (List.Forall₂ (FieldRel StandsFor)) (errorFieldsLoop n) := by
  induction n with
  | zero =>
    intro payload fields h
    cases payload with
    | nil => cases h
    | cons code rest => cases h
  | succ n ih =>
    intro payload fields h
    cases payload with
    | nil => cases h
    | cons code rest =>
      have hread := h
      rw [errorFieldsLoop] at h
      split at h
      · cases h
        exact replaceable_alone hread .nil forall₂_nil_left_iff.mp
      next hzero =>
        obtain ⟨value, remaining, rfl, hk⟩ := read_cstring h
        obtain ⟨rest, hrest, hk'⟩ := bind_ok hk
        cases hk'
        obtain ⟨hself, hreplace⟩ := ih hrest
        refine ⟨.cons ⟨rfl, value.standsFor⟩ hself, fun hr => ?_⟩
        cases hr with
        | @cons _ f' _ _ hf hfields =>
          obtain ⟨remaining', hlen, hread'⟩ := hreplace hfields
          obtain ⟨code', value'⟩ := f'
          obtain ⟨rfl, hvalue⟩ := hf
          refine ⟨code :: (hvalue.cstring.wire ++ remaining'), ?_, ?_⟩
          · rw [length_cons, length_cons, hvalue.length_wire hlen]
          · simp only [errorFieldsLoop, if_neg hzero, takeCstring_wire, ok_bind, hread']
            rfl

theorem replaceable_rowFields (n : Nat) :
    Replaceable (List.Forall₂ StandsFor) (rowFields n) := by
  induction n with
  | zero =>
    intro payload names h
    cases h
    exact replaceable_alone rfl .nil forall₂_nil_left_iff.mp
  | succ n ih =>
    intro payload names h
    rw [rowFields] at h
    obtain ⟨name, afterName, rfl, hk⟩ := read_cstring h
    dsimp only at hk
    split at hk
    · cases hk
    next hlong =>
      obtain ⟨rest, hrest, hk'⟩ := bind_ok hk
      cases hk'
      obtain ⟨hself, hreplace⟩ := ih hrest
      refine ⟨.cons name.standsFor hself, fun hr => ?_⟩
      cases hr with
      | cons hname hnames =>
        obtain ⟨rest', hlen, hread⟩ := hreplace hnames
        have hlen' : (afterName.take 18 ++ rest').length = afterName.length := by
          rw [length_append, hlen, ← length_append, take_append_drop]
        have hdrop : (afterName.take 18 ++ rest').drop 18 = rest' :=
          drop_left' (by rw [length_take]; omega)
        refine ⟨hname.cstring.wire ++ (afterName.take 18 ++ rest'), hname.length_wire hlen', ?_⟩
        simp only [rowFields, takeCstring_wire, ok_bind, hlen', hdrop, hread]
        rw [if_neg hlong]
        rfl

theorem reads_status : Reads statusContent := by
  intro payload c h
  obtain ⟨fields, hfields, hk⟩ := bind_ok h
  obtain ⟨hself, hreplace⟩ := replaceable_cstrings hfields
  match fields, hk with
  | [], hk => cases hk
  | [_], hk => cases hk
  | name :: value :: more, hk =>
    cases hk
    cases hself with
    | cons hname hself =>
      cases hself with
      | cons hvalue hmore =>
        refine ⟨fun _ => trivial, .parameterStatus hname hvalue, fun hr => ?_⟩
        cases hr with
        | parameterStatus hname' hvalue' =>
          obtain ⟨payload', hlen, hread⟩ := hreplace (.cons hname' (.cons hvalue' hmore))
          refine ⟨payload', hlen, ?_⟩
          rw [statusContent, hread, ok_bind]
          rfl

theorem pairs_rel {R : Bytes → Bytes → Prop} :
    ∀ {fields fields' : List Bytes}, List.Forall₂ R fields fields' →
      List.Forall₂ (PairRel R) (pairs fields) (pairs fields')
  | _, _, .nil => .nil
  | _, _, .cons _ .nil => .nil
  | _, _, .cons hname (.cons hvalue hrest) => .cons ⟨hname, hvalue⟩ (pairs_rel hrest)

/-- Related pairs are the pairs of related strings. -/
theorem exists_pairs {R : Bytes → Bytes → Prop} :
    ∀ {fields : List Bytes} {ps : List (Bytes × Bytes)},
      fields.length % 2 = 0 → List.Forall₂ (PairRel R) (pairs fields) ps →
      ∃ fields', List.Forall₂ R fields fields' ∧ pairs fields' = ps
  | [], _, _, hr => by
    cases hr
    exact ⟨[], .nil, rfl⟩
  | [_], _, heven, _ => by cases heven
  | name :: value :: rest, _, heven, hr => by
    rw [pairs] at hr
    cases hr with
    | @cons _ p' _ ps hp hrest =>
      have heven' : rest.length % 2 = 0 := by
        rw [length_cons, length_cons] at heven
        omega
      obtain ⟨fields', hfields, hpairs⟩ := exists_pairs heven' hrest
      exact ⟨p'.1 :: p'.2 :: fields', .cons hp.1 (.cons hp.2 hfields), by rw [pairs, hpairs]⟩

theorem reads_startup (version : Nat) : Reads (startupContent version) := by
  intro payload c h
  rw [startupContent] at h
  dsimp only at h
  split at h
  · cases h
  next hmajor =>
    obtain ⟨fields, hfields, hk⟩ := bind_ok h
    split at hk
    · cases hk
    next heven =>
      cases hk
      obtain ⟨hself, hreplace⟩ := replaceable_cstrings hfields
      have hminor : version % 0x10000 < 10 ^ 5 :=
        Nat.lt_of_lt_of_le (Nat.mod_lt version (by decide)) (by decide)
      refine ⟨fun _ => hminor, .startup (pairs_rel hself), fun hr => ?_⟩
      cases hr with
      | startup hparameters =>
        obtain ⟨fields', hstands, hpairs⟩ := exists_pairs (not_not.mp heven) hparameters
        obtain ⟨payload', hlen, hread⟩ := hreplace hstands
        refine ⟨payload', hlen, ?_⟩
        rw [startupContent, if_neg hmajor, hread, ok_bind, ← hstands.length_eq, if_neg heven,
          hpairs]
        rfl

theorem reads_report (isError : Bool) :
    Reads fun payload => (errorFields payload).map (.report isError) := by
  intro payload c h
  dsimp only at h ⊢
  cases hfields : errorFields payload with
  | error reason =>
    rw [hfields] at h
    cases h
  | ok fields =>
    rw [hfields] at h
    cases h
    obtain ⟨hself, hreplace⟩ := replaceable_errorFieldsLoop payload.length hfields
    refine ⟨fun _ => trivial, .report hself, fun hr => ?_⟩
    cases hr with
    | report hr =>
      obtain ⟨payload', hlen, hread⟩ := hreplace hr
      refine ⟨payload', hlen, ?_⟩
      rw [errorFields, hlen, hread]
      rfl

theorem reads_row : Reads rowContent := by
  intro payload c h
  rw [rowContent] at h
  split at h
  · cases h
  next hshort =>
    obtain ⟨names, hnames, hk⟩ := bind_ok h
    cases hk
    obtain ⟨hself, hreplace⟩ := replaceable_rowFields _ hnames
    refine ⟨fun _ => beNat_take_two payload, .rowDescription hself, fun hr => ?_⟩
    cases hr with
    | rowDescription hr =>
      obtain ⟨rest', hlen, hread⟩ := hreplace hr
      have hlen' : (payload.take 2 ++ rest').length = payload.length := by
        rw [length_append, hlen, ← length_append, take_append_drop]
      have htwo : (payload.take 2).length = 2 := by
        rw [length_take]
        omega
      have htake : (payload.take 2 ++ rest').take 2 = payload.take 2 := take_left' htwo
      have hdrop : (payload.take 2 ++ rest').drop 2 = rest' := drop_left' htwo
      refine ⟨payload.take 2 ++ rest', hlen', ?_⟩
      rw [rowContent, hlen', if_neg hshort]
      simp only [htake, hdrop, hread]
      rfl

/-! ## Replaced sources -/

/-- A reader that agrees with another one. -/
theorem Reads.congr {reader reader' : Bytes → Except String Content} (h : Reads reader)
    (heq : ∀ payload, reader' payload = reader payload) : Reads reader' := by
  have hfun : reader' = reader := funext heq
  exact hfun ▸ h

theorem reads_fixed {reader : Bytes → Except String Content} {m : DecodedMessage}
    (h : reader payload = .ok (.fixed m))
    (hsmall : payload.length ≤ maxFrameBytes → (Content.fixed m).Small) :
    ReadsAs reader payload (.fixed m) := by
  refine ⟨hsmall, .fixed m, fun hr => ?_⟩
  cases hr
  exact ⟨payload, rfl, h⟩

theorem reads_frontend (tag : UInt8) : Reads (frontendContent tag) := by
  intro payload c h
  have hread := h
  unfold frontendContent at h
  dsimp only at h
  split at h
  case h_1 hletter =>
    exact (reads_query.congr fun p => by simp only [frontendContent, hletter]) hread
  case h_2 hletter =>
    exact (reads_parse.congr fun p => by simp only [frontendContent, hletter]) hread
  case h_3 hletter =>
    exact (reads_bind.congr fun p => by simp only [frontendContent, hletter]) hread
  case h_4 hletter =>
    exact (reads_execute.congr fun p => by simp only [frontendContent, hletter]) hread
  case h_15 =>
    cases h
    exact reads_fixed hread fun hfit =>
      small_plain (width_unknown "FrontendMessage tag=0x" tag hfit (by decide))
  all_goals
    cases h
    exact reads_fixed hread fun _ => small_plain (by decide)

theorem reads_backend (tag : UInt8) : Reads (backendContent tag) := by
  intro payload c h
  have hread := h
  unfold backendContent at h
  dsimp only at h
  split at h
  case h_1 =>
    split at h
    · cases h
    · cases h
      refine reads_fixed hread fun _ => small_plain ?_
      have hname := width_authenticationName (beNat (payload.take 4))
      have htitle : width "Authentication " = 15 := by decide
      have hkind : width "authentication" = 14 := by decide
      show width ("Authentication " ++ authenticationName (beNat (payload.take 4))) + _ ≤ _
      rw [width_append]
      omega
  case h_2 hletter =>
    exact (reads_status.congr fun p => by simp only [backendContent, hletter]) hread
  case h_4 =>
    cases h
    refine reads_fixed hread fun _ => small_plain ?_
    have hstatus := width_ofList [Char.ofNat (payload.headD 63).toNat]
    have htitle : width "ReadyForQuery status=" = 21 := by decide
    have hkind : width "ready" = 5 := by decide
    show width ("ReadyForQuery status=" ++
      String.ofList [Char.ofNat (payload.headD 63).toNat]) + _ ≤ _
    rw [width_append]
    rw [length_singleton] at hstatus
    omega
  case h_5 hletter =>
    exact (reads_commandComplete.congr fun p => by simp only [backendContent, hletter]) hread
  case h_6 hletter =>
    exact ((reads_report true).congr fun p => by simp only [backendContent, hletter]) hread
  case h_7 hletter =>
    exact ((reads_report false).congr fun p => by simp only [backendContent, hletter]) hread
  case h_8 hletter => exact (reads_row.congr fun p => by simp only [backendContent, hletter]) hread
  case h_9 =>
    split at h
    · cases h
    · cases h
      refine reads_fixed hread fun _ => small_plain ?_
      have hcount := width_toString (by decide) (beNat_take_two payload)
      have htitle : width "DataRow columns=" = 16 := by decide
      have hend : width " (values omitted)" = 17 := by decide
      have hkind : width "data-row" = 8 := by decide
      show width ("DataRow columns=" ++ toString (beNat (payload.take 2)) ++
        " (values omitted)") + _ ≤ _
      rw [width_append, width_append]
      omega
  case h_14 | h_15 | h_21 =>
    cases h
    exact reads_fixed hread fun _ => small_final (by decide)
  case h_22 =>
    cases h
    exact reads_fixed hread fun hfit =>
      small_plain (width_unknown "BackendMessage tag=0x" tag hfit (by decide))
  all_goals
    cases h
    exact reads_fixed hread fun _ => small_plain (by decide)

/-- Two sources of one kind and one size. -/
inductive Source.SameKind : Source → Source → Prop where
  | startup (version : Nat) {payload payload' : Bytes} :
      payload'.length = payload.length →
        SameKind (.startup version payload) (.startup version payload')
  | typed (direction : Direction) (tag : UInt8) {payload payload' : Bytes} :
      payload'.length = payload.length →
      SameKind (.typed direction tag payload) (.typed direction tag payload')

/-- The texts of a source can stand on the wire and can be replaced, and the rest is small. -/
theorem Source.reads {source : Source} {c : Content} (h : source.content = .ok c) :
    (source.payload.length ≤ maxFrameBytes → c.Small) ∧ c.Rel StandsFor c ∧
      ∀ {c' : Content}, c.Rel StandsFor c' →
        ∃ source', SameKind source source' ∧ source'.content = .ok c' := by
  cases source with
  | startup version payload =>
    obtain ⟨hsmall, hself, hreplace⟩ := reads_startup version h
    refine ⟨hsmall, hself, fun hr => ?_⟩
    obtain ⟨payload', hlen, hread⟩ := hreplace hr
    exact ⟨.startup version payload', .startup version hlen, hread⟩
  | typed direction tag payload =>
    have hreads : Reads fun payload => content (.typed direction tag payload) := by
      cases direction with
      | clientToServer => exact reads_frontend tag
      | serverToClient => exact reads_backend tag
    obtain ⟨hsmall, hself, hreplace⟩ := hreads h
    refine ⟨hsmall, hself, fun hr => ?_⟩
    obtain ⟨payload', hlen, hread⟩ := hreplace hr
    exact ⟨.typed direction tag payload', .typed _ tag hlen, hread⟩

end Lens.Postgres
