import Lens.Replay.Capture
import Lens.Store.Export

/-!
# Two formats

A snapshot is exported as a document or as one flow per line, and `lens-replay` reads both.  The
reader sees a document by its member `flows`.  A single line is one JSON value without that
member, and several lines are no JSON value, because a text goes on after the first.  In each case
the flows are the ones of the snapshot, as far as the reader keeps them (`capturedFlow`).
-/

namespace Lens.Replay

open List
open Store (StoreSnapshot StoredFlow FlowNumbers flowTree messageTree snapshotTree)

variable {text : String} {cs : List Char}

/-- What the reader keeps of a message. -/
def capturedMessage [Base64] (m : MessageRecord) : CaptureMessage where
  direction := m.envelope.direction.map Direction.text
  summary := m.summary
  body := Utf8.fromUtf8Lossy m.body
  wireBase64 := some (Base64.encode m.body)
  truncated := m.truncated
  sensitivity := m.envelope.sensitivity.text

/-- What the reader keeps of a flow. -/
def capturedFlow [Base64] (flow : StoredFlow) : CaptureFlow where
  flowId := flow.record.envelope.flowId.getD 0
  protocol := flow.record.protocol
  messages := flow.messages.map capturedMessage

/-! ## Structures -/

/-- A lookup finds the members of an object whose names are distinct. -/
def Finds (lookup : Lookup) : Prop :=
  ∀ (name : String) {members : List (String × Json)}, (members.map Prod.fst).Nodup →
    lookup name (.obj members) = some ((Json.obj members).get name)

theorem finds_last : Finds last := fun _ _ _ => rfl

theorem finds_once : Finds once := by
  intro name members hnames
  have hcount : (members.filter fun m => m.1 = name).length =
      (members.map Prod.fst).count name := by
    rw [List.count, countP_map, countP_eq_length_filter]
    rfl
  refine if_pos ?_
  rw [hcount]
  exact nodup_iff_count_le_one.1 hnames name

section Structures

variable {lookup : Lookup} (hlookup : Finds lookup)

include hlookup

theorem captureMessage_messageTree [Base64] (m : MessageRecord) :
    captureMessage lookup (messageTree m) = some (capturedMessage m) := by
  have hfind : ∀ name, lookup name (messageTree m) = some ((messageTree m).get name) :=
    fun name => hlookup name (by simp)
  have hwire : Json.asOption Json.asStr (.str (Base64.encode m.body)) =
      some (some (Base64.encode m.body)) := rfl
  simp only [captureMessage, required, optional, defaulted, hfind, Option.bind_some]
  simp [messageTree, Json.get, Json.asOption_str, hwire, capturedMessage]

theorem captureFlow_flowTree [Base64] {flow : StoredFlow}
    (hid : flow.record.envelope.flowId.getD 0 < 2 ^ 64) :
    captureFlow lookup (flowTree flow) = some (capturedFlow flow) := by
  have hfind : ∀ name, lookup name (flowTree flow) = some ((flowTree flow).get name) :=
    fun name => hlookup name (by simp)
  have hflowId : asU64 (.nat (flow.record.envelope.flowId.getD 0)) =
      some (flow.record.envelope.flowId.getD 0) := by
    rw [asU64, Json.asNat_nat, Option.bind_some, if_pos hid]
  have hmessages := Json.asList_map (fun m => captureMessage_messageTree hlookup m) flow.messages
  simp only [captureFlow, required, optional, defaulted, hfind, Option.bind_some]
  simp [flowTree, Json.get, Json.asOption_str, hflowId, hmessages, capturedFlow]

theorem captureDocument_snapshotTree [Base64] {s : StoreSnapshot}
    (hid : ∀ flow ∈ s.flows, flow.record.envelope.flowId.getD 0 < 2 ^ 64) :
    captureDocument lookup (snapshotTree s) = some (s.flows.map capturedFlow) := by
  have hfind : lookup "flows" (snapshotTree s) = some (some (.arr (s.flows.map flowTree))) :=
    hlookup "flows" (by simp)
  rw [captureDocument, required, hfind]
  exact Json.mapM_map fun flow hflow => captureFlow_flowTree hlookup (hid flow hflow)

end Structures

/-! ## Texts -/

/-- The numbers of a snapshot are of 64 bits, as their types in the source say. -/
structure InRange (s : StoreSnapshot) : Prop where
  evicted : s.evicted < 2 ^ 64
  flows : ∀ flow ∈ s.flows, FlowNumbers (· < 2 ^ 64) flow

theorem first_brace (h : text.toList = '{' :: cs) :
    text.toList.find? (fun c => !Str.isWhitespace c) = some '{' := by
  rw [h]
  rfl

/-- A text that starts with a brace is read as a value if it is one, or line by line. -/
theorem parseFlows_brace (serde : Serde) (h : text.toList = '{' :: cs) :
    parseFlows serde (Utf8.asBytes text) = match serde.value text with
      | .ok value => parseValue serde value
      | .error _ => parseJsonl serde text := by
  cases hvalue : serde.value text with
  | ok value => simp [parseFlows, orError, first_brace h, hvalue]
  | error e => simp [parseFlows, orError, first_brace h, hvalue]

theorem newline_space : ∀ c ∈ ['\n'], Json.isSpace c = true := by
  simp [Json.isSpace]

theorem toJsonLine_cons [Base64] (flow : StoredFlow) :
    ∃ cs, flow.toJsonLine.toList = '{' :: cs := by
  have hchars := Store.toList_toJsonLine flow
  rw [flowTree, Json.render] at hchars
  exact ⟨_, hchars⟩

/-- Joined lines start with a brace. -/
theorem join_cons [Base64] (flow : StoredFlow) (rest : List StoredFlow) (ending : String) :
    ∃ cs, (Str.join "\n" ((flow :: rest).map StoredFlow.toJsonLine) ++ ending).toList =
      '{' :: cs := by
  obtain ⟨cs, hline⟩ := toJsonLine_cons flow
  cases rest with
  | nil =>
    refine ⟨cs ++ ending.toList, ?_⟩
    rw [map_cons, map_nil, Str.join, String.toList_append, hline, cons_append]
  | cons next rest =>
    refine ⟨cs ++
      ("\n" ++ Str.join "\n" ((next :: rest).map StoredFlow.toJsonLine) ++ ending).toList, ?_⟩
    rw [map_cons, Str.join_cons _ _ (by simp), String.append_assoc, String.append_assoc,
      String.toList_append, hline, cons_append, String.append_assoc]

/-- A line is not blank. -/
theorem trim_toJsonLine [Base64] (flow : StoredFlow) : Str.trim flow.toJsonLine ≠ "" := by
  have hchars := Store.toList_toJsonLine flow
  rw [flowTree, Json.render] at hchars
  have htrim := congrArg Str.trimList hchars
  rw [Str.trimList_of_ends (by decide) (by decide)] at htrim
  intro hempty
  rw [Str.trim, htrim] at hempty
  have hnil := congrArg String.toList hempty
  rw [String.toList_ofList] at hnil
  cases hnil

theorem ofList_line (line text : String) :
    String.ofList (line.toList ++ '\n' :: text.toList) = line ++ "\n" ++ text := by
  apply String.toList_injective
  simp

/-- A line and a line feed are the value of the flow. -/
theorem parse_line [Base64] (flow : StoredFlow) :
    Json.parse (flow.toJsonLine ++ "\n") = some (flowTree flow) := by
  have hparse :=
    Json.parse_render Store.undone_escapeChar (Store.natural_flowTree flow) newline_space
  rw [← Store.toList_toJsonLine] at hparse
  have htext : ∀ line : String, String.ofList (line.toList ++ ['\n']) = line ++ "\n" := by
    intro line
    apply String.toList_injective
    simp
  rw [htext] at hparse
  exact hparse

/-- Several lines are no value. -/
theorem parse_lines [Base64] (flow : StoredFlow)
    (h : text.toList = '{' :: cs) : Json.parse (flow.toJsonLine ++ "\n" ++ text) = none := by
  have hparse := Json.parse_render_append Store.undone_escapeChar (Store.natural_flowTree flow)
    (Json.delimited_cons (c := '\n') text.toList (by decide)) (by rw [h]; exact cons_ne_nil _ _)
  rwa [← Store.toList_toJsonLine, ofList_line] at hparse

section Serde

variable {serde : Serde} (hserde : serde.Lawful)

include hserde

theorem parseLines_toJsonLine [Base64] : ∀ {flows : List StoredFlow} (index : Nat),
    (∀ flow ∈ flows, FlowNumbers (· < 2 ^ 64) flow) →
      parseLines serde index (flows.map StoredFlow.toJsonLine) = .ok (flows.map capturedFlow)
  | [], _, _ => rfl
  | flow :: flows, index, h => by
    rw [forall_mem_cons] at h
    have hflow := hserde.flow (Store.parse_toJsonLine flow) (Store.fits_flowTree h.1)
      (captureFlow_flowTree finds_once h.1.flowId)
    rw [map_cons, parseLines, if_neg (trim_toJsonLine flow), hflow,
      parseLines_toJsonLine (index + 1) h.2]
    rfl

variable {s : StoreSnapshot} (hs : InRange s)

include hs

theorem parseFlows_toJson [Base64] :
    parseFlows serde (Utf8.asBytes (s.toJson ++ "\n")) = .ok (s.flows.map capturedFlow) := by
  have hchars : (s.toJson ++ "\n").toList =
      Json.render Store.escapeChar (snapshotTree s) ++ ['\n'] := by
    rw [String.toList_append, Store.toList_toJson]
    rfl
  have hfits : Accepted (snapshotTree s) := Store.fits_snapshotTree hs.evicted hs.flows
  have hparse := Json.parse_render Store.undone_escapeChar hfits.natural newline_space
  rw [← hchars, String.ofList_toList] at hparse
  have hdocument := hserde.documentOf hfits
    (captureDocument_snapshotTree finds_last fun flow hflow => (hs.flows flow hflow).flowId)
  rw [snapshotTree, Json.render] at hchars
  rw [parseFlows_brace serde hchars, hserde.value_complete hparse hfits]
  show parseValue serde (snapshotTree s) = _
  rw [parseValue, if_pos (by rfl), hdocument]
  rfl

/-- One line is read as a flow. -/
theorem parseFlows_line [Base64] {flow : StoredFlow} (hflows : s.flows = [flow]) :
    parseFlows serde (Utf8.asBytes (s.toJsonl ++ "\n")) = .ok [capturedFlow flow] := by
  have hnumbers : FlowNumbers (· < 2 ^ 64) flow := hs.flows flow (by rw [hflows]; exact .head _)
  have hfits : Accepted (flowTree flow) := Store.fits_flowTree hnumbers
  have htext : s.toJsonl = flow.toJsonLine := by
    rw [StoreSnapshot.toJsonl, hflows]
    rfl
  obtain ⟨cs, hchars⟩ := toJsonLine_cons flow
  have hbrace : (flow.toJsonLine ++ "\n").toList = '{' :: (cs ++ ['\n']) := by
    rw [String.toList_append, hchars]
    rfl
  have hflow := hserde.flowOf hfits (captureFlow_flowTree finds_last hnumbers.flowId)
  rw [htext, parseFlows_brace serde hbrace, hserde.value_complete (parse_line flow) hfits]
  show parseValue serde (flowTree flow) = _
  have hkey : ((flowTree flow).get "flows").isSome = false := by rfl
  rw [parseValue, hkey, hflow]
  rfl

/-- Several lines are read one by one. -/
theorem parseFlows_lines [Base64] {first second : StoredFlow} {rest : List StoredFlow}
    (hflows : s.flows = first :: second :: rest) :
    parseFlows serde (Utf8.asBytes (s.toJsonl ++ "\n")) = .ok (s.flows.map capturedFlow) := by
  have hjoin : s.toJsonl ++ "\n" =
      first.toJsonLine ++ "\n" ++
        (Str.join "\n" ((second :: rest).map StoredFlow.toJsonLine) ++ "\n") := by
    rw [StoreSnapshot.toJsonl, hflows, map_cons, Str.join_cons _ _ (by simp), String.append_assoc]
  obtain ⟨cs, hbrace⟩ := join_cons first (second :: rest) "\n"
  obtain ⟨ds, hmore⟩ := join_cons second rest "\n"
  rw [← hflows, ← StoreSnapshot.toJsonl] at hbrace
  have hparse := parse_lines first hmore
  rw [← hjoin] at hparse
  have hlines : Str.lines (s.toJsonl ++ "\n") = s.flows.map StoredFlow.toJsonLine := by
    rw [StoreSnapshot.toJsonl]
    refine Str.lines_join (.inr rfl) (by simp [hflows]) fun l hl => ?_
    obtain ⟨flow, -, rfl⟩ := mem_map.1 hl
    exact Store.toJsonLine_clean flow
  have hjsonl : parseJsonl serde (s.toJsonl ++ "\n") = .ok (s.flows.map capturedFlow) := by
    rw [parseJsonl, hlines, parseLines_toJsonLine hserde 0 hs.flows]
    simp [hflows]
  rw [parseFlows_brace serde hbrace]
  cases hvalue : serde.value (s.toJsonl ++ "\n") with
  | ok value =>
    rw [hserde.value_sound hvalue] at hparse
    cases hparse
  | error e => exact hjsonl

end Serde

/-- A snapshot without flows is an empty capture. -/
theorem parseFlows_none [Base64] (serde : Serde) {s : StoreSnapshot} (hflows : s.flows = []) :
    parseFlows serde (Utf8.asBytes (s.toJsonl ++ "\n")) = .error "capture is empty" := by
  have htext : s.toJsonl = "" := by
    rw [StoreSnapshot.toJsonl, hflows]
    rfl
  rw [htext]
  rfl

/-- Both formats give the same plan, or both give none. -/
theorem parsePlan_formats [Base64] (http : HttpTypes) {serde : Serde} (hserde : serde.Lawful)
    {s : StoreSnapshot} (hs : InRange s)
    (hjson : (Utf8.asBytes (s.toJson ++ "\n")).length ≤ maxCaptureBytes)
    (hjsonl : (Utf8.asBytes (s.toJsonl ++ "\n")).length ≤ maxCaptureBytes)
    (selection : ReplaySelection) :
    (parsePlan http serde (Utf8.asBytes (s.toJson ++ "\n")) selection).toOption =
      (parsePlan http serde (Utf8.asBytes (s.toJsonl ++ "\n")) selection).toOption := by
  rw [parsePlan, parsePlan, if_neg (Nat.not_lt.2 hjson), if_neg (Nat.not_lt.2 hjsonl),
    parseFlows_toJson hserde hs]
  cases hflows : s.flows with
  | nil =>
    rw [parseFlows_none serde hflows]
    cases selection.flowId <;> rfl
  | cons first rest =>
    cases rest with
    | nil => rw [parseFlows_line hserde hs hflows]; rfl
    | cons second rest => rw [parseFlows_lines hserde hs hflows, hflows]

/-- The reader that accepts every JSON text. -/
def grammar : Serde where
  value text := orError "invalid JSON" (Json.parse text)
  flows text := orError "invalid flows" ((Json.parse text).bind (Json.asList (captureFlow once)))
  flow text := orError "invalid flow" ((Json.parse text).bind (captureFlow once))
  flowOf j := orError "invalid flow" (captureFlow last j)
  documentOf j := orError "invalid document" (captureDocument last j)

theorem grammar_lawful : grammar.Lawful where
  value_sound := by
    intro text j h
    cases hparse : Json.parse text with
    | none => simp [grammar, hparse, orError] at h
    | some value => simpa [grammar, hparse, orError] using h
  value_complete := by
    intro text j h _
    simp [grammar, h, orError]
  flow := by
    intro text j flow h _ hflow
    simp [grammar, h, hflow, orError]
  flowOf := by
    intro j flow _ hflow
    simp [grammar, hflow, orError]
  documentOf := by
    intro j flows _ hflows
    simp [grammar, hflows, orError]

/-- The bytes of pairs of hexadecimal digits. -/
def hexBytes : List Char → Except String Bytes
  | [] => .ok []
  | high :: low :: rest => do
    let byte ← orError "no digits" (Str.digitsValue 16 0 [high, low])
    let bytes ← hexBytes rest
    return UInt8.ofNat byte :: bytes
  | _ => .error "an odd number of digits"

theorem hexBytes_hex2 (b : UInt8) (rest : List Char) :
    hexBytes ((Str.hex2 b).toList ++ rest) = (b :: ·) <$> hexBytes rest := by
  have hb := b.toNat_lt
  have hhigh := Store.digit_digitChar_hex (d := b.toNat / 16) (by omega)
  have hlow := Store.digit_digitChar_hex (d := b.toNat % 16) (by omega)
  have hvalue : b.toNat / 16 * 16 + b.toNat % 16 = b.toNat := by omega
  simp [Str.hex2, hexBytes, Str.digitsValue, hhigh, hlow, orError, hvalue]
  rfl

/-- The text of bytes as pairs of hexadecimal digits. -/
def hexText (bytes : Bytes) : String :=
  String.ofList (bytes.flatMap fun b => (Str.hex2 b).toList)

theorem hexBytes_hexText (bytes : Bytes) : hexBytes (hexText bytes).toList = .ok bytes := by
  rw [hexText, String.toList_ofList]
  induction bytes with
  | nil => rfl
  | cons b bytes ih => rw [flatMap_cons, hexBytes_hex2, ih]; rfl

theorem alphanum_hexText (bytes : Bytes) (c : Char) (hc : c ∈ (hexText bytes).toList) :
    c.isAlphanum = true ∨ c ∈ ['+', '/', '='] := by
  rw [hexText, String.toList_ofList, mem_flatMap] at hc
  obtain ⟨b, -, hc⟩ := hc
  have halnum : ∀ n < 16, n.digitChar.isAlphanum = true := by decide
  have hb := b.toNat_lt
  rw [Str.hex2, String.toList_ofList, mem_cons, mem_singleton] at hc
  rcases hc with rfl | rfl
  · exact .inl (halnum _ (by omega))
  · exact .inl (halnum _ (by omega))

/-- An engine that writes two hexadecimal digits for a byte. -/
local instance hexadecimal : Base64 where
  encode := hexText
  decode text := hexBytes text.toList
  decode_encode := hexBytes_hexText
  alphabet := alphanum_hexText

/-- Every text is legal. -/
def anyHttp : HttpTypes := ⟨fun _ => true, fun _ => true, fun _ => true, fun _ => none⟩

/-- A flow with one request. -/
def oneRequest (flowId : FlowId) : StoredFlow :=
  let envelope := { EventEnvelope.new "message.decoded" 1 .decoder with
    messageId := some 1, direction := some .clientToServer }
  let record :=
    { FlowRecord.new { EventEnvelope.new "flow.opened" 1 .proxy with flowId := some flowId }
    ⟨"a", 1⟩ ⟨"b", 2⟩ with protocol := some "http1" }
  ⟨record, 0, 0, none, none,
    [⟨envelope, "GET / HTTP/1.1", Utf8.asBytes "A: b\r\n\r\n", false, none⟩], [], 0⟩

theorem oneRequest_numbers {flowId : FlowId} (h : flowId < 2 ^ 64) :
    FlowNumbers (· < 2 ^ 64) (oneRequest flowId) where
  flowId := h
  pid := fun _ hidentity => by cases hidentity
  clientToUpstreamBytes := Nat.two_pow_pos 64
  upstreamToClientBytes := Nat.two_pow_pos 64
  pluginFailures := Nat.two_pow_pos 64
  messages := by
    intro m hm
    obtain rfl := mem_singleton.1 hm
    exact ⟨by decide, fun _ hn => by cases hn⟩

def oneFlow : StoreSnapshot := ⟨[oneRequest 1], 0⟩

theorem inRange_oneFlow : InRange oneFlow := by
  refine ⟨Nat.two_pow_pos 64, fun flow hflow => ?_⟩
  obtain rfl := mem_singleton.1 hflow
  exact oneRequest_numbers (by decide)

/-- The length of an export is counted on its rendering. -/
theorem length_newline (text : String) (h : text.toList = cs)
    (hlen : (Utf8.encode cs).length + 1 ≤ maxCaptureBytes) :
    (Utf8.asBytes (text ++ "\n")).length ≤ maxCaptureBytes := by
  rw [Utf8.asBytes_append, length_append, Utf8.asBytes, h]
  exact hlen

theorem length_toJson_oneFlow :
    (Utf8.asBytes (oneFlow.toJson ++ "\n")).length ≤ maxCaptureBytes :=
  length_newline _ (Store.toList_toJson oneFlow) (by decide +kernel)

theorem length_toJsonl_oneFlow :
    (Utf8.asBytes (oneFlow.toJsonl ++ "\n")).length ≤ maxCaptureBytes :=
  length_newline (oneRequest 1).toJsonLine (Store.toList_toJsonLine (oneRequest 1))
    (by decide +kernel)

theorem parsePlan_oneFlow :
    (parsePlan anyHttp grammar (Utf8.asBytes (oneFlow.toJson ++ "\n")) ⟨some 1, 1⟩).toOption =
      (parsePlan anyHttp grammar (Utf8.asBytes (oneFlow.toJsonl ++ "\n")) ⟨some 1, 1⟩).toOption :=
  parsePlan_formats anyHttp grammar_lawful inRange_oneFlow length_toJson_oneFlow
    length_toJsonl_oneFlow ⟨some 1, 1⟩

end Lens.Replay
