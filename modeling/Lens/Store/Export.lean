import Lens.Store.Actor
import Lens.Text.Base64
import Lens.Text.Json

/-!
# Export

A snapshot of the store is exported as text, one JSON object per line or one JSON document.
The source writes the objects by formatting.  `flowTree` is the JSON value of a flow, and
what the source writes is the rendering of that value with `escapeChar` (`toList_toJsonLine`).
So a text is read back by the JSON reader, and `readFlow` takes each exported field out of it
again (`readFlow_flowTree`).  The engine of the `base64` crate is a parameter.
-/

namespace Lens.Store

open List

/-! ## What is written -/

/-- A number, or `null`. -/
def jsonNumber : Option Nat → String
  | none => "null"
  | some n => toString n

def identityJson : Option ServiceIdentity → String
  | none => "null"
  | some identity =>
    "\x7b\"pid\":" ++ jsonNumber identity.pid
      ++ ",\"process\":" ++ jsonString identity.process
      ++ ",\"service\":" ++ jsonString identity.service
      ++ ",\"container\":" ++ jsonString identity.container ++ "\x7d"

def messageJson [Base64] (m : MessageRecord) : String :=
  "\x7b\"message_id\":" ++ toString (m.envelope.messageId.getD 0)
    ++ ",\"direction\":" ++ jsonString (m.envelope.direction.map Direction.text)
    ++ ",\"summary\":\"" ++ escapeJson m.summary
    ++ "\",\"body\":\"" ++ escapeJson (Utf8.fromUtf8Lossy m.body)
    ++ "\",\"wire_base64\":\"" ++ Base64.encode m.body
    ++ "\",\"truncated\":" ++ toString m.truncated
    ++ ",\"latency_nanos\":" ++ jsonNumber m.latencyNanos
    ++ ",\"sensitivity\":\"" ++ m.envelope.sensitivity.text ++ "\"\x7d"

def messagesJson [Base64] (messages : List MessageRecord) : String :=
  "[" ++ Str.join "," (messages.map messageJson) ++ "]"

def pluginAnnotationJson (note : PluginAnnotation) : String :=
  "\x7b\"plugin\":\"" ++ escapeJson note.plugin
    ++ "\",\"value\":\"" ++ escapeJson note.value ++ "\"\x7d"

def pluginAnnotationsJson (notes : List PluginAnnotation) : String :=
  "[" ++ Str.join "," (notes.map pluginAnnotationJson) ++ "]"

def StoredFlow.toJsonLine [Base64] (flow : StoredFlow) : String :=
  "\x7b\"schema_version\":\"1.3\",\"flow_id\":" ++ toString (flow.record.envelope.flowId.getD 0)
    ++ ",\"client\":\"" ++ escapeJson flow.record.client.text
    ++ "\",\"upstream\":\"" ++ escapeJson flow.record.upstream.text
    ++ "\",\"identity\":" ++ identityJson flow.record.identity
    ++ ",\"protocol\":" ++ jsonString flow.record.protocol
    ++ ",\"state\":\"" ++ flow.record.state.text
    ++ "\",\"client_to_upstream_bytes\":" ++ toString flow.clientToUpstreamBytes
    ++ ",\"upstream_to_client_bytes\":" ++ toString flow.upstreamToClientBytes
    ++ ",\"failure\":" ++ jsonString flow.failure
    ++ ",\"decoder_error\":" ++ jsonString flow.decoderError
    ++ ",\"plugin_annotations\":" ++ pluginAnnotationsJson flow.pluginAnnotations
    ++ ",\"plugin_failures\":" ++ toString flow.pluginFailures
    ++ ",\"messages\":" ++ messagesJson flow.messages ++ "\x7d"

structure StoreSnapshot where
  flows : List StoredFlow
  evicted : Nat
deriving DecidableEq, Repr

namespace StoreSnapshot

/-- One object per line. -/
def toJsonl [Base64] (s : StoreSnapshot) : String :=
  Str.join "\n" (s.flows.map StoredFlow.toJsonLine)

/-- One document. -/
def toJson [Base64] (s : StoreSnapshot) : String :=
  "\x7b\"evicted\":" ++ toString s.evicted ++ ",\"flows\":["
    ++ Str.join "," (s.flows.map StoredFlow.toJsonLine) ++ "]\x7d"

end StoreSnapshot

/-- `StoreHandle::snapshot`. -/
def StoreActor.snapshot {η : Type} (s : StoreActor η) : StoreSnapshot := ⟨s.flows, s.evicted⟩

/-! ## Values -/

def identityTree (identity : ServiceIdentity) : Json :=
  .obj [("pid", .orNull .nat identity.pid), ("process", .orNull .str identity.process),
    ("service", .orNull .str identity.service), ("container", .orNull .str identity.container)]

def messageTree [Base64] (m : MessageRecord) : Json :=
  .obj [("message_id", .nat (m.envelope.messageId.getD 0)),
    ("direction", .orNull .str (m.envelope.direction.map Direction.text)),
    ("summary", .str m.summary), ("body", .str (Utf8.fromUtf8Lossy m.body)),
    ("wire_base64", .str (Base64.encode m.body)), ("truncated", .bool m.truncated),
    ("latency_nanos", .orNull .nat m.latencyNanos),
    ("sensitivity", .str m.envelope.sensitivity.text)]

def annotationTree (note : PluginAnnotation) : Json :=
  .obj [("plugin", .str note.plugin), ("value", .str note.value)]

def flowTree [Base64] (flow : StoredFlow) : Json :=
  .obj [("schema_version", .str "1.3"), ("flow_id", .nat (flow.record.envelope.flowId.getD 0)),
    ("client", .str flow.record.client.text), ("upstream", .str flow.record.upstream.text),
    ("identity", .orNull identityTree flow.record.identity),
    ("protocol", .orNull .str flow.record.protocol), ("state", .str flow.record.state.text),
    ("client_to_upstream_bytes", .nat flow.clientToUpstreamBytes),
    ("upstream_to_client_bytes", .nat flow.upstreamToClientBytes),
    ("failure", .orNull .str flow.failure), ("decoder_error", .orNull .str flow.decoderError),
    ("plugin_annotations", .arr (flow.pluginAnnotations.map annotationTree)),
    ("plugin_failures", .nat flow.pluginFailures),
    ("messages", .arr (flow.messages.map messageTree))]

def snapshotTree [Base64] (s : StoreSnapshot) : Json :=
  .obj [("evicted", .nat s.evicted), ("flows", .arr (s.flows.map flowTree))]

/-! ## Numbers and depth -/

/-- The exported numbers of a message. -/
structure MessageNumbers (p : Nat → Prop) (m : MessageRecord) : Prop where
  messageId : p (m.envelope.messageId.getD 0)
  latencyNanos : ∀ n ∈ m.latencyNanos, p n

/-- The exported numbers of a flow. -/
structure FlowNumbers (p : Nat → Prop) (flow : StoredFlow) : Prop where
  flowId : p (flow.record.envelope.flowId.getD 0)
  pid : ∀ identity ∈ flow.record.identity, ∀ n ∈ identity.pid, p n
  clientToUpstreamBytes : p flow.clientToUpstreamBytes
  upstreamToClientBytes : p flow.upstreamToClientBytes
  pluginFailures : p flow.pluginFailures
  messages : ∀ m ∈ flow.messages, MessageNumbers p m

variable (flow : StoredFlow) (s : StoreSnapshot)

theorem flowNumbers_true : FlowNumbers (fun _ => True) flow :=
  ⟨trivial, fun _ _ _ _ => trivial, trivial, trivial, trivial,
    fun _ _ => ⟨trivial, fun _ _ => trivial⟩⟩

section Fits

open Json (Fits)

variable {p : Nat → Prop} {d : Nat}

theorem fits_strings (text : Option String) : Fits p d (.orNull .str text) :=
  .orNull fun s _ => .str s

theorem fits_identityTree {identity : ServiceIdentity} (h : ∀ n ∈ identity.pid, p n) :
    Fits p (d + 1) (identityTree identity) := by
  refine .obj fun m hm => ?_
  simp only [mem_cons, not_mem_nil, or_false] at hm
  rcases hm with rfl | rfl | rfl | rfl
  · exact .orNull fun n hn => .nat (h n hn)
  all_goals exact fits_strings _

theorem fits_messageTree [Base64] {m : MessageRecord} (h : MessageNumbers p m) :
    Fits p (d + 1) (messageTree m) := by
  refine .obj fun member hm => ?_
  simp only [mem_cons, not_mem_nil, or_false] at hm
  rcases hm with rfl | rfl | rfl | rfl | rfl | rfl | rfl | rfl
  · exact .nat h.messageId
  · exact fits_strings _
  · exact .str _
  · exact .str _
  · exact .str _
  · exact .bool _
  · exact .orNull fun n hn => .nat (h.latencyNanos n hn)
  · exact .str _

theorem fits_annotationTree (note : PluginAnnotation) : Fits p (d + 1) (annotationTree note) := by
  refine .obj fun member hm => ?_
  simp only [mem_cons, not_mem_nil, or_false] at hm
  rcases hm with rfl | rfl
  all_goals exact .str _

theorem fits_flowTree [Base64] {flow : StoredFlow} (h : FlowNumbers p flow) :
    Fits p (d + 3) (flowTree flow) := by
  refine .obj fun member hm => ?_
  simp only [mem_cons, not_mem_nil, or_false] at hm
  rcases hm with rfl | rfl | rfl | rfl | rfl | rfl | rfl | rfl | rfl | rfl | rfl | rfl | rfl | rfl
  · exact .str _
  · exact .nat h.flowId
  · exact .str _
  · exact .str _
  · exact .orNull fun identity hidentity => fits_identityTree (h.pid identity hidentity)
  · exact fits_strings _
  · exact .str _
  · exact .nat h.clientToUpstreamBytes
  · exact .nat h.upstreamToClientBytes
  · exact fits_strings _
  · exact fits_strings _
  · exact .map fun note _ => fits_annotationTree note
  · exact .nat h.pluginFailures
  · exact .map fun m hm => fits_messageTree (h.messages m hm)

theorem fits_snapshotTree [Base64] {s : StoreSnapshot} (hevicted : p s.evicted)
    (hflows : ∀ flow ∈ s.flows, FlowNumbers p flow) : Fits p (d + 5) (snapshotTree s) := by
  refine .obj fun member hm => ?_
  simp only [mem_cons, not_mem_nil, or_false] at hm
  rcases hm with rfl | rfl
  · exact .nat hevicted
  · exact .map fun flow hflow => fits_flowTree (hflows flow hflow)

end Fits

theorem natural_flowTree [Base64] : (flowTree flow).Natural :=
  (fits_flowTree (d := 0) (flowNumbers_true flow)).natural

theorem natural_snapshotTree [Base64] : (snapshotTree s).Natural :=
  (fits_snapshotTree (d := 0) trivial fun flow _ => flowNumbers_true flow).natural

/-! ## The texts are renderings -/

section Rendering

open Json (render renderItems renderMembers)

/-- A name that needs no escapes. -/
theorem quote_name {name : String} (h : name.toList.flatMap escapeChar = name.toList) :
    Json.quote escapeChar name = '"' :: (name.toList ++ ['"']) := by
  rw [Json.quote, h]

theorem render_obj (members : List (String × Json)) :
    render escapeChar (.obj members) = '{' :: (renderMembers escapeChar members ++ ['}']) := by
  rw [render]

theorem toList_escapeJson (text : String) :
    '"' :: ((escapeJson text).toList ++ ['"']) = render escapeChar (.str text) := by
  rw [render, Json.quote, escapeJson, String.toList_ofList]

theorem toList_jsonString : ∀ value : Option String,
    (jsonString value).toList = render escapeChar (.orNull .str value)
  | none => by simp [jsonString, Json.orNull, render]
  | some value => by simp [jsonString, Json.orNull, render, Json.quote, escapeJson]

theorem toList_jsonNumber : ∀ value : Option Nat,
    (jsonNumber value).toList = render escapeChar (.orNull .nat value)
  | none => by simp [jsonNumber, Json.orNull, render]
  | some n => by rw [jsonNumber, Json.orNull, Json.nat, render, Str.toList_toString]

theorem toList_nat (n : Nat) : (toString n).toList = render escapeChar (.nat n) := by
  rw [Json.nat, render, Str.toList_toString]

theorem toList_bool (b : Bool) : (toString b).toList = render escapeChar (.bool b) := by
  cases b <;> rw [render] <;> rfl

/-- Characters that stand for themselves. -/
theorem flatMap_escapeChar {cs : List Char} (h : ∀ c ∈ cs, escapeChar c = [c]) :
    cs.flatMap escapeChar = cs := by
  induction cs with
  | nil => rfl
  | cons c cs ih =>
    rw [forall_mem_cons] at h
    rw [flatMap_cons, h.1, ih h.2, singleton_append]

theorem isControl_alphanum {c : Char} (h : c.isAlphanum = true) : isControl c = false := by
  simp [Char.isAlphanum, Char.isAlpha, Char.isUpper, Char.isLower, Char.isDigit,
    UInt32.le_iff_toNat_le] at h
  simp only [isControl, Bool.or_eq_false_iff, Bool.and_eq_false_iff, decide_eq_false_iff_not]
  omega

theorem escapeChar_alphanum {c : Char} (h : c.isAlphanum = true) : escapeChar c = [c] := by
  have hne : ∀ d ∈ ['"', '\\', '\n', '\r', '\t'], c ≠ d := by
    rintro d hd rfl
    fin_cases hd <;> cases h
  simp only [mem_cons, not_mem_nil, or_false, forall_eq_or_imp, forall_eq] at hne
  simp [escapeChar, hne, isControl_alphanum h]

theorem escapeJson_base64 [Base64] (bytes : Bytes) :
    escapeJson (Base64.encode bytes) = Base64.encode bytes := by
  have hplain : (Base64.encode bytes).toList.flatMap escapeChar = (Base64.encode bytes).toList := by
    refine flatMap_escapeChar fun c hc => ?_
    rcases Base64.alphabet bytes c hc with halnum | hmem
    · exact escapeChar_alphanum halnum
    · fin_cases hmem <;> rfl
  rw [escapeJson, hplain, String.ofList_toList]

theorem escapeJson_sensitivity (s : Sensitivity) : escapeJson s.text = s.text := by
  cases s <;> rfl

theorem escapeJson_state (s : FlowState) : escapeJson s.text = s.text := by
  cases s <;> rfl

theorem toList_join {α : Type} {f : α → String} {g : α → Json}
    (h : ∀ a, (f a).toList = render escapeChar (g a)) : ∀ as : List α,
      (Str.join "," (as.map f)).toList = renderItems escapeChar (as.map g)
  | [] => by simp [Str.join, renderItems]
  | [a] => by simp [Str.join, renderItems, h]
  | a :: b :: as => by
    have hrest := toList_join h (b :: as)
    have htext : Str.join "," ((a :: b :: as).map f) =
        f a ++ "," ++ Str.join "," ((b :: as).map f) := Str.join_cons _ _ (by simp)
    have htree : renderItems escapeChar ((a :: b :: as).map g) =
        render escapeChar (g a) ++ ',' :: renderItems escapeChar ((b :: as).map g) :=
      Json.renderItems_cons _ (by simp)
    rw [htext, htree, String.toList_append, String.toList_append, hrest, h, append_assoc]
    rfl

theorem toList_identityJson : ∀ identity : Option ServiceIdentity,
    (identityJson identity).toList = render escapeChar (.orNull identityTree identity)
  | none => by simp [identityJson, Json.orNull, render]
  | some identity => by
    rw [identityJson, Json.orNull, identityTree, render]
    simp (disch := decide) only [renderMembers, quote_name, String.toList_append, toList_jsonString,
      toList_jsonNumber, String.reduceToList, cons_append, nil_append,
      append_assoc]

theorem toList_messageJson [Base64] (m : MessageRecord) :
    (messageJson m).toList = render escapeChar (messageTree m) := by
  unfold messageJson messageTree
  simp (disch := decide) only [render_obj, renderMembers, quote_name, String.toList_append,
    toList_jsonString,
    toList_jsonNumber, toList_nat, toList_bool, escapeJson_base64, escapeJson_sensitivity,
    ← toList_escapeJson, String.reduceToList, cons_append, nil_append, append_assoc]

theorem toList_messagesJson [Base64] (messages : List MessageRecord) :
    (messagesJson messages).toList = render escapeChar (.arr (messages.map messageTree)) := by
  simp [messagesJson, render, toList_join toList_messageJson]

theorem toList_pluginAnnotationJson (note : PluginAnnotation) :
    (pluginAnnotationJson note).toList = render escapeChar (annotationTree note) := by
  unfold pluginAnnotationJson annotationTree
  simp (disch := decide) only [render_obj, renderMembers, quote_name, String.toList_append,
    ← toList_escapeJson, String.reduceToList, cons_append, nil_append, append_assoc]

theorem toList_pluginAnnotationsJson (notes : List PluginAnnotation) :
    (pluginAnnotationsJson notes).toList = render escapeChar (.arr (notes.map annotationTree)) := by
  simp [pluginAnnotationsJson, render, toList_join toList_pluginAnnotationJson]

set_option maxRecDepth 2000 in
theorem toList_toJsonLine [Base64] (flow : StoredFlow) :
    flow.toJsonLine.toList = render escapeChar (flowTree flow) := by
  have hversion : escapeJson "1.3" = "1.3" := rfl
  unfold StoredFlow.toJsonLine flowTree
  simp (disch := decide) only [render_obj, renderMembers, quote_name, String.toList_append,
    toList_jsonString,
    toList_nat, escapeJson_state, toList_identityJson, toList_pluginAnnotationsJson,
    toList_messagesJson, ← toList_escapeJson, hversion, String.reduceToList, cons_append,
    nil_append, append_assoc]

theorem toList_toJson [Base64] (s : StoreSnapshot) :
    s.toJson.toList = render escapeChar (snapshotTree s) := by
  have hflows : render escapeChar (.arr (s.flows.map flowTree)) =
      '[' :: (renderItems escapeChar (s.flows.map flowTree) ++ [']']) := by rw [render]
  unfold StoreSnapshot.toJson snapshotTree
  simp (disch := decide) only [render_obj, renderMembers, quote_name,
    String.toList_append, toList_nat,
    toList_join toList_toJsonLine, hflows, String.reduceToList, cons_append, nil_append,
    append_assoc]

end Rendering

/-! ## Escapes -/

theorem digit_digitChar_hex {d : Nat} (h : d < 16) : Str.digit 16 d.digitChar = some d := by
  interval_cases d <;> decide

theorem readEscape_hex {n : Nat} (h : n < 0x100) (rest : List Char) :
    Json.readEscape ('u' :: '0' :: '0' :: (n / 16).digitChar :: (n % 16).digitChar :: rest) =
      some (Char.ofNat n, rest) := by
  have hhigh := digit_digitChar_hex (d := n / 16) (by omega)
  have hlow := digit_digitChar_hex (d := n % 16) (by omega)
  have hvalue :
      Str.digitsValue 16 0 ['0', '0', (n / 16).digitChar, (n % 16).digitChar] = some n := by
    have hzero : Str.digit 16 '0' = some 0 := rfl
    simp [Str.digitsValue, hzero, hhigh, hlow]
    omega
  have hread : Json.readHex4 ('0' :: '0' :: (n / 16).digitChar :: (n % 16).digitChar :: rest) =
      some (n, rest) := by
    rw [Json.readHex4, hvalue, Option.map_some]
  rw [Json.readEscape, hread]
  exact if_pos (.inl (by omega))

/-- The reader undoes the escapes. -/
theorem undone_escapeChar : Json.Undone escapeChar := by
  intro c rest
  rw [escapeChar]
  split
  next h => rw [h]; rfl
  split
  next h => rw [h]; rfl
  split
  next h => rw [h]; rfl
  split
  next h => rw [h]; rfl
  split
  next h => rw [h]; rfl
  split
  next hcontrol =>
    have hlt : c.toNat < 0xa0 := by
      simp only [isControl, Bool.or_eq_true, Bool.and_eq_true, decide_eq_true_eq] at hcontrol
      omega
    have hbyte : (UInt8.ofNat c.toNat).toNat = c.toNat :=
      UInt8.toNat_ofNat_of_lt (Nat.lt_trans hlt (by decide))
    have hread := readEscape_hex (n := c.toNat) (by omega) rest
    rw [Char.ofNat_toNat] at hread
    rw [Str.hex2, String.toList_ofList, hbyte]
    exact hread
  next hquote hslash _ _ _ hcontrol =>
    have hprint : ¬ c.toNat < 0x20 := fun hlt => hcontrol (by simp [isControl, hlt])
    simp [Json.readChar, hquote, hslash, hprint]

theorem isControl_digitChar {d : Nat} (h : d < 16) : isControl d.digitChar = false := by
  interval_cases d <;> rfl

/-- An escape has no control character. -/
theorem isControl_escapeChar (c : Char) : ∀ d ∈ escapeChar c, isControl d = false := by
  have hall : (escapeChar c).all (fun d => !isControl d) = true := by
    rw [escapeChar]
    split
    · rfl
    split
    · rfl
    split
    · rfl
    split
    · rfl
    split
    · rfl
    split
    · have hlt := (UInt8.ofNat c.toNat).toNat_lt
      have hhigh := isControl_digitChar (d := (UInt8.ofNat c.toNat).toNat / 16) (by omega)
      have hlow := isControl_digitChar (d := (UInt8.ofNat c.toNat).toNat % 16) (by omega)
      rw [Str.hex2, String.toList_ofList]
      simp only [cons_append, nil_append, all_cons, all_nil, hhigh, hlow]
      rfl
    next hcontrol => simp [hcontrol]
  intro d hd
  simpa using all_eq_true.1 hall d hd

/-- No control character is written, so no end of a line. -/
theorem isControl_toJsonLine [Base64] : ∀ c ∈ flow.toJsonLine.toList, isControl c = false := by
  rw [toList_toJsonLine]
  refine Json.forall_mem_render ?_ ?_ isControl_escapeChar (natural_flowTree flow)
  · simp [isControl]
  · intro c hc
    exact isControl_alphanum (by rw [Char.isAlphanum, hc, Bool.or_true])

/-! ## Reading back -/

/-- What a message shows in an export. -/
structure ExportedMessage where
  messageId : Nat
  direction : Option Direction
  summary : String
  body : String
  wire : Bytes
  truncated : Bool
  latencyNanos : Option Nat
  sensitivity : Sensitivity
deriving DecidableEq, Repr

/-- What a flow shows in an export. -/
structure ExportedFlow where
  schemaVersion : String
  flowId : Nat
  client : Endpoint
  upstream : Endpoint
  identity : Option ServiceIdentity
  protocol : Option String
  state : FlowState
  clientToUpstreamBytes : Nat
  upstreamToClientBytes : Nat
  failure : Option String
  decoderError : Option String
  pluginAnnotations : List PluginAnnotation
  pluginFailures : Nat
  messages : List ExportedMessage
deriving DecidableEq, Repr

def exportedMessage (m : MessageRecord) : ExportedMessage where
  messageId := m.envelope.messageId.getD 0
  direction := m.envelope.direction
  summary := m.summary
  body := Utf8.fromUtf8Lossy m.body
  wire := m.body
  truncated := m.truncated
  latencyNanos := m.latencyNanos
  sensitivity := m.envelope.sensitivity

def exportedFlow (flow : StoredFlow) : ExportedFlow where
  schemaVersion := "1.3"
  flowId := flow.record.envelope.flowId.getD 0
  client := flow.record.client
  upstream := flow.record.upstream
  identity := flow.record.identity
  protocol := flow.record.protocol
  state := flow.record.state
  clientToUpstreamBytes := flow.clientToUpstreamBytes
  upstreamToClientBytes := flow.upstreamToClientBytes
  failure := flow.failure
  decoderError := flow.decoderError
  pluginAnnotations := flow.pluginAnnotations
  pluginFailures := flow.pluginFailures
  messages := flow.messages.map exportedMessage

section Readers

open Json (asNat asStr asBool asOption asList)

/-- The host is what stands before the last colon. -/
def readEndpoint (text : String) : Option Endpoint := do
  let (port, host) ← Str.splitOnceList ':' text.toList.reverse
  let port ← Str.digitsValue 10 0 port.reverse
  return ⟨String.ofList host.reverse, port⟩

def readDirection (text : String) : Option Direction :=
  if text = Direction.text .clientToServer then some .clientToServer
  else if text = Direction.text .serverToClient then some .serverToClient
  else none

def readSensitivity (text : String) : Option Sensitivity :=
  if text = Sensitivity.text .pub then some .pub
  else if text = Sensitivity.text .redacted then some .redacted
  else if text = Sensitivity.text .secret then some .secret
  else none

def readState (text : String) : Option FlowState :=
  if text = FlowState.text .open then some .open
  else if text = FlowState.text .closed then some .closed
  else if text = FlowState.text .failed then some .failed
  else none

def readIdentity (j : Json) : Option ServiceIdentity := do
  let pid ← (j.get "pid").bind (asOption asNat)
  let process ← (j.get "process").bind (asOption asStr)
  let service ← (j.get "service").bind (asOption asStr)
  let container ← (j.get "container").bind (asOption asStr)
  return { pid, process, service, container }

def readNote (j : Json) : Option PluginAnnotation := do
  let plugin ← (j.get "plugin").bind asStr
  let value ← (j.get "value").bind asStr
  return { plugin, value }

def readMessage [Base64] (j : Json) : Option ExportedMessage := do
  let messageId ← (j.get "message_id").bind asNat
  let direction ← (j.get "direction").bind (asOption fun j => j.asStr.bind readDirection)
  let summary ← (j.get "summary").bind asStr
  let body ← (j.get "body").bind asStr
  let wire ← ((j.get "wire_base64").bind asStr).bind fun text => (Base64.decode text).toOption
  let truncated ← (j.get "truncated").bind asBool
  let latencyNanos ← (j.get "latency_nanos").bind (asOption asNat)
  let sensitivity ← ((j.get "sensitivity").bind asStr).bind readSensitivity
  return { messageId, direction, summary, body, wire, truncated, latencyNanos, sensitivity }

def readFlow [Base64] (j : Json) : Option ExportedFlow := do
  let schemaVersion ← (j.get "schema_version").bind asStr
  let flowId ← (j.get "flow_id").bind asNat
  let client ← ((j.get "client").bind asStr).bind readEndpoint
  let upstream ← ((j.get "upstream").bind asStr).bind readEndpoint
  let identity ← (j.get "identity").bind (asOption readIdentity)
  let protocol ← (j.get "protocol").bind (asOption asStr)
  let state ← ((j.get "state").bind asStr).bind readState
  let clientToUpstreamBytes ← (j.get "client_to_upstream_bytes").bind asNat
  let upstreamToClientBytes ← (j.get "upstream_to_client_bytes").bind asNat
  let failure ← (j.get "failure").bind (asOption asStr)
  let decoderError ← (j.get "decoder_error").bind (asOption asStr)
  let pluginAnnotations ← (j.get "plugin_annotations").bind (asList readNote)
  let pluginFailures ← (j.get "plugin_failures").bind asNat
  let messages ← (j.get "messages").bind (asList readMessage)
  return { schemaVersion, flowId, client, upstream, identity, protocol, state,
           clientToUpstreamBytes, upstreamToClientBytes, failure, decoderError, pluginAnnotations,
           pluginFailures, messages }

/-- A line of an export. -/
def readLine [Base64] (line : String) : Option ExportedFlow := (Json.parse line).bind readFlow

/-- The number of evicted flows and the flows. -/
def readSnapshot [Base64] (j : Json) : Option (Nat × List ExportedFlow) := do
  let evicted ← (j.get "evicted").bind asNat
  let flows ← (j.get "flows").bind (asList readFlow)
  return (evicted, flows)

end Readers

theorem readEndpoint_text (e : Endpoint) : readEndpoint e.text = some e := by
  have hdigits : ':' ∉ (Nat.toDigits 10 e.port).reverse := by
    intro hmem
    exact absurd (Json.isDigit_toDigits (mem_reverse.1 hmem)) (by decide)
  have hchars : e.text.toList.reverse =
      (Nat.toDigits 10 e.port).reverse ++ ':' :: e.host.toList.reverse := by
    simp [Endpoint.text, -Nat.toString_eq_repr, Str.toList_toString]
  simp [readEndpoint, hchars, Str.splitOnceList_append _ hdigits, Str.digitsValue_toDigits]

theorem readSensitivity_text (s : Sensitivity) : readSensitivity s.text = some s := by
  cases s <;> rfl

theorem readState_text (s : FlowState) : readState s.text = some s := by
  cases s <;> rfl

theorem readIdentity_identityTree (identity : ServiceIdentity) :
    readIdentity (identityTree identity) = some identity := by
  simp [readIdentity, identityTree, Json.get, Json.asOption_str, Json.asOption_nat]

theorem readNote_annotationTree (note : PluginAnnotation) :
    readNote (annotationTree note) = some note := by
  simp [readNote, annotationTree, Json.get]

theorem readMessage_messageTree [Base64] (m : MessageRecord) :
    readMessage (messageTree m) = some (exportedMessage m) := by
  have hdirection : Json.asOption (fun j => j.asStr.bind readDirection)
      (.orNull .str (m.envelope.direction.map Direction.text)) = some m.envelope.direction := by
    cases m.envelope.direction with
    | none => rfl
    | some d => cases d <;> rfl
  simp [readMessage, messageTree, Json.get, Json.asOption_nat, hdirection,
    readSensitivity_text, Base64.decode_encode, Except.toOption, exportedMessage]

theorem readFlow_flowTree [Base64] : readFlow (flowTree flow) = some (exportedFlow flow) := by
  have hidentity : Json.asOption readIdentity (.orNull identityTree flow.record.identity) =
      some flow.record.identity := by
    rw [Json.asOption_orNull readIdentity_identityTree (fun _ h => by cases h), Option.map_id']
  have hnotes := Json.asList_map readNote_annotationTree flow.pluginAnnotations
  have hmessages := Json.asList_map readMessage_messageTree flow.messages
  rw [map_id'] at hnotes
  simp [readFlow, flowTree, Json.get, Json.asOption_str, hidentity, hnotes, hmessages,
    readEndpoint_text, readState_text, exportedFlow]

theorem readSnapshot_snapshotTree [Base64] :
    readSnapshot (snapshotTree s) = some (s.evicted, s.flows.map exportedFlow) := by
  simp [readSnapshot, snapshotTree, Json.get, Json.asList_map fun flow => readFlow_flowTree flow]

/-! ## Texts -/

theorem parse_toJsonLine [Base64] : Json.parse flow.toJsonLine = some (flowTree flow) := by
  have hparse := Json.parse_render undone_escapeChar (natural_flowTree flow) (forall_mem_nil _)
  rwa [append_nil, ← toList_toJsonLine, String.ofList_toList] at hparse

theorem readLine_toJsonLine [Base64] : readLine flow.toJsonLine = some (exportedFlow flow) := by
  rw [readLine, parse_toJsonLine, Option.bind_some, readFlow_flowTree]

theorem parse_toJson [Base64] : Json.parse s.toJson = some (snapshotTree s) := by
  have hparse := Json.parse_render undone_escapeChar (natural_snapshotTree s) (forall_mem_nil _)
  rwa [append_nil, ← toList_toJson, String.ofList_toList] at hparse

theorem toJsonLine_clean [Base64] :
    flow.toJsonLine ≠ "" ∧ '\n' ∉ flow.toJsonLine.toList ∧ '\r' ∉ flow.toJsonLine.toList := by
  have hcontrol := isControl_toJsonLine flow
  refine ⟨fun h => ?_, fun h => ?_, fun h => ?_⟩
  · have hchars := toList_toJsonLine flow
    rw [h, flowTree, Json.render] at hchars
    cases hchars
  · exact absurd (hcontrol _ h) (by decide)
  · exact absurd (hcontrol _ h) (by decide)

/-- The lines of an export are the flows. -/
theorem lines_toJsonl [Base64] : Str.lines s.toJsonl = s.flows.map StoredFlow.toJsonLine := by
  cases hflows : s.flows with
  | nil =>
    rw [StoreSnapshot.toJsonl, hflows]
    rfl
  | cons flow flows =>
    have hclean : ∀ l ∈ (flow :: flows).map StoredFlow.toJsonLine,
        l ≠ "" ∧ '\n' ∉ l.toList ∧ '\r' ∉ l.toList := by
      intro l hl
      obtain ⟨flow, -, rfl⟩ := mem_map.1 hl
      exact toJsonLine_clean flow
    have hlines := Str.lines_join (.inl rfl) (cons_ne_nil _ _) hclean
    rw [String.append_empty] at hlines
    rw [StoreSnapshot.toJsonl, hflows]
    exact hlines

/-- An export is valid and loses nothing that it shows.  A line has no control character, so it
ends nowhere but where the export ends it.  It is an object, and each field is read back from it.
The lines of the one format and the document of the other both give the flows in their order. -/
theorem export_readBack [Base64] (flow : StoredFlow) (s : StoreSnapshot) :
    (∀ c ∈ flow.toJsonLine.toList, isControl c = false) ∧
    (∃ members, Json.parse flow.toJsonLine = some (.obj members) ∧
      readFlow (.obj members) = some (exportedFlow flow)) ∧
    (Str.lines s.toJsonl).mapM readLine = some (s.flows.map exportedFlow) ∧
    (Json.parse s.toJson).bind readSnapshot = some (s.evicted, s.flows.map exportedFlow) := by
  refine ⟨isControl_toJsonLine flow, ⟨_, parse_toJsonLine flow, readFlow_flowTree flow⟩, ?_, ?_⟩
  · rw [lines_toJsonl]
    exact Json.mapM_map fun flow _ => readLine_toJsonLine flow
  · rw [parse_toJson]
    exact readSnapshot_snapshotTree s

end Lens.Store
