import Lens.Http1.Insert
import Lens.Redact.Headers
import Lens.Store.Records

/-!
# Wire headers with metadata names

Decoders leave what they know about a message in headers with `lens-` names, and
the redactor and the store look these names up.  The HTTP/1 decoder puts the
headers of the wire in the same list and leaves none of its own, so a peer can
write the metadata.  Which lines have an effect is decided by their name, and for
`lens-content` by their value too (`Harmless`).  Every other line is transparent
(`treats_insert`), and each of these changes some message.  The heads with and
without the line may come in any reads (`HeadReads`): one that comes in several is
refused when it is over the limit.
-/

namespace Lens.Store

open List
open Http1 Redact

/-! ## One header more in a message -/

theorem insertIdx_append {α : Type} (a : α) (B : List α) : ∀ A : List α,
    (A ++ B).insertIdx A.length a = A ++ a :: B := by
  intro A
  induction A with
  | nil => rfl
  | cons x A ih => simp [insertIdx_succ_cons, ih]

theorem eraseIdx_append {α : Type} (a : α) (A B : List α) :
    (A ++ a :: B).eraseIdx A.length = A ++ B := by
  rw [← insertIdx_append, eraseIdx_insertIdx_self]

/-- What the store makes of a message `m'` with one header more than `m`, at `k`:
the same but for that header. -/
structure Treats {η : Type} (s : StoreActor η) (flowId : FlowId) (timestamp : TimestampPair)
    (k : Nat) (m m' : DecodedMessage) : Prop where
  startLine : (redact s.reveal m').message.startLine = (redact s.reveal m).message.startLine
  headers : (redact s.reveal m').message.headers.eraseIdx k = (redact s.reveal m).message.headers
  body : (redact s.reveal m').message.body = (redact s.reveal m).message.body
  protocol : (s.storeMessage flowId timestamp m').protocolOf flowId =
    (s.storeMessage flowId timestamp m).protocolOf flowId
  pending : (s.storeMessage flowId timestamp m').pendingRequests =
    (s.storeMessage flowId timestamp m).pendingRequests
  latency : (s.recordWith s.reveal flowId timestamp m').latencyNanos =
    (s.recordWith s.reveal flowId timestamp m).latencyNanos

/-- The names the store looks up. -/
def bookkeeping : List String := ["lens-protocol", "lens-boundary", "lens-stream-id"]

/-- A header that neither the redactor nor the store looks at changes nothing else. -/
theorem treats_insert {η : Type} {s : StoreActor η} (hs : s.reveal = false) (flowId : FlowId)
    (timestamp : TimestampPair) {h : String × String} (hin : Inert h)
    (hb : ∀ n ∈ bookkeeping, Str.eqIgnoreAsciiCase h.1 n = false) (m : DecodedMessage) {k : Nat}
    (hk : k ≤ m.headers.length) :
    Treats s flowId timestamp k m (withHeaders (fun hs => hs.insertIdx k h) m) := by
  obtain ⟨direction, startLine, headers, body, truncated⟩ := m
  obtain ⟨A, B, rfl, rfl⟩ : ∃ A B, A.length = k ∧ A ++ B = headers :=
    ⟨headers.take k, headers.drop k, length_take_of_le hk, take_append_drop k headers⟩
  obtain ⟨A', B', hlen, hheaders, hredact⟩ :=
    redact_insert hin direction startLine A B body truncated
  have hfind : ∀ n ∈ bookkeeping, findHeader (A ++ h :: B) n = findHeader (A ++ B) n :=
    fun n hn => findHeader_insert A B (hb n hn)
  have hboundary : s.boundaryOf flowId timestamp ⟨direction, startLine, A ++ h :: B, body,
      truncated⟩ =
      s.boundaryOf flowId timestamp ⟨direction, startLine, A ++ B, body, truncated⟩ := by
    simp only [StoreActor.boundaryOf, streamOf, hfind "lens-boundary" (by decide),
      hfind "lens-stream-id" (by decide)]
  simp only [withHeaders, insertIdx_append]
  constructor
  · rw [hs, hredact]
  · rw [hs, hredact, hheaders, ← hlen]
    exact eraseIdx_append _ A' B'
  · rw [hs, hredact]
  · simp only [StoreActor.protocolOf_storeMessage, hfind "lens-protocol" (by decide)]
  · simp only [StoreActor.storeMessage, hboundary]
  · simp only [StoreActor.recordWith, messageRecord, hboundary]

/-! ## Lines of the wire -/

/-- A line whose name has the metadata prefix, in any letter case. -/
def IsMetadata (l : HeaderLine) : Prop :=
  Str.startsWith (Str.toAsciiLowercase l.header.1) "lens-" = true

/-- A line that no lookup of the redactor or the store can meet. -/
structure Harmless (l : HeaderLine) : Prop where
  name : ∀ n ∈ bookkeeping, Str.eqIgnoreAsciiCase l.header.1 n = false
  content : ∀ v ∈ ["sql", "redis-value", "protobuf"], isHeader l.header ("lens-content", v) = false

variable {l : HeaderLine}

/-- A metadata name is none of the names outside the metadata. -/
theorem IsMetadata.ne (hl : IsMetadata l) {name : String}
    (hn : Str.startsWith (Str.toAsciiLowercase name) "lens-" = false) :
    Str.eqIgnoreAsciiCase l.header.1 name = false := by
  rw [Bool.eq_false_iff, Ne, Str.eqIgnoreAsciiCase_iff]
  intro heq
  rw [IsMetadata, heq, hn] at hl
  cases hl

theorem IsMetadata.unframed (hl : IsMetadata l) : l.Unframed :=
  ⟨hl.ne (by decide), hl.ne (by decide)⟩

theorem Harmless.inert (hl : IsMetadata l) (h : Harmless l) : Inert l.header where
  name n hn := by
    have hplain : ∀ n ∈ lookedUp, Str.startsWith (Str.toAsciiLowercase n) "lens-" = false := by
      decide
    exact hl.ne (hplain n hn)
  header := by
    have hproto : ∀ v, isHeader l.header ("lens-protocol", v) = false := by
      intro v
      simp [isHeader, h.name "lens-protocol" (by decide)]
    have hsql := h.content "sql" (by decide)
    have hvalue := h.content "redis-value" (by decide)
    have hproto' := h.content "protobuf" (by decide)
    simp [lookedFor, hproto, hsql, hvalue, hproto']

/-- What the store makes of a message on the wire with a line and without it, however the
heads are read. -/
def Transparent (η : Type) (l : HeaderLine) : Prop :=
  ∀ (d : Http1Decoder) (direction : Direction), d.state direction = {} →
  ∀ (startLine : String) (pre post : List String) (rest : Bytes), '\r' ∉ startLine.toList →
    Http1Decoder.PlainLines pre → Http1Decoder.PlainLines post →
  ∀ (reads : Http1Decoder.HeadReads startLine (pre ++ post))
    (reads' : Http1Decoder.HeadReads startLine (pre ++ l.text :: post))
    (s : StoreActor η) (flowId : FlowId) (timestamp : TimestampPair), s.reveal = false →
    let bs := (d.run (reads.ops direction rest)).2
    let bs' := (d.run (reads'.ops direction rest)).2
    bs'.filterMap (·.desynchronized) = bs.filterMap (·.desynchronized) ∧
      ((bs.flatMap (·.messages) = [] ∧ bs'.flatMap (·.messages) = []) ∨
        ∃ m m' ms, bs.flatMap (·.messages) = m :: ms ∧ bs'.flatMap (·.messages) = m' :: ms ∧
          Treats s flowId timestamp pre.length m m')

theorem plainLines_insert {pre post : List String} (hpre : Http1Decoder.PlainLines pre)
    (hpost : Http1Decoder.PlainLines post) (l : HeaderLine) :
    Http1Decoder.PlainLines (pre ++ post) ∧ Http1Decoder.PlainLines (pre ++ l.text :: post) :=
  ⟨forall_mem_append.mpr ⟨hpre, hpost⟩, forall_mem_append.mpr ⟨hpre,
    forall_mem_cons.mpr ⟨⟨l.text_plain, l.text_ne_empty⟩, hpost⟩⟩⟩

/-- Reads of a head give the report and the messages of one push. -/
theorem run_reads_eq {d : Http1Decoder} {direction : Direction} (hd : d.state direction = {})
    {startLine : String} {lines : List String} (hstart : '\r' ∉ startLine.toList)
    (hlines : Http1Decoder.PlainLines lines) (reads : Http1Decoder.HeadReads startLine lines)
    (rest : Bytes) :
    let b := (d.push direction (Http1Decoder.wire startLine lines rest)).2
    (d.run (reads.ops direction rest)).2.filterMap (·.desynchronized) = b.desynchronized.toList ∧
      (d.run (reads.ops direction rest)).2.flatMap (·.messages) = b.messages := by
  rw [Http1Decoder.run_reads hd hstart hlines]
  have hnone : ∀ xs : List Bytes,
      (xs.map fun _ => (.needMore : DecodeBatch)).filterMap (·.desynchronized) = [] ∧
        (xs.map fun _ => (.needMore : DecodeBatch)).flatMap (·.messages) = [] := by
    intro xs
    constructor <;> simp [Stream.Batch.needMore]
  rw [filterMap_append, flatMap_append, (hnone _).1, (hnone _).2, flatMap_singleton]
  refine ⟨?_, rfl⟩
  cases hr : (d.push direction (Http1Decoder.wire startLine lines rest)).2.desynchronized <;>
    simp [hr]

/-- A line that nothing looks up is transparent. -/
theorem Harmless.transparent (η : Type) (hl : IsMetadata l) (h : Harmless l) : Transparent η l := by
  intro d direction hd startLine pre post rest hstart hpre hpost reads reads' s flowId timestamp hs
  obtain ⟨headers, hlen, hsame⟩ :=
    Http1Decoder.push_insert hd hl.unframed hstart hpre hpost rest
  obtain ⟨hlines, hlines'⟩ := plainLines_insert hpre hpost l
  obtain ⟨hreport, hmessages⟩ := run_reads_eq hd hstart hlines reads rest
  obtain ⟨hreport', hmessages'⟩ := run_reads_eq hd hstart hlines' reads' rest
  simp only [hreport, hmessages, hreport', hmessages', hsame.desynchronized, true_and]
  rcases hsame.messages with hnone | ⟨m, ms, hm, hm', hheaders⟩
  · exact .inl hnone
  · refine .inr ⟨m, _, ms, hm, hm', ?_⟩
    exact treats_insert hs flowId timestamp (h.inert hl) h.name m (hheaders ▸ hlen)

/-! ## Lines with an effect

Each name that is looked up has a message it changes.  A lookup takes the first
header with a name, so even a line whose value means nothing hides a line after
it. -/

section Effects

variable {η : Type}

/-- A store with one HTTP/1 flow. -/
def plainStore (η : Type) : StoreActor η :=
  let envelope := { EventEnvelope.new "flow.opened" 1 .proxy with flowId := some 1 }
  let record := { FlowRecord.new envelope ⟨"127.0.0.1", 50000⟩ ⟨"api.test", 80⟩ with
    protocol := some "http1" }
  { StoreActor.withInspection 4 1 64 false with flows := [⟨record, 0, 0, none, none, [], [], 0⟩] }

/-- A transparent line treats a message that is decoded alone alike. -/
theorem Transparent.treats (hl : IsMetadata l) (h : Transparent η l) (startLine : String)
    (pre post : List String) (rest : Bytes) (m : DecodedMessage)
    (hstart : '\r' ∉ startLine.toList) (hpre : Http1Decoder.PlainLines pre)
    (hpost : Http1Decoder.PlainLines post)
    (hpush : ((Http1Decoder.new 64).push .clientToServer
      (Http1Decoder.wire startLine (pre ++ post) rest)).2 = ⟨[m], none⟩) :
    Treats (plainStore η) 1 ⟨5, 5⟩ pre.length m
      (withHeaders (fun hs => hs.insertIdx pre.length l.header) m) := by
  have hnew : (Http1Decoder.new 64).state .clientToServer = {} := rfl
  obtain ⟨headers, -, hsame⟩ :=
    Http1Decoder.push_insert hnew hl.unframed hstart hpre hpost rest
  obtain ⟨hlines, hlines'⟩ := plainLines_insert hpre hpost l
  obtain ⟨-, htreats⟩ :=
    h _ _ hnew startLine pre post rest hstart hpre hpost (.whole ..) (.whole ..)
    (plainStore η) 1 ⟨5, 5⟩ rfl
  simp only [(run_reads_eq hnew hstart hlines _ rest).2,
    (run_reads_eq hnew hstart hlines' _ rest).2] at htreats
  rw [hpush] at hsame htreats
  rcases hsame.messages with ⟨hnil, -⟩ | ⟨m₁, ms, hm, hm', -⟩
  · cases hnil
  · cases hm
    rcases htreats with ⟨hnil, -⟩ | ⟨m₂, m', ms', hm₂, hm₂', ht⟩
    · cases hnil
    · cases hm₂
      rw [hm'] at hm₂'
      cases hm₂'
      exact ht

/-- The first header with a name is found. -/
theorem findHeader_cons {h : String × String} {name : String}
    (hn : Str.eqIgnoreAsciiCase h.1 name = true) (hs : Headers) :
    findHeader (h :: hs) name = some h.2 := by
  simp [findHeader, hn]

/-- The waiting requests of the first message of a store: its own, or none. -/
theorem pending_plainStore (m : DecodedMessage) (key : FlowId × String) :
    ((plainStore η).storeMessage 1 ⟨5, 5⟩ m).pendingRequests key =
      if findHeader m.headers "lens-boundary" = some "request" ∧ key = (1, streamOf m) then some [5]
      else none := by
  simp only [StoreActor.storeMessage, StoreActor.boundaryOf, trackBoundary]
  by_cases hb : findHeader m.headers "lens-boundary" = some "request"
  · simp [hb, setEntry, plainStore, StoreActor.withInspection]
  · rw [if_neg hb]
    by_cases hr : findHeader m.headers "lens-boundary" = some "response"
    · simp [hr, plainStore, StoreActor.withInspection]
    · simp [hb, hr, plainStore, StoreActor.withInspection]

/-- A protocol line sets the protocol of its flow, or keeps the next one from setting it. -/
theorem not_transparent_protocol (hl : IsMetadata l)
    (hn : Str.eqIgnoreAsciiCase l.header.1 "lens-protocol" = true) : ¬ Transparent η l := by
  intro h
  by_cases hv : l.header.2 = "grpc"
  · have ht := (h.treats hl "GET / HTTP/1.1" [] [] []
      ⟨.clientToServer, "GET / HTTP/1.1", [], [], false⟩
      (by decide) (by decide) (by decide) (by decide +kernel)).protocol
    simp only [StoreActor.protocolOf_storeMessage, withHeaders, length_nil,
      insertIdx_zero, findHeader_cons hn, hv] at ht
    simp [plainStore, findFlow, findHeader, FlowRecord.new] at ht
  · have ht := (h.treats hl "GET / HTTP/1.1" [] ["lens-protocol: grpc"] []
      ⟨.clientToServer, "GET / HTTP/1.1", [("lens-protocol", "grpc")], [], false⟩
      (by decide) (by decide) (by decide) (by decide +kernel)).protocol
    simp only [StoreActor.protocolOf_storeMessage, withHeaders, length_nil,
      insertIdx_zero, findHeader_cons hn, Option.some.injEq, hv] at ht
    simp [plainStore, findFlow, findHeader, FlowRecord.new] at ht

/-- A boundary line starts a wait, or keeps the next one from starting it. -/
theorem not_transparent_boundary (hl : IsMetadata l)
    (hn : Str.eqIgnoreAsciiCase l.header.1 "lens-boundary" = true) : ¬ Transparent η l := by
  intro h
  have hstream : Str.eqIgnoreAsciiCase l.header.1 "lens-stream-id" = false := by
    rw [Str.eqIgnoreAsciiCase_congr hn]
    decide
  by_cases hv : l.header.2 = "request"
  · have ht := (h.treats hl "GET / HTTP/1.1" [] [] []
      ⟨.clientToServer, "GET / HTTP/1.1", [], [], false⟩
      (by decide) (by decide) (by decide) (by decide +kernel)).pending
    have hkey := congrFun ht (1, "")
    simp only [pending_plainStore, withHeaders, length_nil, insertIdx_zero,
      findHeader_cons hn, hv] at hkey
    simp [findHeader, streamOf, hstream] at hkey
  · have ht := (h.treats hl "GET / HTTP/1.1" [] ["lens-boundary: request"] []
      ⟨.clientToServer, "GET / HTTP/1.1", [("lens-boundary", "request")], [], false⟩
      (by decide) (by decide) (by decide) (by decide +kernel)).pending
    have hkey := congrFun ht (1, "")
    have hne : Str.eqIgnoreAsciiCase "lens-boundary" "lens-stream-id" = false := by decide
    simp only [pending_plainStore, withHeaders, length_nil, insertIdx_zero,
      findHeader_cons hn, Option.some.injEq, hv] at hkey
    simp [findHeader, streamOf, hne] at hkey

/-- A stream line moves the wait of a request to another stream. -/
theorem not_transparent_stream (hl : IsMetadata l)
    (hn : Str.eqIgnoreAsciiCase l.header.1 "lens-stream-id" = true) : ¬ Transparent η l := by
  intro h
  have hne : Str.eqIgnoreAsciiCase "lens-boundary" "lens-stream-id" = false := by decide
  by_cases hv : l.header.2 = "1"
  · have ht := (h.treats hl "GET / HTTP/1.1" ["lens-boundary: request"] ["lens-stream-id: 2"] []
      ⟨.clientToServer, "GET / HTTP/1.1", [("lens-boundary", "request"), ("lens-stream-id", "2")],
        [], false⟩
      (by decide) (by decide) (by decide) (by decide +kernel)).pending
    have hkey := congrFun ht (1, "2")
    simp [pending_plainStore, withHeaders, findHeader, streamOf, hn, hne, hv] at hkey
  · have ht := (h.treats hl "GET / HTTP/1.1" ["lens-boundary: request"] ["lens-stream-id: 1"] []
      ⟨.clientToServer, "GET / HTTP/1.1", [("lens-boundary", "request"), ("lens-stream-id", "1")],
        [], false⟩
      (by decide) (by decide) (by decide) (by decide +kernel)).pending
    have hkey := congrFun ht (1, "1")
    simp [pending_plainStore, withHeaders, findHeader, streamOf, hn, hne, Ne.symm hv] at hkey

/-- A content line makes the redactor rewrite a body that it would keep. -/
theorem not_transparent_content (hl : IsMetadata l) {value : String}
    (hmem : value ∈ ["sql", "redis-value", "protobuf"])
    (hc : isHeader l.header ("lens-content", value) = true) : ¬ Transparent η l := by
  intro h
  rw [isHeader, Bool.and_eq_true] at hc
  have hbody : ∀ (protocol : String) (body : Bytes) (length : String),
      Http1Decoder.PlainLines ["lens-protocol: " ++ protocol, "Content-Length: " ++ length] →
      ((Http1Decoder.new 64).push .clientToServer (Http1Decoder.wire "POST / HTTP/1.1"
        ["lens-protocol: " ++ protocol, "Content-Length: " ++ length] body)).2 =
        ⟨[⟨.clientToServer, "POST / HTTP/1.1",
          [("lens-protocol", protocol), ("Content-Length", length)], body, false⟩], none⟩ →
      (redact false ⟨.clientToServer, "POST / HTTP/1.1",
          [("lens-protocol", protocol), ("Content-Length", length), ("lens-content", value)], body,
          false⟩).message.body =
        (redact false ⟨.clientToServer, "POST / HTTP/1.1",
          [("lens-protocol", protocol), ("Content-Length", length)], body,
          false⟩).message.body := by
    intro protocol body length hlines hpush
    have ht := (h.treats hl "POST / HTTP/1.1" _ [] body _ (by decide) hlines (by decide) hpush).body
    rw [show (plainStore η).reveal = false from rfl] at ht
    rw [← ht]
    exact (redact_body_content hc.1 hc.2 .clientToServer "POST / HTTP/1.1"
      [("lens-protocol", protocol), ("Content-Length", length)] [] body false).symm
  simp only [mem_cons, not_mem_nil, or_false] at hmem
  rcases hmem with rfl | rfl | rfl
  · exact absurd (hbody "postgres" (Utf8.asBytes "'a'") "3" (by decide) (by decide +kernel))
      (by decide +kernel)
  · exact absurd (hbody "redis" (Utf8.asBytes "a") "1" (by decide) (by decide +kernel))
      (by decide +kernel)
  · exact absurd (hbody "grpc" (Utf8.asBytes "a") "1" (by decide) (by decide +kernel))
      (by decide +kernel)

end Effects

/-- A line with a metadata name that nothing looks up. -/
def traceLine : HeaderLine := ⟨"Lens-Trace", " 1", by decide, by decide⟩

/-- The start lines that are stored for a request without headers, or with one. -/
def storedStartLines (startLine : String) (lines : List String) : List String :=
  ((Http1Decoder.new 64).push .clientToServer
    (Http1Decoder.wire startLine lines [])).2.messages.map fun m =>
      (redact false m).message.startLine

end Lens.Store
