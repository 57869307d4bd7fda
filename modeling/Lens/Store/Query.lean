import Lens.Http2.Requests
import Lens.Redact.Headers
import Lens.Store.Records

/-!
# Query secrets of HTTP/2 requests

The path of an HTTP/2 request is decoded twice: into the start line, and as the
`:path` header, which stays in the header list.  The redactor takes query secrets
out of start lines and looks at headers by name, and `:path` is not a name it
knows.  The second copy is stored as it came, so what is stored determines the
value of the secret pair (`value_eq_of_stored`).
-/

namespace Lens.Store

open List
open Http2 Redact

/-- A request header list with a secret query pair, up to the value of that pair. -/
structure SecretQuery where
  before : Headers
  path : String
  lead : List String
  name : String
  trail : List String
  fragment : String
  after : Headers
  method : String
  plainPath : '?' ∉ path.toList
  plainPairs : ∀ pair ∈ name :: lead ++ trail, '&' ∉ pair.toList ∧ '#' ∉ pair.toList
  plainName : '=' ∉ name.toList
  sensitive : isSensitiveName (percentDecodeName name) = true
  hasMethod : findHeader (before ++ after) ":method" = some method
  notGrpc : Http2Decoder.NotGrpc (before ++ after)

namespace SecretQuery

variable (q : SecretQuery)

/-- The path with a value of the secret pair. -/
def target (value : String) : String :=
  q.path ++ "?" ++ Str.join "&" (q.lead ++ (q.name ++ "=" ++ value) :: q.trail) ++ q.fragment

/-- The header list with a value of the secret pair. -/
def headers (value : String) : Headers :=
  q.before ++ (":path", q.target value) :: q.after

theorem target_injective {v w : String} (h : q.target v = q.target w) : v = w := by
  obtain ⟨l, r, hjoin⟩ := Str.join_hole "&" q.trail q.lead
  simp only [target, hjoin] at h
  have hl := congrArg String.toList h
  simp only [String.toList_append, append_assoc, append_cancel_left_eq,
    append_cancel_right_eq] at hl
  exact String.toList_injective hl

theorem findHeader_headers (value : String) {name : String}
    (hn : Str.eqIgnoreAsciiCase ":path" name = false) :
    findHeader (q.headers value) name = findHeader (q.before ++ q.after) name :=
  findHeader_insert (h := (":path", q.target value)) q.before q.after hn

theorem headers_method (value : String) :
    findHeader (q.headers value) ":method" = some q.method := by
  rw [q.findHeader_headers value (by decide)]
  exact q.hasMethod

theorem headers_notGrpc (value : String) : Http2Decoder.NotGrpc (q.headers value) := by
  have hg := q.notGrpc
  rw [Http2Decoder.NotGrpc] at hg ⊢
  rw [q.findHeader_headers value (by decide)]
  exact hg

end SecretQuery

/-- What is stored of a message with a path header determines the path. -/
theorem render_path_injective {direction : Direction} {startLine startLine' : String}
    {before after : Headers} {body : Bytes} {truncated : Bool} {t t' : String}
    (h : (redact false ⟨direction, startLine, before ++ (":path", t) :: after, body,
        truncated⟩).message.render =
      (redact false ⟨direction, startLine', before ++ (":path", t') :: after, body,
        truncated⟩).message.render) : t = t' := by
  have hin : ∀ t, Inert (":path", t) := by
    have hn : ∀ n ∈ lookedUp, Str.eqIgnoreAsciiCase ":path" n = false := by decide
    have hp : Str.eqIgnoreAsciiCase ":path" "lens-protocol" = false := by decide
    have hc : Str.eqIgnoreAsciiCase ":path" "lens-content" = false := by decide
    exact fun t => .of_name hn hp hc
  have hname : isSensitiveName ":path" = false := by decide
  have hsql : isSqlHeader ":path" = false := by decide
  have hpath : ∀ postgres t, redactHeader postgres (":path", t) = ((":path", t), false) :=
    fun postgres t => redactHeader_of_not postgres hname hsql
  obtain ⟨A, B, hA, hAB, hr⟩ := redact_insert (hin t) direction startLine
    before after body truncated
  obtain ⟨A', B', hA', hAB', hr'⟩ := redact_insert (hin t') direction startLine'
    before after body truncated
  obtain ⟨hheaders, hbody⟩ := redact_startLine direction startLine startLine' (before ++ after) body
    truncated
  -- The other headers are the same in both runs.
  rw [hAB, hAB'] at hheaders
  obtain ⟨rfl, rfl⟩ := append_inj hheaders (hA.trans hA'.symm)
  rw [hr, hr'] at h
  simp only [hpath, DecodedMessage.render, hbody, flatMap_append, flatMap_cons,
    renderHeader, append_assoc, append_cancel_left_eq, append_cancel_right_eq] at h
  exact Utf8.asBytes_injective h

namespace StoreActor

variable {η : Type}

/-- The messages a flow has after a request is stored. -/
def afterRequest (s : StoreActor η) (flowId : FlowId) (timestamp : TimestampPair)
    (d : Http2Decoder η) (id : Nat) (headers : Headers) (datas : List Bytes)
    (trailers : Option Headers) : Option (List MessageRecord) :=
  (s.storeBatch flowId timestamp
    ⟨d.requestMessages id headers datas trailers, none⟩).messagesOf flowId

section Requests

variable {s : StoreActor η} {flowId : FlowId} {d : Http2Decoder η} {id : Nat}
  {trailers : Option Headers}

/-- What is stored for a request determines the value of a secret pair. -/
theorem value_eq_of_stored (hflow : (findFlow s.flows flowId).isSome) (hreveal : s.reveal = false)
    (timestamp : TimestampPair) (hd : d.Accepts id) (q : SecretQuery) (datas : List Bytes)
    (ht : ∀ ts, trailers = some ts → Http2Decoder.IsTrailers ts) {v w : String}
    (h : s.afterRequest flowId timestamp d id (q.headers v) datas trailers =
      s.afterRequest flowId timestamp d id (q.headers w) datas trailers) : v = w := by
  obtain ⟨body, truncated, hmsg⟩ := Http2Decoder.requestMessages_eq hd datas ht
  obtain ⟨flow, hflow⟩ := Option.isSome_iff_exists.mp hflow
  have hmessages : s.messagesOf flowId = some flow.messages := by rw [messagesOf, hflow]; rfl
  simp only [afterRequest, hmsg _ _ (q.headers_notGrpc _) (q.headers_method _),
    storeBatch_single, messagesOf_storeMessage, hmessages, hreveal, Option.map_some,
    Option.some.injEq, append_cancel_left_eq, List.cons.injEq, and_true] at h
  have hbody := congrArg MessageRecord.body h
  simp only [recordWith, messageRecord, addHttp2Metadata, DecodedMessage.pushHeader,
    SecretQuery.headers, append_assoc, cons_append] at hbody
  exact q.target_injective (render_path_injective hbody)

/-- Two values of a secret pair are stored alike exactly when they are the same. -/
theorem query_stored_eq_iff (hflow : (findFlow s.flows flowId).isSome) (hreveal : s.reveal = false)
    (timestamp : TimestampPair) (hd : d.Accepts id) (q : SecretQuery) (datas : List Bytes)
    (ht : ∀ ts, trailers = some ts → Http2Decoder.IsTrailers ts) (v w : String) :
    s.afterRequest flowId timestamp d id (q.headers v) datas trailers =
        s.afterRequest flowId timestamp d id (q.headers w) datas trailers ↔ v = w := by
  constructor
  · intro h
    exact value_eq_of_stored hflow hreveal timestamp hd q datas ht h
  · rintro rfl
    rfl

end Requests

end StoreActor

section Login

/-- `GET /login?user=app&token=…` -/
def loginQuery : SecretQuery where
  before := [(":method", "GET"), (":scheme", "http")]
  path := "/login"
  lead := ["user=app"]
  name := "token"
  trail := []
  fragment := ""
  after := [(":authority", "api.test")]
  method := "GET"
  plainPath := by decide
  plainPairs := by decide
  plainName := by decide
  sensitive := by decide
  hasMethod := by decide
  notGrpc := by rw [Http2Decoder.NotGrpc]; decide

/-- A header compression that is never asked. -/
def idleHpack : Hpack Unit := ⟨(), fun _ _ => ((), .ok [])⟩

/-- A store with one open HTTP/2 flow. -/
def loginStore : StoreActor Unit :=
  (StoreActor.withInspection 4 1 64 false).openFlow idleHpack 7 ⟨100, 200⟩ ⟨"127.0.0.1", 50000⟩
    ⟨"api.test", 80⟩ (some "http2")

/-- The store finds the flow, and a fresh decoder accepts its first stream. -/
theorem loginStore_ready : (findFlow loginStore.flows 7).isSome ∧
    (Http2Decoder.new idleHpack 64).Accepts 1 :=
  ⟨by decide, ⟨by decide, .inr (by decide), fun _ h => by cases h⟩⟩

theorem login_stored_eq_iff :
    loginStore.afterRequest 7 ⟨110, 210⟩ (.new idleHpack 64) 1 (loginQuery.headers "hunter2") []
        none = loginStore.afterRequest 7 ⟨110, 210⟩ (.new idleHpack 64) 1
          (loginQuery.headers "letmein") [] none ↔ "hunter2" = "letmein" :=
  StoreActor.query_stored_eq_iff loginStore_ready.1 rfl _ loginStore_ready.2 loginQuery []
    (fun _ h => by cases h) _ _

theorem login_stored_ne :
    loginStore.afterRequest 7 ⟨110, 210⟩ (.new idleHpack 64) 1 (loginQuery.headers "hunter2") []
        none ≠ loginStore.afterRequest 7 ⟨110, 210⟩ (.new idleHpack 64) 1
          (loginQuery.headers "letmein") [] none := by
  intro h
  have hv := StoreActor.value_eq_of_stored loginStore_ready.1 rfl _ loginStore_ready.2 loginQuery []
    (fun _ h => by cases h) h
  revert hv
  decide

end Login

end Lens.Store
