import Lens.Http1.Runs
import Lens.Http2.Provenance
import Lens.Postgres.Secrets
import Lens.Redact.Unchanged
import Lens.Redis.Arguments
import Lens.Store.Actor

/-!
# Records that are labelled public

A message that the redactor does not report as changed is stored as it was decoded
(`public_as_decoded`).  The redactor writes the start line of a Redis command again, and the
decoder of the same protocol writes it in the same way.  Which protocol a message has is read off
its headers, so the names of headers from the wire matter (`Decoded`): a peer that writes a
metadata header of its own could have another message taken for a Redis command.
-/

namespace Lens.Store

open List
open Http1 Http2 Postgres Redis Redact

/-- The metadata prefix, in any letter case. -/
def isMetadataName (name : String) : Bool := Str.startsWith (Str.toAsciiLowercase name) "lens-"

/-- A metadata header that the PostgreSQL decoder writes itself. -/
def isPostgresOwn (h : String × String) : Bool :=
  h == ("lens-protocol", "postgres") || ["lens-kind", "lens-boundary", "lens-content"].contains h.1

/-- A message that one of the decoders emits, and the headers it has from the wire. -/
inductive Decoded : DecodedMessage → Headers → Prop where
| http1 {m : DecodedMessage} (s : Http1Decoder) (o : Http1Decoder.Op) :
  m ∈ (s.op o).2.messages →
  Decoded m m.headers
| http2 {m : DecodedMessage} {η : Type} (hp : Hpack η) (maxBody : Nat) (calls : List Call) :
  m ∈ ((Http2Decoder.new hp maxBody).run hp calls).2.flatMap Stream.Batch.messages →
  Decoded m ((Http2Decoder.new hp maxBody).wireFields hp calls)
| postgres {m : DecodedMessage} (s : PostgresDecoder) (c : Call) :
  m ∈ (s.call c).2.messages →
  Decoded m (m.headers.filter fun h => !isPostgresOwn h)
| redis {m : DecodedMessage} (s : RedisDecoder) (d : Direction) (bytes : Bytes) :
  m ∈ (s.push d bytes).2.messages ∨ m ∈ (s.finish d).2.messages →
  Decoded m []

/-! ## Redis messages -/

variable {m : DecodedMessage}

/-- Every message of the Redis decoder is written from a value. -/
theorem redis_toMessage {s : RedisDecoder} {d : Direction}
    (h : m ∈ (s.decodeAvailable d).2.messages) : ∃ value, m = toMessage d value s.maxBody := by
  have hall : ∀ m ∈ (Stream.drive (Redis.laneTurn d s.maxBody) ((s.state d).length + 1)
      (s.state d)).2.messages, ∃ value, m = toMessage d value s.maxBody := by
    apply Stream.drive_messages
    · intro buffer buffer' b hturn
      unfold Redis.laneTurn at hturn
      repeat' split at hturn
      all_goals cases hturn
      exact forall_mem_singleton.mpr ⟨_, rfl⟩
    · intro buffer buffer' b hturn
      unfold Redis.laneTurn at hturn
      repeat' split at hturn
      all_goals cases hturn
      all_goals simp [Stream.Batch.needMore]
  exact hall m h

theorem argumentHeaders_name (maxBody : Nat) (arguments : List Bytes) (retained : Nat) :
    ∀ h ∈ (argumentHeaders maxBody retained arguments).1, h.1 = "redis-arg" := by
  induction arguments generalizing retained with
  | nil => simp [argumentHeaders]
  | cons argument arguments ih =>
    rw [argumentHeaders]
    exact forall_mem_cons.mpr ⟨rfl, ih _⟩

/-- A command is summarised by its name and its arguments. -/
theorem summaryOf_command {shown : Headers} (hshown : ∀ h ∈ shown, h.1 = "redis-arg")
    (command : String) :
    findHeader ([("lens-protocol", "redis"), ("lens-boundary", "request"),
      ("redis-command", command)] ++ shown) "redis-command" = some command ∧
    summaryOf ([("lens-protocol", "redis"), ("lens-boundary", "request"),
      ("redis-command", command)] ++ shown) command =
        redisRequestSummary command (shown.map Prod.snd) := by
  obtain ⟨arguments, rfl⟩ :
      ∃ arguments : List String, shown = arguments.map fun a => ("redis-arg", a) := by
    have hmap : shown.map (fun h => ("redis-arg", h.2)) = shown.map id :=
      map_congr_left fun h hh => Prod.ext (hshown h hh).symm rfl
    refine ⟨shown.map Prod.snd, ?_⟩
    rw [map_map]
    exact (hmap.trans (map_id _)).symm
  refine ⟨findHeader_command command arguments, ?_⟩
  have hfilter := filter_commandHeaders command arguments
  rw [commandHeaders] at hfilter
  unfold summaryOf redisRequestSummary
  simp only [hfilter, map_map, Function.comp_def, map_id']

theorem summarised_command {command : String} (hupper : Str.toAsciiUppercase command = command)
    {shown : Headers} (hshown : ∀ h ∈ shown, h.1 = "redis-arg") {m : DecodedMessage}
    (hline : m.startLine = redisRequestSummary command (shown.map Prod.snd))
    (hheaders : m.headers = [("lens-protocol", "redis"), ("lens-boundary", "request"),
      ("redis-command", command)] ++ shown) : Summarised m := by
  obtain ⟨hfind, hsummary⟩ := summaryOf_command hshown command
  rw [← hheaders] at hfind hsummary
  intro name hname
  obtain rfl := Option.some.inj (hfind.symm.trans hname)
  rw [hupper, hline, hsummary]

/-- The decoder writes the start line of a command as the redactor does. -/
theorem summarised_requestMessage (value : RespValue) (maxBody : Nat) :
    Summarised (requestMessage value maxBody) := by
  rw [requestMessage_eq]
  have hnames := fun words => argumentHeaders_name maxBody words 0
  cases argumentsOf value with
  | nil => exact @summarised_command "UNKNOWN" (by decide) _ (hnames []) _ rfl rfl
  | cons name words =>
    exact summarised_command (Str.toAsciiUppercase_toAsciiUppercase _) (hnames _) rfl rfl

theorem summarised_responseMessage (value : RespValue) (maxBody : Nat) :
    Summarised (responseMessage value maxBody) := by
  intro command hc
  have hnone : findHeader (responseMessage value maxBody).headers "redis-command" = none := by
    apply findHeader_eq_none
    have hnames : ["lens-protocol", "redis-kind", "lens-content", "lens-boundary"].all
        (!Str.eqIgnoreAsciiCase · "redis-command") = true := by decide
    rw [all_eq_true] at hnames ⊢
    intro name hname
    apply hnames
    obtain ⟨h, hh, rfl⟩ := mem_map.mp hname
    simp only [responseMessage, mem_append, mem_cons, not_mem_nil, or_false] at hh
    obtain (rfl | rfl | rfl) | hh := hh
    · simp
    · simp
    · simp
    · split at hh
      · cases hh
      · simp [mem_singleton.mp hh]
  rw [hnone] at hc
  cases hc

/-- With no metadata name on the wire, a message that is marked as a Redis one is from the Redis
decoder. -/
theorem Decoded.summarised {wire : Headers} (h : Decoded m wire)
    (hwire : ∀ x ∈ wire, isMetadataName x.1 = false)
    (hredis : hasHeader m.headers "lens-protocol" "redis" = true) : Summarised m := by
  obtain ⟨x, hx, hname⟩ := any_eq_true.mp hredis
  obtain ⟨hname, hvalue⟩ := Bool.and_eq_true_iff.mp hname
  have hmetadata : isMetadataName x.1 = true := by
    rw [isMetadataName, Str.eqIgnoreAsciiCase_iff.mp hname]
    decide
  have hplain : x ∉ wire := fun hmem => by
    rw [hwire x hmem] at hmetadata
    cases hmetadata
  cases h with
  | http1 => exact absurd hx hplain
  | http2 hp maxBody calls hm =>
    obtain hmem | hown := Http2Decoder.run_fromWire hp maxBody calls m hm x hx
    · exact absurd hmem hplain
    · have hnames : ∀ n ∈ ["lens-stream-id", "lens-boundary", "lens-content", "grpc-compressed",
          "grpc-message-bytes", "grpc-status"],
          Str.eqIgnoreAsciiCase n "lens-protocol" = false := by decide
      have hvalues : ∀ v ∈ ["http2", "grpc"], Str.eqIgnoreAsciiCase v "redis" = false := by decide
      rcases mem_cons.mp hown.name with heq | hother
      · rw [hvalues x.2 (hown.protocol heq)] at hvalue
        cases hvalue
      · rw [hnames x.1 hother] at hname
        cases hname
  | postgres =>
    have hown : isPostgresOwn x = true := by
      by_contra hnot
      exact hplain (mem_filter.mpr ⟨hx, by simpa using hnot⟩)
    have hnames : ∀ n ∈ ["lens-kind", "lens-boundary", "lens-content"],
        Str.eqIgnoreAsciiCase n "lens-protocol" = false := by decide
    rcases Bool.or_eq_true_iff.mp hown with heq | hother
    · obtain rfl := beq_iff_eq.mp heq
      exact absurd hvalue (by decide)
    · rw [hnames x.1 (contains_iff_mem.mp hother)] at hname
      cases hname
  | redis s d bytes hm =>
    obtain ⟨value, maxBody, rfl⟩ : ∃ value maxBody, m = toMessage d value maxBody := by
      rcases hm with hm | hm
      · obtain ⟨value, rfl⟩ := redis_toMessage hm
        exact ⟨value, _, rfl⟩
      · have hmessages : (s.finish d).2.messages = (s.decodeAvailable d).2.messages := by
          rw [RedisDecoder.finish]
          simp only
          split <;> rfl
        rw [hmessages] at hm
        obtain ⟨value, rfl⟩ := redis_toMessage hm
        exact ⟨value, _, rfl⟩
    cases d with
    | clientToServer => exact summarised_requestMessage value maxBody
    | serverToClient => exact summarised_responseMessage value maxBody

/-- A message that the redactor does not report as changed is returned as it was decoded. -/
theorem public_as_decoded (m : DecodedMessage) (wire : Headers) (h : Decoded m wire)
    (hwire : ∀ x ∈ wire, isMetadataName x.1 = false) (hpublic : (redact false m).redacted = false) :
    (redact false m).message = m :=
  redact_of_unchanged (h.summarised hwire) hpublic

/-- A Redis command without a secret. -/
def ping : DecodedMessage := requestMessage (.inline [Utf8.asBytes "ping", Utf8.asBytes "hello"]) 64

theorem public_ping : (redact false ping).redacted = false ∧
    (redact false ping).message = ping := by
  have hpublic : (redact false ping).redacted = false := by decide +kernel
  have hdecoded : Decoded ping [] :=
    .redis (.new 64) .clientToServer (Utf8.asBytes "ping hello\r\n") (.inl (by decide +kernel))
  exact ⟨hpublic, public_as_decoded ping [] hdecoded (by simp) hpublic⟩

end Lens.Store
