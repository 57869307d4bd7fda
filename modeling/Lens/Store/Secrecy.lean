import Lens.Store.Actor
import Lens.Redact.Headers

/-!
# What two runs of the store may differ in

A secret is kept from the store when any two values of it leave the same record.
The record of a message shows it in a summary and in rendered bytes, and both are
functions of the redacted message (`storedAlike_iff`).  A reply to a Redis command
has no command to redact by: its bytes are hidden as a whole, and its summary,
which for most constructors holds a length only, is kept as it is
(`redact_responseMessage`).
-/

namespace Lens.Store

open Redact (redact replacement hideBody)

/-- The store keeps the same summary and the same bytes of two messages. -/
def StoredAlike (η : Type) (m m' : DecodedMessage) : Prop :=
  ∀ (s : StoreActor η) (flowId : FlowId) (timestamp : TimestampPair), s.reveal = false →
    (s.recordWith s.reveal flowId timestamp m).summary =
        (s.recordWith s.reveal flowId timestamp m').summary ∧
      (s.recordWith s.reveal flowId timestamp m).body =
        (s.recordWith s.reveal flowId timestamp m').body

/-- A record is what redaction leaves. -/
theorem storedAlike_iff {η : Type} {m m' : DecodedMessage} :
    StoredAlike η m m' ↔
      (redact false m).message.summary = (redact false m').message.summary ∧
        (redact false m).message.render = (redact false m').message.render := by
  constructor
  · intro h
    exact h (StoreActor.withInspection 0 0 0 false) 0 ⟨0, 0⟩ rfl
  · intro h s flowId timestamp hreveal
    rw [hreveal]
    exact h

end Lens.Store

namespace Lens.Redis

open List
open Redact (redact replacement hideBody)

/-! ## Shapes -/

mutual

/-- A value with its constructors and lengths only. -/
def shape : RespValue → RespValue
  | .simple value => .simple (value.map fun _ => 0)
  | .error value => .error (value.map fun _ => 0)
  | .integer value => .integer (value.map fun _ => 0)
  | .bulk value => .bulk (value.map (·.map fun _ => 0))
  | .array none => .array none
  | .array (some values) => .array (some (shapes values))
  | .null => .null
  | .boolean _ => .boolean false
  | .double value => .double (value.map fun _ => 0)
  | .bigNumber value => .bigNumber (value.map fun _ => 0)
  | .bulkError value => .bulkError (value.map fun _ => 0)
  | .verbatim value => .verbatim (value.map fun _ => 0)
  | .map values => .map (shapes values)
  | .set values => .set (shapes values)
  | .push values => .push (shapes values)
  | .attr values => .attr (shapes values)
  | .inline values => .inline (values.map (·.map fun _ => 0))

def shapes : List RespValue → List RespValue
  | [] => []
  | value :: values => shape value :: shapes values

end

theorem length_shapes (values : List RespValue) : (shapes values).length = values.length := by
  induction values with
  | nil => rfl
  | cons value values ih => rw [shapes, length_cons, length_cons, ih]

/-- A value that the summary of a reply does not tell. -/
def masked : RespValue → Bool
  | .simple value | .error value | .integer value | .double value | .bigNumber value =>
    value.isEmpty
  | .boolean _ => false
  | _ => true

theorem masked_shape (value : RespValue) : masked (shape value) = masked value := by
  cases value with
  | array values => cases values with
    | none => rfl
    | some values => rfl
  | simple value | error value | integer value | double value | bigNumber value =>
    cases value with
    | nil => rfl
    | cons b bs => rfl
  | _ => rfl

theorem isPush_shape (value : RespValue) : isPush (shape value) = isPush value := by
  cases value with
  | array values => cases values with
    | none => rfl
    | some values => rfl
  | _ => rfl

variable {value : RespValue}

/-- The summary of a masked value is that of its shape. -/
theorem responseSummary_shape (h : masked value = true) :
    responseSummary value = responseSummary (shape value) := by
  cases value with
  | array values => cases values with
    | none => rfl
    | some values => rw [shape, responseSummary, responseSummary, length_shapes]
  | bulk value => cases value with
    | none => rfl
    | some value => rw [shape, Option.map_some, responseSummary, responseSummary, length_map]
  | simple value | error value | integer value | double value | bigNumber value =>
    obtain rfl := List.isEmpty_iff.mp h
    rfl
  | boolean value => cases h
  | _ => simp only [shape, responseSummary, length_shapes, length_map]

/-! ## Renderings -/

theorem renderByte_ne_nil (b : UInt8) : renderByte b ≠ [] := by
  rw [renderByte]
  repeat' split
  all_goals simp

theorem renderBytes_eq_empty_iff {value : Bytes} : renderBytes value = "" ↔ value = [] := by
  cases value with
  | nil => exact ⟨fun _ => rfl, fun _ => rfl⟩
  | cons b bs =>
    refine ⟨fun h => ?_, fun h => nomatch h⟩
    have hchars : (b :: bs).flatMap renderByte = [] := by
      rw [← String.toList_ofList (l := (b :: bs).flatMap renderByte)]
      exact congrArg String.toList h
    rw [flatMap_cons, append_eq_nil_iff] at hchars
    exact absurd hchars.1 (renderByte_ne_nil b)

/-- Whether a value shows as nothing is told by its shape. -/
theorem renderValue_shape_eq_empty_iff (value : RespValue) :
    renderValue (shape value) = "" ↔ renderValue value = "" := by
  cases value with
  | simple value | error value | integer value | double value | bigNumber value
  | bulkError value | verbatim value =>
    simp only [shape, renderValue, renderBytes_eq_empty_iff, map_eq_nil_iff]
  | bulk value => cases value with
    | none => rfl
    | some value =>
      simp only [shape, Option.map_some, renderValue, renderBytes_eq_empty_iff, map_eq_nil_iff]
  | array values => cases values with
    | none => rfl
    | some values => simp [shape, renderValue]
  | boolean value => cases value with
    | false => rfl
    | true => simp only [shape, renderValue]; decide
  | null => rfl
  | map values | set values | push values | attr values => simp [shape, renderValue]
  | inline values => match values with
    | [] => rfl
    | [value] =>
      simp only [shape, renderValue, map_cons, map_nil, Str.join,
        renderBytes_eq_empty_iff, map_eq_nil_iff]
    | _ :: _ :: _ => simp [shape, renderValue, Str.join]

/-! ## Replies -/

/-- A reply has no command to redact by, and none of its headers is secret. -/
structure Plain (headers : Headers) : Prop where
  postgres : Redact.hasHeader headers "lens-protocol" "postgres" = false
  redis : Redact.hasHeader headers "lens-protocol" "redis" = true
  command : findHeader headers "redis-command" = none
  names : ∀ h ∈ headers, Redact.isSensitiveName h.1 = false
  content : Redact.hasHeader headers "lens-content" "redis-value" = true

/-- The kind of a value decides nothing. -/
theorem inert_kind (kind : String) : Redact.Inert ("redis-kind", kind) := by
  have hname : ∀ n ∈ "lens-protocol" :: "lens-content" :: Redact.lookedUp,
      Str.eqIgnoreAsciiCase "redis-kind" n = false := by decide
  exact Redact.Inert.of_name (fun n hn => hname n (mem_cons_of_mem _ (mem_cons_of_mem _ hn)))
    (hname _ (by decide)) (hname _ (by decide))

theorem Plain.kind {A B : Headers} (h : Plain (A ++ B)) (kind : String) :
    Plain (A ++ ("redis-kind", kind) :: B) where
  postgres := by
    rw [Redact.hasHeader_insert A B ((inert_kind kind).header _ (by decide))]
    exact h.postgres
  redis := by
    rw [Redact.hasHeader_insert A B ((inert_kind kind).header _ (by decide))]
    exact h.redis
  command := by
    rw [Redact.findHeader_insert A B ((inert_kind kind).name _ (by decide))]
    exact h.command
  names := by
    intro x hx
    rw [mem_append, mem_cons, or_left_comm, ← mem_append] at hx
    rcases hx with rfl | hx
    · show Redact.isSensitiveName "redis-kind" = false
      decide
    · exact h.names x hx
  content := by
    rw [Redact.hasHeader_insert A B ((inert_kind kind).header _ (by decide))]
    exact h.content

theorem plain_responseMessage (value : RespValue) (maxBody : Nat) :
    Plain (responseMessage value maxBody).headers := by
  have hrest : ∀ push : Bool, Plain ([("lens-protocol", "redis")] ++
      (("lens-content", "redis-value") ::
        if push then [] else [("lens-boundary", "response")])) := by
    intro push
    cases push with
    | true => exact ⟨by decide, by decide, by decide, by decide, by decide⟩
    | false => exact ⟨by decide, by decide, by decide, by decide, by decide⟩
  exact (hrest (isPush value)).kind (responseSummary value).1

theorem redact_of_plain {direction : Direction} {startLine : String} {body : Bytes}
    {headers : Headers} {truncated : Bool} (h : Plain headers) :
    (redact false ⟨direction, startLine, headers, body, truncated⟩).message =
      ⟨direction, startLine, headers, (hideBody body).1, truncated⟩ := by
  have hline : Redact.redactLine true ⟨direction, startLine, headers, body, truncated⟩ =
      (⟨direction, startLine, headers, body, truncated⟩, false) := by
    simp only [Redact.redactLine, if_true, Redact.redactRedis, h.command, Option.map_none]
  have hheaders := Redact.redactHeaders_of_not h.names
  simp only [redact, Bool.false_eq_true, if_false, h.postgres, h.redis, hline, hheaders,
    Redact.redactBody, h.content, if_true, Bool.false_and]

/-- A stored reply has the summary of its value and hides its bytes. -/
theorem redact_responseMessage (value : RespValue) (maxBody : Nat) :
    (redact false (responseMessage value maxBody)).message =
      { responseMessage value maxBody with
        body := (hideBody (responseMessage value maxBody).body).1 } :=
  redact_of_plain (plain_responseMessage value maxBody)

theorem hideBody_eq (body : Bytes) :
    (hideBody body).1 = if body = [] then [] else Utf8.asBytes replacement := by
  cases body with
  | nil => rfl
  | cons b bs => rfl

/-- The hidden body of a masked value is that of its shape. -/
theorem hideBody_shape (value : RespValue) (maxBody : Nat) :
    (hideBody (responseMessage (shape value) maxBody).body).1 =
      (hideBody (responseMessage value maxBody).body).1 := by
  have hbody : ∀ v : RespValue, (responseMessage v maxBody).body = [] ↔
      renderValue v = "" ∨ maxBody = 0 := by
    intro v
    have hempty : Utf8.asBytes (renderValue v) = [] ↔ renderValue v = "" :=
      ⟨fun h => Utf8.asBytes_injective h, fun h => h ▸ rfl⟩
    show (Utf8.asBytes (renderValue v)).take (min _ maxBody) = [] ↔ _
    rw [← hempty, ← length_eq_zero_iff, ← length_eq_zero_iff, length_take]
    omega
  rw [hideBody_eq, hideBody_eq]
  exact if_congr (by rw [hbody, hbody, renderValue_shape_eq_empty_iff]) rfl rfl

theorem redact_shape (h : masked value = true) (maxBody : Nat) :
    (redact false (responseMessage value maxBody)).message.summary =
        (redact false (responseMessage (shape value) maxBody)).message.summary ∧
      (redact false (responseMessage value maxBody)).message.render =
        (redact false (responseMessage (shape value) maxBody)).message.render := by
  rw [redact_responseMessage, redact_responseMessage, hideBody_shape]
  simp only [DecodedMessage.summary, DecodedMessage.render, responseMessage,
    responseSummary_shape h, isPush_shape, and_self]

/-! ## Told values -/

/-- Two texts that start with different digits show differently. -/
theorem renderBytes_digits (bs : Bytes) :
    renderBytes (0x31 :: bs) ≠ renderBytes (0x32 :: bs) := by
  intro h
  have hchars := congrArg String.toList h
  rw [renderBytes, renderBytes, String.toList_ofList, String.toList_ofList, flatMap_cons,
    flatMap_cons] at hchars
  exact absurd (List.cons.inj hchars).1 (by decide)

/-- A value that is not masked has the shape of two with different summaries. -/
theorem exists_summary_ne (h : masked value = false) :
    ∃ v w, shape v = shape value ∧ shape w = shape value ∧
      (responseSummary v).2 ≠ (responseSummary w).2 := by
  have hne : ∀ (lead : String) (bs : Bytes),
      lead ++ renderBytes (0x31 :: bs) ≠ lead ++ renderBytes (0x32 :: bs) := by
    intro lead bs heq
    exact renderBytes_digits bs ((String.append_right_inj lead).mp heq)
  cases value with
  | simple value => cases value with
    | nil => cases h
    | cons b bs => exact ⟨.simple (0x31 :: bs), .simple (0x32 :: bs), rfl, rfl, hne "Redis " bs⟩
  | error value => cases value with
    | nil => cases h
    | cons b bs => exact ⟨.error (0x31 :: bs), .error (0x32 :: bs), rfl, rfl, hne _ bs⟩
  | integer value => cases value with
    | nil => cases h
    | cons b bs => exact ⟨.integer (0x31 :: bs), .integer (0x32 :: bs), rfl, rfl, hne _ bs⟩
  | double value => cases value with
    | nil => cases h
    | cons b bs => exact ⟨.double (0x31 :: bs), .double (0x32 :: bs), rfl, rfl, hne _ bs⟩
  | bigNumber value => cases value with
    | nil => cases h
    | cons b bs => exact ⟨.bigNumber (0x31 :: bs), .bigNumber (0x32 :: bs), rfl, rfl, hne _ bs⟩
  | boolean value => exact ⟨.boolean false, .boolean true, rfl, rfl, by decide⟩
  | _ => cases h

/-- All values of the shape of a reply are stored alike exactly when its summary
tells a length and no value. -/
theorem storedAlike_iff_masked (η : Type) (value : RespValue) :
    (∀ other, shape other = shape value → ∀ maxBody,
      Store.StoredAlike η (responseMessage value maxBody) (responseMessage other maxBody)) ↔
        masked value = true := by
  constructor
  · intro h
    by_contra hnot
    obtain ⟨v, w, hv, hw, hne⟩ := exists_summary_ne (Bool.eq_false_iff.mpr hnot)
    have hsummary : ∀ other, shape other = shape value →
        (responseSummary value).2 = (responseSummary other).2 := by
      intro other hother
      have halike := (Store.storedAlike_iff.mp (h other hother 0)).1
      rw [redact_responseMessage, redact_responseMessage] at halike
      exact halike
    exact hne ((hsummary v hv).symm.trans (hsummary w hw))
  · intro h other hother maxBody
    have hother' : masked other = true := by
      rw [← masked_shape, hother, masked_shape, h]
    have hvalue := redact_shape h maxBody
    have hsame := redact_shape hother' maxBody
    rw [hother] at hsame
    exact Store.storedAlike_iff.mpr
      ⟨hvalue.1.trans hsame.1.symm, hvalue.2.trans hsame.2.symm⟩

/-- The server's messages in some bytes. -/
def repliesIn (maxBody : Nat) (bytes : Bytes) : List DecodedMessage :=
  ((RedisDecoder.new maxBody).push .serverToClient bytes).2.messages

/-- An integer reply is stored in the clear. -/
theorem integer_told :
    repliesIn 64 (Utf8.asBytes ":4821\r\n") =
      [responseMessage (.integer (Utf8.asBytes "4821")) 64] ∧
      repliesIn 64 (Utf8.asBytes ":1975\r\n") =
        [responseMessage (.integer (Utf8.asBytes "1975")) 64] ∧
      shape (.integer (Utf8.asBytes "4821")) = shape (.integer (Utf8.asBytes "1975")) ∧
      ¬ Store.StoredAlike Unit (responseMessage (.integer (Utf8.asBytes "4821")) 64)
        (responseMessage (.integer (Utf8.asBytes "1975")) 64) := by
  refine ⟨by decide +kernel, by decide +kernel, rfl, ?_⟩
  intro h
  have hsummary := (h (Store.StoreActor.withInspection 0 0 64 false) 0 ⟨0, 0⟩ rfl).1
  exact absurd hsummary (by decide +kernel)

end Lens.Redis
