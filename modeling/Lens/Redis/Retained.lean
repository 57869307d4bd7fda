import Lens.Redis.Arguments

/-!
# What a message retains

The arguments of a command share the budget of `max_body` bytes, and the body of a reply is cut
to it.  The name of a command and the text in the summary of a reply are outside the budget,
and what of a client's value is no argument is left out without a mark.
-/

namespace Lens.Redis

open List

/-- A client's value that is a command: an array of scalars, or a line of words. -/
def isCommand : RespValue → Bool
  | .array (some values) => values.all fun value => (scalarBytes value).isSome
  | .inline _ => true
  | _ => false

/-- The arguments that a request holds. -/
def heldArguments (m : DecodedMessage) : List String :=
  (m.headers.filter fun h => h.1 = "redis-arg").map Prod.snd

/-- The name and the arguments a request holds are within the cap, and it is marked exactly
if an argument is cut or something of the value is no argument. -/
structure RequestCapped (value : RespValue) (maxBody : Nat) : Prop where
  bounded : argumentsOf value ≠ [] →
    Utf8.width ((findHeader (requestMessage value maxBody).headers "redis-command").getD "") +
      ((heldArguments (requestMessage value maxBody)).map Utf8.width).sum ≤ maxBody
  marked : (requestMessage value maxBody).truncated = true ↔
    isCommand value = false ∨ heldArguments (requestMessage value maxBody) ≠
      (argumentsOf value).tail.map renderBytes

/-- The fixed text of a reply's summary.  It holds the numbers of bytes, items and pairs. -/
def replyLabel : RespValue → String
  | .simple _ => "Redis "
  | .error _ => "Redis error "
  | .integer _ => "Redis integer "
  | .double _ => "Redis double "
  | .bigNumber _ => "Redis big number "
  | .boolean _ => "Redis boolean "
  | value => (responseSummary value).2

/-- The wire content in the summary of a reply. -/
def replyText : RespValue → String
  | .simple value | .error value | .integer value | .double value | .bigNumber value =>
    renderBytes value
  | .boolean value => toString value
  | _ => ""

/-- The summary and the body of a reply are within the cap, and it is marked exactly if the
body is cut. -/
structure ReplyCapped (value : RespValue) (maxBody : Nat) : Prop where
  summary : ∃ text, (responseMessage value maxBody).startLine = replyLabel value ++ text ∧
    Utf8.width text ≤ maxBody
  body : (responseMessage value maxBody).body.length ≤ maxBody
  marked : (responseMessage value maxBody).truncated = true ↔
    (responseMessage value maxBody).body ≠ Utf8.asBytes (renderValue value)

/-! ## Requests -/

variable {value : RespValue} {maxBody : Nat} {name : Bytes} {arguments : List Bytes}

theorem sum_size_shown : ∀ (left : Nat) (arguments : List Bytes),
    ((shown left arguments).map Utf8.width).sum = min left (width arguments)
  | left, [] => by simp [shown, width]
  | left, argument :: arguments => by
    have hsize : Utf8.width (String.ofList ((rendered argument).take left)) =
        min left (rendered argument).length := by
      rw [Utf8.width, Utf8.asBytes_ofList, Utf8.length_encode_ascii
        fun c hc => rendered_ascii argument c (mem_of_mem_take hc), length_take]
    rw [shown, map_cons, sum_cons, hsize, sum_size_shown, width_cons]
    omega

theorem shown_eq_iff {left : Nat} :
    shown left arguments = arguments.map renderBytes ↔ width arguments ≤ left := by
  refine ⟨fun h => ?_, shown_of_width_le⟩
  have hfull := sum_size_shown (width arguments) arguments
  rw [shown_of_width_le (Nat.le_refl _), ← h, sum_size_shown] at hfull
  omega

theorem requestMessage_truncated (hmax : maxBody < 2 ^ 64) :
    (requestMessage value maxBody).truncated = true ↔ maxBody < width (argumentsOf value).tail := by
  rw [requestMessage_eq, commandMessage, argumentHeaders_eq hmax _ (Nat.zero_le _)]
  simp

theorem heldArguments_request (hmax : maxBody < 2 ^ 64) :
    heldArguments (requestMessage value maxBody) = shown maxBody (argumentsOf value).tail := by
  rw [requestMessage_eq, commandMessage, argumentHeaders_eq hmax _ (Nat.zero_le _), heldArguments]
  have hkept : ∀ h ∈ (shown maxBody (argumentsOf value).tail).map fun a => ("redis-arg", a),
      decide (h.1 = "redis-arg") = true := by
    simp
  simp only [drop_one, Nat.sub_zero, filter_append, filter_eq_self.mpr hkept]
  simp [Function.comp_def]

theorem findHeader_request (hvalue : argumentsOf value = name :: arguments)
    (hmax : maxBody < 2 ^ 64) :
    findHeader (requestMessage value maxBody).headers "redis-command" =
      some (commandName name) := by
  rw [requestMessage_headers hvalue hmax]
  exact findHeader_command _ _

/-- A command of scalars whose name and arguments fit, the name being empty if they do not. -/
def RequestFits (value : RespValue) (maxBody : Nat) : Prop :=
  (isCommand value = true ∨ maxBody < width (argumentsOf value).tail) ∧
    ∀ name arguments, argumentsOf value = name :: arguments →
      Utf8.width (commandName name) = 0 ∨
        Utf8.width (commandName name) + width arguments ≤ maxBody

theorem requestCapped_iff (hmax : maxBody < 2 ^ 64) :
    RequestCapped value maxBody ↔ RequestFits value maxBody := by
  have hmarked : ((requestMessage value maxBody).truncated = true ↔
      isCommand value = false ∨ heldArguments (requestMessage value maxBody) ≠
        (argumentsOf value).tail.map renderBytes) ↔
      (isCommand value = true ∨ maxBody < width (argumentsOf value).tail) := by
    rw [requestMessage_truncated hmax, heldArguments_request hmax, ne_eq, shown_eq_iff, Nat.not_le]
    cases isCommand value <;> simp
  have hbounded : (argumentsOf value ≠ [] →
      Utf8.width ((findHeader (requestMessage value maxBody).headers "redis-command").getD "") +
        ((heldArguments (requestMessage value maxBody)).map Utf8.width).sum ≤ maxBody) ↔
      ∀ name arguments, argumentsOf value = name :: arguments →
        Utf8.width (commandName name) = 0 ∨
          Utf8.width (commandName name) + width arguments ≤ maxBody := by
    rw [heldArguments_request hmax, sum_size_shown]
    cases hvalue : argumentsOf value with
    | nil => simp
    | cons name arguments =>
      rw [findHeader_request hvalue hmax]
      constructor
      · rintro h _ _ ⟨⟩
        have hle := h (cons_ne_nil _ _)
        simp only [Option.getD_some, tail_cons] at hle
        omega
      · intro h _
        have hle := h name arguments rfl
        simp only [Option.getD_some, tail_cons]
        omega
  exact ⟨fun h => ⟨hmarked.mp h.marked, hbounded.mp h.bounded⟩,
    fun h => ⟨hbounded.mpr h.2, hmarked.mpr h.1⟩⟩

/-! ## Replies -/

theorem responseSummary_eq (value : RespValue) :
    (responseSummary value).2 = replyLabel value ++ replyText value := by
  unfold replyLabel replyText
  split <;> simp [responseSummary]

theorem replyCapped_iff : ReplyCapped value maxBody ↔ Utf8.width (replyText value) ≤ maxBody := by
  constructor
  · intro h
    obtain ⟨text, htext, hle⟩ := h.summary
    have heq : replyLabel value ++ replyText value = replyLabel value ++ text :=
      (responseSummary_eq value).symm.trans htext
    rwa [(String.append_right_inj _).mp heq]
  · intro h
    refine ⟨⟨_, responseSummary_eq value, h⟩, ?_, ?_⟩
    · rw [responseMessage, length_take]
      omega
    · rw [responseMessage, decide_eq_true_eq, ne_eq, take_eq_self_iff]
      omega

/-! ## Both directions -/

def Capped (value : RespValue) (maxBody : Nat) : Direction → Prop
  | .clientToServer => RequestCapped value maxBody
  | .serverToClient => ReplyCapped value maxBody

def Fits (value : RespValue) (maxBody : Nat) : Direction → Prop
  | .clientToServer => RequestFits value maxBody
  | .serverToClient => Utf8.width (replyText value) ≤ maxBody

/-- For every value in either direction, the cap covers what the message retains and the mark
is right exactly if nothing outside the budget is too wide and nothing is left out unseen. -/
theorem capped_iff_fits (hmax : maxBody < 2 ^ 64) (value : RespValue) :
    ∀ direction, Capped value maxBody direction ↔ Fits value maxBody direction
  | .clientToServer => requestCapped_iff hmax
  | .serverToClient => replyCapped_iff

theorem capped_ok : Capped (.simple [79, 75]) 2 .serverToClient :=
  (capped_iff_fits (by decide) _ _).mpr (by decide +kernel : Utf8.width "OK" ≤ 2)

/-- The name of the command `GET` is longer than a cap of two bytes. -/
theorem name_over_cap : ¬ Capped (.array (some [.bulk (some [71, 69, 84])])) 2 .clientToServer := by
  rw [capped_iff_fits (by decide)]
  intro h
  have hname := h.2 [71, 69, 84] [] rfl
  revert hname
  decide +kernel

end Lens.Redis
