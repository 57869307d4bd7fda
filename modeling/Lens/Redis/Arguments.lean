import Lens.Text.Case
import Lens.Redis.Decoder
import Lens.Redact.Headers

/-!
# The arguments of a command

A command is decoded into one header for each argument, rendered in ASCII and cut
where the budget for them ends.  So every argument is whole up to the one that is
cut, and those after it are empty (`shown`).  The redactor replaces each argument
that is sensitive where it stands among the others (`safe`), and builds the
summary from what is left (`redact_requestMessage`).
-/

namespace Lens.Redis

open List
open Redact (redact replacement redisArgumentIsSensitive)

variable {maxBody : Nat} {value : RespValue} {name : Bytes} {arguments : List Bytes}

/-! ## Rendered arguments -/

theorem renderByte_ascii {b : UInt8} {c : Char} (h : c ∈ renderByte b) : c.toNat < 0x80 := by
  have hdigit : ∀ n < 16, n.digitChar.toNat < 0x80 := by decide
  have hescape : ∀ d ∈ ['n', 'r', 't', 'x', '\\'], ∀ e ∈ ['\\', d], e.toNat < 0x80 := by
    simp
  rw [renderByte] at h
  repeat' split at h
  · next hb =>
      rw [Bool.and_eq_true, Bool.and_eq_true, decide_eq_true_eq, decide_eq_true_eq,
        UInt8.le_iff_toNat_le, UInt8.le_iff_toNat_le] at hb
      have hle : b.toNat ≤ 0x7e := hb.1.2
      rw [mem_singleton.mp h, Utf8.toNat_ofNat (by omega)]
      omega
  · exact hescape '\\' (by decide) c h
  · exact hescape 'n' (by simp) c h
  · exact hescape 'r' (by simp) c h
  · exact hescape 't' (by simp) c h
  · rcases mem_append.mp h with hc | hc
    · exact hescape 'x' (by simp) c hc
    · rw [Str.hex2, String.toList_ofList] at hc
      rcases mem_cons.mp hc with rfl | hc
      · exact hdigit _ (by have := b.toNat_lt; omega)
      · rw [mem_singleton.mp hc]
        exact hdigit _ (by omega)

/-- The characters of a rendered argument. -/
def rendered (argument : Bytes) : List Char := argument.flatMap renderByte

variable (argument : Bytes)

theorem renderBytes_eq : renderBytes argument = String.ofList (rendered argument) :=
  rfl

theorem rendered_ascii : ∀ c ∈ rendered argument, c.toNat < 0x80 := by
  intro c hc
  obtain ⟨b, _, hb⟩ := mem_flatMap.mp hc
  exact renderByte_ascii hb

theorem length_renderBytes :
    (Utf8.asBytes (renderBytes argument)).length = (rendered argument).length := by
  rw [renderBytes_eq, Utf8.asBytes_ofList, Utf8.length_encode_ascii (rendered_ascii argument)]

/-- Among ASCII characters a prefix is cut by count. -/
theorem truncateList_ascii : ∀ {cs : List Char} (n : Nat), (∀ c ∈ cs, c.toNat < 0x80) →
    truncateList n cs = cs.take n
  | [], n, _ => by rw [truncateList, take_nil]
  | c :: cs, n, h => by
    have hsize : (Utf8.encode [c]).length = 1 :=
      Utf8.length_encode_ascii fun d hd => h d (mem_cons.mpr (.inl (mem_singleton.mp hd)))
    have hrest : ∀ d ∈ cs, d.toNat < 0x80 := fun d hd => h d (mem_cons_of_mem _ hd)
    rw [truncateList]
    simp only [hsize]
    cases n with
    | zero => rfl
    | succ n =>
      rw [if_pos (Nat.le_add_left 1 n), Nat.add_sub_cancel, truncateList_ascii n hrest,
        take_succ_cons]

theorem truncateUtf8_renderBytes (n : Nat) :
    truncateUtf8 (renderBytes argument) n = String.ofList ((rendered argument).take n) := by
  rw [truncateUtf8, length_renderBytes]
  split
  next hle => rw [take_of_length_le hle, renderBytes_eq]
  next => rw [renderBytes_eq, String.toList_ofList, truncateList_ascii n (rendered_ascii argument)]

/-! ## The budget -/

/-- Arguments as they are shown with a number of characters left. -/
def shown : Nat → List Bytes → List String
  | _, [] => []
  | left, argument :: arguments =>
    String.ofList ((rendered argument).take left)
      :: shown (left - (rendered argument).length) arguments

/-- The characters of all arguments. -/
def width (arguments : List Bytes) : Nat := (arguments.flatMap rendered).length

theorem width_cons (arguments : List Bytes) :
    width (argument :: arguments) = (rendered argument).length + width arguments := by
  rw [width, width, flatMap_cons, length_append]

/-- The arguments are shown within the budget, and marked if they are wider. -/
theorem argumentHeaders_eq (hmax : maxBody < 2 ^ 64) :
    ∀ (arguments : List Bytes) {retained : Nat}, retained ≤ maxBody →
      argumentHeaders maxBody retained arguments =
        ((shown (maxBody - retained) arguments).map fun a => ("redis-arg", a),
          decide (maxBody - retained < width arguments))
  | [], _, _ => by simp [argumentHeaders, shown, width]
  | argument :: arguments, retained, hle => by
    have hsize : (Utf8.asBytes (truncateUtf8 (renderBytes argument) (maxBody - retained))).length =
        min (maxBody - retained) (rendered argument).length := by
      rw [truncateUtf8_renderBytes, Utf8.asBytes_ofList, Utf8.length_encode_ascii
        fun c hc => rendered_ascii argument c (mem_of_mem_take hc), length_take]
    have hnext : saturatingAdd retained (min (maxBody - retained) (rendered argument).length) ≤
        maxBody := by
      rw [saturatingAdd]
      omega
    have hleft : maxBody -
        saturatingAdd retained (min (maxBody - retained) (rendered argument).length) =
          maxBody - retained - (rendered argument).length := by
      rw [saturatingAdd]
      omega
    have hcut : (decide (min (maxBody - retained) (rendered argument).length <
        (rendered argument).length) ||
          decide (maxBody - retained - (rendered argument).length < width arguments)) =
        decide (maxBody - retained < width (argument :: arguments)) := by
      rw [width_cons, ← Bool.decide_or]
      exact decide_eq_decide.mpr (by omega)
    rw [argumentHeaders]
    simp only [hsize]
    rw [argumentHeaders_eq hmax arguments hnext, hleft, truncateUtf8_renderBytes, shown,
      map_cons, length_renderBytes, hcut]

@[simp] theorem length_shown : ∀ (left : Nat) (arguments : List Bytes),
    (shown left arguments).length = arguments.length
  | _, [] => rfl
  | left, _ :: arguments => by rw [shown, length_cons, length_cons, length_shown _ arguments]

theorem shown_append (B : List Bytes) : ∀ (left : Nat) (A : List Bytes),
    shown left (A ++ B) = shown left A ++ shown (left - width A) B
  | _, [] => rfl
  | left, a :: A => by
    rw [cons_append, shown, shown, shown_append B _ A, width_cons, Nat.sub_sub, cons_append]

/-- Arguments within the budget are shown whole. -/
theorem shown_of_width_le : ∀ {left : Nat} {A : List Bytes}, width A ≤ left →
    shown left A = A.map renderBytes
  | _, [], _ => rfl
  | left, a :: A, h => by
    rw [width_cons] at h
    rw [shown, take_of_length_le (by omega), shown_of_width_le (by omega), map_cons, renderBytes_eq]

/-- Arguments after the budget are empty. -/
theorem shown_zero : ∀ A : List Bytes, shown 0 A = A.map fun _ => ""
  | [] => rfl
  | a :: A => by
    rw [shown, take_zero, Nat.zero_sub, shown_zero A]
    rfl

/-! ## Replaced arguments -/

/-- The arguments after redaction. -/
def safe (command : String) (arguments : List String) : List String :=
  arguments.mapIdx fun position argument =>
    if redisArgumentIsSensitive command position arguments then replacement else argument

theorem redactArguments_map (command : String) (all : List String) :
    ∀ (arguments : List String) (position : Nat),
      (Redact.redactArguments command all position
          (arguments.map fun a => ("redis-arg", a))).1 =
        (arguments.mapIdx fun i a =>
          if redisArgumentIsSensitive command (position + i) all then replacement else a).map
            fun a => ("redis-arg", a)
  | [], _ => rfl
  | a :: arguments, position => by
    have hname : Redact.isRedisArg ("redis-arg", a) = true := Str.eqIgnoreAsciiCase_refl _
    have ih := redactArguments_map command all arguments (position + 1)
    have hshift : (fun i (a : String) =>
        if redisArgumentIsSensitive command (position + (i + 1)) all then replacement else a) =
          fun i a =>
            if redisArgumentIsSensitive command (position + 1 + i) all then replacement else a := by
      funext i a
      rw [Nat.add_right_comm, ← Nat.add_assoc]
    rw [map_cons, Redact.redactArguments, if_pos hname, mapIdx_cons, map_cons,
      hshift, ← ih, Nat.add_zero]
    cases hs : redisArgumentIsSensitive command position all with
    | false => simp
    | true =>
      by_cases ha : a = replacement
      · simp [ha]
      · simp [ha]

/-! ## Requests -/

/-- The words of a command. -/
def argumentsOf : RespValue → List Bytes
  | .array (some values) => values.filterMap scalarBytes
  | .inline values => values
  | _ => []

/-- The name of a command as it is stored. -/
def commandName (name : Bytes) : String := Str.toAsciiUppercase (Utf8.fromUtf8Lossy name)

/-- The message of a command with some words. -/
def commandMessage (arguments : List Bytes) (maxBody : Nat) : DecodedMessage :=
  let command := match arguments.head? with
    | some value => commandName value
    | none => "UNKNOWN"
  let (shown, truncated) := argumentHeaders maxBody 0 (arguments.drop 1)
  { direction := .clientToServer
    startLine := redisRequestSummary command (shown.map Prod.snd)
    headers := [("lens-protocol", "redis"), ("lens-boundary", "request"),
      ("redis-command", command)] ++ shown
    body := []
    truncated := truncated }

theorem requestMessage_eq (value : RespValue) (maxBody : Nat) :
    requestMessage value maxBody = commandMessage (argumentsOf value) maxBody := rfl

/-- The headers of a command with the arguments shown. -/
def commandHeaders (command : String) (arguments : List String) : Headers :=
  [("lens-protocol", "redis"), ("lens-boundary", "request"), ("redis-command", command)] ++
    arguments.map fun a => ("redis-arg", a)

theorem requestMessage_headers (hvalue : argumentsOf value = name :: arguments)
    (hmax : maxBody < 2 ^ 64) : requestMessage value maxBody =
      ⟨.clientToServer, redisRequestSummary (commandName name) (shown maxBody arguments),
        commandHeaders (commandName name) (shown maxBody arguments), [],
        (requestMessage value maxBody).truncated⟩ := by
  have hheaders : (argumentHeaders maxBody 0 arguments).1 =
      (shown maxBody arguments).map fun a => ("redis-arg", a) :=
    congrArg Prod.fst (argumentHeaders_eq hmax arguments (Nat.zero_le _))
  have hshown : ((shown maxBody arguments).map fun a => ("redis-arg", a)).map Prod.snd =
      shown maxBody arguments := by
    rw [map_map]
    exact map_id _
  rw [requestMessage_eq, hvalue]
  simp only [commandMessage, head?_cons, drop_one, tail_cons, hheaders, hshown, commandHeaders]

section Headers

variable (command : String) (arguments : List String)

theorem commandHeaders_names : ∀ h ∈ commandHeaders command arguments,
    h.1 ∈ ["lens-protocol", "lens-boundary", "redis-command", "redis-arg"] := by
  intro h hh
  rcases mem_append.mp hh with hh | hh
  · exact mem_append_left ["redis-arg"] (mem_map_of_mem (f := Prod.fst) hh)
  · obtain ⟨a, _, rfl⟩ := mem_map.mp hh
    show "redis-arg" ∈ _
    decide

theorem findHeader_command :
    findHeader (commandHeaders command arguments) "redis-command" = some command := by
  have hprotocol : Str.eqIgnoreAsciiCase "lens-protocol" "redis-command" = false := by decide
  have hboundary : Str.eqIgnoreAsciiCase "lens-boundary" "redis-command" = false := by decide
  simp [findHeader, commandHeaders, hprotocol, hboundary]

theorem hasHeader_protocol (value : String) :
    Redact.hasHeader (commandHeaders command arguments) "lens-protocol" value =
      Str.eqIgnoreAsciiCase "redis" value := by
  have hname : ∀ n ∈ ["lens-boundary", "redis-command", "redis-arg"],
      Str.eqIgnoreAsciiCase n "lens-protocol" = false := by decide
  have hargs : (arguments.map fun a => ("redis-arg", a)).any (fun h =>
      Str.eqIgnoreAsciiCase h.1 "lens-protocol" && Str.eqIgnoreAsciiCase h.2 value) = false := by
    rw [any_eq_false]
    intro h hh
    obtain ⟨a, _, rfl⟩ := mem_map.mp hh
    simp [hname "redis-arg" (by decide)]
  rw [Redact.hasHeader, commandHeaders, any_append, hargs]
  simp [hname "lens-boundary" (by decide), hname "redis-command" (by decide)]

theorem isRedisArg_argument (a : String) : Redact.isRedisArg ("redis-arg", a) = true :=
  Str.eqIgnoreAsciiCase_refl _

theorem isRedisArg_fixed : ∀ n ∈ ["lens-protocol", "lens-boundary", "redis-command"],
    ∀ v, Redact.isRedisArg (n, v) = false := by
  have hname : ∀ n ∈ ["lens-protocol", "lens-boundary", "redis-command"],
      Str.eqIgnoreAsciiCase n "redis-arg" = false := by decide
  exact fun n hn _ => hname n hn

theorem filter_commandHeaders :
    ((commandHeaders command arguments).filter Redact.isRedisArg).map Prod.snd = arguments := by
  have hargs : (arguments.map fun a => ("redis-arg", a)).filter Redact.isRedisArg =
      arguments.map fun a => ("redis-arg", a) := by
    rw [filter_eq_self]
    intro h hh
    obtain ⟨a, _, rfl⟩ := mem_map.mp hh
    exact isRedisArg_argument a
  rw [commandHeaders, filter_append, hargs]
  simp [isRedisArg_fixed]

/-- Redaction replaces the sensitive arguments and keeps the other headers. -/
theorem redactArguments_commandHeaders :
    (Redact.redactArguments command arguments 0 (commandHeaders command arguments)).1 =
      commandHeaders command (safe command arguments) := by
  have hargs := redactArguments_map command arguments arguments 0
  simp only [Nat.zero_add] at hargs
  simp only [commandHeaders, cons_append, nil_append]
  rw [Redact.redactArguments_cons_of_not (isRedisArg_fixed _ (by decide) _),
    Redact.redactArguments_cons_of_not (isRedisArg_fixed _ (by decide) _),
    Redact.redactArguments_cons_of_not (isRedisArg_fixed _ (by decide) _), hargs, safe]

theorem redactHeaders_commandHeaders :
    (Redact.redactHeaders false (commandHeaders command arguments)).1 =
      commandHeaders command arguments := by
  have hname : ∀ n ∈ ["lens-protocol", "lens-boundary", "redis-command", "redis-arg"],
      Redact.isSensitiveName n = false := by decide
  exact Redact.redactHeaders_of_not fun h hh =>
    hname h.1 (commandHeaders_names command arguments h hh)

end Headers

/-- A stored command has its name and its arguments, the sensitive ones replaced. -/
theorem redact_requestMessage (hvalue : argumentsOf value = name :: arguments)
    (hmax : maxBody < 2 ^ 64) : (redact false (requestMessage value maxBody)).message =
      ⟨.clientToServer,
        redisRequestSummary (commandName name)
          (safe (commandName name) (shown maxBody arguments)),
        commandHeaders (commandName name) (safe (commandName name) (shown maxBody arguments)), [],
        (requestMessage value maxBody).truncated⟩ := by
  have hupper : Str.toAsciiUppercase (commandName name) = commandName name :=
    Str.toAsciiUppercase_toAsciiUppercase _
  rw [requestMessage_headers hvalue hmax]
  generalize commandName name = command at hupper ⊢
  generalize shown maxBody arguments = all
  generalize (requestMessage value maxBody).truncated = truncated
  have hline : (Redact.redactLine true ⟨.clientToServer, redisRequestSummary command all,
      commandHeaders command all, [], truncated⟩).1 =
      ⟨.clientToServer, redisRequestSummary command (safe command all),
        commandHeaders command (safe command all), [], truncated⟩ := by
    simp only [Redact.redactLine, if_true, Redact.redactRedis, findHeader_command, Option.map_some,
      hupper, filter_commandHeaders, redactArguments_commandHeaders, redisRequestSummary]
  simp only [redact, Bool.false_eq_true, if_false, hasHeader_protocol,
    show Str.eqIgnoreAsciiCase "redis" "postgres" = false by decide,
    show Str.eqIgnoreAsciiCase "redis" "redis" = true by decide, hline,
    redactHeaders_commandHeaders, Redact.redactBody, if_true, Bool.false_and]
  split
  · rfl
  · rfl

end Lens.Redis
