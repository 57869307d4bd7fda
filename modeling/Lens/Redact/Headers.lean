import Lens.Redact.Redactor

/-!
# The part a header takes in redaction

The redactor looks up three header names, and looks for six headers by name and
value, to decide what to do.  A header that is none of these is *inert*: it is
redacted by itself and changes nothing else (`redact_insert`).  Two runs that differ in
one inert header therefore differ in that header only.
-/

namespace Lens.Redact

open List

/-- The names the redactor looks up whatever their value. -/
def lookedUp : List String := ["content-type", "redis-command", "redis-arg"]

/-- The headers the redactor looks for. -/
def lookedFor : Headers :=
  [("lens-protocol", "postgres"), ("lens-protocol", "redis"), ("lens-protocol", "grpc"),
    ("lens-content", "sql"), ("lens-content", "redis-value"), ("lens-content", "protobuf")]

/-- A header with a name and a value, in any letter case. -/
def isHeader (h p : String × String) : Bool :=
  Str.eqIgnoreAsciiCase h.1 p.1 && Str.eqIgnoreAsciiCase h.2 p.2

/-- A header that decides nothing. -/
structure Inert (h : String × String) : Prop where
  name : ∀ n ∈ lookedUp, Str.eqIgnoreAsciiCase h.1 n = false
  header : ∀ p ∈ lookedFor, isHeader h p = false

variable {h : String × String}

/-- A name that is not looked up makes any header inert. -/
theorem Inert.of_name (hn : ∀ n ∈ lookedUp, Str.eqIgnoreAsciiCase h.1 n = false)
    (hp : Str.eqIgnoreAsciiCase h.1 "lens-protocol" = false)
    (hc : Str.eqIgnoreAsciiCase h.1 "lens-content" = false) : Inert h where
  name := hn
  header := by simp [lookedFor, isHeader, hp, hc]

section Lookup

variable {name : String} (A B : Headers)

/-- A header with another name is not found. -/
theorem findHeader_insert (hn : Str.eqIgnoreAsciiCase h.1 name = false) :
    findHeader (A ++ h :: B) name = findHeader (A ++ B) name := by
  simp [findHeader, find?_append, hn]

theorem hasHeader_insert {value : String} (hn : isHeader h (name, value) = false) :
    hasHeader (A ++ h :: B) name value = hasHeader (A ++ B) name value := by
  rw [isHeader] at hn
  simp [hasHeader, hn]

end Lookup

/-! ## One header at a time -/

/-- A header with a name that is neither secret nor of SQL text stays as it is. -/
theorem redactHeader_of_not (postgres : Bool) (hn : isSensitiveName h.1 = false)
    (hs : isSqlHeader h.1 = false) : redactHeader postgres h = (h, false) := by
  simp [redactHeader, hn, hs]

/-- A redacted header decides nothing if it decided nothing before. -/
theorem Inert.redactHeader (hin : Inert h) (postgres : Bool) :
    Inert (redactHeader postgres h).1 := by
  rw [Redact.redactHeader]
  split
  · refine ⟨hin.name, ?_⟩
    have hvalue : ∀ p ∈ lookedFor, Str.eqIgnoreAsciiCase replacement p.2 = false := by decide
    intro p hp
    simp [isHeader, hvalue p hp]
  · split
    next hsql =>
      -- The names of SQL text are not among those looked for.
      have hname : ∀ p ∈ lookedFor, Str.eqIgnoreAsciiCase h.1 p.1 = false := by
        rw [Bool.and_eq_true, isSqlHeader, contains_iff_mem] at hsql
        have hnot : ∀ p ∈ lookedFor, Str.toAsciiLowercase p.1 ∉
            ["message", "detail", "hint", "where"] := by decide
        intro p hp
        rw [Bool.eq_false_iff, Ne, Str.eqIgnoreAsciiCase_iff]
        intro heq
        exact hnot p hp (heq ▸ hsql.2)
      simp only
      split
      · refine ⟨hin.name, ?_⟩
        intro p hp
        simp [isHeader, hname p hp]
      · exact hin
    · exact hin

theorem redactHeaders_insert (postgres : Bool) (A B : Headers)
    (h : String × String) :
    redactHeaders postgres (A ++ h :: B) =
      ((redactHeaders postgres A).1 ++ (redactHeader postgres h).1 :: (redactHeaders postgres B).1,
        (redactHeaders postgres (A ++ B)).2 || (redactHeader postgres h).2) := by
  simp [redactHeaders, Bool.or_comm, Bool.or_left_comm]

theorem redactHeaders_append (postgres : Bool) (A B : Headers) :
    (redactHeaders postgres (A ++ B)).1 =
      (redactHeaders postgres A).1 ++ (redactHeaders postgres B).1 := by
  simp [redactHeaders]

/-- Outside PostgreSQL, headers without a secret name stay as they are. -/
theorem redactHeaders_of_not {headers : Headers}
    (h : ∀ x ∈ headers, isSensitiveName x.1 = false) :
    (redactHeaders false headers).1 = headers := by
  rw [redactHeaders, map_map]
  refine (map_congr_left fun x hx => ?_).trans (map_id headers)
  simp [redactHeader, h x hx]

/-! ## Redis arguments -/

/-- The number of arguments in a header list. -/
def argumentCount (hs : Headers) : Nat := (hs.filter isRedisArg).length

theorem redactArguments_append (command : String) (arguments : List String)
    (B : Headers) :
    ∀ (A : Headers) (position : Nat),
      redactArguments command arguments position (A ++ B) =
        ((redactArguments command arguments position A).1
            ++ (redactArguments command arguments (position + argumentCount A) B).1,
          (redactArguments command arguments position A).2
            || (redactArguments command arguments (position + argumentCount A) B).2)
  | [], position => by simp [redactArguments, argumentCount]
  | h :: A, position => by
    by_cases ha : isRedisArg h
    · have ih := redactArguments_append command arguments B A (position + 1)
      have hcount : position + argumentCount (h :: A) = position + 1 + argumentCount A := by
        simp only [argumentCount, filter_cons, ha, if_true, length_cons]
        omega
      rw [cons_append, redactArguments, if_pos ha, ih, redactArguments, if_pos ha, hcount]
      split
      · simp
      · simp
    · have ih := redactArguments_append command arguments B A position
      have hcount : argumentCount (h :: A) = argumentCount A := by
        simp [argumentCount, ha]
      rw [cons_append, redactArguments, if_neg ha, ih, redactArguments, if_neg ha, hcount]
      simp

theorem redactArguments_cons_of_not {command : String} {arguments : List String} {position : Nat}
    (ha : isRedisArg h = false) (B : Headers) :
    redactArguments command arguments position (h :: B) =
      (h :: (redactArguments command arguments position B).1,
        (redactArguments command arguments position B).2) := by
  rw [redactArguments, if_neg (by simp [ha])]

theorem length_redactArguments (command : String) (arguments : List String) :
    ∀ (A : Headers) (position : Nat),
      (redactArguments command arguments position A).1.length = A.length
  | [], _ => rfl
  | h :: A, position => by
    rw [redactArguments]
    split
    · simp only
      split
      · simp [length_redactArguments command arguments A (position + 1)]
      · simp [length_redactArguments command arguments A (position + 1)]
    · simp [length_redactArguments command arguments A position]

/-- A stage of the redaction keeps a header where it is. -/
def KeepsHeader (stage : DecodedMessage → DecodedMessage × Bool) (h : String × String) : Prop :=
  ∀ (direction : Direction) (startLine : String) (A B : Headers)
    (body : Bytes) (truncated : Bool),
    ∃ A' B', A'.length = A.length ∧
      (stage ⟨direction, startLine, A ++ B, body, truncated⟩).1.headers = A' ++ B' ∧
      stage ⟨direction, startLine, A ++ h :: B, body, truncated⟩ =
        ({ (stage ⟨direction, startLine, A ++ B, body, truncated⟩).1 with
            headers := A' ++ h :: B' },
          (stage ⟨direction, startLine, A ++ B, body, truncated⟩).2)

/-- A header that is not an argument stays where it is. -/
theorem redactRedis_insert (hc : Str.eqIgnoreAsciiCase h.1 "redis-command" = false)
    (ha : isRedisArg h = false) : KeepsHeader redactRedis h := by
  intro direction startLine A B body truncated
  have hfind := findHeader_insert A B hc
  have hargs : (A ++ h :: B).filter isRedisArg = (A ++ B).filter isRedisArg := by
    simp [filter_append, ha]
  rw [redactRedis, redactRedis]
  simp only [hfind, hargs]
  cases hcommand : (findHeader (A ++ B) "redis-command").map Str.toAsciiUppercase with
  | none => exact ⟨A, B, rfl, rfl, rfl⟩
  | some command =>
    let arguments := ((A ++ B).filter isRedisArg).map Prod.snd
    refine ⟨(redactArguments command arguments 0 A).1,
      (redactArguments command arguments (0 + argumentCount A) B).1,
      length_redactArguments .., ?_, ?_⟩
    · simp only [redactArguments_append command _ B A 0, arguments]
    · simp only [redactArguments_append command _ _ A 0, redactArguments_cons_of_not ha,
        arguments, filter_append, filter_cons, ha, Bool.false_eq_true, if_false]

/-! ## Whole messages -/

/-- The first stage keeps a header that is not part of a Redis command where it is. -/
theorem redactLine_insert (hn : ∀ n ∈ lookedUp, Str.eqIgnoreAsciiCase h.1 n = false)
    (redis : Bool) :
    KeepsHeader (redactLine redis) h := by
  cases redis with
  | false => exact fun _ _ A B _ _ => ⟨A, B, rfl, rfl, rfl⟩
  | true => exact redactRedis_insert (hn _ (by decide)) (hn _ (by decide))

/-- The last stage does not look at an inert header. -/
theorem redactBody_insert (hin : Inert h) (sqlBody redis grpc : Bool) (A B : Headers)
    (body : Bytes) :
    redactBody sqlBody redis grpc (A ++ h :: B) body =
      redactBody sqlBody redis grpc (A ++ B) body := by
  simp only [redactBody, redactContent, hasHeader_insert A B (hin.header ("lens-content",
    "redis-value") (by decide)), hasHeader_insert A B (hin.header ("lens-content",
    "protobuf") (by decide)), findHeader_insert A B (hin.name "content-type" (by decide))]

/-- An inert header is redacted by itself and changes nothing else. -/
theorem redact_insert (hin : Inert h) (direction : Direction) (startLine : String)
    (A B : Headers) (body : Bytes) (truncated : Bool) :
    ∃ A' B', A'.length = A.length ∧
      (redact false ⟨direction, startLine, A ++ B, body, truncated⟩).message.headers = A' ++ B' ∧
      redact false ⟨direction, startLine, A ++ h :: B, body, truncated⟩ =
        ⟨{ (redact false ⟨direction, startLine, A ++ B, body, truncated⟩).message with
            headers := A' ++
              (redactHeader (hasHeader (A ++ B) "lens-protocol" "postgres") h).1 :: B' },
          (redact false ⟨direction, startLine, A ++ B, body, truncated⟩).redacted ||
            (redactHeader (hasHeader (A ++ B) "lens-protocol" "postgres") h).2⟩ := by
  have hpostgres := hasHeader_insert A B (hin.header ("lens-protocol", "postgres") (by decide))
  have hredis := hasHeader_insert A B (hin.header ("lens-protocol", "redis") (by decide))
  have hgrpc := hasHeader_insert A B (hin.header ("lens-protocol", "grpc") (by decide))
  have hsql := hasHeader_insert A B (hin.header ("lens-content", "sql") (by decide))
  generalize hpg : hasHeader (A ++ B) "lens-protocol" "postgres" = postgres
  obtain ⟨A₁, B₁, hlen, hline, hins⟩ := redactLine_insert hin.name
    (hasHeader (A ++ B) "lens-protocol" "redis") direction startLine A B body truncated
  refine ⟨(redactHeaders postgres A₁).1, (redactHeaders postgres B₁).1, ?_, ?_, ?_⟩
  · simpa [redactHeaders] using hlen
  · simp only [redact, Bool.false_eq_true, if_false, hpg, hline, redactHeaders_append]
  · simp only [redact, Bool.false_eq_true, if_false, hpostgres, hredis, hgrpc, hsql,
      hpg, hins, hline,
      redactHeaders_insert, redactBody_insert (hin.redactHeader postgres), redactHeaders_append,
      Bool.or_assoc, Bool.or_comm (redactHeader postgres h).2]

/-! ## The content of a body -/

/-- The name of a content header is neither secret nor one of SQL text. -/
theorem redactHeader_content (postgres : Bool)
    (hn : Str.eqIgnoreAsciiCase h.1 "lens-content" = true) :
    redactHeader postgres h = (h, false) := by
  have hlower := Str.eqIgnoreAsciiCase_iff.mp hn
  have htrim : Str.trim h.1 = h.1 := by
    have hspace : Str.NoSpace h.1 := Str.noSpace_of_eqIgnoreAsciiCase hn (by decide)
    rw [Str.trim, Str.trimList_of_noSpace hspace, String.ofList_toList]
  refine redactHeader_of_not postgres ?_ ?_
  · rw [isSensitiveName, htrim, hlower]
    decide
  · rw [isSqlHeader, hlower]
    decide

/-- What is done to a body depends on a content header up to letter case. -/
theorem redact_body_content {value : String} (hn : Str.eqIgnoreAsciiCase h.1 "lens-content" = true)
    (hv : Str.eqIgnoreAsciiCase h.2 value = true) (direction : Direction) (startLine : String)
    (A B : Headers) (body : Bytes) (truncated : Bool) :
    (redact false ⟨direction, startLine, A ++ h :: B, body, truncated⟩).message.body =
      (redact false ⟨direction, startLine, A ++ ("lens-content", value) :: B, body,
        truncated⟩).message.body := by
  let h₀ : String × String := ("lens-content", value)
  have hn₀ : Str.eqIgnoreAsciiCase h₀.1 "lens-content" = true := Str.eqIgnoreAsciiCase_refl _
  have hne₀ : ∀ n ∈ lookedUp, Str.eqIgnoreAsciiCase "lens-content" n = false := by decide
  have hne : ∀ n ∈ lookedUp, Str.eqIgnoreAsciiCase h.1 n = false := by
    intro n hmem
    rw [Str.eqIgnoreAsciiCase_congr hn]
    exact hne₀ n hmem
  have hhas : ∀ (A B : Headers) (n v : String),
      hasHeader (A ++ h :: B) n v = hasHeader (A ++ h₀ :: B) n v := by
    intro A B n v
    simp [hasHeader, h₀, Str.eqIgnoreAsciiCase_congr hn, Str.eqIgnoreAsciiCase_congr hv]
  have hbody : ∀ (sqlBody redis grpc : Bool) (A B : Headers) (body : Bytes),
      redactBody sqlBody redis grpc (A ++ h :: B) body =
        redactBody sqlBody redis grpc (A ++ h₀ :: B) body := by
    intro sqlBody redis grpc A B body
    simp only [redactBody, redactContent, hhas,
      findHeader_insert A B (hne "content-type" (by decide)),
      findHeader_insert (h := h₀) A B (hne₀ "content-type" (by decide))]
  -- The first stage leaves either header between the same headers.
  generalize hredis : hasHeader (A ++ h₀ :: B) "lens-protocol" "redis" = redis
  obtain ⟨A₁, B₁, hlen, hAB, hline⟩ := redactLine_insert hne redis direction startLine A B body
    truncated
  obtain ⟨A₂, B₂, hlen', hAB', hline'⟩ := redactLine_insert (h := h₀) hne₀ redis direction startLine
    A B body truncated
  rw [hAB] at hAB'
  obtain ⟨rfl, rfl⟩ := append_inj hAB' (hlen.trans hlen'.symm)
  have hkeep : ∀ postgres, redactHeader postgres h₀ = (h₀, false) :=
    fun postgres => redactHeader_content postgres hn₀
  simp only [redact, Bool.false_eq_true, if_false, hhas A B,
    show ("lens-content", value) = h₀ from rfl,
    hredis, hline, hline', redactHeaders_insert, redactHeader_content _ hn, hkeep, hbody]

/-- The start line has no part in the redacted headers and body. -/
theorem redact_startLine (direction : Direction) (startLine startLine' : String)
    (headers : Headers) (body : Bytes) (truncated : Bool) :
    (redact false ⟨direction, startLine, headers, body, truncated⟩).message.headers =
        (redact false ⟨direction, startLine', headers, body, truncated⟩).message.headers ∧
      (redact false ⟨direction, startLine, headers, body, truncated⟩).message.body =
        (redact false ⟨direction, startLine', headers, body, truncated⟩).message.body := by
  have hline :
      ∀ redis, (redactLine redis ⟨direction, startLine, headers, body, truncated⟩).1.headers =
        (redactLine redis ⟨direction, startLine', headers, body, truncated⟩).1.headers ∧
      (redactLine redis ⟨direction, startLine, headers, body, truncated⟩).1.body =
        (redactLine redis ⟨direction, startLine', headers, body, truncated⟩).1.body := by
    intro redis
    cases redis with
    | false => exact ⟨rfl, rfl⟩
    | true =>
      simp only [redactLine, if_true, redactRedis]
      cases (findHeader headers "redis-command").map Str.toAsciiUppercase with
      | none => exact ⟨rfl, rfl⟩
      | some command => exact ⟨rfl, rfl⟩
  simp only [redact, Bool.false_eq_true, if_false, (hline _).1, (hline _).2, and_self]

end Lens.Redact
