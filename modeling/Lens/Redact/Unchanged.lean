import Lens.Redact.Headers

/-!
# What redaction does not report

Redaction changes a message and says whether it did.  Each of its parts is honest about that
(`Honest`), with one exception: the start line of a Redis command is written again from its headers,
whether or not one of them changed.  It is the same if it was written so before (`Summarised`), and
then the redactor as a whole is honest (`redact_of_unchanged`).
-/

namespace Lens.Redact

open List

/-- What is not reported as changed is as before. -/
def Honest {α : Type} (before : α) (r : α × Bool) : Prop := r.2 = false → r.1 = before

namespace Honest

variable {α : Type} {before after : α} {c : Bool} {r r' : α × Bool}

theorem same : Honest before (before, c) := fun _ => rfl

theorem changed : Honest before (after, true) := nofun

theorem ite {p : Prop} [Decidable p] (h : Honest before r) (h' : Honest before r') :
    Honest before (if p then r else r') := by
  split
  · exact h
  · exact h'

end Honest

theorem honest_startLine (startLine : String) : Honest startLine (redactStartLine startLine) := by
  unfold redactStartLine
  split
  · refine .ite .same ?_
    split
    · exact .same
    · exact .ite .changed .same
  · exact .same

theorem honest_header (postgres : Bool) (h : String × String) :
    Honest h (redactHeader postgres h) :=
  .ite .changed (.ite (.ite .changed .same) .same)

theorem honest_headers (postgres : Bool) (headers : Headers) :
    Honest headers (redactHeaders postgres headers) := by
  intro h
  have hall : ∀ x ∈ headers, (redactHeader postgres x).1 = x := by
    intro x hx
    have hany : (headers.map (redactHeader postgres)).any Prod.snd = false := h
    rw [any_map, any_eq_false] at hany
    exact honest_header postgres x (Bool.eq_false_iff.mpr (hany x hx))
  have hmap : (redactHeaders postgres headers).1 = headers.map id := by
    rw [redactHeaders, map_map]
    exact map_congr_left hall
  rw [hmap, map_id]

theorem honest_rewriteBody (rewrite : String → String × Bool) (body : Bytes) :
    Honest body (rewriteBody rewrite body) := by
  unfold rewriteBody
  cases Utf8.fromUtf8 body with
  | none => exact .same
  | some text => exact .ite .changed .same

theorem honest_hideBody (body : Bytes) : Honest body (hideBody body) := .ite .same .changed

theorem honest_body (sqlBody redis grpc : Bool) (headers : Headers)
    (body : Bytes) : Honest body (redactBody sqlBody redis grpc headers body) := by
  have hcontent : Honest body (redactContent headers body) :=
    .ite (honest_rewriteBody _ _) (.ite (honest_rewriteBody _ _) .same)
  exact .ite (honest_rewriteBody _ _) (.ite (.ite (honest_hideBody _) .same)
    (.ite (honest_hideBody _) hcontent))

theorem honest_arguments (command : String) (arguments : List String) (position : Nat)
    (headers : Headers) :
    Honest headers (redactArguments command arguments position headers) := by
  induction headers generalizing position with
  | nil => exact .same
  | cons h hs ih =>
    have hcons : ∀ n, Honest (h :: hs) (h :: (redactArguments command arguments n hs).1,
        (redactArguments command arguments n hs).2) :=
      fun n hr => congrArg (h :: ·) (ih n hr)
    exact .ite (.ite .changed (hcons _)) (hcons _)

/-! ## Redis commands -/

/-- The start line of a Redis command, written from its headers. -/
def summaryOf (headers : Headers) (command : String) : String :=
  let arguments := (headers.filter isRedisArg).map Prod.snd
  if arguments.isEmpty then "Redis " ++ command
  else "Redis " ++ command ++ " " ++ Str.join " " arguments

/-- If the message is a Redis command, its start line is written from its headers. -/
def Summarised (m : DecodedMessage) : Prop :=
  ∀ command ∈ findHeader m.headers "redis-command",
    m.startLine = summaryOf m.headers (Str.toAsciiUppercase command)

theorem redactRedis_eq (m : DecodedMessage) {command : String}
    (hc : findHeader m.headers "redis-command" = some command) :
    redactRedis m =
      let r := redactArguments (Str.toAsciiUppercase command)
        ((m.headers.filter isRedisArg).map Prod.snd) 0 m.headers
      ({ m with
          startLine := summaryOf r.1 (Str.toAsciiUppercase command), headers := r.1 }, r.2) := by
  rw [redactRedis, hc]
  rfl

variable {m : DecodedMessage}

theorem honest_redis (hm : Summarised m) : Honest m (redactRedis m) := by
  cases hc : findHeader m.headers "redis-command" with
  | none =>
    rw [redactRedis, hc]
    exact .same
  | some command =>
    rw [redactRedis_eq m hc]
    intro h
    simp only at h ⊢
    rw [honest_arguments _ _ _ _ h, ← hm command hc]

/-- A message that is not reported as changed is the same, if a start line of a Redis command is
the one its headers give. -/
theorem redact_of_unchanged (hm : hasHeader m.headers "lens-protocol" "redis" = true → Summarised m)
    (h : (redact false m).redacted = false) : (redact false m).message = m := by
  have hline : Honest m (redactLine (hasHeader m.headers "lens-protocol" "redis") m) := by
    unfold redactLine
    split
    · exact honest_redis (hm ‹_›)
    · intro hr
      have hsame := honest_startLine m.startLine hr
      simp only [hsame]
  unfold redact at h ⊢
  simp only [Bool.false_eq_true, ↓reduceIte, Bool.or_eq_false_iff] at h ⊢
  obtain ⟨⟨hl, hh⟩, hb⟩ := h
  rw [honest_body _ _ _ _ _ hb, honest_headers _ _ hh, hline hl]

end Lens.Redact
