import Lens.Redis.Roundtrip

/-!
# Slices of the RESP parser

The parser indexes and slices the buffer, and a range outside of it is a panic.  Each
definition here says that the ranges of one function of the parser lie inside, in the order
in which the function gets to them.  No range is outside (`valueFits_eq`): a line that is
found lies in the buffer, a blob is cut out once it has arrived, and an item takes no more
than what is left.
-/

namespace Lens.Redis

open List

/-- `bytes[start..stop]`. -/
def sliceFits (bytes : Bytes) (start stop : Nat) : Bool := start ≤ stop && stop ≤ bytes.length

/-- The line of `line` ends where the CRLF after the type byte is. -/
def lineFits (bytes : Bytes) : Bool :=
  match findCrlf (bytes.drop 1) with
  | none => true
  | some found => sliceFits bytes 1 (found + 1)

def blobFits (bytes : Bytes) : Bool :=
  lineFits bytes &&
    match line bytes with
    | none => true
    | some (text, header) =>
      match parseSigned text with
      | some (.ofNat length) =>
        let stop := header + length
        let total := stop + 2
        if bytes.length < total then true
        else sliceFits bytes stop total && sliceFits bytes header stop
      | _ => true

/-- The loop over the items of an aggregate, with the bytes taken so far. -/
def itemsFit (fits : Bytes → Bool) (parser : Bytes → Parse RespValue)
    (bytes : Bytes) : Nat → Nat → Bool
  | 0, _ => true
  | n + 1, consumed =>
    let rest := bytes.drop consumed
    sliceFits bytes consumed bytes.length && fits rest &&
      match parser rest with
      | .complete _ used => itemsFit fits parser bytes n (consumed + used)
      | _ => true

def aggregateFits (fits : Bytes → Bool) (parser : Bytes → Parse RespValue)
    (bytes : Bytes) (multiplier : Nat) : Bool :=
  lineFits bytes &&
    match line bytes with
    | none => true
    | some (text, header) =>
      match parseSigned text with
      | some (.ofNat count) =>
        if maxAggregateItems < count * multiplier then true
        else itemsFit fits parser bytes (count * multiplier) header
      | _ => true

def inlineFits (bytes : Bytes) : Bool :=
  match findCrlf bytes with
  | none => true
  | some stop => sliceFits bytes 0 stop

/-- The ranges of `parse_value` with `depth` levels of nesting left. -/
def valueFits : Nat → Bytes → Bool
  | depth + 1, b :: rest =>
    let bytes := b :: rest
    match Char.ofNat b.toNat with
    | '+' | '-' | ':' | ',' | '(' | '#' => lineFits bytes
    | '_' => if bytes.length < 3 then true else sliceFits bytes 1 3
    | '$' | '!' | '=' => blobFits bytes
    | '*' | '~' | '>' => aggregateFits (valueFits depth) (parseValue depth) bytes 1
    | '%' | '|' => aggregateFits (valueFits depth) (parseValue depth) bytes 2
    | _ => inlineFits bytes
  | _, _ => true

theorem lineFits_eq (bytes : Bytes) : lineFits bytes = true := by
  rw [lineFits]
  split
  · rfl
  · next found hfound =>
    have hle : found + 2 ≤ (bytes.drop 1).length := Search.find_le hfound
    rw [length_drop] at hle
    simp only [sliceFits, Bool.and_eq_true, decide_eq_true_eq]
    omega

theorem blobFits_eq (bytes : Bytes) : blobFits bytes = true := by
  rw [blobFits, lineFits_eq, Bool.true_and]
  split
  · rfl
  · split
    · dsimp only
      split
      · rfl
      · simp only [sliceFits, Bool.and_eq_true, decide_eq_true_eq]
        omega
    · rfl

section

variable {fits : Bytes → Bool} {parser : Bytes → Parse RespValue}
  (hfits : ∀ bytes, fits bytes = true) (hp : Steady parser)

include hfits hp

/-- What the items take adds up to no more than the buffer has. -/
theorem itemsFit_eq (bytes : Bytes) (n : Nat) {consumed : Nat} (h : consumed ≤ bytes.length) :
    itemsFit fits parser bytes n consumed = true := by
  induction n generalizing consumed with
  | zero => rfl
  | succ n ih =>
    simp only [itemsFit, sliceFits, h, hfits, Nat.le_refl, decide_true, Bool.true_and]
    split
    · next value used hvalue =>
      have hle := hp.within hvalue
      rw [length_drop] at hle
      exact ih (by omega)
    · rfl

theorem aggregateFits_eq (bytes : Bytes) (multiplier : Nat) :
    aggregateFits fits parser bytes multiplier = true := by
  rw [aggregateFits, lineFits_eq, Bool.true_and]
  split
  · rfl
  · next hline =>
    split
    · split
      · rfl
      · exact itemsFit_eq hfits hp bytes _ (line_append hline).2.1
    · rfl

end

theorem inlineFits_eq (bytes : Bytes) : inlineFits bytes = true := by
  rw [inlineFits]
  split
  · rfl
  · next stop hstop =>
    have hle : stop + 2 ≤ bytes.length := Search.find_le hstop
    simp only [sliceFits, Bool.and_eq_true, decide_eq_true_eq]
    omega

theorem valueFits_eq (depth : Nat) (bytes : Bytes) : valueFits depth bytes = true := by
  induction depth generalizing bytes with
  | zero => rfl
  | succ depth ih =>
    cases bytes with
    | nil => rfl
    | cons b rest =>
      have hp := (framing_value depth).toSteady
      rw [valueFits]
      split
      any_goals exact lineFits_eq _
      any_goals exact blobFits_eq _
      any_goals exact aggregateFits_eq ih hp _ _
      · split
        · rfl
        · simp only [sliceFits, Bool.and_eq_true, decide_eq_true_eq]
          omega
      · exact inlineFits_eq _

/-- An answer of the parser stands whatever comes after the input, and a value takes some of
the input and no more than there is.  No range is outside, neither in the parser nor where
`decode_available` drains a value, and the loop of `decode_available` comes to an end. -/
theorem parseValue_stable (depth : Nat) (p q : Bytes) :
    (∀ value consumed, parseValue (maxNesting - depth) p = .complete value consumed →
      1 ≤ consumed ∧ consumed ≤ p.length ∧
        parseValue (maxNesting - depth) (p ++ q) = .complete value consumed) ∧
    (∀ reason, parseValue (maxNesting - depth) p = .invalid reason →
      parseValue (maxNesting - depth) (p ++ q) = .invalid reason) ∧
    valueFits (maxNesting - depth) p = true ∧
    ∀ direction maxBody, ∃ rest batch, Stream.Halts (laneTurn direction maxBody) p rest batch := by
  have h := framing_value (maxNesting - depth)
  refine ⟨fun value consumed hv => ⟨h.takes hv, h.within hv, h.append hv q⟩, fun reason hv => ?_,
    valueFits_eq _ p, fun direction maxBody => ?_⟩
  · rw [h.stands (by rw [hv]; rintro ⟨⟩), hv]
  · exact ⟨_, _, Stream.drive_halts (lane_decreases direction maxBody) _ p (Nat.lt_succ_self _)⟩

end Lens.Redis
