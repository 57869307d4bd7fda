import Lens.Redis.Decoder

/-!
# RESP on the wire

The parser answers as soon as the input decides the answer, and later input does not
change it (`Steady`).  So the parser goes through one encoding in the same way whatever
follows it, and on a proper prefix of an encoding it waits.

An encoding is a sequence of *frames*.  A leaf stands for a whole value, and a head
announces a number of items that follow it.  `encode` is the standard encoding of a
value, where every item of an aggregate is counted.
-/

namespace Lens.Redis

open List
open Stream (Turn Batch Feed)

/-! ## Decided answers -/

/-- A parser whose answers stand whatever comes after the input. -/
structure Steady {α : Type} (parser : Bytes → Parse α) : Prop where
  stands : ∀ {bytes}, parser bytes ≠ .incomplete → ∀ rest, parser (bytes ++ rest) = parser bytes
  within : ∀ {bytes value consumed}, parser bytes = .complete value consumed →
    consumed ≤ bytes.length

variable {consumed : Nat} {text : Bytes}

/-- An answer that waits for no more input. -/
theorem Steady.append {α : Type} {parser : Bytes → Parse α} (h : Steady parser)
    {bytes : Bytes} {value : α} (hc : parser bytes = .complete value consumed)
    (rest : Bytes) : parser (bytes ++ rest) = .complete value consumed := by
  rw [h.stands (by rw [hc]; exact nofun), hc]

/-- A steady parser that takes some of the input it completes on. -/
structure Framing {α : Type} (parser : Bytes → Parse α) : Prop extends Steady parser where
  takes : ∀ {bytes value consumed}, parser bytes = .complete value consumed → 0 < consumed

theorem line_append {bytes : Bytes} (h : line bytes = some (text, consumed)) :
    0 < consumed ∧ consumed ≤ bytes.length ∧
      ∀ rest, line (bytes ++ rest) = some (text, consumed) := by
  cases bytes with
  | nil => cases h
  | cons b bytes =>
    rw [line, Option.map_eq_some_iff] at h
    obtain ⟨stop, hstop, heq⟩ := h
    cases heq
    have hle : stop + 2 ≤ bytes.length := Search.find_le hstop
    refine ⟨by omega, by rw [length_cons]; omega, fun rest => ?_⟩
    have hfind : findCrlf (bytes ++ rest) = some stop := Search.find_append rest hstop
    rw [cons_append, line, hfind, Option.map_some, take_append_of_le_length (by omega)]

/-- The answer to an input next to that to a longer one.  The two agree unless the first one
waits, and what is taken lies between `low` and the length of the input. -/
inductive Kept {α : Type} (low length : Nat) : Parse α → Parse α → Prop where
  | waits {answer : Parse α} : Kept low length .incomplete answer
  | fails {reason : String} : Kept low length (.invalid reason) (.invalid reason)
  | takes {value : α} {consumed : Nat} : low ≤ consumed → consumed ≤ length →
    Kept low length (.complete value consumed) (.complete value consumed)

section Kept

variable {α : Type} {parser : Bytes → Parse α}

theorem Kept.mono {low low' length : Nat} {answer answer' : Parse α} (hlow : low' ≤ low) :
    Kept low length answer answer' → Kept low' length answer answer'
  | .waits => .waits
  | .fails => .fails
  | .takes h hle => .takes (Nat.le_trans hlow h) hle

theorem Steady.kept (h : Steady parser) (bytes rest : Bytes) :
    Kept 0 bytes.length (parser bytes) (parser (bytes ++ rest)) := by
  cases hv : parser bytes with
  | incomplete => exact .waits
  | invalid reason =>
    rw [h.stands (by rw [hv]; exact nofun), hv]
    exact .fails
  | complete value used =>
    rw [h.append hv]
    exact .takes (Nat.zero_le _) (h.within hv)

theorem Framing.kept (h : Framing parser) (bytes rest : Bytes) :
    Kept 1 bytes.length (parser bytes) (parser (bytes ++ rest)) := by
  have hkept := h.toSteady.kept bytes rest
  have htakes := @h.takes bytes
  generalize parser bytes = answer, parser (bytes ++ rest) = answer' at hkept htakes ⊢
  cases hkept with
  | waits => exact .waits
  | fails => exact .fails
  | takes _ hle => exact .takes (htakes rfl) hle

theorem steady_of_kept (low : Nat)
    (h : ∀ bytes rest, Kept low bytes.length (parser bytes) (parser (bytes ++ rest))) :
    Steady parser where
  stands {bytes} hv rest := by
    have hkept := h bytes rest
    generalize parser bytes = answer, parser (bytes ++ rest) = answer' at hkept hv
    cases hkept with
    | waits => exact absurd rfl hv
    | fails => rfl
    | takes => rfl
  within {bytes value consumed} hv := by
    have hkept := h bytes []
    rw [append_nil, hv] at hkept
    cases hkept with
    | takes _ hle => exact hle

theorem framing_of_kept
    (h : ∀ bytes rest, Kept 1 bytes.length (parser bytes) (parser (bytes ++ rest))) :
    Framing parser where
  toSteady := steady_of_kept 1 h
  takes {bytes value consumed} hv := by
    have hkept := h bytes []
    rw [append_nil, hv] at hkept
    cases hkept with
    | takes hlow _ => exact hlow

/-- A parser that reads a line first goes on with it in the same way. -/
theorem framing_of_line (hnone : ∀ {bytes}, line bytes = none → parser bytes = .incomplete)
    (hsome : ∀ {bytes text header} rest, line bytes = some (text, header) →
      line (bytes ++ rest) = some (text, header) → header ≤ bytes.length →
      Kept header bytes.length (parser bytes) (parser (bytes ++ rest))) :
    Framing parser := by
  refine framing_of_kept fun bytes rest => ?_
  cases hl : line bytes with
  | none =>
    rw [hnone hl]
    exact .waits
  | some p =>
    obtain ⟨hpos, hle, happ⟩ := line_append hl
    exact (hsome rest hl (happ rest) hle).mono hpos

end Kept

theorem framing_lineValue (constructor : Bytes → RespValue) :
    Framing fun bytes => parseLineValue bytes constructor := by
  refine framing_of_line (fun hl => by simp only [parseLineValue, hl]) ?_
  intro bytes text header rest hl happ hle
  simp only [parseLineValue, hl, happ]
  exact .takes (Nat.le_refl _) hle

/-- What a blob with a length comes to. -/
theorem parseBlob_length {bytes : Bytes} {header length : Nat}
    (hl : line bytes = some (text, header)) (hs : parseSigned text = some (Int.ofNat length))
    (constructor : Bytes → RespValue) (absent : RespValue) :
    parseBlob bytes constructor absent =
      if 2 ^ 64 ≤ header + length + 2 then .invalid "Redis blob length overflow"
      else if bytes.length < header + length + 2 then .incomplete
      else if (bytes.take (header + length + 2)).drop (header + length) ≠ [0x0d, 0x0a] then
        .invalid "Redis blob is missing its CRLF terminator"
      else .complete (constructor ((bytes.take (header + length)).drop header))
        (header + length + 2) := by
  simp only [parseBlob, hl, hs]

theorem framing_blob (constructor : Bytes → RespValue) (absent : RespValue) :
    Framing fun bytes => parseBlob bytes constructor absent := by
  refine framing_of_line (fun hl => by simp only [parseBlob, hl]) ?_
  intro bytes text header rest hl happ hle
  simp only [parseBlob, hl, happ]
  split
  · exact .fails
  · split
    · exact .takes (Nat.le_refl _) hle
    · exact .fails
  · next length _ =>
    by_cases hshort : bytes.length < header + length + 2
    · simp only [hshort, if_true]
      split
      · exact .fails
      · exact .waits
    have hlong : ¬ (bytes ++ rest).length < header + length + 2 := by
      rw [length_append]
      omega
    simp only [hshort, hlong, if_false]
    rw [take_append_of_le_length (by omega), take_append_of_le_length (by omega)]
    split
    · exact .fails
    split
    · exact .fails
    · exact .takes (by omega) (by omega)

section Aggregates

variable {parser : Bytes → Parse RespValue}

theorem steady_items (hp : Steady parser) : ∀ n, Steady (parseItems parser n)
  | 0 => steady_of_kept 0 fun _ _ => .takes (Nat.le_refl 0) (Nat.zero_le _)
  | n + 1 => steady_of_kept 0 fun bytes rest => by
    have hv := hp.kept bytes rest
    simp only [parseItems]
    generalize parser bytes = answer, parser (bytes ++ rest) = answer' at hv ⊢
    cases hv with
    | waits => exact .waits
    | fails => exact .fails
    | @takes value used _ hle =>
      have hr := (steady_items hp n).kept (bytes.drop used) rest
      simp only [drop_append_of_le_length hle]
      generalize parseItems parser n (bytes.drop used) = answer,
        parseItems parser n (bytes.drop used ++ rest) = answer' at hr ⊢
      rw [length_drop] at hr
      cases hr with
      | waits => exact .waits
      | fails => exact .fails
      | takes _ hle' => exact .takes (Nat.zero_le _) (by omega)

/-- The items after a header do not depend on what comes after them. -/
theorem kept_aggregateItems (hp : Steady parser) {items header : Nat} {bytes : Bytes}
    (hle : header ≤ bytes.length) {constructor : List RespValue → RespValue} (rest : Bytes) :
    Kept header bytes.length (aggregateItems parser items bytes header constructor)
      (aggregateItems parser items (bytes ++ rest) header constructor) := by
  have hitems := (steady_items hp items).kept (bytes.drop header) rest
  rw [aggregateItems, aggregateItems, drop_append_of_le_length hle]
  generalize parseItems parser items (bytes.drop header) = answer,
    parseItems parser items (bytes.drop header ++ rest) = answer' at hitems ⊢
  rw [length_drop] at hitems
  cases hitems with
  | waits => exact .waits
  | fails => exact .fails
  | takes _ hle' => exact .takes (by omega) (by omega)

theorem framing_aggregate (hp : Steady parser) : Framing (parseAggregate parser) := by
  refine framing_of_line (fun hl => by simp only [parseAggregate, hl]) ?_
  intro bytes text header rest hl happ hle
  simp only [parseAggregate, hl, happ]
  split
  · exact .fails
  · split
    · exact .takes (Nat.le_refl _) hle
    · exact .fails
  · split
    · exact .fails
    · exact kept_aggregateItems hp hle rest

theorem framing_flatAggregate (hp : Steady parser) (constructor : List RespValue → RespValue)
    (multiplier : Nat) :
    Framing fun bytes => parseFlatAggregate parser bytes constructor multiplier := by
  refine framing_of_line (fun hl => by simp only [parseFlatAggregate, hl]) ?_
  intro bytes text header rest hl happ hle
  simp only [parseFlatAggregate, hl, happ]
  split
  · exact .fails
  · exact .fails
  · split
    · exact .fails
    split
    · exact .fails
    · exact kept_aggregateItems hp hle rest

end Aggregates

theorem framing_inline : Framing parseInline := by
  refine framing_of_kept fun bytes rest => ?_
  cases hf : findCrlf bytes with
  | none =>
    simp only [parseInline, hf]
    exact .waits
  | some stop =>
    have hle : stop + 2 ≤ bytes.length := Search.find_le hf
    have happ : findCrlf (bytes ++ rest) = some stop := Search.find_append rest hf
    simp only [parseInline, hf, happ]
    rw [take_append_of_le_length (by omega)]
    split
    · exact .fails
    split
    · exact .fails
    · exact .takes (by omega) hle

/-! ## One value -/

/-- The frame `_`. -/
def nullFrame (bytes : Bytes) : Parse RespValue :=
  match expectEmptyLine bytes with
  | some true => .complete .null 3
  | some false => .invalid "invalid RESP3 null frame"
  | none => .incomplete

/-- The frame `#`. -/
def booleanFrame (bytes : Bytes) : Parse RespValue :=
  match line bytes with
  | some (value, consumed) =>
    if value = [0x74] then .complete (.boolean true) consumed
    else if value = [0x66] then .complete (.boolean false) consumed
    else .invalid "invalid RESP3 boolean frame"
  | none => .incomplete

/-- The parser for a type byte, with a parser for the items of aggregates. -/
def frameParser (items : Bytes → Parse RespValue) (tag : Char) :
    Bytes → Parse RespValue :=
  match tag with
  | '+' => (parseLineValue · .simple)
  | '-' => (parseLineValue · .error)
  | ':' => (parseLineValue · .integer)
  | ',' => (parseLineValue · .double)
  | '(' => (parseLineValue · .bigNumber)
  | '_' => nullFrame
  | '#' => booleanFrame
  | '$' => (parseBlob · (fun value => .bulk (some value)) (.bulk none))
  | '!' => (parseBlob · .bulkError (.bulkError []))
  | '=' => (parseBlob · .verbatim (.verbatim []))
  | '*' => parseAggregate items
  | '%' => (parseFlatAggregate items · .map 2)
  | '~' => (parseFlatAggregate items · .set 1)
  | '>' => (parseFlatAggregate items · .push 1)
  | '|' => (parseFlatAggregate items · .attr 2)
  | _ => parseInline

theorem parseValue_cons (depth : Nat) (b : UInt8) (rest : Bytes) :
    parseValue (depth + 1) (b :: rest) =
      frameParser (parseValue depth) (Char.ofNat b.toNat) (b :: rest) := by
  rw [parseValue]
  generalize Char.ofNat b.toNat = c
  split
  all_goals simp only [frameParser]
  all_goals rfl

theorem framing_null : Framing nullFrame := by
  refine framing_of_kept fun bytes rest => ?_
  by_cases hlen : bytes.length < 3
  · simp only [nullFrame, expectEmptyLine, if_pos hlen]
    exact .waits
  have hlong : ¬ (bytes ++ rest).length < 3 := by
    rw [length_append]
    omega
  have htake : ((bytes ++ rest).drop 1).take 2 = (bytes.drop 1).take 2 := by
    rw [drop_append_of_le_length (by omega), take_append_of_le_length]
    rw [length_drop]
    omega
  simp only [nullFrame, expectEmptyLine, if_neg hlen, if_neg hlong, htake]
  cases (bytes.drop 1).take 2 == [0x0d, 0x0a] with
  | true => exact .takes (by omega) (by omega)
  | false => exact .fails

theorem framing_boolean : Framing booleanFrame := by
  refine framing_of_line (fun hl => by simp only [booleanFrame, hl]) ?_
  intro bytes text header rest hl happ hle
  simp only [booleanFrame, hl, happ]
  split
  · exact .takes (Nat.le_refl _) hle
  split
  · exact .takes (Nat.le_refl _) hle
  · exact .fails

theorem framing_frame {items : Bytes → Parse RespValue} (hp : Steady items) (tag : Char) :
    Framing (frameParser items tag) := by
  unfold frameParser
  split
  any_goals exact framing_lineValue _
  any_goals exact framing_blob _ _
  any_goals exact framing_flatAggregate hp _ _
  · exact framing_null
  · exact framing_boolean
  · exact framing_aggregate hp
  · exact framing_inline

/-- Values are parsed in the same way whatever follows them. -/
theorem framing_value : ∀ depth, Framing (parseValue depth)
  | 0 => framing_of_kept fun bytes rest => by
    cases bytes with
    | nil => exact .waits
    | cons b bytes => exact .fails
  | depth + 1 => framing_of_kept fun bytes rest => by
    cases bytes with
    | nil => exact .waits
    | cons b bytes =>
      rw [cons_append, parseValue_cons, parseValue_cons, ← cons_append]
      exact (framing_frame (framing_value depth).toSteady _).kept _ rest

/-! ## Frames -/

def crlf : Bytes := [0x0d, 0x0a]

/-- A number as it is written on the wire. -/
def decimal (n : Nat) : Bytes := Utf8.asBytes (toString n)

/-- The aggregates. -/
inductive Kind where
  | array
  | map
  | set
  | push
  | attr
deriving DecidableEq, Repr

namespace Kind

def tag : Kind → UInt8
  | array => 0x2a
  | map => 0x25
  | set => 0x7e
  | push => 0x3e
  | attr => 0x7c

/-- The items for each one counted: a pair has two. -/
def multiplier : Kind → Nat
  | map | attr => 2
  | array | set | push => 1

def build : Kind → List RespValue → RespValue
  | array, values => .array (some values)
  | map, values => .map values
  | set, values => .set values
  | push, values => .push values
  | attr, values => .attr values

end Kind

/-- A line after its type byte. -/
def lineBytes (tag : UInt8) (text : Bytes) : Bytes := tag :: (text ++ crlf)

/-- A blob after its type byte and length. -/
def blobBytes (tag : UInt8) (value : Bytes) : Bytes :=
  lineBytes tag (decimal value.length) ++ (value ++ crlf)

/-- The encoding of a value that is not an aggregate.  An inline command is its words. -/
def leafBytes : RespValue → Bytes
  | .simple text => lineBytes 0x2b text
  | .error text => lineBytes 0x2d text
  | .integer text => lineBytes 0x3a text
  | .double text => lineBytes 0x2c text
  | .bigNumber text => lineBytes 0x28 text
  | .null => lineBytes 0x5f []
  | .boolean true => lineBytes 0x23 [0x74]
  | .boolean false => lineBytes 0x23 [0x66]
  | .bulk (some value) => blobBytes 0x24 value
  | .bulk none => lineBytes 0x24 [0x2d, 0x31]
  | .bulkError value => blobBytes 0x21 value
  | .verbatim value => blobBytes 0x3d value
  | .array _ => lineBytes 0x2a [0x2d, 0x31]
  | .inline words => (words.intersperse [0x20]).flatten ++ crlf
  | .map _ | .set _ | .push _ | .attr _ => []

/-- A frame of an encoding: a whole value, or the head of an aggregate. -/
inductive Frame where
  | leaf (value : RespValue)
  | head (kind : Kind) (items : Nat)

namespace Frame

def bytes : Frame → Bytes
  | leaf value => leafBytes value
  | head kind items => lineBytes kind.tag (decimal (items / kind.multiplier))

/-- A leaf whose text has no CRLF, or a head with a number of items that the decoder
takes.  Inline commands are not values of the protocol. -/
def Legal : Frame → Prop
  | leaf (.simple text) | leaf (.error text) | leaf (.integer text) => findCrlf text = none
  | leaf (.double text) | leaf (.bigNumber text) => findCrlf text = none
  | leaf (.bulk _) | leaf (.bulkError _) | leaf (.verbatim _) => True
  | leaf (.array none) | leaf .null | leaf (.boolean _) => True
  | leaf _ => False
  | head kind items => kind.multiplier ∣ items ∧ items ≤ maxAggregateItems

instance : DecidablePred Legal := by
  intro f
  unfold Legal
  split <;> infer_instance

end Frame

mutual

/-- The frames of a value, where `count` says how many items an aggregate announces. -/
def frames (count : List RespValue → Nat) : RespValue → List Frame
  | .array (some values) => .head .array (count values) :: framesAll count values
  | .map values => .head .map (count values) :: framesAll count values
  | .set values => .head .set (count values) :: framesAll count values
  | .push values => .head .push (count values) :: framesAll count values
  | .attr values => .head .attr (count values) :: framesAll count values
  | value => [.leaf value]

def framesAll (count : List RespValue → Nat) : List RespValue → List Frame
  | [] => []
  | value :: values => frames count value ++ framesAll count values

end

mutual

/-- The aggregates around the innermost item of a value. -/
def nesting : RespValue → Nat
  | .array (some values) | .map values | .set values => nestings values + 1
  | .push values | .attr values => nestings values + 1
  | _ => 0

def nestings : List RespValue → Nat
  | [] => 0
  | value :: values => max (nesting value) (nestings values)

end

mutual

/-- The depth of the recursion that parses a value. -/
def levels : RespValue → Nat
  | .array (some values) | .map values | .set values => levelsAll values + 1
  | .push values | .attr values => levelsAll values + 1
  | _ => 1

def levelsAll : List RespValue → Nat
  | [] => 0
  | value :: values => max (levels value) (levelsAll values)

end

/-- The standard encoding. -/
def encode (value : RespValue) : Bytes := (frames List.length value).flatMap Frame.bytes

/-! ### Values by their kind -/

/-- The values that are not aggregates. -/
def isLeaf : RespValue → Bool
  | .array (some _) | .map _ | .set _ | .push _ | .attr _ => false
  | _ => true

mutual

/-- A property of leaves that passes from items to aggregates. -/
theorem value_induction {P : RespValue → Prop} (leaf : ∀ value, isLeaf value = true → P value)
    (aggregate : ∀ (kind : Kind) values, (∀ value ∈ values, P value) → P (kind.build values)) :
    ∀ value, P value
  | .array (some values) => aggregate .array values (values_induction leaf aggregate values)
  | .map values => aggregate .map values (values_induction leaf aggregate values)
  | .set values => aggregate .set values (values_induction leaf aggregate values)
  | .push values => aggregate .push values (values_induction leaf aggregate values)
  | .attr values => aggregate .attr values (values_induction leaf aggregate values)
  | .simple text => leaf (.simple text) rfl
  | .error text => leaf (.error text) rfl
  | .integer text => leaf (.integer text) rfl
  | .bulk value => leaf (.bulk value) rfl
  | .array none => leaf (.array none) rfl
  | .null => leaf .null rfl
  | .boolean value => leaf (.boolean value) rfl
  | .double text => leaf (.double text) rfl
  | .bigNumber text => leaf (.bigNumber text) rfl
  | .bulkError value => leaf (.bulkError value) rfl
  | .verbatim value => leaf (.verbatim value) rfl
  | .inline words => leaf (.inline words) rfl

theorem values_induction {P : RespValue → Prop} (leaf : ∀ value, isLeaf value = true → P value)
    (aggregate : ∀ (kind : Kind) values, (∀ value ∈ values, P value) → P (kind.build values)) :
    ∀ values : List RespValue, ∀ value ∈ values, P value
  | [] => nofun
  | value :: values => forall_mem_cons.mpr
      ⟨value_induction leaf aggregate value, values_induction leaf aggregate values⟩

end

variable {value : RespValue} {values : List RespValue} {n : Nat} {text : Bytes}

theorem frames_leaf (h : isLeaf value = true) (count : List RespValue → Nat) :
    frames count value = [.leaf value] := by
  cases value with
  | array values => cases values <;> first | rfl | cases h
  | map | set | push | attr => cases h
  | _ => rfl

theorem frames_build (count : List RespValue → Nat) (kind : Kind) (values : List RespValue) :
    frames count (kind.build values) = .head kind (count values) :: framesAll count values := by
  cases kind <;> rfl

theorem framesAll_eq (count : List RespValue → Nat) (values : List RespValue) :
    framesAll count values = values.flatMap (frames count) := by
  induction values with
  | nil => rfl
  | cons value values ih => rw [framesAll, ih, flatMap_cons]

theorem levels_leaf (h : isLeaf value = true) : levels value = 1 := by
  cases value with
  | array values => cases values <;> first | rfl | cases h
  | map | set | push | attr => cases h
  | _ => rfl

theorem levels_build (kind : Kind) (values : List RespValue) :
    levels (kind.build values) = levelsAll values + 1 := by
  cases kind <;> rfl

theorem levelsAll_le_iff : levelsAll values ≤ n ↔ ∀ value ∈ values, levels value ≤ n := by
  induction values with
  | nil => simp [levelsAll]
  | cons value values ih => rw [levelsAll, Nat.max_le, ih, forall_mem_cons]

theorem nesting_build (kind : Kind) (values : List RespValue) :
    nesting (kind.build values) = nestings values + 1 := by
  cases kind <;> rfl

theorem nesting_le (h : value ∈ values) : nesting value ≤ nestings values := by
  induction values with
  | nil => cases h
  | cons v values ih =>
    rw [nestings]
    rcases mem_cons.mp h with rfl | h
    · exact Nat.le_max_left ..
    · exact Nat.le_trans (ih h) (Nat.le_max_right ..)

/-- The innermost item is one level further down. -/
theorem levels_le (value : RespValue) : levels value ≤ nesting value + 1 := by
  induction value using value_induction with
  | leaf value hleaf =>
    rw [levels_leaf hleaf]
    omega
  | aggregate kind values ih =>
    rw [levels_build, nesting_build, Nat.add_le_add_iff_right, levelsAll_le_iff]
    intro value hv
    have hvalue := ih value hv
    have hmax := nesting_le hv
    omega

theorem encode_build (kind : Kind) (values : List RespValue) :
    encode (kind.build values) =
      (Frame.head kind values.length).bytes ++ values.flatMap encode := by
  rw [encode, frames_build, flatMap_cons, framesAll_eq, flatMap_assoc]
  rfl

theorem encode_leaf (h : isLeaf value = true) : encode value = (Frame.leaf value).bytes := by
  rw [encode, frames_leaf h, flatMap_cons, flatMap_nil, append_nil]

/-! ### Frames at the front -/

theorem findCrlf_append (h : findCrlf text = none) (rest : Bytes) :
    findCrlf (text ++ crlf ++ rest) = some text.length :=
  Search.Delimits.find (Search.delimits_of_find_eq_none (by decide) h) rest

theorem line_lineBytes (h : findCrlf text = none) (tag : UInt8) (rest : Bytes) :
    line (lineBytes tag text ++ rest) = some (text, (lineBytes tag text).length) := by
  rw [lineBytes, cons_append, line, findCrlf_append h, Option.map_some, append_assoc, take_left]
  simp [crlf]

theorem decimal_line (n : Nat) : findCrlf (decimal n) = none := by
  refine Search.find_eq_none_of_not_mem ?_
  rw [show (0x0d : UInt8) = UInt8.ofNat '\r'.toNat from rfl, decimal, Utf8.asBytes,
    Utf8.mem_encode_ascii (by decide)]
  exact Str.not_mem_of_digitsValue rfl (Str.numeral_toString n).2

theorem parseSigned_decimal (h : n < 2 ^ 63) : parseSigned (decimal n) = some (n : Int) := by
  rw [parseSigned, decimal, Utf8.fromUtf8_asBytes, Option.bind_some,
    Str.parseI64_of_numeral (Str.numeral_toString n) h]

theorem eq_of_parseSigned {i : Int} (h : parseSigned (decimal n) = some i) : i = n := by
  rw [parseSigned, decimal, Utf8.fromUtf8_asBytes, Option.bind_some] at h
  exact Str.eq_of_parseI64 (Str.numeral_toString n) h

/-- The parser that the type byte of a line calls. -/
theorem parseValue_line {tag : UInt8} {c : Char} (hc : Char.ofNat tag.toNat = c) (depth : Nat)
    (text rest : Bytes) :
    parseValue (depth + 1) (lineBytes tag text ++ rest) =
      frameParser (parseValue depth) c (lineBytes tag text ++ rest) := by
  rw [← hc]
  exact parseValue_cons depth tag _

/-- A type byte whose parser takes a line. -/
theorem parseValue_text {tag : UInt8} {c : Char} {constructor : Bytes → RespValue}
    (hc : Char.ofNat tag.toNat = c)
    (hparser : ∀ items, frameParser items c = (parseLineValue · constructor))
    (h : findCrlf text = none) (depth : Nat) (rest : Bytes) :
    parseValue (depth + 1) (lineBytes tag text ++ rest) =
      .complete (constructor text) (lineBytes tag text).length := by
  rw [parseValue_line hc, hparser]
  simp only [parseLineValue, line_lineBytes h]

theorem parseBlob_blobBytes {value : Bytes} (tag : UInt8)
    (hlen : (blobBytes tag value).length < 2 ^ 63) (rest : Bytes)
    (constructor : Bytes → RespValue) (absent : RespValue) :
    parseBlob (blobBytes tag value ++ rest) constructor absent =
      .complete (constructor value) (blobBytes tag value).length := by
  have hsize : (blobBytes tag value).length =
      (lineBytes tag (decimal value.length)).length + value.length + 2 := by
    simp [blobBytes, crlf, Nat.add_assoc]
  have hl : line (blobBytes tag value ++ rest) =
      some (decimal value.length, (lineBytes tag (decimal value.length)).length) := by
    rw [blobBytes, append_assoc]
    exact line_lineBytes (decimal_line _) tag _
  have hs : parseSigned (decimal value.length) = some (Int.ofNat value.length) :=
    parseSigned_decimal (by omega)
  have hbody : (blobBytes tag value).take ((lineBytes tag (decimal value.length)).length +
      value.length) = lineBytes tag (decimal value.length) ++ value := by
    rw [blobBytes, ← append_assoc, ← length_append, take_left]
  rw [parseBlob_length hl hs, if_neg (by omega), if_neg (by rw [length_append]; omega), ← hsize,
    take_left, take_append_of_le_length (by omega), hbody, drop_left, if_neg]
  rw [ne_eq, not_not, blobBytes, ← append_assoc, ← length_append, drop_left]
  rfl

/-- A type byte whose parser takes a blob. -/
theorem parseValue_blob {tag : UInt8} {c : Char} {constructor : Bytes → RespValue}
    {absent : RespValue} (hc : Char.ofNat tag.toNat = c)
    (hparser : ∀ items, frameParser items c = (parseBlob · constructor absent))
    {value : Bytes} (hlen : (blobBytes tag value).length < 2 ^ 63) (depth : Nat)
    (rest : Bytes) :
    parseValue (depth + 1) (blobBytes tag value ++ rest) =
      .complete (constructor value) (blobBytes tag value).length := by
  have hfront := parseBlob_blobBytes tag hlen rest constructor absent
  rw [blobBytes, append_assoc] at hfront ⊢
  rw [parseValue_line hc, hparser]
  exact hfront

/-- A leaf is parsed off the front. -/
theorem parseValue_leaf (h : (Frame.leaf value).Legal)
    (hlen : (Frame.leaf value).bytes.length < 2 ^ 63) (depth : Nat) (rest : Bytes) :
    parseValue (depth + 1) ((Frame.leaf value).bytes ++ rest) =
      .complete value (Frame.leaf value).bytes.length := by
  -- A leaf with fixed bytes is parsed by evaluation, and what follows does not matter.
  have hsteady := framing_value (depth + 1)
  cases value with
  | simple text => exact parseValue_text rfl (fun _ => rfl) h depth rest
  | error text => exact parseValue_text rfl (fun _ => rfl) h depth rest
  | integer text => exact parseValue_text rfl (fun _ => rfl) h depth rest
  | double text => exact parseValue_text rfl (fun _ => rfl) h depth rest
  | bigNumber text => exact parseValue_text rfl (fun _ => rfl) h depth rest
  | null => exact hsteady.append rfl rest
  | boolean value =>
    cases value with
    | true => exact hsteady.append rfl rest
    | false => exact hsteady.append rfl rest
  | bulk value =>
    cases value with
    | none => exact hsteady.append rfl rest
    | some value =>
      exact @parseValue_blob 0x24 '$' (fun value => .bulk (some value)) (.bulk none) rfl
        (fun _ => rfl) value hlen depth rest
  | bulkError value => exact parseValue_blob rfl (fun _ => rfl) hlen depth rest
  | verbatim value => exact parseValue_blob rfl (fun _ => rfl) hlen depth rest
  | array values =>
    cases values with
    | none => exact hsteady.append rfl rest
    | some values => exact h.elim
  | inline words => exact h.elim
  | map values => exact h.elim
  | set values => exact h.elim
  | push values => exact h.elim
  | attr values => exact h.elim

/-- The parser that the type byte of an aggregate calls. -/
def aggregateParser (items : Bytes → Parse RespValue) : Kind → Bytes → Parse RespValue
  | .array, bytes => parseAggregate items bytes
  | .map, bytes => parseFlatAggregate items bytes .map 2
  | .set, bytes => parseFlatAggregate items bytes .set 1
  | .push, bytes => parseFlatAggregate items bytes .push 1
  | .attr, bytes => parseFlatAggregate items bytes .attr 2

theorem parseValue_aggregate (kind : Kind) (depth : Nat) (text rest : Bytes) :
    parseValue (depth + 1) (lineBytes kind.tag text ++ rest) =
      aggregateParser (parseValue depth) kind (lineBytes kind.tag text ++ rest) := by
  cases kind with
  | array => exact parseValue_line (show Char.ofNat Kind.array.tag.toNat = '*' from rfl) ..
  | map => exact parseValue_line (show Char.ofNat Kind.map.tag.toNat = '%' from rfl) ..
  | set => exact parseValue_line (show Char.ofNat Kind.set.tag.toNat = '~' from rfl) ..
  | push => exact parseValue_line (show Char.ofNat Kind.push.tag.toNat = '>' from rfl) ..
  | attr => exact parseValue_line (show Char.ofNat Kind.attr.tag.toNat = '|' from rfl) ..

/-- A head at the front is followed by its items, if it is within the limit. -/
theorem parseValue_head {kind : Kind} {items : Nat} (hdvd : kind.multiplier ∣ items) (depth : Nat)
    (rest : Bytes) :
    if items ≤ maxAggregateItems then
      parseValue (depth + 1) ((Frame.head kind items).bytes ++ rest) =
        aggregateItems (parseValue depth) items ((Frame.head kind items).bytes ++ rest)
          (Frame.head kind items).bytes.length kind.build
    else ∃ reason, parseValue (depth + 1) ((Frame.head kind items).bytes ++ rest) =
      .invalid reason := by
  have hline := line_lineBytes (decimal_line (items / kind.multiplier)) kind.tag rest
  have hitems : items / kind.multiplier * kind.multiplier = items := Nat.div_mul_cancel hdvd
  have hcount : items / kind.multiplier ≤ items := Nat.div_le_self ..
  have hsigned : items ≤ maxAggregateItems → parseSigned (decimal (items / kind.multiplier)) =
      some (Int.ofNat (items / kind.multiplier)) := fun hmax =>
    parseSigned_decimal (Nat.lt_of_le_of_lt (hcount.trans hmax) (by decide))
  have hflat : ∀ constructor : List RespValue → RespValue,
      if items ≤ maxAggregateItems then
        parseFlatAggregate (parseValue depth) ((Frame.head kind items).bytes ++ rest) constructor
          kind.multiplier = aggregateItems (parseValue depth) items
            ((Frame.head kind items).bytes ++ rest) (Frame.head kind items).bytes.length constructor
      else ∃ reason, parseFlatAggregate (parseValue depth)
        ((Frame.head kind items).bytes ++ rest) constructor kind.multiplier = .invalid reason := by
    intro constructor
    simp only [Frame.bytes, parseFlatAggregate, hline]
    split
    next hmax =>
      simp only [hsigned hmax, hitems, if_neg (Nat.not_lt.mpr hmax)]
      exact if_neg (Nat.not_le.mpr (Nat.lt_of_le_of_lt hmax (by decide)))
    next hmax =>
      cases hs : parseSigned (decimal (items / kind.multiplier)) with
      | none => exact ⟨_, rfl⟩
      | some i =>
        obtain rfl := eq_of_parseSigned hs
        simp only [hitems, if_pos (Nat.lt_of_not_le hmax)]
        split
        · exact ⟨_, rfl⟩
        · exact ⟨_, rfl⟩
  rw [show parseValue (depth + 1) ((Frame.head kind items).bytes ++ rest) = _ from
    parseValue_aggregate kind depth _ rest]
  cases kind with
  | array =>
    have hone : items / Kind.array.multiplier = items := Nat.div_one items
    rw [hone] at hline hsigned
    simp only [aggregateParser, parseAggregate, Frame.bytes, hone, hline]
    split
    next hmax =>
      simp only [hsigned hmax, if_neg (Nat.not_lt.mpr hmax)]
      rfl
    next hmax =>
      cases hs : parseSigned (decimal items) with
      | none => exact ⟨_, rfl⟩
      | some i =>
        obtain rfl := eq_of_parseSigned hs
        exact ⟨_, if_pos (Nat.lt_of_not_le hmax)⟩
  | map => exact hflat .map
  | set => exact hflat .set
  | push => exact hflat .push
  | attr => exact hflat .attr

/-! ## Values at the front -/

/-- Items that are parsed one by one are parsed as a list. -/
theorem parseItems_flatMap {parser : Bytes → Parse RespValue} {enc : RespValue → Bytes}
    (h : ∀ value ∈ values, ∀ rest, parser (enc value ++ rest) = .complete value (enc value).length)
    (rest : Bytes) : parseItems parser values.length (values.flatMap enc ++ rest) =
      .complete values (values.flatMap enc).length := by
  induction values with
  | nil => rfl
  | cons value values ih =>
    obtain ⟨hvalue, hvalues⟩ := forall_mem_cons.mp h
    simp only [length_cons, flatMap_cons, append_assoc, parseItems,
      hvalue (values.flatMap enc ++ rest), drop_left, ih hvalues, length_append]

/-- The parser takes the encoding of a value off the front. -/
theorem parseValue_encode (hlegal : ∀ f ∈ frames List.length value, f.Legal)
    (hlen : (encode value).length < 2 ^ 63) {depth : Nat} (hdepth : levels value ≤ depth)
    (rest : Bytes) :
    parseValue depth (encode value ++ rest) = .complete value (encode value).length := by
  induction value using value_induction generalizing depth rest with
  | leaf value hleaf =>
    rw [levels_leaf hleaf] at hdepth
    obtain ⟨depth, rfl⟩ := Nat.exists_eq_add_one_of_ne_zero (Nat.ne_of_gt hdepth)
    rw [frames_leaf hleaf, forall_mem_singleton] at hlegal
    rw [encode_leaf hleaf] at hlen ⊢
    exact parseValue_leaf hlegal hlen depth rest
  | aggregate kind values ih =>
    rw [levels_build] at hdepth
    obtain ⟨depth, rfl⟩ :=
      Nat.exists_eq_add_one_of_ne_zero (Nat.ne_of_gt (Nat.zero_lt_of_lt hdepth))
    rw [Nat.add_le_add_iff_right, levelsAll_le_iff] at hdepth
    rw [frames_build, forall_mem_cons, framesAll_eq] at hlegal
    rw [encode_build] at hlen ⊢
    have hitems : ∀ value ∈ values, ∀ rest,
        parseValue depth (encode value ++ rest) = .complete value (encode value).length := by
      intro value hv rest
      have hshort : (encode value).length ≤ (values.flatMap encode).length :=
        Search.length_le_flatMap hv
      rw [length_append] at hlen
      exact ih value hv (fun f hf => hlegal.2 f (mem_flatMap.mpr ⟨value, hv, hf⟩))
        (by omega) (hdepth value hv) rest
    have hhead := parseValue_head hlegal.1.1 depth (values.flatMap encode ++ rest)
    rw [if_pos hlegal.1.2] at hhead
    rw [append_assoc, hhead]
    simp only [aggregateItems, drop_left, parseItems_flatMap hitems, length_append]

end Lens.Redis
