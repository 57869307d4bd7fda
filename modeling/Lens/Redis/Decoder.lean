import Lens.Protocol
import Lens.Text.Search

/-!
# Redis decoder

The decoder of `lens-proto-redis`.  A value of the RESP protocol is parsed off
the front of a buffer, or there is not enough input yet, or the input is refused.
Aggregates nest to a fixed depth, so the parser recurses on the depth that is
left.
-/

namespace Lens.Redis

open Stream (Turn)

def maxNesting : Nat := 32
def maxAggregateItems : Nat := 4096
def frameOverheadBudget : Nat := 64 * 1024

/-! ## Values -/

inductive RespValue where
  | simple (value : Bytes)
  | error (value : Bytes)
  | integer (value : Bytes)
  | bulk (value : Option Bytes)
  | array (values : Option (List RespValue))
  | null
  | boolean (value : Bool)
  | double (value : Bytes)
  | bigNumber (value : Bytes)
  | bulkError (value : Bytes)
  | verbatim (value : Bytes)
  | map (values : List RespValue)
  | set (values : List RespValue)
  | push (values : List RespValue)
  | attr (values : List RespValue)
  | inline (values : List Bytes)

/-- The outcome of a parser: a result and the bytes it took, or the lack of one. -/
inductive Parse (α : Type) where
  | complete (value : α) (consumed : Nat)
  | incomplete
  | invalid (reason : String)
deriving DecidableEq

/-! ## Lines -/

def findCrlf (bytes : Bytes) : Option Nat := Search.find [0x0d, 0x0a] bytes

/-- The line after the type byte, and the bytes up to its end. -/
def line : Bytes → Option (Bytes × Nat)
  | [] => none
  | _ :: rest => (findCrlf rest).map fun stop => (rest.take stop, stop + 3)

def expectEmptyLine (bytes : Bytes) : Option Bool :=
  if bytes.length < 3 then none else some ((bytes.drop 1).take 2 == [0x0d, 0x0a])

def parseSigned (bytes : Bytes) : Option Int := (Utf8.fromUtf8 bytes).bind Str.parseI64

/-! ## The parser -/

def parseLineValue (bytes : Bytes) (constructor : Bytes → RespValue) :
    Parse RespValue :=
  match line bytes with
  | some (value, consumed) => .complete (constructor value) consumed
  | none => .incomplete

def parseBlob (bytes : Bytes) (constructor : Bytes → RespValue) (absent : RespValue) :
    Parse RespValue :=
  match line bytes with
  | none => .incomplete
  | some (length, header) =>
    match parseSigned length with
    | none => .invalid "invalid Redis blob length"
    | some (.negSucc n) =>
      if n = 0 then .complete absent header else .invalid "negative Redis blob length"
    | some (.ofNat length) =>
      let stop := header + length
      let total := stop + 2
      if 2 ^ 64 ≤ total then .invalid "Redis blob length overflow"
      else if bytes.length < total then .incomplete
      else if (bytes.take total).drop stop ≠ [0x0d, 0x0a] then
        .invalid "Redis blob is missing its CRLF terminator"
      else .complete (constructor ((bytes.take stop).drop header)) total

/-- Parse a number of items one after another. -/
def parseItems (parser : Bytes → Parse RespValue) :
    Nat → Bytes → Parse (List RespValue)
  | 0, _ => .complete [] 0
  | n + 1, bytes =>
    match parser bytes with
    | .incomplete => .incomplete
    | .invalid reason => .invalid reason
    | .complete value used =>
      match parseItems parser n (bytes.drop used) with
      | .incomplete => .incomplete
      | .invalid reason => .invalid reason
      | .complete values used' => .complete (value :: values) (used + used')

/-- The items of an aggregate after its header. -/
def aggregateItems (parser : Bytes → Parse RespValue) (items : Nat) (bytes : Bytes)
    (header : Nat) (constructor : List RespValue → RespValue) : Parse RespValue :=
  match parseItems parser items (bytes.drop header) with
  | .incomplete => .incomplete
  | .invalid reason => .invalid reason
  | .complete values used => .complete (constructor values) (header + used)

/-- An array, which may be null. -/
def parseAggregate (parser : Bytes → Parse RespValue) (bytes : Bytes) :
    Parse RespValue :=
  match line bytes with
  | none => .incomplete
  | some (count, header) =>
    match parseSigned count with
    | none => .invalid "invalid Redis aggregate length"
    | some (.negSucc n) =>
      if n = 0 then .complete (.array none) header
      else .invalid "negative Redis aggregate length"
    | some (.ofNat count) =>
      if maxAggregateItems < count then .invalid "Redis aggregate exceeds the item limit"
      else aggregateItems parser count bytes header fun values => .array (some values)

/-- The other aggregates, with `multiplier` items for each one counted. -/
def parseFlatAggregate (parser : Bytes → Parse RespValue) (bytes : Bytes)
    (constructor : List RespValue → RespValue) (multiplier : Nat) : Parse RespValue :=
  match line bytes with
  | none => .incomplete
  | some (count, header) =>
    match parseSigned count with
    | none => .invalid "invalid RESP3 aggregate length"
    | some (.negSucc _) => .invalid "negative RESP3 aggregate length"
    | some (.ofNat count) =>
      let items := count * multiplier
      if 2 ^ 64 ≤ items then .invalid "RESP3 aggregate length overflow"
      else if maxAggregateItems < items then .invalid "RESP3 aggregate exceeds the item limit"
      else aggregateItems parser items bytes header constructor

/-- `u8::is_ascii_control`. -/
def isAsciiControl (b : UInt8) : Bool := b < 0x20 || b == 0x7f

/-- `u8::is_ascii_whitespace`. -/
def isAsciiWhitespace (b : UInt8) : Bool :=
  b == 0x20 || b == 0x09 || b == 0x0a || b == 0x0c || b == 0x0d

/-- The words of a line. -/
def words : Bytes → List Bytes
  | [] => [[]]
  | b :: bs =>
    if isAsciiWhitespace b then [] :: words bs
    else
      match words bs with
      | [] => [[b]]
      | w :: ws => (b :: w) :: ws

def parseInline (bytes : Bytes) : Parse RespValue :=
  match findCrlf bytes with
  | none => .incomplete
  | some stop =>
    let text := bytes.take stop
    if text.any fun b => isAsciiControl b && b != 0x09 then .invalid "invalid inline Redis command"
    else
      let values := (words text).filter (· ≠ [])
      if values.isEmpty then .invalid "empty inline Redis command"
      else .complete (.inline values) (stop + 2)

/-- Parse a value with `depth` levels of nesting left. -/
def parseValue : Nat → Bytes → Parse RespValue
  | _, [] => .incomplete
  | 0, _ :: _ => .invalid "Redis nesting exceeds the decoder limit"
  | depth + 1, b :: rest =>
    let bytes := b :: rest
    match Char.ofNat b.toNat with
    | '+' => parseLineValue bytes .simple
    | '-' => parseLineValue bytes .error
    | ':' => parseLineValue bytes .integer
    | ',' => parseLineValue bytes .double
    | '(' => parseLineValue bytes .bigNumber
    | '_' =>
      match expectEmptyLine bytes with
      | some true => .complete .null 3
      | some false => .invalid "invalid RESP3 null frame"
      | none => .incomplete
    | '#' =>
      match line bytes with
      | some (value, consumed) =>
        if value = [0x74] then .complete (.boolean true) consumed
        else if value = [0x66] then .complete (.boolean false) consumed
        else .invalid "invalid RESP3 boolean frame"
      | none => .incomplete
    | '$' => parseBlob bytes (fun value => .bulk (some value)) (.bulk none)
    | '!' => parseBlob bytes .bulkError (.bulkError [])
    | '=' => parseBlob bytes .verbatim (.verbatim [])
    | '*' => parseAggregate (parseValue depth) bytes
    | '%' => parseFlatAggregate (parseValue depth) bytes .map 2
    | '~' => parseFlatAggregate (parseValue depth) bytes .set 1
    | '>' => parseFlatAggregate (parseValue depth) bytes .push 1
    | '|' => parseFlatAggregate (parseValue depth) bytes .attr 2
    | _ => parseInline bytes

/-! ## Rendering -/

/-- One byte as it is shown. -/
def renderByte (b : UInt8) : List Char :=
  if 0x20 ≤ b && b ≤ 0x7e && b != 0x5c then [Char.ofNat b.toNat]
  else if b = 0x5c then ['\\', '\\']
  else if b = 0x0a then ['\\', 'n']
  else if b = 0x0d then ['\\', 'r']
  else if b = 0x09 then ['\\', 't']
  else ['\\', 'x'] ++ (Str.hex2 b).toList

def renderBytes (value : Bytes) : String := String.ofList (value.flatMap renderByte)

/-- The longest prefix of whole characters within a number of bytes. -/
def truncateList : Nat → List Char → List Char
  | _, [] => []
  | max, c :: cs =>
    let size := (Utf8.encode [c]).length
    if size ≤ max then c :: truncateList (max - size) cs else []

def truncateUtf8 (value : String) (max : Nat) : String :=
  if (Utf8.asBytes value).length ≤ max then value
  else String.ofList (truncateList max value.toList)

mutual

def renderValue : RespValue → String
  | .simple value | .error value | .integer value | .bulk (some value) => renderBytes value
  | .double value | .bigNumber value | .bulkError value | .verbatim value => renderBytes value
  | .bulk none | .array none | .null => "null"
  | .boolean value => toString value
  | .array (some values) => "[" ++ Str.join ", " (renderValues values) ++ "]"
  | .map values | .set values => "[" ++ Str.join ", " (renderValues values) ++ "]"
  | .push values | .attr values => "[" ++ Str.join ", " (renderValues values) ++ "]"
  | .inline values => Str.join " " (values.map renderBytes)

def renderValues : List RespValue → List String
  | [] => []
  | value :: values => renderValue value :: renderValues values

end

/-! ## Messages -/

def scalarBytes : RespValue → Option Bytes
  | .simple value | .error value | .integer value | .bulk (some value) => some value
  | .double value | .bigNumber value | .bulkError value | .verbatim value => some value
  | _ => none

/-- The arguments of a command, as many as fit, and whether one was cut. -/
def argumentHeaders (maxBody : Nat) : Nat → List Bytes → Headers × Bool
  | _, [] => ([], false)
  | retained, argument :: arguments =>
    let rendered := renderBytes argument
    let captured := truncateUtf8 rendered (maxBody - retained)
    let size := (Utf8.asBytes captured).length
    let rest := argumentHeaders maxBody (saturatingAdd retained size) arguments
    (("redis-arg", captured) :: rest.1,
      decide (size < (Utf8.asBytes rendered).length) || rest.2)

def redisRequestSummary (command : String) (arguments : List String) : String :=
  if arguments.isEmpty then "Redis " ++ command
  else "Redis " ++ command ++ " " ++ Str.join " " arguments

def requestMessage (value : RespValue) (maxBody : Nat) : DecodedMessage :=
  let arguments := match value with
    | .array (some values) => values.filterMap scalarBytes
    | .inline values => values
    | _ => []
  let command := match arguments.head? with
    | some value => Str.toAsciiUppercase (Utf8.fromUtf8Lossy value)
    | none => "UNKNOWN"
  let (shown, truncated) := argumentHeaders maxBody 0 (arguments.drop 1)
  { direction := .clientToServer
    startLine := redisRequestSummary command (shown.map Prod.snd)
    headers := [("lens-protocol", "redis"), ("lens-boundary", "request"),
      ("redis-command", command)] ++ shown
    body := []
    truncated := truncated }

def responseSummary : RespValue → String × String
  | .simple value => ("simple-string", "Redis " ++ renderBytes value)
  | .error value => ("error", "Redis error " ++ renderBytes value)
  | .integer value => ("integer", "Redis integer " ++ renderBytes value)
  | .bulk (some value) => ("bulk-string", "Redis bulk " ++ toString value.length ++ " bytes")
  | .bulk none => ("null", "Redis null")
  | .null => ("null", "Redis null")
  | .array (some values) => ("array", "Redis array " ++ toString values.length ++ " items")
  | .array none => ("null", "Redis null array")
  | .boolean value => ("boolean", "Redis boolean " ++ toString value)
  | .double value => ("double", "Redis double " ++ renderBytes value)
  | .bigNumber value => ("big-number", "Redis big number " ++ renderBytes value)
  | .bulkError value => ("bulk-error", "Redis bulk error " ++ toString value.length ++ " bytes")
  | .verbatim value => ("verbatim", "Redis verbatim " ++ toString value.length ++ " bytes")
  | .map values => ("map", "Redis map " ++ toString (values.length / 2) ++ " pairs")
  | .set values => ("set", "Redis set " ++ toString values.length ++ " items")
  | .push values => ("push", "Redis push " ++ toString values.length ++ " items")
  | .attr values => ("attribute", "Redis attribute " ++ toString (values.length / 2) ++ " pairs")
  | .inline values => ("inline", "Redis inline " ++ toString values.length ++ " items")

def isPush : RespValue → Bool
  | .push _ => true
  | _ => false

def responseMessage (value : RespValue) (maxBody : Nat) : DecodedMessage :=
  let (kind, summary) := responseSummary value
  let rendered := Utf8.asBytes (renderValue value)
  { direction := .serverToClient
    startLine := summary
    headers := [("lens-protocol", "redis"), ("redis-kind", kind), ("lens-content", "redis-value")]
      ++ if isPush value then [] else [("lens-boundary", "response")]
    body := rendered.take (min rendered.length maxBody)
    truncated := maxBody < rendered.length }

def toMessage (direction : Direction) (value : RespValue) (maxBody : Nat) : DecodedMessage :=
  match direction with
  | .clientToServer => requestMessage value maxBody
  | .serverToClient => responseMessage value maxBody

/-! ## The decoder -/

structure RedisDecoder where
  client : Bytes
  server : Bytes
  maxBody : Nat
deriving DecidableEq, Repr

/-- One turn of `decode_available` over one buffer. -/
def laneTurn (direction : Direction) (maxBody : Nat) (buffer : Bytes) :
    Turn Bytes DecodedMessage String :=
  if buffer.isEmpty then .stop buffer .needMore
  else
    match parseValue maxNesting buffer with
    | .complete value consumed =>
      .again (buffer.drop consumed) ⟨[toMessage direction value maxBody], none⟩
    | .incomplete =>
      if saturatingAdd maxBody frameOverheadBudget < buffer.length then
        .stop [] ⟨[], some "Redis frame exceeded the bounded observation buffer"⟩
      else .stop buffer .needMore
    | .invalid reason => .stop [] ⟨[], some reason⟩

namespace RedisDecoder

def new (maxBody : Nat) : RedisDecoder := ⟨[], [], maxBody⟩

def state (s : RedisDecoder) : Direction → Bytes
  | .clientToServer => s.client
  | .serverToClient => s.server

def setState (s : RedisDecoder) (d : Direction) (buffer : Bytes) : RedisDecoder :=
  match d with
  | .clientToServer => { s with client := buffer }
  | .serverToClient => { s with server := buffer }

def decodeAvailable (s : RedisDecoder) (d : Direction) : RedisDecoder × DecodeBatch :=
  let (buffer, batch) :=
    Stream.drive (laneTurn d s.maxBody) ((s.state d).length + 1) (s.state d)
  (s.setState d buffer, batch)

def push (s : RedisDecoder) (d : Direction) (bytes : Bytes) : RedisDecoder × DecodeBatch :=
  (s.setState d (s.state d ++ bytes)).decodeAvailable d

def finish (s : RedisDecoder) (d : Direction) : RedisDecoder × DecodeBatch :=
  let (s, batch) := s.decodeAvailable d
  if (s.state d).isEmpty then (s, batch)
  else
    (s.setState d [],
      { batch with desynchronized := some "Redis stream ended inside a RESP frame" })

end RedisDecoder

end Lens.Redis
