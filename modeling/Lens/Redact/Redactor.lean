import Lens.Protocol
import Lens.Redact.Sql

/-!
# Default redaction

`Redactor::redact` of `lens-redact`.  The protocol of a message and the kind of
its body are read off its headers, where decoders leave them under `lens-` names.
The start line, each header and the body are then redacted by what was read.

The JSON secret pattern is the one regular expression of the source.  Its
matches are unique at each position but for the quoted value, where an escape is
tried before a plain character, so a matcher that follows that order is the
expression (`quotedValue`).
-/

namespace Lens.Redact

def replacement : String := "[REDACTED]"

/-! ## Names -/

def sensitiveNames : List String :=
  ["authorization", "proxy-authorization", "cookie", "set-cookie", "x-api-key", "x-auth-token",
    "password", "passwd", "token", "secret", "api_key", "api-key", "apikey", "access_token",
    "access-token", "refresh_token", "refresh-token", "client_secret", "client-secret",
    "private_key", "private-key", "session_id", "session-id", "jwt", "grpc-message"]

def sensitiveSuffixes : List String :=
  ["_password", "-password", "_token", "-token", "_secret", "-secret", "_api_key", "-api-key",
    "_private_key", "-private-key"]

def isSensitiveName (name : String) : Bool :=
  let name := Str.toAsciiLowercase (Str.trim name)
  sensitiveNames.contains name || sensitiveSuffixes.any fun suffix => Str.endsWith name suffix

def hex (byte : UInt8) : Option UInt8 :=
  if 0x30 ≤ byte && byte ≤ 0x39 then some (byte - 0x30)
  else if 0x61 ≤ byte && byte ≤ 0x66 then some (byte - 0x61 + 10)
  else if 0x41 ≤ byte && byte ≤ 0x46 then some (byte - 0x41 + 10)
  else none

/-- The bytes of a percent-encoded name.  A plus sign stands for a space. -/
def percentDecodeBytes : Bytes → Bytes
  | 0x25 :: high :: low :: rest =>
    match hex high, hex low with
    | some h, some l => (h * 16 + l) :: percentDecodeBytes rest
    | _, _ => 0x25 :: percentDecodeBytes (high :: low :: rest)
  | byte :: rest => (if byte = 0x2b then 0x20 else byte) :: percentDecodeBytes rest
  | [] => []

def percentDecodeName (value : String) : String :=
  Utf8.fromUtf8Lossy (percentDecodeBytes (Utf8.asBytes value))

/-! ## Pairs and start lines -/

/-- One pair of a query or form. -/
def redactPair (pair : String) : String × Bool :=
  let (name, value) := (Str.splitOnce '=' pair).getD (pair, "")
  if isSensitiveName (percentDecodeName name) then (name ++ "=" ++ replacement, true)
  else if pair.toList.contains '=' then (name ++ "=" ++ value, false)
  else (name, false)

def redactPairs (value : String) (separator : Char) : String × Bool :=
  let pairs := (Str.split separator value).map redactPair
  (Str.join (String.ofList [separator]) (pairs.map Prod.fst), pairs.any Prod.snd)

def redactStartLine (startLine : String) : String × Bool :=
  match Str.splitWhitespace startLine with
  | method :: target :: version :: _ =>
    if Str.startsWith method "HTTP/" || !Str.startsWith version "HTTP/" then (startLine, false)
    else
      match Str.splitOnce '?' target with
      | none => (startLine, false)
      | some (path, query) =>
        let (query, fragment) := match Str.splitOnce '#' query with
          | some (query, fragment) => (query, "#" ++ fragment)
          | none => (query, "")
        let (safe, changed) := redactPairs query '&'
        if changed then
          (method ++ " " ++ path ++ "?" ++ safe ++ fragment ++ " " ++ version, true)
        else (startLine, false)
  | _ => (startLine, false)

/-! ## Redis arguments -/

def redisArgumentIsSensitive (command : String) (position : Nat) (arguments : List String) :
    Bool :=
  if command = "AUTH" then true
  else if command = "HELLO" then
    0 < position && (arguments[position - 2]?).any (Str.eqIgnoreAsciiCase · "AUTH")
  else if ["SET", "SETNX", "GETSET", "APPEND", "SETRANGE", "SETEX", "PSETEX"].contains command then
    0 < position
  else if ["MSET", "MSETNX"].contains command then position % 2 == 1
  else if ["HSET", "HSETNX", "HMSET"].contains command then 2 ≤ position && position % 2 == 0
  else if command = "JSON.SET" then 2 ≤ position
  else if ["EVAL", "EVALSHA", "FCALL", "FCALL_RO"].contains command then true
  else if command = "CONFIG" then
    arguments.head?.any (Str.eqIgnoreAsciiCase · "SET") && 2 ≤ position
  else if command = "ACL" then
    arguments.head?.any (Str.eqIgnoreAsciiCase · "SETUSER")
      && (arguments[position]?).any fun value =>
        Str.startsWith value ">" || Str.startsWith value "#" || Str.startsWith value "<"
  else
    let current := (arguments[position]?).getD ""
    let previous := if position = 0 then "" else (arguments[position - 1]?).getD ""
    isSensitiveName current || isSensitiveName previous
      || ["AUTH", "AUTH2"].contains (Str.toAsciiUppercase previous)

def isRedisArg (h : String × String) : Bool := Str.eqIgnoreAsciiCase h.1 "redis-arg"

/-- The headers with sensitive arguments replaced, counting arguments from
`position`. -/
def redactArguments (command : String) (arguments : List String) :
    Nat → Headers → Headers × Bool
  | _, [] => ([], false)
  | position, h :: hs =>
    if isRedisArg h then
      let r := redactArguments command arguments (position + 1) hs
      if redisArgumentIsSensitive command position arguments && h.2 != replacement then
        ((h.1, replacement) :: r.1, true)
      else (h :: r.1, r.2)
    else
      let r := redactArguments command arguments position hs
      (h :: r.1, r.2)

def redactRedis (m : DecodedMessage) : DecodedMessage × Bool :=
  match (findHeader m.headers "redis-command").map Str.toAsciiUppercase with
  | none => (m, false)
  | some command =>
    let arguments := (m.headers.filter isRedisArg).map Prod.snd
    let (headers, changed) := redactArguments command arguments 0 m.headers
    let safeArguments := (headers.filter isRedisArg).map Prod.snd
    let startLine :=
      if safeArguments.isEmpty then "Redis " ++ command
      else "Redis " ++ command ++ " " ++ Str.join " " safeArguments
    ({ m with startLine := startLine, headers := headers }, changed)

/-! ## JSON secrets -/

/-- A letter of the pattern against a letter of the text, in any case.  Two
letters outside ASCII fold to ASCII ones. -/
def foldsTo (c p : Char) : Bool :=
  c.toLower == p || (c.toNat == 0x17f && p == 's') || (c.toNat == 0x212a && p == 'k')

/-- The rest of a text after a pattern, in any case. -/
def stripFolded : List Char → List Char → Option (List Char)
  | [], cs => some cs
  | _ :: _, [] => none
  | p :: ps, c :: cs => if foldsTo c p then stripFolded ps cs else none

def jsonSecretNames : List String :=
  ["password", "passwd", "token", "secret", "api_key", "api-key", "apikey", "access_token",
    "access-token", "accesstoken", "refresh_token", "refresh-token", "refreshtoken"]

/-- The rest after a quoted value, past its opening quote.  An escape takes two
characters; when that fails the backslash stands for itself. -/
def quotedValue : List Char → Option (List Char)
  | [] => none
  | '"' :: cs => some cs
  | '\\' :: c :: cs =>
    if c ≠ '\n' then (quotedValue cs).orElse fun _ => quotedValue (c :: cs)
    else quotedValue (c :: cs)
  | _ :: cs => quotedValue cs

/-- The rest after a value: a quoted one, or a run without comma, brace or space. -/
def secretValue (cs : List Char) : Option (List Char) :=
  let quoted := match cs with
    | '"' :: rest => quotedValue rest
    | _ => none
  match quoted with
  | some rest => some rest
  | none =>
    let run := cs.takeWhile fun c => c ≠ ',' && c ≠ '}' && !Str.isWhitespace c
    if run.isEmpty then none else some (cs.drop run.length)

/-- The rest after a quoted secret name, a colon and the space around it. -/
def secretKey (cs : List Char) : Option (List Char) :=
  match cs with
  | '"' :: rest =>
    match jsonSecretNames.findSome? fun name => stripFolded (name.toList ++ ['"']) rest with
    | none => none
    | some rest =>
      match rest.dropWhile Str.isWhitespace with
      | ':' :: rest => some (rest.dropWhile Str.isWhitespace)
      | _ => none
  | _ => none

/-- A match at the front: the characters of the key and the rest after the value. -/
def jsonSecretMatch (cs : List Char) : Option (List Char × List Char) :=
  match secretKey cs with
  | none => none
  | some value =>
    match secretValue value with
    | none => none
    | some rest => some (cs.take (cs.length - value.length), rest)

/-- Replace every match, leftmost first. -/
def jsonReplaceLoop : Nat → List Char → List Char × Bool
  | 0, cs => (cs, false)
  | _, [] => ([], false)
  | n + 1, c :: cs =>
    match jsonSecretMatch (c :: cs) with
    | some (key, rest) =>
      (key ++ ['"'] ++ replacement.toList ++ ['"'] ++ (jsonReplaceLoop n rest).1, true)
    | none => (c :: (jsonReplaceLoop n cs).1, (jsonReplaceLoop n cs).2)

def jsonReplaceAll (body : String) : String × Bool :=
  let r := jsonReplaceLoop body.toList.length body.toList
  (String.ofList r.1, r.2)

/-! ## Messages -/

/-- A header with this name and this value, both in any letter case. -/
def hasHeader (headers : Headers) (name value : String) : Bool :=
  headers.any fun h => Str.eqIgnoreAsciiCase h.1 name && Str.eqIgnoreAsciiCase h.2 value

/-- A header whose text is SQL in a PostgreSQL error or notice. -/
def isSqlHeader (name : String) : Bool :=
  ["message", "detail", "hint", "where"].contains (Str.toAsciiLowercase name)

/-- One header, and whether it changed. -/
def redactHeader (postgres : Bool) (h : String × String) : (String × String) × Bool :=
  if isSensitiveName h.1 && h.2 != replacement then ((h.1, replacement), true)
  else if postgres && isSqlHeader h.1 then
    let (safe, changed) := redactSqlLiterals h.2
    if changed then ((h.1, safe), true) else (h, false)
  else (h, false)

def redactHeaders (postgres : Bool) (headers : Headers) :
    Headers × Bool :=
  let r := headers.map (redactHeader postgres)
  (r.map Prod.fst, r.any Prod.snd)

/-- A body that is text, rewritten. -/
def rewriteBody (rewrite : String → String × Bool) (body : Bytes) : Bytes × Bool :=
  match Utf8.fromUtf8 body with
  | none => (body, false)
  | some text =>
    let (safe, changed) := rewrite text
    if changed then (Utf8.asBytes safe, true) else (body, false)

def startsLikeJson (body : Bytes) : Bool :=
  body.head?.any fun byte => byte == 0x7b || byte == 0x5b

/-- The body by its content type. -/
def redactContent (headers : Headers) (body : Bytes) : Bytes × Bool :=
  let contentType := ((findHeader headers "content-type").map Str.toAsciiLowercase).getD ""
  if Str.contains contentType "application/x-www-form-urlencoded" then
    rewriteBody (redactPairs · '&') body
  else if Str.contains contentType "json" || startsLikeJson body then
    rewriteBody jsonReplaceAll body
  else (body, false)

/-- A body that is hidden as a whole unless it is empty. -/
def hideBody (body : Bytes) : Bytes × Bool :=
  if body.isEmpty then (body, false) else (Utf8.asBytes replacement, true)

/-- The start line, and the arguments of a Redis command. -/
def redactLine (redis : Bool) (m : DecodedMessage) : DecodedMessage × Bool :=
  if redis then redactRedis m
  else
    let line := redactStartLine m.startLine
    ({ m with startLine := line.1 }, line.2)

/-- The body, by protocol and content.  The headers are already redacted. -/
def redactBody (sqlBody redis grpc : Bool) (headers : Headers)
    (body : Bytes) : Bytes × Bool :=
  if sqlBody then rewriteBody redactSqlLiterals body
  else if redis then
    if hasHeader headers "lens-content" "redis-value" then hideBody body else (body, false)
  else if grpc && hasHeader headers "lens-content" "protobuf" && !body.isEmpty then hideBody body
  else redactContent headers body

structure RedactionOutcome where
  message : DecodedMessage
  redacted : Bool
deriving DecidableEq, Repr

def redact (reveal : Bool) (m : DecodedMessage) : RedactionOutcome :=
  if reveal then ⟨m, false⟩
  else
    let postgres := hasHeader m.headers "lens-protocol" "postgres"
    let redis := hasHeader m.headers "lens-protocol" "redis"
    let grpc := hasHeader m.headers "lens-protocol" "grpc"
    let sqlBody := postgres && hasHeader m.headers "lens-content" "sql"
    let line := redactLine redis m
    let headers := redactHeaders postgres line.1.headers
    let body := redactBody sqlBody redis grpc headers.1 line.1.body
    ⟨{ line.1 with headers := headers.1, body := body.1 }, line.2 || headers.2 || body.2⟩

end Lens.Redact
