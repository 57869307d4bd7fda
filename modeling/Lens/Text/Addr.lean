import Lens.Text.Str
import Lens.Text.Search

/-!
# Socket addresses

The address types of `std::net` and their parser.  A reader takes characters off
the front of its input or leaves the input alone, so `StateT (List Char) Option`
reads atomically by itself.
-/

namespace Net

structure Ipv4Addr where
  octets : List UInt8
  size : octets.length = 4
deriving DecidableEq, Repr

structure Ipv6Addr where
  octets : List UInt8
  size : octets.length = 16
deriving DecidableEq, Repr

inductive IpAddr where
  | v4 (ip : Ipv4Addr)
  | v6 (ip : Ipv6Addr)
deriving DecidableEq, Repr

/-- A socket address.  An IPv6 one also has a flow label and a scope. -/
inductive SocketAddr where
  | v4 (ip : Ipv4Addr) (port : UInt16)
  | v6 (ip : Ipv6Addr) (port : UInt16) (flowinfo scopeId : UInt32)
deriving DecidableEq, Repr

/-- `SocketAddr::ip`. -/
def SocketAddr.ip : SocketAddr → IpAddr
  | .v4 ip _ => .v4 ip
  | .v6 ip _ _ _ => .v6 ip

/-- `SocketAddr::port`. -/
def SocketAddr.port : SocketAddr → UInt16
  | .v4 _ port => port
  | .v6 _ port _ _ => port

/-- `SocketAddr::new`. -/
def SocketAddr.new : IpAddr → UInt16 → SocketAddr
  | .v4 ip, port => .v4 ip port
  | .v6 ip, port => .v6 ip port 0 0

@[simp] theorem SocketAddr.ip_new (ip : IpAddr) (port : UInt16) : (new ip port).ip = ip := by
  cases ip <;> rfl

@[simp] theorem SocketAddr.port_new (ip : IpAddr) (port : UInt16) :
    (new ip port).port = port := by
  cases ip <;> rfl

/-- `Ipv4Addr::LOCALHOST`. -/
def Ipv4Addr.localhost : Ipv4Addr := ⟨[127, 0, 0, 1], rfl⟩

/-- `Ipv6Addr::LOCALHOST`. -/
def Ipv6Addr.localhost : Ipv6Addr := ⟨[0, 0, 0, 0, 0, 0, 0, 0, 0, 0, 0, 0, 0, 0, 0, 1], rfl⟩

/-- `Ipv4Addr::is_loopback`: the whole block `127.0.0.0/8`. -/
def Ipv4Addr.isLoopback (ip : Ipv4Addr) : Bool := ip.octets.head? == some 127

/-- `Ipv6Addr::is_loopback`: one address. -/
def Ipv6Addr.isLoopback (ip : Ipv6Addr) : Bool := ip == .localhost

/-- `IpAddr::is_loopback`. -/
def IpAddr.isLoopback : IpAddr → Bool
  | .v4 ip => ip.isLoopback
  | .v6 ip => ip.isLoopback

/-! ## The parser -/

abbrev Reader := StateT (List Char) Option

/-- One given character. -/
def readGivenChar (c : Char) : Reader Unit
  | d :: cs => if d = c then some ((), cs) else none
  | [] => none

/-- Digits onto an accumulator: the value, how many digits there were, and the
rest.  Too many digits or too large a value is no number. -/
def readDigits (radix limit : Nat) (maxDigits : Option Nat) :
    Nat → Nat → List Char → Option ((Nat × Nat) × List Char)
  | value, count, [] => some ((value, count), [])
  | value, count, c :: cs =>
    match Str.digit radix c with
    | none => some ((value, count), c :: cs)
    | some d =>
      if value * radix + d < limit ∧ maxDigits.all (count + 1 ≤ ·) then
        readDigits radix limit maxDigits (value * radix + d) (count + 1) cs
      else none

/-- A number below `limit`. -/
def readNumber (radix limit : Nat) (maxDigits : Option Nat) (allowZeroPrefix : Bool) :
    Reader Nat := do
  let hasLeadingZero := (← get).head? == some '0'
  let (value, count) ← readDigits radix limit maxDigits 0 0
  if count = 0 then failure
  else if !allowZeroPrefix && hasLeadingZero && count > 1 then failure
  else return value

/-- A separator, not before the first piece. -/
def readSeparator {α : Type} (sep : Char) (first : Bool) (inner : Reader α) : Reader α := do
  if !first then readGivenChar sep
  inner

/-- Four decimal octets with no leading zero. -/
def readIpv4Addr : Reader Ipv4Addr := do
  let octet := readNumber 10 256 (some 3) false
  let a ← octet
  let b ← readSeparator '.' false octet
  let c ← readSeparator '.' false octet
  let d ← readSeparator '.' false octet
  return ⟨[UInt8.ofNat a, UInt8.ofNat b, UInt8.ofNat c, UInt8.ofNat d], rfl⟩

/-- Up to `n` groups of an IPv6 address as octets, and whether an embedded IPv4
address ended them. -/
def readGroups : Nat → Bool → List Char → (List UInt8 × Bool) × List Char
  | 0, _, cs => (([], false), cs)
  | n + 1, first, cs =>
    -- an IPv4 address takes the place of two groups
    match if 1 ≤ n then readSeparator ':' first readIpv4Addr cs else none with
    | some (ip, rest) => ((ip.octets, true), rest)
    | none =>
      match readSeparator ':' first (readNumber 16 0x10000 (some 4) true) cs with
      | some (group, rest) =>
        let ((groups, ipv4), rest) := readGroups n false rest
        ((Search.be16 group ++ groups, ipv4), rest)
      | none => (([], false), cs)

/-- Eight groups, or fewer around one `::`. -/
def readIpv6Addr : Reader Ipv6Addr := fun cs =>
  let ((head, ipv4), rest) := readGroups 8 true cs
  if h : head.length = 16 then some (⟨head, h⟩, rest)
  else if ipv4 then none
  else do
    let (_, rest) ← readGivenChar ':' rest
    let (_, rest) ← readGivenChar ':' rest
    -- `::` stands for at least one group
    let ((tail, _), rest) := readGroups (8 - (head.length / 2 + 1)) true rest
    let octets := head ++ List.replicate (16 - (head.length + tail.length)) 0 ++ tail
    if h : octets.length = 16 then some (⟨octets, h⟩, rest) else none

def readPort : Reader Nat := do
  readGivenChar ':'
  readNumber 10 (2 ^ 16) none true

def readScopeId : Reader Nat := do
  readGivenChar '%'
  readNumber 10 (2 ^ 32) none true

def readSocketAddrV4 : Reader SocketAddr := do
  let ip ← readIpv4Addr
  let port ← readPort
  return .v4 ip (UInt16.ofNat port)

def readSocketAddrV6 : Reader SocketAddr := do
  readGivenChar '['
  let ip ← readIpv6Addr
  let scopeId ← readScopeId <|> pure 0
  readGivenChar ']'
  let port ← readPort
  return .v6 ip (UInt16.ofNat port) 0 (UInt32.ofNat scopeId)

/-- `parse::<SocketAddr>`: the whole text is one address. -/
def parseSocketAddr (s : String) : Option SocketAddr :=
  match (readSocketAddrV4 <|> readSocketAddrV6) s.toList with
  | some (addr, []) => some addr
  | _ => none

example : parseSocketAddr "127.0.0.1:8888" = some (.v4 .localhost 8888) := by decide +kernel

example : parseSocketAddr "[::1%3]:80" = some (.v6 .localhost 80 0 3) := by decide +kernel

/-- `parse::<IpAddr>`. -/
def parseIpAddr (s : String) : Option IpAddr :=
  match (IpAddr.v4 <$> readIpv4Addr <|> IpAddr.v6 <$> readIpv6Addr) s.toList with
  | some (addr, []) => some addr
  | _ => none

/-! ## As text -/

def dotted (octets : List UInt8) : String := ".".intercalate (octets.map fun b => toString b.toNat)

/-- The longest run of zero groups, the first of several: where it starts and its length. -/
def zeroSpan (segments : List Nat) : Nat × Nat :=
  (segments.zipIdx.foldl (fun (longest, current) (segment, i) =>
    if segment = 0 then
      let current := if current.2 = 0 then (i, 1) else (current.1, current.2 + 1)
      (if longest.2 < current.2 then current else longest, current)
    else (longest, (0, 0))) ((0, 0), (0, 0))).1

def Ipv6Addr.segments (ip : Ipv6Addr) : List Nat :=
  (List.range 8).map fun i => Search.beNat ((ip.octets.drop (2 * i)).take 2)

/-- `Ipv6Addr` as text.  An IPv4-mapped address ends in its dotted form. -/
def Ipv6Addr.text (ip : Ipv6Addr) : String :=
  let chunk (segments : List Nat) : String :=
    ":".intercalate (segments.map fun n => String.ofList (Nat.toDigits 16 n))
  let (start, len) := zeroSpan ip.segments
  if ip.octets.take 12 = List.replicate 10 0 ++ [255, 255] then
    "::ffff:" ++ dotted (ip.octets.drop 12)
  else if 1 < len then
    chunk (ip.segments.take start) ++ "::" ++ chunk (ip.segments.drop (start + len))
  else chunk ip.segments

/-- `IpAddr` as text. -/
def IpAddr.text : IpAddr → String
  | .v4 ip => dotted ip.octets
  | .v6 ip => ip.text

example : IpAddr.text (.v6 .localhost) = "::1" := by decide +kernel

end Net
