import Lens.Core
import Lens.Text.Addr

/-!
# The Windows redirect driver and its records

User space and the driver exchange fixed-width records that begin with a header.
`LensEvtIoDeviceControl` takes the control requests and
`LensClassifyConnectRedirect` is called for every outgoing connection.  Every
number of a record is little-endian, the port and the address bytes apart.
-/

namespace Lens.Platform

open Search (le leNat be16 beNat)

/-! ## Reading records -/

/-- The text of a `TransparentError`. -/
abbrev TransparentError := String

def readArray (width : Nat) (bytes : Bytes) (offset : Nat) : Except TransparentError Bytes :=
  if offset + width ≤ bytes.length then .ok ((bytes.drop offset).take width)
  else .error "driver record is truncated"

/-- The bytes that stand at an offset are read there. -/
theorem readArray_append {pre field post : Bytes} {width offset : Nat}
    (hoffset : pre.length = offset) (hwidth : field.length = width) :
    readArray width (pre ++ (field ++ post)) offset = .ok field := by
  subst hoffset hwidth
  simp [readArray]

def readU16 (bytes : Bytes) (offset : Nat) : Except TransparentError UInt16 :=
  (readArray 2 bytes offset).map fun bs => UInt16.ofNat (leNat bs)

def readU32 (bytes : Bytes) (offset : Nat) : Except TransparentError UInt32 :=
  (readArray 4 bytes offset).map fun bs => UInt32.ofNat (leNat bs)

def readU64 (bytes : Bytes) (offset : Nat) : Except TransparentError UInt64 :=
  (readArray 8 bytes offset).map fun bs => UInt64.ofNat (leNat bs)

section

variable {bytes : Bytes} {offset : Nat}

theorem readU16_eq {value : UInt16} (h : readArray 2 bytes offset = .ok (le 2 value.toNat)) :
    readU16 bytes offset = .ok value := by
  rw [readU16, h, Except.map, Search.leNat_le 2 value.toNat_lt, UInt16.ofNat_toNat]

theorem readU32_eq {value : UInt32} (h : readArray 4 bytes offset = .ok (le 4 value.toNat)) :
    readU32 bytes offset = .ok value := by
  rw [readU32, h, Except.map, Search.leNat_le 4 value.toNat_lt, UInt32.ofNat_toNat]

theorem readU64_eq {value : UInt64} (h : readArray 8 bytes offset = .ok (le 8 value.toNat)) :
    readU64 bytes offset = .ok value := by
  rw [readU64, h, Except.map, Search.leNat_le 8 value.toNat_lt, UInt64.ofNat_toNat]

end

/-- The header of a record: the ABI version, the size of the record, the operation. -/
def header (size : UInt16) (operation : UInt32) : Bytes :=
  le 2 1 ++ le 2 size.toNat ++ le 4 operation.toNat

def readHeader (bytes : Bytes) (size : UInt16) (operation : UInt32) :
    Except TransparentError Unit := do
  if bytes.length ≠ size.toNat ∨ size < 8 then throw "driver record has an invalid size"
  if (← readU16 bytes 0) ≠ 1 then throw "driver ABI version does not match"
  if (← readU16 bytes 2) ≠ size then throw "driver record size field does not match"
  if (← readU32 bytes 4) ≠ operation then throw "driver record operation does not match"

/-- A record that starts with its header and has the header's size is read on. -/
theorem readHeader_eq {size : UInt16} {operation : UInt32} (rest : Bytes)
    (hlen : (header size operation ++ rest).length = size.toNat) (hsize : ¬ size < 8) :
    readHeader (header size operation ++ rest) size operation = .ok () := by
  have h0 : readU16 (header size operation ++ rest) 0 = .ok 1 :=
    readU16_eq (by simp [readArray, header, le])
  have h2 : readU16 (header size operation ++ rest) 2 = .ok size :=
    readU16_eq (by simp [readArray, header, le])
  have h4 : readU32 (header size operation ++ rest) 4 = .ok operation :=
    readU32_eq (by simp [readArray, header, le])
  simp [readHeader, hlen, hsize, h0, h2, h4]

/-! ## The records of user space -/

structure TransparentConfig where
  proxyPid : UInt64
  listenPort : UInt16
  generation : UInt32
  sessionNonce : UInt64
deriving DecidableEq, Repr

def TransparentConfig.new (proxyPid : UInt64) (listenPort : UInt16) (generation : UInt32)
    (sessionNonce : UInt64) : Except TransparentError TransparentConfig :=
  if proxyPid = 0 then .error "proxy PID must be non-zero"
  else if listenPort = 0 then .error "listen port must be non-zero"
  else if generation = 0 then .error "generation must be non-zero"
  else if sessionNonce = 0 then .error "session nonce must be non-zero"
  else .ok { proxyPid, listenPort, generation, sessionNonce }

def TransparentConfig.encode (config : TransparentConfig) : Bytes :=
  header 32 1 ++ (le 8 config.proxyPid.toNat ++ le 2 config.listenPort.toNat ++ [0, 0] ++
    le 4 config.generation.toNat ++ le 8 config.sessionNonce.toNat)

structure TransparentDriverStatus where
  active : Bool
  generation : UInt64
  redirectedConnections : UInt64
  redirectErrors : UInt64
deriving DecidableEq, Repr

def TransparentDriverStatus.decode (bytes : Bytes) :
    Except TransparentError TransparentDriverStatus := do
  readHeader bytes 40 3
  let state ← readU32 bytes 8
  if state ≠ 1 ∧ state ≠ 2 then throw "driver returned an invalid state"
  if (← readU32 bytes 12) ≠ 0 then throw "driver returned unknown status flags"
  return { active := state = 2
           generation := ← readU64 bytes 16
           redirectedConnections := ← readU64 bytes 24
           redirectErrors := ← readU64 bytes 32 }

structure RedirectContext where
  destination : Net.SocketAddr
  processId : UInt64
  generation : UInt64
deriving DecidableEq, Repr

/-- The address of a family: 2 is IPv4, 23 is IPv6. -/
def contextIp (family : UInt16) (address : Bytes) : Except TransparentError Net.IpAddr :=
  if h : family = 2 ∧ (address.take 4).length = 4 then .ok (.v4 ⟨address.take 4, h.2⟩)
  else if h : family = 23 ∧ address.length = 16 then .ok (.v6 ⟨address, h.2⟩)
  else .error "unsupported address family"

def RedirectContext.decode (bytes : Bytes) : Except TransparentError RedirectContext := do
  readHeader bytes 48 4
  let family ← readU16 bytes 8
  match bytes[10]? with
  | none => throw "redirect context is truncated"
  | some protocol => if protocol ≠ 6 then throw "redirect context is not a TCP connection"
  let port := UInt16.ofNat (beNat (← readArray 2 bytes 12))
  let ip ← contextIp family (← readArray 16 bytes 16)
  return { destination := .new ip port
           processId := ← readU64 bytes 32
           generation := ← readU64 bytes 40 }

/-! ## The driver -/

/-- `LENS_WFP_CONFIG`. -/
structure WfpConfig where
  version : UInt16
  size : UInt16
  operation : UInt32
  proxyPid : UInt64
  listenPort : UInt16
  flags : UInt16
  generation : UInt32
  sessionNonce : UInt64
deriving DecidableEq, Repr

/-- `RtlZeroMemory` of a configuration. -/
def WfpConfig.empty : WfpConfig := ⟨0, 0, 0, 0, 0, 0, 0, 0⟩

/-- A buffer of 32 bytes seen as a `LENS_WFP_CONFIG`. -/
def WfpConfig.cast (bytes : Bytes) : Except TransparentError WfpConfig :=
  return ⟨← readU16 bytes 0, ← readU16 bytes 2, ← readU32 bytes 4, ← readU64 bytes 8,
    ← readU16 bytes 16, ← readU16 bytes 18, ← readU32 bytes 20, ← readU64 bytes 24⟩

/-- `LENS_DRIVER_STATE`: the stored configuration, whether it is active and the counters. -/
structure DriverState where
  config : WfpConfig
  active : Bool
  redirectedConnections : UInt64
  redirectErrors : UInt64
deriving DecidableEq, Repr

/-- The state after `DriverEntry`. -/
def DriverState.initial : DriverState := ⟨.empty, false, 0, 0⟩

inductive NtStatus where
  | success
  | invalidParameter
  | bufferTooSmall
deriving DecidableEq, Repr

/-- What the driver asks of a configuration, its header included. -/
def WfpConfig.valid (config : WfpConfig) : Bool :=
  config.version = 1 ∧ config.size = 32 ∧ config.operation = 1 ∧
    config.proxyPid ≠ 0 ∧ config.proxyPid ≤ 0xffffffff ∧ config.listenPort ≠ 0 ∧
    config.generation ≠ 0 ∧ config.sessionNonce ≠ 0 ∧ config.flags = 0

/-- `IOCTL_LENS_WFP_CONFIGURE`. -/
def DriverState.configure (state : DriverState) (input : Bytes) : NtStatus × DriverState :=
  match WfpConfig.cast input with
  | .error _ => (.bufferTooSmall, state)
  | .ok config =>
    if input.length = 32 ∧ config.valid then (.success, { state with config, active := true })
    else (.invalidParameter, state)

/-- `IOCTL_LENS_WFP_DISABLE` with no input: `LensDisable`. -/
def DriverState.disable (state : DriverState) : DriverState :=
  { state with config := .empty, active := false }

/-- `IOCTL_LENS_WFP_STATUS`. -/
def DriverState.status (state : DriverState) : Bytes :=
  header 40 3 ++ (le 4 (if state.active then 2 else 1) ++ le 4 0 ++
    le 8 state.config.generation.toNat ++ le 8 state.redirectedConnections.toNat ++
    le 8 state.redirectErrors.toNat)

/-- One call of the classify function.  A connection at the IPv4 layer has an IPv4
remote address and one at the IPv6 layer an IPv6 one.  The last three fields say
whether the calls for the classify handle, the writable request and the pool
memory succeed. -/
structure Connection where
  writeRight : Bool
  classifyContext : Bool
  protocol : UInt8
  processId : Option UInt64
  remote : Net.SocketAddr
  classifyHandle : Bool
  writableLayerData : Bool
  poolMemory : Bool
deriving DecidableEq, Repr

/-- What the driver writes into a connect request. -/
structure Redirect where
  remote : Net.SocketAddr
  localRedirectTargetPid : UInt32
  localRedirectContext : Bytes
deriving DecidableEq, Repr

/-- `address_family` and `destination_address` of a remote address. -/
def family : Net.SocketAddr → UInt16
  | .v4 _ _ => 2
  | .v6 _ _ _ _ => 23

def addressBytes : Net.SocketAddr → Bytes
  | .v4 ip _ => ip.octets ++ List.replicate 12 0
  | .v6 ip _ _ _ => ip.octets

theorem length_addressBytes (remote : Net.SocketAddr) : (addressBytes remote).length = 16 := by
  cases remote with
  | v4 ip port => simp [addressBytes, ip.size]
  | v6 ip port flowinfo scopeId => exact ip.size

/-- The `LENS_WFP_REDIRECT_CONTEXT` of a connection. -/
def redirectContext (config : WfpConfig) (protocol : UInt8) (processId : UInt64)
    (remote : Net.SocketAddr) : Bytes :=
  header 48 4 ++ (le 2 (family remote).toNat ++ [protocol, 0] ++ be16 remote.port.toNat ++ [0, 0] ++
    addressBytes remote ++ le 8 processId.toNat ++ le 8 config.generation.toNat)

theorem length_redirectContext (config : WfpConfig) (protocol : UInt8) (processId : UInt64)
    (remote : Net.SocketAddr) : (redirectContext config protocol processId remote).length = 48 := by
  simp [redirectContext, header, le, length_addressBytes]

/-- The rewritten remote address: the loopback address of the family and the
configured port.  The IPv6 branch leaves the flow label and the scope alone. -/
def redirectedTo (config : WfpConfig) : Net.SocketAddr → Net.SocketAddr
  | .v4 _ _ => .v4 .localhost config.listenPort
  | .v6 _ _ flowinfo scopeId => .v6 .localhost config.listenPort flowinfo scopeId

/-- `LensClassifyConnectRedirect`.  No redirect leaves the connect request alone. -/
def DriverState.classify (state : DriverState) (c : Connection) : DriverState × Option Redirect :=
  let failed := { state with redirectErrors := state.redirectErrors + 1 }
  let processId := c.processId.getD 0
  if ¬ c.writeRight then (state, none)
  else if ¬ state.active ∨ ¬ c.classifyContext ∨ c.protocol ≠ 6 then (state, none)
  else if processId = 0 ∨ processId = state.config.proxyPid then (state, none)
  else if ¬ c.classifyHandle then (failed, none)
  else if ¬ c.writableLayerData then (failed, none)
  else if ¬ c.poolMemory then (failed, none)
  else
    ({ state with redirectedConnections := state.redirectedConnections + 1 },
      some { remote := redirectedTo state.config c.remote
             localRedirectTargetPid := state.config.proxyPid.toUInt32
             localRedirectContext := redirectContext state.config c.protocol processId c.remote })

/-! ## What a record reads back as -/

/-- A configuration as the driver stores it. -/
def TransparentConfig.stored (config : TransparentConfig) : WfpConfig :=
  ⟨1, 32, 1, config.proxyPid, config.listenPort, 0, config.generation, config.sessionNonce⟩

/-- The driver reads back what user space wrote. -/
theorem WfpConfig.cast_encode (config : TransparentConfig) :
    WfpConfig.cast config.encode = .ok config.stored := by
  have h0 : readU16 config.encode 0 = .ok 1 := readU16_eq rfl
  have h2 : readU16 config.encode 2 = .ok 32 := readU16_eq rfl
  have h4 : readU32 config.encode 4 = .ok 1 := readU32_eq rfl
  have h8 : readU64 config.encode 8 = .ok config.proxyPid := readU64_eq rfl
  have h16 : readU16 config.encode 16 = .ok config.listenPort := readU16_eq rfl
  have h18 : readU16 config.encode 18 = .ok 0 := readU16_eq rfl
  have h20 : readU32 config.encode 20 = .ok config.generation := readU32_eq rfl
  have h24 : readU64 config.encode 24 = .ok config.sessionNonce := readU64_eq rfl
  simp only [cast, h0, h2, h4, h8, h16, h18, h20, h24, bind, Except.bind]
  rfl

theorem DriverState.configure_encode (state : DriverState) {config : TransparentConfig}
    (h : config.stored.valid = true) :
    state.configure config.encode =
      (.success, { state with config := config.stored, active := true }) := by
  unfold configure
  rw [WfpConfig.cast_encode]
  exact if_pos ⟨rfl, h⟩

/-- The status of the driver is read back in user space. -/
theorem TransparentDriverStatus.decode_status (state : DriverState) :
    decode state.status = .ok ⟨state.active, state.config.generation.toUInt64,
      state.redirectedConnections, state.redirectErrors⟩ := by
  have hhead : readHeader state.status 40 3 = .ok () := readHeader_eq _ rfl (by decide)
  have h8 : readU32 state.status 8 = .ok (if state.active then 2 else 1) := by
    cases hactive : state.active <;> exact readU32_eq (by rw [DriverState.status, hactive]; rfl)
  have h12 : readU32 state.status 12 = .ok 0 := readU32_eq rfl
  have h16 : readU64 state.status 16 = .ok state.config.generation.toUInt64 := readU64_eq rfl
  have h24 : readU64 state.status 24 = .ok state.redirectedConnections := readU64_eq rfl
  have h32 : readU64 state.status 32 = .ok state.redirectErrors := readU64_eq rfl
  simp only [decode, hhead, h8, h12, h16, h24, h32, bind, Except.bind]
  cases state.active <;> rfl

/-- The context of a TCP connection decodes to the address and the port of its
destination, with the process and the generation it was recorded under. -/
theorem RedirectContext.decode_redirectContext (config : WfpConfig) (processId : UInt64)
    (remote : Net.SocketAddr) :
    decode (redirectContext config 6 processId remote) =
      .ok ⟨.new remote.ip remote.port, processId, config.generation.toUInt64⟩ := by
  have hport : UInt16.ofNat (beNat (be16 remote.port.toNat)) = remote.port := by
    rw [Search.beNat_be16 remote.port.toNat_lt, UInt16.ofNat_toNat]
  have hlen := length_addressBytes remote
  have hip : contextIp (family remote) (addressBytes remote) = .ok remote.ip := by
    cases remote with
    | v4 ip port => simp [contextIp, family, addressBytes, ip.size, Net.SocketAddr.ip]
    | v6 ip port flowinfo scopeId =>
      simp [contextIp, family, addressBytes, ip.size, Net.SocketAddr.ip]
  generalize hrecord : redirectContext config 6 processId remote = record
  have hparts : record = header 48 4 ++ le 2 (family remote).toNat ++ [6, 0] ++
      be16 remote.port.toNat ++ [0, 0] ++ (addressBytes remote ++
      (le 8 processId.toNat ++ (le 8 config.generation.toNat ++ []))) := by
    simp [← hrecord, redirectContext]
  have hhead : readHeader record 48 4 = .ok () := by
    rw [← hrecord]
    exact readHeader_eq _ (by simp [header, le, hlen]) (by decide)
  have h8 : readU16 record 8 = .ok (family remote) :=
    readU16_eq (by simp [hparts, readArray, header, le])
  have h10 : record[10]? = some 6 := by simp [hparts, header, le]
  have h12 : readArray 2 record 12 = .ok (be16 remote.port.toNat) := by
    simp [hparts, readArray, header, le, be16]
  have h16 : readArray 16 record 16 = .ok (addressBytes remote) := by
    rw [hparts]
    exact readArray_append rfl hlen
  have h32 : readU64 record 32 = .ok processId := readU64_eq (by
    rw [hparts, ← List.append_assoc]
    exact readArray_append (by simp [header, le, be16, hlen]) rfl)
  have h40 : readU64 record 40 = .ok config.generation.toUInt64 := readU64_eq (by
    rw [hparts, ← List.append_assoc, ← List.append_assoc]
    exact readArray_append (by simp [header, le, be16, hlen]) rfl)
  simp [decode, hhead, h8, h10, h12, h16, h32, h40, hip, hport, bind, Except.bind,
    pure, Except.pure]

end Lens.Platform
