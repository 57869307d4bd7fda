import Lens.Cli.Config
import Lens.Platform.Wfp

/-!
# Transparent sessions

A Lens run in transparent mode configures the driver and looks up the original
destination of every connection that reaches its listener.  Where a redirected
connection lands is compared with where the listener is bound, and the contexts
that one session's configuration attaches are offered to every other session's
lookup.  Nothing of a context but its generation says which session it is from,
and every session has the same generation.
-/

namespace Lens.Platform

open List
open Cli (ResolvedConfig Layers)

/-! ## A session and the driver -/

/-- `WindowsWfpSession::activate` once the filters are installed: configure, then ask for
the status.  A session that fails is dropped, which disables the driver. -/
def activate (state : DriverState) (config : TransparentConfig) :
    Except TransparentError Unit × DriverState :=
  match state.configure config.encode with
  | (.success, state) =>
    match TransparentDriverStatus.decode state.status with
    | .ok status =>
      if !status.active || status.generation != config.generation.toUInt64 then
        (.error "WFP driver did not acknowledge the active generation", state.disable)
      else (.ok (), state)
    | .error error => (.error error, state.disable)
  | (_, state) => (.error "configure WFP driver failed", state.disable)

theorem activate_of_configure {state state' : DriverState} {config : TransparentConfig}
    (h : state.configure config.encode = (.success, state')) (hactive : state'.active = true)
    (hgeneration : state'.config.generation = config.generation) :
    activate state config = (.ok (), state') := by
  have hstatus := TransparentDriverStatus.decode_status state'
  rw [hactive, hgeneration] at hstatus
  unfold activate
  generalize config.encode = input at h ⊢
  simp [h, hstatus]

section

variable {pid : UInt32} {port : UInt16} {generation : UInt32} {nonce : UInt64}
  {config : TransparentConfig} (state : DriverState)

/-- A configuration that user space builds is one the driver takes. -/
theorem configure_new
    (h : TransparentConfig.new pid.toUInt64 port generation nonce = .ok config) :
    config = ⟨pid.toUInt64, port, generation, nonce⟩ ∧
      state.configure config.encode =
        (.success, { state with config := config.stored, active := true }) := by
  simp only [TransparentConfig.new] at h
  split_ifs at h with hpid hport hgeneration hnonce
  obtain rfl := Except.ok.inj h
  have hle : pid.toUInt64 ≤ 0xffffffff := by
    rw [UInt64.le_iff_toNat_le, UInt32.toNat_toUInt64]
    exact Nat.le_of_lt_succ pid.toNat_lt
  refine ⟨rfl, state.configure_encode ?_⟩
  simp [TransparentConfig.stored, WfpConfig.valid, hpid, hle, hport, hgeneration, hnonce]

theorem activate_new
    (h : TransparentConfig.new pid.toUInt64 port generation nonce = .ok config) :
    config = ⟨pid.toUInt64, port, generation, nonce⟩ ∧
      activate state config = (.ok (), { state with config := config.stored, active := true }) := by
  obtain ⟨hconfig, htaken⟩ := configure_new state h
  exact ⟨hconfig, activate_of_configure htaken rfl (by rw [hconfig]; rfl)⟩

end

/-- The lookup of `transparent_target_lookup`, on the record that the socket returns.  An
error is the operation that failed and the cause. -/
def targetLookup (expectedGeneration : UInt64) (record : Bytes) :
    Except (String × String) Endpoint :=
  let fails (cause : String) : Except (String × String) Endpoint := .error ("WFP context", cause)
  if record.length ≠ 48 then fails "WFP redirect context has an unexpected size"
  else
    match RedirectContext.decode record with
    | .error error => fails error
    | .ok context =>
      if context.generation ≠ expectedGeneration then
        fails "redirect generation does not match the active session"
      else .ok { host := context.destination.ip.text, port := context.destination.port.toNat }

/-- The lookup takes every context of its generation. -/
theorem targetLookup_redirectContext {stored : WfpConfig} {generation : UInt32}
    (h : stored.generation = generation) (processId : UInt64) (remote : Net.SocketAddr) :
    targetLookup generation.toUInt64 (redirectContext stored 6 processId remote) =
      .ok { host := remote.ip.text, port := remote.port.toNat } := by
  simp [targetLookup, length_redirectContext, RedirectContext.decode_redirectContext, h]

/-! ## What a classification does -/

/-- The driver redirects the connection, when the proxy has this process id. -/
def Redirectable (proxyPid : UInt64) (c : Connection) : Prop :=
  c.writeRight ∧ c.classifyContext ∧ c.protocol = 6 ∧ c.processId.getD 0 ≠ 0 ∧
    c.processId.getD 0 ≠ proxyPid ∧ c.classifyHandle ∧ c.writableLayerData ∧ c.poolMemory

/-- What an active driver writes into a connect request. -/
def redirectOf (config : WfpConfig) (c : Connection) : Redirect where
  remote := redirectedTo config c.remote
  localRedirectTargetPid := config.proxyPid.toUInt32
  localRedirectContext := redirectContext config 6 (c.processId.getD 0) c.remote

theorem DriverState.classify_fst (state : DriverState) (c : Connection) :
    (state.classify c).1.config = state.config ∧ (state.classify c).1.active = state.active := by
  dsimp only [classify]
  split_ifs <;> exact ⟨rfl, rfl⟩

/-- A classification redirects or leaves the request alone. -/
theorem DriverState.classify_snd (state : DriverState) (c : Connection) :
    (state.classify c).2 = some (redirectOf state.config c) ∧ state.active = true ∧
        Redirectable state.config.proxyPid c ∨
      (state.classify c).2 = none ∧
        ¬ (state.active = true ∧ Redirectable state.config.proxyPid c) := by
  by_cases h : state.active = true ∧ Redirectable state.config.proxyPid c
  · refine .inl ⟨?_, h⟩
    obtain ⟨hactive, hwrite, hcontext, htcp, hpid, hproxy, hhandle, hlayer, hpool⟩ := h
    simp [classify, redirectOf, *]
  · refine .inr ⟨?_, h⟩
    dsimp only [classify]
    split_ifs with hwrite hguard hpid hhandle hlayer hpool <;> first | rfl | skip
    push Not at hguard hpid
    exact absurd ⟨hguard.1, hwrite, hguard.2.1, hguard.2.2, hpid.1, hpid.2, hhandle, hlayer,
      hpool⟩ h

/-- User space and the driver agree on every record.  The driver takes each configuration
that user space builds and stores its fields.  Its status, and the context of a connection
that it redirects, read back as what the driver has. -/
theorem records_agree (state : DriverState) :
    (∀ (pid : UInt32) (port : UInt16) (generation : UInt32) (nonce : UInt64) (config :
      TransparentConfig), TransparentConfig.new pid.toUInt64 port generation nonce = .ok config →
      ∃ stored : WfpConfig, state.configure config.encode =
          (.success, { state with config := stored, active := true }) ∧
        stored.proxyPid = pid.toUInt64 ∧ stored.listenPort = port ∧
        stored.generation = generation ∧ stored.sessionNonce = nonce) ∧
    TransparentDriverStatus.decode state.status = .ok ⟨state.active,
      state.config.generation.toUInt64, state.redirectedConnections, state.redirectErrors⟩ ∧
    ∀ c r, (state.classify c).2 = some r → ∃ context,
      RedirectContext.decode r.localRedirectContext = .ok context ∧
        context.destination.ip = c.remote.ip ∧ context.destination.port = c.remote.port ∧
        some context.processId = c.processId ∧
        context.generation = state.config.generation.toUInt64 := by
  refine ⟨fun pid port generation nonce config h => ?_,
    TransparentDriverStatus.decode_status state, fun c r h => ?_⟩
  · obtain ⟨hconfig, htaken⟩ := configure_new state h
    exact ⟨config.stored, htaken, by rw [hconfig]; exact ⟨rfl, rfl, rfl, rfl⟩⟩
  · obtain ⟨hsome, -, hr⟩ | ⟨hnone, -⟩ := state.classify_snd c
    · obtain rfl := Option.some.inj (hsome.symm.trans h)
      refine ⟨_, RedirectContext.decode_redirectContext .., Net.SocketAddr.ip_new ..,
        Net.SocketAddr.port_new .., ?_, rfl⟩
      cases hpid : c.processId with
      | none => exact absurd (by rw [hpid]; rfl) hr.2.2.2.1
      | some processId => rfl
    · rw [hnone] at h
      cases h

/-! ## Where a redirected connection lands -/

/-- Binding a listener keeps the address, and the port unless it is 0. -/
structure Binds (listen bound : Net.SocketAddr) : Prop where
  ip : bound.ip = listen.ip
  port : listen.port ≠ 0 → bound.port = listen.port

/-- The scope of an address, 0 without one. -/
def scopeOf : Net.SocketAddr → UInt32
  | .v4 _ _ => 0
  | .v6 _ _ _ scopeId => scopeId

/-- The connection is left alone, or it is of another process than the proxy, goes to the
bound address and its context decodes to the destination it had. -/
def Lands (bound : Net.SocketAddr) (proxyPid : UInt64) (c : Connection)
    (redirect : Option Redirect) : Prop :=
  ∀ r, redirect = some r → c.processId ≠ some proxyPid ∧
    r.remote.ip = bound.ip ∧ r.remote.port = bound.port ∧
    ∃ context, RedirectContext.decode r.localRedirectContext = .ok context ∧
      context.destination.ip = c.remote.ip ∧ context.destination.port = c.remote.port ∧
      scopeOf context.destination = scopeOf c.remote

/-- A listener that the driver's fixed loopback addresses reach from this destination: one
on `127.0.0.1` from IPv4, and any IPv6 one from an IPv6 address without a scope. -/
def Reached : Net.SocketAddr → Net.SocketAddr → Prop
  | .v4 ip _, .v4 _ _ => ip = .localhost
  | .v6 _ _ _ _, .v6 _ _ _ scopeId => scopeId = 0
  | _, _ => False

/-- The loopback address of the family is the listener's exactly if it is reached. -/
theorem reached_iff {listen remote : Net.SocketAddr} (config : WfpConfig)
    (h : listen.ip.isLoopback = true) :
    (redirectedTo config remote).ip = listen.ip ∧
        scopeOf (.new remote.ip remote.port) = scopeOf remote ↔
      Reached listen remote := by
  cases listen with
  | v4 ip port =>
    cases remote with
    | v4 ip' port' =>
        simp [redirectedTo, Net.SocketAddr.ip, Reached, Net.SocketAddr.new, scopeOf, eq_comm]
    | v6 ip' port' flowinfo scopeId => simp [redirectedTo, Net.SocketAddr.ip, Reached]
  | v6 ip port flowinfo scopeId =>
    obtain rfl : ip = .localhost := by
      simpa [Net.SocketAddr.ip, Net.IpAddr.isLoopback, Net.Ipv6Addr.isLoopback] using h
    cases remote with
    | v4 ip' port' => simp [redirectedTo, Net.SocketAddr.ip, Reached]
    | v6 ip' port' flowinfo' scopeId' =>
      simp [redirectedTo, Net.SocketAddr.ip, Reached, Net.SocketAddr.new, scopeOf, eq_comm]

section

variable {defaultPluginDir : String} {layers : Layers} {config : ResolvedConfig}
  {bound : Net.SocketAddr} {pid : UInt32} {nonce : UInt64} {native : TransparentConfig}

/-- In transparent mode every classification lands as it should exactly if the connection
is not redirected or its family and scope fit the listener. -/
theorem lands_iff_reached (hresolve : ResolvedConfig.resolve defaultPluginDir layers = .ok config)
    (hmode : config.mode = .transparent) (hbound : Binds config.listenAddr bound)
    (hnative : TransparentConfig.new pid.toUInt64 bound.port 1 nonce = .ok native)
    (state : DriverState) (c : Connection) :
    Lands bound pid.toUInt64 c ((activate state native).2.classify c).2 ↔
      (Redirectable pid.toUInt64 c → Reached config.listenAddr c.remote) := by
  obtain ⟨hconfig, hactive⟩ := activate_new state hnative
  have hloop := (ResolvedConfig.resolves hresolve).loopback hmode
  have hpid : native.stored.proxyPid = pid.toUInt64 := by rw [hconfig]; rfl
  have hport : native.stored.listenPort = bound.port := by rw [hconfig]; rfl
  rw [hactive, ← hpid]
  obtain ⟨hsome, -, hr⟩ | ⟨hnone, hr⟩ := DriverState.classify_snd
    { state with config := native.stored, active := true } c
  · have hto : (redirectedTo native.stored c.remote).port = bound.port := by
      cases c.remote <;> exact hport
    have hne : c.processId ≠ some native.stored.proxyPid := by
      intro h
      exact hr.2.2.2.2.1 (by rw [h]; rfl)
    rw [hsome, ← reached_iff native.stored hloop, ← hbound.ip]
    simp only [Lands, Option.some.injEq, forall_eq', redirectOf, hto,
      RedirectContext.decode_redirectContext, Except.ok.injEq, exists_eq_left',
      Net.SocketAddr.ip_new, Net.SocketAddr.port_new, true_and]
    exact ⟨fun h _ => h.2, fun h => ⟨hne, h hr⟩⟩
  · rw [hnone]
    exact ⟨fun _ h => absurd ⟨rfl, h⟩ hr, fun _ r h => nomatch h⟩

end

/-- A connection whose calls all succeed. -/
def connection (remote : Net.SocketAddr) : Connection where
  writeRight := true
  classifyContext := true
  protocol := 6
  processId := some 7
  remote
  classifyHandle := true
  writableLayerData := true
  poolMemory := true

/-- Transparent mode on the default listener, `127.0.0.1:8888`. -/
def transparentLayers : Layers :=
  { env := none, file := none, flags := some { mode := some .transparent } }

theorem resolve_transparentLayers :
    ∃ config, ResolvedConfig.resolve "" transparentLayers = .ok config ∧
      config.mode = .transparent ∧ config.listenAddr = .v4 .localhost 8888 := by
  have h : (ResolvedConfig.resolve "" transparentLayers).toOption.any (fun config =>
      config.mode = .transparent ∧ config.listenAddr = .v4 .localhost 8888) = true := by
    decide +kernel
  cases hresolve : ResolvedConfig.resolve "" transparentLayers with
  | error error =>
    rw [hresolve] at h
    cases h
  | ok config =>
    rw [hresolve] at h
    exact ⟨config, rfl, of_decide_eq_true h⟩

/-- An IPv4 connection lands on the default listener. -/
theorem lands_default :
    Lands (.v4 .localhost 8888) (4242 : UInt32).toUInt64 (connection (.v4 ⟨[10, 0, 0, 1], rfl⟩ 80))
      ((activate .initial ⟨4242, 8888, 1, 5⟩).2.classify
        (connection (.v4 ⟨[10, 0, 0, 1], rfl⟩ 80))).2 := by
  obtain ⟨config, hresolve, hmode, hlisten⟩ := resolve_transparentLayers
  have hbound : Binds config.listenAddr (.v4 .localhost 8888) := by
    rw [hlisten]
    exact ⟨rfl, fun _ => rfl⟩
  have hnative : TransparentConfig.new (4242 : UInt32).toUInt64 8888 1 5 =
      .ok ⟨4242, 8888, 1, 5⟩ := rfl
  refine (lands_iff_reached hresolve hmode hbound hnative .initial _).mpr fun _ => ?_
  rw [hlisten]
  rfl

/-- An IPv6 connection goes to `[::1]:8888`, where the default configuration does not
listen. -/
theorem default_not_reached :
    (∃ config, ResolvedConfig.resolve "" transparentLayers = .ok config ∧
      config.mode = .transparent ∧ config.listenAddr = .v4 .localhost 8888) ∧
    ¬ Lands (.v4 .localhost 8888) 4242 (connection (.v6 .localhost 80 0 0))
      ((activate .initial ⟨4242, 8888, 1, 5⟩).2.classify
        (connection (.v6 .localhost 80 0 0))).2 := by
  refine ⟨resolve_transparentLayers, fun h => ?_⟩
  obtain ⟨-, hip, -⟩ := h _ rfl
  cases hip

/-! ## Sessions -/

/-- `transparent_nonce` at a time in seconds and nanoseconds. -/
def transparentNonce (secs : UInt64) (nanos pid : UInt32) : UInt64 :=
  max (secs ^^^ nanos.toUInt64 ^^^ pid.toUInt64) 1

/-- What happens to the machine: a Lens run starts a session, the session is dropped, its
process dies, or a connection is made. -/
inductive Event where
  | start (pid : UInt32) (listenPort : UInt16) (secs : UInt64) (nanos : UInt32)
  | stop
  | crash
  | connect (c : Connection)
deriving DecidableEq, Repr

/-- The driver, whether the filters of a session are installed, the sessions so far and the
contexts attached to connections, each with the number of the session whose configuration
was active. -/
structure System where
  driver : DriverState
  filters : Bool
  sessions : List TransparentConfig
  attached : List (Nat × Bytes)

def System.initial : System := ⟨.initial, false, [], []⟩

/-- One event.  The filters are dynamic and go with the process, but a crash does not
disable the driver.  A second run finds the provider installed, fails, and disables the
driver when its session is dropped. -/
def System.step (s : System) : Event → System
  | .start pid listenPort secs nanos =>
    match TransparentConfig.new pid.toUInt64 listenPort 1 (transparentNonce secs nanos pid) with
    | .error _ => s
    | .ok config =>
      if s.filters then { s with driver := s.driver.disable }
      else
        match activate s.driver config with
        | (.ok (), driver) =>
          { s with driver, filters := true, sessions := s.sessions ++ [config] }
        | (.error _, driver) => { s with driver }
  | .stop => if s.filters then { s with driver := s.driver.disable, filters := false } else s
  | .crash => { s with filters := false }
  | .connect c =>
    if s.filters then
      match s.driver.classify c with
      | (driver, some r) =>
        { s with
          driver, attached := s.attached ++ [(s.sessions.length - 1, r.localRedirectContext)] }
      | (driver, none) => { s with driver }
    else s

def System.run (s : System) (events : List Event) : System := events.foldl step s

/-- Every session has generation 1, an active driver has the configuration of the last one,
and an attached context is of generation 1. -/
structure System.Ok (s : System) : Prop where
  sessions : ∀ config ∈ s.sessions, config.generation = 1
  driver : s.driver.active = true →
    ∃ config, s.sessions.getLast? = some config ∧ s.driver.config = config.stored
  attached : ∀ entry ∈ s.attached, entry.1 < s.sessions.length ∧
    ∃ stored processId remote, stored.generation = 1 ∧
      entry.2 = redirectContext stored 6 processId remote

variable {s : System}

theorem System.Ok.disable (h : s.Ok) (filters : Bool) :
    { s with driver := s.driver.disable, filters }.Ok :=
  ⟨h.sessions, fun hactive => (Bool.false_ne_true hactive).elim, h.attached⟩

theorem System.Ok.step {s : System} (h : s.Ok) (event : Event) : (s.step event).Ok := by
  cases event with
  | start pid listenPort secs nanos =>
    simp only [System.step]
    split
    · exact h
    · next config hnew =>
      obtain ⟨rfl, hactivate⟩ := activate_new s.driver hnew
      split
      · exact h.disable s.filters
      · rw [hactivate]
        refine ⟨?_, fun _ => ⟨_, getLast?_concat, rfl⟩, fun entry hentry => ?_⟩
        · intro config hconfig
          obtain hold | rfl := mem_append.mp hconfig |>.imp_right mem_singleton.mp
          · exact h.sessions config hold
          · rfl
        · obtain ⟨hlt, hrecord⟩ := h.attached entry hentry
          exact ⟨by simp only [length_append]; omega, hrecord⟩
  | stop =>
    simp only [System.step]
    split
    · exact h.disable false
    · exact h
  | crash => exact ⟨h.sessions, h.driver, h.attached⟩
  | connect c =>
    simp only [System.step]
    split
    · have hfst := s.driver.classify_fst c
      have hsnd := s.driver.classify_snd c
      generalize s.driver.classify c = result at hfst hsnd ⊢
      obtain ⟨driver, redirect⟩ := result
      have hdriver : driver.active = true → ∃ config,
          s.sessions.getLast? = some config ∧ driver.config = config.stored := by
        exact fun hon => hfst.1 ▸ h.driver (hfst.2 ▸ hon)
      obtain ⟨rfl, hon, -⟩ | ⟨rfl, -⟩ := hsnd
      · refine ⟨h.sessions, hdriver, fun entry hentry => ?_⟩
        obtain hold | rfl := mem_append.mp hentry |>.imp_right mem_singleton.mp
        · exact h.attached entry hold
        · obtain ⟨config, hlast, hstored⟩ := h.driver hon
          have hmem := mem_of_getLast? hlast
          refine ⟨Nat.sub_lt (length_pos_of_mem hmem) Nat.one_pos, s.driver.config,
            c.processId.getD 0, c.remote, ?_, rfl⟩
          rw [hstored]
          exact h.sessions config hmem
      · exact ⟨h.sessions, hdriver, h.attached⟩
    · exact h

theorem System.Ok.run (h : s.Ok) (events : List Event) : (s.run events).Ok := by
  induction events generalizing s with
  | nil => exact h
  | cons event events ih => exact ih (h.step event)

theorem System.ok_initial : System.initial.Ok :=
  ⟨fun _ h => (not_mem_nil h).elim, fun h => (Bool.false_ne_true h).elim,
    fun _ h => (not_mem_nil h).elim⟩

/-- That a session refuses a context of another is true of no two sessions of a run: the
lookup of every session takes it. -/
theorem refused_iff_same (events : List Event) {i j : Nat} {record : Bytes}
    {config : TransparentConfig} (hattached : (i, record) ∈ (System.initial.run events).attached)
    (hsession : (System.initial.run events).sessions[j]? = some config) :
    (j ≠ i → ∃ error, targetLookup config.generation.toUInt64 record = .error error) ↔ j = i := by
  have hok := System.ok_initial.run events
  obtain ⟨-, stored, processId, remote, hstored, rfl⟩ := hok.attached _ hattached
  have htaken := targetLookup_redirectContext
    (hstored.trans (hok.sessions config (mem_of_getElem? hsession)).symm) processId remote
  refine ⟨fun h => not_not.mp fun hne => ?_, fun h hne => absurd h hne⟩
  obtain ⟨error, herror⟩ := h hne
  rw [htaken] at herror
  cases herror

/-- Two sessions, with a connection redirected during the first. -/
def twoSessions : List Event :=
  [.start 100 8888 1 0, .connect (connection (.v4 ⟨[10, 0, 0, 1], rfl⟩ 80)), .stop,
    .start 200 8888 2 0]

/-- The first session takes its own context. -/
theorem refused_twoSessions :
    ((0 : Nat) ≠ 0 → ∃ error, targetLookup 1 (redirectContext ⟨1, 32, 1, 100, 8888, 0, 1, 101⟩ 6 7
      (.v4 ⟨[10, 0, 0, 1], rfl⟩ 80)) = .error error) ↔ (0 : Nat) = 0 :=
  @refused_iff_same twoSessions 0 0 _ ⟨100, 8888, 1, 101⟩ (by decide +kernel) (by decide +kernel)

/-- The second session takes the context of the first, whose nonce is another. -/
theorem stale_context_taken :
    ∃ record, (0, record) ∈ (System.initial.run twoSessions).attached ∧
      (System.initial.run twoSessions).sessions = [⟨100, 8888, 1, 101⟩, ⟨200, 8888, 1, 202⟩] ∧
      targetLookup 1 record = .ok { host := "10.0.0.1", port := 80 } :=
  ⟨redirectContext ⟨1, 32, 1, 100, 8888, 0, 1, 101⟩ 6 7 (.v4 ⟨[10, 0, 0, 1], rfl⟩ 80),
    by decide +kernel⟩

end Lens.Platform
