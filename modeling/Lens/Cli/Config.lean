import Lens.Text.Addr
import Lens.Store.Actor

/-!
# Configuration

The settings of `lens-cli` come from three layers, the command line, the environment and a
configuration file.  Each layer is read into a `ConfigValues`, where a setting the layer does
not give is `none`, and `resolve` takes each setting from the first layer that has it.

Paths are texts.  The plugin directory of the platform is an argument of `resolve`.
-/

namespace Lens.Cli

/-! ## Errors -/

/-- What reading and resolving a configuration can fail with. -/
inductive CliError where
  | invalidValue (name value expected : String)
deriving DecidableEq, Repr

/-! ## Values -/

inductive TrafficProtocol where
  | http
  | http2
  | grpc
  | tcp
  | postgres
  | redis
deriving DecidableEq, Repr

/-- A protocol as text. -/
def TrafficProtocol.text : TrafficProtocol → String
  | .http => "http"
  | .http2 => "http2"
  | .grpc => "grpc"
  | .tcp => "tcp"
  | .postgres => "postgres"
  | .redis => "redis"

def TrafficProtocol.parse (value : String) : Except CliError TrafficProtocol :=
  match value with
  | "http" => .ok .http
  | "http2" | "h2" => .ok .http2
  | "grpc" => .ok .grpc
  | "tcp" => .ok .tcp
  | "postgres" | "postgresql" => .ok .postgres
  | "redis" => .ok .redis
  | _ => .error (.invalidValue "--protocol" value "http, http2, grpc, tcp, postgres, or redis")

inductive ProxyMode where
  | explicit
  | transparent
deriving DecidableEq, Repr

def ProxyMode.parse (value : String) : Except CliError ProxyMode :=
  match value with
  | "explicit" => .ok .explicit
  | "transparent" => .ok .transparent
  | _ => .error (.invalidValue "--mode" value "explicit or transparent")

inductive HttpsMode where
  | intercept
  | passthrough
  | reject
deriving DecidableEq, Repr

def parseHttpsMode (value : String) : Except CliError HttpsMode :=
  match value with
  | "intercept" => .ok .intercept
  | "passthrough" => .ok .passthrough
  | "reject" => .ok .reject
  | _ => .error (.invalidValue "--https" value "intercept, passthrough, or reject")

inductive ExportFormat where
  | json
  | jsonl
deriving DecidableEq, Repr

def ExportFormat.parse (value : String) : Except CliError ExportFormat :=
  match value with
  | "json" => .ok .json
  | "jsonl" => .ok .jsonl
  | _ => .error (.invalidValue "--export-format" value "json or jsonl")

def parseBool (value : String) : Except CliError Bool :=
  match value with
  | "true" | "1" | "yes" | "on" => .ok true
  | "false" | "0" | "no" | "off" => .ok false
  | _ => .error (.invalidValue "boolean" value "true, false, 1, 0, yes, no, on, or off")

def parsePositiveUsize (name value : String) : Except CliError Nat :=
  match Str.parseUsize value with
  | none => .error (.invalidValue name value "a positive integer")
  | some 0 => .error (.invalidValue name value "a positive integer")
  | some n => .ok n

/-- Before and after the last character that is `sep`. -/
def rsplitOnce (sep : Char) (s : String) : Option (String × String) :=
  (Str.splitOnceList sep s.toList.reverse).map fun (r, l) =>
    (String.ofList l.reverse, String.ofList r.reverse)

/-- Before and after the first occurrence of a text. -/
def splitOnceText (sep s : String) : Option (String × String) :=
  (Search.find sep.toList s.toList).map fun i =>
    (String.ofList (s.toList.take i), String.ofList (s.toList.drop (i + sep.length)))

def parseEndpoint (value : String) : Except CliError Endpoint :=
  let invalid := CliError.invalidValue "--upstream" value
    "host:port, for example db.example.com:5432"
  let bracketed := Str.startsWith value "["
  let parts :=
    if bracketed then splitOnceText "]:" (String.ofList (value.toList.drop 1))
    else rsplitOnce ':' value
  match parts with
  | none => .error invalid
  | some (host, port) =>
    match Str.parseU16 port with
    | none => .error invalid
    | some port =>
      if host = "" || host.toList.any Str.isWhitespace || host.toList.contains '/'
          || (host.toList.contains ':' && !bracketed) then
        .error invalid
      else .ok ⟨host, port⟩

def validateServiceLabel (value : String) : Except CliError String :=
  let value := Str.trim value
  if value = "" || 128 < value.length || value.toList.any Store.isControl then
    .error (.invalidValue "--service" value
      "a non-empty label of at most 128 printable characters")
  else .ok value

/-! ## Layers -/

/-- What one layer says.  The field `exportPath` is the source's `export`. -/
structure ConfigValues where
  listen : Option String := none
  upstream : Option String := none
  service : Option String := none
  protocol : Option TrafficProtocol := none
  mode : Option ProxyMode := none
  httpsMode : Option HttpsMode := none
  reveal : Option Bool := none
  maxFlows : Option Nat := none
  maxBody : Option Nat := none
  headless : Option Bool := none
  refreshMs : Option Nat := none
  exportPath : Option String := none
  exportFormat : Option ExportFormat := none
  allowSecretExport : Option Bool := none
  enablePlugins : Option Bool := none
  pluginDir : Option String := none
  ebpfCgroup : Option String := none
deriving DecidableEq, Repr

/-- The environment as a layer.  A value that does not parse is dropped. -/
def ConfigValues.fromEnv (env : String → Option String) : ConfigValues where
  listen := env "LENS_LISTEN"
  upstream := env "LENS_UPSTREAM"
  service := env "LENS_SERVICE"
  protocol := (env "LENS_PROTOCOL").bind fun value => (TrafficProtocol.parse value).toOption
  mode := (env "LENS_MODE").bind fun value => (ProxyMode.parse value).toOption
  httpsMode := (env "LENS_HTTPS").bind fun value => (parseHttpsMode value).toOption
  reveal := (env "LENS_REVEAL").bind fun value => (parseBool value).toOption
  maxFlows := (env "LENS_MAX_FLOWS").bind fun value =>
    (parsePositiveUsize "LENS_MAX_FLOWS" value).toOption
  maxBody := (env "LENS_MAX_BODY").bind fun value =>
    (parsePositiveUsize "LENS_MAX_BODY" value).toOption
  headless := (env "LENS_HEADLESS").bind fun value => (parseBool value).toOption
  refreshMs := (env "LENS_REFRESH_MS").bind fun value =>
    (parsePositiveUsize "LENS_REFRESH_MS" value).toOption
  exportPath := env "LENS_EXPORT"
  exportFormat := (env "LENS_EXPORT_FORMAT").bind fun value => (ExportFormat.parse value).toOption
  allowSecretExport := (env "LENS_ALLOW_SECRET_EXPORT").bind fun value =>
    (parseBool value).toOption
  enablePlugins := (env "LENS_ENABLE_PLUGINS").bind fun value => (parseBool value).toOption
  pluginDir := env "LENS_PLUGIN_DIR"
  ebpfCgroup := env "LENS_EBPF_CGROUP"

/-- One line of a configuration file.  A value that does not parse takes the setting away
again. -/
def ConfigValues.assign (values : ConfigValues) (key value : String) : ConfigValues :=
  match key with
  | "listen" => { values with listen := some value }
  | "upstream" => { values with upstream := some value }
  | "service" => { values with service := some value }
  | "protocol" => { values with protocol := (TrafficProtocol.parse value).toOption }
  | "mode" => { values with mode := (ProxyMode.parse value).toOption }
  | "https" => { values with httpsMode := (parseHttpsMode value).toOption }
  | "reveal" => { values with reveal := (parseBool value).toOption }
  | "max_flows" => { values with maxFlows := (parsePositiveUsize key value).toOption }
  | "max_body" => { values with maxBody := (parsePositiveUsize key value).toOption }
  | "headless" => { values with headless := (parseBool value).toOption }
  | "refresh_ms" => { values with refreshMs := (parsePositiveUsize key value).toOption }
  | "export" => { values with exportPath := some value }
  | "export_format" => { values with exportFormat := (ExportFormat.parse value).toOption }
  | "allow_secret_export" => { values with allowSecretExport := (parseBool value).toOption }
  | "enable_plugins" => { values with enablePlugins := (parseBool value).toOption }
  | "plugin_dir" => { values with pluginDir := some value }
  | "ebpf_cgroup" => { values with ebpfCgroup := some value }
  | _ => values

/-- `str::trim_matches` with one character. -/
def trimMatches (c : Char) (s : String) : String :=
  String.ofList ((s.toList.dropWhile (· == c)).reverse.dropWhile (· == c)).reverse

/-- The key and the value of a line that has both. -/
def parseConfigLine (rawLine : String) : Option (String × String) :=
  let line := Str.trim ((Str.split '#' rawLine).headD "")
  if line = "" then none
  else (Str.splitOnce '=' line).map fun (key, value) =>
    (Str.trim key, trimMatches '"' (Str.trim value))

/-- The lines of a configuration file that give a setting, first to last. -/
def configEntries (contents : String) : Headers :=
  (Str.lines contents).filterMap parseConfigLine

/-- A configuration file as a layer. -/
def parseConfigFile (contents : String) : ConfigValues :=
  (configEntries contents).foldl (fun values (key, value) => values.assign key value) {}

/-- The three layers.  A file is there only if the command line names one. -/
structure Layers where
  file : Option ConfigValues
  env : Option ConfigValues
  flags : Option ConfigValues

section Pick

variable {α : Type}

/-- A setting from the first layer that has it. -/
def Layers.first (layers : Layers) (get : ConfigValues → Option α) : Option α :=
  ((layers.flags.bind get).or (layers.env.bind get)).or (layers.file.bind get)

/-- A setting from the first layer that has it, or its default. -/
def Layers.pick (layers : Layers) (get : ConfigValues → Option α) (default : α) : α :=
  (layers.first get).getD default

end Pick

/-! ## Resolution -/

def defaultListen : String := "127.0.0.1:8888"
def defaultMode : ProxyMode := .explicit
def defaultMaxFlows : Nat := 10000
def defaultMaxBody : Nat := 262144
def defaultHttpsMode : HttpsMode := .intercept
def defaultRefreshMs : Nat := 250
def defaultExportFormat : ExportFormat := .jsonl

structure ResolvedConfig where
  listen : String
  listenAddr : Net.SocketAddr
  upstream : Option String
  upstreamEndpoint : Option Endpoint
  service : Option String
  protocol : TrafficProtocol
  mode : ProxyMode
  httpsMode : HttpsMode
  reveal : Bool
  maxFlows : Nat
  maxBody : Nat
  headless : Bool
  refreshMs : Nat
  exportPath : Option String
  exportFormat : ExportFormat
  enablePlugins : Bool
  pluginDir : String
  ebpfCgroup : Option String
deriving DecidableEq, Repr

/-- `--listen` as an address. -/
def parseListen (listen : String) : Except CliError Net.SocketAddr :=
  match Net.parseSocketAddr listen with
  | some addr => .ok addr
  | none => .error (.invalidValue "--listen" listen "addr:port, for example 127.0.0.1:8888")

/-- Transparent mode listens on a loopback address. -/
def checkListen (mode : ProxyMode) (listen : String) (addr : Net.SocketAddr) :
    Except CliError Unit :=
  if mode = .transparent ∧ ¬ addr.ip.isLoopback then
    .error (.invalidValue "--listen" listen "a loopback address for transparent mode")
  else .ok ()

/-- An upstream is given exactly for the protocols with a fixed target. -/
def checkUpstream (mode : ProxyMode) (protocol : TrafficProtocol) (upstream : Option String)
    (fixed : Bool) : Except CliError Unit :=
  match mode, protocol, fixed with
  | .transparent, _, true =>
    .error (.invalidValue "--upstream" (upstream.getD "")
      "no fixed upstream in transparent mode")
  | .explicit, .http, true =>
    .error (.invalidValue "--upstream" (upstream.getD "")
      "no fixed upstream when --protocol http is selected")
  | .explicit, .http, false => .ok ()
  | .explicit, _, false =>
    .error (.invalidValue "--protocol" protocol.text
      "--upstream host:port for fixed-target protocols")
  | _, _, _ => .ok ()

/-- Revealed content is exported only with a second opt-in. -/
def checkExport (reveal : Bool) (exportPath : Option String) (allowSecretExport : Bool) :
    Except CliError Unit :=
  if reveal && exportPath.isSome && !allowSecretExport then
    .error (.invalidValue "--export" (exportPath.getD "")
      "--allow-secret-export when --reveal is active")
  else .ok ()

/-- The protocol when no layer names one. -/
def defaultProtocol (fixed : Bool) : TrafficProtocol := if fixed then .tcp else .http

/-- `clamp(50, 2_000)`. -/
def clampRefresh (ms : Nat) : Nat := min (max ms 50) 2000

/-- Every setting from its first layer, checked in the order of the source. -/
def ResolvedConfig.resolve (defaultPluginDir : String) (layers : Layers) :
    Except CliError ResolvedConfig := do
  let listen := layers.pick (·.listen) defaultListen
  let listenAddr ← parseListen listen
  let upstream := layers.first (·.upstream)
  let upstreamEndpoint ← upstream.mapM parseEndpoint
  let service ← (layers.first (·.service)).mapM validateServiceLabel
  let protocol := layers.pick (·.protocol) (defaultProtocol upstreamEndpoint.isSome)
  let mode := layers.pick (·.mode) defaultMode
  checkListen mode listen listenAddr
  checkUpstream mode protocol upstream upstreamEndpoint.isSome
  let reveal := layers.pick (·.reveal) false
  let exportPath := layers.first (·.exportPath)
  checkExport reveal exportPath (layers.pick (·.allowSecretExport) false)
  return {
    listen, listenAddr, upstream, upstreamEndpoint, service, protocol, mode
    httpsMode := layers.pick (·.httpsMode) defaultHttpsMode
    reveal
    maxFlows := layers.pick (·.maxFlows) defaultMaxFlows
    maxBody := layers.pick (·.maxBody) defaultMaxBody
    headless := layers.pick (·.headless) false
    refreshMs := clampRefresh (layers.pick (·.refreshMs) defaultRefreshMs)
    exportPath
    exportFormat := layers.pick (·.exportFormat) defaultExportFormat
    enablePlugins := layers.pick (·.enablePlugins) false
    pluginDir := layers.pick (·.pluginDir) defaultPluginDir
    ebpfCgroup := layers.first (·.ebpfCgroup) }

/-- What resolution accepts, and what it makes of it. -/
structure Resolves (defaultPluginDir : String) (layers : Layers) (config : ResolvedConfig) :
    Prop where
  listen : config.listen = layers.pick (·.listen) defaultListen
  listenAddr : Net.parseSocketAddr config.listen = some config.listenAddr
  upstream : config.upstream = layers.first (·.upstream)
  service : (layers.first (·.service)).mapM validateServiceLabel = .ok config.service
  endpoint : config.upstream.mapM parseEndpoint = .ok config.upstreamEndpoint
  protocol : config.protocol =
    layers.pick (·.protocol) (defaultProtocol config.upstreamEndpoint.isSome)
  mode : config.mode = layers.pick (·.mode) defaultMode
  httpsMode : config.httpsMode = layers.pick (·.httpsMode) defaultHttpsMode
  reveal : config.reveal = layers.pick (·.reveal) false
  maxFlows : config.maxFlows = layers.pick (·.maxFlows) defaultMaxFlows
  maxBody : config.maxBody = layers.pick (·.maxBody) defaultMaxBody
  headless : config.headless = layers.pick (·.headless) false
  refreshMs : config.refreshMs = clampRefresh (layers.pick (·.refreshMs) defaultRefreshMs)
  exportPath : config.exportPath = layers.first (·.exportPath)
  exportFormat : config.exportFormat = layers.pick (·.exportFormat) defaultExportFormat
  enablePlugins : config.enablePlugins = layers.pick (·.enablePlugins) false
  pluginDir : config.pluginDir = layers.pick (·.pluginDir) defaultPluginDir
  ebpfCgroup : config.ebpfCgroup = layers.first (·.ebpfCgroup)
  loopback : config.mode = .transparent → config.listenAddr.ip.isLoopback = true
  guarded : config.reveal = true → config.exportPath.isSome = true →
    layers.pick (·.allowSecretExport) false = true

variable {listen : String} {addr : Net.SocketAddr}

theorem parseListen_eq_ok (h : parseListen listen = .ok addr) :
    Net.parseSocketAddr listen = some addr := by
  unfold parseListen at h
  split at h
  · next hparse => exact hparse.trans (congrArg some (Except.ok.inj h))
  · cases h

theorem checkListen_eq_ok {mode : ProxyMode} (h : checkListen mode listen addr = .ok ()) :
    mode = .transparent → addr.ip.isLoopback = true := by
  intro hmode
  unfold checkListen at h
  split at h
  · cases h
  · next hok => exact not_not.mp fun hl => hok ⟨hmode, hl⟩

theorem checkExport_eq_ok {reveal allow : Bool} {exportPath : Option String}
    (h : checkExport reveal exportPath allow = .ok ()) :
    reveal = true → exportPath.isSome = true → allow = true := by
  intro hreveal hexport
  rw [checkExport, hreveal, hexport] at h
  cases allow
  · cases h
  · rfl

theorem ResolvedConfig.resolves {defaultPluginDir : String} {layers : Layers}
    {config : ResolvedConfig} (h : resolve defaultPluginDir layers = .ok config) :
    Resolves defaultPluginDir layers config := by
  simp only [resolve, bind_eq_ok, pure_eq_ok] at h
  obtain ⟨addr, haddr, endpoint, hendpoint, service, hservice, ⟨⟩, hlisten, -, -, ⟨⟩, hexport,
    hc⟩ := h
  obtain rfl := Except.ok.inj hc
  exact {
    listen := rfl, listenAddr := parseListen_eq_ok haddr, upstream := rfl
    endpoint := hendpoint, service := hservice
    protocol := rfl, mode := rfl, httpsMode := rfl, reveal := rfl, maxFlows := rfl
    maxBody := rfl, headless := rfl, refreshMs := rfl, exportPath := rfl, exportFormat := rfl
    enablePlugins := rfl, pluginDir := rfl, ebpfCgroup := rfl
    loopback := checkListen_eq_ok hlisten, guarded := checkExport_eq_ok hexport }

end Lens.Cli
