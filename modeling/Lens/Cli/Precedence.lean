import Lens.Cli.Config

/-!
# Which source decides

A setting is mentioned by the command line, by its environment variable and by lines of the
configuration file, and a mention may be a text that is no value.  The command line is refused
then.  The file forgets the setting, also what an earlier line said.  The environment forgets
it too, and then the file is asked, so a mistyped variable hands the decision to the file.
-/

namespace Lens.Cli

/-- The layers of a command line, an environment and the text of a file. -/
def layersOf (flags : ConfigValues) (env : String → Option String) (text : Option String) :
    Layers where
  file := text.map parseConfigFile
  env := some (ConfigValues.fromEnv env)
  flags := some flags

/-! ## Settings -/

/-- A setting: how the sources mention it, and what resolution makes of it. -/
structure Setting where
  Value : Type
  Effect : Type
  envName : String
  key : String
  parse : String → Option Value
  get : ConfigValues → Option Value
  /-- What resolution is to make of a value, or of none. -/
  effect : String → Layers → Option Value → Effect
  /-- What resolution made of the setting. -/
  resolved : Layers → ResolvedConfig → Effect

/-- A positive number.  The name of the setting is only for the message. -/
def positive (value : String) : Option Nat := (parsePositiveUsize "" value).toOption

theorem parsePositiveUsize_toOption (name value : String) :
    (parsePositiveUsize name value).toOption = positive value := by
  unfold positive parsePositiveUsize
  split <;> rfl

namespace Setting

@[simp] def listen : Setting :=
  ⟨String, String, "LENS_LISTEN", "listen", some, (·.listen),
    fun _ _ o => o.getD defaultListen, fun _ c => c.listen⟩

@[simp] def upstream : Setting :=
  ⟨String, Option String, "LENS_UPSTREAM", "upstream", some, (·.upstream),
    fun _ _ o => o, fun _ c => c.upstream⟩

@[simp] def service : Setting :=
  ⟨String, Except CliError (Option String), "LENS_SERVICE", "service", some, (·.service),
    fun _ _ o => o.mapM validateServiceLabel, fun _ c => .ok c.service⟩

@[simp] def protocol : Setting :=
  ⟨TrafficProtocol, TrafficProtocol, "LENS_PROTOCOL", "protocol",
    fun value => (TrafficProtocol.parse value).toOption, (·.protocol),
    fun _ layers o => o.getD (defaultProtocol (layers.first (·.upstream)).isSome),
    fun _ c => c.protocol⟩

@[simp] def mode : Setting :=
  ⟨ProxyMode, ProxyMode, "LENS_MODE", "mode", fun value => (ProxyMode.parse value).toOption,
    (·.mode), fun _ _ o => o.getD defaultMode, fun _ c => c.mode⟩

@[simp] def httpsMode : Setting :=
  ⟨HttpsMode, HttpsMode, "LENS_HTTPS", "https", fun value => (parseHttpsMode value).toOption,
    (·.httpsMode), fun _ _ o => o.getD defaultHttpsMode, fun _ c => c.httpsMode⟩

@[simp] def reveal : Setting :=
  ⟨Bool, Bool, "LENS_REVEAL", "reveal", fun value => (parseBool value).toOption, (·.reveal),
    fun _ _ o => o.getD false, fun _ c => c.reveal⟩

@[simp] def maxFlows : Setting :=
  ⟨Nat, Nat, "LENS_MAX_FLOWS", "max_flows", positive, (·.maxFlows),
    fun _ _ o => o.getD defaultMaxFlows, fun _ c => c.maxFlows⟩

@[simp] def maxBody : Setting :=
  ⟨Nat, Nat, "LENS_MAX_BODY", "max_body", positive, (·.maxBody),
    fun _ _ o => o.getD defaultMaxBody, fun _ c => c.maxBody⟩

@[simp] def headless : Setting :=
  ⟨Bool, Bool, "LENS_HEADLESS", "headless", fun value => (parseBool value).toOption,
    (·.headless), fun _ _ o => o.getD false, fun _ c => c.headless⟩

@[simp] def refreshMs : Setting :=
  ⟨Nat, Nat, "LENS_REFRESH_MS", "refresh_ms", positive, (·.refreshMs),
    fun _ _ o => clampRefresh (o.getD defaultRefreshMs), fun _ c => c.refreshMs⟩

@[simp] def exportPath : Setting :=
  ⟨String, Option String, "LENS_EXPORT", "export", some, (·.exportPath),
    fun _ _ o => o, fun _ c => c.exportPath⟩

@[simp] def exportFormat : Setting :=
  ⟨ExportFormat, ExportFormat, "LENS_EXPORT_FORMAT", "export_format",
    fun value => (ExportFormat.parse value).toOption, (·.exportFormat),
    fun _ _ o => o.getD defaultExportFormat, fun _ c => c.exportFormat⟩

/-- The second opt-in is used by the export check and is no field of the result. -/
@[simp] def allowSecretExport : Setting :=
  ⟨Bool, Bool, "LENS_ALLOW_SECRET_EXPORT", "allow_secret_export",
    fun value => (parseBool value).toOption, (·.allowSecretExport), fun _ _ o => o.getD false,
    fun layers _ => layers.pick (·.allowSecretExport) false⟩

@[simp] def enablePlugins : Setting :=
  ⟨Bool, Bool, "LENS_ENABLE_PLUGINS", "enable_plugins", fun value => (parseBool value).toOption,
    (·.enablePlugins), fun _ _ o => o.getD false, fun _ c => c.enablePlugins⟩

@[simp] def pluginDir : Setting :=
  ⟨String, String, "LENS_PLUGIN_DIR", "plugin_dir", some, (·.pluginDir),
    fun defaultPluginDir _ o => o.getD defaultPluginDir, fun _ c => c.pluginDir⟩

@[simp] def ebpfCgroup : Setting :=
  ⟨String, Option String, "LENS_EBPF_CGROUP", "ebpf_cgroup", some, (·.ebpfCgroup),
    fun _ _ o => o, fun _ c => c.ebpfCgroup⟩

/-- Every setting. -/
def all : List Setting :=
  [listen, upstream, service, protocol, mode, httpsMode, reveal, maxFlows, maxBody, headless,
    refreshMs, exportPath, exportFormat, allowSecretExport, enablePlugins, pluginDir, ebpfCgroup]

/-! ## Mentions -/

variable (s : Setting)

/-- The environment variable of the setting: `some none` is a text that is no value. -/
def inEnvironment (env : String → Option String) : Option (Option s.Value) :=
  (env s.envName).map s.parse

/-- What a line of the file says. -/
def inEntry (entry : String × String) : Option (Option s.Value) :=
  if entry.1 = s.key then some (s.parse entry.2) else none

/-- The last line that mentions the setting. -/
def inFile (text : Option String) : Option (Option s.Value) :=
  text.bind fun contents => (configEntries contents).reverse.findSome? s.inEntry

/-- The mention of the highest source that has one. -/
def top (flags : ConfigValues) (env : String → Option String) (text : Option String) :
    Option (Option s.Value) :=
  ((s.get flags).map some).or ((s.inEnvironment env).or (s.inFile text))

end Setting

/-! ## What each layer reads -/

/-- A line of the file changes the setting it names. -/
theorem ConfigValues.assign_eq (values : ConfigValues) (key value : String) :
    values.assign key value = {
      listen := if key = "listen" then some value else values.listen
      upstream := if key = "upstream" then some value else values.upstream
      service := if key = "service" then some value else values.service
      protocol :=
        if key = "protocol" then (TrafficProtocol.parse value).toOption else values.protocol
      mode := if key = "mode" then (ProxyMode.parse value).toOption else values.mode
      httpsMode := if key = "https" then (parseHttpsMode value).toOption else values.httpsMode
      reveal := if key = "reveal" then (parseBool value).toOption else values.reveal
      maxFlows := if key = "max_flows" then positive value else values.maxFlows
      maxBody := if key = "max_body" then positive value else values.maxBody
      headless := if key = "headless" then (parseBool value).toOption else values.headless
      refreshMs := if key = "refresh_ms" then positive value else values.refreshMs
      exportPath := if key = "export" then some value else values.exportPath
      exportFormat :=
        if key = "export_format" then (ExportFormat.parse value).toOption
        else values.exportFormat
      allowSecretExport :=
        if key = "allow_secret_export" then (parseBool value).toOption
        else values.allowSecretExport
      enablePlugins :=
        if key = "enable_plugins" then (parseBool value).toOption else values.enablePlugins
      pluginDir := if key = "plugin_dir" then some value else values.pluginDir
      ebpfCgroup := if key = "ebpf_cgroup" then some value else values.ebpfCgroup } := by
  unfold ConfigValues.assign
  split <;> simp_all [parsePositiveUsize_toOption]

variable {α : Type}

theorem getD_ite {c : Prop} [Decidable c] (a b : α) :
    (if c then some a else none).getD b = if c then a else b := by
  split <;> rfl

theorem join_eq_getD (o : Option (Option α)) : o.join = o.getD none := by
  cases o <;> rfl

/-- A fold where each element sets what it says leaves what the last one said. -/
theorem foldl_last {σ β γ : Type} (get : σ → γ) (said : β → Option γ) {f : σ → β → σ}
    (h : ∀ a b, get (f a b) = (said b).getD (get a)) (a : σ) (bs : List β) :
    get (bs.foldl f a) = (bs.reverse.findSome? said).getD (get a) := by
  induction bs generalizing a with
  | nil => rfl
  | cons b bs ih =>
    rw [List.foldl_cons, ih, h, List.reverse_cons, List.findSome?_append]
    cases bs.reverse.findSome? said <;> cases hb : said b <;> simp [hb]

theorem isSome_mapM {β : Type} {f : α → Except CliError β} {o : Option α} {o' : Option β}
    (h : o.mapM f = .ok o') : o'.isSome = o.isSome := by
  cases o with
  | none => cases h; rfl
  | some a =>
    obtain ⟨b, -, hb⟩ := bind_eq_ok.mp h
    cases hb; rfl

namespace Setting

variable {s : Setting}

theorem get_start : ∀ s ∈ all, s.get {} = none := by
  simp [all]

theorem get_fromEnv (env : String → Option String) :
    ∀ s ∈ all, s.get (.fromEnv env) = (s.inEnvironment env).join := by
  have hjoin : ∀ s : Setting, (s.inEnvironment env).join = (env s.envName).bind s.parse := by
    intro s
    rw [inEnvironment]
    cases env s.envName <;> rfl
  simp [all, hjoin, ConfigValues.fromEnv, parsePositiveUsize_toOption]

theorem get_assign (values : ConfigValues) (key value : String) :
    ∀ s ∈ all, s.get (values.assign key value) =
      (s.inEntry (key, value)).getD (s.get values) := by
  simp [all, inEntry, ConfigValues.assign_eq, getD_ite]

theorem get_file (hs : s ∈ all) (text : Option String) :
    (text.map parseConfigFile).bind s.get = (s.inFile text).join := by
  cases text with
  | none => rfl
  | some contents =>
    have hlast := foldl_last s.get s.inEntry
      (fun values entry => get_assign values entry.1 entry.2 s hs) {} (configEntries contents)
    rw [get_start s hs] at hlast
    exact hlast.trans (join_eq_getD _).symm

/-- Resolution makes of a setting what its first layer says. -/
theorem resolved_eq {defaultPluginDir : String} {layers : Layers} {config : ResolvedConfig}
    (h : Resolves defaultPluginDir layers config) :
    ∀ s ∈ all, s.resolved layers config =
      s.effect defaultPluginDir layers (layers.first s.get) := by
  have hfixed := isSome_mapM h.endpoint
  rw [h.upstream] at hfixed
  simp [all, Layers.pick, h.listen, h.upstream, h.service, h.protocol, h.mode, h.httpsMode,
    h.reveal, h.maxFlows, h.maxBody, h.headless, h.refreshMs, h.exportPath, h.exportFormat,
    h.enablePlugins, h.pluginDir, h.ebpfCgroup, hfixed]

/-! ## Who decides -/

/-- The file decides in the place of an environment variable whose text is no value. -/
def Masked (s : Setting) (defaultPluginDir : String) (flags : ConfigValues)
    (env : String → Option String) (text : Option String) : Prop :=
  s.get flags = none ∧ s.inEnvironment env = some none ∧
    ∃ value, s.inFile text = some (some value) ∧
      s.effect defaultPluginDir (layersOf flags env text) (some value) ≠
        s.effect defaultPluginDir (layersOf flags env text) none

/-- Of three sources, the second passes on a mention that is no value. -/
theorem effect_first_iff {α β : Type} (effect : Option α → β) (a : Option α)
    (b c : Option (Option α)) :
    effect ((a.or b.join).or c.join) = effect (((a.map some).or (b.or c)).join) ↔
      ¬ (a = none ∧ b = some none ∧ ∃ x, c = some (some x) ∧ effect (some x) ≠ effect none) := by
  match a, b, c with
  | some x, _, _ => simp
  | none, some (some x), _ => simp
  | none, none, _ => simp
  | none, some none, none => simp
  | none, some none, some none => simp
  | none, some none, some (some x) => simp

end Setting

/-- Every setting is what the highest source that mentions it says, and its default if that
source says nothing that is a value, exactly if no mistyped environment variable stands over a
line of the file that says something else than the default. -/
theorem decided_by_top_iff {flags : ConfigValues} {env : String → Option String}
    {text : Option String} {defaultPluginDir : String} {config : ResolvedConfig}
    (h : ResolvedConfig.resolve defaultPluginDir (layersOf flags env text) = .ok config) :
    ((∀ s ∈ Setting.all, s.resolved (layersOf flags env text) config =
        s.effect defaultPluginDir (layersOf flags env text) (s.top flags env text).join) ∧
      (config.reveal = true → Setting.reveal.top flags env text = some (some true))) ↔
    ∀ s ∈ Setting.all, ¬ s.Masked defaultPluginDir flags env text := by
  have hiff : ∀ s ∈ Setting.all, (s.resolved (layersOf flags env text) config =
      s.effect defaultPluginDir (layersOf flags env text) (s.top flags env text).join ↔
      ¬ s.Masked defaultPluginDir flags env text) := by
    intro s hs
    have hfirst : (layersOf flags env text).first s.get =
        ((s.get flags).or (s.inEnvironment env).join).or (s.inFile text).join := by
      rw [← Setting.get_fromEnv env s hs, ← Setting.get_file hs]
      rfl
    rw [Setting.resolved_eq (ResolvedConfig.resolves h) s hs, hfirst]
    exact Setting.effect_first_iff _ _ _ _
  constructor
  · rintro ⟨hdecided, -⟩ s hs
    exact (hiff s hs).mp (hdecided s hs)
  · intro hmasked
    have hdecided := fun s hs => (hiff s hs).mpr (hmasked s hs)
    refine ⟨hdecided, fun hreveal => ?_⟩
    have hsays : config.reveal = (Setting.reveal.top flags env text).join.getD false :=
      hdecided Setting.reveal (by simp [Setting.all])
    rw [hreveal] at hsays
    generalize Setting.reveal.top flags env text = top at hsays
    match top with
    | some (some true) => rfl
    | some (some false) | some none | none => cases hsays

/-- An environment where `LENS_REVEAL` is set. -/
def revealEnv (value name : String) : Option String :=
  if name = "LENS_REVEAL" then some value else none

def revealingFile : String := "reveal = true\n"

def maskingFile : String := "reveal = false\n"

/-- `LENS_REVEAL=False` over a file that does not reveal: the mistyped value does no harm. -/
theorem decided_reveal :
    ∃ config,
      ResolvedConfig.resolve "plugins" (layersOf {} (revealEnv "False") (some maskingFile)) =
      .ok config ∧ config.reveal = false ∧
      ∀ s ∈ Setting.all, s.resolved (layersOf {} (revealEnv "False") (some maskingFile)) config =
        s.effect "plugins" (layersOf {} (revealEnv "False") (some maskingFile))
          (s.top {} (revealEnv "False") (some maskingFile)).join := by
  obtain ⟨config, hresolve, hreveal⟩ : ∃ config, ResolvedConfig.resolve "plugins"
      (layersOf {} (revealEnv "False") (some maskingFile)) = .ok config ∧ config.reveal = false :=
    ⟨⟨"127.0.0.1:8888", .v4 .localhost 8888, none, none, none, .http, .explicit, .intercept, false,
      10000, 262144, false, 250, none, .jsonl, false, "plugins", none⟩, by decide +kernel, rfl⟩
  refine ⟨config, hresolve, hreveal, ((decided_by_top_iff hresolve).mpr ?_).1⟩
  have hfile : Setting.reveal.inFile (some maskingFile) = some (some false) := rfl
  -- The one setting in the environment has its default in the file.
  have hdefault : ∀ s ∈ Setting.all, s.inEnvironment (revealEnv "False") = some none →
      ∀ value, s.inFile (some maskingFile) = some (some value) →
        s.effect "plugins" (layersOf {} (revealEnv "False") (some maskingFile)) (some value) =
          s.effect "plugins" (layersOf {} (revealEnv "False") (some maskingFile)) none := by
    simp only [Setting.reveal] at hfile
    simp [Setting.all, Setting.inEnvironment, revealEnv, hfile]
  rintro s hs ⟨-, henv, value, hvalue, hne⟩
  exact hne (hdefault s hs henv value hvalue)

instance : DecidableEq Setting.reveal.Value := inferInstanceAs (DecidableEq Bool)

/-- `LENS_REVEAL=False` does not take the word of the file back. -/
theorem mistyped_reveals :
    (ResolvedConfig.resolve "plugins"
      (layersOf {} (revealEnv "False") (some revealingFile))).map (·.reveal) = .ok true ∧
    Setting.reveal.top {} (revealEnv "False") (some revealingFile) = some none := by
  constructor <;> decide +kernel

end Lens.Cli
