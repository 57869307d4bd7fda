import Lens.Replay.Plan
import Lens.Text.Addr

/-!
# The guards of an execution

`validate_execution` returns the URL of a replay once every risk is acknowledged.  The guard
against remote targets parses the host of the URI as an address.  The host of the `http` crate
keeps the brackets of an IPv6 literal, and the address parser takes none (`parseIpAddr_bracket`),
so `[::1]` counts as remote.
-/

namespace Lens.Replay

structure ReplayPolicy where
  allowUnsafe : Bool
  allowSecrets : Bool
  allowRedacted : Bool
  allowRemote : Bool
deriving DecidableEq, Repr

def parseTargetOrigin (http : HttpTypes) (target : String) : Except String Uri := do
  let uri ← orError "target must be an HTTP(S) origin URL" (http.parseUri target)
  if ¬ (uri.scheme = some "http" ∨ uri.scheme = some "https") ∨ uri.authority = none then
    .error "target must be an HTTP(S) origin URL"
  else if uri.authority.any fun authority => Str.contains authority "@" then
    .error "target must not contain user information"
  else if uri.pathAndQuery.any (· ≠ "/") then
    .error "target must be an origin without a path or query"
  else .ok uri

def isLoopbackTarget (uri : Uri) : Bool :=
  match uri.host with
  | none => false
  | some host =>
    Str.eqIgnoreAsciiCase host "localhost" || (Net.parseIpAddr host).any Net.IpAddr.isLoopback

def isPreviewSafeMethod (method : String) : Bool := method ∈ ["GET", "HEAD", "OPTIONS"]

namespace ReplayPlan

def targetUrl (http : HttpTypes) (plan : ReplayPlan) (target : String) : Except String String := do
  let uri ← parseTargetOrigin http target
  return uri.scheme.getD "" ++ "://" ++ uri.authority.getD "" ++ plan.pathAndQuery

def validateExecution (http : HttpTypes) (plan : ReplayPlan) (target : String)
    (policy : ReplayPolicy) : Except String String := do
  let targetUri ← parseTargetOrigin http target
  if !isLoopbackTarget targetUri && !policy.allowRemote then
    .error "remote replay target requires --allow-remote"
  else if plan.truncated then
    .error "truncated requests cannot be replayed; capture again with a sufficient --max-body"
  else if plan.legacyTextEncoding then
    .error "legacy text-only exports are preview-only; capture again with the current Lens version"
  else if plan.sensitivity = "secret" ∧ !policy.allowSecrets then
    .error "secret-bearing capture requires --allow-secrets"
  else if plan.redacted && !policy.allowRedacted then
    .error "redacted request requires --allow-redacted to send placeholders"
  else if !isPreviewSafeMethod plan.method && !policy.allowUnsafe then
    .error (plan.method ++ " may change server state; execution requires --allow-unsafe")
  else targetUrl http plan target

end ReplayPlan

/-! ## Risks

What the guards are for, without the functions above. -/

/-- A URI that is an HTTP(S) origin without credentials. -/
structure IsOrigin (uri : Uri) (scheme authority host : String) : Prop where
  isHttp : scheme = "http" ∨ scheme = "https"
  noUser : Str.contains authority "@" = false
  hscheme : uri.scheme = some scheme
  hauthority : uri.authority = some authority
  hhost : uri.host = some host
  hpath : uri.pathAndQuery = none ∨ uri.pathAndQuery = some "/"

/-- The block `127.0.0.0/8`, or `::1`. -/
def IsLoopback : Net.IpAddr → Prop
  | .v4 ip => ∃ b c d, ip.octets = [127, b, c, d]
  | .v6 ip => ip.octets = List.replicate 15 0 ++ [1]

/-- An IPv6 loopback address in brackets. -/
def BracketedLoopback (host : String) : Prop :=
  ∃ literal ip, host = "[" ++ literal ++ "]" ∧ Net.parseIpAddr literal = some (.v6 ip) ∧
    IsLoopback (.v6 ip)

/-- A host of this machine. -/
inductive NamesLoopback (host : String) : Prop where
  | localhost (h : Str.toAsciiLowercase host = "localhost")
  | address {ip : Net.IpAddr} (h : Net.parseIpAddr host = some ip) (hip : IsLoopback ip)
  | bracketed (h : BracketedLoopback host)

/-- The request is complete, and the risks it has wherever it is sent are acknowledged. -/
structure Cleared (plan : ReplayPlan) (policy : ReplayPolicy) : Prop where
  complete : plan.truncated = false ∧ plan.legacyTextEncoding = false
  secrets : plan.sensitivity = "secret" → policy.allowSecrets = true
  placeholders : plan.redacted = true → policy.allowRedacted = true
  change : plan.method = "GET" ∨ plan.method = "HEAD" ∨ plan.method = "OPTIONS" ∨
    policy.allowUnsafe = true

/-- The guards let a plan through if its risks are acknowledged, and only then. -/
def DecidesOnRisk (http : HttpTypes) (plan : ReplayPlan) (target : String) (policy : ReplayPolicy)
    (scheme authority host : String) : Prop :=
  ∀ url, plan.validateExecution http target policy = .ok url ↔
    Cleared plan policy ∧ (NamesLoopback host ∨ policy.allowRemote = true) ∧
      url = scheme ++ "://" ++ authority ++ plan.pathAndQuery

/-! ## Hosts -/

theorem isLoopback_iff (ip : Net.IpAddr) : ip.isLoopback = true ↔ IsLoopback ip := by
  cases ip with
  | v4 ip =>
    obtain ⟨octets, hsize⟩ := ip
    obtain ⟨a, b, c, d, rfl⟩ := List.length_eq_four.mp hsize
    simp [Net.IpAddr.isLoopback, Net.Ipv4Addr.isLoopback, IsLoopback]
  | v6 ip =>
    obtain ⟨octets, hsize⟩ := ip
    simp [Net.IpAddr.isLoopback, Net.Ipv6Addr.isLoopback, Net.Ipv6Addr.localhost, IsLoopback,
      List.replicate_succ]

/-- The address parser takes no bracket. -/
theorem parseIpAddr_bracket (text : String) : Net.parseIpAddr ("[" ++ text) = none := by
  have hchars : ("[" ++ text).toList = '[' :: text.toList := by simp
  rw [Net.parseIpAddr, hchars]
  rfl

theorem isLoopbackTarget_iff {uri : Uri} {host : String} (h : uri.host = some host) :
    isLoopbackTarget uri = true ↔ NamesLoopback host ∧ ¬ BracketedLoopback host := by
  have hbracket : BracketedLoopback host →
      Str.eqIgnoreAsciiCase host "localhost" = false ∧ Net.parseIpAddr host = none := by
    rintro ⟨literal, -, rfl, -, -⟩
    rw [String.append_assoc]
    refine ⟨?_, parseIpAddr_bracket _⟩
    rw [Bool.eq_false_iff, Ne, Str.eqIgnoreAsciiCase_iff]
    intro hname
    have hfirst := congrArg (fun text => text.toList.head?) hname
    simp [Str.toAsciiLowercase] at hfirst
  have hname : Str.eqIgnoreAsciiCase host "localhost" = true ↔
      Str.toAsciiLowercase host = "localhost" := Str.eqIgnoreAsciiCase_iff
  rw [isLoopbackTarget, h]
  simp only [Bool.or_eq_true, Option.any_eq_true, isLoopback_iff]
  constructor
  · rintro (hlocal | ⟨ip, hparse, hip⟩)
    · refine ⟨.localhost (hname.mp hlocal), fun hb => ?_⟩
      rw [(hbracket hb).1] at hlocal
      cases hlocal
    · refine ⟨.address hparse hip, fun hb => ?_⟩
      rw [(hbracket hb).2] at hparse
      cases hparse
  · rintro ⟨hlocal | ⟨hparse, hip⟩ | hb, hnot⟩
    · exact .inl (hname.mpr hlocal)
    · exact .inr ⟨_, hparse, hip⟩
    · exact absurd hb hnot

/-! ## The guards -/

variable {http : HttpTypes} {target : String} {uri : Uri} {scheme authority host : String}

theorem parseTargetOrigin_eq (huri : http.parseUri target = some uri)
    (h : IsOrigin uri scheme authority host) : parseTargetOrigin http target = .ok uri := by
  obtain ⟨hhttp, hauthority, hpath⟩ : (uri.scheme = some "http" ∨ uri.scheme = some "https") ∧
      uri.authority.any (Str.contains · "@") = false ∧
      uri.pathAndQuery.any (· ≠ "/") = false := by
    refine ⟨by simpa [h.hscheme] using h.isHttp, by simp [h.hauthority, h.noUser], ?_⟩
    rcases h.hpath with hnone | hroot
    · simp [hnone]
    · simp [hroot]
  have hsome : ¬ (¬ (uri.scheme = some "http" ∨ uri.scheme = some "https") ∨
      uri.authority = none) := by
    rw [h.hauthority]
    simpa using fun hne => hhttp.resolve_left hne
  rw [parseTargetOrigin, huri, orError, ok_bind, if_neg hsome, hauthority, hpath]
  rfl

theorem validateExecution_eq_ok (huri : http.parseUri target = some uri)
    (h : IsOrigin uri scheme authority host) (plan : ReplayPlan) (policy : ReplayPolicy)
    (url : String) :
    plan.validateExecution http target policy = .ok url ↔
      Cleared plan policy ∧ (isLoopbackTarget uri = true ∨ policy.allowRemote = true) ∧
        url = scheme ++ "://" ++ authority ++ plan.pathAndQuery := by
  have hparse := parseTargetOrigin_eq huri h
  have hurl : plan.targetUrl http target =
      .ok (scheme ++ "://" ++ authority ++ plan.pathAndQuery) := by
    rw [ReplayPlan.targetUrl, hparse, ok_bind, h.hscheme, h.hauthority]
    rfl
  have hsafe : isPreviewSafeMethod plan.method = true ↔
      plan.method = "GET" ∨ plan.method = "HEAD" ∨ plan.method = "OPTIONS" := by
    simp [isPreviewSafeMethod]
  rw [ReplayPlan.validateExecution, hparse, hurl, ok_bind]
  constructor
  · intro hok
    split_ifs at hok with hremote htruncated hlegacy hsecret hredacted hunsafe
    cases hok
    simp only [Bool.and_eq_true, Bool.not_eq_true', not_and_or, Bool.not_eq_false,
      Bool.not_eq_true, hsafe] at hremote htruncated hlegacy hsecret hredacted hunsafe
    refine ⟨⟨⟨htruncated, hlegacy⟩, ?_, ?_, by tauto⟩, hremote, rfl⟩
    · exact fun h => hsecret.resolve_left (not_not_intro h)
    · exact fun h => hredacted.resolve_left (by simp [h])
  · rintro ⟨⟨⟨htruncated, hlegacy⟩, hsecret, hredacted, hunsafe⟩, hremote, rfl⟩
    rw [← or_assoc, ← or_assoc, or_assoc (a := plan.method = "GET"), ← hsafe] at hunsafe
    split_ifs <;> simp_all

/-- For every plan, policy and target that is an origin, the guards decide on risk unless the one
risk that they add is that of an IPv6 loopback address in brackets. -/
theorem guards_iff (huri : http.parseUri target = some uri)
    (h : IsOrigin uri scheme authority host) (plan : ReplayPlan) (policy : ReplayPolicy) :
    DecidesOnRisk http plan target policy scheme authority host ↔
      (BracketedLoopback host → policy.allowRemote = true ∨ ¬ Cleared plan policy) := by
  simp only [DecidesOnRisk, validateExecution_eq_ok huri h, isLoopbackTarget_iff h.hhost]
  constructor
  · intro hall hbracketed
    have hurl := hall (scheme ++ "://" ++ authority ++ plan.pathAndQuery)
    have hnames : NamesLoopback host := .bracketed hbracketed
    tauto
  · intro hcond url
    tauto

/-- Two local targets, as the `http` crate reads them. -/
def localTargets : HttpTypes where
  isMethod _ := true
  isHeaderName _ := true
  isHeaderValue _ := true
  parseUri
    | "http://[::1]:8080" => some ⟨some "http", some "[::1]:8080", some "[::1]", some "/"⟩
    | "http://127.0.0.1:8080" =>
      some ⟨some "http", some "127.0.0.1:8080", some "127.0.0.1", some "/"⟩
    | _ => none

def getRoot : ReplayPlan where
  flowId := 1
  request := 1
  method := "GET"
  pathAndQuery := "/a?b=c"
  headers := []
  body := []
  truncated := false
  sensitivity := "internal"
  redacted := false
  legacyTextEncoding := false
  capturedResponse := none

/-- No acknowledgement. -/
def cautious : ReplayPolicy := ⟨false, false, false, false⟩

theorem cleared_getRoot : Cleared getRoot cautious :=
  ⟨⟨rfl, rfl⟩, by decide, by decide, .inl rfl⟩

theorem guards_ipv4 : getRoot.validateExecution localTargets "http://127.0.0.1:8080" cautious =
    .ok "http://127.0.0.1:8080/a?b=c" := by
  have horigin : IsOrigin ⟨some "http", some "127.0.0.1:8080", some "127.0.0.1", some "/"⟩ "http"
      "127.0.0.1:8080" "127.0.0.1" := ⟨.inl rfl, by decide +kernel, rfl, rfl, rfl, .inr rfl⟩
  have haddress : Net.parseIpAddr "127.0.0.1" = some (.v4 .localhost) := by decide +kernel
  have hlocal : NamesLoopback "127.0.0.1" := .address haddress ⟨0, 0, 1, rfl⟩
  have hplain : ¬ BracketedLoopback "127.0.0.1" := by
    rintro ⟨literal, ip, hhost, -⟩
    have hfirst := congrArg (fun text => text.toList.head?) hhost
    simp at hfirst
  exact ((guards_iff rfl horigin getRoot cautious).mpr (fun hb => absurd hb hplain) _).mpr
    ⟨cleared_getRoot, .inl hlocal, rfl⟩

/-- The IPv6 loopback address is refused as a remote target. -/
theorem bracketed_refused :
    ¬ DecidesOnRisk localTargets getRoot "http://[::1]:8080" cautious "http" "[::1]:8080"
      "[::1]" := by
  intro h
  have hbracketed : BracketedLoopback "[::1]" :=
    ⟨"::1", .localhost, rfl, by decide +kernel, rfl⟩
  have hok := (h _).mpr ⟨cleared_getRoot, .inl (.bracketed hbracketed), rfl⟩
  revert hok
  decide +kernel

end Lens.Replay
