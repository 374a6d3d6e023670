import TokenStation.Client.Config

/-!
# What configuration is accepted

`ClientConfig.validate` is the check that every loaded or saved configuration passes. Addresses and
URLs are parsed by libraries, which `Parsers` stands for.

`validate_credentials` is what the rest of the client relies on for credentials: an upstream's name
has the shape of a reference, and a configured credential has exactly one source.
-/

namespace TokenStation

open Library

/-- A parsed URI. -/
structure UriParts where
  scheme : Option String
  authority : Option String
  pathAndQuery : Option String
  host : Option String
  port : Option ℕ

/-- The parsers of the standard library and of the HTTP client. -/
structure Parsers where
  /-- `SocketAddr`: its display and whether its address is a loopback one, or the error's text. -/
  socketAddr : String → Except String (String × Bool)
  /-- `IpAddr`, and whether it is a loopback address. -/
  ipIsLoopback : String → Bool
  uri : String → Option UriParts
  /-- Whether a target is exempt from a proxy (scheme, host and port) with these exemptions. -/
  isNoProxy : String × String × ℕ → List String → String → Except String Bool

namespace ProviderEndpoint

def usesHttps (endpoint : ProviderEndpoint) : Bool := "https://".toList.isPrefixOf endpoint.origin

/-- `authority.rsplit_once(':')`, if what follows is a port. -/
def splitPort (authority : List Char) : Option (List Char) :=
  let port := authority.reverse.takeWhile (· != ':')
  let before := authority.reverse.dropWhile (· != ':')
  if before.isEmpty || port.isEmpty || !port.all Char.isDigit then none
  else some before.tail.reverse

/-- Whether the host is a loopback identity. -/
def isLoopback (parsers : Parsers) (endpoint : ProviderEndpoint) : Bool :=
  let authority := ((stripPrefix "https://".toList endpoint.origin).or
    (stripPrefix "http://".toList endpoint.origin)).getD []
  let host := match stripPrefix ['['] authority with
    | some bracketed => if ']' ∈ bracketed then bracketed.takeWhile (· != ']') else []
    | none => (splitPort authority).getD authority
  String.ofList host == "localhost" || parsers.ipIsLoopback (String.ofList host)

end ProviderEndpoint

/-! ## The proxy -/

namespace EgressConfig

def schemeAllowed : EgressMode → String → Bool
  | .http, scheme => scheme == "http" || scheme == "https"
  | .socks5, scheme => scheme == "socks5" || scheme == "socks5h"
  | .direct, _ => false

def defaultPort (scheme : String) : ℕ :=
  if scheme = "https" then 443
  else if scheme = "socks5" ∨ scheme = "socks5h" then 1080
  else 80

def noProxyRefused (entry : String) : Bool :=
  let text := entry.toList
  let body := ((stripPrefix ['*', '.'] text).or (stripPrefix ['.'] text)).getD text
  entry != "*" && (entry == "" || entry.utf8ByteSize > 253 || body.isEmpty || body.head? == some '.'
    || body.getLast? == some '.' || text.contains ',' || text.any isWhitespace
    || !body.all fun c ↦ c.isAlphanum || c == '.' || c == '-' || c == ':')

/-- `char::is_control`. -/
def isControl (c : Char) : Bool := c.toNat < 32 || (127 ≤ c.toNat && c.toNat < 160)

def authRefused (auth : ProxyAuthConfig) : Bool :=
  auth.username == "" || auth.username.utf8ByteSize > 128 || auth.username.toList.any isControl
    || auth.credential.sourceCount != 1

/-- The last two checks, on the exemptions and on the credential. -/
def validateEntries (egress : EgressConfig) : Except String Unit := do
  forEach (fun entry ↦ ensure (noProxyRefused entry = false)
    ("egress no_proxy entry `" ++ entry ++ "` is invalid")) egress.noProxy
  forEach (fun auth ↦ ensure (authRefused auth = false)
    "egress proxy auth requires a safe username and exactly one credential source")
    egress.auth.toList

/-- An optional value that must be there. -/
def require {α : Type} (value : Option α) (error : String) : Except String α :=
  match value with
  | some value => .ok value
  | none => .error error

/-- The scheme, host and port of the proxy; `none` in direct mode. -/
def proxyParts (parsers : Parsers) (egress : EgressConfig) :
    Except String (Option (String × String × ℕ)) :=
  if egress.mode = .direct then do
    ensure (egress.proxyUrl = none ∧ egress.auth = none ∧ egress.noProxy = [])
      "egress direct mode cannot carry proxy_url, auth, or no_proxy"
    return none
  else do
    let raw ← require egress.proxyUrl "egress proxy mode requires proxy_url"
    let uri ← require (parsers.uri raw) "egress proxy_url is invalid"
    let scheme ← require uri.scheme "egress proxy_url requires an explicit scheme"
    ensure (schemeAllowed egress.mode scheme = true) "egress proxy_url scheme does not match mode"
    let authority ← require uri.authority "egress proxy_url requires a host"
    ensure (authority.toList.contains '@' = false)
      "egress proxy_url must not contain credentials; use auth.credential slot"
    ensure (uri.pathAndQuery.all (· == "/") = true)
      "egress proxy_url must not contain a path, query, or fragment"
    let host ← require uri.host "egress proxy_url requires a host"
    egress.validateEntries
    return some (scheme, host, uri.port.getD (defaultPort scheme))

def bypassesProxy (parsers : Parsers) (egress : EgressConfig) (target : String) :
    Except String Bool := do
  match ← egress.proxyParts parsers with
  | none => return true
  | some proxy => parsers.isNoProxy proxy egress.noProxy target

end EgressConfig

/-! ## The checks -/

namespace ClientConfig

section Checks

variable (parsers : Parsers) (config : ClientConfig)

def validateApiDialect (name : String) (upstream : UpstreamConfig) : Except String Unit :=
  let requires (dialect provider article : String) :=
    ensure (upstream.provider = provider) ("upstream `" ++ name ++ "` is `api_dialect: " ++ dialect
      ++ "` but speaks `" ++ upstream.provider ++ "`; " ++ article ++ " " ++ dialect
      ++ " upstream must be `provider: " ++ provider ++ "`")
  match upstream.apiDialect with
  | .translated => .ok ()
  | .anthropicNative => requires "anthropic-native" "anthropic" "an"
  | .responsesNative => requires "responses-native" "openai-compatible" "a"

def validateLocalIdentity (name : String) (upstream : UpstreamConfig) : Except String Unit :=
  ensure (upstream.isLocal = false ∨ upstream.baseUrl.isLoopback parsers = true)
    ("upstream `" ++ name ++ "` is marked local but its base_url is not a loopback endpoint")

def validateTransport (name : String) (upstream : UpstreamConfig) : Except String Unit := do
  let encrypted := upstream.baseUrl.usesHttps
  ensure (encrypted = true ∨ upstream.baseUrl.isLoopback parsers = true)
    ("upstream `" ++ name ++ "` must use HTTPS unless its endpoint is loopback")
  if encrypted then return () else
    let bypasses ← config.egress.bypassesProxy parsers upstream.baseUrl.asStr
    ensure (bypasses = true) ("upstream `" ++ name
      ++ "` uses plaintext loopback traffic and must bypass the configured proxy")

def validateAuth (name : String) (auth : AuthConfig) : Except String Unit :=
  ensure (auth.sourceCount = 1) ("upstream `" ++ name ++ "` auth for slot `" ++ auth.slot
    ++ "` must name exactly one source                          (store / env / file), found "
    ++ toString auth.sourceCount)

def validateCatalogModel (name : String) (model : CatalogModel) : Except String Unit :=
  ensure (model.capability.maxOutputTokens = 0 ∨ model.capability.contextWindow = 0 ∨
      model.capability.maxOutputTokens ≤ model.capability.contextWindow)
    ("upstream `" ++ name ++ "` model `" ++ model.model
      ++ "` max_output_tokens must not exceed context_window")

/-- The body of the loop over the upstreams. -/
def validateUpstream (entry : String × UpstreamConfig) : Except String Unit := do
  let _ ← upstreamRef entry.1
  validateLocalIdentity parsers entry.1 entry.2
  validateApiDialect entry.1 entry.2
  config.validateTransport parsers entry.1 entry.2
  forEach (validateAuth entry.1) entry.2.auth.toList
  forEach (validateCatalogModel entry.1) entry.2.models

def validateBudget (budget : AgentBudget) : Except String Unit := do
  ensure (0 < budget.limitMicros ∧ budget.limitMicros ≤ 9000000000000000)
    "budget limit_micros must be between 1 and 9000000000000000"
  ensure (1 ≤ budget.warningPercent ∧ budget.warningPercent ≤ 100)
    "budget warning_percent must be between 1 and 100"
  ensure (budget.expiryWarningDays ≤ 365) "budget expiry_warning_days must not exceed 365"
  ensure (∀ start ∈ budget.periodStartMs, ∀ stop ∈ budget.periodEndMs, start < stop)
    "budget period_end_ms must be after period_start_ms"

/-- A target must name a configured upstream and a model it declares. -/
def validateTarget (owner upstream model : String) : Except String Unit := do
  let found ← EgressConfig.require (config.upstreams.lookup upstream)
    (owner ++ " routes to upstream `" ++ upstream ++ "`, which is not configured")
  ensure (found.models.any (fun served ↦ served.model == model) = true) (owner
    ++ " routes to model `" ++ model ++ "` not declared by upstream `" ++ upstream ++ "`")

def validateDirectTarget (owner : String) (target : UpstreamModel) : Except String Unit :=
  config.validateTarget owner target.upstream.name target.model

/-- The exact state of a desktop that was never set up. -/
def homeRouteIsUnconfigured : Bool :=
  config.effectiveHomeRoutingMode = .direct && config.effectiveHomeDirectTarget.isNone
    && config.upstreams.entries.isEmpty && config.agentRoutes.entries.isEmpty
    && config.router.pools.entries.isEmpty && config.router.quotaAccounts.isEmpty
    && config.router.rules.isEmpty && config.router.hintRoutes.isEmpty
    && config.router.heuristic.isNone && config.router.defaultPool == ""

def validateWaitingHomeRouter : Except String Unit := do
  ensure (config.router.version = configVersion)
    ("config version " ++ toString config.router.version ++ " is not " ++ toString configVersion
      ++ "; a breaking change ships a new version rather than reinterpreting this one")
  ensure (config.router.assumedContextWindow ≠ 0) ("assumed_context_window of 0 would make every "
    ++ "model with an unreported context window unroutable")
  ensure (config.router.routingMode = .tiered)
    "an unconfigured Home route requires a tiered base router"
  ensure (config.router.recovery = .strict) "an unconfigured Home route requires strict recovery"

def validateHomeRouterReferences : Except String Unit := do
  forEach (fun pool ↦ forEach (fun member ↦ ensure (member.upstream.name ∈ config.upstreams)
    ("pool `" ++ pool.1 ++ "` routes to upstream `" ++ member.upstream.name
      ++ "`, which is not configured")) pool.2) (members config.router.pools)
  forEach (config.validateDirectTarget "Home direct route") config.effectiveHomeDirectTarget.toList
  if config.effectiveHomeRoutingMode = .direct ∧ config.effectiveHomeDirectTarget = none then
    if config.homeRouteIsUnconfigured then config.validateWaitingHomeRouter
    else .error "Home direct routing requires direct_target"
  else .ok ()

def validateAgentTiers (owner : String) (tiers : AgentTierRoutes) : Except String Unit :=
  forEach (fun entry ↦ do
    let _ ← (upstreamRef entry.2.upstream).mapError fun error ↦
      owner ++ " " ++ entry.1 ++ " upstream: " ++ error
    config.validateTarget (owner ++ " " ++ entry.1) entry.2.upstream entry.2.model) tiers.entries

def validateHarnessTarget (agentId : String) (entry : String × AgentRouteTarget) :
    Except String Unit := do
  let owner := "Agent `" ++ agentId ++ "` Harness request `" ++ entry.1 ++ "`"
  let upstream ← (upstreamRef entry.2.upstream).mapError fun error ↦
    owner ++ " has invalid upstream: " ++ error
  config.validateDirectTarget owner ⟨upstream, entry.2.model⟩

def validateProfileMount (agentId : String) (route : AgentRouteConfig) : Except String Unit := do
  let profile ← EgressConfig.require route.profile
    ("Agent `" ++ agentId ++ "` profile mode requires a profile")
  ensure (profile ∈ config.profiles)
    ("Agent `" ++ agentId ++ "` mounts unknown profile `" ++ profile ++ "`")

/-- The body of the loop over the agent routes. -/
def validateAgentRoute (entry : String × AgentRouteConfig) : Except String Unit := do
  let agentId := entry.1
  let route := entry.2
  let owner := "Agent `" ++ agentId ++ "`"
  ensure (isValidAgentId agentId = true) ("invalid Agent route id `" ++ agentId ++ "`")
  forEach (fun requested ↦ ensure (requested.1 ∈ harnessRequestModels agentId)
    (owner ++ " has unsupported Harness request model `" ++ requested.1 ++ "`"))
    (members route.harnessModelRoutes)
  forEach (config.validateHarnessTarget agentId)
    (if route.harnessModelMappingEnabled then members route.harnessModelRoutes else [])
  ensure (route.mode = .custom → route.customRoute.isSome)
    (owner ++ " custom mode requires custom_route")
  forEach (fun _ ↦ config.validateProfileMount agentId route)
    (if route.mode = .profile then [()] else [])
  forEach (config.validateAgentTiers owner) route.customRoute.toList
  forEach (config.validateDirectTarget (owner ++ " direct route")) route.directTarget.toList
  ensure (route.routingMode.getD config.effectiveHomeRoutingMode = .direct →
      (route.directTarget.or config.effectiveHomeDirectTarget).isSome)
    (owner ++ " direct routing requires direct_target")

def profileNameRefused (name : String) : Bool :=
  let text := name.toList
  (trim text).isEmpty || name.utf8ByteSize > 80 || trim text != text
    || text.any EgressConfig.isControl

def validateProfile (entry : String × AgentTierRoutes) : Except String Unit := do
  ensure (profileNameRefused entry.1 = false) "profile name is invalid"
  config.validateAgentTiers ("profile `" ++ entry.1 ++ "`") entry.2

def validateServer : Except String Unit := do
  let (listen, loopback) ← (parsers.socketAddr config.listen).mapError fun error ↦
    "server.listen `" ++ config.listen ++ "`: " ++ error
  ensure (loopback = true) ("server.listen `" ++ listen
    ++ "` is not a loopback address; the local client only serves 127.0.0.1")

def validateBudgetEntry (entry : String × AgentBudget) : Except String Unit := do
  ensure (isValidAgentId entry.1 = true) ("invalid Agent budget id `" ++ entry.1 ++ "`")
  (validateBudget entry.2).mapError fun error ↦ "Agent `" ++ entry.1 ++ "` budget: " ++ error

/-- The semantic and cross-field constraints of a configuration. -/
def validate : Except String Unit := do
  ensure (config.version = 1) ("config version " ++ toString config.version ++ " is not 1")
  ensure (config.concurrency.global ≠ 0 ∧ config.concurrency.perAgent ≠ 0 ∧
      config.concurrency.perProvider ≠ 0)
    ("concurrency.global, concurrency.per_agent and concurrency.per_provider "
      ++ "must all be greater than zero")
  ensure (config.plugins.effectiveAgents ≠ [])
    "plugins.agents must name at least one agent adapter (or the deprecated plugins.agent)"
  config.validateServer parsers
  forEach (config.validateUpstream parsers) (members config.upstreams)
  let _ ← config.egress.proxyParts parsers
  forEach validateBudgetEntry (members config.agentBudgets)
  config.validateHomeRouterReferences
  forEach config.validateAgentRoute (members config.agentRoutes)
  forEach config.validateProfile (members config.profiles)

end Checks

/-! ## What acceptance says of the credentials -/

variable {parsers : Parsers} {config : ClientConfig}

/-- An accepted upstream has a reference name, and a credential of it has one source. -/
theorem validateUpstream_credential {name : String} {upstream : UpstreamConfig}
    (h : config.validateUpstream parsers (name, upstream) = .ok ()) :
    isReferenceName name = true ∧ ∀ auth ∈ upstream.auth, auth.sourceCount = 1 := by
  obtain ⟨reference, hreference, h⟩ := except_bind_eq_ok.mp h
  simp only [except_seq_eq_ok, forEach_eq_ok, Option.mem_toList] at h
  obtain ⟨-, -, -, hauth, -⟩ := h
  refine ⟨?_, fun auth hmem ↦ ensure_eq_ok.mp (hauth auth hmem)⟩
  have hname : reference.name = name := upstreamRef_eq_ok hreference
  exact hname ▸ reference.shaped

/-- An accepted proxy credential has one source; in direct mode there is none. -/
theorem proxyParts_credential {egress : EgressConfig} {parts : Option (String × String × ℕ)}
    (h : egress.proxyParts parsers = .ok parts) :
    ∀ auth ∈ egress.auth, auth.credential.sourceCount = 1 := by
  intro auth hauth
  rw [EgressConfig.proxyParts] at h
  split at h
  · obtain ⟨hdirect, -⟩ := except_seq_eq_ok.mp h
    rw [(ensure_eq_ok.mp hdirect).2.1] at hauth
    cases hauth
  · -- every step before the last one only has to pass
    obtain ⟨raw, -, h⟩ := except_bind_eq_ok.mp h
    obtain ⟨uri, -, h⟩ := except_bind_eq_ok.mp h
    obtain ⟨scheme, -, h⟩ := except_bind_eq_ok.mp h
    obtain ⟨-, h⟩ := except_seq_eq_ok.mp h
    obtain ⟨authority, -, h⟩ := except_bind_eq_ok.mp h
    obtain ⟨-, h⟩ := except_seq_eq_ok.mp h
    obtain ⟨-, h⟩ := except_seq_eq_ok.mp h
    obtain ⟨host, -, h⟩ := except_bind_eq_ok.mp h
    obtain ⟨hentries, -⟩ := except_seq_eq_ok.mp h
    obtain ⟨-, hentries⟩ := except_seq_eq_ok.mp hentries
    have hrefused := ensure_eq_ok.mp (forEach_eq_ok.mp hentries auth (Option.mem_toList.mpr hauth))
    simp only [EgressConfig.authRefused, Bool.or_eq_false_iff, bne_eq_false_iff_eq] at hrefused
    exact hrefused.2

/-- What the client relies on for its credentials. -/
theorem validate_credentials (h : config.validate parsers = .ok ()) :
    (∀ name upstream, config.upstreams.lookup name = some upstream →
      isReferenceName name = true ∧ ∀ auth ∈ upstream.auth, auth.sourceCount = 1) ∧
    ∀ auth ∈ config.egress.auth, auth.credential.sourceCount = 1 := by
  simp only [validate, except_seq_eq_ok, forEach_eq_ok] at h
  obtain ⟨-, -, -, -, hupstreams, hegress⟩ := h
  obtain ⟨parts, hparts, -⟩ := except_bind_eq_ok.mp hegress
  refine ⟨fun name upstream hlookup ↦ ?_, proxyParts_credential hparts⟩
  exact validateUpstream_credential (hupstreams _ (mem_members.mpr hlookup))

end ClientConfig

end TokenStation
