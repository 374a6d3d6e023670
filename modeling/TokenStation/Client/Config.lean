import TokenStation.Gateway.Admission
import TokenStation.Library.SortByKey
import TokenStation.Protocol.Provider
import TokenStation.Quota.Tracker
import TokenStation.Router.Config

/-!
# The client's configuration

One document describes the upstreams, where each of their credentials lives, and how requests are
routed. The router section is the router's own `RouterConfig`; `routing` and `agentRoutes` are the
host's, which compiles them into further router sections. A map of the document is an `AList`, read
in the order of its keys where the source iterates over it.
-/

namespace TokenStation

/-! ## Routing -/

/-- The host's routing modes. Direct is compiled into a tier with one member. -/
inductive HostRoutingMode where
  | tiered
  | quotaFirst
  | direct
  deriving DecidableEq

/-- `From<CoreRoutingMode>`. -/
def HostRoutingMode.ofCore : RoutingMode → HostRoutingMode
  | .tiered => .tiered
  | .quotaFirst => .quotaFirst

structure HostRoutingConfig where
  mode : HostRoutingMode
  directTarget : Option UpstreamModel := none
  deriving DecidableEq

structure AgentRouteTarget where
  upstream : String
  model : String
  deriving DecidableEq

structure AgentTierRoutes where
  high : AgentRouteTarget
  mid : AgentRouteTarget
  low : AgentRouteTarget
  deriving DecidableEq

/-- The pools the three tiers fill. -/
def AgentTierRoutes.entries (tiers : AgentTierRoutes) : List (String × AgentRouteTarget) :=
  [("tier_high", tiers.high), ("tier_mid", tiers.mid), ("tier_low", tiers.low)]

/-- Where an agent's tiers come from. -/
inductive AgentRouteMode where
  | inherit
  | custom
  | profile
  deriving DecidableEq

structure AgentRouteConfig where
  mode : AgentRouteMode
  customRoute : Option AgentTierRoutes := none
  profile : Option String := none
  /-- Overrides the home mode; independent of where the tiers come from. -/
  routingMode : Option HostRoutingMode := none
  directTarget : Option UpstreamModel := none
  /-- From a requested model to the place that serves it. -/
  harnessModelRoutes : AList fun _ : String ↦ AgentRouteTarget := ∅
  harnessModelMappingEnabled : Bool := false

/-! ## Credentials -/

/-- Where a credential's value lives. Never the value. -/
structure AuthConfig where
  slot : String
  store : Bool := false
  env : Option String := none
  file : Option String := none
  deriving DecidableEq

def AuthConfig.sourceCount (auth : AuthConfig) : ℕ :=
  auth.store.toNat + auth.env.isSome.toNat + auth.file.isSome.toNat

inductive EgressMode where
  | direct
  | http
  | socks5
  deriving DecidableEq

structure ProxyAuthConfig where
  username : String
  credential : AuthConfig
  deriving DecidableEq

structure EgressConfig where
  mode : EgressMode := .direct
  proxyUrl : Option String := none
  noProxy : List String := []
  auth : Option ProxyAuthConfig := none
  deriving DecidableEq

/-! ## Upstreams -/

/-- The wire dialect an upstream speaks natively. -/
inductive ApiDialect where
  | translated
  | anthropicNative
  | responsesNative
  deriving DecidableEq

/-- Commercial identity of an upstream. -/
inductive AccessTier where
  | free
  | paid
  deriving DecidableEq

/-- The HTTP engine that carries provider calls. -/
inductive ProviderCallEngine where
  | legacy
  | southV1Buffered
  | southV1BufferedStreaming
  | southV1BufferedStreamingHeaderAuth
  deriving DecidableEq

/-- A model an upstream serves, and what it can do. -/
structure CatalogModel where
  model : String
  capability : ModelCapability := {}
  deriving DecidableEq

structure UpstreamConfig where
  provider : String
  baseUrl : ProviderEndpoint
  auth : Option AuthConfig := none
  isLocal : Bool := false
  managedRoute : Bool := false
  accessTier : AccessTier := .paid
  apiDialect : ApiDialect := .translated
  providerCall : ProviderCallEngine := .southV1BufferedStreamingHeaderAuth
  models : List CatalogModel := []
  quotaPlan : Option QuotaPlan := none
  deriving DecidableEq

/-! ## The document -/

/-- Display-only thresholds on what one agent spends. -/
structure AgentBudget where
  limitMicros : ℕ
  warningPercent : ℕ := 80
  periodStartMs : Option ℕ := none
  periodEndMs : Option ℕ := none
  expiryWarningDays : ℕ := 7
  deriving DecidableEq

structure PluginsConfig where
  dir : String := ""
  agent : Option String := none
  agents : List String := []
  /-- From a provider dialect to the package bound to it. -/
  providers : AList fun _ : String ↦ String := ∅
  /-- Serve through packages that never passed a conformance run. -/
  allowUnsigned : Bool := false

/-- The agent adapters to load: the list, or else the deprecated single one. -/
def PluginsConfig.effectiveAgents (plugins : PluginsConfig) : List String :=
  if plugins.agents.isEmpty then plugins.agent.toList else plugins.agents

/-- Where the request log and the metrics live. -/
structure DataConfig where
  dir : String := "token-station-data"
  metrics : Bool := true
  requestBodyCapture : Bool := true
  deriving DecidableEq

/-- When an upstream is taken out of rotation. -/
structure HealthConfig where
  ejectAfter : ℕ := 3
  cooldownMs : ℕ := 30000
  deriving DecidableEq

/-- Micro-units of currency for a million tokens, by class. -/
structure ModelPrice where
  inputPerMtok : ℕ := 0
  outputPerMtok : ℕ := 0
  cacheReadPerMtok : ℕ := 0
  cacheWritePerMtok : ℕ := 0
  cacheWrite5mPerMtok : Option ℕ := none
  cacheWrite1hPerMtok : Option ℕ := none
  reasoningPerMtok : Option ℕ := none
  deriving DecidableEq

/-- `PriceTable`, with the prices as they are read. -/
structure PricingConfig where
  version : ℕ := 0
  models : AList fun _ : String ↦ ModelPrice := ∅

structure ClientConfig where
  version : ℕ := 1
  listen : String
  plugins : PluginsConfig := {}
  upstreams : AList fun _ : String ↦ UpstreamConfig := ∅
  router : RouterConfig := {}
  routing : Option HostRoutingConfig := none
  agentRoutes : AList fun _ : String ↦ AgentRouteConfig := ∅
  profiles : AList fun _ : String ↦ AgentTierRoutes := ∅
  data : DataConfig := {}
  health : HealthConfig := {}
  concurrency : Limits := {}
  pricing : PricingConfig := {}
  agentBudgets : AList fun _ : String ↦ AgentBudget := ∅
  egress : EgressConfig := {}

/-- `UpstreamRef::new`, with the text of its error. -/
def upstreamRef (name : String) : Except String UpstreamRef :=
  (UpstreamRef.new name).mapError fun name ↦
    "`" ++ name ++ "` is not an upstream reference name; expected `[a-z][a-z0-9_]*`"

theorem upstreamRef_eq_ok {name : String} {reference : UpstreamRef}
    (h : upstreamRef name = .ok reference) : reference.name = name := by
  rw [upstreamRef, UpstreamRef.new] at h
  split at h
  · cases h
    rfl
  · cases h

namespace ClientConfig

open Library

/-- The members of a map, in the order of their keys. -/
def members {α : Type} (map : AList fun _ : String ↦ α) : List (String × α) :=
  (sortByKey Sigma.fst map.entries).map fun entry ↦ (entry.1, entry.2)

theorem mem_members {α : Type} {map : AList fun _ : String ↦ α} {key : String} {value : α} :
    (key, value) ∈ members map ↔ map.lookup key = some value := by
  rw [members, List.mem_map]
  constructor
  · rintro ⟨entry, hentry, heq⟩
    obtain ⟨rfl, rfl⟩ := Prod.mk.inj heq
    exact AList.mem_lookup_iff.mpr (mem_sortByKey.mp hentry)
  · intro hlookup
    exact ⟨⟨key, value⟩, mem_sortByKey.mpr (AList.mem_lookup_iff.mp hlookup), rfl⟩

theorem members_pairwise {α : Type} (map : AList fun _ : String ↦ α) :
    (members map).Pairwise fun entry later ↦ entry.1 ≤ later.1 := by
  rw [members, List.pairwise_map]
  exact sortByKey_pairwise _ _

theorem members_nodup {α : Type} (map : AList fun _ : String ↦ α) : (members map).Nodup := by
  have hentries : map.entries.Nodup := (List.nodupKeys_iff_pairwise.mp map.nodupKeys).imp
    fun {entry later} hne heq ↦ hne (congrArg Sigma.fst heq)
  have hinjective : Function.Injective fun entry : (_ : String) × α ↦ (entry.1, entry.2) := by
    rintro ⟨key, value⟩ ⟨key', value'⟩ heq
    obtain ⟨rfl, rfl⟩ := Prod.mk.inj heq
    rfl
  exact ((sortByKey_perm _ _).nodup_iff.mpr hentries).map hinjective

/-- The members under one key. -/
theorem members_filter {α : Type} (map : AList fun _ : String ↦ α) (key : String) :
    (members map).filter (fun entry ↦ entry.1 = key) =
      (map.lookup key).toList.map fun value ↦ (key, value) := by
  rcases hlookup : map.lookup key with - | value
  · rw [Option.toList_none, List.map_nil, List.filter_eq_nil_iff]
    rintro ⟨key', value⟩ hmem heq
    obtain rfl : key' = key := by simpa using heq
    exact nomatch hlookup.symm.trans (mem_members.mp hmem)
  · have hperm : ((members map).filter fun entry ↦ entry.1 = key).Perm [(key, value)] := by
      refine (List.perm_ext_iff_of_nodup ((members_nodup map).filter _)
        (List.nodup_singleton _)).mpr ?_
      rintro ⟨key', value'⟩
      rw [List.mem_filter, List.mem_singleton, mem_members, decide_eq_true_eq, Prod.mk.injEq]
      constructor
      · rintro ⟨hvalue, rfl⟩
        exact ⟨rfl, Option.some.inj (hvalue.symm.trans hlookup)⟩
      · rintro ⟨rfl, rfl⟩
        exact ⟨hlookup, rfl⟩
    exact List.perm_singleton.mp hperm

/-- Equality of maps: the same members in the order of their keys. -/
def sameMap {α : Type} [DecidableEq α] (map other : AList fun _ : String ↦ α) : Bool :=
  decide (members map = members other)

theorem sameMap_iff {α : Type} [DecidableEq α] {map other : AList fun _ : String ↦ α} :
    sameMap map other = true ↔ ∀ key, map.lookup key = other.lookup key := by
  rw [sameMap, decide_eq_true_eq]
  constructor
  · intro h key
    refine Option.ext fun value ↦ ?_
    rw [← mem_members, ← mem_members, h]
  · intro h
    refine eq_of_filter_eq (members_pairwise _) (members_pairwise _) ?_
    intro key
    rw [members_filter, members_filter, h key]

/-- The closed catalog of models a harness may ask for. -/
def harnessRequestModels (agentId : String) : List String :=
  if agentId = "claude-code" then ["fast", "balanced", "power", "claude-fable-5-1"]
  else if agentId = "opencode" then ["auto", "fast", "balanced", "power"]
  else []

/-- Lowercase letters, digits and inner single hyphens, at most 64 bytes. -/
def isValidAgentId (agentId : String) : Bool :=
  agentId ≠ "" && agentId.utf8ByteSize ≤ 64 && agentId.toList.head? ≠ some '-'
    && agentId.toList.getLast? ≠ some '-' && !containsText agentId "--"
    && agentId.toList.all fun c ↦ c.isLower || c.isDigit || c == '-'

/-- The home mode after the host's override. -/
def effectiveHomeRoutingMode (config : ClientConfig) : HostRoutingMode :=
  match config.routing with
  | some routing => routing.mode
  | none => .ofCore config.router.routingMode

def effectiveHomeDirectTarget (config : ClientConfig) : Option UpstreamModel :=
  config.routing.bind HostRoutingConfig.directTarget

end ClientConfig

end TokenStation
