import TokenStation.Client.Config
import TokenStation.Router.LocalLock
import TokenStation.Router.QuotaFirst

/-!
# The routers compiled from the configuration

The home router, each agent's own router and the exact-model overlay of a coding harness are all
copies of the configured router section, with fields cleared and rebuilt. Each copy keeps the two
flags of the local lock, `sameLock_of_compiled`.

A quota-first route reads neither flag. It stays local exactly when every account it can use is
local already, `quotaFirst_staysLocal_iff`.
-/

namespace TokenStation

open Library

/-! ## The lock -/

namespace RouterConfig

/-- Strictly local: nothing leaves the machine, and no fallback to the cloud is authorized. -/
def Locked (config : RouterConfig) : Prop :=
  config.localOnly = true ∧ config.allowCloudFallback = false

/-- Both flags of the lock agree. -/
def SameLock (config other : RouterConfig) : Prop :=
  config.localOnly = other.localOnly ∧ config.allowCloudFallback = other.allowCloudFallback

variable {config other third : RouterConfig}

theorem SameLock.refl (config : RouterConfig) : config.SameLock config := ⟨rfl, rfl⟩

theorem SameLock.trans (h : config.SameLock other) (h' : other.SameLock third) :
    config.SameLock third :=
  ⟨h.1.trans h'.1, h.2.trans h'.2⟩

theorem SameLock.locked_iff (h : config.SameLock other) : config.Locked ↔ other.Locked := by
  rw [Locked, Locked, h.1, h.2]

end RouterConfig

/-! ## Compiling a mode -/

namespace AgentTierRoutes

/-- The pools of the three tiers, put into the home pools one after the other. -/
def materializeFrom (home : RouterConfig) :
    List (String × AgentRouteTarget) → Except String RouterConfig
  | [] => .ok home
  | (pool, target) :: rest => do
    let upstream ← (upstreamRef target.upstream).mapError fun error ↦
      "Agent route " ++ pool ++ " has invalid upstream: " ++ error
    materializeFrom { home with pools := home.pools.insert pool [⟨upstream, target.model⟩] } rest

def materialize (tiers : AgentTierRoutes) (home : RouterConfig) : Except String RouterConfig :=
  materializeFrom home tiers.entries

theorem materializeFrom_sameLock {home router : RouterConfig}
    {entries : List (String × AgentRouteTarget)} (h : materializeFrom home entries = .ok router) :
    router.SameLock home := by
  induction entries generalizing home with
  | nil =>
    obtain rfl := Except.ok.inj h
    exact .refl _
  | cons entry rest ih =>
    obtain ⟨upstream, -, hrest⟩ := except_bind_eq_ok.mp h
    exact (ih hrest).trans (.refl _)

end AgentTierRoutes

namespace ClientConfig

/-- A router section compiled for one effective mode. -/
def compileRouterConfig (router : RouterConfig) (mode : HostRoutingMode)
    (directTarget : Option UpstreamModel) (owner : String) : Except String RouterConfig :=
  match mode with
  | .tiered => .ok { router with routingMode := .tiered }
  | .quotaFirst => .ok { router with routingMode := .quotaFirst }
  | .direct =>
    match directTarget with
    | none => .error (owner ++ " direct routing requires direct_target")
    | some target => .ok { router with
        pools := AList.singleton "direct" [target]
        rules := []
        hintRoutes := []
        heuristic := none
        defaultPool := "direct"
        honorExactModel := false
        recovery := .strict
        routingMode := .tiered }

theorem compileRouterConfig_sameLock {router compiled : RouterConfig} {mode : HostRoutingMode}
    {directTarget : Option UpstreamModel} {owner : String}
    (h : compileRouterConfig router mode directTarget owner = .ok compiled) :
    compiled.SameLock router := by
  unfold compileRouterConfig at h
  split at h
  · obtain rfl := Except.ok.inj h
    exact .refl _
  · obtain rfl := Except.ok.inj h
    exact .refl _
  · split at h
    · nomatch h
    · obtain rfl := Except.ok.inj h
      exact .refl _

def homeRouterConfig (config : ClientConfig) : Except String RouterConfig :=
  compileRouterConfig config.router config.effectiveHomeRoutingMode
    config.effectiveHomeDirectTarget "Home"

/-! ## An agent's router -/

/-- The tiers an agent brings, if it does not inherit the home ones. -/
def tierBase (config : ClientConfig) (agentId : String) (route : AgentRouteConfig) :
    Except String (Option RouterConfig) :=
  match route.mode with
  | .inherit => .ok none
  | .custom =>
    match route.customRoute with
    | none => .error ("Agent `" ++ agentId ++ "` custom mode requires custom_route")
    | some tiers => some <$> tiers.materialize config.router
  | .profile =>
    match route.profile with
    | none => .error ("Agent `" ++ agentId ++ "` profile mode requires a profile")
    | some name =>
      match config.profiles.lookup name with
      | none => .error ("Agent `" ++ agentId ++ "` mounts unknown profile `" ++ name ++ "`")
      | some tiers => some <$> tiers.materialize config.router

theorem tierBase_sameLock {config : ClientConfig} {agentId : String} {route : AgentRouteConfig}
    {base : RouterConfig} (h : config.tierBase agentId route = .ok (some base)) :
    base.SameLock config.router := by
  have hsome : ∀ {tiers : AgentTierRoutes},
      some <$> tiers.materialize config.router = .ok (some base) →
        base.SameLock config.router := by
    intro tiers hmap
    obtain ⟨router, hrouter, heq⟩ := except_map_eq_ok.mp hmap
    obtain rfl := Option.some.inj heq
    exact AgentTierRoutes.materializeFrom_sameLock hrouter
  rw [tierBase] at h
  split at h
  · cases h
  · split at h
    · cases h
    · exact hsome h
  · split at h
    · cases h
    · split at h
      · cases h
      · exact hsome h

/-- The effective mode and target of an agent over its tiers; `none` for pure inheritance. -/
def compileAgentRoute (config : ClientConfig) (agentId : String) (route : AgentRouteConfig)
    (base : Option RouterConfig) : Except String (Option RouterConfig) :=
  let homeMode := config.effectiveHomeRoutingMode
  let homeDirectTarget := config.effectiveHomeDirectTarget
  let effectiveMode := route.routingMode.getD homeMode
  let effectiveDirectTarget := route.directTarget.or homeDirectTarget
  let directTargetDiffers := effectiveMode = .direct ∧ effectiveDirectTarget ≠ homeDirectTarget
  if base.isNone ∧ effectiveMode = homeMode ∧ ¬ directTargetDiffers then .ok none
  else some <$> compileRouterConfig (base.getD config.router) effectiveMode effectiveDirectTarget
    ("Agent `" ++ agentId ++ "`")

/-- `none` where the agent uses the home router. -/
def customRouterForAgent (config : ClientConfig) (agentId : String) :
    Except String (Option RouterConfig) := do
  ensure (isValidAgentId agentId) ("invalid Agent route id `" ++ agentId ++ "`")
  match config.agentRoutes.lookup agentId with
  | none => return none
  | some route =>
    let base ← config.tierBase agentId route
    config.compileAgentRoute agentId route base

theorem customRouterForAgent_sameLock {config : ClientConfig} {agentId : String}
    {router : RouterConfig} (h : config.customRouterForAgent agentId = .ok (some router)) :
    router.SameLock config.router := by
  obtain ⟨-, h⟩ := except_seq_eq_ok.mp h
  split at h
  · nomatch h
  next route _ =>
    obtain ⟨base, hbase, h⟩ := except_bind_eq_ok.mp h
    rw [compileAgentRoute] at h
    split at h
    · nomatch h
    · obtain ⟨compiled, hcompiled, heq⟩ := except_map_eq_ok.mp h
      obtain rfl := Option.some.inj heq
      have hcompiled := compileRouterConfig_sameLock hcompiled
      -- the agent's own tiers carry the lock as well as the home router does
      rcases base with - | base
      · exact hcompiled
      · exact hcompiled.trans (tierBase_sameLock hbase)

/-! ## A harness overlay -/

def harnessRuleId (agentId requestedModel : String) : String :=
  "harness-" ++ agentId ++ "-" ++ requestedModel

/-- `text.replace('-', "_")`. -/
def replaceHyphens (text : String) : String := text.map fun c ↦ if c = '-' then '_' else c

def harnessPoolId (agentId requestedModel : String) : String :=
  "__harness_" ++ replaceHyphens agentId ++ "_" ++ replaceHyphens requestedModel

/-- The loop over the configured models: each gets a pool and an exact rule. -/
def compileHarnessRules (agentId : String) (pools : AList fun _ : String ↦ List UpstreamModel) :
    List (String × AgentRouteTarget) →
      Except String (List Rule × AList fun _ : String ↦ List UpstreamModel)
  | [] => .ok ([], pools)
  | (requestedModel, target) :: rest => do
    let upstream ← (upstreamRef target.upstream).mapError fun error ↦
      "Agent `" ++ agentId ++ "` Harness route has invalid upstream: " ++ error
    let pool := harnessPoolId agentId requestedModel
    let rule : Rule :=
      { id := harnessRuleId agentId requestedModel
        matcher := { requestedModel := some requestedModel }
        routeTo := pool }
    let (rules, pools) ←
      compileHarnessRules agentId (pools.insert pool [⟨upstream, target.model⟩]) rest
    return (rule :: rules, pools)

def compileHarnessModelRoutes (agentId : String)
    (configured : AList fun _ : String ↦ AgentRouteTarget) (router : RouterConfig) :
    Except String RouterConfig := do
  let reservedIds := (harnessRequestModels agentId).map (harnessRuleId agentId)
  let reservedPools := (harnessRequestModels agentId).map (harnessPoolId agentId)
  let kept := router.rules.filter fun rule ↦ rule.id ∉ reservedIds
  let pools := reservedPools.foldl (fun pools pool ↦ pools.erase pool) router.pools
  let (compiled, pools) ← compileHarnessRules agentId pools (members configured)
  return { router with pools := pools, rules := compiled ++ kept }

theorem compileHarnessModelRoutes_sameLock {agentId : String}
    {configured : AList fun _ : String ↦ AgentRouteTarget} {router compiled : RouterConfig}
    (h : compileHarnessModelRoutes agentId configured router = .ok compiled) :
    compiled.SameLock router ∧ compiled.honorExactModel = router.honorExactModel ∧
      compiled.routingMode = router.routingMode := by
  obtain ⟨rules, -, h⟩ := except_bind_eq_ok.mp h
  obtain rfl := Except.ok.inj h
  exact ⟨.refl _, rfl, rfl⟩

/-- An exact-model overlay, consulted before an agent's own router. -/
structure HarnessRouterConfig where
  router : RouterConfig
  requestedModels : List String

/-- The router section an overlay is built from: nothing of the home routes is left in it. -/
def clearedRouter (router : RouterConfig) : RouterConfig :=
  { router with
    pools := ∅
    rules := []
    hintRoutes := []
    heuristic := none
    defaultPool := ""
    honorExactModel := false
    recovery := .strict
    routingMode := .tiered }

def compileHarnessOverlay (config : ClientConfig) (agentId : String) (route : AgentRouteConfig) :
    Except String HarnessRouterConfig := do
  let router ← compileHarnessModelRoutes agentId route.harnessModelRoutes
    (clearedRouter config.router)
  match router.rules.head? with
  | none => .error ("Agent `" ++ agentId ++ "` Harness 映射未生成路由规则")
  | some rule =>
    return ⟨{ router with defaultPool := rule.routeTo },
      (members route.harnessModelRoutes).map Prod.fst⟩

def harnessRouterForAgent (config : ClientConfig) (agentId : String) :
    Except String (Option HarnessRouterConfig) := do
  ensure (isValidAgentId agentId) ("invalid Agent route id `" ++ agentId ++ "`")
  match config.agentRoutes.lookup agentId with
  | none => return none
  | some route =>
    if !route.harnessModelMappingEnabled || route.harnessModelRoutes.entries.isEmpty then
      return none
    some <$> config.compileHarnessOverlay agentId route

/-- What an overlay is: the lock of the home router, one exact rule at a time, and no pinning. -/
theorem harnessRouterForAgent_spec {config : ClientConfig} {agentId : String}
    {overlay : HarnessRouterConfig}
    (h : config.harnessRouterForAgent agentId = .ok (some overlay)) :
    overlay.router.SameLock config.router ∧ overlay.router.honorExactModel = false ∧
      overlay.router.routingMode = .tiered := by
  obtain ⟨-, h⟩ := except_seq_eq_ok.mp h
  split at h
  · nomatch h
  · split at h
    · nomatch h
    · obtain ⟨compiled, hcompiled, heq⟩ := except_map_eq_ok.mp h
      obtain rfl := Option.some.inj heq
      obtain ⟨router, hrouter, h⟩ := except_bind_eq_ok.mp hcompiled
      split at h
      · nomatch h
      · obtain rfl := Except.ok.inj h
        obtain ⟨hlock, hexact, hmode⟩ := compileHarnessModelRoutes_sameLock hrouter
        exact ⟨hlock.trans (.refl _), hexact, hmode⟩

/-! ## Every compiled router -/

/-- The routers a configuration is compiled into. -/
inductive Compiles (config : ClientConfig) : RouterConfig → Prop
  | home {router} (h : config.homeRouterConfig = .ok router) : Compiles config router
  | agent {agentId router} (h : config.customRouterForAgent agentId = .ok (some router)) :
    Compiles config router
  | harness {agentId overlay} (h : config.harnessRouterForAgent agentId = .ok (some overlay)) :
    Compiles config overlay.router

/-- Every compiled router carries the lock of the configured one. -/
theorem Compiles.sameLock {config : ClientConfig} {router : RouterConfig}
    (h : config.Compiles router) : router.SameLock config.router := by
  rcases h with h | h | h
  · exact compileRouterConfig_sameLock h
  · exact customRouterForAgent_sameLock h
  · exact (harnessRouterForAgent_spec h).1

/-- The routes of an overlay never leave the machine under the lock. -/
theorem harness_staysLocal {config : ClientConfig} (hlocked : config.router.Locked)
    {agentId : String} {overlay : HarnessRouterConfig}
    (h : config.harnessRouterForAgent agentId = .ok (some overlay)) {router : Router}
    (hrouter : router.config = overlay.router) (unicode : Unicode) (request : ChatRequest)
    (hints : List AgentHint) (candidates : List Candidate) :
    StaysLocal candidates (router.route unicode request hints candidates) := by
  obtain ⟨hlock, hexact, -⟩ := harnessRouterForAgent_spec h
  obtain ⟨hlocal, hcloud⟩ := hlock.locked_iff.mpr hlocked
  rw [← hrouter] at hexact hlocal hcloud
  exact Router.route_staysLocal unicode hexact hlocal hcloud request hints

end ClientConfig

/-! ## Quota-first routes -/

namespace Router

/-- Every account that a quota-first route can use has a local candidate. -/
def UsableAccountsLocal (router : Router) (features : RequestFeatures)
    (candidates : List Candidate) : Prop :=
  ∀ account ∈ router.config.quotaAccounts, ∀ first, supplied candidates account = some first →
    Servable features first →
      ∃ candidate ∈ candidates, candidate.isLocal = true ∧ candidate.target = account

/-- A quota-first route stays local exactly when every account it can use is local: the lock is
never read. -/
theorem staysLocal_routeQuotaFirst_iff (unicode : Unicode) (router : Router)
    (request : ChatRequest) (candidates : List Candidate) (lastUsed : Option UpstreamModel) :
    StaysLocal candidates (router.routeQuotaFirst unicode request candidates lastUsed) ↔
      router.UsableAccountsLocal (.extract unicode request []) candidates := by
  have hcases := routeQuotaFirst_cases unicode router request candidates lastUsed
  generalize RequestFeatures.extract unicode request [] = features at *
  constructor
  · intro hstays account haccount first hfirst hservable
    obtain ⟨i, hi⟩ := List.mem_iff_getElem?.mp haccount
    have hat : router.accountAt candidates i = some first := by
      rw [accountAt, hi, Option.bind_some, hfirst]
    obtain ⟨e, he, -, rfl⟩ := exists_entry lastUsed hat hservable
    rcases hcases with ⟨-, hnil⟩ | ⟨decision, hok, -, htargets⟩
    · rw [hnil] at he
      exact absurd he List.not_mem_nil
    · have htarget : e.candidate.target ∈ decision.targets := by
        rw [htargets]
        exact List.mem_map_of_mem (mem_tried.mpr he)
      obtain ⟨candidate, hmem, hlocal, heq⟩ := hstays decision hok _ htarget
      exact ⟨candidate, hmem, hlocal, heq.trans (mem_of_supplied hfirst).2⟩
  · intro hlocal decision hdecision target htarget
    rcases hcases with ⟨⟨error, herr⟩, -⟩ | ⟨decision', hok, -, htargets⟩
    · rw [herr] at hdecision
      cases hdecision
    · rw [hok] at hdecision
      obtain rfl := Outcome.ok.inj hdecision
      rw [htargets, List.mem_map] at htarget
      obtain ⟨e, he, rfl⟩ := htarget
      obtain ⟨hat, hservable, -⟩ := mem_entries.mp (mem_tried.mp he)
      obtain ⟨hget, hsupplied⟩ := accountAt_eq_some.mp hat
      exact hlocal _ (List.mem_of_getElem? hget) _ hsupplied hservable

end Router

/-! ## Keeping the lock -/

/-- The lock holds for a quota-first route, and for every router a client compiles. -/
def KeepsLock (client : ClientConfig) (unicode : Unicode) (router : Router)
    (request : ChatRequest) (candidates : List Candidate) (lastUsed : Option UpstreamModel) :
    Prop :=
  (router.config.Locked → router.config.routingMode = .quotaFirst →
    StaysLocal candidates (router.routeQuotaFirst unicode request candidates lastUsed)) ∧
  (client.router.Locked → ∀ compiled, client.Compiles compiled → compiled.Locked)

/-- **The lock beyond the tiers.** Every compiled router carries the lock, and a locked quota-first
route keeps it exactly when the accounts it can use are local ones. -/
theorem keepsLock_iff (client : ClientConfig) (unicode : Unicode) (router : Router)
    (request : ChatRequest) (candidates : List Candidate) (lastUsed : Option UpstreamModel) :
    KeepsLock client unicode router request candidates lastUsed ↔
      (router.config.Locked → router.config.routingMode = .quotaFirst →
        router.UsableAccountsLocal (.extract unicode request []) candidates) := by
  have hcompiled : client.router.Locked → ∀ compiled, client.Compiles compiled →
      compiled.Locked := by
    intro hlocked compiled hcompiles
    exact hcompiles.sameLock.locked_iff.mpr hlocked
  rw [KeepsLock, Router.staysLocal_routeQuotaFirst_iff]
  exact and_iff_left hcompiled

/-- A locked client in quota-first mode, with one account, in the cloud. -/
def lockedAccounts : Router where
  config := { localOnly := true, routingMode := .quotaFirst, quotaAccounts := [cloudModel] }
  valid := rfl

/-- The lock does not hold in quota-first mode: the home router of a locked client sends the request
to its cloud account. -/
theorem not_keepsLock_lockedAccounts :
    ({ listen := "127.0.0.1:8787", router := lockedAccounts.config } :
        ClientConfig).homeRouterConfig = .ok lockedAccounts.config ∧
      ¬ KeepsLock { listen := "127.0.0.1:8787", router := lockedAccounts.config } .ascii
        lockedAccounts plainRequest [cloudCandidate] none := by
  refine ⟨rfl, fun h ↦ ?_⟩
  obtain ⟨candidate, hmem, hlocal, -⟩ := h.1 ⟨rfl, rfl⟩ rfl _ rfl cloudModel List.mem_cons_self
  rw [List.mem_singleton.mp hmem] at hlocal
  nomatch hlocal

end TokenStation
