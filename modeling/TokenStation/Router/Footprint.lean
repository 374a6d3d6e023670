import TokenStation.Router.DistinctTargets

/-!
# What a route reads

A route that pins a model reads every candidate. Any other route reads its candidates only where
the configuration names their targets: two lists that supply the same candidates for the named
targets are routed alike, `route_congr` and `routeQuotaFirst_congr`, and only named targets are
chosen, `names_of_route` and `names_of_routeQuotaFirst`.

A router reads its pools as a map. Configurations that differ in the order of their pools alone are
`SameDocument`, and are routed alike as well.
-/

namespace TokenStation

open Library

namespace RouterConfig

/-- Some pool has the target as a member, or it is an account. -/
def Names (config : RouterConfig) (target : UpstreamModel) : Prop :=
  (∃ pool members, config.pools.lookup pool = some members ∧ target ∈ members) ∨
    target ∈ config.quotaAccounts

/-- The same fields, and the same pool under each name. -/
def SameDocument (config other : RouterConfig) : Prop :=
  { config with pools := ∅ } = { other with pools := ∅ } ∧
    ∀ pool, config.pools.lookup pool = other.pools.lookup pool

theorem SameDocument.eq_with_pools {config other : RouterConfig} (h : config.SameDocument other) :
    other = { config with pools := other.pools } := by
  obtain ⟨hfields, -⟩ := h
  obtain ⟨⟩ := config
  obtain ⟨⟩ := other
  simp_all

end RouterConfig

/-- The lists supply the same candidates for the targets the configuration names. -/
def SameSupply (config : RouterConfig) (candidates other : List Candidate) : Prop :=
  ∀ target, config.Names target → supplied candidates target = supplied other target

theorem installed_congr {candidates other : List Candidate} {members : List UpstreamModel}
    (h : ∀ target ∈ members, supplied candidates target = supplied other target) :
    installed candidates members = installed other members := by
  rw [installed, installed]
  exact List.filterMap_congr h

namespace Router

variable {router : Router} {candidates other : List Candidate} {features : RequestFeatures}

/-! ## Candidates -/

theorem SameSupply.installed_pool (h : SameSupply router.config candidates other) {pool : String}
    {members : List UpstreamModel} (hpool : router.config.pools.lookup pool = some members) :
    installed candidates members = installed other members := by
  apply installed_congr
  intro target htarget
  exact h target (Or.inl ⟨pool, members, hpool, htarget⟩)

/-- A pool is ranked by what is installed of it. -/
theorem rank_congr {members : List UpstreamModel} {pool : String}
    (h : installed candidates members = installed other members) :
    router.rank members candidates features pool = router.rank members other features pool := by
  rw [rank, rank, h]

theorem offers_congr (h : SameSupply router.config candidates other) (pool : String) :
    router.offers candidates features pool = router.offers other features pool := by
  rw [offers, offers]
  rcases hpool : router.config.pools.lookup pool with - | members
  · rfl
  · dsimp only
    rw [rank_congr (SameSupply.installed_pool h hpool)]

theorem extended_congr (h : SameSupply router.config candidates other) (pools : List String)
    (targets : List UpstreamModel) :
    router.extended candidates features pools targets =
      router.extended other features pools targets := by
  rw [extended, extended]
  congr 1
  funext targets pool
  rw [offers_congr h]

/-- The missing pool of a table that was never validated. -/
theorem route_of_lookup_eq_none {unicode : Unicode} {request : ChatRequest}
    {hints : List AgentHint} {pool : String} {decidedBy : DecidedBy}
    (hexact : router.config.honorExactModel = false)
    (hselect : router.selectPool unicode request hints
      (RequestFeatures.extract unicode request hints) = (pool, decidedBy))
    (hpool : router.config.pools.lookup pool = none) :
    router.route unicode request hints candidates = .panic := by
  simp only [route, hexact, Bool.false_eq_true, if_false]
  rw [hselect]
  simp only [hpool]

/-- Without a pinned model, a route reads the named candidates alone. -/
theorem route_congr (h : SameSupply router.config candidates other)
    (hexact : router.config.honorExactModel = false) (unicode : Unicode) (request : ChatRequest)
    (hints : List AgentHint) :
    router.route unicode request hints candidates = router.route unicode request hints other := by
  rcases hselect : router.selectPool unicode request hints
    (RequestFeatures.extract unicode request hints) with ⟨pool, decidedBy⟩
  rcases hpool : router.config.pools.lookup pool with - | members
  · rw [route_of_lookup_eq_none hexact hselect hpool, route_of_lookup_eq_none hexact hselect hpool]
  · rw [route_eq hexact hselect hpool, route_eq hexact hselect hpool,
      rank_congr (SameSupply.installed_pool h hpool)]
    congr 1
    funext targets
    rw [extended_congr h]

/-- A quota-first route reads the candidates of its accounts alone. -/
theorem routeQuotaFirst_congr (h : SameSupply router.config candidates other) (unicode : Unicode)
    (request : ChatRequest) (lastUsed : Option UpstreamModel) :
    router.routeQuotaFirst unicode request candidates lastUsed =
      router.routeQuotaFirst unicode request other lastUsed := by
  have hinstalled : installed candidates router.config.quotaAccounts =
      installed other router.config.quotaAccounts :=
    installed_congr fun target htarget ↦ h target (Or.inr htarget)
  rw [routeQuotaFirst, routeQuotaFirst, hinstalled]

/-! ## Targets -/

theorem mem_of_rank {members targets : List UpstreamModel} {pool : String}
    (h : router.rank members candidates features pool = .ok targets) :
    ∀ target ∈ targets, target ∈ members := by
  intro target htarget
  rcases rank_servedFrom router candidates features members pool with ⟨⟨error, herr⟩, -⟩ | hok
  · rw [herr] at h
    nomatch h
  · obtain rfl := Outcome.ok.inj (h.symm.trans hok)
    obtain ⟨candidate, hcandidate, rfl⟩ := List.mem_map.mp htarget
    -- what is ranked was served from the installed candidates, whose targets are members
    have hserved := (capable_of_mem_ranking hcandidate).1
    obtain ⟨p, hp⟩ := exists_servedFrom router features (installed candidates members)
    rw [hp, List.mem_filter] at hserved
    exact (mem_installed.mp hserved.1).2

theorem names_of_mem_offers {pool : String} {target : UpstreamModel}
    (h : target ∈ router.offers candidates features pool) : router.config.Names target := by
  rw [offers] at h
  rcases hpool : router.config.pools.lookup pool with - | members
  · rw [hpool] at h
    exact absurd h List.not_mem_nil
  · rw [hpool] at h
    dsimp only at h
    split at h
    next hrank => exact Or.inl ⟨pool, members, hpool, mem_of_rank hrank target h⟩
    next => exact absurd h List.not_mem_nil
    next => exact absurd h List.not_mem_nil

theorem names_of_route {unicode : Unicode} {request : ChatRequest} {hints : List AgentHint}
    {decision : Decision} (hexact : router.config.honorExactModel = false)
    (h : router.route unicode request hints candidates = .ok decision) :
    ∀ target ∈ decision.targets, router.config.Names target := by
  intro target htarget
  obtain ⟨members, targets, hpool, hrank, hextended, -⟩ := (route_eq_ok hexact rfl).mp h
  rw [hextended, mem_extended] at htarget
  rcases htarget with htarget | ⟨backup, -, htarget⟩
  · exact Or.inl ⟨_, members, hpool, mem_of_rank hrank target htarget⟩
  · exact names_of_mem_offers htarget

theorem names_of_routeQuotaFirst {unicode : Unicode} {request : ChatRequest}
    {lastUsed : Option UpstreamModel} {decision : Decision}
    (h : router.routeQuotaFirst unicode request candidates lastUsed = .ok decision) :
    ∀ target ∈ decision.targets, router.config.Names target := by
  intro target htarget
  rcases routeQuotaFirst_cases unicode router request candidates lastUsed with
    ⟨⟨error, herr⟩, -⟩ | ⟨decision', hok, -, htargets⟩
  · rw [herr] at h
    nomatch h
  · obtain rfl := Outcome.ok.inj (h.symm.trans hok)
    rw [htargets, List.mem_map] at htarget
    obtain ⟨entry, hentry, rfl⟩ := htarget
    -- an entry stands at a position of the account list
    obtain ⟨haccount, -⟩ := mem_entries.mp (mem_tried.mp hentry)
    exact Or.inr (List.mem_of_getElem? (accountAt_eq_some.mp haccount).1)

/-- A pinned model is served from the candidates. -/
theorem exists_candidate_of_routeExact {request : ChatRequest} {decision : Decision}
    (h : routeExact request features candidates = .ok decision) :
    ∀ target ∈ decision.targets, ∃ candidate ∈ candidates, candidate.target = target := by
  intro target htarget
  obtain ⟨candidate, hmem, -, -, -, heq⟩ := (mem_routeExact h target).mp htarget
  exact ⟨candidate, hmem, heq⟩

/-! ## Documents -/

/-- The order of the pools does not matter to a route. -/
theorem route_sameDocument {second : Router} (h : router.config.SameDocument second.config)
    (unicode : Unicode) (request : ChatRequest) (hints : List AgentHint)
    (candidates : List Candidate) :
    second.route unicode request hints candidates =
      router.route unicode request hints candidates := by
  obtain ⟨config, valid⟩ := router
  obtain ⟨config', valid'⟩ := second
  obtain ⟨pools, hpools⟩ : ∃ pools, config' = { config with pools } := ⟨_, h.eq_with_pools⟩
  subst hpools
  have hlookup : ∀ pool, pools.lookup pool = config.pools.lookup pool := fun pool ↦ (h.2 pool).symm
  by_cases hexact : config.honorExactModel = true
  · simp only [route, hexact, if_true]
  · rw [Bool.not_eq_true] at hexact
    -- nothing but the lookups of pools differs between the two
    have hoffers : ∀ features pool,
        (Router.mk { config with pools } valid').offers candidates features pool =
          (Router.mk config valid).offers candidates features pool := by
      intro features pool
      rw [offers, offers]
      simp only [hlookup]
      rfl
    have hextended : ∀ features backups targets,
        (Router.mk { config with pools } valid').extended candidates features backups targets =
          (Router.mk config valid).extended candidates features backups targets := by
      intro features backups targets
      rw [extended, extended]
      simp only [hoffers]
    rcases hselect : (Router.mk config valid).selectPool unicode request hints
      (RequestFeatures.extract unicode request hints) with ⟨pool, decidedBy⟩
    have hselect' : (Router.mk { config with pools } valid').selectPool unicode request hints
      (RequestFeatures.extract unicode request hints) = (pool, decidedBy) := hselect
    rcases hpool : config.pools.lookup pool with - | members
    · have hpool' : pools.lookup pool = none := (hlookup pool).trans hpool
      rw [route_of_lookup_eq_none hexact hselect hpool,
        route_of_lookup_eq_none hexact hselect' hpool']
    · have hpool' : pools.lookup pool = some members := (hlookup pool).trans hpool
      rw [route_eq hexact hselect hpool, route_eq hexact hselect' hpool']
      simp only [hextended]
      rfl

/-- A quota-first route does not read the pools. -/
theorem routeQuotaFirst_sameDocument {second : Router}
    (h : router.config.SameDocument second.config) (unicode : Unicode) (request : ChatRequest)
    (candidates : List Candidate) (lastUsed : Option UpstreamModel) :
    second.routeQuotaFirst unicode request candidates lastUsed =
      router.routeQuotaFirst unicode request candidates lastUsed := by
  obtain ⟨config, valid⟩ := router
  obtain ⟨config', valid'⟩ := second
  obtain ⟨pools, hpools⟩ : ∃ pools, config' = { config with pools } := ⟨_, h.eq_with_pools⟩
  subst hpools
  rfl

end Router

end TokenStation
