import TokenStation.Client.AgentRouters
import TokenStation.Client.Secrets
import TokenStation.Router.Footprint
import TokenStation.Serving.Lifecycle

/-!
# Reusing the published gateway

A gateway is assembled from a configuration: the home router is compiled, and every upstream adds
to the catalog the models its provider component reports. A draft is tested through the gateway
that is already published, as long as `homeGatewayIdentitiesMatch` says that the two would serve a
home request alike.

The match compares the upstreams that the home router names. A router that pins the requested model
reads all of the catalog, so `indistinguishable_iff` asks of it that the upstreams with a model in
either catalog are compared as well.
-/

namespace TokenStation

open Library ClientConfig

/-! ## Assembly -/

/-- What decides which package serves a provider dialect. -/
structure ProviderPackage where
  dir : String
  /-- The explicit binding of the dialect. -/
  package : Option String
  allowUnsigned : Bool
  deriving DecidableEq

/-- The capabilities that the component of a package reports for a provider with declared models. -/
abbrev ProviderComponent :=
  ProviderPackage → ProviderConfig → List CatalogModel → Except String (List CatalogModel)

/-- The legacy flags, as the evidence has them. -/
def projectCapabilityEvidenceForV1 (served : CatalogModel) : CatalogModel :=
  let capability := served.capability
  { served with capability := { capability with
      tool := (capability.toolState?.map CapabilityState.isSupported).getD capability.tool
      vision := (capability.visionState?.map CapabilityState.isSupported).getD capability.vision
      jsonSchema :=
        (capability.jsonSchemaState?.map CapabilityState.isSupported).getD capability.jsonSchema } }

/-- What the component left out, from the configured model of that name. -/
def restoreConfiguredCapabilityEvidence (configured : List CatalogModel)
    (reported : CatalogModel) : CatalogModel :=
  match configured.find? fun saved ↦ saved.model == reported.model with
  | none => reported
  | some saved =>
    let capability := reported.capability
    { reported with capability := { capability with
        toolState? := capability.toolState?.or saved.capability.toolState?
        visionState? := capability.visionState?.or saved.capability.visionState?
        jsonSchemaState? := capability.jsonSchemaState?.or saved.capability.jsonSchemaState?
        contextWindow :=
          if capability.contextWindow = 0 then saved.capability.contextWindow
          else capability.contextWindow
        maxOutputTokens :=
          if capability.maxOutputTokens = 0 then saved.capability.maxOutputTokens
          else capability.maxOutputTokens } }

namespace UpstreamConfig

def providerConfig (entry : UpstreamConfig) : ProviderConfig where
  provider := entry.provider
  baseUrl := entry.baseUrl
  auth := entry.auth.map fun auth ↦ ⟨auth.slot⟩

end UpstreamConfig

/-- A place, and what can be done there. -/
abbrev CatalogEntry := UpstreamModel × ModelCapability

namespace ClientConfig

def providerPackage (config : ClientConfig) (provider : String) : ProviderPackage where
  dir := config.plugins.dir
  package := config.plugins.providers.lookup provider
  allowUnsigned := config.plugins.allowUnsigned

section Assembly

variable (component : ProviderComponent) (config : ClientConfig)

/-- The body of the loop over the upstreams: what one of them adds to the catalog. -/
def assembleUpstream (entry : String × UpstreamConfig) : Outcome String (List CatalogEntry) :=
  match component (config.providerPackage entry.2.provider) entry.2.providerConfig
      (entry.2.models.map projectCapabilityEvidenceForV1) with
  | .error message => .err ("upstream `" ++ entry.1 ++ "` capabilities: " ++ message)
  | .ok reported => match UpstreamRef.new entry.1 with
    | .error _ => .panic
    | .ok reference => .ok (reported.map fun served ↦
        let capability := restoreConfiguredCapabilityEvidence entry.2.models served
        (⟨reference, capability.model⟩, capability.capability))

/-- The catalog of a list of upstreams. -/
def assembleUpstreams : List (String × UpstreamConfig) → Outcome String (List CatalogEntry)
  | [] => .ok []
  | entry :: rest =>
    (assembleUpstream component config entry).bind fun served ↦
      (assembleUpstreams rest).bind fun catalog ↦ .ok (served ++ catalog)

variable {component config} {entries : List (String × UpstreamConfig)}
  {catalog : List CatalogEntry}

theorem assembleUpstreams_cons {entry : String × UpstreamConfig} :
    assembleUpstreams component config (entry :: entries) = .ok catalog ↔
      ∃ served rest, assembleUpstream component config entry = .ok served ∧
        assembleUpstreams component config entries = .ok rest ∧ served ++ rest = catalog := by
  rw [assembleUpstreams, Outcome.bind_eq_ok]
  simp only [Outcome.bind_eq_ok, Outcome.ok.injEq]
  constructor
  · rintro ⟨served, hserved, rest, hrest, heq⟩
    exact ⟨served, rest, hserved, hrest, heq⟩
  · rintro ⟨served, rest, hserved, hrest, heq⟩
    exact ⟨served, hserved, rest, hrest, heq⟩

/-- An upstream adds places of its own. -/
theorem name_of_assembleUpstream {entry : String × UpstreamConfig} {served : List CatalogEntry}
    (h : assembleUpstream component config entry = .ok served) :
    ∀ place ∈ served, place.1.upstream.name = entry.1 := by
  unfold assembleUpstream at h
  split at h
  · cases h
  · split at h
    · cases h
    next reference hreference =>
      obtain rfl := Outcome.ok.inj h
      intro place hplace
      obtain ⟨reported, -, rfl⟩ := List.mem_map.mp hplace
      rw [UpstreamRef.new] at hreference
      split at hreference
      · obtain rfl := Except.ok.inj hreference
        rfl
      · cases hreference

theorem assembleUpstream_ne_panic {entry : String × UpstreamConfig}
    (h : isReferenceName entry.1 = true) : assembleUpstream component config entry ≠ .panic := by
  unfold assembleUpstream
  split
  · rintro ⟨⟩
  · rw [UpstreamRef.new, dif_pos h]
    rintro ⟨⟩

/-- The names of an accepted configuration are references, so its assembly never panics. -/
theorem assembleUpstreams_ne_panic {parsers : Parsers} (h : config.validate parsers = .ok ()) :
    assembleUpstreams component config (members config.upstreams) ≠ .panic := by
  have hnames : ∀ entry ∈ members config.upstreams, isReferenceName entry.1 = true :=
    fun entry hentry ↦ ((validate_credentials h).1 _ _ (mem_members.mp hentry)).1
  revert hnames
  induction members config.upstreams with
  | nil => exact fun _ ↦ nofun
  | cons entry rest ih =>
    intro hnames hpanic
    rw [assembleUpstreams] at hpanic
    rcases hentry : assembleUpstream component config entry with served | error | -
    · rw [hentry, Outcome.ok_bind] at hpanic
      rcases hrest : assembleUpstreams component config rest with catalog | error | -
      · rw [hrest] at hpanic
        nomatch hpanic
      · rw [hrest] at hpanic
        nomatch hpanic
      · exact ih (fun later hlater ↦ hnames later (List.mem_cons_of_mem _ hlater)) hrest
    · rw [hentry] at hpanic
      nomatch hpanic
    · exact assembleUpstream_ne_panic (hnames entry List.mem_cons_self) hentry

/-- The catalog of one name is assembled from the entries of that name. -/
theorem assembleUpstreams_filter (h : assembleUpstreams component config entries = .ok catalog)
    (name : String) :
    assembleUpstreams component config (entries.filter fun entry ↦ entry.1 = name) =
      .ok (catalog.filter fun place ↦ place.1.upstream.name = name) := by
  induction entries generalizing catalog with
  | nil =>
    obtain rfl := Outcome.ok.inj h
    rfl
  | cons entry rest ih =>
    obtain ⟨served, catalog', hserved, hrest, rfl⟩ := assembleUpstreams_cons.mp h
    have hnames := name_of_assembleUpstream hserved
    rw [List.filter_append]
    by_cases hname : entry.1 = name
    · rw [List.filter_cons_of_pos (by simpa using hname)]
      have hall : served.filter (fun place ↦ place.1.upstream.name = name) = served :=
        List.filter_eq_self.mpr fun place hplace ↦ by simp [hnames place hplace, hname]
      rw [hall]
      exact assembleUpstreams_cons.mpr ⟨served, _, hserved, ih hrest, rfl⟩
    · rw [List.filter_cons_of_neg (by simpa using hname)]
      have hnone : served.filter (fun place ↦ place.1.upstream.name = name) = [] :=
        List.filter_eq_nil_iff.mpr fun place hplace ↦ by simp [hnames place hplace, hname]
      rw [hnone, List.nil_append]
      exact ih hrest

/-- Every place belongs to an entry. -/
theorem exists_entry_of_mem_catalog
    (h : assembleUpstreams component config entries = .ok catalog) {place : CatalogEntry}
    (hplace : place ∈ catalog) : ∃ entry ∈ entries, place.1.upstream.name = entry.1 := by
  induction entries generalizing catalog with
  | nil =>
    obtain rfl := Outcome.ok.inj h
    exact absurd hplace List.not_mem_nil
  | cons entry rest ih =>
    obtain ⟨served, catalog', hserved, hrest, rfl⟩ := assembleUpstreams_cons.mp h
    rcases List.mem_append.mp hplace with hplace | hplace
    · exact ⟨entry, List.mem_cons_self, name_of_assembleUpstream hserved place hplace⟩
    · obtain ⟨later, hlater, hname⟩ := ih hrest hplace
      exact ⟨later, List.mem_cons_of_mem _ hlater, hname⟩

/-- The catalog keeps the order of the entries. -/
theorem assembleUpstreams_pairwise
    (h : assembleUpstreams component config entries = .ok catalog)
    (hsorted : entries.Pairwise fun entry later ↦ entry.1 ≤ later.1) :
    catalog.Pairwise fun place later ↦ place.1.upstream.name ≤ later.1.upstream.name := by
  induction entries generalizing catalog with
  | nil =>
    obtain rfl := Outcome.ok.inj h
    exact List.Pairwise.nil
  | cons entry rest ih =>
    obtain ⟨served, catalog', hserved, hrest, rfl⟩ := assembleUpstreams_cons.mp h
    obtain ⟨hfirst, hsorted⟩ := List.pairwise_cons.mp hsorted
    have hnames := name_of_assembleUpstream hserved
    refine List.pairwise_append.mpr ⟨?_, ih hrest hsorted, ?_⟩
    · apply List.pairwise_of_forall_mem_list
      intro place hplace later hlater
      rw [hnames place hplace, hnames later hlater]
    · intro place hplace later hlater
      obtain ⟨entry', hentry', hname⟩ := exists_entry_of_mem_catalog hrest hlater
      rw [hnames place hplace, hname]
      exact hfirst entry' hentry'

end Assembly

/-! ## The match -/

def isLocalUpstream (config : ClientConfig) (name : String) : Bool :=
  (config.upstreams.lookup name).any UpstreamConfig.isLocal

/-- The upstreams that the home router names. -/
def homeReferencedUpstreams (config : ClientConfig) : Option (Finset String) :=
  match config.homeRouterConfig with
  | .error _ => none
  | .ok router => some (((members router.pools).flatMap Prod.snd ++ router.quotaAccounts).map
      fun target ↦ target.upstream.name).toFinset

end ClientConfig

/-- `PartialEq` of router sections. -/
def RouterConfig.same (config other : RouterConfig) : Bool :=
  decide (config.version = other.version) && sameMap config.pools other.pools
    && decide (config.rules = other.rules) && decide (config.hintRoutes = other.hintRoutes)
    && decide (config.heuristic = other.heuristic)
    && decide (config.defaultPool = other.defaultPool)
    && decide (config.assumedContextWindow = other.assumedContextWindow)
    && decide (config.honorExactModel = other.honorExactModel)
    && decide (config.recovery = other.recovery) && decide (config.localOnly = other.localOnly)
    && decide (config.allowCloudFallback = other.allowCloudFallback)
    && decide (config.routingMode = other.routingMode) && decide (config.quota = other.quota)
    && decide (config.quotaAccounts = other.quotaAccounts)

/-- `PartialEq` of price tables. -/
def PricingConfig.same (pricing other : PricingConfig) : Bool :=
  decide (pricing.version = other.version) && sameMap pricing.models other.models

section Match

variable (published candidate : ClientConfig)

/-- The package binding of an upstream of the published configuration is the candidate's. -/
def samePackage (name : String) : Bool :=
  match published.upstreams.lookup name with
  | none => false
  | some upstream =>
    decide (published.plugins.providers.lookup upstream.provider =
      candidate.plugins.providers.lookup upstream.provider)

def homeGatewayConfigsMatch : Bool :=
  match published.homeRouterConfig, candidate.homeRouterConfig,
      published.homeReferencedUpstreams, candidate.homeReferencedUpstreams with
  | .ok publishedRouter, .ok candidateRouter, some publishedUpstreams, some candidateUpstreams =>
    decide (publishedUpstreams = candidateUpstreams)
      && decide (∀ name ∈ publishedUpstreams,
        published.upstreams.lookup name = candidate.upstreams.lookup name)
      && decide (∀ name ∈ publishedUpstreams, samePackage published candidate name = true)
      && decide (published.plugins.dir = candidate.plugins.dir)
      && decide (published.plugins.allowUnsigned = candidate.plugins.allowUnsigned)
      && publishedRouter.same candidateRouter
      && decide (published.data.dir = candidate.data.dir)
      && decide (published.data.requestBodyCapture = candidate.data.requestBodyCapture)
      && decide (published.health = candidate.health)
      && decide (published.concurrency = candidate.concurrency)
      && published.pricing.same candidate.pricing
      && decide (published.egress = candidate.egress)
  | _, _, _, _ => false

/-- The credential epoch of an upstream, zero before the first one. -/
def epochOf (epochs : UpstreamEpochs) (name : String) : ℕ := (epochs.lookup name).getD 0

def homeGatewayIdentitiesMatch (publishedEpochs candidateEpochs : UpstreamEpochs) : Bool :=
  homeGatewayConfigsMatch published candidate
    && published.homeReferencedUpstreams.any fun upstreams ↦
      decide (∀ name ∈ upstreams, epochOf publishedEpochs name = epochOf candidateEpochs name)

end Match

/-! ## Home gateways -/

/-- A gateway assembled from a configuration, with the router of the home route. -/
structure HomeGateway (component : ProviderComponent) where
  config : ClientConfig
  epochs : UpstreamEpochs
  router : Router
  catalog : List CatalogEntry
  compiled : config.homeRouterConfig = .ok router.config
  assembled : assembleUpstreams component config (members config.upstreams) = .ok catalog

/-- What a gateway has measured of its places. -/
structure Readings where
  health : UpstreamModel → Health
  quota : UpstreamModel → QuotaState
  /-- What the image requests so far have shown. -/
  imageObservation : UpstreamModel → Option CapabilityState

/-- Everything is up, and nothing else was measured. -/
def Readings.healthy : Readings where
  health _ := .healthy
  quota _ := {}
  imageObservation _ := none

namespace HomeGateway

variable {component : ProviderComponent}

section Routing

variable (unicode : Unicode) (gateway : HomeGateway component) (readings : Readings)

def candidateOf (place : CatalogEntry) : Candidate where
  target := place.1
  capability := match readings.imageObservation place.1 with
    | some state => { place.2 with visionState? := some state }
    | none => place.2
  health := readings.health place.1
  isLocal := gateway.config.isLocalUpstream place.1.upstream.name
  quota := match gateway.router.config.routingMode with
    | .tiered => {}
    | .quotaFirst => readings.quota place.1

def candidates : List Candidate := gateway.catalog.map (gateway.candidateOf readings)

/-- What the home router decides, in the mode it runs. -/
def routed (request : ChatRequest) (hints : List AgentHint) (lastUsed : Option UpstreamModel) :
    Outcome NoRoute Decision :=
  match gateway.router.config.routingMode with
  | .tiered => gateway.router.route unicode request hints (gateway.candidates readings)
  | .quotaFirst =>
    gateway.router.routeQuotaFirst unicode request (gateway.candidates readings) lastUsed

/-- Some place of the catalog belongs to the upstream. -/
def Serves (name : String) : Prop := ∃ place ∈ gateway.catalog, place.1.upstream.name = name

end Routing

/-- Both gateways mean the same by a name: the upstream's definition, the package that speaks its
dialect, and the epoch of its credential. -/
def SameUpstream (published candidate : HomeGateway component) (name : String) : Prop :=
  published.config.upstreams.lookup name = candidate.config.upstreams.lookup name ∧
    (∀ upstream ∈ published.config.upstreams.lookup name,
      published.config.providerPackage upstream.provider =
        candidate.config.providerPackage upstream.provider) ∧
    epochOf published.epochs name = epochOf candidate.epochs name

/-- The routers are equal, every home request is routed alike, and wherever it goes the two
gateways mean the same. -/
def Indistinguishable (published candidate : HomeGateway component) : Prop :=
  published.router.config.SameDocument candidate.router.config ∧
    ∀ unicode readings request hints lastUsed,
      candidate.routed unicode readings request hints lastUsed =
          published.routed unicode readings request hints lastUsed ∧
        ∀ decision, published.routed unicode readings request hints lastUsed = .ok decision →
          ∀ target ∈ decision.targets, published.SameUpstream candidate target.upstream.name

/-! ### What a match says -/

variable {published candidate : HomeGateway component}

/-- The upstreams that the router names. -/
theorem exists_homeReferencedUpstreams (gateway : HomeGateway component) :
    ∃ names, gateway.config.homeReferencedUpstreams = some names ∧
      ∀ target, gateway.router.config.Names target → target.upstream.name ∈ names := by
  rw [homeReferencedUpstreams, gateway.compiled]
  refine ⟨_, rfl, ?_⟩
  intro target hnames
  rw [List.mem_toFinset]
  refine List.mem_map_of_mem (List.mem_append.mpr ?_)
  rcases hnames with ⟨pool, listed, hpool, htarget⟩ | haccount
  · exact Or.inl (List.mem_flatMap.mpr ⟨(pool, listed), mem_members.mpr hpool, htarget⟩)
  · exact Or.inr haccount

theorem sameDocument_of_same {config other : RouterConfig} (h : config.same other = true) :
    config.SameDocument other := by
  obtain ⟨⟩ := config
  obtain ⟨⟩ := other
  simp only [RouterConfig.same, Bool.and_eq_true, decide_eq_true_eq, sameMap_iff] at h
  obtain ⟨⟨⟨⟨⟨⟨⟨⟨⟨⟨⟨⟨⟨rfl, hpools⟩, rfl⟩, rfl⟩, rfl⟩, rfl⟩, rfl⟩, rfl⟩, rfl⟩, rfl⟩, rfl⟩, rfl⟩,
    rfl⟩, rfl⟩ := h
  exact ⟨rfl, hpools⟩

/-- A match compares the routers, and every upstream that they name. -/
theorem matched (h : homeGatewayIdentitiesMatch published.config candidate.config published.epochs
      candidate.epochs = true) :
    published.router.config.SameDocument candidate.router.config ∧
      ∀ target, published.router.config.Names target →
        published.SameUpstream candidate target.upstream.name := by
  obtain ⟨names, hnames, hreferenced⟩ := published.exists_homeReferencedUpstreams
  obtain ⟨names', hnames', -⟩ := candidate.exists_homeReferencedUpstreams
  rw [homeGatewayIdentitiesMatch, homeGatewayConfigsMatch, published.compiled, candidate.compiled,
    hnames, hnames'] at h
  simp only [Bool.and_eq_true, decide_eq_true_eq, Option.any_some] at h
  obtain ⟨⟨⟨⟨⟨⟨⟨⟨⟨⟨⟨⟨-, hupstreams⟩, hpackages⟩, hdir⟩, hunsigned⟩, hrouter⟩, -⟩, -⟩, -⟩, -⟩, -⟩,
    -⟩, hepochs⟩ := h
  refine ⟨sameDocument_of_same hrouter, fun target htarget ↦ ?_⟩
  have hname := hreferenced target htarget
  refine ⟨hupstreams _ hname, ?_, hepochs _ hname⟩
  intro upstream hupstream
  have hpackage := hpackages _ hname
  rw [samePackage, Option.mem_def.mp hupstream] at hpackage
  rw [providerPackage, providerPackage, hdir, hunsigned, of_decide_eq_true hpackage]

/-! ### Catalogs -/

/-- The places of an upstream are assembled from its entry alone. -/
theorem assembled_filter (gateway : HomeGateway component) (name : String) :
    assembleUpstreams component gateway.config
        ((gateway.config.upstreams.lookup name).toList.map fun upstream ↦ (name, upstream)) =
      .ok (gateway.catalog.filter fun place ↦ place.1.upstream.name = name) := by
  rw [← members_filter]
  exact assembleUpstreams_filter gateway.assembled name

theorem SameUpstream.catalog_filter {name : String} (h : published.SameUpstream candidate name) :
    published.catalog.filter (fun place ↦ place.1.upstream.name = name) =
      candidate.catalog.filter fun place ↦ place.1.upstream.name = name := by
  obtain ⟨hlookup, hpackage, -⟩ := h
  have hpublished := published.assembled_filter name
  have hcandidate := candidate.assembled_filter name
  rw [← hlookup] at hcandidate
  refine Outcome.ok.inj (hpublished.symm.trans (Eq.trans ?_ hcandidate))
  rcases hupstream : published.config.upstreams.lookup name with - | upstream
  · rfl
  · simp only [Option.toList_some, List.map_cons, List.map_nil, assembleUpstreams,
      assembleUpstream, hpackage upstream hupstream]

theorem candidateOf_congr (hmode : published.router.config.routingMode =
      candidate.router.config.routingMode) {place : CatalogEntry}
    (h : published.SameUpstream candidate place.1.upstream.name) (readings : Readings) :
    published.candidateOf readings place = candidate.candidateOf readings place := by
  simp only [candidateOf, isLocalUpstream, hmode, h.1]

/-- A candidate is supplied from the places of its upstream. -/
theorem supplied_candidates (gateway : HomeGateway component) (readings : Readings)
    (target : UpstreamModel) :
    supplied (gateway.candidates readings) target =
      ((gateway.catalog.filter fun place ↦ place.1.upstream.name = target.upstream.name).find?
        fun place ↦ place.1 = target).map (gateway.candidateOf readings) := by
  rw [supplied, candidates, List.find?_map, List.find?_filter]
  congr 1
  refine congrArg (gateway.catalog.find? ·) (funext fun place ↦ ?_)
  by_cases htarget : place.1 = target
  · simp [candidateOf, htarget]
  · simp [candidateOf, htarget]

theorem SameUpstream.supplied_eq (hmode : published.router.config.routingMode =
      candidate.router.config.routingMode) {target : UpstreamModel}
    (h : published.SameUpstream candidate target.upstream.name) (readings : Readings) :
    supplied (published.candidates readings) target =
      supplied (candidate.candidates readings) target := by
  rw [supplied_candidates, supplied_candidates, h.catalog_filter]
  refine Option.map_congr fun place hplace ↦ ?_
  have htarget : place.1 = target := by simpa using List.find?_some hplace
  exact candidateOf_congr hmode (htarget ▸ h) readings

/-- Upstreams without a place contribute nothing, so comparing the others is enough. -/
theorem catalog_eq (h : ∀ name, published.Serves name ∨ candidate.Serves name →
      published.SameUpstream candidate name) : published.catalog = candidate.catalog := by
  refine eq_of_filter_eq (assembleUpstreams_pairwise published.assembled (members_pairwise _))
    (assembleUpstreams_pairwise candidate.assembled (members_pairwise _)) ?_
  intro name
  by_cases hserves : published.Serves name ∨ candidate.Serves name
  · exact (h name hserves).catalog_filter
  · rw [not_or] at hserves
    have hnone : ∀ gateway : HomeGateway component, ¬ gateway.Serves name →
        gateway.catalog.filter (fun place ↦ place.1.upstream.name = name) = [] := by
      intro gateway hnot
      refine List.filter_eq_nil_iff.mpr fun place hplace heq ↦ hnot ⟨place, hplace, ?_⟩
      simpa using heq
    rw [hnone published hserves.1, hnone candidate hserves.2]

theorem candidates_eq (hmode : published.router.config.routingMode =
      candidate.router.config.routingMode)
    (h : ∀ name, published.Serves name ∨ candidate.Serves name →
      published.SameUpstream candidate name) (readings : Readings) :
    published.candidates readings = candidate.candidates readings := by
  rw [candidates, candidates, catalog_eq h]
  refine List.map_congr_left fun place hplace ↦ ?_
  exact candidateOf_congr hmode (h _ (Or.inr ⟨place, hplace, rfl⟩)) readings

/-! ### The exact condition -/

/-- Where the router reads only what it names, a match suffices. -/
theorem routed_eq_of_named
    (hdocument : published.router.config.SameDocument candidate.router.config)
    (hnamed : ∀ target, published.router.config.Names target →
      published.SameUpstream candidate target.upstream.name)
    (hreads : published.router.config.routingMode = .quotaFirst ∨
      published.router.config.honorExactModel = false)
    (unicode : Unicode) (readings : Readings) (request : ChatRequest) (hints : List AgentHint)
    (lastUsed : Option UpstreamModel) :
    candidate.routed unicode readings request hints lastUsed =
      published.routed unicode readings request hints lastUsed := by
  have hmode : published.router.config.routingMode = candidate.router.config.routingMode := by
    rw [hdocument.eq_with_pools]
  have hsupply : SameSupply published.router.config (published.candidates readings)
      (candidate.candidates readings) :=
    fun target htarget ↦ (hnamed target htarget).supplied_eq hmode readings
  unfold routed
  rw [← hmode]
  split
  next htiered =>
    have hexact := hreads.resolve_left fun hquota ↦ nomatch htiered.symm.trans hquota
    rw [Router.route_sameDocument hdocument, Router.route_congr hsupply hexact]
  next =>
    rw [Router.routeQuotaFirst_sameDocument hdocument, Router.routeQuotaFirst_congr hsupply]

theorem names_of_routed {unicode : Unicode} {readings : Readings} {request : ChatRequest}
    {hints : List AgentHint} {lastUsed : Option UpstreamModel} {decision : Decision}
    (hreads : published.router.config.routingMode = .quotaFirst ∨
      published.router.config.honorExactModel = false)
    (h : published.routed unicode readings request hints lastUsed = .ok decision) :
    ∀ target ∈ decision.targets, published.router.config.Names target := by
  unfold routed at h
  split at h
  next htiered =>
    have hexact := hreads.resolve_left fun hquota ↦ nomatch htiered.symm.trans hquota
    exact Router.names_of_route hexact h
  next => exact Router.names_of_routeQuotaFirst h

/-- A pinned model is served by upstreams of the catalog. -/
theorem serves_of_routed {unicode : Unicode} {readings : Readings} {request : ChatRequest}
    {hints : List AgentHint} {lastUsed : Option UpstreamModel} {decision : Decision}
    (htiered : published.router.config.routingMode = .tiered)
    (hexact : published.router.config.honorExactModel = true)
    (h : published.routed unicode readings request hints lastUsed = .ok decision) :
    ∀ target ∈ decision.targets, published.Serves target.upstream.name := by
  intro target htarget
  simp only [routed, htiered, Router.route, hexact, if_true] at h
  obtain ⟨candidate, hmem, rfl⟩ := Router.exists_candidate_of_routeExact h target htarget
  obtain ⟨place, hplace, rfl⟩ := List.mem_map.mp hmem
  exact ⟨place, hplace, rfl⟩

/-- A router that pins the model sends a plain request for it to every place that serves it. -/
theorem exists_routed (gateway : HomeGateway component) (unicode : Unicode)
    (htiered : gateway.router.config.routingMode = .tiered)
    (hexact : gateway.router.config.honorExactModel = true) {place : CatalogEntry}
    (hplace : place ∈ gateway.catalog) :
    ∃ decision, gateway.routed unicode .healthy { model := place.1.model, messages := [] } [] none =
      .ok decision ∧ place.1 ∈ decision.targets := by
  have hmem : gateway.candidateOf .healthy place ∈ gateway.candidates .healthy :=
    List.mem_map_of_mem hplace
  simp only [routed, htiered, Router.route, hexact, if_true]
  have hgates : hardUnmet (gateway.candidateOf .healthy place)
      (.extract unicode { model := place.1.model, messages := [] } []) = none := by
    simp [hardUnmet, RequestFeatures.extract, truncate, clampTo, requiresJsonSchema]
  have hroute : ∃ decision, Router.routeExact { model := place.1.model, messages := [] }
      (.extract unicode { model := place.1.model, messages := [] } [])
      (gateway.candidates .healthy) = .ok decision :=
    Router.exists_routeExact hmem rfl hgates (by rintro ⟨⟩)
  obtain ⟨decision, hdecision⟩ := hroute
  refine ⟨decision, hdecision, ?_⟩
  exact (Router.mem_routeExact hdecision _).mpr ⟨_, hmem, rfl, hgates, by rintro ⟨⟩, rfl⟩

/-- **Reuse.** Matched gateways are indistinguishable to home requests exactly when the router does
not pin the requested model, or when every upstream with a place in either catalog means the same
to both. -/
theorem indistinguishable_iff (published candidate : HomeGateway component)
    (h : homeGatewayIdentitiesMatch published.config candidate.config published.epochs
      candidate.epochs = true) :
    published.Indistinguishable candidate ↔
      published.router.config.routingMode = .quotaFirst ∨
        published.router.config.honorExactModel = false ∨
        ∀ name, published.Serves name ∨ candidate.Serves name →
          published.SameUpstream candidate name := by
  obtain ⟨hdocument, hnamed⟩ := matched h
  have hmode : published.router.config.routingMode = candidate.router.config.routingMode := by
    rw [hdocument.eq_with_pools]
  have hpins : published.router.config.honorExactModel =
      candidate.router.config.honorExactModel := by
    rw [hdocument.eq_with_pools]
  by_cases hreads : published.router.config.routingMode = .quotaFirst ∨
      published.router.config.honorExactModel = false
  · refine iff_of_true ⟨hdocument, ?_⟩ (hreads.imp_right Or.inl)
    intro unicode readings request hints lastUsed
    refine ⟨routed_eq_of_named hdocument hnamed hreads unicode readings request hints lastUsed, ?_⟩
    intro decision hdecision target htarget
    exact hnamed target (names_of_routed hreads hdecision target htarget)
  · rw [← or_assoc, or_iff_right hreads]
    rw [not_or, Bool.not_eq_false] at hreads
    obtain ⟨hnotQuota, hexact⟩ := hreads
    have htiered : published.router.config.routingMode = .tiered := by
      rcases hpublished : published.router.config.routingMode with - | -
      · rfl
      · exact absurd hpublished hnotQuota
    constructor
    · -- a plain request for the model of a place goes there
      rintro ⟨-, hrouted⟩ name (⟨place, hplace, rfl⟩ | ⟨place, hplace, rfl⟩)
      · obtain ⟨decision, hdecision, htarget⟩ :=
          published.exists_routed .ascii htiered hexact hplace
        exact (hrouted _ _ _ _ _).2 decision hdecision _ htarget
      · obtain ⟨decision, hdecision, htarget⟩ :=
          candidate.exists_routed .ascii (hmode ▸ htiered) (hpins ▸ hexact) hplace
        obtain ⟨heq, hsame⟩ := hrouted .ascii .healthy _ [] none
        exact hsame decision (heq.symm.trans hdecision) _ htarget
    · intro hsame
      refine ⟨hdocument, fun unicode readings request hints lastUsed ↦ ⟨?_, ?_⟩⟩
      · simp only [routed, ← hmode, htiered]
        rw [Router.route_sameDocument hdocument, candidates_eq hmode hsame]
      · intro decision hdecision target htarget
        exact hsame _ (Or.inl (serves_of_routed htiered hexact hdecision target htarget))

end HomeGateway

/-! ## A provider that no pool names -/

/-- A component that reports what is declared. -/
def declaredModels : ProviderComponent := fun _ _ models ↦ .ok models

/-- Two upstreams and a router that pins the model, whose pool names the first upstream alone. The
second upstream can be given another credential. -/
def reservedConfig (rekeyed : Bool) : ClientConfig where
  listen := "127.0.0.1:8787"
  plugins := { agents := ["openai"] }
  upstreams := (AList.singleton "reserve"
    { provider := "openai-compatible", baseUrl := testEndpoint,
      auth := some { slot := if rekeyed then "key/new" else "key/old", store := true },
      models := [{ model := "large" }] }).insert "cloud"
    { provider := "openai-compatible", baseUrl := testEndpoint, models := [{ model := "m" }] }
  router := { RouterConfig.single "main" [cloudModel] with honorExactModel := true }

def reservedGateway (rekeyed : Bool) : HomeGateway declaredModels where
  config := reservedConfig rekeyed
  epochs := ∅
  router := ⟨{ RouterConfig.single "main" [cloudModel] with honorExactModel := true }, rfl⟩
  catalog := [(cloudModel, {}), (⟨⟨"reserve", by decide⟩, "large"⟩, {})]
  compiled := rfl
  assembled := by
    cases rekeyed
    · decide +kernel
    · decide +kernel

namespace HomeGateway

/-- A gateway on another port, with the same upstreams, is indistinguishable. -/
theorem indistinguishable_iff_otherPort :
    (reservedGateway false).Indistinguishable { reservedGateway false with
      config := { reservedConfig false with listen := "127.0.0.1:8788" }
      compiled := rfl
      assembled := (reservedGateway false).assembled } := by
  refine (indistinguishable_iff _ _ (by decide +kernel)).mpr (Or.inr (Or.inr ?_))
  intro name _
  exact ⟨rfl, fun _ _ ↦ rfl, rfl⟩

/-- The draft names another credential for the second upstream. The match still says that the
published gateway serves the draft, and a request for the second model is sent with the old one. -/
theorem not_indistinguishable_rekeyed :
    (reservedConfig false).validate loopbackParsers = .ok () ∧
      (reservedConfig true).validate loopbackParsers = .ok () ∧
      homeGatewayIdentitiesMatch (reservedConfig false) (reservedConfig true) ∅ ∅ = true ∧
      ¬ (reservedGateway false).Indistinguishable (reservedGateway true) := by
  refine ⟨by rfl, by rfl, by decide +kernel, ?_⟩
  rintro ⟨-, h⟩
  have hplace : (⟨⟨"reserve", rfl⟩, "large"⟩, {}) ∈ (reservedGateway false).catalog :=
    List.mem_cons_of_mem _ List.mem_cons_self
  obtain ⟨decision, hdecision, htarget⟩ :=
    (reservedGateway false).exists_routed .ascii rfl rfl hplace
  have hsame := (h .ascii .healthy _ [] none).2 decision hdecision _ htarget
  have hlookup : (reservedConfig false).upstreams.lookup "reserve" =
      (reservedConfig true).upstreams.lookup "reserve" := hsame.1
  exact absurd hlookup (by decide +kernel)

end HomeGateway

end TokenStation
