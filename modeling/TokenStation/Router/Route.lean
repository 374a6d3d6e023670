import TokenStation.Router.Config

/-!
# Routing

`Router.route` picks a pool (a rule, else a hint, else the heuristic, else the default), ranks the
pool's members, and appends the authorized backups. `Router.routeExact` serves the model the caller
named, and `Router.routeQuotaFirst` ranks accounts by quota.

An `expect` of the source, and an index that may be out of bounds, is a branch to `Outcome.panic`.
-/

namespace TokenStation

open Library

/-! ## Candidates -/

/-- Whether an upstream is currently worth sending a request to. -/
inductive Health where
  | healthy
  | degraded
  | unavailable
  deriving DecidableEq, Repr

namespace Health

/-- The position in the declared order. -/
def rank : Health → ℕ
  | healthy => 0
  | degraded => 1
  | unavailable => 2

theorem rank_injective : Function.Injective rank := by
  intro a b h
  cases a <;> cases b <;> first | rfl | cases h

/-- `Healthy < Degraded < Unavailable`. -/
instance : LinearOrder Health := LinearOrder.lift' rank rank_injective

end Health

/-- One upstream-and-model the host currently has, with what it can do. -/
structure Candidate where
  target : UpstreamModel
  capability : ModelCapability
  health : Health
  /-- Whether this upstream runs on the local machine. -/
  isLocal : Bool := false
  quota : QuotaState := {}

/-- The first hard requirement the candidate fails, if any. -/
def hardUnmet (candidate : Candidate) (features : RequestFeatures) : Option UnmetRequirement :=
  if features.toolCount > 0 && !candidate.capability.toolState.isSupported then some .tools
  else if features.hasImages && !candidate.capability.visionState.isSupported then some .vision
  else if features.requiresJsonSchema && !candidate.capability.jsonSchemaState.isSupported then
    some .jsonSchema
  else none

/-- The candidates that clear every hard gate. -/
def capable (features : RequestFeatures) (candidates : List Candidate) : List Candidate :=
  candidates.filter fun candidate ↦ (hardUnmet candidate features).isNone

/-- The candidates that are not out of rotation. -/
def inRotation (candidates : List Candidate) : List Candidate :=
  candidates.filter fun candidate ↦ decide (candidate.health ≠ .unavailable)

/-- The candidate the host supplies for a target: the first one with it. -/
def supplied (candidates : List Candidate) (target : UpstreamModel) : Option Candidate :=
  candidates.find? fun candidate ↦ decide (candidate.target = target)

/-- The candidates supplied for a list of targets, in the order of the list. -/
def installed (candidates : List Candidate) (members : List UpstreamModel) : List Candidate :=
  members.filterMap (supplied candidates)

/-- The refusal when nothing is capable: the first requirement the first candidate lacks. -/
def refuseFirst {α : Type} (candidates : List Candidate) (features : RequestFeatures)
    (pool : String) : Outcome NoRoute α :=
  match candidates with
  | [] => .panic
  | first :: _ => .err (.unsatisfiable pool ((hardUnmet first features).getD .unknown))

/-- `split_first().expect(..)`, and the decision built from the two halves. -/
def decideTargets (decidedBy : DecidedBy) (features : RequestFeatures) (pool : String) :
    List UpstreamModel → Outcome NoRoute Decision
  | [] => .panic
  | chosen :: fallbacks => .ok { chosen, decidedBy, fallbacks, features, pool }

/-! ## The router -/

/-- A validated configuration, and the only thing that can route. -/
structure Router where
  config : RouterConfig
  valid : config.validate = .ok ()

namespace Router

def new (config : RouterConfig) : Except ConfigError Router :=
  match h : config.validate with
  | .ok () => .ok ⟨config, h⟩
  | .error error => .error error

/-- The context window a candidate can be trusted with. -/
def effectiveWindow (router : Router) (candidate : Candidate) : ℕ :=
  if candidate.capability.contextWindow = 0 then router.config.assumedContextWindow
  else candidate.capability.contextWindow

/-- Whether a candidate's window covers the estimated input. -/
def fitsContext (router : Router) (candidate : Candidate) (features : RequestFeatures) : Bool :=
  decide (features.estimatedInputTokens ≤ router.effectiveWindow candidate)

def fitting (router : Router) (features : RequestFeatures) (candidates : List Candidate) :
    List Candidate :=
  candidates.filter fun candidate ↦ router.fitsContext candidate features

/-- The sort of the last step: by health, and by the larger window when nothing fits. -/
def order (router : Router) (overContext : Bool) (usable : List Candidate) : List Candidate :=
  if overContext then
    sortByKey (fun candidate ↦
      toLex (candidate.health, OrderDual.toDual (router.effectiveWindow candidate))) usable
  else sortByKey Candidate.health usable

/-- Drops what cannot serve the request and what is out of rotation, then orders the rest. -/
def usableTargets (router : Router) (installed : List Candidate) (features : RequestFeatures)
    (pool : String) (lastResort : Bool) : Outcome NoRoute (List UpstreamModel) :=
  let capable := capable features installed
  if capable.isEmpty then refuseFirst installed features pool
  else
    let fitting := router.fitting features capable
    let overContext := fitting.isEmpty
    let preferred := if overContext then capable else fitting
    let rotation := inRotation preferred
    if rotation.isEmpty && !lastResort then .err (.unavailable pool)
    else
      let usable := if rotation.isEmpty then preferred else rotation
      .ok ((router.order overContext usable).map Candidate.target)

/-- Drops what cannot serve the request, then orders by health. -/
def rank (router : Router) (members : List UpstreamModel) (candidates : List Candidate)
    (features : RequestFeatures) (pool : String) : Outcome NoRoute (List UpstreamModel) :=
  let installed := installed candidates members
  if installed.isEmpty then .err (.unsatisfiable pool .unknown)
  else if router.config.localOnly then
    let locals := installed.filter Candidate.isLocal
    if locals.isEmpty then
      if !router.config.allowCloudFallback then .err (.unsatisfiable pool .localOnly)
      else router.usableTargets installed features pool true
    else
      match router.usableTargets locals features pool false with
      | .ok targets => .ok targets
      | .err error =>
        if !router.config.allowCloudFallback then .err error
        else router.usableTargets installed features pool true
      | .panic => .panic
  else router.usableTargets installed features pool true

/-- Appends a ranking, skipping the targets that are already listed. -/
def pushNew (targets ranked : List UpstreamModel) : List UpstreamModel :=
  ranked.foldl (fun targets target ↦ if target ∈ targets then targets else targets ++ [target])
    targets

/-- Appends the backup tiers after the selected tier's targets, de-duplicated. -/
def extendWithBackups (router : Router) (selected : String) (candidates : List Candidate)
    (features : RequestFeatures) :
    List String → List UpstreamModel → Outcome NoRoute (List UpstreamModel)
  | [], targets => .ok targets
  | backup :: pools, targets =>
    if backup = selected then router.extendWithBackups selected candidates features pools targets
    else match router.config.pools.lookup backup with
      | none => router.extendWithBackups selected candidates features pools targets
      | some members => match router.rank members candidates features backup with
        | .ok ranked =>
          router.extendWithBackups selected candidates features pools (pushNew targets ranked)
        | .err _ => router.extendWithBackups selected candidates features pools targets
        | .panic => .panic

/-- Only an explicit `ordered` policy appends other tiers' candidates. -/
def recover (router : Router) (selected : String) (candidates : List Candidate)
    (features : RequestFeatures) (targets : List UpstreamModel) :
    Outcome NoRoute (List UpstreamModel) :=
  match router.config.recovery with
  | .strict => .ok targets
  | .ordered pools => router.extendWithBackups selected candidates features pools targets

/-- Serve only candidates whose wire model is the one the caller named. -/
def routeExact (request : ChatRequest) (features : RequestFeatures)
    (candidates : List Candidate) : Outcome NoRoute Decision :=
  let named := candidates.filter fun candidate ↦ decide (candidate.target.model = request.model)
  if named.isEmpty then .err (.unsatisfiable request.model .exactModelUnavailable)
  else
    let capable := capable features named
    if capable.isEmpty then refuseFirst named features request.model
    else
      let usable := inRotation capable
      if usable.isEmpty then .err (.unavailable request.model)
      else
        decideTargets (.exactModel request.model) features request.model
          ((sortByKey Candidate.health usable).map Candidate.target)

/-- Layer 1, then 2, then 3, then the default. First to answer wins. -/
def selectPool (unicode : Unicode) (router : Router) (request : ChatRequest)
    (hints : List AgentHint) (features : RequestFeatures) : String × DecidedBy :=
  match router.config.rules.find? fun rule ↦
      rule.matcher.matchesRequest unicode features request with
  | some rule => (rule.routeTo, .rule rule.id)
  | none => match router.config.hintRoutes.find? fun route ↦
      hints.any fun hint ↦ decide (hint.kind = route.kind) && hint.value == route.value with
    | some route => (route.routeTo, .hint route.kind route.value)
    | none => match router.config.heuristic with
      | some heuristic =>
        let score := heuristic.score features
        let (pool, threshold) := heuristic.select score
        (pool, .heuristic score threshold)
      | none => (router.config.defaultPool, .default)

/-- Picks where this request goes. -/
def route (unicode : Unicode) (router : Router) (request : ChatRequest) (hints : List AgentHint)
    (candidates : List Candidate) : Outcome NoRoute Decision :=
  let features := RequestFeatures.extract unicode request hints
  if router.config.honorExactModel then routeExact request features candidates
  else
    let (pool, decidedBy) := router.selectPool unicode request hints features
    match router.config.pools.lookup pool with
    | none => .panic
    | some members =>
      (router.rank members candidates features pool).bind fun targets ↦
        (router.recover pool candidates features targets).bind
          (decideTargets decidedBy features pool)

/-- The `pool` a quota-first decision carries. -/
def quotaPool : String := "quota"

/-- The rank of one capable account, given its position among the capable ones. -/
def accountRank (router : Router) (lastUsed : Option UpstreamModel) (index : ℕ)
    (candidate : Candidate) : Option QuotaRank :=
  quotaRank candidate.quota (decide (lastUsed = some candidate.target)) (clampTo u32Max index)
    router.config.quota.weights router.config.quota.resetTieBandMs

/-- The capable accounts that are in rotation and not exhausted, each with its rank. -/
def rankedAccounts (router : Router) (lastUsed : Option UpstreamModel)
    (capable : List Candidate) : List (Candidate × QuotaRank) :=
  (capable.zipIdx.filter fun entry ↦ decide (entry.1.health ≠ .unavailable)).filterMap
    fun entry ↦ (router.accountRank lastUsed entry.2 entry.1).map fun rank ↦ (entry.1, rank)

/-- Quota-first routing: the account whose allowance closes soonest is served first. -/
def routeQuotaFirst (unicode : Unicode) (router : Router) (request : ChatRequest)
    (candidates : List Candidate) (lastUsed : Option UpstreamModel) : Outcome NoRoute Decision :=
  let features := RequestFeatures.extract unicode request []
  if router.config.quotaAccounts.isEmpty then .err (.unavailable quotaPool)
  else
    let pool := installed candidates router.config.quotaAccounts
    let capable := capable features pool
    if capable.isEmpty then
      .err (.unsatisfiable quotaPool
        ((pool.head?.bind fun candidate ↦ hardUnmet candidate features).getD .unknown))
    else
      let ranked := router.rankedAccounts lastUsed capable
      if ranked.isEmpty then .err (.unavailable quotaPool)
      else
        decideTargets .quota features quotaPool
          ((sortByKey (fun entry ↦ OrderDual.toDual entry.2) ranked).map
            fun entry ↦ entry.1.target)

end Router

/-! ## Two upstreams -/

/-- The model `m` of one cloud upstream. -/
def cloudModel : UpstreamModel := ⟨⟨"cloud", rfl⟩, "m"⟩

/-- The model `m` of a second upstream. -/
def reserveModel : UpstreamModel := ⟨⟨"reserve", rfl⟩, "m"⟩

/-- The candidate for it, healthy, with no capability beyond text. -/
def cloudCandidate : Candidate := { target := cloudModel, capability := {}, health := .healthy }

/-- A router with one pool that holds the first model. -/
def cloudOnly : Router := ⟨RouterConfig.single "main" [cloudModel], rfl⟩

/-- A request for that model with nothing to route on. -/
def plainRequest : ChatRequest := { model := "m", messages := [] }

end TokenStation
