import TokenStation.Library.Outcome
import TokenStation.Library.SortByKey
import TokenStation.Router.Decision
import TokenStation.Router.Quota
import Mathlib.Data.String.Basic

/-!
# The routing configuration and its validation

`RouterConfig` is what an operator wrote. `RouterConfig.validate` is the only gate between it and
a router, and `validate_eq_ok` says exactly which tiered configurations pass: the pools exist, none
is empty, every layer names existing pools, rules have distinct non-empty ids and say something,
and the bands descend.
-/

namespace TokenStation

open Library

/-! ## Layers -/

/-- Predicates that must all hold. -/
structure Match where
  estimatedInputTokensAtLeast : Option ℕ := none
  estimatedInputTokensBelow : Option ℕ := none
  requiresTools : Option Bool := none
  requiresJsonSchema : Option Bool := none
  requiresVision : Option Bool := none
  requestedModel : Option String := none
  reasoningMarkersAtLeast : Option ℕ := none
  keywordsAny : List String := []
  deriving DecidableEq

/-- The texts of a message body. -/
def contentTexts : Content → List String
  | .text text => [text]
  | .parts parts => parts.filterMap fun part ↦ match part with
    | .text text => some text
    | .imageUrl _ _ | .thinking _ _ | .redactedThinking _ | .unknown _ => none

def messageTexts (request : ChatRequest) : List String :=
  (request.messages.filterMap Message.content).flatMap contentTexts

/-- Whether some message text mentions some keyword, case-insensitively. -/
def mentionsAny (unicode : Unicode) (request : ChatRequest) (keywords : List String) : Bool :=
  let needles := keywords.map unicode.toLowercase
  (messageTexts request).any fun text ↦
    let haystack := unicode.toLowercase text
    needles.any fun needle ↦ containsText haystack needle

namespace Match

def isEmpty (matcher : Match) : Bool :=
  matcher.estimatedInputTokensAtLeast.isNone && matcher.estimatedInputTokensBelow.isNone
    && matcher.requiresTools.isNone && matcher.requiresJsonSchema.isNone
    && matcher.requiresVision.isNone && matcher.requestedModel.isNone
    && matcher.reasoningMarkersAtLeast.isNone && matcher.keywordsAny.isEmpty

/-- `Match::matches`. -/
def matchesRequest (unicode : Unicode) (matcher : Match) (features : RequestFeatures)
    (request : ChatRequest) : Bool :=
  let tokens := features.estimatedInputTokens
  let refuted :=
    matcher.estimatedInputTokensAtLeast.any (fun floor ↦ decide (tokens < floor))
      || matcher.estimatedInputTokensBelow.any (fun ceiling ↦ decide (tokens ≥ ceiling))
      || matcher.requiresTools.any (fun wanted ↦ decide (features.toolCount > 0) != wanted)
      || matcher.requiresJsonSchema.any (fun wanted ↦ features.requiresJsonSchema != wanted)
      || matcher.requiresVision.any (fun wanted ↦ features.hasImages != wanted)
      || matcher.requestedModel.any (fun model ↦ request.model != model)
      || matcher.reasoningMarkersAtLeast.any
        (fun floor ↦ decide (features.reasoningMarkerCount < floor))
      || (!matcher.keywordsAny.isEmpty && !mentionsAny unicode request matcher.keywordsAny)
  !refuted

end Match

/-- A rule the operator wrote. Highest priority, always. -/
structure Rule where
  id : String
  matcher : Match
  routeTo : String
  deriving DecidableEq

/-- Layer 2: a hint the calling agent may send, and the pool it selects. -/
structure HintRoute where
  kind : HintKind
  value : String
  routeTo : String
  deriving DecidableEq

/-- Weights of the heuristic score; all `u32`. -/
structure Weights where
  tokensPerPoint : ℕ
  perTool : ℕ
  jsonSchema : ℕ
  image : ℕ
  perCodeBlock : ℕ
  perExtraTurn : ℕ
  perReasoningMarker : ℕ := 0
  perTechnicalTerm : ℕ := 0
  perSimpleIndicator : ℕ := 0
  perCodeKeyword : ℕ := 0
  perMathTerm : ℕ := 0
  perCreativeTerm : ℕ := 0
  perMultiStepPoint : ℕ := 0
  perQuestion : ℕ := 0
  systemFormat : ℕ := 0
  maxOutputTokensPerPoint : ℕ := 0
  deriving DecidableEq

/-- Scores of at least `atLeast` land in `pool`, unless a higher band claimed them. -/
structure Band where
  atLeast : ℕ
  pool : String
  deriving DecidableEq

/-- Layer 3: score the request, compare, pick a pool. -/
structure Heuristic where
  weights : Weights
  threshold : ℕ
  above : String
  below : String
  bands : List Band := []
  deriving DecidableEq

namespace Heuristic

/-- The complexity score, saturating rather than wrapping. The subtractive term comes last. -/
def score (heuristic : Heuristic) (features : RequestFeatures) : ℕ :=
  let weights := heuristic.weights
  let charge (score count weight : ℕ) := satAdd u32Max score (satMul u32Max count weight)
  let score := features.conversationTokens / max weights.tokensPerPoint 1
  let score := charge score features.codeBlockCount weights.perCodeBlock
  let score := charge score (features.messageCount - 1) weights.perExtraTurn
  let score := if features.requiresJsonSchema then satAdd u32Max score weights.jsonSchema else score
  let score := if features.hasImages then satAdd u32Max score weights.image else score
  let score := charge score features.reasoningMarkerCount weights.perReasoningMarker
  let score := charge score features.technicalTermCount weights.perTechnicalTerm
  let score := charge score features.codeKeywordCount weights.perCodeKeyword
  let score := charge score features.mathTermCount weights.perMathTerm
  let score := charge score features.creativeTermCount weights.perCreativeTerm
  let score := charge score features.multiStepSignal weights.perMultiStepPoint
  let score := charge score features.questionCount weights.perQuestion
  let score :=
    if features.systemFormatHint then satAdd u32Max score weights.systemFormat else score
  let score :=
    if weights.maxOutputTokensPerPoint > 0 then
      satAdd u32Max score
        (features.requestedMaxOutputTokens.getD 0 / weights.maxOutputTokensPerPoint)
    else score
  score - satMul u32Max features.simpleIndicatorCount weights.perSimpleIndicator

/-- The pool this score lands in, and the floor of the tier it hit. -/
def select (heuristic : Heuristic) (score : ℕ) : String × ℕ :=
  match heuristic.bands.find? fun band ↦ decide (score ≥ band.atLeast) with
  | some band => (band.pool, band.atLeast)
  | none =>
    if score ≥ heuristic.threshold then (heuristic.above, heuristic.threshold)
    else (heuristic.below, heuristic.threshold)

/-- The pools a heuristic can name. -/
def pools (heuristic : Heuristic) : List String :=
  heuristic.above :: heuristic.below :: heuristic.bands.map Band.pool

theorem select_mem_pools (heuristic : Heuristic) (score : ℕ) :
    (heuristic.select score).1 ∈ heuristic.pools := by
  rw [select, pools]
  split
  next band h =>
    have hband : band ∈ heuristic.bands := List.mem_of_find?_eq_some h
    simp [List.mem_map_of_mem hband]
  next => split <;> simp

end Heuristic

/-! ## The configuration -/

/-- What may serve as a backup once the selected tier is exhausted. -/
inductive RecoveryPolicy where
  | strict
  | ordered (pools : List String)
  deriving DecidableEq

/-- The pools listed as backups. -/
def RecoveryPolicy.backups : RecoveryPolicy → List String
  | strict => []
  | ordered pools => pools

/-- The active routing philosophy. -/
inductive RoutingMode where
  | tiered
  | quotaFirst
  deriving DecidableEq

/-- The only config version the router understands. -/
def configVersion : ℕ := 1

structure RouterConfig where
  version : ℕ := configVersion
  /-- Named, ordered lists of places a request can go. -/
  pools : AList fun _ : String ↦ List UpstreamModel := ∅
  rules : List Rule := []
  hintRoutes : List HintRoute := []
  heuristic : Option Heuristic := none
  defaultPool : String := ""
  assumedContextWindow : ℕ := 8192
  honorExactModel : Bool := false
  recovery : RecoveryPolicy := .strict
  /-- Lock every route to upstreams declared local. -/
  localOnly : Bool := false
  /-- Under `localOnly`, permit falling back to cloud candidates. -/
  allowCloudFallback : Bool := false
  routingMode : RoutingMode := .tiered
  quota : QuotaConfig := {}
  quotaAccounts : List UpstreamModel := []

/-- The smallest tiered configuration: one pool, to which every request goes. -/
def RouterConfig.single (pool : String) (members : List UpstreamModel) : RouterConfig :=
  { pools := AList.singleton pool members, defaultPool := pool }

/-- Why a configuration cannot be routed with. -/
inductive ConfigError where
  | unsupportedVersion (version : ℕ)
  | assumedContextWindowIsZero
  | noPools
  | emptyPool (pool : String)
  | unknownPool (pool referencedBy : String)
  | emptyRuleId
  | duplicateRuleId (id : String)
  | ruleMatchesEverything (id : String)
  | duplicateHintRoute (kind : HintKind) (value : String)
  | tokensPerPointIsZero
  | bandsNotDescending (first second : ℕ)
  deriving DecidableEq

namespace RouterConfig

def requirePool (config : RouterConfig) (pool referencedBy : String) : Except ConfigError Unit :=
  ensure (pool ∈ config.pools) (.unknownPool pool referencedBy)

/-- The loop over the rules; `seen` holds the ids of the earlier ones. -/
def validateRules (config : RouterConfig) : List String → List Rule → Except ConfigError Unit
  | _, [] => .ok ()
  | seen, rule :: rest => do
    ensure (rule.id ≠ "") .emptyRuleId
    ensure (rule.id ∉ seen) (.duplicateRuleId rule.id)
    ensure (rule.matcher.isEmpty = false) (.ruleMatchesEverything rule.id)
    config.requirePool rule.routeTo ("rule `" ++ rule.id ++ "`")
    validateRules config (rule.id :: seen) rest

/-- The loop over the hint routes; `seen` holds the keys of the earlier ones. -/
def validateHintRoutes (config : RouterConfig) :
    List (HintKind × String) → List HintRoute → Except ConfigError Unit
  | _, [] => .ok ()
  | seen, route :: rest => do
    ensure ((route.kind, route.value) ∉ seen) (.duplicateHintRoute route.kind route.value)
    config.requirePool route.routeTo "hint_routes"
    validateHintRoutes config ((route.kind, route.value) :: seen) rest

/-- The loop over adjacent bands. -/
def validateBands : List Band → Except ConfigError Unit
  | first :: second :: rest => do
    ensure (second.atLeast < first.atLeast) (.bandsNotDescending first.atLeast second.atLeast)
    validateBands (second :: rest)
  | _ => .ok ()

def validateHeuristic (config : RouterConfig) (heuristic : Heuristic) :
    Except ConfigError Unit := do
  ensure (heuristic.weights.tokensPerPoint ≠ 0) .tokensPerPointIsZero
  config.requirePool heuristic.above "heuristic.above"
  config.requirePool heuristic.below "heuristic.below"
  validateBands heuristic.bands
  forEach (fun band ↦ config.requirePool band.pool "heuristic.bands") heuristic.bands

/-- The part of `validate` that quota-first mode skips. -/
def validateTiers (config : RouterConfig) : Except ConfigError Unit := do
  ensure (config.pools.entries ≠ []) .noPools
  forEach (fun pool ↦ ensure (pool.2 ≠ []) (.emptyPool pool.1))
    (sortByKey Sigma.fst config.pools.entries)
  config.requirePool config.defaultPool "default_pool"
  config.validateRules [] config.rules
  config.validateHintRoutes [] config.hintRoutes
  forEach config.validateHeuristic config.heuristic.toList
  forEach (fun pool ↦ config.requirePool pool "recovery.ordered") config.recovery.backups

/-- Everything that must hold before a request may be routed with this configuration. -/
def validate (config : RouterConfig) : Except ConfigError Unit := do
  ensure (config.version = configVersion) (.unsupportedVersion config.version)
  ensure (config.assumedContextWindow ≠ 0) .assumedContextWindowIsZero
  match config.routingMode with
  | .quotaFirst => .ok ()
  | .tiered => config.validateTiers

/-! ## What validation accepts -/

/-- A configuration in which every pool a layer can select exists and has members. -/
structure WellFormed (config : RouterConfig) : Prop where
  version : config.version = configVersion
  assumedContextWindow : config.assumedContextWindow ≠ 0
  poolsNonempty : ∀ name members, config.pools.lookup name = some members → members ≠ []
  defaultPool : config.defaultPool ∈ config.pools
  rules : ∀ rule ∈ config.rules,
    rule.id ≠ "" ∧ rule.matcher.isEmpty = false ∧ rule.routeTo ∈ config.pools
  ruleIds : (config.rules.map Rule.id).Nodup
  hintRoutes : ∀ route ∈ config.hintRoutes, route.routeTo ∈ config.pools
  hintKeys : (config.hintRoutes.map fun route ↦ (route.kind, route.value)).Nodup
  heuristic : ∀ heuristic ∈ config.heuristic,
    heuristic.weights.tokensPerPoint ≠ 0 ∧ (∀ pool ∈ heuristic.pools, pool ∈ config.pools)
      ∧ heuristic.bands.Pairwise fun first second ↦ second.atLeast < first.atLeast
  recovery : ∀ pool ∈ config.recovery.backups, pool ∈ config.pools

@[simp] theorem requirePool_eq_ok {config : RouterConfig} {pool referencedBy : String} :
    config.requirePool pool referencedBy = .ok () ↔ pool ∈ config.pools := by
  rw [requirePool, ensure_eq_ok]

theorem validateRules_eq_ok {config : RouterConfig} {seen : List String} {rules : List Rule} :
    config.validateRules seen rules = .ok () ↔
      (∀ rule ∈ rules, rule.id ≠ "" ∧ rule.matcher.isEmpty = false ∧ rule.routeTo ∈ config.pools)
        ∧ (rules.map Rule.id).Nodup ∧ ∀ rule ∈ rules, rule.id ∉ seen := by
  induction rules generalizing seen with
  | nil => simp [validateRules]
  | cons rule rest ih =>
    simp only [validateRules, except_seq_eq_ok, ensure_eq_ok, requirePool_eq_ok, ih,
      List.map_cons, List.nodup_cons, List.mem_cons, not_or, List.mem_map]
    grind

theorem validateHintRoutes_eq_ok {config : RouterConfig} {seen : List (HintKind × String)}
    {routes : List HintRoute} :
    config.validateHintRoutes seen routes = .ok () ↔
      (∀ route ∈ routes, route.routeTo ∈ config.pools)
        ∧ (routes.map fun route ↦ (route.kind, route.value)).Nodup
        ∧ ∀ route ∈ routes, (route.kind, route.value) ∉ seen := by
  induction routes generalizing seen with
  | nil => simp [validateHintRoutes]
  | cons route rest ih =>
    simp only [validateHintRoutes, except_seq_eq_ok, ensure_eq_ok, requirePool_eq_ok, ih,
      List.map_cons, List.nodup_cons, List.mem_cons, not_or, List.mem_map]
    grind

/-- Comparing neighbours is enough, since the order is transitive. -/
theorem validateBands_eq_ok {bands : List Band} :
    validateBands bands = .ok () ↔
      bands.Pairwise fun first second ↦ second.atLeast < first.atLeast := by
  induction bands with
  | nil => simp [validateBands]
  | cons first rest ih =>
    rcases rest with - | ⟨second, rest⟩
    · simp [validateBands]
    · rw [validateBands, except_seq_eq_ok, ensure_eq_ok, List.pairwise_cons, ih]
      constructor
      · rintro ⟨hlt, hrest⟩
        refine ⟨fun band hband ↦ ?_, hrest⟩
        rcases List.mem_cons.mp hband with rfl | hband
        · exact hlt
        · exact (List.rel_of_pairwise_cons hrest hband).trans hlt
      · rintro ⟨hlt, hrest⟩
        exact ⟨hlt second List.mem_cons_self, hrest⟩

theorem validateHeuristic_eq_ok {config : RouterConfig} {heuristic : Heuristic} :
    config.validateHeuristic heuristic = .ok () ↔
      heuristic.weights.tokensPerPoint ≠ 0 ∧ (∀ pool ∈ heuristic.pools, pool ∈ config.pools)
        ∧ heuristic.bands.Pairwise fun first second ↦ second.atLeast < first.atLeast := by
  simp only [validateHeuristic, except_seq_eq_ok, ensure_eq_ok, requirePool_eq_ok,
    validateBands_eq_ok, forEach_eq_ok, Heuristic.pools, List.forall_mem_cons,
    List.forall_mem_map]
  tauto

/-- A pool is well-formed under the sorted traversal exactly when it is under lookup. -/
private theorem forEach_pools_eq_ok {config : RouterConfig} :
    forEach (fun pool ↦ ensure (pool.2 ≠ []) (ConfigError.emptyPool pool.1))
        (sortByKey Sigma.fst config.pools.entries) = .ok () ↔
      ∀ name members, config.pools.lookup name = some members → members ≠ [] := by
  rw [forEach_eq_ok]
  simp only [mem_sortByKey, ensure_eq_ok]
  constructor
  · intro h name members hlookup
    exact h ⟨name, members⟩ (AList.mem_lookup_iff.mp hlookup)
  · rintro h ⟨name, members⟩ hentry
    exact h name members (AList.mem_lookup_iff.mpr hentry)

/-- **Validation.** In tiered mode, exactly the well-formed configurations are accepted. -/
theorem validate_eq_ok {config : RouterConfig} (htiered : config.routingMode = .tiered) :
    config.validate = .ok () ↔ config.WellFormed := by
  have hpools : config.defaultPool ∈ config.pools → config.pools.entries ≠ [] := by
    intro hmem hnil
    rw [AList.mem_keys, AList.keys, List.keys, hnil] at hmem
    exact absurd hmem List.not_mem_nil
  rw [validate, except_seq_eq_ok, except_seq_eq_ok, ensure_eq_ok, ensure_eq_ok, htiered]
  simp only [validateTiers, except_seq_eq_ok, ensure_eq_ok, requirePool_eq_ok,
    forEach_pools_eq_ok, validateRules_eq_ok, validateHintRoutes_eq_ok]
  rw [forEach_eq_ok, forEach_eq_ok]
  simp only [validateHeuristic_eq_ok, requirePool_eq_ok, Option.mem_toList]
  constructor
  · rintro ⟨hversion, hwindow, -, hmembers, hdefault, ⟨hrules, hids, -⟩, ⟨hhints, hkeys, -⟩,
      hheuristic, hrecovery⟩
    exact ⟨hversion, hwindow, hmembers, hdefault, hrules, hids, hhints, hkeys, hheuristic,
      hrecovery⟩
  · intro h
    exact ⟨h.version, h.assumedContextWindow, hpools h.defaultPool, h.poolsNonempty,
      h.defaultPool, ⟨h.rules, h.ruleIds, by simp⟩, ⟨h.hintRoutes, h.hintKeys, by simp⟩,
      h.heuristic, h.recovery⟩

end RouterConfig

end TokenStation
