import TokenStation.Inbound.Request
import TokenStation.Router.Layers

/-!
# Routing a request with images

The router takes a model whose vision is unknown for one without. So the gateway routes images over
a copy of the candidates in which the unknown may see, and when the selected pool is refused for its
vision, over a copy in which the whole pool may, to learn the backups. The targets are then filtered
and ranked by the capabilities the candidates really have.
-/

namespace TokenStation

open Library Router

/-! ## What the gateway computes -/

/-- The input estimate of a receipt: the schemas count too. -/
def estimatedInputWithSchemas (unicode : Unicode) (request : ChatRequest)
    (hints : List AgentHint) : ℕ :=
  let tokens := request.tools.foldl
    (fun tokens tool ↦
      satAdd u32Max
        (satAdd u32Max (satAdd u32Max tokens (estimateTokens tool.name))
          (estimateTokens (tool.description.getD "")))
        (estimateTokens tool.parameters.compact))
    (RequestFeatures.extract unicode request hints).estimatedInputTokens
  match request.responseFormat with
  | some (.jsonSchema schema) => satAdd u32Max tokens (estimateTokens schema.compact)
  | _ => tokens

/-- A request that starts on a free upstream stays on free ones. -/
def retainFreeFallbacks (free : Finset String) (decision : Decision) : Decision :=
  if decision.chosen.upstream.name ∈ free then
    { decision with
      fallbacks := decision.fallbacks.filter fun target ↦ decide (target.upstream.name ∈ free) }
  else decision

/-- The copy of a candidate whose vision is declared. -/
def Candidate.declareVision (candidate : Candidate) : Candidate :=
  { candidate with
    capability := { candidate.capability with visionState? := some .declared } }

/-- The admission projection: an unknown vision passes for a declared one. -/
def admitUnknown (candidate : Candidate) : Candidate :=
  if candidate.capability.visionState = .unknown then candidate.declareVision else candidate

/-- The projection that keeps a pool's identity: its members pass for models with vision. -/
def declareMembers (members : List UpstreamModel) (candidate : Candidate) : Candidate :=
  if candidate.target ∈ members then candidate.declareVision else candidate

def isExactModel : DecidedBy → Bool
  | .exactModel _ => true
  | _ => false

/-- The rank of a candidate's pool: the selected one first, then the backups in their order. A
validated configuration has every backup it lists. -/
def poolRank (router : Router) (decision : Decision) (candidate : Candidate) : WithTop ℕ :=
  if router.config.routingMode = .tiered ∧ isExactModel decision.decidedBy = false ∧
      (router.config.pools.lookup decision.pool).any (candidate.target ∉ ·) then
    match router.config.recovery with
    | .ordered pools =>
      match pools.findIdx? fun pool ↦
          (router.config.pools.lookup pool).any (candidate.target ∈ ·) with
      | some index => ((index + 1 : ℕ) : WithTop ℕ)
      | none => ⊤
    | .strict => 0
  else 0

/-- The targets that may be sent images, ranked by pool, then health, then evidence. -/
def rankImageTargets (router : Router) (decision : Decision) (candidates : List Candidate)
    (free : Finset String) : Outcome NoRoute Decision :=
  let targets := (installed candidates decision.targets).filter fun candidate ↦
    candidate.capability.allowsImageAttempt
  let ranked := sortByKey (fun candidate ↦ toLex (poolRank router decision candidate,
    toLex (if router.config.routingMode = .tiered then candidate.health else .healthy,
      !candidate.capability.visionState.isSupported))) targets
  match ranked with
  | [] => .err (.unsatisfiable decision.pool .vision)
  | chosen :: fallbacks =>
    let decision := { decision with
      chosen := chosen.target, fallbacks := fallbacks.map Candidate.target }
    .ok (if router.config.routingMode = .tiered then retainFreeFallbacks free decision
      else decision)

/-- The router, in the mode that is configured. -/
def routeInMode (unicode : Unicode) (router : Router) (lastAccount : Option UpstreamModel)
    (request : ChatRequest) (hints : List AgentHint) (candidates : List Candidate) :
    Outcome NoRoute Decision :=
  match router.config.routingMode with
  | .tiered => router.route unicode request hints candidates
  | .quotaFirst => router.routeQuotaFirst unicode request candidates lastAccount

/-- Whether a refusal lets the backups be asked. -/
def mayAskBackups (router : Router) (request : ChatRequest) : Bool :=
  decide (router.config.routingMode = .tiered)
    && decide (router.config.recovery ≠ .strict)
    && !(router.config.honorExactModel && decide (request.model ≠ "auto"))

/-- The decision over the projected candidates. -/
def routeAdmitted (unicode : Unicode) (router : Router) (lastAccount : Option UpstreamModel)
    (request : ChatRequest) (hints : List AgentHint) (candidates : List Candidate) :
    Outcome NoRoute Decision :=
  let admitted := candidates.map admitUnknown
  match routeInMode unicode router lastAccount request hints admitted with
  | .err (.unsatisfiable pool .vision) =>
    if mayAskBackups router request then
      routeInMode unicode router lastAccount request hints
        (admitted.map (declareMembers ((router.config.pools.lookup pool).getD [])))
    else .err (.unsatisfiable pool .vision)
  | outcome => outcome

/-- What every decision gets before it is handed out. -/
def receipted (unicode : Unicode) (router : Router) (free : Finset String) (request : ChatRequest)
    (hints : List AgentHint) (decision : Decision) : Decision :=
  let decision :=
    if router.config.routingMode = .tiered then retainFreeFallbacks free decision else decision
  { decision with
    features := { decision.features with
      estimatedInputTokens := estimatedInputWithSchemas unicode request hints } }

/-- `route_with_mode`: the shared routing step. -/
def routeWithMode (unicode : Unicode) (router : Router) (free : Finset String)
    (lastAccount : Option UpstreamModel) (request : ChatRequest) (hints : List AgentHint)
    (candidates : List Candidate) : Outcome NoRoute Decision :=
  if (RequestFeatures.extract unicode request hints).hasImages then
    (routeAdmitted unicode router lastAccount request hints candidates).bind fun decision ↦
      rankImageTargets router (receipted unicode router free request hints decision) candidates free
  else
    (routeInMode unicode router lastAccount request hints candidates).bind fun decision ↦
      .ok (receipted unicode router free request hints decision)

/-! ## Projections -/

/-- The features of a request, its images left aside. -/
def RequestFeatures.withoutImages (features : RequestFeatures) : RequestFeatures :=
  { features with hasImages := false }

/-- A copy of every candidate that differs from it at most in its vision. -/
structure VisionProjection (project : Candidate → Candidate) : Prop where
  target : ∀ candidate, (project candidate).target = candidate.target
  health : ∀ candidate, (project candidate).health = candidate.health
  window : ∀ candidate,
    (project candidate).capability.contextWindow = candidate.capability.contextWindow
  gates : ∀ candidate (features : RequestFeatures),
    hardUnmet (project candidate) features.withoutImages =
    hardUnmet candidate features.withoutImages

section Projections

variable {project : Candidate → Candidate} {candidates : List Candidate}
  {features : RequestFeatures} {candidate : Candidate} {router : Router}

theorem hardUnmet_withoutImages :
    hardUnmet candidate features.withoutImages =
      if features.toolCount > 0 && !candidate.capability.toolState.isSupported then some .tools
      else if features.requiresJsonSchema && !candidate.capability.jsonSchemaState.isSupported then
        some .jsonSchema
      else none := by
  rw [hardUnmet]
  rfl

/-- With images, a candidate clears the gates if it clears the others and sees. -/
theorem hardUnmet_eq_none (himages : features.hasImages = true) :
    hardUnmet candidate features = none ↔ hardUnmet candidate features.withoutImages = none ∧
      candidate.capability.visionState.isSupported = true := by
  rw [hardUnmet_withoutImages, hardUnmet, himages, Bool.true_and]
  by_cases hvision : candidate.capability.visionState.isSupported = true
  · simp [hvision]
  · have hblind : (!candidate.capability.visionState.isSupported) = true := by simpa using hvision
    rw [if_pos hblind]
    refine iff_of_false ?_ fun h ↦ hvision h.2
    split_ifs <;> exact nofun

theorem visionProjection_ite (p : Candidate → Prop) [DecidablePred p] :
    VisionProjection fun candidate ↦
      if p candidate then candidate.declareVision else candidate where
  target candidate := by split_ifs <;> rfl
  health candidate := by split_ifs <;> rfl
  window candidate := by split_ifs <;> rfl
  gates candidate features := by
    split_ifs
    · rw [hardUnmet_withoutImages, hardUnmet_withoutImages]
      rfl
    · rfl

theorem visionProjection_admitUnknown : VisionProjection admitUnknown := visionProjection_ite _

theorem visionProjection_declareMembers (members : List UpstreamModel) :
    VisionProjection (declareMembers members) := visionProjection_ite _

theorem VisionProjection.comp {outer : Candidate → Candidate} (houter : VisionProjection outer)
    (h : VisionProjection project) :
    VisionProjection fun candidate ↦ outer (project candidate) where
  target candidate := (houter.target _).trans (h.target candidate)
  health candidate := (houter.health _).trans (h.health candidate)
  window candidate := (houter.window _).trans (h.window candidate)
  gates candidate features := (houter.gates _ features).trans (h.gates candidate features)

/-- The projection of the second pass. -/
def admitMembers (members : List UpstreamModel) (candidate : Candidate) : Candidate :=
  declareMembers members (admitUnknown candidate)

theorem visionProjection_admitMembers (members : List UpstreamModel) :
    VisionProjection (admitMembers members) :=
  (visionProjection_declareMembers members).comp visionProjection_admitUnknown

theorem VisionProjection.fitsContext (h : VisionProjection project) :
    router.fitsContext (project candidate) features = router.fitsContext candidate features := by
  rw [Router.fitsContext, Router.fitsContext, effectiveWindow, effectiveWindow, h.window]

theorem VisionProjection.supplied_map (h : VisionProjection project) (target : UpstreamModel) :
    supplied (candidates.map project) target = (supplied candidates target).map project := by
  rw [supplied, supplied, List.find?_map]
  simp only [Function.comp_def, h.target]

theorem VisionProjection.installed_map (h : VisionProjection project)
    (members : List UpstreamModel) :
    installed (candidates.map project) members = (installed candidates members).map project := by
  rw [installed, installed, List.map_filterMap]
  exact List.filterMap_congr fun target _ ↦ h.supplied_map target

/-- A ranking over a projection under which exactly the other gates count. -/
theorem VisionProjection.ranking_map (h : VisionProjection project)
    (hgates : ∀ candidate ∈ candidates, hardUnmet (project candidate) features = none ↔
      hardUnmet candidate features.withoutImages = none) :
    router.ranking features (candidates.map project) =
      (router.ranking features.withoutImages candidates).map project := by
  have hcapable : capable features (candidates.map project) =
      (capable features.withoutImages candidates).map project := by
    rw [capable, capable, List.filter_map]
    refine congrArg _ (List.filter_congr fun candidate hmem ↦ ?_)
    rw [Function.comp_apply, Bool.eq_iff_iff, Option.isNone_iff_eq_none, Option.isNone_iff_eq_none]
    exact hgates candidate hmem
  have hfitting : ∀ candidates : List Candidate, router.fitting features (candidates.map project) =
      (router.fitting features.withoutImages candidates).map project := by
    intro candidates
    rw [fitting, fitting, List.filter_map]
    exact congrArg _ (List.filter_congr fun candidate _ ↦ h.fitsContext)
  have hrotation : ∀ candidates : List Candidate, inRotation (candidates.map project) =
      (inRotation candidates).map project := by
    intro candidates
    rw [inRotation, inRotation, List.filter_map]
    refine congrArg _ (List.filter_congr fun candidate _ ↦ ?_)
    rw [Function.comp_apply, h.health]
  have hwindow : ∀ candidate, router.effectiveWindow (project candidate) =
      router.effectiveWindow candidate := by
    intro candidate
    rw [effectiveWindow, effectiveWindow, h.window]
  have horder : ∀ overContext candidates, router.order overContext (candidates.map project) =
      (router.order overContext candidates).map project := by
    intro overContext candidates
    rw [order, order]
    split_ifs
    · simp only [sortByKey_map, h.health, hwindow]
    · simp only [sortByKey_map, h.health]
  have hpreferred : ∀ candidates : List Candidate, router.preferred features
      (candidates.map project) =
        (router.preferred features.withoutImages candidates).map project := by
    intro candidates
    rw [preferred, preferred, hfitting, List.isEmpty_map]
    split_ifs <;> rfl
  have hlast : ∀ candidates : List Candidate, lastResort (candidates.map project) =
      (lastResort candidates).map project := by
    intro candidates
    rw [lastResort, lastResort, hrotation, List.isEmpty_map]
    split_ifs <;> rfl
  rw [ranking, ranking, hcapable, hfitting, List.isEmpty_map, hpreferred, hlast, horder]

end Projections

/-! ## What may see -/

section Sight

variable {candidate : Candidate} {members : List UpstreamModel}

/-- Over the first projection, exactly the candidates that may be tried see. -/
theorem isSupported_admitUnknown : (admitUnknown candidate).capability.visionState.isSupported =
    candidate.capability.allowsImageAttempt := by
  rw [admitUnknown, ModelCapability.allowsImageAttempt]
  rcases hstate : candidate.capability.visionState with - | - | - | -
  · rw [if_neg (by simp), hstate]
    rfl
  · rw [if_neg (by simp), hstate]
    rfl
  · rw [if_neg (by simp), hstate]
    rfl
  · rw [if_pos rfl]
    rfl

/-- Over the second one, the members of the selected pool see too. -/
theorem isSupported_admitMembers :
    (admitMembers members candidate).capability.visionState.isSupported =
      (decide (candidate.target ∈ members) || candidate.capability.allowsImageAttempt) := by
  rw [admitMembers, declareMembers, visionProjection_admitUnknown.target]
  by_cases hmem : candidate.target ∈ members
  · rw [if_pos hmem, decide_eq_true hmem, Bool.true_or]
    rfl
  · rw [if_neg hmem, decide_eq_false hmem, Bool.false_or, isSupported_admitUnknown]

end Sight

/-! ## The router over a projection -/

section Route

variable {unicode : Unicode} {router : Router} {request : ChatRequest} {hints : List AgentHint}
  {candidates : List Candidate} {decision : Decision} {pool : String} {decidedBy : DecidedBy}
  {members : List UpstreamModel} {target : UpstreamModel}

/-- What a pool contributes to a route. -/
def listed (router : Router) (features : RequestFeatures) (candidates : List Candidate)
    (members : List UpstreamModel) : List UpstreamModel :=
  (router.ranking features (installed candidates members)).map Candidate.target

theorem mem_offers_iff_listed (hlocal : router.config.localOnly = false)
    {features : RequestFeatures} :
    target ∈ router.offers candidates features pool ↔ ∃ members,
      router.config.pools.lookup pool = some members ∧
        target ∈ listed router features candidates members := by
  rcases hlookup : router.config.pools.lookup pool with - | members
  · rw [offers, hlookup]
    simp
  · rw [offers_eq hlocal hlookup]
    simp [listed]

theorem head?_pushNew {targets : List UpstreamModel} (ranked : List UpstreamModel)
    (h : targets ≠ []) :
    (pushNew targets ranked).head? = targets.head? := by
  obtain ⟨added, heq, -⟩ := exists_pushNew targets ranked
  rw [heq, List.head?_append_of_ne_nil _ h]

theorem head?_extended {features : RequestFeatures} {pools : List String}
    {targets : List UpstreamModel} (h : targets ≠ []) :
    (router.extended candidates features pools targets).head? = targets.head? := by
  induction pools generalizing targets with
  | nil => rfl
  | cons pool pools ih =>
    have hpush := head?_pushNew (router.offers candidates features pool) h
    rw [extended, List.foldl_cons, ← extended, ih, hpush]
    intro hnil
    rw [hnil] at hpush
    exact h (List.head?_eq_none_iff.mp hpush.symm)

/-- The targets of a route: those the selected pool contributes, then those of the backups. -/
theorem mem_targets_of_route (hexact : router.config.honorExactModel = false)
    (hlocal : router.config.localOnly = false)
    (hselect : router.selectPool unicode request hints
      (RequestFeatures.extract unicode request hints) = (pool, decidedBy))
    (hpool : router.config.pools.lookup pool = some members)
    (hok : router.route unicode request hints candidates = .ok decision) :
    target ∈ decision.targets ↔
      target ∈ listed router (.extract unicode request hints) candidates members ∨
        ∃ backup ∈ router.backupsAfter pool, ∃ members',
          router.config.pools.lookup backup = some members' ∧
            target ∈ listed router (.extract unicode request hints) candidates members' := by
  rcases route_cases candidates hexact hlocal hselect hpool with
    ⟨⟨error, herror⟩, -⟩ | ⟨decision', hok', -, -, htargets⟩
  · rw [herror] at hok
    nomatch hok
  · obtain rfl := Outcome.ok.inj (hok.symm.trans hok')
    rw [htargets, mem_extended]
    simp only [mem_offers_iff_listed hlocal]
    rfl

/-- The first choice is the first one of the selected pool. -/
theorem chosen_of_route (hexact : router.config.honorExactModel = false)
    (hlocal : router.config.localOnly = false)
    (hselect : router.selectPool unicode request hints
      (RequestFeatures.extract unicode request hints) = (pool, decidedBy))
    (hpool : router.config.pools.lookup pool = some members)
    (hok : router.route unicode request hints candidates = .ok decision) :
    (listed router (.extract unicode request hints) candidates members).head? =
      some decision.chosen := by
  rcases route_cases candidates hexact hlocal hselect hpool with
    ⟨⟨error, herror⟩, -⟩ | ⟨decision', hok', hne, -, htargets⟩
  · rw [herror] at hok
    nomatch hok
  · obtain rfl := Outcome.ok.inj (hok.symm.trans hok')
    have hhead := congrArg List.head? htargets
    rw [head?_extended (by simpa using hne)] at hhead
    exact hhead.symm

/-- A route with a capable member in the selected pool succeeds. -/
theorem exists_route (hexact : router.config.honorExactModel = false)
    (hlocal : router.config.localOnly = false)
    (hselect : router.selectPool unicode request hints
      (RequestFeatures.extract unicode request hints) = (pool, decidedBy))
    (hpool : router.config.pools.lookup pool = some members)
    (hcapable : ∃ candidate ∈ installed candidates members,
      hardUnmet candidate (.extract unicode request hints) = none) :
    ∃ decision, router.route unicode request hints candidates = .ok decision := by
  rcases route_cases candidates hexact hlocal hselect hpool with ⟨-, hnil⟩ | ⟨decision, hok, -⟩
  · obtain ⟨candidate, hmem, hclears⟩ := hcapable
    exact absurd (mem_capable.mpr ⟨hmem, hclears⟩)
      (List.eq_nil_iff_forall_not_mem.mp (ranking_eq_nil.mp hnil) candidate)
  · exact ⟨decision, hok⟩

/-- A route without one is refused for what the first installed member lacks. -/
theorem route_refused (hexact : router.config.honorExactModel = false)
    (hlocal : router.config.localOnly = false)
    (hselect : router.selectPool unicode request hints
      (RequestFeatures.extract unicode request hints) = (pool, decidedBy))
    (hpool : router.config.pools.lookup pool = some members) {first : Candidate}
    {reason : UnmetRequirement} (hfirst : (installed candidates members).head? = some first)
    (hreason : hardUnmet first (.extract unicode request hints) = some reason)
    (hnone : ∀ candidate ∈ installed candidates members,
      hardUnmet candidate (.extract unicode request hints) ≠ none) :
    router.route unicode request hints candidates = .err (.unsatisfiable pool reason) := by
  have hcapable : capable (.extract unicode request hints) (installed candidates members) = [] :=
    List.eq_nil_iff_forall_not_mem.mpr fun candidate hmem ↦
      hnone candidate (mem_capable.mp hmem).1 (mem_capable.mp hmem).2
  obtain ⟨rest, hinstalled⟩ : ∃ rest, installed candidates members = first :: rest :=
    ⟨_, (List.cons_head?_tail hfirst).symm⟩
  rw [route_eq hexact hselect hpool, rank, hinstalled, hlocal]
  rw [hinstalled] at hcapable
  simp only [List.isEmpty_cons, Bool.false_eq_true, if_false, usableTargets_lastResort, hcapable,
    List.isEmpty_nil, if_true, refuseFirst, hreason, Option.getD_some]
  rfl

end Route

end TokenStation
