import TokenStation.Gateway.ImageRouting
import TokenStation.Router.TierRouting

/-!
# Who is sent the images

Every target of a request with images belongs to the selected pool or to a listed backup, clears the
tool and schema gates, and is not known to be blind. A candidate of the selected pool with these
properties makes the route succeed. A candidate of a backup does when the selected pool is refused
for its vision alone, and the router's preference for windows that fit does not drop the candidate.
-/

namespace TokenStation

open Library Router

/-- What a candidate must be to be sent images: it clears the tool and schema gates, and is not
known to be blind. -/
def MayBeSent (features : RequestFeatures) (candidate : Candidate) : Prop :=
  hardUnmet candidate features.withoutImages = none ∧
    candidate.capability.allowsImageAttempt = true

/-! ## Filtering and ranking -/

section Ranking

variable {router : Router} {decision decision' : Decision} {candidates : List Candidate}
  {free : Finset String} {target : UpstreamModel}

theorem mem_retainFreeFallbacks : target ∈ (retainFreeFallbacks free decision).targets ↔
    target ∈ decision.targets ∧
      (decision.chosen.upstream.name ∈ free → target.upstream.name ∈ free) := by
  rw [retainFreeFallbacks]
  by_cases hfree : decision.chosen.upstream.name ∈ free
  · rw [if_pos hfree, Decision.targets, Decision.targets, List.mem_cons, List.mem_cons,
      List.mem_filter, decide_eq_true_eq]
    constructor
    · rintro (rfl | ⟨hmem, htarget⟩)
      · exact ⟨Or.inl rfl, fun _ ↦ hfree⟩
      · exact ⟨Or.inr hmem, fun _ ↦ htarget⟩
    · rintro ⟨rfl | hmem, htarget⟩
      · exact Or.inl rfl
      · exact Or.inr ⟨hmem, htarget hfree⟩
  · rw [if_neg hfree]
    exact (and_iff_left fun h ↦ absurd h hfree).symm

/-- The targets left are some of those given, and none is known to be blind. -/
theorem mem_of_rankImageTargets (hok : rankImageTargets router decision candidates free =
    .ok decision') (hmem : target ∈ decision'.targets) :
    target ∈ decision.targets ∧ ∃ candidate, supplied candidates target = some candidate ∧
      candidate.capability.allowsImageAttempt = true := by
  have hranked : ∀ candidate ∈ sortByKey (fun candidate ↦ toLex (poolRank router decision candidate,
      toLex (if router.config.routingMode = .tiered then candidate.health else .healthy,
        !candidate.capability.visionState.isSupported)))
      ((installed candidates decision.targets).filter fun candidate ↦
        candidate.capability.allowsImageAttempt),
      candidate.target ∈ decision.targets ∧ ∃ other,
        supplied candidates candidate.target = some other ∧
          other.capability.allowsImageAttempt = true := by
    intro candidate hcandidate
    obtain ⟨hinstalled, hallows⟩ := List.mem_filter.mp (mem_sortByKey.mp hcandidate)
    exact ⟨(mem_installed.mp hinstalled).2, candidate, (mem_installed.mp hinstalled).1, hallows⟩
  rw [rankImageTargets] at hok
  dsimp only at hok
  split at hok
  · nomatch hok
  · rename_i chosen fallbacks heq
    rw [heq] at hranked
    obtain rfl := Outcome.ok.inj hok
    have hkept : target ∈ chosen.target :: fallbacks.map Candidate.target := by
      split_ifs at hmem
      · exact (mem_retainFreeFallbacks.mp hmem).1
      · exact hmem
    rw [← List.map_cons, List.mem_map] at hkept
    obtain ⟨candidate, hcandidate, rfl⟩ := hkept
    exact hranked candidate hcandidate

/-- One target that may be tried is enough. -/
theorem exists_rankImageTargets {candidate : Candidate}
    (hmem : candidate ∈ installed candidates decision.targets)
    (hallows : candidate.capability.allowsImageAttempt = true) :
    ∃ decision', rankImageTargets router decision candidates free = .ok decision' := by
  rw [rankImageTargets]
  dsimp only
  split
  · rename_i hnil
    rw [sortByKey_eq_nil] at hnil
    exact absurd (List.mem_filter.mpr ⟨hmem, hallows⟩)
      (List.eq_nil_iff_forall_not_mem.mp hnil candidate)
  · exact ⟨_, rfl⟩

end Ranking

/-! ## Every target may be sent the images -/

section Sound

variable {unicode : Unicode} {router : Router} {free : Finset String}
  {lastAccount : Option UpstreamModel} {request : ChatRequest} {hints : List AgentHint}
  {candidates : List Candidate} {decision : Decision} {pool : String} {decidedBy : DecidedBy}
  {members : List UpstreamModel} {target : UpstreamModel} {features : RequestFeatures}
  {project : Candidate → Candidate}

/-- A decision over the projected candidates is a tier route over one projection. -/
theorem exists_projection (htiered : router.config.routingMode = .tiered)
    (hok : routeAdmitted unicode router lastAccount request hints candidates = .ok decision) :
    ∃ project, VisionProjection project ∧
      router.route unicode request hints (candidates.map project) = .ok decision := by
  have hroute : ∀ candidates, routeInMode unicode router lastAccount request hints candidates =
      router.route unicode request hints candidates := fun candidates ↦ by
    rw [routeInMode, htiered]
  rw [routeAdmitted] at hok
  simp only [hroute, List.map_map] at hok
  split at hok
  · rename_i refused _
    split_ifs at hok
    · exact ⟨_, visionProjection_admitMembers
        ((router.config.pools.lookup refused).getD []), hok⟩
  · exact ⟨admitUnknown, visionProjection_admitUnknown, hok⟩

/-- What a pool contributes over a projection are installed members that clear the other gates. -/
theorem exists_of_mem_listed (h : VisionProjection project) (himages : features.hasImages = true)
    (hmem : target ∈ listed router features (candidates.map project) members) :
    ∃ candidate ∈ installed candidates members, candidate.target = target ∧
      hardUnmet candidate features.withoutImages = none ∧
      (project candidate).capability.visionState.isSupported = true := by
  obtain ⟨projected, hprojected, rfl⟩ := List.mem_map.mp hmem
  obtain ⟨hinstalled, hclears⟩ := capable_of_mem_ranking hprojected
  rw [h.installed_map] at hinstalled
  obtain ⟨candidate, hcandidate, rfl⟩ := List.mem_map.mp hinstalled
  rw [hardUnmet_eq_none himages, h.gates] at hclears
  exact ⟨candidate, hcandidate, (h.target candidate).symm, hclears⟩

/-- Every target is an installed member of an authorized pool that may be sent the images. -/
theorem sent_of_routeWithMode (htiered : router.config.routingMode = .tiered)
    (hexact : router.config.honorExactModel = false) (hlocal : router.config.localOnly = false)
    (hselect : router.selectPool unicode request hints
      (RequestFeatures.extract unicode request hints) = (pool, decidedBy))
    (hpool : router.config.pools.lookup pool = some members)
    (himages : (RequestFeatures.extract unicode request hints).hasImages = true)
    (hok : routeWithMode unicode router free lastAccount request hints candidates = .ok decision)
    (hmem : target ∈ decision.targets) :
    ∃ candidate, supplied candidates target = some candidate ∧
      MayBeSent (.extract unicode request hints) candidate ∧
      (target ∈ members ∨ ∃ backup ∈ router.config.recovery.backups, ∃ members',
        router.config.pools.lookup backup = some members' ∧ target ∈ members') := by
  rw [routeWithMode, if_pos himages, Outcome.bind_eq_ok] at hok
  obtain ⟨admitted, hadmitted, hranked⟩ := hok
  obtain ⟨hreceipted, candidate, hsupplied, hallows⟩ := mem_of_rankImageTargets hranked hmem
  have hlisted : target ∈ admitted.targets := by
    rw [receipted, htiered, if_pos rfl] at hreceipted
    exact (mem_retainFreeFallbacks.mp hreceipted).1
  obtain ⟨project, hproject, hroute⟩ := exists_projection htiered hadmitted
  -- the candidate of the target is the one that clears the gates
  have hsame : ∀ {members}, (∃ other ∈ installed candidates members, other.target = target ∧
      hardUnmet other (RequestFeatures.extract unicode request hints).withoutImages = none ∧
        (project other).capability.visionState.isSupported = true) →
      target ∈ members ∧ hardUnmet candidate
        (RequestFeatures.extract unicode request hints).withoutImages = none := by
    rintro members ⟨other, hother, rfl, hclears, -⟩
    rw [mem_installed] at hother
    obtain rfl := Option.some.inj (hsupplied.symm.trans hother.1)
    exact ⟨hother.2, hclears⟩
  rcases (mem_targets_of_route hexact hlocal hselect hpool hroute).mp hlisted with
    hown | ⟨backup, hbackup, members', hlookup, hother⟩
  · obtain ⟨hmember, hclears⟩ := hsame (exists_of_mem_listed hproject himages hown)
    exact ⟨candidate, hsupplied, ⟨hclears, hallows⟩, Or.inl hmember⟩
  · obtain ⟨hmember, hclears⟩ := hsame (exists_of_mem_listed hproject himages hother)
    exact ⟨candidate, hsupplied, ⟨hclears, hallows⟩,
      Or.inr ⟨backup, (List.mem_filter.mp hbackup).1, members', hlookup, hmember⟩⟩

end Sound

/-! ## When the route succeeds -/

section Complete

variable {unicode : Unicode} {router : Router} {free : Finset String}
  {lastAccount : Option UpstreamModel} {request : ChatRequest} {hints : List AgentHint}
  {candidates : List Candidate} {decision : Decision} {pool : String} {decidedBy : DecidedBy}
  {members : List UpstreamModel} {candidate : Candidate} {features : RequestFeatures}
  {project : Candidate → Candidate}

/-- A pool contributes an installed member that clears the gates over the projection, is in
rotation, and is kept by the preference for windows that fit. -/
theorem mem_listed (h : VisionProjection project) (himages : features.hasImages = true)
    (hmem : candidate ∈ installed candidates members)
    (hclears : hardUnmet candidate features.withoutImages = none)
    (hsees : (project candidate).capability.visionState.isSupported = true)
    (hhealth : candidate.health ≠ .unavailable)
    (hkept : router.fitsContext candidate features = true ∨
      ∀ other ∈ installed candidates members, hardUnmet other features.withoutImages = none →
        (project other).capability.visionState.isSupported = true →
        router.fitsContext other features = false) :
    candidate.target ∈ listed router features (candidates.map project) members := by
  rw [listed, h.installed_map, List.mem_map]
  refine ⟨project candidate, mem_ranking.mpr ⟨mem_preferred.mpr ⟨?_, ?_⟩, Or.inl ?_⟩,
    h.target candidate⟩
  · rw [mem_capable, hardUnmet_eq_none himages, h.gates]
    exact ⟨List.mem_map_of_mem hmem, hclears, hsees⟩
  · rw [h.fitsContext]
    refine hkept.imp id fun hnone projected hprojected ↦ ?_
    obtain ⟨hprojected, hother⟩ := mem_capable.mp hprojected
    obtain ⟨other, hother', rfl⟩ := List.mem_map.mp hprojected
    rw [hardUnmet_eq_none himages, h.gates] at hother
    rw [h.fitsContext]
    exact hnone other hother' hother.1 hother.2
  · rw [h.health]
    exact hhealth

/-- A decision over the projections that lists a candidate to try makes the route succeed. -/
theorem exists_of_admitted (htiered : router.config.routingMode = .tiered)
    (himages : (RequestFeatures.extract unicode request hints).hasImages = true)
    (hok : routeAdmitted unicode router lastAccount request hints candidates = .ok decision)
    (hlisted : candidate.target ∈ decision.targets)
    (hfree : decision.chosen.upstream.name ∈ free → candidate.target.upstream.name ∈ free)
    (hsupplied : supplied candidates candidate.target = some candidate)
    (hallows : candidate.capability.allowsImageAttempt = true) :
    ∃ decision',
      routeWithMode unicode router free lastAccount request hints candidates = .ok decision' := by
  rw [routeWithMode, if_pos himages, hok, Outcome.ok_bind]
  refine exists_rankImageTargets (mem_installed.mpr ⟨hsupplied, ?_⟩) hallows
  rw [receipted, htiered, if_pos rfl]
  exact mem_retainFreeFallbacks.mpr ⟨hlisted, hfree⟩

theorem routeAdmitted_of_route (htiered : router.config.routingMode = .tiered)
    (hok : router.route unicode request hints (candidates.map admitUnknown) = .ok decision) :
    routeAdmitted unicode router lastAccount request hints candidates = .ok decision := by
  rw [routeAdmitted, routeInMode, htiered]
  dsimp only
  rw [hok]

/-- A candidate of the selected pool that may be sent the images makes the route succeed. -/
theorem exists_of_selected (htiered : router.config.routingMode = .tiered)
    (hexact : router.config.honorExactModel = false) (hlocal : router.config.localOnly = false)
    (hselect : router.selectPool unicode request hints
      (RequestFeatures.extract unicode request hints) = (pool, decidedBy))
    (hpool : router.config.pools.lookup pool = some members)
    (himages : (RequestFeatures.extract unicode request hints).hasImages = true)
    (hmem : candidate ∈ installed candidates members)
    (hmay : MayBeSent (.extract unicode request hints) candidate) :
    ∃ decision,
      routeWithMode unicode router free lastAccount request hints candidates = .ok decision := by
  have hcapable : ∃ candidate ∈ installed (candidates.map admitUnknown) members,
      hardUnmet candidate (.extract unicode request hints) = none := by
    rw [visionProjection_admitUnknown.installed_map]
    refine ⟨admitUnknown candidate, List.mem_map_of_mem hmem, ?_⟩
    rw [hardUnmet_eq_none himages, visionProjection_admitUnknown.gates, isSupported_admitUnknown]
    exact hmay
  obtain ⟨decision, hok⟩ := exists_route hexact hlocal hselect hpool hcapable
  -- the first choice may be sent the images, and nothing drops it
  have hchosen : decision.chosen ∈ listed router (.extract unicode request hints)
      (candidates.map admitUnknown) members :=
    List.mem_of_mem_head? (chosen_of_route hexact hlocal hselect hpool hok)
  obtain ⟨first, hfirst, htarget, -, hsees⟩ :=
    exists_of_mem_listed visionProjection_admitUnknown himages hchosen
  rw [isSupported_admitUnknown] at hsees
  refine exists_of_admitted htiered himages (routeAdmitted_of_route htiered hok) ?_ ?_
    (mem_installed.mp hfirst).1 hsees
  · rw [htarget]
    exact List.mem_cons_self
  · rw [htarget]
    exact id

/-- The second pass starts where the router would start without the images. -/
theorem listed_admitMembers (himages : features.hasImages = true) :
    listed router features (candidates.map (admitMembers members)) members =
      listed router features.withoutImages candidates members := by
  have hproject := visionProjection_admitMembers members
  rw [listed, listed, hproject.installed_map, hproject.ranking_map, List.map_map]
  · exact List.map_congr_left fun candidate _ ↦ hproject.target candidate
  · intro candidate hcandidate
    rw [hardUnmet_eq_none himages, hproject.gates, isSupported_admitMembers,
      decide_eq_true (mem_installed.mp hcandidate).2, Bool.true_or]
    exact and_iff_left rfl

/-- A pool whose first installed member fails the vision gate first is asked for its backups. -/
theorem routeAdmitted_of_refused (lastAccount : Option UpstreamModel)
    (htiered : router.config.routingMode = .tiered)
    (hexact : router.config.honorExactModel = false) (hlocal : router.config.localOnly = false)
    (hselect : router.selectPool unicode request hints
      (RequestFeatures.extract unicode request hints) = (pool, decidedBy))
    (hpool : router.config.pools.lookup pool = some members)
    (himages : (RequestFeatures.extract unicode request hints).hasImages = true)
    (hrecovery : router.config.recovery ≠ .strict) {first : Candidate}
    (hfirst : (installed candidates members).head? = some first)
    (hvision : hardUnmet (admitUnknown first) (.extract unicode request hints) = some .vision)
    (hnone : ∀ candidate ∈ installed candidates members,
      ¬ MayBeSent (.extract unicode request hints) candidate) :
    routeAdmitted unicode router lastAccount request hints candidates =
      router.route unicode request hints (candidates.map (admitMembers members)) := by
  have hrefused : router.route unicode request hints (candidates.map admitUnknown) =
      .err (.unsatisfiable pool .vision) := by
    refine route_refused hexact hlocal hselect hpool ?_ hvision ?_
    · rw [visionProjection_admitUnknown.installed_map, List.head?_map, hfirst]
      rfl
    · intro projected hprojected
      rw [visionProjection_admitUnknown.installed_map] at hprojected
      obtain ⟨candidate, hcandidate, rfl⟩ := List.mem_map.mp hprojected
      rw [ne_eq, hardUnmet_eq_none himages, visionProjection_admitUnknown.gates,
        isSupported_admitUnknown]
      exact hnone candidate hcandidate
  have hask : mayAskBackups router request = true := by
    rw [mayAskBackups, htiered, hexact]
    simpa using hrecovery
  rw [routeAdmitted, routeInMode, htiered]
  dsimp only
  rw [hrefused]
  dsimp only
  rw [if_pos hask, routeInMode, htiered, hpool, List.map_map]
  rfl

/-- A candidate of a backup that the route can fall back on: an installed member of the backup that
may be sent the images. -/
structure Rescues (router : Router) (features : RequestFeatures) (free : Finset String)
    (candidates : List Candidate) (members backup : List UpstreamModel) (candidate : Candidate) :
    Prop where
  installed : candidate ∈ installed candidates backup
  may : MayBeSent features candidate
  rotation : candidate.health ≠ .unavailable
  /-- It is free if the first choice is. -/
  free : ∀ choice ∈ (listed router features.withoutImages candidates members).head?,
    choice.upstream.name ∈ free → candidate.target.upstream.name ∈ free
  /-- The selected pool is refused for its vision. -/
  refused : ∃ first, (TokenStation.installed candidates members).head? = some first ∧
    hardUnmet (admitUnknown first) features = some .vision
  /-- The selected pool would serve the request without its images. -/
  serves : ∃ other ∈ TokenStation.installed candidates members,
    hardUnmet other features.withoutImages = none
  /-- Its window fits, or none fits that the router takes for capable. -/
  kept : router.fitsContext candidate features = true ∨
    ∀ other ∈ TokenStation.installed candidates backup,
      hardUnmet other features.withoutImages = none →
      (other.target ∈ members ∨ other.capability.allowsImageAttempt = true) →
      router.fitsContext other features = false

/-- A candidate to fall back on makes the route succeed. -/
theorem exists_of_rescues (htiered : router.config.routingMode = .tiered)
    (hexact : router.config.honorExactModel = false) (hlocal : router.config.localOnly = false)
    (hselect : router.selectPool unicode request hints
      (RequestFeatures.extract unicode request hints) = (pool, decidedBy))
    (hpool : router.config.pools.lookup pool = some members)
    (himages : (RequestFeatures.extract unicode request hints).hasImages = true)
    {backup : String} (hbackup : backup ∈ router.config.recovery.backups)
    {members' : List UpstreamModel} (hlookup : router.config.pools.lookup backup = some members')
    (h : Rescues router (.extract unicode request hints) free candidates members members'
      candidate) :
    ∃ decision,
      routeWithMode unicode router free lastAccount request hints candidates = .ok decision := by
  obtain ⟨hmem, hmay, hhealth, hfree, ⟨first, hfirst, hvision⟩, hserves, hkept⟩ := h
  by_cases hown : ∃ other ∈ installed candidates members,
      MayBeSent (.extract unicode request hints) other
  · obtain ⟨other, hother, hmay'⟩ := hown
    exact exists_of_selected htiered hexact hlocal hselect hpool himages hother hmay'
  by_cases hsame : backup = pool
  · rw [hsame, hpool] at hlookup
    obtain rfl := Option.some.inj hlookup
    exact absurd ⟨candidate, hmem, hmay⟩ hown
  push Not at hown
  have hproject := visionProjection_admitMembers members
  have hrecovery : router.config.recovery ≠ .strict := fun h ↦ by
    rw [h] at hbackup
    nomatch hbackup
  have hadmitted := routeAdmitted_of_refused lastAccount htiered hexact hlocal hselect hpool himages
    hrecovery hfirst hvision hown
  -- over the second projection the whole selected pool sees
  have hcapable : ∃ candidate ∈ installed (candidates.map (admitMembers members)) members,
      hardUnmet candidate (.extract unicode request hints) = none := by
    obtain ⟨other, hother, hclears⟩ := hserves
    rw [hproject.installed_map]
    refine ⟨admitMembers members other, List.mem_map_of_mem hother, ?_⟩
    rw [hardUnmet_eq_none himages, hproject.gates, isSupported_admitMembers,
      decide_eq_true (mem_installed.mp hother).2, Bool.true_or]
    exact ⟨hclears, rfl⟩
  obtain ⟨decision, hok⟩ := exists_route hexact hlocal hselect hpool hcapable
  have hchosen := chosen_of_route hexact hlocal hselect hpool hok
  rw [listed_admitMembers himages] at hchosen
  refine exists_of_admitted htiered himages (hadmitted.trans hok) ?_ (hfree _ hchosen)
    (mem_installed.mp hmem).1 hmay.2
  refine (mem_targets_of_route hexact hlocal hselect hpool hok).mpr (Or.inr ⟨backup, ?_, members',
    hlookup, mem_listed hproject himages hmem hmay.1 ?_ hhealth (hkept.imp id ?_)⟩)
  · exact List.mem_filter.mpr ⟨hbackup, decide_eq_true hsame⟩
  · rw [isSupported_admitMembers, hmay.2, Bool.or_true]
  · intro hnone other hother hclears hsees
    rw [isSupported_admitMembers, Bool.or_eq_true, decide_eq_true_eq] at hsees
    exact hnone other hother hclears hsees

end Complete

/-- Routing images is sound, and complete as far as the selected pool could serve the request
without them. -/
theorem image_routing (unicode : Unicode) (router : Router)
    (htiered : router.config.routingMode = .tiered)
    (hexact : router.config.honorExactModel = false) (hlocal : router.config.localOnly = false)
    (free : Finset String) (lastAccount : Option UpstreamModel) (request : ChatRequest)
    (hints : List AgentHint) (candidates : List Candidate)
    (himages : (RequestFeatures.extract unicode request hints).hasImages = true) :
    ∃ pool members,
      (∀ other, SelectedPool unicode router.config (.extract unicode request hints) request hints
        other ↔ other = pool) ∧
      router.config.pools.lookup pool = some members ∧
      (∀ decision,
        routeWithMode unicode router free lastAccount request hints candidates = .ok decision →
        ∀ target ∈ decision.targets, ∃ candidate, supplied candidates target = some candidate ∧
          MayBeSent (.extract unicode request hints) candidate ∧
          (target ∈ members ∨ ∃ backup ∈ router.config.recovery.backups, ∃ members',
            router.config.pools.lookup backup = some members' ∧ target ∈ members')) ∧
      ((∃ candidate ∈ installed candidates members,
          MayBeSent (.extract unicode request hints) candidate) →
        ∃ decision, routeWithMode unicode router free lastAccount request hints candidates =
          .ok decision) ∧
      ∀ backup ∈ router.config.recovery.backups, ∀ members',
        router.config.pools.lookup backup = some members' →
        (∃ candidate, Rescues router (.extract unicode request hints) free candidates members
          members' candidate) →
        ∃ decision, routeWithMode unicode router free lastAccount request hints candidates =
          .ok decision := by
  have hconfig := (RouterConfig.validate_eq_ok htiered).mp router.valid
  have hselected := selectedPool_selectPool unicode router (.extract unicode request hints)
    request hints
  rcases hselect : router.selectPool unicode request hints
    (RequestFeatures.extract unicode request hints) with ⟨pool, decidedBy⟩
  rw [hselect] at hselected
  obtain ⟨members, hpool⟩ := hselected.exists_members hconfig
  refine ⟨pool, members, fun other ↦ ⟨fun h ↦ h.unique hselected, fun h ↦ h ▸ hselected⟩, hpool,
    ?_, ?_, ?_⟩
  · intro decision hok target hmem
    exact sent_of_routeWithMode htiered hexact hlocal hselect hpool himages hok hmem
  · rintro ⟨candidate, hmem, hmay⟩
    exact exists_of_selected htiered hexact hlocal hselect hpool himages hmem hmay
  · rintro backup hbackup members' hlookup ⟨candidate, hrescues⟩
    exact exists_of_rescues htiered hexact hlocal hselect hpool himages hbackup hlookup hrescues

/-! ## A spare pool -/

/-- A router with a pool for everything, and a spare one behind it. -/
def withSpare : Router where
  config := { RouterConfig.single "main" [cloudModel] with
    pools := (AList.singleton "main" [cloudModel]).insert "spare" [reserveModel]
    recovery := .ordered ["spare"] }
  valid := rfl

/-- A candidate of the spare pool that can do everything. -/
def sightedCandidate : Candidate :=
  { target := reserveModel, capability := { tool := true, vision := true }, health := .healthy }

/-- A request with an image. -/
def imageRequest : ChatRequest :=
  { plainRequest with
    messages := [{ role := .user, content := some (.parts [.imageUrl "u" none]) }] }

/-- A blind selected pool falls back on the spare one. -/
theorem image_routing_withSpare : ∃ decision,
    routeWithMode .ascii withSpare ∅ none imageRequest [] [cloudCandidate, sightedCandidate] =
      .ok decision := by
  obtain ⟨pool, members, hselected, hpool, -, -, hrescued⟩ := image_routing .ascii withSpare rfl rfl
    rfl ∅ none imageRequest [] [cloudCandidate, sightedCandidate] rfl
  obtain rfl : "main" = pool := (hselected "main").mp (.default nofun nofun rfl)
  obtain rfl : [cloudModel] = members := Option.some.inj hpool
  exact hrescued "spare" (List.mem_singleton.mpr rfl) [reserveModel] rfl ⟨sightedCandidate, {
    installed := List.mem_singleton.mpr rfl
    may := ⟨rfl, rfl⟩
    rotation := by decide
    free := fun _ _ h ↦ absurd h (Finset.notMem_empty _)
    refused := ⟨cloudCandidate, rfl, rfl⟩
    serves := ⟨cloudCandidate, List.mem_singleton.mpr rfl, rfl⟩
    kept := Or.inl rfl }⟩

/-- A selected pool without tools is refused for them, although the spare one could serve the
request. -/
theorem routeWithMode_toolless :
    (∃ candidate ∈ installed [cloudCandidate, sightedCandidate] [reserveModel],
      MayBeSent (.extract .ascii { imageRequest with tools := toolRequest.tools } []) candidate ∧
        candidate.health ≠ .unavailable) ∧
    ¬ ∃ decision, routeWithMode .ascii withSpare ∅ none
      { imageRequest with tools := toolRequest.tools } [] [cloudCandidate, sightedCandidate] =
        .ok decision := by
  refine ⟨⟨sightedCandidate, List.mem_singleton.mpr rfl, ⟨rfl, rfl⟩, by decide⟩, ?_⟩
  rintro ⟨decision, hok⟩
  have hrefused : routeWithMode .ascii withSpare ∅ none
      { imageRequest with tools := toolRequest.tools } [] [cloudCandidate, sightedCandidate] =
        .err (.unsatisfiable "main" .tools) := rfl
  rw [hrefused] at hok
  nomatch hok

end TokenStation
