import TokenStation.Router.Ranking

/-!
# The local lock

With `localOnly` set and `allowCloudFallback` clear, the request must not leave the machine. Every
tier path keeps that promise: the selected pool and every backup is ranked by its local members
alone. A pinned model is served by `routeExact`, which reads neither flag. So a locked route stays
local exactly when it is not pinned, or when everything that serves the pinned model is local
anyway.
-/

namespace TokenStation

open Library

/-- Every target of the decision, if there is one, belongs to a local candidate. -/
def StaysLocal (candidates : List Candidate) (outcome : Outcome NoRoute Decision) : Prop :=
  ∀ decision, outcome = .ok decision → ∀ target ∈ decision.targets,
    ∃ candidate ∈ candidates, candidate.isLocal = true ∧ candidate.target = target

namespace Router

variable {router : Router} {candidates : List Candidate}

/-- Strictly locked, no named pool offers a cloud target. -/
theorem offers_local (hlocal : router.config.localOnly = true)
    (hcloud : router.config.allowCloudFallback = false) {features : RequestFeatures}
    {pool : String} : ∀ target ∈ router.offers candidates features pool,
      ∃ candidate ∈ candidates, candidate.isLocal = true ∧ candidate.target = target := by
  rw [offers]
  rcases router.config.pools.lookup pool with - | members
  · simp
  · dsimp only
    rcases hrank : router.rank members candidates features pool with ranked | error | -
    · exact rank_local hlocal hcloud hrank
    · simp
    · simp

/-- The tier path keeps the lock, under either recovery policy. -/
theorem route_staysLocal (unicode : Unicode) (hexact : router.config.honorExactModel = false)
    (hlocal : router.config.localOnly = true) (hcloud : router.config.allowCloudFallback = false)
    (request : ChatRequest) (hints : List AgentHint) :
    StaysLocal candidates (router.route unicode request hints candidates) := by
  intro decision hdecision target htarget
  obtain ⟨members, targets, -, hrank, hextended, -⟩ := (route_eq_ok hexact rfl).mp hdecision
  rw [hextended, mem_extended] at htarget
  rcases htarget with htarget | ⟨pool, -, htarget⟩
  · exact rank_local hlocal hcloud hrank target htarget
  · exact offers_local hlocal hcloud target htarget

/-- The candidates a pinned model is served from. -/
theorem mem_routeExact {request : ChatRequest} {features : RequestFeatures}
    {decision : Decision} (h : routeExact request features candidates = .ok decision)
    (target : UpstreamModel) :
    target ∈ decision.targets ↔ ∃ candidate ∈ candidates,
      candidate.target.model = request.model ∧ hardUnmet candidate features = none ∧
        candidate.health ≠ .unavailable ∧ candidate.target = target := by
  rw [routeExact] at h
  dsimp only at h
  split at h
  · cases h
  · split at h
    · exact absurd h refuseFirst_ne_ok
    · split at h
      · cases h
      · obtain ⟨htargets, -⟩ := decideTargets_eq_ok.mp h
        rw [htargets, List.mem_map]
        simp only [mem_sortByKey, mem_inRotation, mem_capable, List.mem_filter,
          decide_eq_true_eq, and_assoc]

/-- A pinned model is served exactly when something serves it. -/
theorem exists_routeExact {request : ChatRequest} {features : RequestFeatures}
    {candidate : Candidate} (hmem : candidate ∈ candidates)
    (hmodel : candidate.target.model = request.model)
    (hgates : hardUnmet candidate features = none) (hhealth : candidate.health ≠ .unavailable) :
    ∃ decision, routeExact request features candidates = .ok decision := by
  have hnamed : candidate ∈ candidates.filter
      fun candidate ↦ decide (candidate.target.model = request.model) := by
    simp [hmem, hmodel]
  have hcapable := mem_capable.mpr ⟨hnamed, hgates⟩
  have husable := mem_inRotation.mpr ⟨hcapable, hhealth⟩
  have hne : ∀ {l : List Candidate}, candidate ∈ l → l.isEmpty = false := fun h ↦
    List.isEmpty_eq_false_iff.mpr (List.ne_nil_of_mem h)
  simp only [routeExact, hne hnamed, hne hcapable, hne husable, Bool.false_eq_true, if_false]
  refine exists_decideTargets _ _ _ ?_
  exact List.ne_nil_of_mem (List.mem_map_of_mem (mem_sortByKey.mpr husable))

/-- **Strict-local confinement.** A strictly locked route stays local exactly when it does not pin
the model, or when every candidate that can serve the pinned model shares its target with a local
one. -/
theorem staysLocal_route_iff (unicode : Unicode) (router : Router)
    (hlocal : router.config.localOnly = true) (hcloud : router.config.allowCloudFallback = false)
    (request : ChatRequest) (hints : List AgentHint) (candidates : List Candidate) :
    StaysLocal candidates (router.route unicode request hints candidates) ↔
      router.config.honorExactModel = false ∨
        ∀ candidate ∈ candidates, candidate.target.model = request.model →
          hardUnmet candidate (RequestFeatures.extract unicode request hints) = none →
          candidate.health ≠ .unavailable →
          ∃ other ∈ candidates, other.isLocal = true ∧ other.target = candidate.target := by
  by_cases hexact : router.config.honorExactModel = false
  · exact ⟨fun _ ↦ Or.inl hexact,
      fun _ ↦ route_staysLocal unicode hexact hlocal hcloud request hints⟩
  · have hroute : router.route unicode request hints candidates =
        routeExact request (RequestFeatures.extract unicode request hints) candidates := by
      rw [route, if_pos (by simpa using hexact)]
    rw [hroute, or_iff_right hexact]
    constructor
    · intro hstays candidate hmem hmodel hgates hhealth
      obtain ⟨decision, hdecision⟩ := exists_routeExact hmem hmodel hgates hhealth
      exact hstays decision hdecision candidate.target
        ((mem_routeExact hdecision _).mpr ⟨candidate, hmem, hmodel, hgates, hhealth, rfl⟩)
    · intro hall decision hdecision target htarget
      obtain ⟨candidate, hmem, hmodel, hgates, hhealth, rfl⟩ :=
        (mem_routeExact hdecision _).mp htarget
      exact hall candidate hmem hmodel hgates hhealth

/-! ## A locked router that pins the model -/

/-- Locked to local upstreams, and honoring the caller's exact model. -/
def pinnedAndLocked : Router where
  config := { RouterConfig.single "main" [cloudModel] with
    honorExactModel := true, localOnly := true }
  valid := rfl

/-- With a local candidate for the pinned model, the lock holds. -/
theorem staysLocal_route_iff_pinned :
    StaysLocal [{ cloudCandidate with isLocal := true }]
      (pinnedAndLocked.route .ascii plainRequest []
        [{ cloudCandidate with isLocal := true }]) := by
  refine (staysLocal_route_iff .ascii pinnedAndLocked rfl rfl plainRequest [] _).mpr (Or.inr ?_)
  intro candidate hmem _ _ _
  refine ⟨candidate, hmem, ?_, rfl⟩
  rw [List.mem_singleton.mp hmem]

/-- The lock does not hold in exact-model mode: the route is a cloud target. -/
theorem not_staysLocal_pinned :
    pinnedAndLocked.config.localOnly = true ∧ pinnedAndLocked.config.allowCloudFallback = false ∧
      ¬ StaysLocal [cloudCandidate]
        (pinnedAndLocked.route .ascii plainRequest [] [cloudCandidate]) := by
  refine ⟨rfl, rfl, fun h ↦ ?_⟩
  obtain ⟨candidate, hmem, hisLocal, -⟩ := h _ rfl cloudModel List.mem_cons_self
  rw [List.mem_singleton.mp hmem] at hisLocal
  cases hisLocal

end Router

end TokenStation
