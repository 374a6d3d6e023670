import TokenStation.Router.Layers

/-!
# Tier routing

What a tier route returns, stated without the router's loops. `Contribution` says what a list of
candidates taken from one pool must satisfy, and `route_tiered` says that a route succeeds exactly
when the selected pool has a capable installed member, and that its targets are then a contribution
of that pool followed by contributions of the authorized backups.

A member of a pool stands for the first candidate the host supplies with its target. With two
candidates for one target the second one is never looked at (`route_duplicate_candidate`).
-/

namespace TokenStation

open Library

namespace Router

/-- A list of candidates taken from one pool: installed members of it that clear the hard gates,
the healthy before the degraded before the ejected, and the operator's order kept among candidates
with equal sort keys. -/
structure Contribution (router : Router) (candidates : List Candidate)
    (features : RequestFeatures) (members : List UpstreamModel) (listed : List Candidate) :
    Prop where
  member : ∀ candidate ∈ listed, candidate.target ∈ members
  supplied : ∀ candidate ∈ listed, supplied candidates candidate.target = some candidate
  gates : ∀ candidate ∈ listed, hardUnmet candidate features = none
  health : listed.Pairwise fun a b ↦ a.health ≤ b.health
  /-- The window decides too only when no capable member's window fits the request. -/
  stable : ∀ candidate, (listed.filter (router.SameKey
    (router.fitting features (capable features (installed candidates members))).isEmpty ·
      candidate)).Sublist (installed candidates members)

variable {router : Router} {candidates : List Candidate} {features : RequestFeatures}

/-- Any part of a pool's ranking is a contribution of the pool. -/
theorem contribution_of_sublist {members : List UpstreamModel} {listed : List Candidate}
    (h : listed.Sublist (router.ranking features (installed candidates members))) :
    router.Contribution candidates features members listed where
  member _ hmem :=
    (mem_installed.mp (capable_of_mem_ranking (h.subset hmem)).1).2
  supplied _ hmem :=
    (mem_installed.mp (capable_of_mem_ranking (h.subset hmem)).1).1
  gates _ hmem := (capable_of_mem_ranking (h.subset hmem)).2
  health := ranking_health.sublist h
  stable candidate := (h.filter _).trans (ranking_stable candidate)

/-- Appending the offers of existing pools appends a contribution of each, in their order, and no
target twice. -/
theorem exists_backups (hlocal : router.config.localOnly = false) (candidates : List Candidate)
    (features : RequestFeatures) {pools : List String}
    (hpools : ∀ pool ∈ pools, pool ∈ router.config.pools) (targets : List UpstreamModel) :
    ∃ backups : List (String × List Candidate),
      router.extended candidates features pools targets =
          targets ++ (backups.flatMap Prod.snd).map Candidate.target ∧
        backups.map Prod.fst = pools ∧
        (∀ backup ∈ backups, ∃ members, router.config.pools.lookup backup.1 = some members ∧
          router.Contribution candidates features members backup.2) ∧
        ((backups.flatMap Prod.snd).map Candidate.target).Nodup ∧
        ∀ candidate ∈ backups.flatMap Prod.snd, candidate.target ∉ targets := by
  induction pools generalizing targets with
  | nil => exact ⟨[], by simp [extended], rfl, by simp, List.nodup_nil, by simp⟩
  | cons pool pools ih =>
    obtain ⟨hpool, hrest⟩ := List.forall_mem_cons.mp hpools
    obtain ⟨members, hlookup⟩ := Option.isSome_iff_exists.mp (AList.lookup_isSome.mpr hpool)
    obtain ⟨added, hpush, hsub, hnodup, hadded⟩ :=
      exists_pushNew targets (router.offers candidates features pool)
    rw [offers_eq hlocal hlookup] at hsub hadded
    obtain ⟨listed, hlisted, rfl⟩ := List.sublist_map_iff.mp hsub
    obtain ⟨backups, heq, hnames, hcontribution, hdistinct, hnew⟩ :=
      ih hrest (targets ++ listed.map Candidate.target)
    refine ⟨(pool, listed) :: backups, ?_, by simp [hnames], ?_, ?_, ?_⟩
    · rw [extended, List.foldl_cons, ← extended, hpush, heq]
      simp
    · rw [List.forall_mem_cons]
      exact ⟨⟨members, hlookup, contribution_of_sublist hlisted⟩, hcontribution⟩
    · rw [List.flatMap_cons, List.map_append, List.nodup_append]
      refine ⟨hnodup, hdistinct, ?_⟩
      rintro target htarget _ hother rfl
      obtain ⟨candidate, hcandidate, rfl⟩ := List.mem_map.mp hother
      exact hnew candidate hcandidate (List.mem_append_right _ htarget)
    · intro candidate hcandidate
      rw [List.flatMap_cons, List.mem_append] at hcandidate
      rcases hcandidate with hcandidate | hcandidate
      · exact ((hadded _).mp (List.mem_map_of_mem hcandidate)).2
      · exact fun h ↦ hnew candidate hcandidate (List.mem_append_left _ h)

/-- What a tier route owes its caller: the name of the selected pool, a contribution of that pool
first, and then contributions of listed backups that repeat no target. -/
structure TierDecision (router : Router) (candidates : List Candidate)
    (features : RequestFeatures) (pool : String) (members : List UpstreamModel)
    (decision : Decision) (own : List Candidate) (backups : List (String × List Candidate)) :
    Prop where
  named : decision.pool = pool
  targets : decision.targets = (own ++ backups.flatMap Prod.snd).map Candidate.target
  first : router.Contribution candidates features members own
  listed : (backups.map Prod.fst).Sublist router.config.recovery.backups
  rest : ∀ backup ∈ backups, backup.1 ≠ pool ∧ ∃ members',
    router.config.pools.lookup backup.1 = some members' ∧
      router.Contribution candidates features members' backup.2
  nodup : ((backups.flatMap Prod.snd).map Candidate.target).Nodup
  disjoint : ∀ candidate ∈ backups.flatMap Prod.snd, candidate.target ∉ own.map Candidate.target

/-- The targets of a tier route are what `TierDecision` says. -/
theorem exists_tierDecision (htiered : router.config.routingMode = .tiered)
    (hlocal : router.config.localOnly = false) {members : List UpstreamModel} {decision : Decision}
    (htargets : decision.targets = router.extended candidates features
      (router.backupsAfter decision.pool)
      ((router.ranking features (installed candidates members)).map Candidate.target)) :
    ∃ own backups,
      router.TierDecision candidates features decision.pool members decision own backups := by
  have hconfig := (RouterConfig.validate_eq_ok htiered).mp router.valid
  have hpools : ∀ backup ∈ router.backupsAfter decision.pool, backup ∈ router.config.pools := by
    intro backup hbackup
    exact hconfig.recovery backup (List.mem_filter.mp hbackup).1
  obtain ⟨backups, hextended, hnames, hcontribution, hnodup, hnew⟩ :=
    exists_backups hlocal candidates features hpools
      ((router.ranking features (installed candidates members)).map Candidate.target)
  have hdifferent : ∀ backup ∈ backups, backup.1 ≠ decision.pool := by
    intro backup hbackup
    have hmem : backup.1 ∈ router.backupsAfter decision.pool :=
      hnames ▸ List.mem_map_of_mem hbackup
    simpa using (List.mem_filter.mp hmem).2
  have hlisted : (backups.map Prod.fst).Sublist router.config.recovery.backups := by
    rw [hnames]
    exact List.filter_sublist
  refine ⟨_, backups, rfl, ?_, contribution_of_sublist (List.Sublist.refl _), hlisted, ?_, hnodup,
    hnew⟩
  · rw [htargets, hextended, List.map_append]
  · intro backup hbackup
    exact ⟨hdifferent backup hbackup, hcontribution backup hbackup⟩

/-- **Tier routing.** The layers pick exactly one pool and it exists; the route never panics; it
succeeds exactly when some member of the pool has an installed candidate that clears the hard
gates; and then it owes what `TierDecision` says. -/
theorem route_tiered (unicode : Unicode) (router : Router)
    (htiered : router.config.routingMode = .tiered)
    (hexact : router.config.honorExactModel = false) (hlocal : router.config.localOnly = false)
    (request : ChatRequest) (hints : List AgentHint) (candidates : List Candidate) :
    ∃ pool members,
      (∀ other, SelectedPool unicode router.config (.extract unicode request hints) request hints
        other ↔ other = pool) ∧
      router.config.pools.lookup pool = some members ∧
      router.route unicode request hints candidates ≠ .panic ∧
      ((∃ decision, router.route unicode request hints candidates = .ok decision) ↔
        ∃ member ∈ members, ∃ candidate, supplied candidates member = some candidate ∧
          hardUnmet candidate (.extract unicode request hints) = none) ∧
      ∀ decision, router.route unicode request hints candidates = .ok decision →
        ∃ own backups, router.TierDecision candidates (.extract unicode request hints) pool
          members decision own backups := by
  obtain ⟨pool, members, hselected, hlookup, hroute⟩ :=
    exists_tier unicode router htiered hexact hlocal request hints candidates
  have hcapable : (∃ candidate ∈ installed candidates members,
      hardUnmet candidate (.extract unicode request hints) = none) ↔
        ∃ member ∈ members, ∃ candidate, supplied candidates member = some candidate ∧
          hardUnmet candidate (.extract unicode request hints) = none := by
    simp only [installed, List.mem_filterMap]
    grind
  refine ⟨pool, members, fun other ↦ ⟨fun h ↦ h.unique hselected, fun h ↦ h ▸ hselected⟩,
    hlookup, ?_⟩
  rw [← hcapable]
  rcases hroute with ⟨⟨error, herr⟩, hnone⟩ | ⟨decision, hok, hsome, rfl, htargets⟩
  · rw [herr]
    exact ⟨by simp, by simp [hnone], by simp⟩
  · rw [hok]
    refine ⟨by simp, iff_of_true ⟨decision, rfl⟩ hsome, ?_⟩
    rintro _ ⟨⟩
    exact exists_tierDecision htiered hlocal htargets

/-- A router with one pool routes a plain request to its only member. -/
theorem route_tiered_cloudOnly : ∃ pool members,
    (∀ other, SelectedPool .ascii cloudOnly.config (.extract .ascii plainRequest []) plainRequest []
      other ↔ other = pool) ∧
    cloudOnly.config.pools.lookup pool = some members ∧
    cloudOnly.route .ascii plainRequest [] [cloudCandidate] ≠ .panic ∧
    ((∃ decision, cloudOnly.route .ascii plainRequest [] [cloudCandidate] = .ok decision) ↔
      ∃ member ∈ members, ∃ candidate, supplied [cloudCandidate] member = some candidate ∧
        hardUnmet candidate (.extract .ascii plainRequest []) = none) ∧
    ∀ decision, cloudOnly.route .ascii plainRequest [] [cloudCandidate] = .ok decision →
      ∃ own backups, cloudOnly.TierDecision [cloudCandidate] (.extract .ascii plainRequest [])
        pool members decision own backups :=
  route_tiered .ascii cloudOnly rfl rfl rfl plainRequest [] [cloudCandidate]

/-! ## Two candidates for one target -/

/-- A request that offers a tool. -/
def toolRequest : ChatRequest :=
  { plainRequest with tools := [{ name := "t", description := none, parameters := .null }] }

/-- A candidate for the same target that can call tools. -/
def toolCandidate : Candidate := { cloudCandidate with capability := { tool := true } }

/-- The second candidate for the only member clears the gates, and the route is refused: the first
one is the member's candidate. -/
theorem route_duplicate_candidate :
    ¬ ((∃ decision, cloudOnly.route .ascii toolRequest [] [cloudCandidate, toolCandidate] =
        .ok decision) ↔
      ∃ member ∈ [cloudModel], ∃ candidate ∈ [cloudCandidate, toolCandidate],
        candidate.target = member ∧
          hardUnmet candidate (.extract .ascii toolRequest []) = none) := by
  intro h
  obtain ⟨decision, hdecision⟩ := h.mpr
    ⟨cloudModel, by simp, toolCandidate, by simp, rfl, rfl⟩
  have hrefused : cloudOnly.route .ascii toolRequest [] [cloudCandidate, toolCandidate] =
      .err (.unsatisfiable "main" .tools) := rfl
  rw [hrefused] at hdecision
  cases hdecision

end Router

end TokenStation
