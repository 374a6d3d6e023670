import TokenStation.Router.Route

/-!
# What one pool contributes

The ranking of a pool is a chain of three filters and a sort. This file says what comes out of it:
`mem_ranking` is the exact membership condition, `ranking_health` and `ranking_sublist` the order,
`rank_eq_ok` the connection to `Router.rank` when the local lock is off, and `rank_local` what
`Router.rank` can return when the lock is on.

Backups are appended with de-duplication. `Router.offers` is what a named pool contributes, and
`recover_eq` says that recovery appends the offers of the listed pools in order, so that
`route_eq_ok` can describe a whole tier route by the pools it visits.
-/

namespace TokenStation

open Library

/-! ## Filters -/

section Filters

variable {candidates : List Candidate} {features : RequestFeatures} {candidate : Candidate}

@[simp] theorem mem_capable :
    candidate ∈ capable features candidates ↔
      candidate ∈ candidates ∧ hardUnmet candidate features = none := by
  simp [capable]

@[simp] theorem mem_inRotation :
    candidate ∈ inRotation candidates ↔
      candidate ∈ candidates ∧ candidate.health ≠ .unavailable := by
  simp [inRotation]

theorem capable_sublist : (capable features candidates).Sublist candidates :=
  List.filter_sublist

theorem inRotation_sublist : (inRotation candidates).Sublist candidates :=
  List.filter_sublist

theorem mem_of_supplied {target : UpstreamModel}
    (h : supplied candidates target = some candidate) :
    candidate ∈ candidates ∧ candidate.target = target := by
  refine ⟨List.mem_of_find?_eq_some h, ?_⟩
  simpa using List.find?_some h

/-- A supplied candidate is the one the host supplies for its own target. -/
theorem supplied_self {target : UpstreamModel}
    (h : supplied candidates target = some candidate) :
    supplied candidates candidate.target = some candidate := by
  rw [(mem_of_supplied h).2, h]

/-- Some candidate is supplied for every target that some candidate has. -/
theorem exists_supplied (h : candidate ∈ candidates) :
    ∃ first, supplied candidates candidate.target = some first := by
  rw [← Option.isSome_iff_exists, supplied, List.find?_isSome]
  exact ⟨candidate, h, by simp⟩

theorem mem_installed {members : List UpstreamModel} :
    candidate ∈ installed candidates members ↔
      supplied candidates candidate.target = some candidate ∧ candidate.target ∈ members := by
  rw [installed, List.mem_filterMap]
  constructor
  · rintro ⟨member, hmember, h⟩
    exact ⟨supplied_self h, (mem_of_supplied h).2 ▸ hmember⟩
  · rintro ⟨h, hmember⟩
    exact ⟨candidate.target, hmember, h⟩

theorem mem_of_mem_installed {members : List UpstreamModel}
    (h : candidate ∈ installed candidates members) : candidate ∈ candidates :=
  (mem_of_supplied (mem_installed.mp h).1).1

@[simp] theorem refuseFirst_ne_ok {α : Type} {pool : String} {value : α} :
    refuseFirst candidates features pool ≠ .ok value := by
  cases candidates <;> simp [refuseFirst]

theorem refuseFirst_ne_panic {α : Type} {pool : String} (h : candidates ≠ []) :
    refuseFirst (α := α) candidates features pool ≠ .panic := by
  cases candidates with
  | nil => exact absurd rfl h
  | cons first rest => simp [refuseFirst]

end Filters

/-- A decision is made exactly when there is a target, and it lists the targets as they are. -/
theorem decideTargets_eq_ok {decidedBy : DecidedBy} {features : RequestFeatures} {pool : String}
    {targets : List UpstreamModel} {decision : Decision} :
    decideTargets decidedBy features pool targets = .ok decision ↔
      decision.targets = targets ∧ decision.decidedBy = decidedBy ∧
        decision.features = features ∧ decision.pool = pool := by
  rcases targets with - | ⟨chosen, fallbacks⟩
  · simp [decideTargets, Decision.targets]
  · obtain ⟨chosen', decidedBy', fallbacks', features', pool'⟩ := decision
    simp only [decideTargets, Decision.targets, Outcome.ok.injEq, Decision.mk.injEq,
      List.cons.injEq]
    tauto

theorem exists_decideTargets (decidedBy : DecidedBy) (features : RequestFeatures) (pool : String)
    {targets : List UpstreamModel} (h : targets ≠ []) :
    ∃ decision, decideTargets decidedBy features pool targets = .ok decision := by
  cases targets with
  | nil => exact absurd rfl h
  | cons chosen fallbacks => exact ⟨_, rfl⟩

namespace Router

variable {router : Router} {features : RequestFeatures} {candidates : List Candidate}

/-! ## The ranking of an installed list -/

@[simp] theorem mem_fitting {candidate : Candidate} :
    candidate ∈ router.fitting features candidates ↔
      candidate ∈ candidates ∧ router.fitsContext candidate features = true := by
  simp [fitting]

/-- The window preference: the candidates that fit, or all of them when none does. -/
def preferred (router : Router) (features : RequestFeatures) (capable : List Candidate) :
    List Candidate :=
  if (router.fitting features capable).isEmpty then capable else router.fitting features capable

/-- The candidates in rotation, or all of them as a last resort. -/
def lastResort (preferred : List Candidate) : List Candidate :=
  if (inRotation preferred).isEmpty then preferred else inRotation preferred

/-- The candidates an installed list contributes, in the order they are tried. -/
def ranking (router : Router) (features : RequestFeatures) (installed : List Candidate) :
    List Candidate :=
  let capable := capable features installed
  router.order (router.fitting features capable).isEmpty
    (lastResort (router.preferred features capable))

theorem mem_preferred {candidate : Candidate} :
    candidate ∈ router.preferred features candidates ↔
      candidate ∈ candidates ∧ (router.fitsContext candidate features = true ∨
        ∀ other ∈ candidates, router.fitsContext other features = false) := by
  rw [preferred]
  split
  next h =>
    have hnone : ∀ other ∈ candidates, router.fitsContext other features = false := by
      simpa [fitting] using h
    exact ⟨fun hc ↦ ⟨hc, Or.inr hnone⟩, And.left⟩
  next h =>
    rw [mem_fitting]
    refine and_congr_right fun _ ↦ ⟨Or.inl, ?_⟩
    rintro (hfits | hnone)
    · exact hfits
    · exact absurd (by simpa [fitting] using hnone) h

theorem mem_lastResort {candidate : Candidate} :
    candidate ∈ lastResort candidates ↔
      candidate ∈ candidates ∧ (candidate.health ≠ .unavailable ∨
        ∀ other ∈ candidates, other.health = .unavailable) := by
  rw [lastResort]
  split
  next h =>
    have hnone : ∀ other ∈ candidates, other.health = .unavailable := by
      simpa [inRotation] using h
    exact ⟨fun hc ↦ ⟨hc, Or.inr hnone⟩, And.left⟩
  next h =>
    rw [mem_inRotation]
    refine and_congr_right fun _ ↦ ⟨Or.inl, ?_⟩
    rintro (hin | hnone)
    · exact hin
    · exact absurd (by simpa [inRotation] using hnone) h

@[simp] theorem mem_order {overContext : Bool} {candidate : Candidate} :
    candidate ∈ router.order overContext candidates ↔ candidate ∈ candidates := by
  rw [order]
  split <;> exact mem_sortByKey

theorem mem_ranking {candidate : Candidate} :
    candidate ∈ router.ranking features candidates ↔
      candidate ∈ router.preferred features (capable features candidates) ∧
        (candidate.health ≠ .unavailable ∨
          ∀ other ∈ router.preferred features (capable features candidates),
            other.health = .unavailable) := by
  rw [ranking, mem_order, mem_lastResort]

theorem capable_of_mem_ranking {candidate : Candidate}
    (h : candidate ∈ router.ranking features candidates) :
    candidate ∈ candidates ∧ hardUnmet candidate features = none :=
  mem_capable.mp (mem_preferred.mp (mem_ranking.mp h).1).1

/-- Ranking never empties a list that holds a capable candidate. -/
theorem ranking_eq_nil :
    router.ranking features candidates = [] ↔ capable features candidates = [] := by
  have hpreferred : router.preferred features (capable features candidates) = [] ↔
      capable features candidates = [] := by
    rw [preferred]
    split
    next => exact Iff.rfl
    next h =>
      refine ⟨fun h' ↦ absurd (List.isEmpty_iff.mpr h') h, fun h' ↦ ?_⟩
      rw [h']
      rfl
  rw [← hpreferred, List.eq_nil_iff_forall_not_mem, List.eq_nil_iff_forall_not_mem]
  constructor
  · intro h candidate hc
    by_cases hall : ∀ other ∈ router.preferred features (capable features candidates),
        other.health = .unavailable
    · exact h candidate (mem_ranking.mpr ⟨hc, Or.inr hall⟩)
    · push Not at hall
      obtain ⟨other, hother, hhealth⟩ := hall
      exact h other (mem_ranking.mpr ⟨hother, Or.inl hhealth⟩)
  · intro h candidate hc
    exact h candidate (mem_ranking.mp hc).1

/-! ### Order -/

/-- Two candidates have equal sort keys: the same health, and when nothing fits the window, windows
of the same size. -/
def SameKey (router : Router) (overContext : Bool) (a b : Candidate) : Prop :=
  a.health = b.health ∧ (overContext = true → router.effectiveWindow a = router.effectiveWindow b)

instance (overContext : Bool) (a b : Candidate) : Decidable (router.SameKey overContext a b) :=
  inferInstanceAs (Decidable (_ ∧ _))

theorem order_health (overContext : Bool) :
    (router.order overContext candidates).Pairwise fun a b ↦ a.health ≤ b.health := by
  rw [order]
  split
  · refine (sortByKey_pairwise _ _).imp fun {a b} h ↦ ?_
    rcases Prod.Lex.le_iff.mp h with h | h
    · exact h.le
    · exact h.1.le
  · exact sortByKey_pairwise _ _

/-- The final sort keeps the given order among candidates with equal sort keys. -/
theorem order_stable (overContext : Bool) (candidate : Candidate) :
    ((router.order overContext candidates).filter
      (router.SameKey overContext · candidate)).Sublist candidates := by
  rw [order]
  split
  next h =>
    convert filter_sortByKey_sublist (fun candidate ↦ toLex (candidate.health,
      OrderDual.toDual (router.effectiveWindow candidate)))
      (toLex (candidate.health, OrderDual.toDual (router.effectiveWindow candidate)))
      candidates using 2
    funext other
    simp [SameKey, h]
  next h =>
    convert filter_sortByKey_sublist Candidate.health candidate.health candidates using 2
    funext other
    simp [SameKey, h]

theorem lastResort_sublist : (lastResort candidates).Sublist candidates := by
  rw [lastResort]
  split
  · exact List.Sublist.refl _
  · exact inRotation_sublist

theorem preferred_sublist : (router.preferred features candidates).Sublist candidates := by
  rw [preferred]
  split
  · exact List.Sublist.refl _
  · exact List.filter_sublist

theorem ranking_health :
    (router.ranking features candidates).Pairwise fun a b ↦ a.health ≤ b.health :=
  order_health _

/-- A ranking keeps the installed order among equal sort keys. -/
theorem ranking_stable (candidate : Candidate) :
    ((router.ranking features candidates).filter
      (router.SameKey (router.fitting features (capable features candidates)).isEmpty ·
        candidate)).Sublist candidates :=
  (order_stable _ candidate).trans
    (lastResort_sublist.trans (preferred_sublist.trans capable_sublist))

/-! ## `usableTargets` and `rank` -/

theorem usableTargets_eq (pool : String) (lastResort : Bool) :
    router.usableTargets candidates features pool lastResort =
      if (capable features candidates).isEmpty then refuseFirst candidates features pool
      else if (inRotation (router.preferred features (capable features candidates))).isEmpty
          && !lastResort then .err (.unavailable pool)
      else .ok ((router.ranking features candidates).map Candidate.target) :=
  rfl

/-- With the last resort, a capable list always yields its ranking. -/
theorem usableTargets_lastResort (pool : String) :
    router.usableTargets candidates features pool true =
      if (capable features candidates).isEmpty then refuseFirst candidates features pool
      else .ok ((router.ranking features candidates).map Candidate.target) := by
  rw [usableTargets_eq, Bool.not_true, Bool.and_false, if_neg Bool.false_ne_true]

/-- Every target comes from the list it was selected from. -/
theorem mem_of_usableTargets {pool : String} {lastResort : Bool} {targets : List UpstreamModel}
    (h : router.usableTargets candidates features pool lastResort = .ok targets) :
    ∀ target ∈ targets, ∃ candidate ∈ candidates, candidate.target = target := by
  rw [usableTargets_eq] at h
  split at h
  · exact absurd h refuseFirst_ne_ok
  · split at h
    · cases h
    · obtain rfl := Outcome.ok.inj h
      intro target htarget
      obtain ⟨candidate, hcandidate, rfl⟩ := List.mem_map.mp htarget
      exact ⟨candidate, (capable_of_mem_ranking hcandidate).1, rfl⟩

theorem usableTargets_ne_panic {pool : String} {lastResort : Bool} (h : candidates ≠ []) :
    router.usableTargets candidates features pool lastResort ≠ .panic := by
  rw [usableTargets_eq]
  split
  · exact refuseFirst_ne_panic h
  · split <;> simp

/-- Without the local lock, a pool is ranked by its installed candidates. -/
theorem rank_eq (hlocal : router.config.localOnly = false) (features : RequestFeatures)
    (candidates : List Candidate) (members : List UpstreamModel) (pool : String) :
    (∃ error, router.rank members candidates features pool = .err error) ∧
        router.ranking features (installed candidates members) = [] ∨
      router.rank members candidates features pool =
          .ok ((router.ranking features (installed candidates members)).map Candidate.target) ∧
        router.ranking features (installed candidates members) ≠ [] := by
  rw [rank]
  simp only [hlocal, Bool.false_eq_true, if_false, usableTargets_lastResort]
  split
  next h =>
    rw [List.isEmpty_iff.mp h]
    exact Or.inl ⟨⟨_, rfl⟩, ranking_eq_nil.mpr rfl⟩
  next h =>
    have hne : installed candidates members ≠ [] := fun h' ↦ h (List.isEmpty_iff.mpr h')
    split
    next hcap =>
      rw [List.isEmpty_iff] at hcap
      obtain ⟨first, rest, hcons⟩ := List.exists_cons_of_ne_nil hne
      exact Or.inl ⟨⟨_, by rw [hcons, refuseFirst]⟩, ranking_eq_nil.mpr hcap⟩
    next hcap => exact Or.inr ⟨rfl, fun h' ↦ hcap (List.isEmpty_iff.mpr (ranking_eq_nil.mp h'))⟩

/-- **The local lock.** Strictly locked, a pool only yields targets of local candidates. -/
theorem rank_local (hlocal : router.config.localOnly = true)
    (hcloud : router.config.allowCloudFallback = false) {members : List UpstreamModel}
    {pool : String} {targets : List UpstreamModel}
    (h : router.rank members candidates features pool = .ok targets) :
    ∀ target ∈ targets, ∃ candidate ∈ candidates,
      candidate.isLocal = true ∧ candidate.target = target := by
  rw [rank] at h
  simp only [hlocal, hcloud, if_true, Bool.not_false] at h
  split at h
  · cases h
  · split at h
    · cases h
    · split at h
      next heq =>
        obtain rfl := Outcome.ok.inj h
        intro target htarget
        obtain ⟨candidate, hcandidate, rfl⟩ := mem_of_usableTargets heq target htarget
        obtain ⟨hinstalled, hisLocal⟩ := List.mem_filter.mp hcandidate
        exact ⟨candidate, mem_of_mem_installed hinstalled, hisLocal, rfl⟩
      next => cases h
      next => cases h

theorem rank_ne_panic (members : List UpstreamModel) (pool : String) :
    router.rank members candidates features pool ≠ .panic := by
  rw [rank]
  dsimp only
  split
  · simp
  · next h =>
    have hne : installed candidates members ≠ [] := fun h' ↦ h (List.isEmpty_iff.mpr h')
    split
    · split
      · split
        · simp
        · exact usableTargets_ne_panic hne
      · next hlocals =>
        split
        · simp
        · split
          · simp
          · exact usableTargets_ne_panic hne
        · next heq =>
          exact absurd heq (usableTargets_ne_panic fun h' ↦ hlocals (List.isEmpty_iff.mpr h'))
    · exact usableTargets_ne_panic hne

/-! ## Backups -/

/-- What a named pool contributes: its ranking, or nothing when it is missing or refuses. -/
def offers (router : Router) (candidates : List Candidate) (features : RequestFeatures)
    (pool : String) : List UpstreamModel :=
  match router.config.pools.lookup pool with
  | none => []
  | some members => match router.rank members candidates features pool with
    | .ok ranked => ranked
    | .err _ | .panic => []

/-- The targets after appending the offers of some pools. -/
def extended (router : Router) (candidates : List Candidate) (features : RequestFeatures)
    (pools : List String) (targets : List UpstreamModel) : List UpstreamModel :=
  pools.foldl (fun targets pool ↦ pushNew targets (router.offers candidates features pool)) targets

/-- The pools a tier route may visit after the selected one. -/
def backupsAfter (router : Router) (selected : String) : List String :=
  router.config.recovery.backups.filter fun backup ↦ decide (backup ≠ selected)

@[simp] theorem pushNew_nil (targets : List UpstreamModel) : pushNew targets [] = targets := rfl

/-- De-duplication appends a part of the ranking, in its order, and nothing twice. -/
theorem exists_pushNew (targets ranked : List UpstreamModel) :
    ∃ added, pushNew targets ranked = targets ++ added ∧ added.Sublist ranked ∧ added.Nodup ∧
      ∀ target, target ∈ added ↔ target ∈ ranked ∧ target ∉ targets := by
  induction ranked generalizing targets with
  | nil => exact ⟨[], by simp, List.Sublist.refl _, List.nodup_nil, by simp⟩
  | cons first rest ih =>
    rw [pushNew, List.foldl_cons, ← pushNew]
    split
    next hmem =>
      obtain ⟨added, heq, hsub, hnodup, hadded⟩ := ih targets
      refine ⟨added, heq, hsub.cons first, hnodup, fun target ↦ ?_⟩
      rw [hadded, List.mem_cons]
      refine and_congr_left fun hnot ↦ ⟨Or.inr, ?_⟩
      rintro (rfl | h)
      · exact absurd hmem hnot
      · exact h
    next hmem =>
      obtain ⟨added, heq, hsub, hnodup, hadded⟩ := ih (targets ++ [first])
      have hfirst : first ∉ added := fun h ↦ ((hadded first).mp h).2 (by simp)
      refine ⟨first :: added, by rw [heq, List.append_assoc, List.singleton_append],
        hsub.cons_cons first, List.nodup_cons.mpr ⟨hfirst, hnodup⟩, fun target ↦ ?_⟩
      rw [List.mem_cons, hadded, List.mem_cons, List.mem_append, List.mem_singleton]
      by_cases h : target = first
      · subst h
        simp [hmem]
      · simp [h]

theorem mem_pushNew {targets ranked : List UpstreamModel} {target : UpstreamModel} :
    target ∈ pushNew targets ranked ↔ target ∈ targets ∨ target ∈ ranked := by
  obtain ⟨added, heq, -, -, hadded⟩ := exists_pushNew targets ranked
  rw [heq, List.mem_append, hadded]
  tauto

theorem mem_extended {pools : List String} {targets : List UpstreamModel}
    {target : UpstreamModel} :
    target ∈ router.extended candidates features pools targets ↔
      target ∈ targets ∨ ∃ pool ∈ pools, target ∈ router.offers candidates features pool := by
  induction pools generalizing targets with
  | nil => simp [extended]
  | cons pool pools ih =>
    rw [extended, List.foldl_cons, ← extended, ih, mem_pushNew]
    simp [or_assoc]

theorem extended_ne_nil {pools : List String} {targets : List UpstreamModel} (h : targets ≠ []) :
    router.extended candidates features pools targets ≠ [] := by
  obtain ⟨target, htarget⟩ := List.exists_mem_of_ne_nil targets h
  exact List.ne_nil_of_mem (mem_extended.mpr (Or.inl htarget))

theorem extendWithBackups_eq (selected : String) (pools : List String)
    (targets : List UpstreamModel) :
    router.extendWithBackups selected candidates features pools targets =
      .ok (router.extended candidates features
        (pools.filter fun backup ↦ decide (backup ≠ selected)) targets) := by
  induction pools generalizing targets with
  | nil => rfl
  | cons backup pools ih =>
    rw [extendWithBackups, List.filter_cons]
    by_cases hselected : backup = selected
    · simp [hselected, ih]
    · rw [if_neg hselected, if_pos (by simpa using hselected), extended, List.foldl_cons,
        ← extended]
      -- a pool that is missing or refuses offers nothing, so skipping it appends nothing
      rcases hlookup : router.config.pools.lookup backup with - | members
      · simp [offers, hlookup, ih]
      · rcases hrank : router.rank members candidates features backup with ranked | error | -
        · simp [offers, hlookup, hrank, ih]
        · simp [offers, hlookup, hrank, ih]
        · exact absurd hrank (rank_ne_panic members backup)

theorem recover_eq (selected : String) (targets : List UpstreamModel) :
    router.recover selected candidates features targets =
      .ok (router.extended candidates features (router.backupsAfter selected) targets) := by
  rw [recover, backupsAfter]
  split
  next h => rw [h]; rfl
  next pools h => rw [h, extendWithBackups_eq]; rfl

/-- A pool that exists offers the ranking of its members, when the local lock is off. -/
theorem offers_eq (hlocal : router.config.localOnly = false) {pool : String}
    {members : List UpstreamModel} (hpool : router.config.pools.lookup pool = some members) :
    router.offers candidates features pool =
      (router.ranking features (installed candidates members)).map Candidate.target := by
  rw [offers, hpool]
  dsimp only
  rcases rank_eq hlocal features candidates members pool with
    ⟨⟨error, herr⟩, hnil⟩ | ⟨hok, -⟩
  · rw [herr, hnil]
    rfl
  · rw [hok]

section Route

variable {unicode : Unicode} {request : ChatRequest} {hints : List AgentHint} {pool : String}
  {decidedBy : DecidedBy}

/-- **Tier routes.** A route that does not pin a model is the ranking of the selected pool followed
by the offers of the backups. -/
theorem route_eq (hexact : router.config.honorExactModel = false)
    (hselect : router.selectPool unicode request hints
      (RequestFeatures.extract unicode request hints) = (pool, decidedBy))
    {members : List UpstreamModel} (hpool : router.config.pools.lookup pool = some members) :
    router.route unicode request hints candidates =
      (router.rank members candidates (.extract unicode request hints) pool).bind fun targets ↦
        decideTargets decidedBy (.extract unicode request hints) pool
          (router.extended candidates (.extract unicode request hints)
            (router.backupsAfter pool) targets) := by
  simp only [route, hexact, Bool.false_eq_true, if_false]
  rw [hselect]
  simp only [hpool, recover_eq, Outcome.ok_bind]

theorem route_eq_ok {decision : Decision} (hexact : router.config.honorExactModel = false)
    (hselect : router.selectPool unicode request hints
      (RequestFeatures.extract unicode request hints) = (pool, decidedBy)) :
    router.route unicode request hints candidates = .ok decision ↔
      ∃ members targets, router.config.pools.lookup pool = some members ∧
        router.rank members candidates (.extract unicode request hints) pool = .ok targets ∧
        decision.targets = router.extended candidates (.extract unicode request hints)
          (router.backupsAfter pool) targets ∧
        decision.decidedBy = decidedBy ∧
        decision.features = .extract unicode request hints ∧ decision.pool = pool := by
  rcases hlookup : router.config.pools.lookup pool with - | members
  · simp only [route, hexact, Bool.false_eq_true, if_false]
    rw [hselect]
    simp [hlookup]
  · rw [route_eq hexact hselect hlookup]
    simp only [Outcome.bind_eq_ok, decideTargets_eq_ok, Option.some.injEq]
    constructor
    · rintro ⟨targets, h⟩
      exact ⟨members, targets, rfl, h⟩
    · rintro ⟨_, targets, rfl, h⟩
      exact ⟨targets, h⟩

/-- A tier route either refuses, having nothing capable in the selected pool, or succeeds. It never
panics. -/
theorem route_cases (candidates : List Candidate) (hexact : router.config.honorExactModel = false)
    (hlocal : router.config.localOnly = false)
    (hselect : router.selectPool unicode request hints
      (RequestFeatures.extract unicode request hints) = (pool, decidedBy))
    {members : List UpstreamModel} (hpool : router.config.pools.lookup pool = some members) :
    (∃ error, router.route unicode request hints candidates = .err error) ∧
        router.ranking (.extract unicode request hints) (installed candidates members) = [] ∨
      ∃ decision, router.route unicode request hints candidates = .ok decision ∧
        router.ranking (.extract unicode request hints) (installed candidates members) ≠ [] ∧
        decision.pool = pool ∧
        decision.targets = router.extended candidates (.extract unicode request hints)
          (router.backupsAfter pool) ((router.ranking (.extract unicode request hints)
            (installed candidates members)).map Candidate.target) := by
  rw [route_eq hexact hselect hpool]
  rcases rank_eq hlocal (.extract unicode request hints) candidates members pool with
    ⟨⟨error, herr⟩, hnil⟩ | ⟨hok, hne⟩
  · exact Or.inl ⟨⟨error, by rw [herr]; rfl⟩, hnil⟩
  · have hextended : router.extended candidates (.extract unicode request hints)
        (router.backupsAfter pool) ((router.ranking (.extract unicode request hints)
          (installed candidates members)).map Candidate.target) ≠ [] :=
      extended_ne_nil (by simpa using hne)
    obtain ⟨decision, hdecision⟩ :=
      exists_decideTargets decidedBy (.extract unicode request hints) pool hextended
    obtain ⟨htargets, -, -, hname⟩ := decideTargets_eq_ok.mp hdecision
    exact Or.inr ⟨decision, by rw [hok, Outcome.ok_bind, hdecision], hne, hname, htargets⟩

end Route

end Router

end TokenStation
