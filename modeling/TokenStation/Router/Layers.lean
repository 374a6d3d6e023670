import TokenStation.Router.Ranking

/-!
# The layers

`SelectedPool` says which pool a tier route starts from: the first rule that fires, else the first
hint route that answers, else the tier of the heuristic's score, else the default. The layers pick
at most one pool (`SelectedPool.unique`), the code picks it (`selectedPool_selectPool`), and in a
validated configuration it exists (`SelectedPool.exists_members`).
-/

namespace TokenStation

open Library

/-- A rule fires on the request. -/
def Rule.Fires (unicode : Unicode) (features : RequestFeatures) (request : ChatRequest)
    (rule : Rule) : Prop :=
  rule.matcher.matchesRequest unicode features request = true

/-- A hint route answers one of the hints. -/
def HintRoute.Answers (hints : List AgentHint) (route : HintRoute) : Prop :=
  ∃ hint ∈ hints, hint.kind = route.kind ∧ hint.value = route.value

/-- The pool the layers pick: the first rule that fires, else the first hint route that answers,
else the tier of the heuristic's score, else the default pool. -/
inductive SelectedPool (unicode : Unicode) (config : RouterConfig) (features : RequestFeatures)
    (request : ChatRequest) (hints : List AgentHint) : String → Prop
  | rule (before : List Rule) (rule : Rule) (after : List Rule)
      (hrules : config.rules = before ++ rule :: after)
      (hfires : rule.Fires unicode features request)
      (hbefore : ∀ earlier ∈ before, ¬ earlier.Fires unicode features request) :
      SelectedPool unicode config features request hints rule.routeTo
  | hint (before : List HintRoute) (route : HintRoute) (after : List HintRoute)
      (hrules : ∀ rule ∈ config.rules, ¬ rule.Fires unicode features request)
      (hroutes : config.hintRoutes = before ++ route :: after)
      (hanswers : route.Answers hints)
      (hbefore : ∀ earlier ∈ before, ¬ earlier.Answers hints) :
      SelectedPool unicode config features request hints route.routeTo
  | heuristic (heuristic : Heuristic)
      (hrules : ∀ rule ∈ config.rules, ¬ rule.Fires unicode features request)
      (hroutes : ∀ route ∈ config.hintRoutes, ¬ route.Answers hints)
      (hheuristic : config.heuristic = some heuristic) :
      SelectedPool unicode config features request hints
        (heuristic.select (heuristic.score features)).1
  | default
      (hrules : ∀ rule ∈ config.rules, ¬ rule.Fires unicode features request)
      (hroutes : ∀ route ∈ config.hintRoutes, ¬ route.Answers hints)
      (hheuristic : config.heuristic = none) :
      SelectedPool unicode config features request hints config.defaultPool

/-- The search for a first member, split at what it finds. -/
private theorem find?_cases {α : Type} (p : α → Bool) (l : List α) :
    (∃ before a after, l = before ++ a :: after ∧ p a = true ∧ (∀ b ∈ before, p b = false) ∧
        l.find? p = some a) ∨
      (∀ b ∈ l, p b = false) ∧ l.find? p = none := by
  rcases h : l.find? p with - | a
  · exact Or.inr ⟨fun b hb ↦ by simpa using List.find?_eq_none.mp h b hb, rfl⟩
  · obtain ⟨ha, before, after, hl, hbefore⟩ := List.find?_eq_some_iff_append.mp h
    exact Or.inl ⟨before, a, after, hl, ha, fun b hb ↦ by simpa using hbefore b hb, rfl⟩

/-- A list has one first member with a property. -/
private theorem first_unique {α : Type} {p : α → Prop} {l before before' after after' : List α}
    {a a' : α} (hl : l = before ++ a :: after) (ha : p a) (hbefore : ∀ b ∈ before, ¬ p b)
    (hl' : l = before' ++ a' :: after') (ha' : p a') (hbefore' : ∀ b ∈ before', ¬ p b) :
    a = a' := by
  have hfind : l.find? (fun b ↦ @decide (p b) (Classical.dec _)) = some a :=
    List.find?_eq_some_iff_append.mpr
      ⟨by simpa using ha, before, after, hl, fun b hb ↦ by simpa using hbefore b hb⟩
  have hfind' : l.find? (fun b ↦ @decide (p b) (Classical.dec _)) = some a' :=
    List.find?_eq_some_iff_append.mpr
      ⟨by simpa using ha', before', after', hl', fun b hb ↦ by simpa using hbefore' b hb⟩
  exact Option.some.inj (hfind.symm.trans hfind')

section SelectedPool

variable {unicode : Unicode} {router : Router} {features : RequestFeatures}
  {request : ChatRequest} {hints : List AgentHint}

/-- The layers pick at most one pool. -/
theorem SelectedPool.unique {config : RouterConfig} {pool pool' : String}
    (h : SelectedPool unicode config features request hints pool)
    (h' : SelectedPool unicode config features request hints pool') : pool = pool' := by
  cases h with
  | rule before rule after hrules hfires hbefore =>
    have hmem : rule ∈ config.rules := hrules ▸ by simp
    cases h' with
    | rule before' rule' after' hrules' hfires' hbefore' =>
      rw [first_unique hrules hfires hbefore hrules' hfires' hbefore']
    | hint _ _ _ hnone => exact absurd hfires (hnone rule hmem)
    | heuristic _ hnone => exact absurd hfires (hnone rule hmem)
    | default hnone => exact absurd hfires (hnone rule hmem)
  | hint before route after hnone hroutes hanswers hbefore =>
    have hmem : route ∈ config.hintRoutes := hroutes ▸ by simp
    cases h' with
    | rule _ rule' _ hrules' hfires' =>
      exact absurd hfires' (hnone rule' (hrules' ▸ by simp))
    | hint before' route' after' _ hroutes' hanswers' hbefore' =>
      rw [first_unique hroutes hanswers hbefore hroutes' hanswers' hbefore']
    | heuristic _ _ hnoroute => exact absurd hanswers (hnoroute route hmem)
    | default _ hnoroute => exact absurd hanswers (hnoroute route hmem)
  | heuristic heuristic hnone hnoroute hheuristic =>
    cases h' with
    | rule _ rule' _ hrules' hfires' =>
      exact absurd hfires' (hnone rule' (hrules' ▸ by simp))
    | hint _ route' _ _ hroutes' hanswers' =>
      exact absurd hanswers' (hnoroute route' (hroutes' ▸ by simp))
    | heuristic heuristic' _ _ hheuristic' =>
      rw [Option.some.inj (hheuristic.symm.trans hheuristic')]
    | default _ _ hheuristic' => rw [hheuristic] at hheuristic'; cases hheuristic'
  | default hnone hnoroute hheuristic =>
    cases h' with
    | rule _ rule' _ hrules' hfires' =>
      exact absurd hfires' (hnone rule' (hrules' ▸ by simp))
    | hint _ route' _ _ hroutes' hanswers' =>
      exact absurd hanswers' (hnoroute route' (hroutes' ▸ by simp))
    | heuristic heuristic' _ _ hheuristic' => rw [hheuristic] at hheuristic'; cases hheuristic'
    | default => rfl

/-- The code's layers pick the pool the specification names. -/
theorem selectedPool_selectPool (unicode : Unicode) (router : Router)
    (features : RequestFeatures) (request : ChatRequest) (hints : List AgentHint) :
    SelectedPool unicode router.config features request hints
      (router.selectPool unicode request hints features).1 := by
  rw [Router.selectPool]
  rcases find?_cases (fun rule : Rule ↦ rule.matcher.matchesRequest unicode features request)
      router.config.rules with ⟨before, rule, after, hl, hrule, hbefore, hfind⟩ | ⟨hnone, hfind⟩
  · rw [hfind]
    exact .rule before rule after hl hrule fun earlier hmem ↦ by
      simpa [Rule.Fires] using hbefore earlier hmem
  · have hrules : ∀ rule ∈ router.config.rules, ¬ rule.Fires unicode features request :=
      fun rule hmem ↦ by simpa [Rule.Fires] using hnone rule hmem
    have hanswers : ∀ route : HintRoute, route.Answers hints ↔ (hints.any fun hint ↦
        decide (hint.kind = route.kind) && hint.value == route.value) = true := fun route ↦ by
      simp [HintRoute.Answers]
    rw [hfind]
    dsimp only
    rcases find?_cases (fun route : HintRoute ↦ hints.any fun hint ↦
        decide (hint.kind = route.kind) && hint.value == route.value)
        router.config.hintRoutes with
      ⟨before, route, after, hl, hroute, hbefore, hfind⟩ | ⟨hnoroute, hfind⟩
    · rw [hfind]
      refine .hint before route after hrules hl ((hanswers route).mpr hroute) fun earlier hmem ↦ ?_
      rw [hanswers, hbefore earlier hmem]
      exact Bool.false_ne_true
    · have hroutes : ∀ route ∈ router.config.hintRoutes, ¬ route.Answers hints := by
        intro route hmem
        rw [hanswers, hnoroute route hmem]
        exact Bool.false_ne_true
      rw [hfind]
      dsimp only
      rcases hheuristic : router.config.heuristic with - | heuristic
      · exact .default hrules hroutes hheuristic
      · exact .heuristic heuristic hrules hroutes hheuristic

/-- Validation proved that every pool the layers can pick exists. -/
theorem SelectedPool.exists_members {pool : String} {config : RouterConfig}
    (hconfig : config.WellFormed) (h : SelectedPool unicode config features request hints pool) :
    ∃ members, config.pools.lookup pool = some members := by
  rw [← Option.isSome_iff_exists, AList.lookup_isSome]
  cases h with
  | rule before rule after hrules => exact (hconfig.rules rule (hrules ▸ by simp)).2.2
  | hint before route after _ hroutes => exact hconfig.hintRoutes route (hroutes ▸ by simp)
  | heuristic heuristic _ _ hheuristic =>
    exact (hconfig.heuristic heuristic hheuristic).2.1 _ (heuristic.select_mem_pools _)
  | default => exact hconfig.defaultPool

end SelectedPool

/-- **The shape of a tier route.** It starts from the pool the layers pick. Either that pool has no
capable installed member and the route refuses, or the route lists the ranking of the pool extended
by the backups. -/
theorem Router.exists_tier (unicode : Unicode) (router : Router)
    (htiered : router.config.routingMode = .tiered)
    (hexact : router.config.honorExactModel = false) (hlocal : router.config.localOnly = false)
    (request : ChatRequest) (hints : List AgentHint) (candidates : List Candidate) :
    ∃ pool members,
      SelectedPool unicode router.config (.extract unicode request hints) request hints pool ∧
      router.config.pools.lookup pool = some members ∧
      ((∃ error, router.route unicode request hints candidates = .err error) ∧
          (¬ ∃ candidate ∈ installed candidates members,
            hardUnmet candidate (.extract unicode request hints) = none) ∨
        ∃ decision, router.route unicode request hints candidates = .ok decision ∧
          (∃ candidate ∈ installed candidates members,
            hardUnmet candidate (.extract unicode request hints) = none) ∧
          decision.pool = pool ∧
          decision.targets = router.extended candidates (.extract unicode request hints)
            (router.backupsAfter pool) ((router.ranking (.extract unicode request hints)
              (installed candidates members)).map Candidate.target)) := by
  have hconfig := (RouterConfig.validate_eq_ok htiered).mp router.valid
  rcases hselect : router.selectPool unicode request hints
    (RequestFeatures.extract unicode request hints) with ⟨pool, decidedBy⟩
  have hselected := selectedPool_selectPool unicode router (.extract unicode request hints)
    request hints
  rw [hselect] at hselected
  obtain ⟨members, hlookup⟩ := hselected.exists_members hconfig
  have hcapable : router.ranking (.extract unicode request hints)
      (installed candidates members) ≠ [] ↔ ∃ candidate ∈ installed candidates members,
        hardUnmet candidate (.extract unicode request hints) = none := by
    rw [ne_eq, ranking_eq_nil, List.eq_nil_iff_forall_not_mem]
    push Not
    simp only [mem_capable]
  refine ⟨pool, members, hselected, hlookup, ?_⟩
  rw [← hcapable]
  rcases route_cases candidates hexact hlocal hselect hlookup with ⟨herr, hnil⟩ | hok
  · exact Or.inl ⟨herr, not_not.mpr hnil⟩
  · exact Or.inr hok

end TokenStation
