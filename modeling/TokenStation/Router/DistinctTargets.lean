import TokenStation.Router.LastResort
import TokenStation.Router.LocalLock
import TokenStation.Router.QuotaFirst

/-!
# Distinct targets

A decision lists the places to try. Backups are de-duplicated when they are appended, but the list
they are appended to is not: a pool or an account list that names a target twice is tried there
twice, if the target's candidate is tried at all. `distinct_iff` says that this is the only way a
decision repeats itself.
-/

namespace TokenStation

open Library

/-- A decision lists no target twice. -/
def Distinct (outcome : Outcome NoRoute Decision) : Prop :=
  ∀ decision, outcome = .ok decision → decision.targets.Nodup

/-- No target that a list names more than once has a candidate with the property. -/
def NoRepeat (candidates : List Candidate) (listed : List UpstreamModel) (p : Candidate → Prop) :
    Prop :=
  ∀ target candidate, 1 < listed.count target → supplied candidates target = some candidate →
    ¬ p candidate

/-! ## Filtered lists -/

theorem nodup_filter_iff {α : Type} [DecidableEq α] {l : List α} {p : α → Bool} :
    (l.filter p).Nodup ↔ ∀ a, p a = true → l.count a ≤ 1 := by
  rw [List.nodup_iff_count_le_one]
  constructor
  · intro h a ha
    rw [← List.count_filter ha]
    exact h a
  · intro h a
    by_cases ha : p a = true
    · rw [List.count_filter ha]
      exact h a ha
    · rw [List.count_eq_zero_of_not_mem fun hmem ↦ ha (List.mem_filter.mp hmem).2]
      exact Nat.zero_le 1

/-- The targets of some of the installed candidates are those of the listed targets. -/
theorem map_target_filter_installed (candidates : List Candidate) (listed : List UpstreamModel)
    (p : Candidate → Bool) :
    ((installed candidates listed).filter p).map Candidate.target =
      listed.filter fun target ↦ (supplied candidates target).any p := by
  induction listed with
  | nil => rfl
  | cons target listed ih =>
    rw [installed, List.filterMap_cons, List.filter_cons]
    rcases hsupplied : supplied candidates target with - | candidate
    · exact ih
    · have htarget := (mem_of_supplied hsupplied).2
      rw [List.filter_cons, Option.any_some]
      split
      · rw [List.map_cons, htarget]
        exact congrArg _ ih
      · exact ih

/-- Keeping some of the installed candidates repeats a target exactly when the list names it twice
and its candidate is kept. -/
theorem nodup_kept_iff (candidates : List Candidate) (listed : List UpstreamModel)
    (p : Candidate → Bool) :
    (((installed candidates listed).filter p).map Candidate.target).Nodup ↔
      NoRepeat candidates listed fun candidate ↦ p candidate = true := by
  rw [map_target_filter_installed, nodup_filter_iff]
  constructor
  · intro h target candidate hcount hsupplied hp
    have hle := h target (by rw [hsupplied, Option.any_some, hp])
    omega
  · intro h target hany
    obtain ⟨candidate, hsupplied, hp⟩ := (Option.any_eq_true _ _).mp hany
    by_contra hcount
    exact h target candidate (by omega) hsupplied hp

namespace Router

variable {router : Router} {candidates : List Candidate} {features : RequestFeatures}

/-! ## Pools -/

/-- The candidates that a pool's installed ones are narrowed to before they are ranked: under the
local lock the local ones, as long as one of them can be tried now, and otherwise all of them where
leaving the machine is allowed. -/
def servedFrom (router : Router) (features : RequestFeatures) (installed : List Candidate) :
    List Candidate :=
  let locals := installed.filter Candidate.isLocal
  if !router.config.localOnly then installed
  else if !(inRotation (router.preferred features (capable features locals))).isEmpty then locals
  else if router.config.allowCloudFallback then installed
  else []

/-- A pool tries the candidate: the window preference keeps it, and it is in rotation or everything
that the preference keeps is ejected. -/
def Tries (router : Router) (features : RequestFeatures) (installed : List Candidate)
    (candidate : Candidate) : Prop :=
  candidate ∈ router.servedFrom features installed ∧
    router.Preferred features (router.servedFrom features installed) candidate ∧
    (candidate.health ≠ .unavailable ∨ ∀ other ∈ router.servedFrom features installed,
      router.Preferred features (router.servedFrom features installed) other →
        other.health = .unavailable)

/-- A ranking is its list, with some candidates left out. -/
theorem exists_ranking_perm (router : Router) (features : RequestFeatures)
    (listed : List Candidate) :
    ∃ p : Candidate → Bool, (router.ranking features listed).Perm (listed.filter p) := by
  have hpreferred : ∃ p : Candidate → Bool,
      router.preferred features (capable features listed) = (capable features listed).filter p := by
    rw [preferred]
    split
    · exact ⟨fun _ ↦ true, (List.filter_true _).symm⟩
    · exact ⟨_, rfl⟩
  obtain ⟨p, hp⟩ := hpreferred
  have hlast : ∃ q : Candidate → Bool,
      lastResort (router.preferred features (capable features listed)) =
        (router.preferred features (capable features listed)).filter q := by
    rw [lastResort]
    split
    · exact ⟨fun _ ↦ true, (List.filter_true _).symm⟩
    · exact ⟨_, rfl⟩
  obtain ⟨q, hq⟩ := hlast
  refine ⟨fun c ↦ q c && (p c && (hardUnmet c features).isNone), ?_⟩
  have hrest : lastResort (router.preferred features (capable features listed)) =
      listed.filter fun c ↦ q c && (p c && (hardUnmet c features).isNone) := by
    rw [hq, hp, capable, List.filter_filter, List.filter_filter]
    simp only [Bool.and_assoc]
  rw [ranking, ← hrest, order]
  split
  · exact sortByKey_perm _ _
  · exact sortByKey_perm _ _

/-- The candidates that a pool tries are its ranking. -/
theorem mem_ranking_servedFrom {installed : List Candidate} {candidate : Candidate} :
    candidate ∈ router.ranking features (router.servedFrom features installed) ↔
      router.Tries features installed candidate := by
  rw [mem_ranking, Tries, mem_preferred, mem_capable]
  simp only [Preferred, mem_preferred, mem_capable, and_imp, and_assoc]

/-- Out of a list that is not empty, the rotation is selected, unless there is none. -/
theorem usableTargets_rotation (router : Router) (features : RequestFeatures) (pool : String)
    (hne : candidates ≠ []) :
    (∃ error, router.usableTargets candidates features pool false = .err error) ∧
        inRotation (router.preferred features (capable features candidates)) = [] ∨
      router.usableTargets candidates features pool false =
          .ok ((router.ranking features candidates).map Candidate.target) ∧
        inRotation (router.preferred features (capable features candidates)) ≠ [] := by
  rw [usableTargets_eq, Bool.not_false, Bool.and_true]
  split
  next hcapable =>
    obtain ⟨first, rest, rfl⟩ := List.exists_cons_of_ne_nil hne
    refine Or.inl ⟨⟨_, rfl⟩, ?_⟩
    rw [List.isEmpty_iff.mp hcapable, List.eq_nil_iff_forall_not_mem]
    intro candidate hmem
    exact List.not_mem_nil (mem_preferred.mp (mem_inRotation.mp hmem).1).1
  next =>
    split
    next hrotation => exact Or.inl ⟨⟨_, rfl⟩, List.isEmpty_iff.mp hrotation⟩
    next hrotation => exact Or.inr ⟨rfl, fun h ↦ hrotation (List.isEmpty_iff.mpr h)⟩

/-- Out of a list that is not empty, the last resort selects the ranking. -/
theorem usableTargets_ranking (pool : String) (hne : candidates ≠ []) :
    (∃ error, router.usableTargets candidates features pool true = .err error) ∧
        router.ranking features candidates = [] ∨
      router.usableTargets candidates features pool true =
        .ok ((router.ranking features candidates).map Candidate.target) := by
  rw [usableTargets_lastResort]
  split
  next hcapable =>
    obtain ⟨first, rest, rfl⟩ := List.exists_cons_of_ne_nil hne
    exact Or.inl ⟨⟨_, rfl⟩, ranking_eq_nil.mpr (List.isEmpty_iff.mp hcapable)⟩
  next => exact Or.inr rfl

@[simp] theorem servedFrom_nil (router : Router) (features : RequestFeatures) :
    router.servedFrom features [] = [] := by
  simp [servedFrom]

theorem ranking_nil (router : Router) (features : RequestFeatures) :
    router.ranking features [] = [] :=
  ranking_eq_nil.mpr rfl

/-- What a pool ranks, with and without the local lock. -/
theorem rank_servedFrom (router : Router) (candidates : List Candidate)
    (features : RequestFeatures) (members : List UpstreamModel) (pool : String) :
    (∃ error, router.rank members candidates features pool = .err error) ∧
        router.ranking features
          (router.servedFrom features (installed candidates members)) = [] ∨
      router.rank members candidates features pool =
        .ok ((router.ranking features
          (router.servedFrom features (installed candidates members))).map Candidate.target) := by
  rw [rank]
  generalize installed candidates members = listed
  by_cases hne : listed = []
  · rw [hne, servedFrom_nil, ranking_nil]
    exact Or.inl ⟨⟨_, rfl⟩, rfl⟩
  have hisEmpty : listed.isEmpty = false := List.isEmpty_eq_false_iff.mpr hne
  simp only [hisEmpty, Bool.false_eq_true, if_false]
  by_cases hlocal : router.config.localOnly = true
  · -- under the lock, first the local members, and the whole pool where leaving is allowed
    simp only [hlocal, if_true]
    by_cases hlocals : listed.filter Candidate.isLocal = []
    · simp only [hlocals, List.isEmpty_nil, if_true]
      by_cases hcloud : router.config.allowCloudFallback = true
      · have hserved : router.servedFrom features listed = listed := by
          simp [servedFrom, hlocal, hlocals, hcloud, capable, preferred, fitting, inRotation]
        simp only [hcloud, Bool.not_true, Bool.false_eq_true, if_false]
        rw [hserved]
        exact usableTargets_ranking pool hne
      · have hserved : router.servedFrom features listed = [] := by
          simp [servedFrom, hlocal, hlocals, hcloud, capable, preferred, fitting, inRotation]
        rw [hserved, ranking_nil]
        simp [hcloud]
    · have hlocalsEmpty : (listed.filter Candidate.isLocal).isEmpty = false :=
        List.isEmpty_eq_false_iff.mpr hlocals
      simp only [hlocalsEmpty, Bool.false_eq_true, if_false]
      rcases usableTargets_rotation router features pool hlocals with
        ⟨⟨error, herr⟩, hrotation⟩ | ⟨hok, hrotation⟩
      · rw [herr]
        by_cases hcloud : router.config.allowCloudFallback = true
        · have hserved : router.servedFrom features listed = listed := by
            simp [servedFrom, hlocal, hcloud, hrotation]
          simp only [hcloud, Bool.not_true, Bool.false_eq_true, if_false]
          rw [hserved]
          exact usableTargets_ranking pool hne
        · have hserved : router.servedFrom features listed = [] := by
            simp [servedFrom, hlocal, hcloud, hrotation]
          rw [hserved, ranking_nil]
          simp [hcloud]
      · have hserved : router.servedFrom features listed =
            listed.filter Candidate.isLocal := by
          simp [servedFrom, hlocal, hrotation]
        rw [hok, hserved]
        exact Or.inr rfl
  · have hserved : router.servedFrom features listed = listed := by
      simp [servedFrom, hlocal]
    rw [hserved, if_neg hlocal]
    exact usableTargets_ranking pool hne

/-- The candidates a pool is narrowed to are some of its installed ones. -/
theorem exists_servedFrom (router : Router) (features : RequestFeatures)
    (listed : List Candidate) :
    ∃ p : Candidate → Bool, router.servedFrom features listed = listed.filter p := by
  rw [servedFrom]
  split
  · exact ⟨fun _ ↦ true, (List.filter_true _).symm⟩
  · split
    · exact ⟨_, rfl⟩
    · split
      · exact ⟨fun _ ↦ true, (List.filter_true _).symm⟩
      · exact ⟨fun _ ↦ false, (List.filter_false _).symm⟩

/-- A pool repeats a target exactly when it names twice a target whose candidate it tries. -/
theorem nodup_ranking_iff {members : List UpstreamModel} :
    ((router.ranking features
        (router.servedFrom features (installed candidates members))).map
          Candidate.target).Nodup ↔
      NoRepeat candidates members
        (router.Tries features (installed candidates members)) := by
  obtain ⟨r, hr⟩ := exists_servedFrom router features (installed candidates members)
  obtain ⟨q, hq⟩ := exists_ranking_perm router features
    (router.servedFrom features (installed candidates members))
  rw [(hq.map Candidate.target).nodup_iff, hr, List.filter_filter, nodup_kept_iff, NoRepeat,
    NoRepeat]
  refine forall₄_congr fun target candidate hcount hsupplied ↦ not_congr ?_
  -- an installed candidate is kept by the two filters exactly when it is ranked
  have hmem : candidate ∈ installed candidates members := by
    refine mem_installed.mpr ⟨supplied_self hsupplied, ?_⟩
    rw [(mem_of_supplied hsupplied).2, ← List.count_pos_iff]
    omega
  rw [← mem_ranking_servedFrom, hq.mem_iff, hr, List.filter_filter, List.mem_filter]
  exact (and_iff_right hmem).symm

/-! ## Backups and exact models -/

/-- Appending backups repeats nothing that was not repeated before. -/
theorem nodup_extended_iff {pools : List String} {targets : List UpstreamModel} :
    (router.extended candidates features pools targets).Nodup ↔ targets.Nodup := by
  rw [extended]
  induction pools generalizing targets with
  | nil => exact Iff.rfl
  | cons pool pools ih =>
    rw [List.foldl_cons, ih]
    obtain ⟨added, heq, -, hnodup, hadded⟩ :=
      exists_pushNew targets (router.offers candidates features pool)
    rw [heq, List.nodup_append']
    constructor
    · exact fun h ↦ h.1
    · intro h
      refine ⟨h, hnodup, ?_⟩
      intro target htarget hmem
      exact ((hadded target).mp hmem).2 htarget

/-- Distinct candidates serve a pinned model at distinct places. -/
theorem nodup_routeExact {request : ChatRequest} {decision : Decision}
    (hdistinct : (candidates.map Candidate.target).Nodup)
    (h : routeExact request features candidates = .ok decision) : decision.targets.Nodup := by
  rw [routeExact] at h
  dsimp only at h
  split at h
  · cases h
  · split at h
    · exact absurd h refuseFirst_ne_ok
    · split at h
      · cases h
      · obtain ⟨htargets, -⟩ := decideTargets_eq_ok.mp h
        rw [htargets, ((sortByKey_perm _ _).map Candidate.target).nodup_iff]
        refine hdistinct.sublist (List.Sublist.map _ ?_)
        exact inRotation_sublist.trans (capable_sublist.trans List.filter_sublist)

/-- A decision is distinct when the targets it is made from are. -/
theorem distinct_decideTargets {decidedBy : DecidedBy} {pool : String}
    {targets : List UpstreamModel} :
    Distinct (decideTargets decidedBy features pool targets) ↔ targets.Nodup := by
  constructor
  · intro h
    by_cases hne : targets = []
    · rw [hne]
      exact List.nodup_nil
    · obtain ⟨decision, hdecision⟩ := exists_decideTargets decidedBy features pool hne
      rw [← (decideTargets_eq_ok.mp hdecision).1]
      exact h decision hdecision
  · intro h decision hdecision
    rw [(decideTargets_eq_ok.mp hdecision).1]
    exact h

/-- Without a pinned model, a route repeats a target exactly when the selected pool tries one that
it names twice. -/
theorem distinct_route_iff {unicode : Unicode} {request : ChatRequest} {hints : List AgentHint}
    (hexact : router.config.honorExactModel = false) :
    Distinct (router.route unicode request hints candidates) ↔
      ∀ members, router.config.pools.lookup (router.selectPool unicode request hints
          (.extract unicode request hints)).1 = some members →
        NoRepeat candidates members
          (router.Tries (.extract unicode request hints) (installed candidates members)) := by
  rcases hselect : router.selectPool unicode request hints
    (.extract unicode request hints) with ⟨pool, decidedBy⟩
  dsimp only
  rcases hlookup : router.config.pools.lookup pool with - | members
  · refine iff_of_true ?_ (fun members h ↦ by cases h)
    intro decision hdecision
    obtain ⟨members, -, hmembers, -⟩ := (route_eq_ok hexact hselect).mp hdecision
    rw [hlookup] at hmembers
    cases hmembers
  · rw [route_eq hexact hselect hlookup]
    simp only [Option.some.injEq, forall_eq']
    rw [← nodup_ranking_iff]
    rcases rank_servedFrom router candidates (.extract unicode request hints) members pool with
      ⟨⟨error, herr⟩, hnil⟩ | hok
    · rw [herr, hnil]
      refine iff_of_true (fun decision h ↦ by cases h) List.nodup_nil
    · rw [hok, Outcome.ok_bind, distinct_decideTargets, nodup_extended_iff]

/-! ## Accounts -/

instance (features : RequestFeatures) : DecidablePred (Servable features) :=
  fun _ ↦ inferInstanceAs (Decidable (_ ∧ _ ∧ _))

/-- The surviving accounts are the installed ones that can serve. -/
theorem entries_map_candidate (router : Router) (candidates : List Candidate)
    (features : RequestFeatures) (lastUsed : Option UpstreamModel) :
    (router.entries candidates features lastUsed).map Entry.candidate =
      (installed candidates router.config.quotaAccounts).filter
        fun candidate ↦ decide (Servable features candidate) := by
  have hsurvivors := congrArg (List.map Prod.fst)
    (survivors_zipIdx (capableAccount candidates features) router.config.quotaAccounts 0 0)
  rw [List.map_map, List.zipIdx_map_fst, ← capable_installed] at hsurvivors
  have hkept : ∀ s : Candidate × ℕ × ℕ,
      (if s.1.health ≠ .unavailable then
        (router.accountRank lastUsed s.2.2 s.1).map fun rank ↦ (⟨s.1, s.2.1, rank⟩ : Entry)
      else none).map Entry.candidate =
        Option.guard (fun candidate ↦ decide (candidate.health ≠ .unavailable) &&
          !candidate.quota.exhausted) s.1 := by
    intro s
    rw [Option.guard, accountRank, quotaRank]
    by_cases hhealth : s.1.health = .unavailable
    · simp [hhealth]
    · by_cases hexhausted : s.1.quota.exhausted = true
      · simp [hexhausted]
      · simp [hhealth, hexhausted]
  rw [entries, List.map_filterMap]
  simp only [hkept]
  have hguarded := congrArg (List.filterMap (Option.guard fun candidate : Candidate ↦
    decide (candidate.health ≠ .unavailable) && !candidate.quota.exhausted)) hsurvivors
  rw [List.filterMap_map, List.filterMap_eq_filter] at hguarded
  refine hguarded.trans ?_
  rw [capable, List.filter_filter]
  refine List.filter_congr fun candidate _ ↦ ?_
  rw [Bool.eq_iff_iff, decide_eq_true_iff (p := Servable features candidate)]
  simp only [Servable, Bool.and_eq_true, decide_eq_true_eq, Bool.not_eq_true',
    Option.isNone_iff_eq_none]
  exact and_comm

/-- The accounts are tried twice exactly when an account that is listed twice can serve. -/
theorem distinct_routeQuotaFirst_iff {unicode : Unicode} {request : ChatRequest}
    {lastUsed : Option UpstreamModel} :
    Distinct (router.routeQuotaFirst unicode request candidates lastUsed) ↔
      NoRepeat candidates router.config.quotaAccounts
        (Servable (.extract unicode request [])) := by
  have hentries := entries_map_candidate router candidates (.extract unicode request []) lastUsed
  have hkept := nodup_kept_iff candidates router.config.quotaAccounts
    fun candidate ↦ decide (Servable (.extract unicode request []) candidate)
  simp only [decide_eq_true_eq] at hkept
  rw [← hentries, List.map_map] at hkept
  rw [← hkept]
  rcases routeQuotaFirst_cases unicode router request candidates lastUsed with
    ⟨⟨error, herr⟩, hnil⟩ | ⟨decision, hok, -, htargets⟩
  · rw [herr, hnil]
    refine iff_of_true (fun decision h ↦ by cases h) List.nodup_nil
  · have htried : (decision.targets).Nodup ↔ ((router.entries candidates
        (.extract unicode request []) lastUsed).map
          (Candidate.target ∘ Entry.candidate)).Nodup := by
      rw [htargets]
      exact ((sortByKey_perm _ _).map _).nodup_iff
    rw [hok, ← htried]
    constructor
    · exact fun h ↦ h decision rfl
    · rintro h _ ⟨⟩
      exact h

/-- **Distinct targets.** Where the host supplies no target twice, a route is distinct exactly when
it pins a model or the selected pool tries no target that it names twice, and a quota-first route
exactly when no account that is listed twice can serve. -/
theorem distinct_iff (unicode : Unicode) (router : Router) (request : ChatRequest)
    (hints : List AgentHint) (lastUsed : Option UpstreamModel) (candidates : List Candidate)
    (hdistinct : (candidates.map Candidate.target).Nodup) :
    (Distinct (router.route unicode request hints candidates) ↔
      router.config.honorExactModel = true ∨
        ∀ members, router.config.pools.lookup (router.selectPool unicode request hints
            (.extract unicode request hints)).1 = some members →
          NoRepeat candidates members
            (router.Tries (.extract unicode request hints) (installed candidates members))) ∧
    (Distinct (router.routeQuotaFirst unicode request candidates lastUsed) ↔
      NoRepeat candidates router.config.quotaAccounts
        (Servable (.extract unicode request []))) := by
  refine ⟨?_, distinct_routeQuotaFirst_iff⟩
  by_cases hexact : router.config.honorExactModel = true
  · refine iff_of_true ?_ (Or.inl hexact)
    intro decision hdecision
    rw [route, if_pos hexact] at hdecision
    exact nodup_routeExact hdistinct hdecision
  · rw [or_iff_right hexact]
    exact distinct_route_iff (Bool.eq_false_iff.mpr hexact)

/-- A router whose only pool and whose account list name the first model twice. -/
def namedTwice : Router where
  config := { RouterConfig.single "main" [cloudModel, cloudModel] with
    quotaAccounts := [cloudModel, cloudModel] }
  valid := rfl

/-- With one candidate, and the model named once, both routes are distinct. -/
theorem distinct_iff_cloudOnly :
    Distinct (cloudOnly.route .ascii plainRequest [] [cloudCandidate]) ∧
      Distinct (cloudOnly.routeQuotaFirst .ascii plainRequest [cloudCandidate] none) := by
  have h := distinct_iff .ascii cloudOnly plainRequest [] none [cloudCandidate] (by simp)
  refine ⟨h.1.mpr (Or.inr ?_), h.2.mpr ?_⟩
  · rintro members hmembers target candidate hcount -
    obtain rfl : [cloudModel] = members := Option.some.inj hmembers
    have hle := List.count_le_length (a := target) (l := [cloudModel])
    rw [List.length_singleton] at hle
    omega
  · intro target candidate hcount _
    cases hcount

/-- The one candidate is the choice and its own fallback, on both paths. -/
theorem not_distinct_namedTwice :
    (([cloudCandidate].map Candidate.target).Nodup) ∧
      ¬ Distinct (namedTwice.route .ascii plainRequest [] [cloudCandidate]) ∧
      ¬ Distinct (namedTwice.routeQuotaFirst .ascii plainRequest [cloudCandidate] none) := by
  refine ⟨by simp, fun h ↦ ?_, fun h ↦ ?_⟩
  · exact absurd (h _ rfl) (by decide)
  · exact absurd (h _ rfl) (by decide)

end Router

end TokenStation
