import TokenStation.Router.Layers

/-!
# The last resort

An ejected candidate is meant to be offered only when every capable candidate of its pool is
ejected. The rotation filter runs after the window preference, so it sees the preferred candidates
only: when all that fit the window are ejected, they are offered although a capable candidate with
a smaller window is in rotation. `lastResort_iff` says that this is the only way the intent fails,
and that a pool fails it exactly for the targets no earlier pool offered.
-/

namespace TokenStation

open Library

namespace Router

variable {router : Router} {candidates : List Candidate} {features : RequestFeatures}

/-- The pools a tier route visits, in order, when it starts from `pool`. -/
def visited (router : Router) (pool : String) : List String := pool :: router.backupsAfter pool

/-- The pool that contributed a target: the first one visited whose ranking lists it. -/
def FirstOffer (router : Router) (candidates : List Candidate) (features : RequestFeatures)
    (pool name : String) (target : UpstreamModel) : Prop :=
  ∃ before after, router.visited pool = before ++ name :: after ∧
    target ∈ router.offers candidates features name ∧
    ∀ earlier ∈ before, target ∉ router.offers candidates features earlier

/-- Ejected upstreams are a last resort: a pool that contributed an ejected target has no capable
installed candidate that is not ejected. -/
def EjectedOnlyAsLastResort (router : Router) (candidates : List Candidate)
    (features : RequestFeatures) (outcome : Outcome NoRoute Decision) : Prop :=
  ∀ decision, outcome = .ok decision → ∀ target ∈ decision.targets,
    ∀ candidate, supplied candidates target = some candidate → candidate.health = .unavailable →
      ∀ name members, router.FirstOffer candidates features decision.pool name target →
        router.config.pools.lookup name = some members →
        ∀ other ∈ installed candidates members, hardUnmet other features = none →
          other.health = .unavailable

/-! ## What a pool offers, from its installed candidates -/

/-- The window preference keeps the candidate: it fits, or nothing capable does. -/
def Preferred (router : Router) (features : RequestFeatures) (installed : List Candidate)
    (candidate : Candidate) : Prop :=
  hardUnmet candidate features = none ∧ (router.fitsContext candidate features = true ∨
    ∀ other ∈ installed, hardUnmet other features = none →
      router.fitsContext other features = false)

/-- A pool offers a target: it belongs to a preferred installed candidate that is in rotation, or
every preferred candidate is ejected. -/
def Offered (router : Router) (candidates : List Candidate) (features : RequestFeatures)
    (name : String) (target : UpstreamModel) : Prop :=
  ∃ members, router.config.pools.lookup name = some members ∧
    ∃ candidate ∈ installed candidates members, candidate.target = target ∧
      router.Preferred features (installed candidates members) candidate ∧
      (candidate.health ≠ .unavailable ∨ ∀ other ∈ installed candidates members,
        router.Preferred features (installed candidates members) other →
          other.health = .unavailable)

theorem mem_offers (hlocal : router.config.localOnly = false) {name : String}
    {target : UpstreamModel} :
    target ∈ router.offers candidates features name ↔
      router.Offered candidates features name target := by
  rcases hlookup : router.config.pools.lookup name with - | members
  · simp [offers, Offered, hlookup]
  · rw [offers_eq hlocal hlookup, List.mem_map]
    simp only [Offered, hlookup, Option.some.injEq, exists_eq_left', mem_ranking, mem_preferred,
      mem_capable, Preferred]
    constructor
    · rintro ⟨candidate, ⟨⟨⟨hmem, hgates⟩, hwindow⟩, hhealth⟩, rfl⟩
      refine ⟨candidate, hmem, rfl, ⟨hgates, ?_⟩, ?_⟩
      · exact hwindow.imp_right fun h other hother hgates ↦ h other ⟨hother, hgates⟩
      · refine hhealth.imp_right fun h other hother hpreferred ↦ ?_
        refine h other ⟨⟨hother, hpreferred.1⟩, ?_⟩
        exact hpreferred.2.imp_right fun h other hother ↦ h other hother.1 hother.2
    · rintro ⟨candidate, hmem, rfl, ⟨hgates, hwindow⟩, hhealth⟩
      refine ⟨candidate, ⟨⟨⟨hmem, hgates⟩, ?_⟩, ?_⟩, rfl⟩
      · exact hwindow.imp_right fun h other hother ↦ h other hother.1 hother.2
      · refine hhealth.imp_right fun h other hother ↦ h other hother.1.1 ⟨hother.1.2, ?_⟩
        exact hother.2.imp_right fun h other hother hgates ↦ h other ⟨hother, hgates⟩

/-! ## The exact condition -/

/-- The window preference hides a pool's rotation: everything capable that fits the window is
ejected, and something capable that does not fit is not. -/
def Hides (router : Router) (features : RequestFeatures) (installed : List Candidate) : Prop :=
  (∀ other ∈ installed, hardUnmet other features = none →
    router.fitsContext other features = true → other.health = .unavailable) ∧
  ∃ other ∈ installed, hardUnmet other features = none ∧ other.health ≠ .unavailable

/-- In every pool the route visits whose rotation is hidden, the ejected candidates that fit were
offered by an earlier pool already. -/
def HiddenOfferedBefore (router : Router) (candidates : List Candidate)
    (features : RequestFeatures) (pool : String) : Prop :=
  ∀ before name after members, router.visited pool = before ++ name :: after →
    router.config.pools.lookup name = some members →
    router.Hides features (installed candidates members) →
    ∀ candidate ∈ installed candidates members, hardUnmet candidate features = none →
      router.fitsContext candidate features = true →
      ∃ earlier ∈ before, router.Offered candidates features earlier candidate.target

/-- A hidden rotation shows: the pool offers what fits, although that is ejected. -/
theorem offered_of_hides {name : String} {members : List UpstreamModel}
    (hlookup : router.config.pools.lookup name = some members)
    (hhides : router.Hides features (installed candidates members)) {candidate : Candidate}
    (hmem : candidate ∈ installed candidates members) (hgates : hardUnmet candidate features = none)
    (hfits : router.fitsContext candidate features = true) :
    router.Offered candidates features name candidate.target := by
  refine ⟨members, hlookup, candidate, hmem, rfl, ⟨hgates, Or.inl hfits⟩, Or.inr ?_⟩
  rintro other hother ⟨hotherGates, hotherFits | hnone⟩
  · exact hhides.1 other hother hotherGates hotherFits
  · rw [hnone candidate hmem hgates] at hfits
    cases hfits

/-- An offer of something ejected, next to something in rotation, is a hidden rotation. -/
theorem hides_of_offered {name : String} {members : List UpstreamModel}
    (hlookup : router.config.pools.lookup name = some members) {target : UpstreamModel}
    (hoffered : router.Offered candidates features name target) {candidate other : Candidate}
    (hsupplied : supplied candidates target = some candidate)
    (hejected : candidate.health = .unavailable) (hother : other ∈ installed candidates members)
    (hgates : hardUnmet other features = none) (hrotation : other.health ≠ .unavailable) :
    router.Hides features (installed candidates members) ∧
      candidate ∈ installed candidates members ∧ hardUnmet candidate features = none ∧
      router.fitsContext candidate features = true ∧ candidate.target = target := by
  obtain ⟨members', hlookup', offered, hmem, rfl, hpreferred, hhealth⟩ := hoffered
  obtain rfl : members = members' := Option.some.inj (hlookup.symm.trans hlookup')
  obtain rfl : candidate = offered :=
    Option.some.inj (hsupplied.symm.trans (mem_installed.mp hmem).1)
  -- the offer is a last resort, so everything preferred is ejected and `other` is not preferred
  have hall := hhealth.resolve_left (not_not.mpr hejected)
  have hfits : router.fitsContext candidate features = true := by
    refine hpreferred.2.resolve_right fun hnone ↦ ?_
    exact hrotation (hall other hother ⟨hgates, Or.inr hnone⟩)
  refine ⟨⟨fun fitting hfitting hfittingGates hfittingFits ↦ ?_, other, hother, hgates, hrotation⟩,
    hmem, hpreferred.1, hfits, rfl⟩
  exact hall fitting hfitting ⟨hfittingGates, Or.inl hfittingFits⟩

/-- A last resort leaves no rotation hidden behind a first offer. -/
theorem EjectedOnlyAsLastResort.hiddenOfferedBefore (hlocal : router.config.localOnly = false)
    {decision : Decision}
    (hoffers : ∀ name ∈ router.visited decision.pool, ∀ target,
      target ∈ router.offers candidates features name → target ∈ decision.targets)
    (h : router.EjectedOnlyAsLastResort candidates features (.ok decision)) :
    router.HiddenOfferedBefore candidates features decision.pool := by
  intro before name after members hvisited hlookup hhides candidate hcandidate hgates hfits
  by_contra hnone
  push Not at hnone
  obtain ⟨other, hother, hotherGates, hrotation⟩ := hhides.2
  have hoffered : candidate.target ∈ router.offers candidates features name :=
    (mem_offers hlocal).mpr (offered_of_hides hlookup hhides hcandidate hgates hfits)
  have htarget : candidate.target ∈ decision.targets :=
    hoffers name (hvisited ▸ by simp) _ hoffered
  have hejected := hhides.1 candidate hcandidate hgates hfits
  -- no earlier pool offers it, so this pool is the one that puts it among the targets
  have hfirst : ∀ earlier ∈ before,
      candidate.target ∉ router.offers candidates features earlier :=
    fun earlier hearlier h ↦ hnone earlier hearlier ((mem_offers hlocal).mp h)
  exact hrotation (h decision rfl candidate.target htarget candidate
    (mem_installed.mp hcandidate).1 hejected name members
    ⟨before, after, hvisited, hoffered, hfirst⟩ hlookup other hother hotherGates)

/-- Where no rotation is hidden behind a first offer, the ejected are a last resort. -/
theorem ejectedOnlyAsLastResort_of_hiddenOfferedBefore (hlocal : router.config.localOnly = false)
    {decision : Decision}
    (h : router.HiddenOfferedBefore candidates features decision.pool) :
    router.EjectedOnlyAsLastResort candidates features (.ok decision) := by
  rintro _ ⟨⟩ target - candidate hsupplied hejected name members
    ⟨before, after, hvisited, hoffered, hfirst⟩ hlookup other hother hgates
  by_contra hrotation
  obtain ⟨hhides, hcandidate, hcandidateGates, hfits, rfl⟩ := hides_of_offered hlookup
    ((mem_offers hlocal).mp hoffered) hsupplied hejected hother hgates hrotation
  obtain ⟨earlier, hearlier, hbefore⟩ := h before name after members hvisited hlookup hhides
    candidate hcandidate hcandidateGates hfits
  exact hfirst earlier hearlier ((mem_offers hlocal).mpr hbefore)

/-- **The last resort.** The ejected are offered as a last resort only, exactly when the selected
pool has nothing capable, or no visited pool's rotation is hidden behind a target it is the first
to offer. -/
theorem lastResort_iff (unicode : Unicode) (router : Router)
    (htiered : router.config.routingMode = .tiered)
    (hexact : router.config.honorExactModel = false) (hlocal : router.config.localOnly = false)
    (request : ChatRequest) (hints : List AgentHint) (candidates : List Candidate) :
    router.EjectedOnlyAsLastResort candidates (.extract unicode request hints)
        (router.route unicode request hints candidates) ↔
      ∀ pool members,
        SelectedPool unicode router.config (.extract unicode request hints) request hints pool →
        router.config.pools.lookup pool = some members →
        (∃ candidate ∈ installed candidates members,
          hardUnmet candidate (.extract unicode request hints) = none) →
        router.HiddenOfferedBefore candidates (.extract unicode request hints) pool := by
  obtain ⟨pool, members, hselected, hlookup, hroute⟩ :=
    exists_tier unicode router htiered hexact hlocal request hints candidates
  generalize RequestFeatures.extract unicode request hints = features at *
  rcases hroute with ⟨⟨error, herr⟩, hnone⟩ | ⟨decision, hok, hsome, rfl, htargets⟩
  · rw [herr]
    refine iff_of_true (fun decision h ↦ by cases h) ?_
    intro pool' members' hselected' hlookup' hcapable
    obtain rfl := hselected'.unique hselected
    obtain rfl := Option.some.inj (hlookup'.symm.trans hlookup)
    exact absurd hcapable hnone
  · rw [hok]
    have hoffers : ∀ name ∈ router.visited decision.pool, ∀ target,
        target ∈ router.offers candidates features name → target ∈ decision.targets := by
      intro name hname target htarget
      rw [htargets, ← offers_eq hlocal hlookup, mem_extended]
      rcases List.mem_cons.mp hname with rfl | hname
      · exact Or.inl htarget
      · exact Or.inr ⟨name, hname, htarget⟩
    constructor
    · intro hproperty pool' members' hselected' _ _
      obtain rfl := hselected'.unique hselected
      exact hproperty.hiddenOfferedBefore hlocal hoffers
    · intro hcondition
      have hbefore := hcondition decision.pool members hselected hlookup hsome
      exact ejectedOnlyAsLastResort_of_hiddenOfferedBefore hlocal hbefore

/-! ## A small window in rotation and a large one ejected -/

/-- A healthy candidate with a window of one token. -/
def smallCandidate : Candidate := { cloudCandidate with capability := { contextWindow := 1 } }

/-- An ejected candidate with a window of a hundred. -/
def largeCandidate : Candidate :=
  { target := reserveModel, capability := { contextWindow := 100 }, health := .unavailable }

/-- A router with both in one pool. -/
def twoWindows : Router := ⟨RouterConfig.single "main" [cloudModel, reserveModel], rfl⟩

/-- A request of two tokens. -/
def helloRequest : ChatRequest := { plainRequest with messages := [.text .user "hello"] }

/-- With both ejected, offering them is a last resort. -/
theorem lastResort_iff_twoWindows :
    twoWindows.EjectedOnlyAsLastResort
      [{ smallCandidate with health := .unavailable }, largeCandidate]
      (.extract .ascii helloRequest [])
      (twoWindows.route .ascii helloRequest []
        [{ smallCandidate with health := .unavailable }, largeCandidate]) := by
  refine (lastResort_iff .ascii twoWindows rfl rfl rfl helloRequest [] _).mpr ?_
  rintro pool members - - - before name after members' - - ⟨-, other, hmem, -, hrotation⟩
  have hother := mem_of_mem_installed hmem
  simp only [List.mem_cons, List.not_mem_nil, or_false] at hother
  rcases hother with rfl | rfl
  · exact absurd rfl hrotation
  · exact absurd rfl hrotation

/-- The ejected candidate is chosen, while the healthy one could serve the request. -/
theorem not_lastResort_twoWindows :
    ¬ twoWindows.EjectedOnlyAsLastResort [smallCandidate, largeCandidate]
      (.extract .ascii helloRequest [])
      (twoWindows.route .ascii helloRequest [] [smallCandidate, largeCandidate]) := by
  intro h
  have hhealth := h _ rfl reserveModel (by decide) largeCandidate rfl rfl "main"
    [cloudModel, reserveModel] ⟨[], [], rfl, by decide, by simp⟩ rfl smallCandidate
    List.mem_cons_self rfl
  cases hhealth

end Router

end TokenStation
