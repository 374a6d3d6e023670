import TokenStation.Library.Survivors
import TokenStation.Router.Ranking

/-!
# Quota-first order

The intended order of the accounts has three levels: the reset bucket, the weighted score, and the
configured position, which "only breaks an exact tie". The code subtracts an account's position
among the capable ones from its weighted score, so a configured position can also outweigh a small
difference of the score. `quotaOrder_iff` says exactly when it does not.

An account stands for the first candidate the host supplies with its target. Accounts are named by
their positions in the configured list; `Entry` keeps, for each account that survives the filters,
its position and its rank.
-/

namespace TokenStation

open Library

/-- A candidate can serve: it clears the hard gates, is in rotation and has allowance left. -/
def Servable (features : RequestFeatures) (candidate : Candidate) : Prop :=
  hardUnmet candidate features = none ∧ candidate.health ≠ .unavailable ∧
    candidate.quota.exhausted = false

namespace Router

section Order

variable (router : Router) (candidates : List Candidate) (features : RequestFeatures)
  (lastUsed : Option UpstreamModel)

/-- The candidate the host supplies for the account at a position. -/
def accountAt (position : ℕ) : Option Candidate :=
  router.config.quotaAccounts[position]?.bind (supplied candidates)

def bucket (candidate : Candidate) : ℕ :=
  candidate.quota.bucket router.config.quota.resetTieBandMs

/-- The weighted score, without the configured position. -/
def weighted (candidate : Candidate) : ℤ :=
  candidate.quota.weighted (decide (lastUsed = some candidate.target)) router.config.quota.weights

/-- The index the code gives the account at a position: how many capable accounts come before. -/
def capableIndex (position : ℕ) : ℕ :=
  clampTo u32Max
    (capable features (installed candidates (router.config.quotaAccounts.take position))).length

/-- The account at `i` goes before the one at `j`: a sooner bucket, or the same bucket and a
greater weighted score, or both equal and the earlier position. -/
def Before (i j : ℕ) : Prop :=
  ∀ a b, router.accountAt candidates i = some a → router.accountAt candidates j = some b →
    router.bucket a < router.bucket b ∨ router.bucket a = router.bucket b ∧
      (router.weighted lastUsed b < router.weighted lastUsed a ∨
        router.weighted lastUsed a = router.weighted lastUsed b ∧ i < j)

/-- The intended result: exactly the accounts that some supplied candidate can serve, in the
three-level order. -/
def QuotaOrdered (outcome : Outcome NoRoute Decision) : Prop :=
  ∀ decision, outcome = .ok decision → ∃ positions : List ℕ, positions.Nodup ∧
    (∀ i, i ∈ positions ↔ ∃ account, router.config.quotaAccounts[i]? = some account ∧
      ∃ candidate ∈ candidates, candidate.target = account ∧ Servable features candidate) ∧
    decision.targets = positions.filterMap (router.config.quotaAccounts[·]?) ∧
    positions.Pairwise (router.Before candidates lastUsed)

/-! ## The survivors of the filters -/

/-- An account that survives the filters. -/
structure Entry where
  candidate : Candidate
  position : ℕ
  rank : QuotaRank

/-- The supplied candidate of an account, if it is capable. -/
def capableAccount (account : UpstreamModel) : Option Candidate :=
  (supplied candidates account).filter fun candidate ↦ (hardUnmet candidate features).isNone

/-- The accounts that survive, in configured order. -/
def entries : List Entry :=
  (survivors (capableAccount candidates features) router.config.quotaAccounts 0 0).filterMap
    fun s ↦ if s.1.health ≠ .unavailable then
      (router.accountRank lastUsed s.2.2 s.1).map fun rank ↦ ⟨s.1, s.2.1, rank⟩
    else none

/-- The accounts that survive, in the order they are tried. -/
def tried : List Entry :=
  sortByKey (fun entry ↦ OrderDual.toDual entry.rank)
    (router.entries candidates features lastUsed)

end Order

variable {router : Router} {candidates : List Candidate} {features : RequestFeatures}
  {lastUsed : Option UpstreamModel}

theorem capable_installed (accounts : List UpstreamModel) :
    capable features (installed candidates accounts) =
      accounts.filterMap (capableAccount candidates features) := by
  rw [capable, installed, List.filter_filterMap]
  rfl

theorem capableAccount_eq_some {account : UpstreamModel} {candidate : Candidate} :
    capableAccount candidates features account = some candidate ↔
      supplied candidates account = some candidate ∧ hardUnmet candidate features = none := by
  rw [capableAccount, Option.filter_eq_some_iff, Option.isNone_iff_eq_none]

/-- The code's ranked list is the list of entries, without the positions. -/
theorem rankedAccounts_eq (router : Router) (candidates : List Candidate)
    (features : RequestFeatures) (lastUsed : Option UpstreamModel) :
    router.rankedAccounts lastUsed
        (capable features (installed candidates router.config.quotaAccounts)) =
      (router.entries candidates features lastUsed).map fun entry ↦
        (entry.candidate, entry.rank) := by
  rw [rankedAccounts, capable_installed, ← survivors_zipIdx _ _ 0 0, entries, List.map_filterMap,
    List.filterMap_filter, List.filterMap_map]
  congr 1
  funext s
  by_cases hhealth : s.1.health = .unavailable
  · simp [hhealth]
  · simp [hhealth, Function.comp_def]

/-- The rank the code gives the account at a position. -/
theorem accountRank_eq_some {candidate : Candidate} {index : ℕ} {rank : QuotaRank} :
    router.accountRank lastUsed index candidate = some rank ↔
      candidate.quota.exhausted = false ∧
        rank = ⟨router.bucket candidate,
          router.weighted lastUsed candidate - clampTo u32Max index⟩ := by
  rw [accountRank, quotaRank, bucket, weighted]
  split
  next h => simp [h]
  next h => simp [h, eq_comm]

/-- The entries are the accounts whose candidate can serve. -/
theorem mem_entries {entry : Entry} :
    entry ∈ router.entries candidates features lastUsed ↔
      router.accountAt candidates entry.position = some entry.candidate ∧
        Servable features entry.candidate ∧
        entry.rank = ⟨router.bucket entry.candidate, router.weighted lastUsed entry.candidate -
          router.capableIndex candidates features entry.position⟩ := by
  obtain ⟨candidate, position, rank⟩ := entry
  simp only [entries, List.mem_filterMap, mem_survivors, capableAccount_eq_some, accountAt,
    Option.bind_eq_some_iff, Servable, capableIndex, capable_installed]
  constructor
  · rintro ⟨⟨candidate', position', index⟩, ⟨n, account, hget, ⟨hsupplied, hgates⟩, hposition,
      hindex⟩, h⟩
    simp only [ne_eq, Option.ite_none_right_eq_some, Option.map_eq_some_iff, accountRank_eq_some,
      Entry.mk.injEq] at h
    obtain ⟨hhealth, _, ⟨hexhausted, rfl⟩, rfl, rfl, rfl⟩ := h
    simp only [Nat.zero_add] at hposition hindex
    subst hposition hindex
    exact ⟨⟨account, hget, hsupplied⟩, ⟨hgates, hhealth, hexhausted⟩, rfl⟩
  · rintro ⟨⟨account, hget, hsupplied⟩, ⟨hgates, hhealth, hexhausted⟩, hrank⟩
    refine ⟨(candidate, position, _), ⟨position, account, hget, ⟨hsupplied, hgates⟩,
      (Nat.zero_add _).symm, rfl⟩, ?_⟩
    simp only [ne_eq, hhealth, not_false_eq_true, if_true, Option.map_eq_some_iff,
      accountRank_eq_some]
    exact ⟨_, ⟨hexhausted, rfl⟩, by rw [hrank, Nat.zero_add]⟩

theorem exists_entry (lastUsed : Option UpstreamModel) {i : ℕ} {candidate : Candidate}
    (haccount : router.accountAt candidates i = some candidate)
    (hservable : Servable features candidate) :
    ∃ e ∈ router.entries candidates features lastUsed,
      e.position = i ∧ e.candidate = candidate := by
  refine ⟨⟨candidate, i, router.bucket candidate, router.weighted lastUsed candidate -
    router.capableIndex candidates features i⟩, ?_, rfl, rfl⟩
  exact mem_entries.mpr ⟨haccount, hservable, rfl⟩

theorem mem_tried {entry : Entry} :
    entry ∈ router.tried candidates features lastUsed ↔
      entry ∈ router.entries candidates features lastUsed :=
  mem_sortByKey

/-- The entries come in configured order. -/
theorem entries_pairwise :
    (router.entries candidates features lastUsed).Pairwise fun e e' ↦ e.position < e'.position := by
  refine (survivors_pairwise _ _ 0 0).filterMap _ fun s t hlt e he e' he' ↦ ?_
  simp only [Option.ite_none_right_eq_some, Option.map_eq_some_iff] at he he'
  obtain ⟨-, rank, -, rfl⟩ := he
  obtain ⟨-, rank', -, rfl⟩ := he'
  exact hlt

/-- The order of the attempts: a sooner bucket, a greater score, an earlier position. -/
theorem tried_pairwise :
    (router.tried candidates features lastUsed).Pairwise fun e e' ↦
      e.rank.bucket < e'.rank.bucket ∨ e.rank.bucket = e'.rank.bucket ∧
        (e'.rank.score < e.rank.score ∨
          e.rank.score = e'.rank.score ∧ e.position < e'.position) := by
  refine (sortByKey_pairwise_of_pairwise _ entries_pairwise).imp fun {e e'} h ↦ ?_
  rcases h with h | ⟨h, hposition⟩
  · rcases QuotaRank.lt_iff.mp (OrderDual.toDual_lt_toDual.mp h) with h | ⟨hbucket, hscore⟩
    · exact Or.inl h
    · exact Or.inr ⟨hbucket.symm, Or.inl hscore⟩
  · rw [OrderDual.toDual.injective h]
    exact Or.inr ⟨rfl, Or.inr ⟨rfl, hposition⟩⟩

/-- What `routeQuotaFirst` returns, through the entries. -/
theorem routeQuotaFirst_cases (unicode : Unicode) (router : Router) (request : ChatRequest)
    (candidates : List Candidate) (lastUsed : Option UpstreamModel) :
    (∃ error, router.routeQuotaFirst unicode request candidates lastUsed = .err error) ∧
        router.entries candidates (.extract unicode request []) lastUsed = [] ∨
      ∃ decision, router.routeQuotaFirst unicode request candidates lastUsed = .ok decision ∧
        router.entries candidates (.extract unicode request []) lastUsed ≠ [] ∧
        decision.targets = (router.tried candidates (.extract unicode request []) lastUsed).map
          fun entry ↦ entry.candidate.target := by
  have hranked := rankedAccounts_eq router candidates (.extract unicode request []) lastUsed
  rw [routeQuotaFirst]
  dsimp only
  split
  next h =>
    refine Or.inl ⟨⟨_, rfl⟩, ?_⟩
    rw [entries, List.isEmpty_iff.mp h]
    rfl
  next =>
    split
    next h =>
      rw [List.isEmpty_iff.mp h] at hranked
      exact Or.inl ⟨⟨_, rfl⟩, List.map_eq_nil_iff.mp hranked.symm⟩
    next =>
      rw [hranked, List.isEmpty_map]
      split
      next h => exact Or.inl ⟨⟨_, rfl⟩, List.isEmpty_iff.mp h⟩
      next h =>
        have hne : router.entries candidates (.extract unicode request []) lastUsed ≠ [] :=
          fun h' ↦ h (List.isEmpty_iff.mpr h')
        rw [sortByKey_map, List.map_map]
        have htried : (router.tried candidates (.extract unicode request []) lastUsed).map
            (fun entry ↦ entry.candidate.target) ≠ [] :=
          fun h' ↦ hne (sortByKey_eq_nil.mp (List.map_eq_nil_iff.mp h'))
        obtain ⟨decision, hdecision⟩ :=
          exists_decideTargets .quota (.extract unicode request []) quotaPool htried
        exact Or.inr ⟨decision, hdecision, hne, (decideTargets_eq_ok.mp hdecision).1⟩

/-! ## The exact condition -/

/-- The first candidate supplied for an account decides whether it can serve. -/
def FirstDecides (router : Router) (candidates : List Candidate) (features : RequestFeatures) :
    Prop :=
  ∀ candidate ∈ candidates, candidate.target ∈ router.config.quotaAccounts →
    Servable features candidate → ∀ first, supplied candidates candidate.target = some first →
      Servable features first

/-- No configured position bridges a difference of the weighted scores: when a later account of the
same bucket has the greater weighted score, its lead is more than its extra capable index. -/
def NoBridge (router : Router) (candidates : List Candidate) (features : RequestFeatures)
    (lastUsed : Option UpstreamModel) : Prop :=
  ∀ i j a b, i < j → router.accountAt candidates i = some a →
    router.accountAt candidates j = some b → Servable features a → Servable features b →
    router.bucket a = router.bucket b →
    router.weighted lastUsed a < router.weighted lastUsed b →
    (router.capableIndex candidates features j : ℤ) - router.capableIndex candidates features i <
      router.weighted lastUsed b - router.weighted lastUsed a

/-- Capable indices grow along the configured list. -/
theorem capableIndex_mono {i j : ℕ} (h : i ≤ j) :
    router.capableIndex candidates features i ≤ router.capableIndex candidates features j := by
  rw [capableIndex, capableIndex, clampTo, clampTo, capable_installed, capable_installed]
  refine min_le_min_right _ (List.Sublist.length_le ?_)
  refine List.Sublist.filterMap _ (List.take_sublist_take_left ?_)
  exact h

theorem accountAt_eq_some {i : ℕ} {candidate : Candidate} :
    router.accountAt candidates i = some candidate ↔
      router.config.quotaAccounts[i]? = some candidate.target ∧
        supplied candidates candidate.target = some candidate := by
  rw [accountAt, Option.bind_eq_some_iff]
  constructor
  · rintro ⟨account, hget, hsupplied⟩
    rw [(mem_of_supplied hsupplied).2]
    exact ⟨hget, hsupplied⟩
  · rintro ⟨hget, hsupplied⟩
    exact ⟨candidate.target, hget, hsupplied⟩

/-- Without bridging, the code's order of two entries is the intended order. -/
theorem before_of_rank (hbridge : router.NoBridge candidates features lastUsed) {e e' : Entry}
    (he : e ∈ router.entries candidates features lastUsed)
    (he' : e' ∈ router.entries candidates features lastUsed)
    (hrank : e.rank.bucket < e'.rank.bucket ∨ e.rank.bucket = e'.rank.bucket ∧
      (e'.rank.score < e.rank.score ∨
        e.rank.score = e'.rank.score ∧ e.position < e'.position)) :
    router.Before candidates lastUsed e.position e'.position := by
  obtain ⟨haccount, hservable, hr⟩ := mem_entries.mp he
  obtain ⟨haccount', hservable', hr'⟩ := mem_entries.mp he'
  rw [hr, hr'] at hrank
  intro a b ha hb
  obtain rfl := Option.some.inj (ha.symm.trans haccount)
  obtain rfl := Option.some.inj (hb.symm.trans haccount')
  refine hrank.imp_right fun ⟨hbucket, hscore⟩ ↦ ⟨hbucket, ?_⟩
  dsimp only at hscore
  rcases lt_trichotomy e.position e'.position with hlt | heq | hgt
  · -- earlier and not worse in score: a greater weighted score of the later one is ruled out
    have hnot := fun h ↦ hbridge _ _ _ _ hlt haccount haccount' hservable hservable' hbucket h
    rcases lt_trichotomy (router.weighted lastUsed e.candidate)
      (router.weighted lastUsed e'.candidate) with h | h | h
    · have := hnot h
      omega
    · exact Or.inr ⟨h, hlt⟩
    · exact Or.inl h
  · rw [heq] at hscore
    rw [heq, haccount'] at haccount
    obtain h := Option.some.inj haccount
    rw [h] at hscore
    omega
  · -- later and strictly better in score: better by the weights alone
    have hmono : router.capableIndex candidates features e'.position ≤
        router.capableIndex candidates features e.position := capableIndex_mono hgt.le
    omega

/-- In the intended order, a greater weighted score in the same bucket comes first, whatever the
positions. -/
theorem QuotaOrdered.weighted_le {decision : Decision} {positions : List ℕ}
    (htargets : decision.targets = positions.filterMap (router.config.quotaAccounts[·]?))
    (hordered : positions.Pairwise (router.Before candidates lastUsed)) :
    decision.targets.Pairwise fun s t ↦ ∀ a b, supplied candidates s = some a →
      supplied candidates t = some b → router.bucket a = router.bucket b →
        router.weighted lastUsed b ≤ router.weighted lastUsed a := by
  rw [htargets]
  refine hordered.filterMap _ fun i j hbefore s hs t ht a b ha hb hbucket ↦ ?_
  have hai : router.accountAt candidates i = some a := by
    rw [accountAt, hs, Option.bind_some, ha]
  have hbj : router.accountAt candidates j = some b := by
    rw [accountAt, ht, Option.bind_some, hb]
  rcases hbefore a b hai hbj with hlt | ⟨-, hlt | ⟨heq, -⟩⟩
  · exact absurd hbucket hlt.ne
  · exact hlt.le
  · exact heq.ge

/-- In a pairwise ordered list, two members stand one way round or the other. -/
private theorem pairwise_either {α : Type} {R : α → α → Prop} {l : List α} (h : l.Pairwise R)
    {a b : α} (ha : a ∈ l) (hb : b ∈ l) (hne : a ≠ b) : R a b ∨ R b a := by
  have : Std.Symm fun x y ↦ R x y ∨ R y x := ⟨fun _ _ ↦ Or.symm⟩
  have hsymm : l.Pairwise fun x y ↦ R x y ∨ R y x := h.imp Or.inl
  exact hsymm.forall ha hb hne

section Tried

variable {decision : Decision}
  (htargets : decision.targets =
    (router.tried candidates features lastUsed).map fun entry ↦ entry.candidate.target)
include htargets

/-- An intended order leaves out no account, so the first candidate of each decides for it. -/
theorem QuotaOrdered.firstDecides
    (hordered : router.QuotaOrdered candidates features lastUsed (.ok decision)) :
    router.FirstDecides candidates features := by
  obtain ⟨positions, -, hmem, hpositions, -⟩ := hordered decision rfl
  intro candidate hcandidate haccount hservable first hfirst
  obtain ⟨i, hi⟩ := List.mem_iff_getElem?.mp haccount
  have hlisted : candidate.target ∈ decision.targets := by
    rw [hpositions, List.mem_filterMap]
    exact ⟨i, (hmem i).mpr ⟨_, hi, candidate, hcandidate, rfl, hservable⟩, hi⟩
  rw [htargets, List.mem_map] at hlisted
  obtain ⟨e, he, htarget⟩ := hlisted
  obtain ⟨haccount', hservable', -⟩ := mem_entries.mp (mem_tried.mp he)
  rw [← htarget, (accountAt_eq_some.mp haccount').2] at hfirst
  obtain rfl := Option.some.inj hfirst
  exact hservable'

/-- An intended order orders every pair by the weights, so no position bridges a difference. -/
theorem QuotaOrdered.noBridge
    (hordered : router.QuotaOrdered candidates features lastUsed (.ok decision)) :
    router.NoBridge candidates features lastUsed := by
  obtain ⟨positions, -, -, hpositions, hpairwise⟩ := hordered decision rfl
  have hweights := QuotaOrdered.weighted_le hpositions hpairwise
  rw [htargets, List.pairwise_map] at hweights
  intro i j a b hlt ha hb hservable hservable' hbucket hweighted
  by_contra hbridge
  push Not at hbridge
  have hsupplied := (accountAt_eq_some.mp ha).2
  have hsupplied' := (accountAt_eq_some.mp hb).2
  obtain ⟨e, he, rfl, rfl⟩ := exists_entry lastUsed ha hservable
  obtain ⟨e', he', rfl, rfl⟩ := exists_entry lastUsed hb hservable'
  have hne : e ≠ e' := fun h ↦ hlt.ne (congrArg Entry.position h)
  -- the code's order and the intended one, read for this pair whichever way round it stands
  have hboth := pairwise_either (tried_pairwise.and hweights) (mem_tried.mpr he)
    (mem_tried.mpr he') hne
  rcases hboth with ⟨-, h⟩ | ⟨h, -⟩
  · exact absurd hweighted (not_lt.mpr (h _ _ hsupplied hsupplied' hbucket))
  · rw [(mem_entries.mp he).2.2, (mem_entries.mp he').2.2] at h
    dsimp only at h
    omega

/-- The positions of the attempts are in the intended order. -/
theorem quotaOrdered_of_noBridge (hfirst : router.FirstDecides candidates features)
    (hbridge : router.NoBridge candidates features lastUsed) :
    router.QuotaOrdered candidates features lastUsed (.ok decision) := by
  rintro _ ⟨⟩
  refine ⟨(router.tried candidates features lastUsed).map Entry.position, ?_, ?_, ?_, ?_⟩
  · have hnodup : ((router.entries candidates features lastUsed).map Entry.position).Nodup := by
      rw [List.nodup_iff_pairwise_ne, List.pairwise_map]
      exact entries_pairwise.imp fun h ↦ h.ne
    exact ((sortByKey_perm _ _).map _).nodup_iff.mpr hnodup
  · intro i
    rw [List.mem_map]
    constructor
    · rintro ⟨e, he, rfl⟩
      obtain ⟨haccount, hservable, -⟩ := mem_entries.mp (mem_tried.mp he)
      obtain ⟨hget, hsupplied⟩ := accountAt_eq_some.mp haccount
      exact ⟨_, hget, e.candidate, (mem_of_supplied hsupplied).1, rfl, hservable⟩
    · -- whichever candidate can serve, the first one supplied for its account can
      rintro ⟨_, hget, candidate, hcandidate, rfl, hservable⟩
      obtain ⟨first, hsupplied⟩ := exists_supplied hcandidate
      have hservable' := hfirst candidate hcandidate (List.mem_of_getElem? hget) hservable
        first hsupplied
      have haccount : router.accountAt candidates i = some first := by
        rw [accountAt, hget, Option.bind_some, hsupplied]
      obtain ⟨e, he, hposition, -⟩ := exists_entry lastUsed haccount hservable'
      exact ⟨e, mem_tried.mpr he, hposition⟩
  · rw [htargets, List.filterMap_map, ← List.filterMap_eq_map']
    refine List.filterMap_congr fun e he ↦ ?_
    exact (accountAt_eq_some.mp (mem_entries.mp (mem_tried.mp he)).1).1.symm
  · rw [List.pairwise_map]
    refine tried_pairwise.imp_of_mem ?_
    intro e e' he he' h
    exact before_of_rank hbridge (mem_tried.mp he) (mem_tried.mp he') h

end Tried

/-- **Quota-first order.** The result is as intended exactly when either nothing can serve, or the
first candidate supplied for each account decides for it and no configured position bridges a
difference of the weighted scores. -/
theorem quotaOrdered_iff (unicode : Unicode) (router : Router) (request : ChatRequest)
    (candidates : List Candidate) (lastUsed : Option UpstreamModel) :
    router.QuotaOrdered candidates (.extract unicode request []) lastUsed
        (router.routeQuotaFirst unicode request candidates lastUsed) ↔
      ((∃ i candidate, router.accountAt candidates i = some candidate ∧
          Servable (.extract unicode request []) candidate) →
        router.FirstDecides candidates (.extract unicode request []) ∧
          router.NoBridge candidates (.extract unicode request []) lastUsed) := by
  have hcases := routeQuotaFirst_cases unicode router request candidates lastUsed
  generalize RequestFeatures.extract unicode request [] = features at *
  rcases hcases with ⟨⟨error, herr⟩, hnil⟩ | ⟨decision, hok, hne, htargets⟩
  · -- nothing is tried: no entry, so no account that can serve
    rw [herr]
    refine iff_of_true (fun decision h ↦ by cases h) ?_
    rintro ⟨i, candidate, haccount, hservable⟩
    obtain ⟨e, he, -⟩ := exists_entry lastUsed haccount hservable
    rw [hnil] at he
    exact absurd he List.not_mem_nil
  · rw [hok]
    constructor
    · intro hordered _
      exact ⟨hordered.firstDecides htargets, hordered.noBridge htargets⟩
    · intro hcondition
      obtain ⟨e, he⟩ := List.exists_mem_of_ne_nil _ hne
      obtain ⟨haccount, hservable, -⟩ := mem_entries.mp he
      obtain ⟨hfirst, hbridge⟩ := hcondition ⟨e.position, e.candidate, haccount, hservable⟩
      exact quotaOrdered_of_noBridge htargets hfirst hbridge

/-! ## A bonus of one point -/

/-- Two accounts, and an affinity bonus of one point as the only weight. -/
def onePoint : Router where
  config :=
    { routingMode := .quotaFirst
      quota := { weights := { affinity := 1, headroom := 0, pressure := 0 } }
      quotaAccounts := [cloudModel, reserveModel] }
  valid := rfl

/-- The second account is the warmed one and leads by a point; its position takes the point back,
and the tie goes to the first account. -/
theorem not_quotaOrdered_onePoint :
    ¬ onePoint.QuotaOrdered [cloudCandidate, { cloudCandidate with target := reserveModel }]
      (.extract .ascii plainRequest []) (some reserveModel)
      (onePoint.routeQuotaFirst .ascii plainRequest
        [cloudCandidate, { cloudCandidate with target := reserveModel }] (some reserveModel)) := by
  intro h
  obtain ⟨positions, -, -, htargets, hordered⟩ := h _ rfl
  have hpairwise := QuotaOrdered.weighted_le htargets hordered
  have hle := List.rel_of_pairwise_cons hpairwise List.mem_cons_self _ _ rfl rfl rfl
  exact absurd hle (by decide)

end Router

end TokenStation
