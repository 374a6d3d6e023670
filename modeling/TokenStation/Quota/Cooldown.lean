import TokenStation.Quota.LiveTracker
import TokenStation.Router.QuotaFirst

/-!
# Cooldowns

A refusal cools its upstream until a deadline. Over a run an upstream is cooling exactly as long as
the deadline of one of its refusals is ahead (`isCooling_run`), whatever else happens meanwhile and
in whatever order the times come. While it is cooling its picture is exhausted, and an exhausted
account is in no quota-first decision.
-/

namespace TokenStation

open Library

namespace LiveQuota

/-! ## What a read leaves alone -/

/-- A read changes at most whether the store has failed. -/
structure ReadOnly (before after : LiveQuota) : Prop where
  accounts : after.tracker.accounts = before.tracker.accounts
  store : after.tracker.store = before.tracker.store
  leases : after.tracker.leases = before.tracker.leases
  coolingUntilMs : after.tracker.coolingUntilMs = before.tracker.coolingUntilMs
  authoritative : after.tracker.authoritative = before.tracker.authoritative
  table : after.directory.accounts = before.directory.accounts

namespace ReadOnly

variable {before middle after : LiveQuota}

theorem refl (quota : LiveQuota) : ReadOnly quota quota := ⟨rfl, rfl, rfl, rfl, rfl, rfl⟩

theorem trans (h : ReadOnly before middle) (h' : ReadOnly middle after) :
    ReadOnly before after where
  accounts := h'.accounts.trans h.accounts
  store := h'.store.trans h.store
  leases := h'.leases.trans h.leases
  coolingUntilMs := h'.coolingUntilMs.trans h.coolingUntilMs
  authoritative := h'.authoritative.trans h.authoritative
  table := h'.table.trans h.table

theorem isCooling (h : ReadOnly before after) (upstream : String) (nowMs : UInt64) :
    after.isCooling upstream nowMs = before.isCooling upstream nowMs := by
  rw [LiveQuota.isCooling, LiveQuota.isCooling, h.coolingUntilMs]

theorem freshAuthoritative (h : ReadOnly before after) (upstream : String) (nowMs : UInt64) :
    after.freshAuthoritative upstream nowMs = before.freshAuthoritative upstream nowMs := by
  rw [LiveQuota.freshAuthoritative, LiveQuota.freshAuthoritative, h.authoritative]

theorem rateLimit (h : ReadOnly before after) (upstream : String) :
    after.rateLimit upstream = before.rateLimit upstream := by
  rw [LiveQuota.rateLimit, LiveQuota.rateLimit, h.accounts]

end ReadOnly

theorem readOnly_persistenceError (quota : LiveQuota) (faults : Faults) :
    ReadOnly quota (quota.counting fun tracker directory ↦
      tracker.persistenceError directory faults) := by
  rw [counting, QuotaTracker.persistenceError]
  split
  · exact .refl quota
  · refine ⟨rfl, rfl, rfl, rfl, rfl, ?_⟩
    dsimp only
    split <;> rfl

theorem readOnly_currentSaved (quota : LiveQuota) (faults : Faults) (name : String)
    (account : TrackedAccount) : ReadOnly quota (quota.currentSaved faults name account).2 := by
  rw [currentSaved]
  split
  · split
    · exact .refl quota
    · exact quota.readOnly_persistenceError faults
  · exact .refl quota

theorem readOnly_estimate (quota : LiveQuota) (faults : Faults) (upstream : String)
    (nowMs : UInt64) : ReadOnly quota (quota.estimate faults upstream nowMs).2 := by
  rw [estimate]
  split
  · exact quota.readOnly_currentSaved faults upstream _
  · exact .refl quota

theorem readOnly_shownWindows (quota : LiveQuota) (faults : Faults) (upstream : String)
    (nowMs : UInt64) : ReadOnly quota (quota.shownWindows faults upstream nowMs).2 := by
  rw [shownWindows]
  split
  · exact .refl quota
  · split
    · exact quota.readOnly_currentSaved faults upstream _
    · exact .refl quota

theorem readOnly_ledgerHeadroom (quota : LiveQuota) (faults : Faults) (upstream : String)
    (nowMs : UInt64) : ReadOnly quota (quota.ledgerHeadroom faults upstream nowMs).2 := by
  rw [ledgerHeadroom]
  split
  · exact quota.readOnly_currentSaved faults upstream _
  · exact .refl quota

theorem readOnly_unknownUsage (quota : LiveQuota) (faults : Faults) (upstream : String) :
    ReadOnly quota (quota.unknownUsage faults upstream).2 := by
  rw [unknownUsage]
  split
  · exact quota.readOnly_currentSaved faults upstream _
  · exact .refl quota

theorem readOnly_snapshotEntry (quota : LiveQuota) (faults : Faults) (upstream : String)
    (nowMs : UInt64) : ReadOnly quota (quota.snapshotEntry faults upstream nowMs).2 := by
  have hshown := quota.readOnly_shownWindows faults upstream nowMs
  have hheadroom := readOnly_ledgerHeadroom (quota.shownWindows faults upstream nowMs).2 faults
    upstream nowMs
  exact (hshown.trans hheadroom).trans (readOnly_unknownUsage _ faults upstream)

theorem readOnly_snapshot (quota : LiveQuota) (faults : Faults) (nowMs : UInt64)
    (upstreams : List String) : ReadOnly quota (quota.snapshot faults nowMs upstreams).2 := by
  induction upstreams generalizing quota with
  | nil => exact .refl quota
  | cons upstream upstreams ih =>
    exact (quota.readOnly_snapshotEntry faults upstream nowMs).trans (ih _)

/-! ## Deadlines -/

end LiveQuota

/-- The deadline that an operation sets for an upstream. -/
def QuotaOp.deadline? (upstream : String) : QuotaOp → Option UInt64
  | .noteRateLimited refused nowMs cooldownMs =>
    if refused = upstream then some (Word.satAdd nowMs (min cooldownMs maxQuotaCooldownMs))
    else none
  | _ => none

namespace LiveQuota

variable {serde : Serde} {quota : LiveQuota} {upstream : String} {nowMs : UInt64}

/-- The deadlines of an upstream's refusals in a run. -/
def deadlines (upstream : String) (ops : List (Faults × QuotaOp)) : List UInt64 :=
  ops.filterMap fun op ↦ op.2.deadline? upstream

theorem lt_max_iff {a b c : UInt64} : a < max b c ↔ a < b ∨ a < c := by
  change a < (if b ≤ c then c else b) ↔ _
  simp only [UInt64.lt_iff_toNat_lt, UInt64.le_iff_toNat_le]
  split
  · omega
  · omega

theorem isCooling_noteRateLimited (quota : LiveQuota) (refused : String)
    (t₀ cooldownMs : UInt64) :
    (quota.noteRateLimited refused t₀ cooldownMs).isCooling upstream nowMs = true ↔
      quota.isCooling upstream nowMs = true ∨ refused = upstream ∧
        nowMs < Word.satAdd t₀ (min cooldownMs maxQuotaCooldownMs) := by
  rw [isCooling, noteRateLimited]
  dsimp only
  by_cases hrefused : refused = upstream
  · subst hrefused
    rw [AList.lookup_insert, Option.any_some, decide_eq_true_eq, isCooling]
    rcases quota.tracker.coolingUntilMs.lookup refused with - | current
    · simp
    · simp [lt_max_iff]
  · rw [AList.lookup_insert_ne (Ne.symm hrefused), ← isCooling]
    simp [hrefused]

/-- **Step.** An operation cools an upstream only by refusing it, and ends no cooldown. -/
theorem isCooling_step (quota : LiveQuota) (faults : Faults) (op : QuotaOp) :
    (quota.step serde faults op).isCooling upstream nowMs = true ↔
      quota.isCooling upstream nowMs = true ∨ ∃ deadline, op.deadline? upstream = some deadline ∧
        nowMs < deadline := by
  by_cases hop : ∃ refused t₀ cooldownMs, op = .noteRateLimited refused t₀ cooldownMs
  · obtain ⟨refused, t₀, cooldownMs, rfl⟩ := hop
    rw [step, isCooling_noteRateLimited, QuotaOp.deadline?]
    by_cases hrefused : refused = upstream
    · simp [hrefused]
    · simp [hrefused]
  · -- every other operation leaves the deadlines alone
    have hnone : op.deadline? upstream = none := by
      cases op with
      | noteRateLimited refused t₀ cooldownMs => exact absurd ⟨_, _, _, rfl⟩ hop
      | _ => rfl
    have hsame : (quota.step serde faults op).isCooling upstream nowMs =
        quota.isCooling upstream nowMs := by
      cases op with
      | noteRateLimited refused t₀ cooldownMs => exact absurd ⟨_, _, _, rfl⟩ hop
      | quotaState name t => exact (quota.readOnly_estimate faults name t).isCooling upstream nowMs
      | snapshot names t =>
        exact (quota.readOnly_snapshot faults t names).isCooling upstream nowMs
      | _ => rfl
    rw [hsame, hnone]
    simp

/-- **Run.** An upstream is cooling as long as the deadline of one of its refusals is ahead. -/
theorem isCooling_run (quota : LiveQuota) (ops : List (Faults × QuotaOp)) :
    (quota.run serde ops).isCooling upstream nowMs = true ↔
      quota.isCooling upstream nowMs = true ∨
        ∃ deadline ∈ deadlines upstream ops, nowMs < deadline := by
  induction ops generalizing quota with
  | nil => simp [run, deadlines]
  | cons op ops ih =>
    have hdeadlines : deadlines upstream (op :: ops) =
        (op.2.deadline? upstream).toList ++ deadlines upstream ops := by
      rw [deadlines, List.filterMap_cons]
      split
      next h => rw [h]; rfl
      next h => rw [h]; rfl
    rw [run, List.foldl_cons, ← run, ih, isCooling_step, or_assoc, hdeadlines]
    rcases op.2.deadline? upstream with - | deadline
    · simp
    · simp

/-! ## The picture of a cooling account -/

theorem exhausted_of_isCooling (faults : Faults) (h : quota.isCooling upstream nowMs = true) :
    (quota.quotaState faults upstream nowMs).1.exhausted = true := by
  have hcooling := (quota.readOnly_estimate faults upstream nowMs).isCooling upstream nowMs
  rw [quotaState]
  dsimp only
  rw [hcooling, h, Bool.true_or, if_pos rfl]

/-- The tracker with no upstream cooling. -/
def uncooled (quota : LiveQuota) : LiveQuota :=
  { quota with tracker := { quota.tracker with coolingUntilMs := ∅ } }

/-- Deadlines are no part of a read. -/
theorem currentSaved_uncooled (quota : LiveQuota) (faults : Faults) (name : String)
    (account : TrackedAccount) :
    quota.uncooled.currentSaved faults name account =
      ((quota.currentSaved faults name account).1,
        (quota.currentSaved faults name account).2.uncooled) := by
  have hstore : quota.uncooled.tracker.store = quota.tracker.store := rfl
  have hload : quota.uncooled.loadSaved faults name account =
      quota.loadSaved faults name account := rfl
  rw [currentSaved, currentSaved, hstore, hload]
  split
  · split
    · rfl
    · rfl
  · rfl

theorem estimate_uncooled (quota : LiveQuota) (faults : Faults) (upstream : String)
    (nowMs : UInt64) :
    quota.uncooled.estimate faults upstream nowMs =
      ((quota.estimate faults upstream nowMs).1,
        (quota.estimate faults upstream nowMs).2.uncooled) := by
  rw [estimate, estimate]
  have haccounts : quota.uncooled.tracker.accounts = quota.tracker.accounts := rfl
  rw [haccounts]
  split
  · rw [currentSaved_uncooled]
  · rfl

/-- The picture of an upstream that is not cooling does not depend on the deadlines. -/
theorem quotaState_uncooled (faults : Faults) (h : quota.isCooling upstream nowMs = false) :
    (quota.uncooled.quotaState faults upstream nowMs).1 =
      (quota.quotaState faults upstream nowMs).1 := by
  have hcooling := (quota.readOnly_estimate faults upstream nowMs).isCooling upstream nowMs
  rw [h] at hcooling
  rw [quotaState, quotaState, estimate_uncooled]
  dsimp only
  rw [hcooling]
  rfl

/-- How the refusals of an upstream bear on its account. -/
structure Cools (quota : LiveQuota) (upstream : String) (deadlines : List UInt64) : Prop where
  /-- The account is exhausted until every deadline has passed. -/
  out : ∀ faults nowMs, (∃ deadline ∈ deadlines, nowMs < deadline) →
    (quota.quotaState faults upstream nowMs).1.exhausted = true
  /-- No quota-first decision has the account, whichever candidates carry its picture. -/
  unrouted : ∀ faults nowMs, (∃ deadline ∈ deadlines, nowMs < deadline) →
    ∀ (unicode : Unicode) (router : Router) (request : ChatRequest) (candidates : List Candidate)
      (lastUsed : Option UpstreamModel) (decision : Decision),
      (∀ candidate ∈ candidates, candidate.target.upstream.name = upstream →
        candidate.quota = (quota.quotaState faults upstream nowMs).1) →
      router.routeQuotaFirst unicode request candidates lastUsed = .ok decision →
      ∀ target ∈ decision.targets, target.upstream.name ≠ upstream
  /-- Once every deadline has passed, the picture is that of a tracker where nothing is cooling. -/
  back : ∀ faults nowMs, (∀ deadline ∈ deadlines, deadline ≤ nowMs) →
    quota.isCooling upstream nowMs = false ∧
      (quota.quotaState faults upstream nowMs).1 =
        (quota.uncooled.quotaState faults upstream nowMs).1

/-- A quota-first decision has no account whose candidates are all exhausted. -/
theorem not_mem_targets_of_exhausted {unicode : Unicode} {router : Router} {request : ChatRequest}
    {candidates : List Candidate} {lastUsed : Option UpstreamModel} {decision : Decision}
    (hdecision : router.routeQuotaFirst unicode request candidates lastUsed = .ok decision)
    (hexhausted : ∀ candidate ∈ candidates, candidate.target.upstream.name = upstream →
      candidate.quota.exhausted = true) :
    ∀ target ∈ decision.targets, target.upstream.name ≠ upstream := by
  rcases Router.routeQuotaFirst_cases unicode router request candidates lastUsed with
    ⟨⟨error, herror⟩, -⟩ | ⟨decision', hdecision', -, htargets⟩
  · rw [herror] at hdecision
    nomatch hdecision
  · rw [hdecision'] at hdecision
    obtain rfl := Outcome.ok.inj hdecision
    intro target htarget hname
    rw [htargets, List.mem_map] at htarget
    obtain ⟨entry, hentry, rfl⟩ := htarget
    obtain ⟨haccount, ⟨-, -, hopen⟩, -⟩ := Router.mem_entries.mp (Router.mem_tried.mp hentry)
    have hmem := (mem_of_supplied (Router.accountAt_eq_some.mp haccount).2).1
    rw [hexhausted entry.candidate hmem hname] at hopen
    nomatch hopen

/-- **A refused account stays out until its cooldown ends.** In every run of a tracker, each
upstream is out until the deadline of every refusal of it has passed, and then cooling alone keeps
it out no longer. -/
theorem run_cools (serde : Serde) (tracker : QuotaTracker) (directory : QuotaDirectory)
    (ops : List (Faults × QuotaOp)) (upstream : String) :
    ((fresh tracker directory).run serde ops).Cools upstream (deadlines upstream ops) := by
  have hfresh : ∀ nowMs, (fresh tracker directory).isCooling upstream nowMs = false := fun _ ↦ rfl
  have hcooling : ∀ nowMs, (∃ deadline ∈ deadlines upstream ops, nowMs < deadline) →
      ((fresh tracker directory).run serde ops).isCooling upstream nowMs = true :=
    fun nowMs h ↦ (isCooling_run _ ops).mpr (Or.inr h)
  refine ⟨fun faults nowMs h ↦ exhausted_of_isCooling faults (hcooling nowMs h),
    fun faults nowMs h unicode router request candidates lastUsed decision hquota hdecision ↦ ?_,
    fun faults nowMs h ↦ ?_⟩
  · refine not_mem_targets_of_exhausted hdecision fun candidate hcandidate hname ↦ ?_
    rw [hquota candidate hcandidate hname]
    exact exhausted_of_isCooling faults (hcooling nowMs h)
  · have hcooled : ((fresh tracker directory).run serde ops).isCooling upstream nowMs = false := by
      rw [Bool.eq_false_iff]
      intro hstill
      rcases (isCooling_run _ ops).mp hstill with hstill | ⟨deadline, hmem, hlt⟩
      · rw [hfresh] at hstill
        nomatch hstill
      · exact absurd hlt (UInt64.not_lt.mpr (h deadline hmem))
    exact ⟨hcooled, (quotaState_uncooled faults hcooled).symm⟩

end LiveQuota

end TokenStation
