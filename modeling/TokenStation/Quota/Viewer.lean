import TokenStation.Quota.Cooldown
import TokenStation.Quota.Settlement

/-!
# The quota viewer

The viewer's entry for an upstream and the router's picture of it are put together by two functions,
in different orders. Both read the same windows (`estimate_binding`) and the same headroom, and a
read that fails the store fails it for both, so an entry agrees with the picture that the router
would get at the moment the entry is made (`snapshot_agrees`).
-/

namespace TokenStation

open Library

/-! ## The binding window -/

/-- The first least element of a mapped list is that of the list. -/
theorem argmin_map {α β : Type} (f : β → ℕ) (g : α → β) (l : List α) :
    (l.map g).argmin f = (l.argmin fun a ↦ f (g a)).map g := by
  induction l with
  | nil => rfl
  | cons a l ih =>
    rw [List.map_cons, List.argmin_cons, List.argmin_cons, ih]
    rcases l.argmin fun a ↦ f (g a) with - | b
    · rfl
    · change (if f (g b) < f (g a) then some (g b) else some (g a)) =
        (if f (g b) < f (g a) then some b else some a).map g
      split <;> rfl

/-- The ledger's picture is bound by the windows that the viewer shows. -/
theorem AccountLedger.bindingOf_windowSnapshots (ledger : AccountLedger) (nowMs : UInt64) :
    bindingOf (ledger.windowSnapshots nowMs) =
      ((ledger.quotaState nowMs).reset, (ledger.quotaState nowMs).exhausted) := by
  rw [bindingOf, windowSnapshots, argmin_map, Option.map_map, List.any_map]
  rfl

/-- The binding window is the soonest to close. -/
theorem bindingOf_eq_some {windows : List WindowSnapshot} {reset : ResetWindow}
    (h : (bindingOf windows).1 = some reset) :
    ∃ w ∈ windows, reset = ⟨w.msUntilReset.toNat, w.remainingPermille⟩ ∧
      ∀ w' ∈ windows, w.msUntilReset ≤ w'.msUntilReset := by
  rw [bindingOf, Option.map_eq_some_iff] at h
  obtain ⟨w, hw, rfl⟩ := h
  refine ⟨w, List.argmin_mem hw, rfl, fun w' hw' ↦ ?_⟩
  have hle : w.msUntilReset.toNat ≤ w'.msUntilReset.toNat :=
    List.le_of_mem_argmin (f := fun w ↦ w.msUntilReset.toNat) hw' hw
  exact UInt64.le_iff_toNat_le.mpr hle

theorem bindingOf_eq_none {windows : List WindowSnapshot} :
    (bindingOf windows).1 = none ↔ windows = [] := by
  rw [bindingOf, Option.map_eq_none_iff, List.argmin_eq_none]

/-- The viewer's entry and the router's picture are of the same account. -/
structure QuotaAccountSnapshot.Agrees (entry : QuotaAccountSnapshot) (state : QuotaState) :
    Prop where
  exhausted : entry.exhausted = state.exhausted
  rateHeadroomPermille : entry.rateHeadroomPermille = state.rateHeadroomPermille
  ratePressured : entry.ratePressured = state.ratePressured
  /-- The router's window is the soonest to close of those shown. -/
  reset : ∀ reset, state.reset = some reset →
    ∃ w ∈ entry.windows, reset = ⟨w.msUntilReset.toNat, w.remainingPermille⟩ ∧
      ∀ w' ∈ entry.windows, w.msUntilReset ≤ w'.msUntilReset
  unwindowed : state.reset = none ↔ entry.windows = []

namespace LiveQuota

variable {serde : Serde} {quota before after : LiveQuota} {faults : Faults} {upstream name : String}
  {nowMs : UInt64} {account : TrackedAccount}

/-! ## Reading twice -/

theorem ReadOnly.loadSaved (h : ReadOnly before after) (faults : Faults) (name : String)
    (account : TrackedAccount) :
    after.loadSaved faults name account = before.loadSaved faults name account := by
  rw [LiveQuota.loadSaved, LiveQuota.loadSaved, h.table]

/-- What a read gives does not depend on whether the store has failed before. -/
theorem ReadOnly.currentSaved_fst (h : ReadOnly before after) (faults : Faults) (name : String)
    (account : TrackedAccount) :
    (after.currentSaved faults name account).1 = (before.currentSaved faults name account).1 := by
  rw [currentSaved, currentSaved, h.store, h.loadSaved]
  split
  · split
    · rfl
    · rfl
  · rfl

/-- Once failed, a tracker stays as it is. -/
theorem counting_persistenceError (h : quota.tracker.persistenceFailed = true) :
    quota.counting (fun tracker directory ↦ tracker.persistenceError directory faults) = quota := by
  rw [counting, QuotaTracker.persistenceError, if_pos h]

/-- A read fails the store exactly when the store was asked and did not have the account. -/
theorem failed_currentSaved (quota : LiveQuota) (faults : Faults) (name : String)
    (account : TrackedAccount) :
    (quota.currentSaved faults name account).2.tracker.persistenceFailed =
      (quota.tracker.persistenceFailed ||
        quota.tracker.store && (quota.loadSaved faults name account).isNone) := by
  rw [currentSaved]
  rcases hstore : quota.tracker.store with - | -
  · rw [if_neg (by simp), Bool.false_and, Bool.or_false]
  · rw [if_pos rfl]
    rcases hload : quota.loadSaved faults name account with - | saved
    · dsimp only
      rw [counting, QuotaTracker.persistenceError]
      rcases hfailed : quota.tracker.persistenceFailed with - | -
      · rw [if_neg (by simp)]
        rfl
      · rw [if_pos rfl]
        exact hfailed
    · simp

/-- A second read gives the same and changes nothing more. -/
theorem currentSaved_again :
    (quota.currentSaved faults name account).2.currentSaved faults name account =
      quota.currentSaved faults name account := by
  have hread := quota.readOnly_currentSaved faults name account
  have hfst := hread.currentSaved_fst faults name account
  have hfailed := failed_currentSaved quota faults name account
  refine Prod.ext hfst ?_
  generalize hq : (quota.currentSaved faults name account).2 = read at *
  rw [currentSaved, hread.store, hread.loadSaved]
  rcases hstore : quota.tracker.store with - | -
  · rw [if_neg (by simp)]
  · rw [if_pos rfl]
    rcases hload : quota.loadSaved faults name account with - | saved
    · rw [hstore, hload] at hfailed
      exact counting_persistenceError (by simpa using hfailed)
    · rfl

/-! ## One entry -/

/-- The picture before load and refusals: what the viewer shows binds it. -/
theorem binding_shownWindows (quota : LiveQuota) (faults : Faults) (upstream : String)
    (nowMs : UInt64) :
    bindingOf (quota.shownWindows faults upstream nowMs).1.1 =
      (((quota.estimate faults upstream nowMs).1.withReading
          (quota.freshAuthoritative upstream nowMs)).reset,
        ((quota.estimate faults upstream nowMs).1.withReading
          (quota.freshAuthoritative upstream nowMs)).exhausted) := by
  rw [shownWindows, estimate]
  rcases quota.freshAuthoritative upstream nowMs with - | windows
  · rcases quota.tracker.accounts.lookup upstream with - | account
    · rfl
    · exact AccountLedger.bindingOf_windowSnapshots _ nowMs
  · rfl

/-- The headroom is read after the windows, from the same account. -/
theorem ledgerHeadroom_shownWindows (quota : LiveQuota) (faults : Faults) (upstream : String)
    (nowMs : UInt64) :
    (quota.shownWindows faults upstream nowMs).2.ledgerHeadroom faults upstream nowMs =
      ((quota.estimate faults upstream nowMs).1.rateHeadroomPermille,
        (quota.estimate faults upstream nowMs).2) := by
  rw [shownWindows, estimate]
  rcases haccount : quota.tracker.accounts.lookup upstream with - | account
  · rcases quota.freshAuthoritative upstream nowMs with - | windows
    · rw [ledgerHeadroom, haccount]
    · rw [ledgerHeadroom, haccount]
  · rcases quota.freshAuthoritative upstream nowMs with - | windows
    · -- the windows were read from the store already
      have hread := (quota.readOnly_currentSaved faults upstream account).accounts
      dsimp only
      rw [ledgerHeadroom, hread, haccount]
      dsimp only
      rw [currentSaved_again]
      rfl
    · rw [ledgerHeadroom, haccount]
      rfl

/-- The local estimate is pressured by its headroom. -/
theorem estimate_ratePressured (quota : LiveQuota) (faults : Faults) (upstream : String)
    (nowMs : UInt64) :
    (quota.estimate faults upstream nowMs).1.ratePressured =
      decide ((quota.estimate faults upstream nowMs).1.rateHeadroomPermille ≤
        ratePressurePermille) := by
  rw [estimate]
  split
  · rfl
  · rfl

/-- A history that is available is shown as unavailable only while the account is paused. -/
theorem shownHistory_eq_unavailable
    (h : ∀ account, quota.tracker.accounts.lookup upstream = some account →
      account.history ≠ .unavailable) :
    quota.shownHistory upstream = .unavailable ↔ quota.paused upstream = true := by
  rw [shownHistory]
  split
  next hpaused => simp [hpaused]
  next hpaused =>
    refine iff_of_false ?_ hpaused
    rcases haccount : quota.tracker.accounts.lookup upstream with - | account
    · simp
    · exact h account haccount

/-- **One entry.** The viewer's entry agrees with the router's picture of the same state. -/
theorem snapshotEntry_agrees (quota : LiveQuota) (faults : Faults) (upstream : String)
    (nowMs : UInt64)
    (havailable : ∀ account, quota.tracker.accounts.lookup upstream = some account →
      account.history ≠ .unavailable) :
    (quota.snapshotEntry faults upstream nowMs).1.Agrees
      (quota.quotaState faults upstream nowMs).1 := by
  have hread := quota.readOnly_estimate faults upstream nowMs
  have hbinding := quota.binding_shownWindows faults upstream nowMs
  have hheadroom := quota.ledgerHeadroom_shownWindows faults upstream nowMs
  have hpressured := quota.estimate_ratePressured faults upstream nowMs
  have hfresh := hread.freshAuthoritative upstream nowMs
  have hunknown := readOnly_unknownUsage (quota.estimate faults upstream nowMs).2 faults upstream
  have hhistory : (quota.estimate faults upstream nowMs).2.shownHistory upstream = .unavailable ↔
      (quota.estimate faults upstream nowMs).2.paused upstream = true := by
    refine shownHistory_eq_unavailable fun account haccount ↦ ?_
    rw [hread.accounts] at haccount
    exact havailable account haccount
  rw [snapshotEntry, quotaState]
  dsimp only
  rw [hheadroom, hfresh]
  refine ⟨?_, ?_, ?_, fun reset h ↦ ?_, ?_⟩
  · dsimp only
    rw [hbinding, hunknown.isCooling, Bool.eq_iff_iff]
    simp only [Bool.or_eq_true, decide_eq_true_eq, hhistory]
    split
    next h => tauto
    next h => tauto
  · dsimp only
    rw [QuotaState.withReading_headroom]
  · -- pressure before the load in flight is pressure after it
    have hle := applyInflightPenalty_le
      (quota.estimate faults upstream nowMs).1.rateHeadroomPermille
      ((quota.estimate faults upstream nowMs).2.tracker.leases.inflight nowMs upstream)
      ((quota.estimate faults upstream nowMs).2.rateLimit upstream)
    dsimp only
    rw [QuotaState.withReading_headroom, QuotaState.withReading_pressured, hpressured,
      Bool.eq_iff_iff]
    simp only [Bool.or_eq_true, decide_eq_true_eq]
    exact ⟨Or.inr, fun h ↦ h.elim (fun h ↦ hle.trans h) id⟩
  · exact bindingOf_eq_some ((congrArg Prod.fst hbinding).trans h)
  · dsimp only
    rw [← bindingOf_eq_none, hbinding]

/-! ## Reachable states -/

end LiveQuota

/-- Every account has a history. -/
def QuotaTracker.Available (tracker : QuotaTracker) : Prop :=
  ∀ upstream account, tracker.accounts.lookup upstream = some account →
    account.history ≠ .unavailable

theorem QuotaStore.prepare_available {serde : Serde} {accounts accounts' : QuotaAccounts}
    {name : String} {account account' : TrackedAccount}
    (h : prepare serde accounts name account = .ok (accounts', account'))
    (havailable : account.history ≠ .unavailable) : account'.history ≠ .unavailable := by
  rw [prepare] at h
  split at h
  · cases h
  · obtain ⟨-, rfl⟩ := Prod.mk.inj (Except.ok.inj h)
    dsimp only
    split
    · exact QuotaHistory.noConfusion
    · exact QuotaHistory.noConfusion
  · dsimp only at h
    split at h
    · cases h
    · obtain ⟨-, rfl⟩ := Prod.mk.inj (Except.ok.inj h)
      split
      · exact QuotaHistory.noConfusion
      · exact havailable

theorem QuotaStore.prepareAll_available {serde : Serde} {plans : List (Σ _ : String, QuotaPlan)}
    {accounts accounts' : QuotaAccounts} {tracked : AList fun _ : String ↦ TrackedAccount}
    (h : prepareAll serde plans accounts = .ok (accounts', tracked)) {upstream : String}
    {account : TrackedAccount} (hlookup : tracked.lookup upstream = some account) :
    account.history ≠ .unavailable := by
  induction plans generalizing accounts accounts' tracked with
  | nil =>
    obtain ⟨-, rfl⟩ := Prod.mk.inj (Except.ok.inj h)
    cases hlookup
  | cons entry plans ih =>
    obtain ⟨name, plan⟩ := entry
    rw [prepareAll] at h
    split at h
    · cases h
    next between prepared hprepare =>
      split at h
      · cases h
      next last rest hrest =>
        obtain ⟨-, rfl⟩ := Prod.mk.inj (Except.ok.inj h)
        by_cases hname : upstream = name
        · rw [hname, AList.lookup_insert] at hlookup
          obtain rfl := Option.some.inj hlookup
          exact prepare_available hprepare QuotaHistory.noConfusion
        · rw [AList.lookup_insert_ne hname] at hlookup
          exact ih hrest hlookup

namespace QuotaTracker

theorem persistent_available {serde : Serde} {plans : AList fun _ : String ↦ QuotaPlan}
    {directory directory' : QuotaDirectory} {faults : Faults} {tracker : QuotaTracker}
    (h : persistent serde plans directory faults = .ok (tracker, directory')) :
    tracker.Available := by
  intro upstream account hlookup
  rw [persistent] at h
  split at h
  · cases h
  · split at h
    · obtain ⟨rfl, -⟩ := Prod.mk.inj (Except.ok.inj h)
      cases hlookup
    · split at h
      · cases h
      · split at h
        · cases h
        · split at h
          · cases h
          next hprepare =>
            obtain ⟨rfl, -⟩ := Prod.mk.inj (Except.ok.inj h)
            exact QuotaStore.prepareAll_available hprepare hlookup

variable {serde : Serde} {tracker : QuotaTracker} {directory : QuotaDirectory} {faults : Faults}

theorem persistenceError_accounts :
    (tracker.persistenceError directory faults).1.accounts = tracker.accounts := by
  rw [persistenceError]
  split
  · rfl
  · rfl

theorem Available.setSaved (h : tracker.Available) {upstream : String} {account : TrackedAccount}
    (hlookup : tracker.accounts.lookup upstream = some account) (saved : SavedAccount) :
    (tracker.setSaved upstream account saved).Available := by
  intro name other hother
  rw [QuotaTracker.setSaved] at hother
  dsimp only at hother
  by_cases hname : name = upstream
  · rw [hname, AList.lookup_insert] at hother
    obtain rfl := Option.some.inj hother
    exact h upstream account hlookup
  · rw [AList.lookup_insert_ne hname] at hother
    exact h name other hother

theorem Available.recordConsumption (h : tracker.Available) (upstream : String)
    (requestId : Option String) (nowMs : UInt64) (usage : Option Usage) :
    (tracker.recordConsumption serde directory upstream requestId nowMs usage
      faults).1.Available := by
  rw [QuotaTracker.recordConsumption]
  split
  · exact h
  next account haccount =>
    dsimp only
    split
    · split
      · exact h.setSaved haccount _
      · have haccounts : (tracker.persistenceError directory faults).1.accounts =
            tracker.accounts := persistenceError_accounts
        refine Available.setSaved (fun name other hother ↦ ?_) ?_ _
        · exact h name other (haccounts ▸ hother)
        · rw [haccounts, haccount]
    · exact h.setSaved haccount _

theorem Available.recordSettled (h : tracker.Available) (upstream requestId : String)
    (nowMs : UInt64) (usage : Option Usage) (completed : Bool) :
    (tracker.recordSettled serde directory upstream requestId nowMs usage completed
      faults).1.Available := by
  rw [QuotaTracker.recordSettled]
  split
  · split
    · intro name account haccount
      rw [persistenceError_accounts] at haccount
      exact h name account haccount
    · exact h.recordConsumption upstream _ nowMs usage
  · exact h

end QuotaTracker

namespace LiveQuota

variable {serde : Serde} {quota before after : LiveQuota}

/-- The trackers of the plans of a list have histories. -/
theorem available_new (serde : Serde) (plans : AList fun _ : String ↦ QuotaPlan)
    (directory : QuotaDirectory) : (new serde plans directory).tracker.Available := by
  intro upstream account hlookup
  have hentries : ∀ entries : List (Σ _ : String, QuotaPlan),
      (entries.foldr (fun entry accounts ↦
        accounts.insert entry.1 (TrackedAccount.fromPlan serde entry.2)) ∅ :
          AList fun _ : String ↦ TrackedAccount).lookup upstream = some account →
        account.history ≠ .unavailable := by
    intro entries
    induction entries with
    | nil => intro h; nomatch h
    | cons entry entries ih =>
      intro h
      rw [List.foldr_cons] at h
      by_cases hname : upstream = entry.1
      · rw [hname, AList.lookup_insert] at h
        obtain rfl := Option.some.inj h
        exact QuotaHistory.noConfusion
      · rw [AList.lookup_insert_ne hname] at h
        exact ih h
  exact hentries plans.entries hlookup

theorem ReadOnly.available (h : ReadOnly before after) (havailable : before.tracker.Available) :
    after.tracker.Available := by
  intro name account haccount
  rw [h.accounts] at haccount
  exact havailable name account haccount

theorem available_step (havailable : quota.tracker.Available) (faults : Faults) (op : QuotaOp) :
    (quota.step serde faults op).tracker.Available := by
  cases op with
  | record upstream nowMs usage =>
    exact QuotaTracker.Available.recordConsumption havailable upstream none nowMs (some usage)
  | recordSettled upstream requestId nowMs usage completed =>
    exact QuotaTracker.Available.recordSettled havailable upstream requestId nowMs usage completed
  | quotaState upstream nowMs =>
    exact (quota.readOnly_estimate faults upstream nowMs).available havailable
  | snapshot upstreams nowMs =>
    exact (quota.readOnly_snapshot faults nowMs upstreams).available havailable
  | _ => exact havailable

theorem Reachable.available (h : Reachable serde quota) : quota.tracker.Available := by
  induction h with
  | new plans directory => exact available_new serde plans directory
  | persistent h => exact QuotaTracker.persistent_available h
  | step _ faults op ih => exact available_step ih faults op

/-! ## A whole snapshot -/

theorem length_snapshot (quota : LiveQuota) (faults : Faults) (nowMs : UInt64)
    (upstreams : List String) :
    (quota.snapshot faults nowMs upstreams).1.length = upstreams.length := by
  induction upstreams generalizing quota with
  | nil => rfl
  | cons upstream upstreams ih =>
    rw [snapshot, List.length_cons, List.length_cons, ih]

/-- The entries are made one after the other. -/
theorem snapshot_append (quota : LiveQuota) (faults : Faults) (nowMs : UInt64)
    (upstreams more : List String) :
    (quota.snapshot faults nowMs (upstreams ++ more)).1 =
      (quota.snapshot faults nowMs upstreams).1 ++
        ((quota.snapshot faults nowMs upstreams).2.snapshot faults nowMs more).1 := by
  induction upstreams generalizing quota with
  | nil => rfl
  | cons upstream upstreams ih =>
    rw [List.cons_append, snapshot, snapshot]
    dsimp only
    rw [ih, List.cons_append]

/-- The router's picture depends on a tracker's store only through what reads give and through
whether it has failed. -/
theorem quotaState_congr (h : ReadOnly before after)
    (hfailed : after.tracker.persistenceFailed = before.tracker.persistenceFailed)
    (faults : Faults) (upstream : String) (nowMs : UInt64) :
    (after.quotaState faults upstream nowMs).1 = (before.quotaState faults upstream nowMs).1 := by
  have hread := before.readOnly_estimate faults upstream nowMs
  have hread' := after.readOnly_estimate faults upstream nowMs
  have hestimate : (after.estimate faults upstream nowMs).1 =
      (before.estimate faults upstream nowMs).1 := by
    rw [estimate, estimate, h.accounts]
    split
    · dsimp only
      rw [h.currentSaved_fst]
    · rfl
  have hpaused : (after.estimate faults upstream nowMs).2.paused upstream =
      (before.estimate faults upstream nowMs).2.paused upstream := by
    rw [paused, paused, hread.accounts, hread'.accounts, h.accounts, estimate, estimate, h.accounts]
    split
    · dsimp only
      rw [failed_currentSaved, failed_currentSaved, hfailed, h.store, h.loadSaved]
    · dsimp only
      rw [hfailed]
  have hleases : (after.estimate faults upstream nowMs).2.tracker.leases =
      (before.estimate faults upstream nowMs).2.tracker.leases := by
    rw [hread.leases, hread'.leases, h.leases]
  rw [quotaState, quotaState]
  dsimp only
  rw [hestimate, hpaused, hleases, hread'.freshAuthoritative, hread.freshAuthoritative,
    h.freshAuthoritative, hread'.isCooling, hread.isCooling, h.isCooling, hread'.rateLimit,
    hread.rateLimit, h.rateLimit]

/-- **The viewer and the router see the same account.** Each entry of a snapshot agrees with the
picture that the router gets in the state the entry is made in. That is the state before the
snapshot, unless the store fails on an entry before. -/
theorem snapshot_agrees (serde : Serde) (quota : LiveQuota) (hreachable : Reachable serde quota)
    (faults : Faults) (nowMs : UInt64) (earlier : List String) (upstream : String)
    (later : List String) :
    ∃ entry, (quota.snapshot faults nowMs (earlier ++ upstream :: later)).1[earlier.length]? =
        some entry ∧ entry.upstream = upstream ∧
      entry.Agrees ((quota.snapshot faults nowMs earlier).2.quotaState faults upstream nowMs).1 ∧
      ((quota.snapshot faults nowMs earlier).2.tracker.persistenceFailed =
          quota.tracker.persistenceFailed →
        entry.Agrees (quota.quotaState faults upstream nowMs).1) := by
  have hread := quota.readOnly_snapshot faults nowMs earlier
  have havailable := hread.available hreachable.available
  have hagrees := snapshotEntry_agrees (quota.snapshot faults nowMs earlier).2 faults upstream nowMs
    (havailable upstream)
  refine ⟨_, ?_, rfl, hagrees, fun hfailed ↦ ?_⟩
  · rw [snapshot_append, List.getElem?_append_right (length_snapshot quota faults nowMs earlier).le,
      length_snapshot, Nat.sub_self]
    rfl
  · rw [← quotaState_congr hread hfailed]
    exact hagrees

/-- A tracker with one account that was refused while a request was in flight. -/
def refusedQuota : LiveQuota :=
  (((new tokenSerde (AList.singleton "a" tokenPlan) emptyDirectory.directory).step tokenSerde
    noFaults (.grant "a" 1000)).step tokenSerde noFaults (.noteRateLimited "a" 2000 30000))

theorem snapshot_agrees_refused :
    ∃ entry, (refusedQuota.snapshot noFaults 3000 ["b", "a"]).1[1]? = some entry ∧
      entry.Agrees (refusedQuota.quotaState noFaults "a" 3000).1 := by
  have hreachable : Reachable tokenSerde refusedQuota :=
    .step (.step (.new (AList.singleton "a" tokenPlan) emptyDirectory.directory) noFaults _)
      noFaults _
  obtain ⟨entry, hentry, -, -, hagrees⟩ :=
    snapshot_agrees tokenSerde refusedQuota hreachable noFaults 3000 ["b"] "a" []
  exact ⟨entry, hentry, hagrees rfl⟩

end LiveQuota

end TokenStation
