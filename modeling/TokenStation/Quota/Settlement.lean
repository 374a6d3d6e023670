import Mathlib.Data.List.Induction
import TokenStation.Quota.Tracker

/-!
# Settlements from several gateways

A run is an interleaving of gateways opening a shared directory and settling requests on it. As long
as the store fails no gateway, the row of an account is a function of the settlements on that
account alone (`IsRow`): the ledger that records the first settlement of each receipt, the receipts
that are still remembered, and the count of first settlements without usage. One settlement keeps
that (`IsRow.record`), and so does a run (`rowInvariant_run`). The order of the first settlements
does not matter, since recording commutes.
-/

namespace TokenStation

open Library

/-! ## Runs -/

/-- What a gateway does to the shared directory. -/
inductive QuotaEvent where
  | opened (plans : AList fun _ : String ↦ QuotaPlan) (faults : Faults)
  | settled (gateway : ℕ) (upstream requestId : String) (nowMs : UInt64) (usage : Option Usage)
      (completed : Bool) (faults : Faults)

/-- The directory and the trackers opened on it so far. -/
structure QuotaSystem where
  directory : QuotaDirectory
  trackers : List QuotaTracker

namespace QuotaSystem

variable (serde : Serde)

/-- One event; `none` for a settlement by a gateway that does not exist. A directory that refuses
to be opened leaves no tracker behind. -/
def step (system : QuotaSystem) : QuotaEvent → Option QuotaSystem
  | .opened plans faults =>
    match QuotaTracker.persistent serde plans system.directory faults with
    | .error _ => some system
    | .ok (tracker, directory) => some ⟨directory, system.trackers ++ [tracker]⟩
  | .settled gateway upstream requestId nowMs usage completed faults =>
    system.trackers[gateway]?.map fun tracker ↦
      let after := tracker.recordSettled serde system.directory upstream requestId nowMs usage
        completed faults
      ⟨after.2, system.trackers.set gateway after.1⟩

def run (system : QuotaSystem) (events : List QuotaEvent) : Option QuotaSystem :=
  events.foldlM (step serde) system

end QuotaSystem

/-- A settlement that counts: its receipt, its time and the usage the provider reported. -/
structure Settlement where
  requestId : String
  nowMs : UInt64
  usage : Option Usage
  deriving DecidableEq

/-- The settlement that an event makes on an account, if it is completed or carries usage. -/
def QuotaEvent.settlement? (account : String) : QuotaEvent → Option Settlement
  | .opened _ _ => none
  | .settled _ upstream requestId nowMs usage completed _ =>
    if upstream = account ∧ (completed || usage.isSome) then some ⟨requestId, nowMs, usage⟩
    else none

/-- The settlements on an account, in the order they committed. -/
def settlements (account : String) (events : List QuotaEvent) : List Settlement :=
  events.filterMap (QuotaEvent.settlement? account)

/-- The first settlement of every receipt. -/
def firstSettlements (l : List Settlement) : List Settlement := firsts Settlement.requestId [] l

/-- What a plan charges for a settlement. -/
def QuotaPlan.charge (plan : QuotaPlan) (settlement : Settlement) : UInt64 :=
  match plan.unit, settlement.usage with
  | .requests, _ => 1
  | .tokens, none => 0
  | .tokens, some usage => Word.satAdd usage.inputTokens usage.outputTokens

theorem TrackedAccount.consumption_eq_charge {account : TrackedAccount} {plan : QuotaPlan}
    (h : account.unit = plan.unit) (settlement : Settlement) :
    account.consumption settlement.usage = plan.charge settlement := by
  rw [consumption, QuotaPlan.charge, h]
  cases hunit : plan.unit with
  | requests => rfl
  | tokens =>
    cases settlement.usage with
    | none => rfl
    | some usage => simp [amount, h, hunit]

/-- What a settlement records in a plan's ledger. -/
def QuotaPlan.entry (plan : QuotaPlan) (settlement : Settlement) : UInt64 × UInt64 :=
  (settlement.nowMs, plan.charge settlement)

/-- The fresh ledger of a plan. -/
def QuotaPlan.ledger (plan : QuotaPlan) : AccountLedger :=
  AccountLedger.ofPlan (plan.windows.map fun spec ↦ (spec.lenMs, spec.limit)) plan.rateLimitPerMin

/-! ## The row of an account -/

/-- The row that a list of settlements leaves. -/
structure IsRow (plan : QuotaPlan) (l : List Settlement) (saved : SavedAccount) : Prop where
  ledger : saved.ledger = plan.ledger.recordAll ((firstSettlements l).map plan.entry)
  recentRequests : saved.recentRequests =
    keepLast maxSettlementIds ((firstSettlements l).map Settlement.requestId)
  unknownUsageRequests : saved.unknownUsageRequests.toNat =
    min (2 ^ 64 - 1) ((firstSettlements l).countP fun s ↦ s.usage.isNone)

theorem isRow_fromPlan (serde : Serde) (plan : QuotaPlan) (changed : Bool) :
    IsRow plan [] { (TrackedAccount.fromPlan serde plan).saved with
      planChangedBaseline := changed } where
  ledger := by
    simp [TrackedAccount.fromPlan, QuotaPlan.ledger, AccountLedger.ofPlan, firstSettlements, firsts,
      AccountLedger.recordAll, Function.comp_def]
  recentRequests := rfl
  unknownUsageRequests := rfl

/-- **Step.** Recording one more settlement in the row of a list gives the row of the longer list,
if a receipt that returns is still remembered. -/
theorem IsRow.record {plan : QuotaPlan} {l : List Settlement} {saved : SavedAccount}
    (hrow : IsRow plan l saved) {s : Settlement}
    (hwindow : WithinWindow Settlement.requestId maxSettlementIds (l ++ [s])) :
    IsRow plan (l ++ [s])
      (saved.record (some s.requestId) s.nowMs (plan.charge s) s.usage.isNone) := by
  obtain ⟨hledger, hrecent, hunknown⟩ := hrow
  have hfirsts : firstSettlements (l ++ [s]) =
      if s.requestId ∈ l.map Settlement.requestId then firstSettlements l
      else firstSettlements l ++ [s] := firsts_concat Settlement.requestId l s
  by_cases hseen : s.requestId ∈ l.map Settlement.requestId
  · -- a receipt that returns is in the memory, so nothing is counted
    have hremembered : s.requestId ∈ saved.recentRequests := by
      rw [hrecent]
      exact mem_keepLast_firsts Settlement.requestId hwindow hseen
    rw [if_pos hseen] at hfirsts
    rw [SavedAccount.record, if_pos hremembered]
    exact ⟨by rw [hfirsts, hledger], by rw [hfirsts, hrecent], by rw [hfirsts, hunknown]⟩
  · have hforgotten : s.requestId ∉ saved.recentRequests := by
      intro hmem
      rw [hrecent] at hmem
      have hfirst := List.mem_of_mem_drop hmem
      obtain ⟨t, ht, hid⟩ := List.mem_map.mp hfirst
      exact hseen (List.mem_map.mpr ⟨t, (firsts_sublist _ _ l).mem ht, hid⟩)
    rw [if_neg hseen] at hfirsts
    rw [SavedAccount.record, if_neg hforgotten]
    refine ⟨?_, ?_, ?_⟩
    · rw [hfirsts, List.map_append, AccountLedger.recordAll_append, ← hledger]
      rfl
    · have htrim := keepLast_concat maxSettlementIds
        ((firstSettlements l).map Settlement.requestId) s.requestId
      rw [← hrecent] at htrim
      rw [hfirsts, List.map_append, List.map_singleton, ← htrim, SavedAccount.count_recentRequests]
    · rw [hfirsts, List.countP_append, List.countP_singleton, SavedAccount.count,
        Word.toNat_satAdd, hunknown]
      have hone : (if s.usage.isNone then (1 : UInt64) else 0).toNat =
          if s.usage.isNone then 1 else 0 := by
        split <;> rfl
      rw [hone]
      omega

/-! ## What the operations do to the table -/

namespace QuotaStore

theorem load_eq_none {accounts : QuotaAccounts} {name plan : String} {expected : AccountLedger}
    (h : load accounts name plan expected = .ok none) : accounts.lookup (name, plan) = none := by
  rw [load] at h
  split at h
  next hrow => exact hrow
  next =>
    split at h
    · nomatch h
    · split at h
      · nomatch h
      next saved _ =>
        cases hvalid : saved.validate expected <;> rw [hvalid] at h <;> nomatch h

theorem load_eq_some {accounts : QuotaAccounts} {name plan : String} {expected : AccountLedger}
    {saved : SavedAccount} (h : load accounts name plan expected = .ok (some saved)) :
    ∃ row, accounts.lookup (name, plan) = some row ∧ row.parsed = .ok saved := by
  rw [load] at h
  split at h
  · nomatch h
  next row hrow =>
    split at h
    · nomatch h
    · split at h
      · nomatch h
      next parsed hparsed =>
        refine ⟨row, hrow, ?_⟩
        cases hvalid : parsed.validate expected with
        | error error => rw [hvalid] at h; nomatch h
        | ok _ =>
          rw [hvalid] at h
          rw [hparsed, Option.some.inj (Except.ok.inj h)]

/-- Preparing an account keeps the row it finds and inserts a fresh one where there is none. -/
theorem prepare_cases {serde : Serde} {accounts accounts' : QuotaAccounts} {name : String}
    {account account' : TrackedAccount}
    (h : prepare serde accounts name account = .ok (accounts', account')) :
    account'.plan = account.plan ∧ account'.unit = account.unit ∧
      ((∃ row, accounts.lookup (name, account.plan) = some row ∧ accounts' = accounts) ∨
        accounts.lookup (name, account.plan) = none ∧ ∃ changed,
          accounts' = accounts.insert (name, account.plan)
            (serde.stateText { account.saved with planChangedBaseline := changed })) := by
  rw [prepare] at h
  split at h
  · nomatch h
  next saved hload =>
    obtain ⟨row, hrow, -⟩ := load_eq_some hload
    obtain ⟨rfl, rfl⟩ := Prod.mk.inj (Except.ok.inj h)
    exact ⟨rfl, rfl, .inl ⟨row, hrow, rfl⟩⟩
  next hload =>
    have hrow := load_eq_none hload
    dsimp only at h
    split at h
    · nomatch h
    · obtain ⟨rfl, rfl⟩ := Prod.mk.inj (Except.ok.inj h)
      split
      · exact ⟨rfl, rfl, .inr ⟨hrow, true, rfl⟩⟩
      · exact ⟨rfl, rfl, .inr ⟨hrow, account.saved.planChangedBaseline, rfl⟩⟩

/-- Preparing accounts touches no account of another name. -/
theorem prepareAll_lookup {serde : Serde} {plans : List (Σ _ : String, QuotaPlan)}
    {accounts accounts' : QuotaAccounts} {tracked : AList fun _ : String ↦ TrackedAccount}
    (h : prepareAll serde plans accounts = .ok (accounts', tracked)) {name : String}
    (hname : name ∉ plans.map Sigma.fst) (text : String) :
    accounts'.lookup (name, text) = accounts.lookup (name, text) := by
  induction plans generalizing accounts accounts' tracked with
  | nil =>
    obtain ⟨rfl, -⟩ := Prod.mk.inj (Except.ok.inj h)
    rfl
  | cons entry plans ih =>
    obtain ⟨other, plan⟩ := entry
    rw [List.map_cons, List.mem_cons, not_or] at hname
    rw [prepareAll] at h
    split at h
    · nomatch h
    next between account hprepare =>
      split at h
      · nomatch h
      next last rest hrest =>
        obtain ⟨rfl, -⟩ := Prod.mk.inj (Except.ok.inj h)
        rw [ih hrest hname.2]
        obtain ⟨-, -, ⟨_, -, rfl⟩ | ⟨-, _, rfl⟩⟩ := prepare_cases hprepare
        · rfl
        · exact AList.lookup_insert_ne fun heq ↦ hname.1 (Prod.mk.inj heq).1

/-- What preparing the accounts of a tracker does for one of them. -/
theorem prepareAll_spec {serde : Serde} {plans : List (Σ _ : String, QuotaPlan)}
    {accounts accounts' : QuotaAccounts} {tracked : AList fun _ : String ↦ TrackedAccount}
    (h : prepareAll serde plans accounts = .ok (accounts', tracked)) (hkeys : plans.NodupKeys)
    {name : String} {plan : QuotaPlan} (hmem : ⟨name, plan⟩ ∈ plans) :
    (∃ account, tracked.lookup name = some account ∧ account.plan = serde.planText plan ∧
      account.unit = plan.unit) ∧
    ((∃ row, accounts.lookup (name, serde.planText plan) = some row ∧
        accounts'.lookup (name, serde.planText plan) = some row) ∨
      accounts.lookup (name, serde.planText plan) = none ∧ ∃ changed,
        accounts'.lookup (name, serde.planText plan) = some (serde.stateText
          { (TrackedAccount.fromPlan serde plan).saved with planChangedBaseline := changed })) := by
  induction plans generalizing accounts accounts' tracked with
  | nil => nomatch hmem
  | cons entry plans ih =>
    obtain ⟨other, plan'⟩ := entry
    rw [List.nodupKeys_cons] at hkeys
    rw [prepareAll] at h
    split at h
    · nomatch h
    next between account hprepare =>
      split at h
      · nomatch h
      next last rest hrest =>
        obtain ⟨rfl, rfl⟩ := Prod.mk.inj (Except.ok.inj h)
        obtain ⟨hplan, hunit, hrow⟩ := prepare_cases hprepare
        rcases List.mem_cons.mp hmem with heq | htail
        · -- the account itself: the rest of the plans leave its row alone
          cases heq
          refine ⟨⟨account, AList.lookup_insert rest, hplan, hunit⟩, ?_⟩
          rw [prepareAll_lookup hrest hkeys.1]
          rcases hrow with ⟨row, hrow, rfl⟩ | ⟨hrow, changed, rfl⟩
          · exact .inl ⟨row, hrow, hrow⟩
          · exact .inr ⟨hrow, changed, AList.lookup_insert accounts⟩
        · -- another account comes first, and its row is not this one
          have hne : name ≠ other := by
            rintro rfl
            have hname : name ∈ plans.keys := List.mem_keys_of_mem htail
            exact hkeys.1 hname
          have hbetween : between.lookup (name, serde.planText plan) =
              accounts.lookup (name, serde.planText plan) := by
            rcases hrow with ⟨_, -, rfl⟩ | ⟨-, _, rfl⟩
            · rfl
            · exact AList.lookup_insert_ne fun heq ↦ hne (Prod.mk.inj heq).1
          obtain ⟨⟨tracked, hlookup, hspec⟩, hlast⟩ := ih hrest hkeys.2 htail
          refine ⟨⟨tracked, by rw [AList.lookup_insert_ne hne, hlookup], hspec⟩, ?_⟩
          rwa [hbetween] at hlast

theorem record_eq_ok {serde : Serde} {accounts accounts' : QuotaAccounts} {name : String}
    {account : TrackedAccount} {requestId : Option String} {nowMs amount : UInt64}
    {missingUsage : Bool} {faults : Faults} {saved : SavedAccount}
    (h : record serde accounts name account requestId nowMs amount missingUsage faults =
      .ok (accounts', saved)) :
    ∃ row before, accounts.lookup (name, account.plan) = some row ∧ row.parsed = .ok before ∧
      saved = before.record requestId nowMs amount missingUsage ∧
      accounts' = accounts.insert (name, account.plan) (serde.stateText saved) := by
  rw [record] at h
  split at h
  · nomatch h
  · split at h
    · nomatch h
    · nomatch h
    next before hload =>
      obtain ⟨row, hrow, hparsed⟩ := load_eq_some hload
      dsimp only at h
      split at h
      · nomatch h
      · obtain ⟨rfl, rfl⟩ := Prod.mk.inj (Except.ok.inj h)
        exact ⟨row, before, hrow, hparsed, rfl, rfl⟩

end QuotaStore

namespace QuotaTracker

/-- The tracker counts an account under a plan, in the store. -/
structure Tracks (serde : Serde) (account : String) (plan : QuotaPlan) (tracker : QuotaTracker) :
    Prop where
  store : tracker.store = true
  tracked : ∃ tracked, tracker.accounts.lookup account = some tracked ∧
    tracked.plan = serde.planText plan ∧ tracked.unit = plan.unit

theorem persistent_spec {serde : Serde} {plans : AList fun _ : String ↦ QuotaPlan}
    {directory directory' : QuotaDirectory} {faults : Faults} {tracker : QuotaTracker}
    (h : persistent serde plans directory faults = .ok (tracker, directory'))
    {account : String} {plan : QuotaPlan} (hplan : plans.lookup account = some plan) :
    Tracks serde account plan tracker ∧
      ((∃ row, directory.accounts.lookup (account, serde.planText plan) = some row ∧
          directory'.accounts.lookup (account, serde.planText plan) = some row) ∨
        directory.accounts.lookup (account, serde.planText plan) = none ∧ ∃ changed,
          directory'.accounts.lookup (account, serde.planText plan) = some (serde.stateText
            { (TrackedAccount.fromPlan serde plan).saved with
              planChangedBaseline := changed })) := by
  have hmem : ⟨account, plan⟩ ∈ plans.entries := AList.mem_lookup_iff.mp hplan
  have hne : plans.entries.isEmpty = false := by
    rw [List.isEmpty_eq_false_iff]
    exact List.ne_nil_of_mem hmem
  rw [persistent] at h
  split at h
  · nomatch h
  · rw [hne, if_neg (by simp)] at h
    split at h
    · nomatch h
    · split at h
      · nomatch h
      · split at h
        · nomatch h
        next accounts tracked hprepare =>
          obtain ⟨rfl, rfl⟩ := Prod.mk.inj (Except.ok.inj h)
          obtain ⟨htracked, hrow⟩ := QuotaStore.prepareAll_spec hprepare plans.nodupKeys hmem
          exact ⟨⟨rfl, htracked⟩, hrow⟩

theorem Tracks.setSaved {serde : Serde} {account : String} {plan : QuotaPlan}
    {tracker : QuotaTracker} (h : Tracks serde account plan tracker) {upstream : String}
    {tracked : TrackedAccount} (hlookup : tracker.accounts.lookup upstream = some tracked)
    (saved : SavedAccount) :
    Tracks serde account plan (tracker.setSaved upstream tracked saved) := by
  refine ⟨h.store, ?_⟩
  obtain ⟨own, hown, hplan, hunit⟩ := h.tracked
  rw [QuotaTracker.setSaved]
  by_cases heq : account = upstream
  · subst heq
    obtain rfl := Option.some.inj (hown.symm.trans hlookup)
    exact ⟨_, AList.lookup_insert _, hplan, hunit⟩
  · exact ⟨own, (AList.lookup_insert_ne heq).trans hown, hplan, hunit⟩

@[simp] theorem setSaved_persistenceFailed (tracker : QuotaTracker) (upstream : String)
    (tracked : TrackedAccount) (saved : SavedAccount) :
    (tracker.setSaved upstream tracked saved).persistenceFailed = tracker.persistenceFailed := rfl

theorem persistenceError_failed (tracker : QuotaTracker) (directory : QuotaDirectory)
    (faults : Faults) : (tracker.persistenceError directory faults).1.persistenceFailed = true := by
  rw [persistenceError]
  split
  · assumption
  · rfl

/-- A failure that was noted stays noted. -/
theorem persistenceFailed_of_recordSettled {serde : Serde} {tracker : QuotaTracker}
    {directory : QuotaDirectory} {upstream requestId : String} {nowMs : UInt64}
    {usage : Option Usage} {completed : Bool} {faults : Faults}
    (h : (tracker.recordSettled serde directory upstream requestId nowMs usage completed
      faults).1.persistenceFailed = false) : tracker.persistenceFailed = false := by
  rw [recordSettled] at h
  split at h
  · split at h
    · rw [persistenceError_failed] at h
      nomatch h
    · rw [recordConsumption] at h
      split at h
      · exact h
      · dsimp only at h
        split at h
        · split at h
          · exact h
          · rw [setSaved_persistenceFailed, persistenceError_failed] at h
            nomatch h
        · exact h
  · exact h

/-- A settlement after which no failure is noted either did nothing, for want of anything to count,
or is one committed transaction. -/
theorem recordSettled_cases {serde : Serde} {tracker : QuotaTracker} {directory : QuotaDirectory}
    {upstream requestId : String} {nowMs : UInt64} {usage : Option Usage} {completed : Bool}
    {faults : Faults} (hstore : tracker.store = true)
    (h : (tracker.recordSettled serde directory upstream requestId nowMs usage completed
      faults).1.persistenceFailed = false) :
    (tracker.recordSettled serde directory upstream requestId nowMs usage completed faults =
        (tracker, directory) ∧
      ((completed || usage.isSome) = true → tracker.accounts.lookup upstream = none)) ∨
    (completed || usage.isSome) = true ∧
      ∃ account accounts saved, tracker.accounts.lookup upstream = some account ∧
        QuotaStore.record serde directory.accounts upstream account (some requestId) nowMs
          (account.consumption usage) usage.isNone faults = .ok (accounts, saved) ∧
        tracker.recordSettled serde directory upstream requestId nowMs usage completed faults =
          (tracker.setSaved upstream account saved, { directory with accounts := accounts }) := by
  rw [recordSettled] at h ⊢
  by_cases hcounted : (completed || usage.isSome) = true
  · rw [if_pos hcounted] at h ⊢
    by_cases hsize : requestId.utf8ByteSize > 512
    · rw [if_pos hsize, persistenceError_failed] at h
      nomatch h
    · rw [if_neg hsize, recordConsumption] at h ⊢
      cases haccount : tracker.accounts.lookup upstream with
      | none => exact .inl ⟨rfl, fun _ ↦ rfl⟩
      | some account =>
        simp only [haccount, hstore, if_true] at h ⊢
        cases hrecord : QuotaStore.record serde directory.accounts upstream account
            (some requestId) nowMs (account.consumption usage) usage.isNone faults with
        | error error =>
          -- a failed transaction leaves its mark on the tracker
          simp only [hrecord, setSaved_persistenceFailed, persistenceError_failed] at h
          nomatch h
        | ok committed =>
          exact .inr ⟨hcounted, account, committed.1, committed.2, rfl, hrecord, rfl⟩
  · rw [if_neg hcounted]
    exact .inl ⟨rfl, fun hyes ↦ absurd hyes hcounted⟩

end QuotaTracker

namespace QuotaSystem

/-- No tracker has noted a failure of the store. -/
def Healthy (system : QuotaSystem) : Prop :=
  ∀ tracker ∈ system.trackers, tracker.persistenceFailed = false

theorem Healthy.of_step {serde : Serde} {system after : QuotaSystem} {event : QuotaEvent}
    (h : after.Healthy) (hstep : step serde system event = some after) : system.Healthy := by
  intro tracker hmem
  cases event with
  | opened plans faults =>
    rw [step] at hstep
    split at hstep
    · obtain rfl := Option.some.inj hstep
      exact h tracker hmem
    · obtain rfl := Option.some.inj hstep
      exact h tracker (List.mem_append_left _ hmem)
  | settled gateway upstream requestId nowMs usage completed faults =>
    rw [step, Option.map_eq_some_iff] at hstep
    obtain ⟨settling, hsettling, rfl⟩ := hstep
    obtain ⟨hgateway, hget⟩ := List.getElem?_eq_some_iff.mp hsettling
    obtain ⟨i, hi, rfl⟩ := List.getElem_of_mem hmem
    by_cases heq : gateway = i
    · subst heq
      rw [hget]
      exact QuotaTracker.persistenceFailed_of_recordSettled (h _ (List.mem_set hgateway _))
    · refine h _ (List.mem_iff_getElem.mpr ⟨i, by simpa using hi, ?_⟩)
      rw [List.getElem_set_ne heq]

end QuotaSystem

/-! ## The invariant of a run -/

/-- Every tracker counts the account, and the row holds what the settlements leave. -/
structure RowInvariant (serde : Serde) (account : String) (plan : QuotaPlan)
    (system : QuotaSystem) (l : List Settlement) : Prop where
  tracks : ∀ tracker ∈ system.trackers, tracker.Tracks serde account plan
  row : (system.trackers = [] ∧ l = [] ∧
      system.directory.accounts.lookup (account, serde.planText plan) = none) ∨
    ∃ saved, system.directory.accounts.lookup (account, serde.planText plan) =
      some (serde.stateText saved) ∧ IsRow plan l saved

namespace RowInvariant

open QuotaSystem

variable {serde : Serde} {account : String} {plan : QuotaPlan} {system after : QuotaSystem}
  {l : List Settlement}

/-- Opening a tracker keeps the row, or makes a fresh one. -/
theorem opened (hinv : RowInvariant serde account plan system l)
    {plans : AList fun _ : String ↦ QuotaPlan} (hplan : plans.lookup account = some plan)
    {faults : Faults} (hstep : step serde system (.opened plans faults) = some after) :
    RowInvariant serde account plan after l := by
  rw [step] at hstep
  cases hopen : QuotaTracker.persistent serde plans system.directory faults with
  | error error =>
    simp only [hopen, Option.some.injEq] at hstep
    rwa [← hstep]
  | ok opened =>
    simp only [hopen, Option.some.injEq] at hstep
    subst hstep
    obtain ⟨htracks, hrow⟩ := QuotaTracker.persistent_spec hopen hplan
    refine ⟨fun tracker hmem ↦ ?_, .inr ?_⟩
    · rcases List.mem_append.mp hmem with hold | hnew
      · exact hinv.tracks tracker hold
      · rwa [List.mem_singleton.mp hnew]
    · rcases hinv.row with ⟨-, rfl, hnone⟩ | ⟨saved, hsaved, hisRow⟩
      · rcases hrow with ⟨row, hrow, -⟩ | ⟨-, changed, hfresh⟩
        · rw [hnone] at hrow
          nomatch hrow
        · exact ⟨_, hfresh, isRow_fromPlan serde plan changed⟩
      · rcases hrow with ⟨row, hrow, hkept⟩ | ⟨hnone, -⟩
        · exact ⟨saved, by rw [hkept, ← hrow, hsaved], hisRow⟩
        · rw [hsaved] at hnone
          nomatch hnone

/-- A committed settlement records in the row of its own account and leaves the others alone. -/
theorem exists_row_of_record {tracker : QuotaTracker} (htracks : tracker.Tracks serde account plan)
    {accounts accounts' : QuotaAccounts} {current saved : SavedAccount}
    (hcurrent : accounts.lookup (account, serde.planText plan) = some (serde.stateText current))
    (hisRow : IsRow plan l current) {gateway : ℕ} {upstream requestId : String} {nowMs : UInt64}
    {usage : Option Usage} {completed : Bool} {faults : Faults} {tracked : TrackedAccount}
    (hcounted : (completed || usage.isSome) = true)
    (hlookup : tracker.accounts.lookup upstream = some tracked)
    (hrecord : QuotaStore.record serde accounts upstream tracked (some requestId) nowMs
      (tracked.consumption usage) usage.isNone faults = .ok (accounts', saved))
    (hwindow : WithinWindow Settlement.requestId maxSettlementIds
      (l ++ (QuotaEvent.settlement? account
        (.settled gateway upstream requestId nowMs usage completed faults)).toList)) :
    ∃ saved', accounts'.lookup (account, serde.planText plan) = some (serde.stateText saved') ∧
      IsRow plan (l ++ (QuotaEvent.settlement? account
        (.settled gateway upstream requestId nowMs usage completed faults)).toList) saved' := by
  obtain ⟨row, before, hrow, hparsed, rfl, rfl⟩ := QuotaStore.record_eq_ok hrecord
  by_cases hupstream : upstream = account
  · subst hupstream
    obtain ⟨own, hown, hplan, hunit⟩ := htracks.tracked
    obtain rfl := Option.some.inj (hown.symm.trans hlookup)
    -- the row read in the transaction is the account's current row
    rw [hplan, hcurrent, Option.some.injEq] at hrow
    subst hrow
    obtain rfl := Except.ok.inj hparsed
    have hcharge : own.consumption usage = plan.charge ⟨requestId, nowMs, usage⟩ :=
      TrackedAccount.consumption_eq_charge hunit ⟨requestId, nowMs, usage⟩
    rw [QuotaEvent.settlement?, if_pos ⟨rfl, hcounted⟩] at hwindow ⊢
    rw [hplan, hcharge]
    exact ⟨_, AList.lookup_insert _, hisRow.record hwindow⟩
  · rw [QuotaEvent.settlement?, if_neg fun h ↦ hupstream h.1, Option.toList_none, List.append_nil]
    refine ⟨current, ?_, hisRow⟩
    rw [← hcurrent]
    exact AList.lookup_insert_ne fun h ↦ hupstream (Prod.mk.inj h).1.symm

/-- A settlement that no store failure stops keeps the invariant. -/
theorem settled (hinv : RowInvariant serde account plan system l) {gateway : ℕ}
    {upstream requestId : String} {nowMs : UInt64} {usage : Option Usage} {completed : Bool}
    {faults : Faults}
    (hstep : step serde system
      (.settled gateway upstream requestId nowMs usage completed faults) = some after)
    (hok : after.Healthy)
    (hwindow : WithinWindow Settlement.requestId maxSettlementIds
      (l ++ (QuotaEvent.settlement? account
        (.settled gateway upstream requestId nowMs usage completed faults)).toList)) :
    RowInvariant serde account plan after
      (l ++ (QuotaEvent.settlement? account
        (.settled gateway upstream requestId nowMs usage completed faults)).toList) := by
  rw [step, Option.map_eq_some_iff] at hstep
  obtain ⟨tracker, htracker, rfl⟩ := hstep
  obtain ⟨hgateway, hget⟩ := List.getElem?_eq_some_iff.mp htracker
  have hmem : tracker ∈ system.trackers := List.mem_of_getElem? htracker
  have htracks := hinv.tracks tracker hmem
  rcases QuotaTracker.recordSettled_cases htracks.store (hok _ (List.mem_set hgateway _)) with
    ⟨hsame, huncounted⟩ | ⟨hcounted, tracked, accounts, saved, hlookup, hrecord, heq⟩
  · -- nothing happened, and nothing that counts was settled on the account
    have hnone : QuotaEvent.settlement? account
        (.settled gateway upstream requestId nowMs usage completed faults) = none := by
      rw [QuotaEvent.settlement?, if_neg]
      rintro ⟨rfl, hcounted⟩
      obtain ⟨own, hown, -⟩ := htracks.tracked
      rw [huncounted hcounted] at hown
      nomatch hown
    rw [hsame, hnone, Option.toList_none, List.append_nil, ← hget]
    dsimp only
    rwa [List.set_getElem_self]
  · rw [heq]
    refine ⟨fun other hother ↦ ?_, .inr ?_⟩
    · rcases List.mem_or_eq_of_mem_set hother with hold | rfl
      · exact hinv.tracks other hold
      · exact htracks.setSaved hlookup _
    · rcases hinv.row with ⟨hempty, -⟩ | ⟨current, hcurrent, hisRow⟩
      · rw [hempty] at hmem
        nomatch hmem
      · exact exists_row_of_record htracks hcurrent hisRow hcounted hlookup hrecord hwindow

/-- **Run.** Every run in which no tracker notes a failure keeps the invariant. -/
theorem run (hinv : RowInvariant serde account plan system l) {events : List QuotaEvent}
    (hplans : ∀ plans faults, .opened plans faults ∈ events → plans.lookup account = some plan)
    (hrun : QuotaSystem.run serde system events = some after) (hok : after.Healthy)
    (hwindow : WithinWindow Settlement.requestId maxSettlementIds
      (l ++ settlements account events)) :
    RowInvariant serde account plan after (l ++ settlements account events) := by
  -- from the last event backwards: a failure that was noted stays noted
  induction events using List.reverseRecOn generalizing after with
  | nil =>
    obtain rfl := Option.some.inj hrun
    rwa [settlements, List.filterMap_nil, List.append_nil]
  | append_singleton events event ih =>
    rw [QuotaSystem.run, List.foldlM_append, ← QuotaSystem.run, Option.bind_eq_bind,
      Option.bind_eq_some_iff] at hrun
    obtain ⟨between, hbetween, hlast⟩ := hrun
    have hstep : step serde between event = some after := by simpa using hlast
    have hsettlements : l ++ settlements account (events ++ [event]) =
        l ++ settlements account events ++ (event.settlement? account).toList := by
      rw [settlements, List.filterMap_append, List.append_assoc]
      cases hsettlement : event.settlement? account <;> simp [settlements, hsettlement]
    have hplans' : ∀ plans faults, .opened plans faults ∈ events →
        plans.lookup account = some plan := fun plans faults hmem ↦
      hplans plans faults (List.mem_append_left _ hmem)
    rw [hsettlements] at hwindow ⊢
    have hearlier := ih hplans' hbetween (hok.of_step hstep) hwindow.of_append
    cases event with
    | opened plans faults =>
      have hafter := hearlier.opened (hplans plans faults (by simp)) hstep
      simpa [QuotaEvent.settlement?] using hafter
    | settled gateway upstream requestId nowMs usage completed faults =>
      exact hearlier.settled hstep hok hwindow

end RowInvariant

/-- **Settlements are counted once.** Gateways that open a directory without history under one plan
for an account, and settle requests in any interleaving without a failure of the store, leave in
the account's row the ledger of the first settlement of each receipt, recorded in any order, and
the number of first settlements without usage. A settlement that is neither completed nor carries
usage changes nothing. -/
theorem settlements_counted_once (serde : Serde) (account : String) (plan : QuotaPlan)
    (system after : QuotaSystem) (events : List QuotaEvent) (hnew : system.trackers = [])
    (hempty : system.directory.accounts.lookup (account, serde.planText plan) = none)
    (hplans : ∀ plans faults, .opened plans faults ∈ events → plans.lookup account = some plan)
    (hrun : QuotaSystem.run serde system events = some after) (hok : after.Healthy)
    (hopened : after.trackers ≠ [])
    (hwindow : WithinWindow Settlement.requestId maxSettlementIds (settlements account events)) :
    (∃ saved, after.directory.accounts.lookup (account, serde.planText plan) =
        some (serde.stateText saved) ∧
      (∀ order : List Settlement, order.Perm (firstSettlements (settlements account events)) →
        saved.ledger = plan.ledger.recordAll (order.map plan.entry)) ∧
      saved.unknownUsageRequests.toNat = min (2 ^ 64 - 1)
        ((firstSettlements (settlements account events)).countP fun s ↦ s.usage.isNone)) ∧
    ∀ gateway upstream requestId nowMs faults, gateway < after.trackers.length →
      after.step serde (.settled gateway upstream requestId nowMs none false faults) =
        some after := by
  have hstart : RowInvariant serde account plan system [] :=
    ⟨by simp [hnew], .inl ⟨hnew, rfl, hempty⟩⟩
  have hend := hstart.run hplans hrun hok hwindow
  rw [List.nil_append] at hend
  refine ⟨?_, fun gateway upstream requestId nowMs faults hgateway ↦ ?_⟩
  · rcases hend.row with ⟨hnone, -⟩ | ⟨saved, hsaved, hisRow⟩
    · exact absurd hnone hopened
    · refine ⟨saved, hsaved, fun order hperm ↦ ?_, hisRow.unknownUsageRequests⟩
      rw [hisRow.ledger]
      exact AccountLedger.recordAll_ofPlan_perm _ _ (hperm.map plan.entry).symm
  · rw [QuotaSystem.step, List.getElem?_eq_getElem hgateway, Option.map_some]
    simp [QuotaTracker.recordSettled]

/-! ## Two gateways, one retried settlement -/

/-- A five-hour plan of 1000 tokens. -/
def tokenPlan : QuotaPlan := ⟨[⟨18000000, 1000⟩], none, .tokens⟩

/-- The length of a JSON array whose members have the given lengths. -/
def jsonArrayLen (lengths : List ℕ) : ℕ := 2 + lengths.sum + (lengths.length - 1)

def jsonNumberLen (word : UInt64) : ℕ := (Nat.toDigits 10 word.toNat).length

def jsonWindowLen (window : SlidingWindow) : ℕ :=
  45 + jsonNumberLen window.lenMs + jsonNumberLen window.limit + jsonNumberLen window.index
    + jsonNumberLen window.curr + jsonNumberLen window.prev

/-- The compact JSON texts of `tokenPlan` and of accounts whose receipts need no escapes. -/
def tokenSerde : Serde where
  planText _ :=
    "\x7b\x22windows\x22:[\x7b\x22len_ms\x22:18000000,\x22limit\x22:1000\x7d],"
      ++ "\x22unit\x22:\x22tokens\x22\x7d"
  stateLen saved :=
    101 + jsonArrayLen (saved.ledger.windows.map jsonWindowLen)
      + saved.ledger.rate.elim 4 jsonWindowLen
      + jsonArrayLen (saved.recentRequests.map fun id ↦ id.utf8ByteSize + 2)
      + jsonNumberLen saved.unknownUsageRequests + if saved.planChangedBaseline then 4 else 5

def noFaults : Faults := ⟨none, none, false⟩

/-- Two gateways settle a request each, and the first one is settled again by the other gateway. -/
def retriedSettlement : List QuotaEvent :=
  [.opened (AList.singleton "a" tokenPlan) noFaults,
    .opened (AList.singleton "a" tokenPlan) noFaults,
    .settled 0 "a" "first" 1000 (some { inputTokens := 100 }) true noFaults,
    .settled 1 "a" "second" 1000 none true noFaults,
    .settled 1 "a" "first" 2000 (some { inputTokens := 100 }) true noFaults]

def emptyDirectory : QuotaSystem := ⟨⟨∅, false⟩, []⟩

theorem settlements_counted_once_retried :
    ∃ after, emptyDirectory.run tokenSerde retriedSettlement = some after ∧
      ∃ saved, after.directory.accounts.lookup ("a", tokenSerde.planText tokenPlan) =
          some (tokenSerde.stateText saved) ∧
        saved.ledger = tokenPlan.ledger.recordAll [(1000, 0), (1000, 100)] ∧
        saved.unknownUsageRequests.toNat = 1 := by
  have hsome : (emptyDirectory.run tokenSerde retriedSettlement).isSome = true := by decide
  obtain ⟨after, hrun⟩ := Option.isSome_iff_exists.mp hsome
  have hall : (emptyDirectory.run tokenSerde retriedSettlement).all (fun after ↦
      after.trackers.all (fun tracker ↦ !tracker.persistenceFailed) && !after.trackers.isEmpty) =
        true := by decide
  rw [hrun, Option.all_some, Bool.and_eq_true, List.all_eq_true] at hall
  obtain ⟨hok, hopened⟩ := hall
  have hplans : ∀ plans faults, .opened plans faults ∈ retriedSettlement →
      plans.lookup "a" = some tokenPlan := by
    intro plans faults hmem
    simp only [retriedSettlement, List.mem_cons, QuotaEvent.opened.injEq, reduceCtorEq,
      List.not_mem_nil, or_false] at hmem
    rcases hmem with ⟨rfl, -⟩ | ⟨rfl, -⟩ <;> rfl
  obtain ⟨⟨saved, hsaved, hledger, hunknown⟩, -⟩ :=
    settlements_counted_once tokenSerde "a" tokenPlan emptyDirectory after retriedSettlement rfl rfl
      hplans hrun (fun tracker hmem ↦ by simpa using hok tracker hmem) (by simpa using hopened)
      (WithinWindow.of_length_le _ (by decide))
  refine ⟨after, hrun, saved, hsaved, ?_, hunknown⟩
  exact hledger [⟨"second", 1000, none⟩, ⟨"first", 1000, some { inputTokens := 100 }⟩] (by decide)

end TokenStation
