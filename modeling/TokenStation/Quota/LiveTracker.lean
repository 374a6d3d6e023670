import TokenStation.Quota.Exhaustion
import TokenStation.Quota.Leases
import TokenStation.Quota.Tracker

/-!
# The live quota state

Besides the counts of its accounts a tracker keeps what it has seen of them: leases in flight, the
latest provider reading of each, and until when each is cooling after a refusal. `quotaState` puts
these together for the router.

A read goes to the store, and a read that fails there pauses quota routing from then on. So a read
takes and returns the tracker and its directory.
-/

namespace TokenStation

open Library

/-- How long a provider-reported reading is trusted. -/
def authoritativeTtlMs : UInt64 := 5 * 60 * 1000

/-- Ceiling on any single cooldown. -/
def maxQuotaCooldownMs : UInt64 := 60 * 60 * 1000

def defaultLeaseMs : UInt64 := 120000

/-- Rate headroom that one request in flight docks when the rate limit is not known. -/
def defaultInflightDockPermille : ℕ := 100

/-- A provider-reported reading and when it was observed. -/
structure Authoritative where
  windows : List WindowSnapshot
  observedAtMs : UInt64

/-- Fold an account's load in flight back into its rate headroom. -/
def applyInflightPenalty (headroomPermille inflight : ℕ) (rateLimitPerMin : Option UInt64) : ℕ :=
  let dock := min (satMul u32Max inflight defaultInflightDockPermille) 1000
  let penalty :=
    match rateLimitPerMin with
    | some limit =>
      if limit > 0 then
        let committed := satMul (2 ^ 64 - 1) inflight 1000 / limit.toNat
        min (if committed ≤ u32Max then committed else 1000) 1000
      else dock
    | none => dock
  headroomPermille - penalty

theorem applyInflightPenalty_le (headroomPermille inflight : ℕ) (rateLimitPerMin : Option UInt64) :
    applyInflightPenalty headroomPermille inflight rateLimitPerMin ≤ headroomPermille :=
  Nat.sub_le _ _

/-- A fresh provider reading wins over the local estimate for the windows. -/
def QuotaState.withReading (state : QuotaState) : Option (List WindowSnapshot) → QuotaState
  | some windows =>
    { state with reset := (bindingOf windows).1, exhausted := (bindingOf windows).2 }
  | none => state

@[simp] theorem QuotaState.withReading_headroom (state : QuotaState)
    (reading : Option (List WindowSnapshot)) :
    (state.withReading reading).rateHeadroomPermille = state.rateHeadroomPermille := by
  cases reading <;> rfl

@[simp] theorem QuotaState.withReading_pressured (state : QuotaState)
    (reading : Option (List WindowSnapshot)) :
    (state.withReading reading).ratePressured = state.ratePressured := by
  cases reading <;> rfl

/-- A quota tracker with all that routing reads. -/
structure LiveTracker extends QuotaTracker where
  leases : InflightLeases
  /-- Until when an upstream is cooling. -/
  coolingUntilMs : AList fun _ : String ↦ UInt64
  authoritative : AList fun _ : String ↦ Authoritative

/-- A tracker on its directory. -/
structure LiveQuota where
  tracker : LiveTracker
  directory : QuotaDirectory

namespace LiveQuota

/-- A tracker that has seen nothing yet. -/
def fresh (tracker : QuotaTracker) (directory : QuotaDirectory) : LiveQuota where
  tracker :=
    { tracker with
      leases := .new defaultLeaseMs
      coolingUntilMs := ∅
      authoritative := ∅ }
  directory := directory

/-- The tracker of some plans, without a store. -/
def new (serde : Serde) (plans : AList fun _ : String ↦ QuotaPlan) (directory : QuotaDirectory) :
    LiveQuota :=
  fresh
    { accounts := plans.entries.foldr
        (fun entry accounts ↦ accounts.insert entry.1 (TrackedAccount.fromPlan serde entry.2)) ∅
      store := false
      persistenceFailed := false }
    directory

/-- Run an operation of the counting part. -/
def counting (quota : LiveQuota)
    (op : QuotaTracker → QuotaDirectory → QuotaTracker × QuotaDirectory) : LiveQuota :=
  let after := op quota.tracker.toQuotaTracker quota.directory
  { tracker := { quota.tracker with toQuotaTracker := after.1 }
    directory := after.2 }

/-! ## Reads -/

/-- An account as the store has it, if the store can be read and has it. -/
def loadSaved (quota : LiveQuota) (faults : Faults) (name : String) (account : TrackedAccount) :
    Option SavedAccount :=
  match faults.transaction with
  | some _ => none
  | none =>
    match QuotaStore.load quota.directory.accounts name account.plan account.saved.ledger with
    | .ok saved => saved
    | .error _ => none

/-- An account as the store has it now, or as it was last seen if the store fails. -/
def currentSaved (quota : LiveQuota) (faults : Faults) (name : String) (account : TrackedAccount) :
    SavedAccount × LiveQuota :=
  if quota.tracker.store then
    match quota.loadSaved faults name account with
    | some saved => (saved, quota)
    | none =>
      (account.saved, quota.counting fun tracker directory ↦
        tracker.persistenceError directory faults)
  else (account.saved, quota)

/-- Fresh provider-reported windows, if there is a reading that has not aged. -/
def freshAuthoritative (quota : LiveQuota) (upstream : String) (nowMs : UInt64) :
    Option (List WindowSnapshot) := do
  let reading ← quota.tracker.authoritative.lookup upstream
  let elapsed ← Word.checkedSub nowMs reading.observedAtMs
  if elapsed ≥ authoritativeTtlMs then none
  let windows := reading.windows.filterMap fun window ↦ do
    let remaining ← Word.checkedSub window.msUntilReset elapsed
    if remaining > 0 then some { window with msUntilReset := remaining } else none
  if windows.isEmpty then none else some windows

/-- Whether an upstream is cooling from a refusal. -/
def isCooling (quota : LiveQuota) (upstream : String) (nowMs : UInt64) : Bool :=
  (quota.tracker.coolingUntilMs.lookup upstream).any fun deadline ↦ nowMs < deadline

/-- The tracker has lost its store, and the upstream is one it counts. -/
def paused (quota : LiveQuota) (upstream : String) : Bool :=
  quota.tracker.persistenceFailed && (quota.tracker.accounts.lookup upstream).isSome

/-- The local estimate of an upstream. An account without a plan is open. -/
def estimate (quota : LiveQuota) (faults : Faults) (upstream : String) (nowMs : UInt64) :
    QuotaState × LiveQuota :=
  match quota.tracker.accounts.lookup upstream with
  | some account =>
    let read := quota.currentSaved faults upstream account
    (read.1.ledger.quotaState nowMs, read.2)
  | none => ({}, quota)

/-- The rate limit of the upstream's plan. -/
def rateLimit (quota : LiveQuota) (upstream : String) : Option UInt64 :=
  (quota.tracker.accounts.lookup upstream).bind TrackedAccount.rateLimitPerMin

/-- The router-facing picture of an upstream. -/
def quotaState (quota : LiveQuota) (faults : Faults) (upstream : String) (nowMs : UInt64) :
    QuotaState × LiveQuota :=
  let estimated := quota.estimate faults upstream nowMs
  let quota := estimated.2
  let state := estimated.1.withReading (quota.freshAuthoritative upstream nowMs)
  let inflight := quota.tracker.leases.inflight nowMs upstream
  let rateHeadroomPermille :=
    applyInflightPenalty state.rateHeadroomPermille inflight (quota.rateLimit upstream)
  let ratePressured := state.ratePressured || rateHeadroomPermille ≤ ratePressurePermille
  -- a cooling or paused account is exhausted whatever the readings say
  let exhausted :=
    if quota.isCooling upstream nowMs || quota.paused upstream then true else state.exhausted
  ({ state with rateHeadroomPermille, ratePressured, exhausted }, quota)

/-! ## The viewer's picture -/

end LiveQuota

/-- Where an account's window figures came from. -/
inductive QuotaSource where
  | authoritative
  | estimated
  | none
  deriving DecidableEq

/-- The full per-account picture for the quota viewer. -/
structure QuotaAccountSnapshot where
  history : QuotaHistory
  unknownUsageRequests : UInt64
  upstream : String
  windows : List WindowSnapshot
  rateHeadroomPermille : ℕ
  ratePressured : Bool
  inflight : ℕ
  exhausted : Bool
  /-- Milliseconds left on an active cooldown. -/
  coolingMsRemaining : UInt64
  source : QuotaSource

namespace LiveQuota

/-- The windows that the viewer shows, and where they are from. -/
def shownWindows (quota : LiveQuota) (faults : Faults) (upstream : String) (nowMs : UInt64) :
    (List WindowSnapshot × QuotaSource) × LiveQuota :=
  match quota.freshAuthoritative upstream nowMs with
  | some windows => ((windows, .authoritative), quota)
  | none =>
    match quota.tracker.accounts.lookup upstream with
    | some account =>
      let read := quota.currentSaved faults upstream account
      let windows := read.1.ledger.windowSnapshots nowMs
      ((windows, if windows.isEmpty then .none else .estimated), read.2)
    | none => (([], .none), quota)

/-- The rate headroom of an upstream before its load in flight. -/
def ledgerHeadroom (quota : LiveQuota) (faults : Faults) (upstream : String) (nowMs : UInt64) :
    ℕ × LiveQuota :=
  match quota.tracker.accounts.lookup upstream with
  | some account =>
    let read := quota.currentSaved faults upstream account
    (read.1.ledger.rateHeadroomPermille nowMs, read.2)
  | none => (1000, quota)

/-- The history that the viewer shows. -/
def shownHistory (quota : LiveQuota) (upstream : String) : QuotaHistory :=
  if quota.paused upstream then .unavailable
  else (quota.tracker.accounts.lookup upstream).elim .new TrackedAccount.history

/-- Settled requests of an upstream whose usage is not known. -/
def unknownUsage (quota : LiveQuota) (faults : Faults) (upstream : String) : UInt64 × LiveQuota :=
  match quota.tracker.accounts.lookup upstream with
  | some account =>
    let read := quota.currentSaved faults upstream account
    (read.1.unknownUsageRequests, read.2)
  | none => (0, quota)

/-- The viewer's entry for one upstream. -/
def snapshotEntry (quota : LiveQuota) (faults : Faults) (upstream : String) (nowMs : UInt64) :
    QuotaAccountSnapshot × LiveQuota :=
  let shown := quota.shownWindows faults upstream nowMs
  let windows := shown.1.1
  let headroom := shown.2.ledgerHeadroom faults upstream nowMs
  let quota := headroom.2
  let inflight := quota.tracker.leases.inflight nowMs upstream
  let rateHeadroomPermille :=
    applyInflightPenalty headroom.1 inflight (quota.rateLimit upstream)
  let cooling := (quota.tracker.coolingUntilMs.lookup upstream).elim 0 fun deadline ↦
    Word.satSub deadline nowMs
  let history := quota.shownHistory upstream
  let unknown := quota.unknownUsage faults upstream
  let quota := unknown.2
  ({ history
     unknownUsageRequests := unknown.1
     upstream
     windows
     rateHeadroomPermille
     ratePressured := rateHeadroomPermille ≤ ratePressurePermille
     inflight
     exhausted := (bindingOf windows).2 || quota.isCooling upstream nowMs ||
       history = .unavailable
     coolingMsRemaining := cooling
     source := shown.1.2 }, quota)

/-- The viewer's picture, one entry for each requested upstream. -/
def snapshot (quota : LiveQuota) (faults : Faults) (nowMs : UInt64) :
    List String → List QuotaAccountSnapshot × LiveQuota
  | [] => ([], quota)
  | upstream :: upstreams =>
    let entry := quota.snapshotEntry faults upstream nowMs
    let rest := entry.2.snapshot faults nowMs upstreams
    (entry.1 :: rest.1, rest.2)

/-! ## Updates -/

/-- Cool an account after the upstream refused it. A shorter wait never ends a longer one. -/
def noteRateLimited (quota : LiveQuota) (upstream : String) (nowMs cooldownMs : UInt64) :
    LiveQuota :=
  let deadline := Word.satAdd nowMs (min cooldownMs maxQuotaCooldownMs)
  let deadline :=
    match quota.tracker.coolingUntilMs.lookup upstream with
    | some current => max current deadline
    | none => deadline
  { quota with tracker := { quota.tracker with
      coolingUntilMs := quota.tracker.coolingUntilMs.insert upstream deadline } }

/-- Record a provider reading. One without windows clears what there was. -/
def noteAuthoritative (quota : LiveQuota) (upstream : String) (nowMs : UInt64)
    (windows : List WindowSnapshot) : LiveQuota :=
  { quota with tracker := { quota.tracker with
      authoritative :=
        if windows.isEmpty then quota.tracker.authoritative.erase upstream
        else quota.tracker.authoritative.insert upstream ⟨windows, nowMs⟩ } }

def withLeases (quota : LiveQuota) (leases : InflightLeases) : LiveQuota :=
  { quota with tracker := { quota.tracker with leases } }

end LiveQuota

/-! ## Runs -/

/-- What happens to a tracker. Other gateways work on the same directory. -/
inductive QuotaOp where
  | grant (upstream : String) (nowMs : UInt64)
  | grantFor (upstream : String) (nowMs lifetimeMs : UInt64)
  | release (lease : InflightLeases.LeaseId)
  | record (upstream : String) (nowMs : UInt64) (usage : Usage)
  | recordSettled (upstream requestId : String) (nowMs : UInt64) (usage : Option Usage)
      (completed : Bool)
  | noteRateLimited (upstream : String) (nowMs cooldownMs : UInt64)
  | noteAuthoritative (upstream : String) (nowMs : UInt64) (windows : List WindowSnapshot)
  | quotaState (upstream : String) (nowMs : UInt64)
  | snapshot (upstreams : List String) (nowMs : UInt64)
  | elsewhere (directory : QuotaDirectory)

namespace LiveQuota

/-- One operation, with what the system reports meanwhile. -/
def step (serde : Serde) (quota : LiveQuota) (faults : Faults) : QuotaOp → LiveQuota
  | .grant upstream nowMs => quota.withLeases (quota.tracker.leases.grant nowMs upstream).1
  | .grantFor upstream nowMs lifetimeMs =>
    quota.withLeases (quota.tracker.leases.grantFor nowMs upstream lifetimeMs).1
  | .release lease => quota.withLeases (quota.tracker.leases.release lease)
  | .record upstream nowMs usage =>
    quota.counting fun tracker directory ↦
      tracker.recordConsumption serde directory upstream none nowMs (some usage) faults
  | .recordSettled upstream requestId nowMs usage completed =>
    quota.counting fun tracker directory ↦
      tracker.recordSettled serde directory upstream requestId nowMs usage completed faults
  | .noteRateLimited upstream nowMs cooldownMs => quota.noteRateLimited upstream nowMs cooldownMs
  | .noteAuthoritative upstream nowMs windows => quota.noteAuthoritative upstream nowMs windows
  | .quotaState upstream nowMs => (quota.quotaState faults upstream nowMs).2
  | .snapshot upstreams nowMs => (quota.snapshot faults nowMs upstreams).2
  | .elsewhere directory => { quota with directory }

def run (serde : Serde) (quota : LiveQuota) (ops : List (Faults × QuotaOp)) : LiveQuota :=
  ops.foldl (fun quota op ↦ quota.step serde op.1 op.2) quota

/-- The states that a tracker can reach from where it was made. -/
inductive Reachable (serde : Serde) : LiveQuota → Prop where
  | new (plans : AList fun _ : String ↦ QuotaPlan) (directory : QuotaDirectory) :
    Reachable serde (new serde plans directory)
  | persistent {plans : AList fun _ : String ↦ QuotaPlan} {before directory : QuotaDirectory}
      {faults : Faults} {tracker : QuotaTracker}
      (h : QuotaTracker.persistent serde plans before faults = .ok (tracker, directory)) :
    Reachable serde (fresh tracker directory)
  | step {quota : LiveQuota} (h : Reachable serde quota) (faults : Faults) (op : QuotaOp) :
    Reachable serde (quota.step serde faults op)

end LiveQuota

end TokenStation
