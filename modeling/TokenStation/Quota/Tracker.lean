import Mathlib.Data.List.AList
import TokenStation.Library.RecentWindow
import TokenStation.Protocol.Usage
import TokenStation.Quota.Ledger

/-!
# The quota tracker and its store

Every gateway process keeps a `QuotaTracker`. The trackers opened on one directory share a table
with one row for each account and plan, and a settlement is one transaction on that table: read the
row, record the settlement in it, write it back. A transaction is atomic here, since the store takes
it with the immediate lock; what can go wrong with it is an argument, `Faults`.
-/

namespace TokenStation

open Library

/-- What a plan's windows are counted in. -/
inductive PlanUnit where
  | tokens
  | requests
  deriving DecidableEq

/-- One reset window of a plan. -/
structure QuotaWindowSpec where
  lenMs : UInt64
  limit : UInt64
  deriving DecidableEq

/-- A declared plan for one account. -/
structure QuotaPlan where
  windows : List QuotaWindowSpec
  rateLimitPerMin : Option UInt64
  unit : PlanUnit
  deriving DecidableEq

inductive QuotaHistory where
  | new
  | recovered
  | planChanged
  | unavailable
  deriving DecidableEq

def maxQuotaAccounts : ℕ := 4096

def maxPlanWindows : ℕ := 64

def maxSettlementIds : ℕ := 256

def maxAccountStateBytes : ℕ := 128 * 1024

/-! ## Saved accounts -/

/-- What the store keeps for one account under one plan. -/
structure SavedAccount where
  ledger : AccountLedger
  recentRequests : List String
  /-- Settled requests whose provider reported no usage. -/
  unknownUsageRequests : UInt64
  planChangedBaseline : Bool
  deriving DecidableEq

namespace SavedAccount

def validate (saved : SavedAccount) (expected : AccountLedger) : Except String Unit :=
  if !saved.ledger.compatibleWith expected
      || decide (saved.recentRequests.length > maxSettlementIds)
      || saved.recentRequests.any (fun id ↦ id.utf8ByteSize > 512) then
    .error "Quota state does not match its account plan."
  else .ok ()

/-- Count one exchange. -/
def count (saved : SavedAccount) (nowMs amount : UInt64) (missingUsage : Bool) : SavedAccount :=
  { saved with
    ledger := saved.ledger.record nowMs amount
    unknownUsageRequests :=
      Word.satAdd saved.unknownUsageRequests (if missingUsage then 1 else 0) }

@[simp] theorem count_recentRequests (saved : SavedAccount) (nowMs amount : UInt64)
    (missingUsage : Bool) :
    (saved.count nowMs amount missingUsage).recentRequests = saved.recentRequests := rfl

/-- Record one exchange, at most once while its receipt is remembered. The oldest receipts make
room when there are more than `maxSettlementIds`. -/
def record (saved : SavedAccount) (requestId : Option String) (nowMs amount : UInt64)
    (missingUsage : Bool) : SavedAccount :=
  match requestId with
  | some requestId =>
    if requestId ∈ saved.recentRequests then saved
    else
      { saved with
        recentRequests := keepLast maxSettlementIds (saved.recentRequests ++ [requestId]) }.count
        nowMs amount missingUsage
  | none => saved.count nowMs amount missingUsage

end SavedAccount

/-! ## The store -/

/-- The serializer: the text of a plan, and the length of an account's text in bytes. -/
structure Serde where
  planText : QuotaPlan → String
  stateLen : SavedAccount → ℕ

/-- A `state` column: the length of its text and what parsing the text gives. -/
structure StateText where
  size : ℕ
  parsed : Except String SavedAccount

/-- The text written for an account parses to that account. -/
def Serde.stateText (serde : Serde) (saved : SavedAccount) : StateText :=
  ⟨serde.stateLen saved, .ok saved⟩

/-- The table `quota_accounts`, with account and plan as its key. -/
abbrev QuotaAccounts : Type := AList fun _ : String × String ↦ StateText

/-- The shared directory: the table and the marker of a failed write. -/
structure QuotaDirectory where
  accounts : QuotaAccounts
  failureMarker : Bool

/-- An account as a tracker holds it. -/
structure TrackedAccount where
  saved : SavedAccount
  plan : String
  history : QuotaHistory
  unit : PlanUnit
  rateLimitPerMin : Option UInt64

namespace TrackedAccount

def fromPlan (serde : Serde) (plan : QuotaPlan) : TrackedAccount where
  saved :=
    { ledger := AccountLedger.new
        (plan.windows.map fun spec ↦ SlidingWindow.new spec.lenMs spec.limit) plan.rateLimitPerMin
      recentRequests := []
      unknownUsageRequests := 0
      planChangedBaseline := false }
  plan := serde.planText plan
  history := .new
  unit := plan.unit
  rateLimitPerMin := plan.rateLimitPerMin

def amount (account : TrackedAccount) (usage : Usage) : UInt64 :=
  match account.unit with
  | .tokens => Word.satAdd usage.inputTokens usage.outputTokens
  | .requests => 1

/-- What one settled exchange adds to the windows, when its usage may not be known. -/
def consumption (account : TrackedAccount) (usage : Option Usage) : UInt64 :=
  match account.unit with
  | .requests => 1
  | .tokens => usage.elim 0 account.amount

end TrackedAccount

/-- What the system reports while a tracker works: an error of the files or the database, and
whether the failure marker could not be written. -/
structure Faults where
  store : Option String
  transaction : Option String
  marker : Bool

namespace QuotaStore

def «open» (directory : QuotaDirectory) (faults : Faults) : Except String Unit :=
  if directory.failureMarker then
    .error ("Quota history needs repair after a failed write. Restore quota.sqlite from a known "
      ++ "backup before removing quota-state-unavailable.")
  else
    match faults.store with
    | some error => .error error
    | none => .ok ()

def load (accounts : QuotaAccounts) (name plan : String) (expected : AccountLedger) :
    Except String (Option SavedAccount) :=
  match accounts.lookup (name, plan) with
  | none => .ok none
  | some serialized =>
    if serialized.size > maxAccountStateBytes then
      .error "Quota account state exceeds its size limit."
    else
      match serialized.parsed with
      | .error error => .error error
      | .ok saved => (saved.validate expected).map fun _ ↦ some saved

/-- Adopt the account's row, or insert a fresh one. A row under another plan marks the fresh row as
a changed plan's baseline. -/
def prepare (serde : Serde) (accounts : QuotaAccounts) (name : String) (account : TrackedAccount) :
    Except String (QuotaAccounts × TrackedAccount) :=
  match load accounts name account.plan account.saved.ledger with
  | .error error => .error error
  | .ok (some saved) =>
    .ok (accounts, { account with
      saved := saved
      history := if saved.planChangedBaseline then .planChanged else .recovered })
  | .ok none =>
    let account :=
      if accounts.keys.any fun key ↦ key.1 = name then
        { account with
          history := .planChanged
          saved := { account.saved with planChangedBaseline := true } }
      else account
    if accounts.keys.length ≥ maxQuotaAccounts then
      .error "Quota state has reached its account limit."
    else .ok (accounts.insert (name, account.plan) (serde.stateText account.saved), account)

/-- Prepare the accounts of every plan, in one transaction. -/
def prepareAll (serde : Serde) : List (Σ _ : String, QuotaPlan) → QuotaAccounts →
    Except String (QuotaAccounts × AList fun _ : String ↦ TrackedAccount)
  | [], accounts => .ok (accounts, ∅)
  | ⟨name, plan⟩ :: rest, accounts =>
    match prepare serde accounts name (TrackedAccount.fromPlan serde plan) with
    | .error error => .error error
    | .ok (accounts, account) =>
      match prepareAll serde rest accounts with
      | .error error => .error error
      | .ok (accounts, tracked) => .ok (accounts, tracked.insert name account)

/-- One settlement's transaction. It leaves the table alone unless it commits. -/
def record (serde : Serde) (accounts : QuotaAccounts) (name : String) (account : TrackedAccount)
    (requestId : Option String) (nowMs amount : UInt64) (missingUsage : Bool) (faults : Faults) :
    Except String (QuotaAccounts × SavedAccount) :=
  match faults.transaction with
  | some error => .error error
  | none =>
    match load accounts name account.plan account.saved.ledger with
    | .error error => .error error
    | .ok none => .error "The persisted quota account is missing."
    | .ok (some saved) =>
      let saved := saved.record requestId nowMs amount missingUsage
      if serde.stateLen saved > maxAccountStateBytes then
        .error "Quota account state exceeds its size limit."
      else .ok (accounts.insert (name, account.plan) (serde.stateText saved), saved)

end QuotaStore

/-! ## Trackers -/

/-- A gateway's quota state: its accounts, whether it opened the store, and whether the store has
failed it. -/
structure QuotaTracker where
  accounts : AList fun _ : String ↦ TrackedAccount
  store : Bool
  persistenceFailed : Bool

namespace QuotaTracker

/-- Open a tracker on a directory. -/
def persistent (serde : Serde) (plans : AList fun _ : String ↦ QuotaPlan)
    (directory : QuotaDirectory) (faults : Faults) :
    Except String (QuotaTracker × QuotaDirectory) :=
  if plans.keys.length > maxQuotaAccounts || plans.entries.any (fun entry ↦
      entry.1.utf8ByteSize > 1024 || entry.2.windows.length > maxPlanWindows) then
    .error "Quota plans exceed the state limits."
  else if plans.entries.isEmpty then .ok (⟨∅, false, false⟩, directory)
  else
    match QuotaStore.open directory faults with
    | .error error => .error error
    | .ok () =>
      match faults.transaction with
      | some error => .error error
      | none =>
        match QuotaStore.prepareAll serde plans.entries directory.accounts with
        | .error error => .error error
        | .ok (accounts, tracked) =>
          .ok (⟨tracked, true, false⟩, { directory with accounts := accounts })

/-- Note a failure, once, and leave the marker that keeps the store from being opened again. -/
def persistenceError (tracker : QuotaTracker) (directory : QuotaDirectory) (faults : Faults) :
    QuotaTracker × QuotaDirectory :=
  if tracker.persistenceFailed then (tracker, directory)
  else
    ({ tracker with persistenceFailed := true },
      if tracker.store && !faults.marker then { directory with failureMarker := true }
      else directory)

def setSaved (tracker : QuotaTracker) (upstream : String) (account : TrackedAccount)
    (saved : SavedAccount) : QuotaTracker :=
  { tracker with accounts := tracker.accounts.insert upstream { account with saved := saved } }

def recordConsumption (serde : Serde) (tracker : QuotaTracker) (directory : QuotaDirectory)
    (upstream : String) (requestId : Option String) (nowMs : UInt64) (usage : Option Usage)
    (faults : Faults) : QuotaTracker × QuotaDirectory :=
  match tracker.accounts.lookup upstream with
  | none => (tracker, directory)
  | some account =>
    let amount := account.consumption usage
    let inMemory := account.saved.record requestId nowMs amount usage.isNone
    if tracker.store then
      match QuotaStore.record serde directory.accounts upstream account requestId nowMs amount
          usage.isNone faults with
      | .ok (accounts, saved) =>
        (tracker.setSaved upstream account saved, { directory with accounts := accounts })
      | .error _ =>
        let failed := tracker.persistenceError directory faults
        (failed.1.setSaved upstream account inMemory, failed.2)
    else (tracker.setSaved upstream account inMemory, directory)

/-- Count a settled request, even when its token usage is not known. -/
def recordSettled (serde : Serde) (tracker : QuotaTracker) (directory : QuotaDirectory)
    (upstream requestId : String) (nowMs : UInt64) (usage : Option Usage) (completed : Bool)
    (faults : Faults) : QuotaTracker × QuotaDirectory :=
  if completed || usage.isSome then
    if requestId.utf8ByteSize > 512 then tracker.persistenceError directory faults
    else tracker.recordConsumption serde directory upstream (some requestId) nowMs usage faults
  else (tracker, directory)

end QuotaTracker

end TokenStation
