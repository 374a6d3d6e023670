import TokenStation.Gateway.ProviderCall

/-!
# The attempt machine

A routed request tries the targets of its decision in order. The machine owns the budget, the
permits and leases, the receipts and the settlement; what an attempt puts on the wire is a
parameter, so that every payload goes through the same bookkeeping.

Everything that other requests can see is an `Event`. Rust drops the permit and the lease at the end
of their scope; the model drops them where the scope ends.
-/

namespace TokenStation

def maxAttempts : ℕ := 6

/-- The handle of one granted lease. -/
structure LeaseId where
  account : String
  serial : ℕ
  deriving DecidableEq

/-- Which targets have been seen to take images. -/
abbrev ImageObservations := AList fun _ : UpstreamModel ↦ CapabilityState

/-- The receipt of one attempt. -/
structure AttemptRecord where
  ordinal : ℕ
  upstream : UpstreamRef
  model : String
  httpStatus : Option ℕ
  errorCode : Option ErrorCode
  streamOutcome : Option StreamOutcome
  fallbackAllowed : Bool

def AttemptRecord.target (attempt : AttemptRecord) : UpstreamModel :=
  ⟨attempt.upstream, attempt.model⟩

/-- What the gateway notes of one request. -/
structure RequestRecord where
  requestId : String
  status : ℕ := 0
  attempts : ℕ := 0
  attemptRecords : List AttemptRecord := []
  usage : Option Usage := none
  errorCode : Option ErrorCode := none

/-- What a dispatch does, in order. -/
inductive Event where
  | visited (target : UpstreamModel)
  | refused (target : UpstreamModel)
  | entered (target : UpstreamModel)
  | granted (ordinal : ℕ) (lease : LeaseId)
  | called (ordinal : ℕ) (target : UpstreamModel)
  | emitted (reply : Reply) (accepted : Bool)
  | settled (upstream : UpstreamRef) (receiptId : String) (usage : Option Usage) (completed : Bool)
  | imageObserved (target : UpstreamModel) (state : CapabilityState)
  | observed (target : UpstreamModel) (failure : Option ErrorEnvelope)
  | released (lease : LeaseId)
  | waited (duration : ℕ)
  | left (target : UpstreamModel)

/-- The events of the replies that an attempt handed on. -/
def emissions (replies : List (Reply × Bool)) : List Event :=
  replies.map fun reply ↦ .emitted reply.1 reply.2

/-- The state that requests share: provider permits, leases and accounts, health, and what is known
about images. -/
structure Ledgers (W : Type) where
  enterProvider : UpstreamRef → W → Bool × W
  leaveProvider : UpstreamRef → W → W
  grantLease : UpstreamRef → ℕ → W → LeaseId × W
  releaseLease : LeaseId → W → W
  recordSettled : UpstreamRef → String → Option Usage → Bool → W → W
  observe : UpstreamModel → Option ErrorEnvelope → W → W
  /-- Keep a conversation with the target that served it. -/
  remember : String → UpstreamModel → W → W
  updateImageObservations : (ImageObservations → ImageObservations) → W → W
  /-- Sleep until the time is over or the request is cancelled. -/
  waitRetryDelay : ℕ → W → W

/-- The state of a dispatch. -/
structure Dispatch (W : Type) where
  world : W
  record : RequestRecord
  events : List Event := []

namespace Dispatch

variable {W : Type}

/-- Let the world answer. -/
def ask {α : Type} (op : W → α × W) : StateM (Dispatch W) α := fun dispatch ↦
  ((op dispatch.world).1, { dispatch with world := (op dispatch.world).2 })

/-- Change the world, and log what was done. -/
def act (event : Event) (op : W → W) : StateM (Dispatch W) Unit :=
  modify fun dispatch ↦
    { dispatch with world := op dispatch.world, events := dispatch.events ++ [event] }

/-- Log what has been done. -/
def log (event : Event) : StateM (Dispatch W) Unit := act event id

def updateRecord (f : RequestRecord → RequestRecord) : StateM (Dispatch W) Unit :=
  modify fun dispatch ↦ { dispatch with record := f dispatch.record }

end Dispatch

open Dispatch

/-! ## The budget -/

/-- One logical request's fallback limits. -/
structure AttemptBudget where
  maxAttempts : ℕ
  maxElapsed : ℕ
  maxCost : Option UInt64
  started : ℕ
  attempts : ℕ
  reservedCost : UInt64

namespace AttemptBudget

variable {W : Type} (env : Environment W) (ctx : RequestContext)

def forRequest (world : W) : AttemptBudget × W :=
  let (maxElapsed, world) := TokenStation.remaining env ctx world
  let (started, world) := env.now world
  ({ maxAttempts := TokenStation.maxAttempts
     maxElapsed
     maxCost := none
     started
     attempts := 0
     reservedCost := 0 }, world)

def remaining (budget : AttemptBudget) (world : W) : ℕ × W :=
  (budget.maxElapsed - ((env.now world).1 - budget.started), (env.now world).2)

/-- The reserved cost with one more attempt, if the budget has a limit that covers it or none. -/
def reserve (budget : AttemptBudget) (estimatedCost : Option UInt64) : Option UInt64 :=
  match budget.maxCost, estimatedCost with
  | some _, none => none
  | maxCost, estimatedCost =>
    let reserved := Library.Word.satAdd budget.reservedCost (estimatedCost.getD 0)
    if maxCost.any fun maximum ↦ maximum < reserved then none else some reserved

/-- Consume one attempt; nothing once the count, the time or the cost is spent. -/
def tryBegin (budget : AttemptBudget) (estimatedCost : Option UInt64) (world : W) :
    Option AttemptBudget × W :=
  if budget.maxAttempts ≤ budget.attempts then (none, world)
  else
    match budget.remaining env world with
    | (0, world) => (none, world)
    | (_, world) =>
      ((budget.reserve estimatedCost).map fun reservedCost ↦
        { budget with attempts := budget.attempts + 1, reservedCost }, world)

/-- The wait before a retry, within both deadlines. -/
def retryDelay (budget : AttemptBudget) (requested : ℕ) (world : W) : ℕ × W :=
  let (left, world) := budget.remaining env world
  let (rest, world) := TokenStation.remaining env ctx world
  (min (min requested left) rest, world)

def hasAttemptRemaining (budget : AttemptBudget) : Bool := budget.attempts < budget.maxAttempts

end AttemptBudget

/-! ## Receipts -/

/-- The receipt of an attempt that ended in `result`. -/
def attemptReceipt (target : UpstreamModel) (ordinal : ℕ) (httpStatus : Option ℕ)
    (result : AttemptResult) (record : RequestRecord) : AttemptRecord :=
  match result with
  | .ok outcome =>
    let errorCode :=
      match outcome with
      | .complete | .clientCancelled => none
      | .failedAfterPartial | .failedBeforeOutput => record.errorCode
    { ordinal
      upstream := target.upstream
      model := target.model
      httpStatus
      errorCode
      streamOutcome := some outcome
      fallbackAllowed :=
        outcome == .failedBeforeOutput && errorCode.any ErrorCode.isRetriableElsewhere }
  | .error error =>
    { ordinal
      upstream := target.upstream
      model := target.model
      httpStatus
      errorCode := some error.code
      streamOutcome := some .failedBeforeOutput
      fallbackAllowed := attemptFallbackAllowed error }

/-- The receipt id under which an attempt settles its account. -/
def receiptId (record : RequestRecord) : String :=
  s!"{record.requestId}:attempt:{record.attempts}"

/-- Whether the attempt served the whole answer. -/
def isComplete : AttemptResult → Bool
  | .ok .complete => true
  | _ => false

/-- A refusal of images is never forgotten. -/
def observeImage (target : UpstreamModel) (state : CapabilityState)
    (observations : ImageObservations) : ImageObservations :=
  match observations.lookup target with
  | some .unsupported => observations
  | _ => observations.insert target state

/-! ## Dispatch -/

section Dispatch

variable {W : Type} (env : Environment W) (ledgers : Ledgers W) (ctx : RequestContext)
  (catalog : List (UpstreamModel × ModelCapability)) (hasImages : Bool)
  (attempt : UpstreamModel → StateM (Exchange W) AttemptResult)

/-- Run the attempt, and settle what it consumed. -/
def tryUpstream (target : UpstreamModel) : StateM (Dispatch W) (AttemptResult × Exchange W) := do
  let dispatch ← get
  let start : Exchange W := { world := dispatch.world, errorCode := dispatch.record.errorCode }
  let (result, exchange) := (attempt target).run start
  let (usage, world) := env.finishAccounting exchange.usage exchange.world
  let record := { dispatch.record with usage, errorCode := exchange.errorCode }
  set { dispatch with
    world
    record
    events := dispatch.events ++ emissions exchange.emitted }
  act (.settled target.upstream (receiptId record) usage (isComplete result))
    (ledgers.recordSettled target.upstream (receiptId record) usage (isComplete result))
  pure (result, exchange)

/-- What an image attempt says about its target. -/
def imageObservation (exchange : Exchange W) (result : AttemptResult) :
    StateM (Dispatch W) (Option CapabilityState) := do
  match result with
  | .error error =>
    let cancelled ← ask (isCancelled env ctx)
    pure (if !cancelled && isImageChannelRefusal error then some .unsupported else none)
  | .ok outcome =>
    pure (if outcome = .complete && exchange.validImageResponse
        && exchange.upstreamHttpStatus.any (fun status ↦ 200 ≤ status && status < 300)
      then some .declared else none)

/-- Learn from an image attempt. -/
def observeImageAttempt (target : UpstreamModel) (exchange : Exchange W) (result : AttemptResult) :
    StateM (Dispatch W) Unit := do
  if hasImages then
    match ← imageObservation env ctx exchange result with
    | none => pure ()
    | some state =>
      let originallyUnknown := catalog.any fun entry ↦
        entry.1 == target && entry.2.visionState == .unknown
      if state == .unsupported || originallyUnknown then
        act (.imageObserved target state)
          (ledgers.updateImageObservations (observeImage target state))
      else pure ()
  else pure ()

/-- One attempt: take a lease, call the upstream, settle, learn, and write the receipt. -/
def runAttempt (target : UpstreamModel) (ordinal : ℕ) :
    StateM (Dispatch W) (AttemptResult × LeaseId) := do
  let left ← ask (remaining env ctx)
  let lease ← ask (ledgers.grantLease target.upstream (min (2 ^ 64 - 1) (left / 1000000)))
  log (.granted ordinal lease)
  updateRecord fun record ↦ { record with attempts := ordinal }
  log (.called ordinal target)
  let (raw, exchange) ← tryUpstream env ledgers attempt target
  let result := raw.mapError (attemptError hasImages exchange.outputStarted)
  observeImageAttempt env ledgers ctx catalog hasImages target exchange result
  updateRecord fun record ↦
    { record with
      attemptRecords := record.attemptRecords ++
        [attemptReceipt target ordinal exchange.upstreamHttpStatus result record] }
  pure (result, lease)

/-- Give the permit back, and the lease before it. -/
def closeAttempt (target : UpstreamModel) (lease : LeaseId) : StateM (Dispatch W) Unit := do
  act (.released lease) (ledgers.releaseLease lease)
  act (.left target) (ledgers.leaveProvider target.upstream)

/-- Honour a `Retry-After` when another attempt can follow. -/
def waitForRetry (budget : AttemptBudget) (error : ErrorEnvelope) (targetsLeft : Bool) :
    StateM (Dispatch W) Unit := do
  match error.retryAfterMs with
  | none => pure ()
  | some retryAfterMs =>
    if targetsLeft && budget.hasAttemptRemaining then
      let wait ← ask (budget.retryDelay env ctx (retryAfterMs * 1000000))
      if wait ≠ 0 then
        if ← ask (isCancelled env ctx) then pure ()
        else act (.waited wait) (ledgers.waitRetryDelay wait)
      else pure ()
    else pure ()

/-- The request was cancelled before the next attempt. Usage belongs to the last one started. -/
def cancelBeforeAttempt (pending : UpstreamModel) :
    StateM (Dispatch W) (Except ErrorEnvelope (UpstreamModel × StreamOutcome)) := do
  match ← ask (lifecycleCancellation env ctx) with
  | some error => pure (.error error)
  | none =>
    let reply := cancelledReply env.jsonText
    let accepted ← ask (env.deliver reply)
    log (.emitted reply accepted)
    let dispatch ← get
    let served := (dispatch.record.attemptRecords.getLast?.map AttemptRecord.target).getD pending
    pure (.ok (served, .clientCancelled))

def providerLimitReached : ErrorEnvelope :=
  ErrorEnvelope.new .capacity 429 "provider concurrency limit reached"

def noUpstreamTried : ErrorEnvelope := ErrorEnvelope.new .internal 500 "no upstream was tried"

/-- The targets in order: on to the next one only while the error says that another upstream is
worth trying, and only before the first byte is out. -/
def dispatchTargets (budget : AttemptBudget) (lastError : Option ErrorEnvelope) :
    List UpstreamModel →
      StateM (Dispatch W) (Except ErrorEnvelope (UpstreamModel × StreamOutcome))
  | [] => pure (.error (lastError.getD noUpstreamTried))
  | target :: targets => do
    log (.visited target)
    if ← ask (isCancelled env ctx) then cancelBeforeAttempt env ctx target
    else if ← ask (ledgers.enterProvider target.upstream) then
      log (.entered target)
      match ← ask (budget.tryBegin env none) with
      | none =>
        act (.left target) (ledgers.leaveProvider target.upstream)
        pure (.error (lastError.getD noUpstreamTried))
      | some budget =>
        let (result, lease) ←
          runAttempt env ledgers ctx catalog hasImages attempt target budget.attempts
        match result with
        | .ok outcome =>
          closeAttempt ledgers target lease
          pure (.ok (target, outcome))
        | .error failure =>
          match ← ask (lifecycleCancellation env ctx) with
          | some lifecycle =>
            closeAttempt ledgers target lease
            pure (.error lifecycle)
          | none =>
            let (fallbackAllowed, error) := takeAttemptFallbackPolicy failure
            act (.observed target (some error)) (ledgers.observe target (some error))
            if fallbackAllowed then
              act (.released lease) (ledgers.releaseLease lease)
              waitForRetry env ledgers ctx budget error !targets.isEmpty
              act (.left target) (ledgers.leaveProvider target.upstream)
              dispatchTargets budget (some error) targets
            else
              closeAttempt ledgers target lease
              pure (.error error)
    else
      -- a provider at its ceiling is skipped: no attempt, no receipt
      log (.refused target)
      dispatchTargets budget (some providerLimitReached) targets

def dispatch (decision : Decision) :
    StateM (Dispatch W) (Except ErrorEnvelope (UpstreamModel × StreamOutcome)) := do
  let budget ← ask (AttemptBudget.forRequest env ctx)
  dispatchTargets env ledgers ctx catalog decision.features.hasImages attempt budget none
    decision.targets

/-! ## The caller -/

/-- Each attempt has settled its own consumption; what is left is the conversation's affinity. -/
def settleQuota (session : String) (result : Except ErrorEnvelope (UpstreamModel × StreamOutcome)) :
    StateM (Dispatch W) Unit := do
  let dispatch ← get
  match result with
  | .ok (served, outcome) =>
    if session ≠ "" ∧ (outcome = .complete ∨ dispatch.record.usage.isSome) then
      ask fun world ↦ ((), ledgers.remember session served world)
    else pure ()
  | .error _ => pure ()

def executeRoutedAttempt (session : String) (decision : Decision) :
    StateM (Dispatch W) (Except ErrorEnvelope (UpstreamModel × StreamOutcome)) := do
  let result ← dispatch env ledgers ctx catalog attempt decision
  settleQuota ledgers session result
  pure result

/-- The record with a failure's code, and the status that the client was not told. -/
def RequestRecord.failWith (record : RequestRecord) (code : ErrorCode) : RequestRecord :=
  { record with
    errorCode := some (record.errorCode.getD code)
    status := if record.status < 400 then 502 else record.status }

/-- The one place where the status of a finished exchange and its target's health are written. -/
def settle (served : UpstreamModel) (outcome : StreamOutcome) : StateM (Dispatch W) Unit := do
  match outcome with
  | .complete =>
    updateRecord fun record ↦ { record with status := 200 }
    act (.observed served none) (ledgers.observe served none)
  | .failedBeforeOutput =>
    updateRecord fun record ↦ record.failWith .upstreamUnavailable
    let dispatch ← get
    let code := dispatch.record.errorCode.getD .upstreamUnavailable
    let failure := ErrorEnvelope.new code dispatch.record.status ""
    -- the dispatch has already charged an attempt that it would have retried
    if dispatch.record.attemptRecords.getLast?.any AttemptRecord.fallbackAllowed then pure ()
    else act (.observed served (some failure)) (ledgers.observe served (some failure))
  | .failedAfterPartial =>
    updateRecord fun record ↦ record.failWith .transportTruncated
  | .clientCancelled =>
    updateRecord fun record ↦ { record with status := 499, errorCode := none }

/-- An error in the spelling of the inbound protocol. -/
def renderError (agent : LoadedAgent) (refusal : ErrorEnvelope) : StateM (Dispatch W) Reply := do
  match ← ask (env.mapInboundError agent refusal none) with
  | .ok document => pure (.beginJson refusal.httpStatus (env.jsonText document))
  | .error _ =>
    pure (.beginJson refusal.httpStatus (env.jsonText (.object [("error",
      .object [("message", .string refusal.message), ("type", .string "internal")])])))

/-- Settle what was served, or hand on the refusal as a whole answer. -/
def chatScopedInner (agent : LoadedAgent)
    (chatInner : StateM (Dispatch W) (Except ErrorEnvelope (UpstreamModel × StreamOutcome))) :
    StateM (Dispatch W) Unit := do
  match ← chatInner with
  | .ok (served, outcome) => settle ledgers served outcome
  | .error refusal =>
    updateRecord fun record ↦
      { record with status := refusal.httpStatus, errorCode := some refusal.code }
    let rendered ← renderError env agent refusal
    let accepted ← ask (env.deliver rendered)
    log (.emitted rendered accepted)

end Dispatch

end TokenStation
