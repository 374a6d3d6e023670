import TokenStation.Gateway.AttemptMachine
import TokenStation.Library.Triple

/-!
# The runs of a dispatch

`Run` says what a dispatch can do: which events and receipts it adds for its targets, one
constructor for each way an iteration of the loop can end. `dispatch_run` shows that the code does
nothing else; what holds of every dispatch is then an induction over `Run`. The attempts are a
parameter of both: `Post` is whatever they guarantee of their result and of the replies they have
handed on.
-/

namespace TokenStation

open Library Dispatch

/-- What one attempt leaves behind. -/
structure AttemptTrace (Post : AttemptResult → List (Reply × Bool) → Prop) (ordinal : ℕ)
    (target : UpstreamModel) where
  lease : LeaseId
  /-- How the attempt ended, before its error is rewritten. -/
  result : AttemptResult
  replies : List (Reply × Bool)
  usage : Option Usage
  imageState : Option CapabilityState
  record : AttemptRecord
  post : Post result replies
  ordinal_eq : record.ordinal = ordinal
  target_eq : record.target = target

namespace AttemptTrace

variable {Post : AttemptResult → List (Reply × Bool) → Prop} {ordinal : ℕ}
  {target : UpstreamModel}

/-- The events of an attempt that holds its lease, up to its receipt. -/
def callEvents (requestId : String) (attempt : AttemptTrace Post ordinal target) : List Event :=
  [.called ordinal target] ++ emissions attempt.replies ++
    [.settled target.upstream s!"{requestId}:attempt:{ordinal}" attempt.usage
      (isComplete attempt.result)] ++
    attempt.imageState.toList.map (.imageObserved target)

/-- The events of an attempt, from its lease to its receipt. -/
def events (requestId : String) (attempt : AttemptTrace Post ordinal target) : List Event :=
  .granted ordinal attempt.lease :: attempt.callEvents requestId

theorem forall_mem_callEvents {requestId : String} {p : Event → Prop}
    (attempt : AttemptTrace Post ordinal target) (hcalled : p (.called ordinal target))
    (hemitted : ∀ reply ∈ attempt.replies, p (.emitted reply.1 reply.2))
    (hsettled : ∀ receiptId usage completed, p (.settled target.upstream receiptId usage completed))
    (himage : ∀ state, p (.imageObserved target state)) :
    ∀ event ∈ attempt.callEvents requestId, p event := by
  intro event hevent
  simp only [callEvents, emissions, List.mem_append, List.mem_map, List.mem_singleton] at hevent
  rcases hevent with ((rfl | ⟨reply, hreply, rfl⟩) | rfl) | ⟨state, -, rfl⟩
  · exact hcalled
  · exact hemitted reply hreply
  · exact hsettled ..
  · exact himage state

end AttemptTrace

/-- How a dispatch ends. -/
abbrev DispatchResult : Type := Except ErrorEnvelope (UpstreamModel × StreamOutcome)

/-- The runs over a list of targets, after `started` attempts. -/
inductive Run (requestId : String) (Post : AttemptResult → List (Reply × Bool) → Prop) :
    ℕ → List UpstreamModel → List AttemptRecord → List Event → DispatchResult → Prop
  | exhausted {started : ℕ} (error : ErrorEnvelope) :
    Run requestId Post started [] [] [] (.error error)
  | drained {started : ℕ} {target : UpstreamModel} {targets : List UpstreamModel}
      (error : ErrorEnvelope) :
    Run requestId Post started (target :: targets) [] [.visited target] (.error error)
  | disconnected {started : ℕ} {target : UpstreamModel} {targets : List UpstreamModel}
      (status : ℕ) (body : String) (accepted : Bool) (served : UpstreamModel) :
    Run requestId Post started (target :: targets) []
      [.visited target, .emitted (.beginJson status body) accepted]
      (.ok (served, .clientCancelled))
  | refused {started : ℕ} {target : UpstreamModel} {targets : List UpstreamModel}
      {records : List AttemptRecord} {events : List Event} {result : DispatchResult}
      (rest : Run requestId Post started targets records events result) :
    Run requestId Post started (target :: targets) records
      (.visited target :: .refused target :: events) result
  | spent {started : ℕ} {target : UpstreamModel} {targets : List UpstreamModel}
      (error : ErrorEnvelope) :
    Run requestId Post started (target :: targets) []
      [.visited target, .entered target, .left target] (.error error)
  | answered {started : ℕ} {target : UpstreamModel} {targets : List UpstreamModel}
      (attempt : AttemptTrace Post (started + 1) target) (budget : started < maxAttempts)
      (outcome : StreamOutcome) (served : attempt.result = .ok outcome) :
    Run requestId Post started (target :: targets) [attempt.record]
      (.visited target :: .entered target :: attempt.events requestId ++
        [.released attempt.lease, .left target]) (.ok (target, outcome))
  | failed {started : ℕ} {target : UpstreamModel} {targets : List UpstreamModel}
      (attempt : AttemptTrace Post (started + 1) target) (budget : started < maxAttempts)
      (raw error : ErrorEnvelope) (failure : attempt.result = .error raw)
      (observed : Option ErrorEnvelope) :
    Run requestId Post started (target :: targets) [attempt.record]
      (.visited target :: .entered target :: attempt.events requestId ++
        observed.toList.map (fun observation ↦ .observed target (some observation)) ++
        [.released attempt.lease, .left target]) (.error error)
  | retried {started : ℕ} {target : UpstreamModel} {targets : List UpstreamModel}
      {records : List AttemptRecord} {events : List Event} {result : DispatchResult}
      (attempt : AttemptTrace Post (started + 1) target) (budget : started < maxAttempts)
      (raw observed : ErrorEnvelope) (failure : attempt.result = .error raw)
      (allowed : attempt.record.fallbackAllowed = true) (wait : Option ℕ)
      (rest : Run requestId Post (started + 1) targets records events result) :
    Run requestId Post started (target :: targets) (attempt.record :: records)
      (.visited target :: .entered target :: attempt.events requestId ++
        [.observed target (some observed), .released attempt.lease] ++
        wait.toList.map .waited ++ [.left target] ++ events) result

/-! ## The code runs so -/

section

variable {W : Type} {env : Environment W} {ledgers : Ledgers W} {ctx : RequestContext}
  {catalog : List (UpstreamModel × ModelCapability)} {hasImages : Bool}
  {attempt : UpstreamModel → StateM (Exchange W) AttemptResult}
  {Post : AttemptResult → List (Reply × Bool) → Prop}
  {requestId : String} {records : List AttemptRecord} {events : List Event} {attempts : ℕ}

/-- The ledgers of a dispatch: its receipts, the events so far, and the attempts it has counted. -/
def At (requestId : String) (records : List AttemptRecord) (events : List Event) (attempts : ℕ)
    (dispatch : Dispatch W) : Prop :=
  dispatch.record.requestId = requestId ∧ dispatch.record.attemptRecords = records ∧
    dispatch.events = events ∧ dispatch.record.attempts = attempts

theorem ask_at {α : Type} (op : W → α × W) :
    Triple (At requestId records events attempts) (ask op)
      fun _ ↦ At requestId records events attempts :=
  fun _ h ↦ h

theorem act_at (event : Event) (op : W → W) :
    Triple (At requestId records events attempts) (act event op)
      fun _ ↦ At requestId records (events ++ [event]) attempts := by
  rintro dispatch ⟨hid, hrecords, hevents, hattempts⟩
  exact ⟨hid, hrecords, congrArg (· ++ [event]) hevents, hattempts⟩

theorem log_at (event : Event) :
    Triple (At (W := W) requestId records events attempts) (log event)
      fun _ ↦ At requestId records (events ++ [event]) attempts :=
  act_at event id

theorem updateRecord_attempts_at (ordinal : ℕ) :
    Triple (At (W := W) requestId records events attempts)
      (updateRecord fun record ↦ { record with attempts := ordinal })
      fun _ ↦ At requestId records events ordinal := by
  rintro dispatch ⟨hid, hrecords, hevents, -⟩
  exact ⟨hid, hrecords, hevents, rfl⟩

theorem tryUpstream_at (hattempt : ∀ target, Triple (fun exchange ↦ exchange.emitted = [])
    (attempt target) fun result exchange ↦ Post result exchange.emitted) (target : UpstreamModel) :
    Triple (At requestId records events attempts) (tryUpstream env ledgers attempt target)
      fun answer dispatch ↦ ∃ usage, Post answer.1 answer.2.emitted ∧
        At requestId records (events ++ emissions answer.2.emitted ++
          [.settled target.upstream s!"{requestId}:attempt:{attempts}" usage
            (isComplete answer.1)]) attempts dispatch := by
  rintro dispatch ⟨rfl, hrecords, rfl, rfl⟩
  exact ⟨_, hattempt target _ rfl, rfl, hrecords, rfl, rfl⟩

theorem observeImageAttempt_at (target : UpstreamModel) (exchange : Exchange W)
    (result : AttemptResult) :
    Triple (At requestId records events attempts)
      (observeImageAttempt env ledgers ctx catalog hasImages target exchange result)
      fun _ dispatch ↦ ∃ state : Option CapabilityState, At requestId records
        (events ++ state.toList.map (.imageObserved target)) attempts dispatch := by
  have hnothing : Triple (At (W := W) requestId records events attempts) (pure ())
      fun _ dispatch ↦ ∃ state : Option CapabilityState, At requestId records
        (events ++ state.toList.map (.imageObserved target)) attempts dispatch :=
    Triple.pure fun dispatch h ↦ ⟨none, by simpa using h⟩
  have hobservation : Triple (At requestId records events attempts)
      (imageObservation env ctx exchange result) fun _ ↦ At requestId records events attempts := by
    cases result with
    | error error => exact Triple.bind (ask_at _) fun _ ↦ Triple.pure fun _ h ↦ h
    | ok outcome => exact Triple.pure fun _ h ↦ h
  refine Triple.ite (fun _ ↦ Triple.bind hobservation fun observation ↦ ?_) fun _ ↦ hnothing
  cases observation with
  | none => exact hnothing
  | some state =>
    refine Triple.ite (fun _ ↦ ?_) fun _ ↦ hnothing
    exact (act_at _ _).weaken (fun _ h ↦ h) fun _ dispatch h ↦ ⟨some state, h⟩

theorem attemptReceipt_ordinal (target : UpstreamModel) (ordinal : ℕ) (httpStatus : Option ℕ)
    (result : AttemptResult) (record : RequestRecord) :
    (attemptReceipt target ordinal httpStatus result record).ordinal = ordinal := by
  cases result <;> rfl

theorem attemptReceipt_target (target : UpstreamModel) (ordinal : ℕ) (httpStatus : Option ℕ)
    (result : AttemptResult) (record : RequestRecord) :
    (attemptReceipt target ordinal httpStatus result record).target = target := by
  cases result <;> rfl

theorem runAttempt_at (hattempt : ∀ target, Triple (fun exchange ↦ exchange.emitted = [])
    (attempt target) fun result exchange ↦ Post result exchange.emitted) (target : UpstreamModel)
    (ordinal : ℕ) :
    Triple (At requestId records events attempts)
      (runAttempt env ledgers ctx catalog hasImages attempt target ordinal)
      fun answer dispatch ↦ ∃ trace : AttemptTrace Post ordinal target, trace.lease = answer.2 ∧
        (∃ rewrite, answer.1 = trace.result.mapError rewrite) ∧
        (∀ error, answer.1 = .error error →
          trace.record.fallbackAllowed = attemptFallbackAllowed error) ∧
        At requestId (records ++ [trace.record]) (events ++ trace.events requestId) ordinal
          dispatch := by
  refine Triple.bind (ask_at _) fun _ ↦ Triple.bind (ask_at _) fun lease ↦ ?_
  refine Triple.bind (log_at _) fun _ ↦ Triple.bind (updateRecord_attempts_at ordinal) fun _ ↦ ?_
  refine Triple.bind (log_at _) fun _ ↦ Triple.bind (tryUpstream_at hattempt target) ?_
  rintro ⟨raw, exchange⟩
  refine Triple.ofExists fun usage ↦ Triple.ofAnd fun hpost ↦ ?_
  refine Triple.bind (observeImageAttempt_at target exchange _) fun _ ↦ ?_
  refine Triple.ofExists fun imageState ↦ ?_
  rintro dispatch ⟨rfl, rfl, hevents, hattempts⟩
  let receipt := attemptReceipt target ordinal exchange.upstreamHttpStatus
    (raw.mapError (attemptError hasImages exchange.outputStarted)) dispatch.record
  let trace : AttemptTrace Post ordinal target :=
    { lease
      result := raw
      replies := exchange.emitted
      usage
      imageState
      record := receipt
      post := hpost
      ordinal_eq := attemptReceipt_ordinal ..
      target_eq := attemptReceipt_target .. }
  refine ⟨trace, rfl, ⟨_, rfl⟩, ?_, rfl, rfl, ?_, hattempts⟩
  · intro error (herror : raw.mapError (attemptError hasImages exchange.outputStarted) = _)
    show receipt.fallbackAllowed = _
    simp only [receipt, herror]
    rfl
  · refine hevents.trans ?_
    simp only [AttemptTrace.events, AttemptTrace.callEvents, trace, List.append_assoc,
      List.cons_append, List.nil_append]

theorem closeAttempt_at (target : UpstreamModel) (lease : LeaseId) :
    Triple (At requestId records events attempts) (closeAttempt ledgers target lease)
      fun _ ↦ At requestId records (events ++ [.released lease, .left target]) attempts := by
  refine Triple.bind (act_at _ _) fun _ ↦ (act_at _ _).weaken (fun _ h ↦ h) fun _ dispatch h ↦ ?_
  rwa [List.append_assoc] at h

theorem waitForRetry_at (budget : AttemptBudget) (error : ErrorEnvelope) (targetsLeft : Bool) :
    Triple (At requestId records events attempts)
      (waitForRetry env ledgers ctx budget error targetsLeft)
      fun _ dispatch ↦ ∃ wait : Option ℕ,
        At requestId records (events ++ wait.toList.map .waited) attempts dispatch := by
  have hnothing : Triple (At (W := W) requestId records events attempts) (pure ())
      fun _ dispatch ↦ ∃ wait : Option ℕ,
        At requestId records (events ++ wait.toList.map .waited) attempts dispatch :=
    Triple.pure fun dispatch h ↦ ⟨none, by simpa using h⟩
  rw [waitForRetry]
  split
  · exact hnothing
  · refine Triple.ite (fun _ ↦ Triple.bind (ask_at _) fun wait ↦ ?_) fun _ ↦ hnothing
    refine Triple.ite (fun _ ↦ Triple.bind (ask_at _) fun cancelled ↦ ?_) fun _ ↦ hnothing
    refine Triple.ite (fun _ ↦ hnothing) fun _ ↦ ?_
    exact (act_at _ _).weaken (fun _ h ↦ h) fun _ dispatch h ↦ ⟨some wait, h⟩

variable (Post) in
theorem cancelBeforeAttempt_run (started : ℕ) (target : UpstreamModel)
    (targets : List UpstreamModel) :
    Triple (At requestId records (events ++ [.visited target]) attempts)
      (cancelBeforeAttempt env ctx target)
      fun result dispatch ↦ ∃ trace,
        Run requestId Post started (target :: targets) [] trace result ∧
        At requestId records (events ++ trace) attempts dispatch := by
  refine Triple.bind (ask_at _) fun lifecycle ↦ ?_
  cases lifecycle with
  | some error => exact Triple.pure fun dispatch h ↦ ⟨_, .drained error, h⟩
  | none =>
    refine Triple.bind (ask_at _) fun accepted ↦ Triple.bind (log_at _) fun _ ↦ ?_
    rintro dispatch ⟨hid, hrecords, hevents, hattempts⟩
    exact ⟨_, .disconnected _ _ accepted _, hid, hrecords,
      hevents.trans (List.append_assoc ..), hattempts⟩

theorem tryBegin_eq_some {budget next : AttemptBudget} {estimatedCost : Option UInt64} {world : W}
    (h : (budget.tryBegin env estimatedCost world).1 = some next) :
    budget.attempts < budget.maxAttempts ∧ next.attempts = budget.attempts + 1 ∧
      next.maxAttempts = budget.maxAttempts := by
  rw [AttemptBudget.tryBegin] at h
  split at h
  · nomatch h
  next hbudget =>
    split at h
    · nomatch h
    · obtain ⟨reserved, -, rfl⟩ := Option.map_eq_some_iff.mp h
      exact ⟨Nat.lt_of_not_le hbudget, rfl, rfl⟩

theorem tryBegin_at (budget : AttemptBudget) (estimatedCost : Option UInt64) :
    Triple (At requestId records events attempts) (ask (budget.tryBegin env estimatedCost))
      fun next dispatch ↦ (∀ budget' ∈ next, budget.attempts < budget.maxAttempts ∧
        budget'.attempts = budget.attempts + 1 ∧ budget'.maxAttempts = budget.maxAttempts) ∧
        At requestId records events attempts dispatch := by
  intro dispatch h
  refine ⟨fun budget' hnext ↦ ?_, h⟩
  have hbegun : (budget.tryBegin env estimatedCost dispatch.world).1 = some budget' := hnext
  exact tryBegin_eq_some hbegun

/-- A dispatch that had these ledgers has run over the targets. The attempts counted at the end are
those of the last call. -/
def Ran (Post : AttemptResult → List (Reply × Bool) → Prop) (requestId : String)
    (records : List AttemptRecord) (events : List Event) (attempts started : ℕ)
    (targets : List UpstreamModel) (result : DispatchResult) (dispatch : Dispatch W) : Prop :=
  ∃ new trace, Run requestId Post started targets new trace result ∧
    At requestId (records ++ new) (events ++ trace)
      (if new = [] then attempts else started + new.length) dispatch

namespace Ran

variable {started : ℕ} {target : UpstreamModel} {targets : List UpstreamModel}
  {trace after : List Event} {result : DispatchResult} {dispatch : Dispatch W}

theorem without_attempt (hrun : Run requestId Post started targets [] trace result)
    (hafter : after = events ++ trace) (h : At requestId records after attempts dispatch) :
    Ran Post requestId records events attempts started targets result dispatch := by
  subst hafter
  refine ⟨[], trace, hrun, ?_⟩
  rwa [List.append_nil]

theorem with_attempt {record : AttemptRecord}
    (hrun : Run requestId Post started targets [record] trace result)
    (hafter : after = events ++ trace)
    (h : At requestId (records ++ [record]) after (started + 1) dispatch) :
    Ran Post requestId records events attempts started targets result dispatch := by
  subst hafter
  exact ⟨[record], trace, hrun, h⟩

theorem refused (hafter : after = events ++ [.visited target, .refused target])
    (h : Ran Post requestId records after attempts started targets result dispatch) :
    Ran Post requestId records events attempts started (target :: targets) result dispatch := by
  obtain ⟨new, trace, hrun, hat⟩ := h
  refine ⟨new, _, .refused hrun, ?_⟩
  rwa [hafter, List.append_assoc] at hat

theorem retried (attempt : AttemptTrace Post (started + 1) target) (budget : started < maxAttempts)
    (observed : ErrorEnvelope) {raw : ErrorEnvelope} (failure : attempt.result = .error raw)
    (allowed : attempt.record.fallbackAllowed = true) (wait : Option ℕ)
    (hafter : after = events ++ (.visited target :: .entered target :: attempt.events requestId ++
      [.observed target (some observed), .released attempt.lease] ++
      wait.toList.map .waited ++ [.left target]))
    (h : Ran Post requestId (records ++ [attempt.record]) after (started + 1) (started + 1) targets
      result dispatch) :
    Ran Post requestId records events attempts started (target :: targets) result dispatch := by
  obtain ⟨new, trace, hrun, hid, hrecords, hevents, hattempts⟩ := h
  refine ⟨_, _, .retried attempt budget raw observed failure allowed wait hrun, hid, ?_, ?_, ?_⟩
  · rw [hrecords, List.append_assoc, List.singleton_append]
  · rw [hevents, hafter, List.append_assoc]
  · -- the attempt itself counts when nothing follows it
    rw [hattempts, if_neg (List.cons_ne_nil _ _), List.length_cons]
    split
    next hnew => rw [hnew, List.length_nil]
    next => omega

end Ran

/-- **The loop runs as `Run` says.** -/
theorem dispatchTargets_run (hattempt : ∀ target, Triple (fun exchange ↦ exchange.emitted = [])
    (attempt target) fun result exchange ↦ Post result exchange.emitted)
    {budget : AttemptBudget} (hbudget : budget.maxAttempts = maxAttempts)
    (lastError : Option ErrorEnvelope) (targets : List UpstreamModel) :
    Triple (At requestId records events attempts)
      (dispatchTargets env ledgers ctx catalog hasImages attempt budget lastError targets)
      (Ran Post requestId records events attempts budget.attempts targets) := by
  induction targets generalizing budget lastError records events attempts with
  | nil =>
    refine Triple.pure fun dispatch h ↦ ?_
    exact .without_attempt (.exhausted _) (List.append_nil _).symm h
  | cons target targets ih =>
    refine Triple.bind (log_at _) fun _ ↦ Triple.bind (ask_at _) fun cancelled ↦ ?_
    refine Triple.ite (fun _ ↦ ?_) fun _ ↦ Triple.bind (ask_at _) fun admitted ↦ ?_
    · -- cancelled before the attempt
      refine (cancelBeforeAttempt_run Post budget.attempts target targets).weaken (fun _ h ↦ h) ?_
      rintro result dispatch ⟨trace, hrun, hat⟩
      exact .without_attempt hrun rfl hat
    refine Triple.ite (fun _ ↦ ?_) fun _ ↦ ?_
    · refine Triple.bind (log_at _) fun _ ↦ Triple.bind (tryBegin_at budget none) fun begun ↦ ?_
      refine Triple.ofAnd fun hbegun ↦ ?_
      cases begun with
      | none =>
        -- the budget is spent
        refine Triple.bind (act_at _ _) fun _ ↦ Triple.pure fun dispatch h ↦ ?_
        exact .without_attempt (.spent _) (by simp) h
      | some next =>
        obtain ⟨hlt, hattempts, hmax⟩ := hbegun next rfl
        rw [hbudget] at hlt
        dsimp only
        rw [hattempts]
        refine Triple.bind (runAttempt_at hattempt target (budget.attempts + 1)) ?_
        rintro ⟨result, lease⟩
        refine Triple.ofExists fun trace ↦ Triple.ofAnd fun hlease ↦ ?_
        obtain rfl : trace.lease = lease := hlease
        refine Triple.ofAnd fun ⟨rewrite, hresult⟩ ↦ Triple.ofAnd fun hallowed ↦ ?_
        obtain rfl : result = trace.result.mapError rewrite := hresult
        cases htrace : trace.result with
        | ok outcome =>
          refine Triple.bind (closeAttempt_at target _) fun _ ↦ Triple.pure fun dispatch h ↦ ?_
          exact .with_attempt (.answered trace hlt outcome htrace) (by simp) h
        | error raw =>
          refine Triple.bind (ask_at _) fun lifecycle ↦ ?_
          cases lifecycle with
          | some lifecycle =>
            -- a drain or a deadline during the attempt: health is not told
            refine Triple.bind (closeAttempt_at target _) fun _ ↦ Triple.pure fun dispatch h ↦ ?_
            exact .with_attempt (.failed trace hlt raw lifecycle htrace none) (by simp) h
          | none =>
            let observed := (takeAttemptFallbackPolicy (rewrite raw)).2
            refine Triple.bind (act_at _ _) fun _ ↦ Triple.ite (fun hfallback ↦ ?_) fun _ ↦ ?_
            · -- on to the next target, with the lease given back before the wait
              have hrecord : trace.record.fallbackAllowed = true := by
                rw [htrace] at hallowed
                exact (hallowed _ rfl).trans hfallback
              refine Triple.bind (act_at _ _) fun _ ↦ Triple.bind (waitForRetry_at _ _ _) fun _ ↦ ?_
              refine Triple.ofExists fun wait ↦ Triple.bind (act_at _ _) fun _ ↦ ?_
              refine (ih (hmax.trans hbudget) _).weaken (fun _ h ↦ h) fun result dispatch h ↦ ?_
              rw [hattempts] at h
              exact h.retried trace hlt observed htrace hrecord wait (by simp [observed])
            · -- the failure says that no other upstream is worth trying
              refine Triple.bind (closeAttempt_at target _) fun _ ↦ Triple.pure fun dispatch h ↦ ?_
              exact .with_attempt (.failed trace hlt raw observed htrace (some observed))
                (by simp [observed]) h
    · -- skipped by the provider's admission
      refine Triple.bind (log_at _) fun _ ↦ (ih hbudget _).weaken (fun _ h ↦ h) ?_
      exact fun result dispatch h ↦ h.refused (by simp)

variable (env ledgers ctx catalog Post) in
/-- **A dispatch runs as `Run` says**, over the targets of its decision and from no attempt. -/
theorem dispatch_run (hattempt : ∀ target, Triple (fun exchange ↦ exchange.emitted = [])
    (attempt target) fun result exchange ↦ Post result exchange.emitted) (decision : Decision) :
    Triple (At requestId records events attempts)
      (dispatch env ledgers ctx catalog attempt decision)
      fun result dispatch ↦ ∃ new trace, Run requestId Post 0 decision.targets new trace result ∧
        At requestId (records ++ new) (events ++ trace)
          (if new = [] then attempts else new.length) dispatch := by
  have hbudget : Triple (At requestId records events attempts)
      (ask (AttemptBudget.forRequest env ctx)) fun budget dispatch ↦
        (budget.maxAttempts = maxAttempts ∧ budget.attempts = 0) ∧
          At requestId records events attempts dispatch :=
    fun dispatch h ↦ ⟨⟨rfl, rfl⟩, h⟩
  refine Triple.bind hbudget fun budget ↦ Triple.ofAnd fun ⟨hmax, hstarted⟩ ↦ ?_
  refine (dispatchTargets_run hattempt hmax none decision.targets).weaken (fun _ h ↦ h) ?_
  rintro result dispatch ⟨new, trace, hrun, hat⟩
  rw [hstarted] at hrun hat
  rw [Nat.zero_add] at hat
  exact ⟨new, trace, hrun, hat⟩

end

end TokenStation
