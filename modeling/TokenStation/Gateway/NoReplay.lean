import TokenStation.Gateway.Bookkeeping
import TokenStation.Gateway.Replies

/-!
# No replay after output

The relay and the retry loop share one client. An attempt that has handed anything on ends the
dispatch, so the next target is tried only while the client has seen nothing, and the caller may
render the error of a dispatch as a whole answer of its own.
-/

namespace TokenStation

open Library Dispatch

namespace Event

def reply? : Event → Option (Reply × Bool)
  | emitted reply accepted => some (reply, accepted)
  | _ => none

end Event

/-- What the client was handed, and whether it took it. -/
def emittedReplies (events : List Event) : List (Reply × Bool) := events.filterMap Event.reply?

/-- What a dispatch with these receipts and events has done for the client. -/
structure NoReplay (result : DispatchResult) (receipts : List AttemptRecord)
    (events : List Event) : Prop where
  /-- Nothing was handed on for an error, and one response otherwise. -/
  settled : Settled result (emittedReplies events)
  /-- An upstream is called while nothing has been handed on. -/
  calls_first : ∀ before ordinal target after,
    events = before ++ .called ordinal target :: after → emittedReplies before = []
  /-- Every call but the first follows a failure that allows it. -/
  fallbackAllowed : ∀ call ∈ calls events, call.1 ≠ 1 →
    ∃ previous ∈ receipts, previous.ordinal + 1 = call.1 ∧ previous.fallbackAllowed = true

@[simp] theorem emittedReplies_nil : emittedReplies [] = [] := rfl

@[simp] theorem emittedReplies_cons (event : Event) (events : List Event) :
    emittedReplies (event :: events) = event.reply?.toList ++ emittedReplies events := by
  rw [emittedReplies, List.filterMap_cons]
  cases event.reply? <;> rfl

@[simp] theorem emittedReplies_append (before after : List Event) :
    emittedReplies (before ++ after) = emittedReplies before ++ emittedReplies after :=
  List.filterMap_append

@[simp] theorem emittedReplies_emissions (replies : List (Reply × Bool)) :
    emittedReplies (emissions replies) = replies := by
  rw [emittedReplies, emissions, List.filterMap_map]
  exact List.filterMap_some

theorem emittedReplies_eq_nil {events : List Event} :
    emittedReplies events = [] ↔ ∀ event ∈ events, event.reply? = none :=
  List.filterMap_eq_nil_iff

/-! ## Calls before output -/

/-- No upstream is called after a reply. -/
def CallsFirst (events : List Event) : Prop :=
  events.Pairwise fun earlier later ↦ earlier.reply? ≠ none → later.call? = none

theorem CallsFirst.of_not_called {events : List Event} (h : ∀ event ∈ events, event.call? = none) :
    CallsFirst events :=
  List.Pairwise.imp_of_mem (fun _ hlater _ _ ↦ h _ hlater)
    (List.pairwise_of_forall fun _ _ ↦ trivial)

theorem CallsFirst.of_quiet {events : List Event} (h : emittedReplies events = []) :
    CallsFirst events := by
  have hnone := emittedReplies_eq_nil.mp h
  exact List.Pairwise.imp_of_mem (fun hearlier _ _ hreply ↦ absurd (hnone _ hearlier) hreply)
    (List.pairwise_of_forall fun _ _ ↦ trivial)

theorem CallsFirst.append {quiet events : List Event} (hquiet : emittedReplies quiet = [])
    (h : CallsFirst events) : CallsFirst (quiet ++ events) := by
  refine List.pairwise_append.mpr ⟨CallsFirst.of_quiet hquiet, h, ?_⟩
  intro earlier hearlier later _ hreply
  exact absurd (emittedReplies_eq_nil.mp hquiet earlier hearlier) hreply

theorem CallsFirst.replies_before {events before after : List Event} {ordinal : ℕ}
    {target : UpstreamModel} (h : CallsFirst events)
    (hsplit : events = before ++ .called ordinal target :: after) : emittedReplies before = [] := by
  rw [CallsFirst, hsplit] at h
  refine emittedReplies_eq_nil.mpr fun event hevent ↦ ?_
  by_contra hreply
  have hcall := (List.pairwise_append.mp h).2.2 event hevent _ List.mem_cons_self hreply
  nomatch hcall

/-! ## Runs -/

section Run

variable {requestId : String} {started : ℕ} {targets : List UpstreamModel}
  {records : List AttemptRecord} {events : List Event} {result : DispatchResult}

theorem AttemptTrace.emittedReplies_events {Post : AttemptResult → List (Reply × Bool) → Prop}
    {ordinal : ℕ} {target : UpstreamModel} (attempt : AttemptTrace Post ordinal target) :
    emittedReplies (attempt.events requestId) = attempt.replies := by
  have himages :
      emittedReplies (attempt.imageState.toList.map (Event.imageObserved target)) = [] := by
    refine emittedReplies_eq_nil.mpr fun event hevent ↦ ?_
    obtain ⟨state, -, rfl⟩ := List.mem_map.mp hevent
    rfl
  simp [AttemptTrace.events, AttemptTrace.callEvents, himages, Event.reply?]

variable (requestId) in
/-- A failed attempt has handed nothing on. -/
theorem AttemptTrace.emittedReplies_of_error {ordinal : ℕ} {target : UpstreamModel}
    (attempt : AttemptTrace Settled ordinal target) {error : ErrorEnvelope}
    (failure : attempt.result = .error error) :
    emittedReplies (attempt.events requestId) = [] := by
  have hsettled := attempt.post
  rw [failure] at hsettled
  rw [attempt.emittedReplies_events]
  exact hsettled

theorem Run.settled (h : Run requestId Settled started targets records events result) :
    Settled result (emittedReplies events) := by
  induction h with
  | exhausted | drained | spent => exact rfl
  | disconnected status body accepted => exact OneHead.whole status body accepted
  | refused rest ih => exact ih
  | answered attempt budget outcome served =>
    have hhead : OneHead attempt.replies := by
      have hsettled := attempt.post
      rwa [served] at hsettled
    show OneHead _
    simpa [attempt.emittedReplies_events, Event.reply?] using hhead
  | failed attempt budget raw error failure observed =>
    have hnothing := attempt.emittedReplies_of_error requestId failure
    show emittedReplies _ = []
    cases observed <;> simp [hnothing, Event.reply?]
  | retried attempt budget raw observed failure allowed wait rest ih =>
    have hnothing := attempt.emittedReplies_of_error requestId failure
    cases wait <;> simpa [hnothing, Event.reply?] using ih

/-- An attempt calls its upstream before it hands anything on. -/
theorem AttemptTrace.callsFirst {Post : AttemptResult → List (Reply × Bool) → Prop} {ordinal : ℕ}
    {target : UpstreamModel} (attempt : AttemptTrace Post ordinal target) {rest : List Event}
    (hrest : ∀ event ∈ rest, event.call? = none) :
    CallsFirst (attempt.events requestId ++ rest) := by
  have hsplit : attempt.events requestId ++ rest = [.granted ordinal attempt.lease,
      .called ordinal target] ++ (emissions attempt.replies ++ [.settled target.upstream
        s!"{requestId}:attempt:{ordinal}" attempt.usage (isComplete attempt.result)] ++
        attempt.imageState.toList.map (.imageObserved target) ++ rest) := by
    simp [AttemptTrace.events, AttemptTrace.callEvents]
  rw [hsplit]
  refine .append rfl (.of_not_called fun event hevent ↦ ?_)
  simp only [emissions, List.mem_append, List.mem_map, List.mem_singleton] at hevent
  rcases hevent with ((⟨reply, -, rfl⟩ | rfl) | ⟨state, -, rfl⟩) | hevent
  · rfl
  · rfl
  · rfl
  · exact hrest event hevent

theorem Run.callsFirst (h : Run requestId Settled started targets records events result) :
    CallsFirst events := by
  induction h with
  | exhausted | drained | disconnected | spent => exact .of_not_called (by simp [Event.call?])
  | refused rest ih => exact ih.append (rfl : emittedReplies [.visited _, .refused _] = [])
  | @answered _ target _ attempt budget outcome served =>
    have hcalls : CallsFirst (attempt.events requestId ++
        [.released attempt.lease, .left target]) :=
      attempt.callsFirst (by simp [Event.call?])
    rw [List.cons_append, List.cons_append]
    exact hcalls.append (rfl : emittedReplies [.visited target, .entered target] = [])
  | @failed started target targets attempt budget raw error failure observed =>
    have hrun : Run requestId Settled started (target :: targets) _ _ _ :=
      .failed attempt budget raw error failure observed
    exact .of_quiet hrun.settled
  | retried attempt budget raw observed failure allowed wait rest ih =>
    -- what comes before the next target is a failure, and hands nothing on
    have hnothing := attempt.emittedReplies_of_error requestId failure
    exact ih.append (by cases wait <;> simp [hnothing, Event.reply?])

/-- Every receipt but the first follows one that allows a fallback. -/
theorem Run.fallbackAllowed {Post : AttemptResult → List (Reply × Bool) → Prop}
    (h : Run requestId Post started targets records events result) :
    ∀ record ∈ records, record.ordinal ≠ started + 1 →
      ∃ previous ∈ records, previous.ordinal + 1 = record.ordinal ∧
        previous.fallbackAllowed = true := by
  induction h with
  | exhausted | drained | disconnected | spent => exact fun record hrecord ↦ nomatch hrecord
  | refused rest ih => exact ih
  | answered attempt | failed attempt =>
    intro record hrecord hordinal
    obtain rfl := List.mem_singleton.mp hrecord
    exact absurd attempt.ordinal_eq hordinal
  | @retried started _ _ _ _ _ attempt budget raw observed failure allowed wait rest ih =>
    intro record hrecord hordinal
    rcases List.mem_cons.mp hrecord with rfl | hrecord
    · exact absurd attempt.ordinal_eq hordinal
    by_cases hnext : record.ordinal = started + 1 + 1
    · exact ⟨attempt.record, List.mem_cons_self, by rw [attempt.ordinal_eq, hnext], allowed⟩
    · obtain ⟨previous, hprevious, hrest⟩ := ih record hrecord hnext
      exact ⟨previous, List.mem_cons_of_mem _ hprevious, hrest⟩

/-- **No run replays after output.** -/
theorem Run.noReplay (h : Run requestId Settled 0 targets records events result) :
    NoReplay result records events := by
  have hfirst : ∀ before ordinal target after,
      events = before ++ .called ordinal target :: after → emittedReplies before = [] :=
    fun before ordinal target after hsplit ↦ h.callsFirst.replies_before hsplit
  refine ⟨h.settled, hfirst, ?_⟩
  intro call hcall hlater
  rw [h.calls_eq] at hcall
  obtain ⟨record, hrecord, rfl⟩ := List.mem_map.mp hcall
  exact h.fallbackAllowed record hrecord hlater

end Run

/-! ## The caller -/

section Caller

variable {W : Type} {env : Environment W} {ledgers : Ledgers W}

/-- The computation emits nothing. -/
abbrev Silent {α : Type} (m : StateM (Dispatch W) α) : Prop :=
  Keeps (fun dispatch ↦ emittedReplies dispatch.events) m

theorem silent_ask {α : Type} (op : W → α × W) : Silent (ask op) := fun _ ↦ rfl

theorem silent_act {event : Event} (hevent : event.reply? = none) (op : W → W) :
    Silent (act event op) := by
  intro dispatch
  show emittedReplies (dispatch.events ++ [event]) = _
  simp [hevent]

theorem silent_updateRecord (f : RequestRecord → RequestRecord) :
    Silent (updateRecord f : StateM (Dispatch W) Unit) := fun _ ↦ rfl

theorem silent_settle (served : UpstreamModel) (outcome : StreamOutcome) :
    Silent (settle ledgers served outcome) := by
  cases outcome with
  | complete => exact (silent_updateRecord _).bind fun _ ↦ silent_act rfl _
  | failedBeforeOutput =>
    refine (silent_updateRecord _).bind fun _ dispatch ↦ ?_
    show emittedReplies ((if _ then pure () else act _ _) dispatch).2.events = _
    split
    · rfl
    · exact silent_act rfl _ dispatch
  | failedAfterPartial => exact silent_updateRecord _
  | clientCancelled => exact silent_updateRecord _

theorem silent_settleQuota (session : String) (result : DispatchResult) :
    Silent (settleQuota ledgers session result) := by
  cases result with
  | error error => exact fun _ ↦ rfl
  | ok answer =>
    intro dispatch
    show emittedReplies ((if _ then ask _ else pure ()) dispatch).2.events = _
    split <;> rfl

theorem executeRoutedAttempt_settled {ctx : RequestContext}
    {catalog : List (UpstreamModel × ModelCapability)}
    {attempt : UpstreamModel → StateM (Exchange W) AttemptResult} (session : String)
    (hattempt : ∀ target, Triple (fun exchange ↦ exchange.emitted = []) (attempt target)
      fun result exchange ↦ Settled result exchange.emitted) (decision : Decision) :
    Triple (fun dispatch ↦ dispatch.events = [])
      (executeRoutedAttempt env ledgers ctx catalog attempt session decision)
      fun result dispatch ↦ Settled result (emittedReplies dispatch.events) := by
  have hdispatch : Triple (fun dispatch ↦ dispatch.events = [])
      (dispatch env ledgers ctx catalog attempt decision)
      fun result dispatch ↦ Settled result (emittedReplies dispatch.events) := by
    intro start hstart
    obtain ⟨receipts, trace, hrun, -, -, hevents, -⟩ :=
      dispatch_run env ledgers ctx catalog Settled hattempt decision start
        ⟨rfl, rfl, hstart, rfl⟩
    rw [hevents]
    exact hrun.settled
  refine Triple.bind hdispatch fun result ↦ ?_
  refine Triple.bind ((silent_settleQuota session result).frame (Settled result)) fun _ ↦ ?_
  exact Triple.pure fun _ h ↦ h

/-- **The caller hands on one response**: the one of a request that was served, else its own. -/
theorem chatScopedInner_oneHead (agent : LoadedAgent)
    {chatInner : StateM (Dispatch W) DispatchResult}
    (hchat : Triple (fun dispatch ↦ dispatch.events = []) chatInner
      fun result dispatch ↦ Settled result (emittedReplies dispatch.events)) :
    Triple (fun dispatch ↦ dispatch.events = []) (chatScopedInner env ledgers agent chatInner)
      fun _ dispatch ↦ OneHead (emittedReplies dispatch.events) := by
  refine Triple.bind hchat fun result ↦ ?_
  cases result with
  | ok answer => exact (silent_settle answer.1 answer.2).frame OneHead
  | error refusal =>
    have hrender : Triple (fun dispatch ↦ emittedReplies dispatch.events = [])
        (renderError env agent refusal) fun rendered dispatch ↦
          (∃ body, rendered = .beginJson refusal.httpStatus body) ∧
            emittedReplies dispatch.events = [] := by
      refine Triple.bind ((silent_ask _).frame (· = [])) fun document ↦ ?_
      cases document with
      | error error => exact Triple.pure fun _ h ↦ ⟨⟨_, rfl⟩, h⟩
      | ok document => exact Triple.pure fun _ h ↦ ⟨⟨_, rfl⟩, h⟩
    refine Triple.bind ((silent_updateRecord _).frame (· = [])) fun _ ↦ ?_
    refine Triple.bind hrender fun rendered ↦ Triple.ofAnd ?_
    rintro ⟨body, rfl⟩
    refine Triple.bind ((silent_ask _).frame (· = [])) fun accepted ↦ ?_
    intro dispatch hnothing
    show OneHead (emittedReplies (dispatch.events ++ [_]))
    rw [emittedReplies_append, hnothing]
    exact OneHead.whole refusal.httpStatus body accepted

end Caller

/-- **No replay after output.** Whatever the admissions, the clock, the upstreams, the adapters and
the client do: a dispatch that returns an error has handed nothing on, any other has handed on one
response; an upstream is called while nothing is out, and after the first one only if the failure
before it allows a fallback. The request as a whole gets one response head. -/
theorem dispatch_no_replay {W : Type} (env : Environment W) (ledgers : Ledgers W)
    (ctx : RequestContext) (catalog : List (UpstreamModel × ModelCapability)) (call : CanonicalCall)
    (upstreams : AList fun _ : String ↦ ProviderConfig) (decision : Decision) (session : String)
    (world : W) (record : RequestRecord) :
    let attempt := canonicalAttempt env ctx call upstreams
    let answer := dispatch env ledgers ctx catalog attempt decision { world, record }
    let exchange := chatScopedInner env ledgers call.agent
      (executeRoutedAttempt env ledgers ctx catalog attempt session decision) { world, record }
    (∃ receipts, answer.2.record.attemptRecords = record.attemptRecords ++ receipts ∧
        NoReplay answer.1 receipts answer.2.events) ∧
      OneHead (emittedReplies exchange.2.events) := by
  intro attempt answer exchange
  have hattempt : ∀ target, Triple (fun exchange ↦ exchange.emitted = []) (attempt target)
      fun result exchange ↦ Settled result exchange.emitted := canonicalAttempt_settled upstreams
  constructor
  · obtain ⟨receipts, trace, hrun, -, hrecords, hevents, -⟩ :=
      dispatch_run env ledgers ctx catalog Settled hattempt decision { world, record }
        ⟨rfl, rfl, rfl, rfl⟩
    obtain rfl : answer.2.events = trace := hevents
    exact ⟨receipts, hrecords, hrun.noReplay⟩
  · refine chatScopedInner_oneHead call.agent ?_ { world, record } rfl
    exact executeRoutedAttempt_settled session hattempt decision

end TokenStation
