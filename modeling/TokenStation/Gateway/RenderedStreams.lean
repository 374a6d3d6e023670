import TokenStation.Gateway.StreamMaps
import TokenStation.Outbound.AnthropicGrammar

/-!
# Streams that are rendered side by side

The host renders the events of many streams through one adapter, in any order. What is written for
a stream does not depend on the others: it is what would be written for its events alone, and it is
well formed when the stream is at its end.
-/

namespace TokenStation

namespace AnthropicStream

open Library JsonValue

/-- A call of the renderer. -/
structure Call where
  event : StreamEvent
  context : JsonValue

def Call.streamId? (call : Call) : Option String :=
  (streamContext call.context).toOption.map StreamContext.streamId

/-- The calls of one stream. -/
def callsOf (id : String) (calls : List Call) : List Call :=
  calls.filter (·.streamId? = some id)

/-- The answers to the calls of one stream, among all calls. -/
def answersOf (serde : SerdeJson) (id : String) :
    List Call → StreamStates → List (Except ErrorEnvelope JsonValue)
  | [], _ => []
  | call :: calls, states =>
    let (answer, states) := renderStreamEvent serde call.event call.context states
    if call.streamId? = some id then answer :: answersOf serde id calls states
    else answersOf serde id calls states

/-- The answer with some events of the wire. -/
def answerWith (serde : SerdeJson) (events : List WireEvent) : Except ErrorEnvelope JsonValue :=
  .ok (object [("data", string (String.join (events.map (WireEvent.text serde))))])

/-- Whether more events of a stream may follow. -/
def endsStream : StreamEvent → Bool
  | .done .. | .error _ => true
  | _ => false

/-! ## One call -/

section Render

variable {event : StreamEvent} {context : StreamContext} {states states' : StreamStates}
  {written : List WireEvent} {serde : SerdeJson} {call : Call} {calls : List Call} {id : String}

theorem streamContext_of_streamId? (h : call.streamId? = some id) :
    ∃ context, streamContext call.context = .ok context ∧ context.streamId = id := by
  rw [Call.streamId?] at h
  rcases hcontext : streamContext call.context with error | context
  · rw [hcontext] at h
    nomatch h
  · rw [hcontext] at h
    exact ⟨context, rfl, Option.some.inj h⟩

/-- A call of another stream leaves a stream as it is. -/
theorem lookup_of_other (hother : call.streamId? ≠ some id) :
    (renderStreamEvent serde call.event call.context states).2.lookup id = states.lookup id := by
  rw [renderStreamEvent]
  rcases hcontext : streamContext call.context with error | context
  · rfl
  · refine lookup_renderEvents fun heq ↦ hother ?_
    rw [Call.streamId?, hcontext, heq]
    rfl

theorem answersOf_cons_of_other (hother : call.streamId? ≠ some id) :
    answersOf serde id (call :: calls) states = answersOf serde id calls
      (renderStreamEvent serde call.event call.context states).2 := by
  rw [answersOf]
  exact if_neg hother

theorem answersOf_cons_of_own (hown : call.streamId? = some id) :
    answersOf serde id (call :: calls) states =
      (renderStreamEvent serde call.event call.context states).1 :: answersOf serde id calls
        (renderStreamEvent serde call.event call.context states).2 := by
  rw [answersOf]
  exact if_pos hown

theorem renderStreamEvent_of_context {document : JsonValue}
    (hcontext : streamContext document = .ok context) :
    renderStreamEvent serde event document states =
      ((renderEvents event context states).1.map fun events ↦
        object [("data", string (String.join (events.map (WireEvent.text serde))))],
        (renderEvents event context states).2) := by
  rw [renderStreamEvent, hcontext]

/-- What is admitted is what is kept, or a new state. -/
theorem admitStream_eq_ok {state : StreamState} (h : admitStream context states = .ok state) :
    state = (states.lookup context.streamId).getD (StreamState.new context) := by
  rw [admitStream] at h
  split at h
  next kept hkept =>
    split_ifs at h
    obtain rfl := Except.ok.inj h
    rw [hkept, Option.getD_some]
  next hnone =>
    split_ifs at h
    obtain rfl := Except.ok.inj h
    rw [hnone, Option.getD_none]

theorem admitStream_congr {other : StreamStates} {state : StreamState}
    (hlookup : other.lookup context.streamId = states.lookup context.streamId)
    (hroom : other.lookup context.streamId = none → other.entries.length < maxActiveStreams)
    (h : admitStream context states = .ok state) : admitStream context other = .ok state := by
  rw [admitStream] at h ⊢
  rw [hlookup] at hroom ⊢
  rcases hkept : states.lookup context.streamId with _ | kept
  · rw [hkept] at h
    have hfree := hroom hkept
    dsimp only at h ⊢
    rw [if_neg (Nat.not_le.mpr hfree)]
    split_ifs at h
    exact h
  · rw [hkept] at h
    exact h

/-- An event other than an error is rendered for a stream that is admitted. -/
theorem exists_admitStream (herror : ∀ error, event ≠ .error error)
    (h : (renderEvents event context states).1 = .ok written) :
    ∃ state, admitStream context states = .ok state := by
  rw [renderEvents.eq_def] at h
  split at h
  next error => exact absurd rfl (herror error)
  next =>
    split at h
    next => cases h
    next state hstate => exact ⟨state, hstate⟩

/-- A step of a stream that is admitted. -/
theorem renderEvents_step {state : StreamState} (hopen : leavesOpen event)
    (hstate : admitStream context states = .ok state) :
    renderEvents event context states =
      ((step event state).1, states.insert context.streamId (step event state).2) := by
  cases event with
  | redactedThinking => nomatch hopen
  | done => nomatch hopen
  | error => nomatch hopen
  | _ =>
    simp only [renderEvents, hstate]
    rfl

theorem renderEvents_done {state : StreamState} {finishReason : Option FinishReason}
    {stopSequence : Option String} (hstate : admitStream context states = .ok state) :
    renderEvents (.done finishReason stopSequence) context states =
      (.ok (close finishReason stopSequence state), states.erase context.streamId) := by
  simp only [renderEvents, hstate]

/-- An event that does not end the stream is rendered by a step. -/
theorem leavesOpen_of_rendered (hends : endsStream event = false)
    (h : (renderEvents event context states).1 = .ok written) : leavesOpen event = true := by
  cases event with
  | redactedThinking index block data =>
    obtain ⟨state, hstate⟩ := exists_admitStream (by simp) h
    simp [renderEvents, hstate] at h
  | done => nomatch hends
  | error => nomatch hends
  | _ => rfl

/-- What is written for an event, and what is kept, depends on what was kept of its stream. -/
theorem renderEvents_congr {other : StreamStates}
    (hlookup : other.lookup context.streamId = states.lookup context.streamId)
    (hroom : other.lookup context.streamId = none → other.entries.length < maxActiveStreams)
    (h : (renderEvents event context states).1 = .ok written) :
    (renderEvents event context other).1 = .ok written ∧
      (renderEvents event context other).2.lookup context.streamId =
        (renderEvents event context states).2.lookup context.streamId := by
  have herase : (other.erase context.streamId).lookup context.streamId =
      (states.erase context.streamId).lookup context.streamId := by
    rw [AList.lookup_erase, AList.lookup_erase]
  by_cases hends : endsStream event = true
  · cases event with
    | done finishReason stopSequence =>
      obtain ⟨state, hstate⟩ := exists_admitStream (by simp) h
      rw [renderEvents_done hstate] at h ⊢
      rw [renderEvents_done (admitStream_congr hlookup hroom hstate)]
      exact ⟨h, herase⟩
    | error error => exact ⟨h, herase⟩
    | _ => nomatch hends
  · have hopen := leavesOpen_of_rendered (by simpa using hends) h
    obtain ⟨state, hstate⟩ := exists_admitStream (by rintro error rfl; exact hends rfl) h
    rw [renderEvents_step hopen hstate] at h ⊢
    rw [renderEvents_step hopen (admitStream_congr hlookup hroom hstate)]
    exact ⟨h, by rw [AList.lookup_insert, AList.lookup_insert]⟩

/-- An answer to a call is the events that were written. -/
theorem exists_written (hcontext : streamContext call.context = .ok context)
    (hok : (renderStreamEvent serde call.event call.context states).1.isOk = true) :
    ∃ written, (renderEvents call.event context states).1 = .ok written ∧
      (renderStreamEvent serde call.event call.context states).1 = answerWith serde written := by
  rw [renderStreamEvent_of_context hcontext] at hok ⊢
  rcases hwritten : (renderEvents call.event context states).1 with error | written
  · rw [hwritten] at hok
    nomatch hok
  · exact ⟨written, rfl, rfl⟩

/-! ## All calls -/

/-- The answers of a stream are those it would get alone. -/
theorem answersOf_callsOf {alone : StreamStates} (hlookup : alone.lookup id = states.lookup id)
    (halone : ∀ other, other ≠ id → alone.lookup other = none)
    (hok : ∀ answer ∈ answersOf serde id calls states, answer.isOk = true) :
    answersOf serde id (callsOf id calls) alone = answersOf serde id calls states := by
  induction calls generalizing states alone with
  | nil => rfl
  | cons call calls ih =>
    by_cases hown : call.streamId? = some id
    · obtain ⟨context, hcontext, rfl⟩ := streamContext_of_streamId? hown
      rw [answersOf_cons_of_own hown] at hok ⊢
      rw [callsOf, List.filter_cons_of_pos (by simpa using hown), answersOf_cons_of_own hown]
      obtain ⟨written, hwritten, hanswer⟩ := exists_written hcontext (hok _ List.mem_cons_self)
      have hroom : alone.lookup context.streamId = none →
          alone.entries.length < maxActiveStreams := fun hnone ↦ by
        have hempty : ∀ other, alone.lookup other = none := fun other ↦ by
          by_cases heq : other = context.streamId
          · rw [heq, hnone]
          · exact halone other heq
        rw [(length_entries_eq_zero_iff alone).mpr hempty]
        decide
      obtain ⟨halso, hkept⟩ := renderEvents_congr hlookup hroom hwritten
      have hsame : (renderStreamEvent serde call.event call.context alone).1 =
          (renderStreamEvent serde call.event call.context states).1 := by
        rw [renderStreamEvent_of_context hcontext, renderStreamEvent_of_context hcontext, halso,
          hwritten]
      rw [hsame]
      refine congrArg _ (ih ?_ (fun other hother ↦ ?_) fun answer hanswer ↦
        hok answer (List.mem_cons_of_mem _ hanswer))
      · rw [renderStreamEvent_of_context hcontext, renderStreamEvent_of_context hcontext]
        exact hkept
      · rw [renderStreamEvent_of_context hcontext]
        exact (lookup_renderEvents hother).trans (halone other hother)
    · rw [answersOf_cons_of_other hown] at hok ⊢
      rw [callsOf, List.filter_cons_of_neg (by simpa using hown)]
      exact ih (hlookup.trans (lookup_of_other hown).symm) halone hok

theorem answersOf_eq_nil (h : callsOf id calls = []) : answersOf serde id calls states = [] := by
  induction calls generalizing states with
  | nil => rfl
  | cons call calls ih =>
    rw [callsOf, List.filter_eq_nil_iff] at h
    have hother : call.streamId? ≠ some id := by simpa using h call List.mem_cons_self
    rw [answersOf_cons_of_other hother]
    exact ih (List.filter_eq_nil_iff.mpr fun call hmem ↦ h call (List.mem_cons_of_mem _ hmem))

end Render

/-- What is kept of a stream. -/
def StreamStates.entry (states : StreamStates) (context : StreamContext) : StreamState :=
  (states.lookup context.streamId).getD (StreamState.new context)

section Run

variable {context : StreamContext} {document : JsonValue} {states : StreamStates}
  {serde : SerdeJson} {done events : List StreamEvent} {event : StreamEvent}
  {out written : List WireEvent} {finishReason : Option FinishReason}
  {stopSequence : Option String}

/-- One rendered event more. -/
theorem Rendering.render (h : Rendering context done out (states.entry context))
    (hends : endsStream event = false)
    (hwritten : (renderEvents event context states).1 = .ok written) :
    Rendering context (done ++ [event]) (out ++ written)
      ((renderEvents event context states).2.entry context) := by
  have hopen := leavesOpen_of_rendered hends hwritten
  obtain ⟨state, hstate⟩ := exists_admitStream (by rintro error rfl; nomatch hends) hwritten
  obtain rfl : state = states.entry context := admitStream_eq_ok hstate
  rw [renderEvents_step hopen hstate] at hwritten ⊢
  rw [StreamStates.entry, AList.lookup_insert, Option.getD_some]
  exact h.step hopen (Prod.ext hwritten rfl)

/-- The last event. -/
theorem Rendering.renderDone (h : Rendering context done out (states.entry context))
    (hwritten :
      (renderEvents (StreamEvent.done finishReason stopSequence) context states).1 = .ok written) :
    WellFormed context done finishReason stopSequence (out ++ written) := by
  obtain ⟨state, hstate⟩ := exists_admitStream (by simp) hwritten
  obtain rfl : state = states.entry context := admitStream_eq_ok hstate
  rw [renderEvents_done hstate] at hwritten
  obtain rfl := Except.ok.inj hwritten
  exact h.wellFormed finishReason stopSequence

/-- All events of a stream, up to its end. -/
theorem Rendering.renderAll {calls : List Call} (hcontext : streamContext document = .ok context)
    (h : Rendering context done out (states.entry context))
    (hcalls : callsOf context.streamId calls =
      (events ++ [StreamEvent.done finishReason stopSequence]).map (Call.mk · document))
    (hends : ∀ event ∈ events, endsStream event = false)
    (hok : ∀ answer ∈ answersOf serde context.streamId calls states, answer.isOk = true) :
    ∃ written : List (List WireEvent),
      answersOf serde context.streamId calls states = written.map (answerWith serde) ∧
        WellFormed context (done ++ events) finishReason stopSequence
          (out ++ written.flatten) := by
  induction calls generalizing states done events out with
  | nil => simp [callsOf] at hcalls
  | cons call calls ih =>
    by_cases hown : call.streamId? = some context.streamId
    · rw [answersOf_cons_of_own hown] at hok ⊢
      rw [callsOf, List.filter_cons_of_pos (by simpa using hown), ← callsOf] at hcalls
      have hrest : ∀ answer ∈ answersOf serde context.streamId calls
          (renderStreamEvent serde call.event call.context states).2, answer.isOk = true :=
        fun answer hanswer ↦ hok answer (List.mem_cons_of_mem _ hanswer)
      cases events with
      | nil =>
        obtain ⟨rfl, hnone⟩ := List.cons.inj hcalls
        obtain ⟨written, hwritten, hanswer⟩ := exists_written hcontext (hok _ List.mem_cons_self)
        refine ⟨[written], ?_, ?_⟩
        · rw [hanswer, answersOf_eq_nil hnone]
          rfl
        · rw [List.append_nil, List.flatten_singleton]
          exact h.renderDone hwritten
      | cons event events =>
        obtain ⟨rfl, hmore⟩ := List.cons.inj hcalls
        obtain ⟨written, hwritten, hanswer⟩ := exists_written hcontext (hok _ List.mem_cons_self)
        have hnext := h.render (hends event List.mem_cons_self) hwritten
        have hstates : (renderStreamEvent serde event document states).2 =
            (renderEvents event context states).2 := by
          rw [renderStreamEvent_of_context hcontext]
        rw [← hstates] at hnext
        obtain ⟨more, hanswers, hwell⟩ := ih hnext hmore
          (fun event hmem ↦ hends event (List.mem_cons_of_mem _ hmem)) hrest
        refine ⟨written :: more, ?_, ?_⟩
        · rw [hanswer, hanswers, List.map_cons]
        · rw [List.flatten_cons, ← List.append_assoc, List.append_cons done]
          exact hwell
    · rw [answersOf_cons_of_other hown] at hok ⊢
      rw [callsOf, List.filter_cons_of_neg (by simpa using hown), ← callsOf] at hcalls
      refine ih ?_ hcalls hends hok
      rw [StreamStates.entry, lookup_of_other hown]
      exact h

/-- A stream that is rendered to its end, with no error and no other end on the way, is well formed,
and what is written for it is what would be written for it alone. -/
theorem rendered_wellFormed (serde : SerdeJson) (calls : List Call) (states : StreamStates)
    (document : JsonValue) (context : StreamContext) (events : List StreamEvent)
    (finishReason : Option FinishReason) (stopSequence : Option String)
    (hcontext : streamContext document = .ok context)
    (hfresh : states.lookup context.streamId = none)
    (hcalls : callsOf context.streamId calls =
      (events ++ [StreamEvent.done finishReason stopSequence]).map (Call.mk · document))
    (hends : ∀ event ∈ events, endsStream event = false)
    (hok : ∀ answer ∈ answersOf serde context.streamId calls states, answer.isOk = true) :
    (∃ written : List (List WireEvent),
      answersOf serde context.streamId calls states = written.map (answerWith serde) ∧
        WellFormed context events finishReason stopSequence written.flatten) ∧
      answersOf serde context.streamId calls states =
        answersOf serde context.streamId (callsOf context.streamId calls) ∅ := by
  constructor
  · have hnew : Rendering context [] [] (states.entry context) := by
      rw [StreamStates.entry, hfresh]
      exact Rendering.new context
    exact hnew.renderAll hcontext hcalls hends hok
  · refine (answersOf_callsOf ?_ (fun other _ ↦ AList.lookup_empty other) hok).symm
    rw [AList.lookup_empty, hfresh]

end Run

/-! ## Two streams -/

/-- The context of a stream, with nothing else in it. -/
def contextNamed (id : String) : JsonValue := object [("stream_id", string id)]

def compactSerde : SerdeJson where
  toString := compact
  contentPart := .unknown

/-- The events of a stream, and among them one of another. -/
def mixedCalls : List Call :=
  [⟨.delta 0 "one", contextNamed "a"⟩, ⟨.delta 0 "other", contextNamed "b"⟩,
    ⟨.toolCallDelta 0 (some "call") (some "look") "arguments", contextNamed "a"⟩,
    ⟨.delta 0 "two", contextNamed "a"⟩, ⟨.done (some .stop) none, contextNamed "a"⟩]

def contextRead : StreamContext where
  streamId := "a"
  responseId := "msg_token_station"
  model := "unknown"
  inputTokens := 0

theorem rendered_wellFormed_mixed :
    (∃ written : List (List WireEvent),
      answersOf compactSerde "a" mixedCalls ∅ = written.map (answerWith compactSerde) ∧
        WellFormed contextRead
          [.delta 0 "one", .toolCallDelta 0 (some "call") (some "look") "arguments", .delta 0 "two"]
          (some .stop) none written.flatten) ∧
      answersOf compactSerde "a" mixedCalls ∅ =
        answersOf compactSerde "a" (callsOf "a" mixedCalls) ∅ :=
  rendered_wellFormed compactSerde mixedCalls ∅ (contextNamed "a") contextRead
    [.delta 0 "one", .toolCallDelta 0 (some "call") (some "look") "arguments", .delta 0 "two"]
    (some .stop) none rfl rfl rfl (by decide) (by decide)

/-- An error before the end: what is written does not start with a message. -/
theorem not_wellFormed_error : ∃ error : ErrorEnvelope,
    answersOf compactSerde "a"
        [⟨.error error, contextNamed "a"⟩, ⟨.done none none, contextNamed "a"⟩] ∅ =
      [[.error "api_error" error.message],
        [.messageStart "msg_token_station" "unknown" 0, .messageDelta none none (streamUsage {}),
          .messageStop]].map (answerWith compactSerde) ∧
      ¬ WellFormed contextRead [.error error] none none
        [.error "api_error" error.message, .messageStart "msg_token_station" "unknown" 0,
          .messageDelta none none (streamUsage {}), .messageStop] := by
  refine ⟨ErrorEnvelope.new .internal 500 "stopped", rfl, fun h ↦ ?_⟩
  obtain ⟨tokens, rest, hout, -⟩ := h.opening
  nomatch (List.cons.inj hout).1

end AnthropicStream

end TokenStation
