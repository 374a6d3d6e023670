import Mathlib.Data.Finset.Card
import Mathlib.Data.Finset.Dedup
import TokenStation.Gateway.RenderedStreams
import TokenStation.Library.Outcome

/-!
# What a failed rendering leaves

The adapter drops the state of a stream where the result of an event is an error. An error that
leaves the rendering early never comes there, and the stream keeps its place among the few that
there are.
-/

namespace TokenStation

namespace AnthropicStream

open Library JsonValue

/-! ## Events that cannot be written -/

/-- The event would open one block too many, or it is a piece of a tool call that is not named at
first, or named otherwise than before. -/
def Unwritable (state : StreamState) : StreamEvent → Prop
  | .delta index _ =>
    state.textBlocks.lookup index = none ∧ maxBlocksPerStream ≤ state.nextBlockIndex
  | .thinkingDelta index blockIndex _ | .thinkingSignatureDelta index blockIndex _ =>
    state.thinkingBlocks.lookup (index, blockIndex) = none ∧
      maxBlocksPerStream ≤ state.nextBlockIndex
  | .toolCallDelta index id name _ =>
    match state.toolBlocks.lookup index with
    | none => id = none ∨ name = none ∨ maxBlocksPerStream ≤ state.nextBlockIndex
    | some block => id.any (· ≠ block.id) = true ∨ name.any (· ≠ block.name) = true
  | _ => False

theorem ensureStarted_eq (state : StreamState) :
    ensureStarted state = (.ok state.opening, { state with started := true }) := by
  obtain ⟨_, _, _, started, _, _, _, _, _, _, _⟩ := state
  cases started <;> rfl

theorem allocateBlock_stops_iff {state : StreamState} :
    (∃ error, (allocateBlock state).1 = .error error) ↔
      maxBlocksPerStream ≤ state.nextBlockIndex := by
  rw [allocateBlock, run_get_bind]
  split
  next hfull => exact iff_of_true ⟨_, rfl⟩ hfull
  next hroom =>
    refine iff_of_false ?_ hroom
    rintro ⟨error, h⟩
    cases h

/-- A block that is looked up, and opened where it is new, is missing only for want of room. -/
theorem block_stops_iff {found : Option ℕ} {begins : ℕ → Step (ℕ × List WireEvent)}
    {state : StreamState} (hbegins : ∀ block s, ∃ opened, (begins block s).1 = .ok opened) :
    (∃ error, ((match found with
        | some block => pure (block, [])
        | none => allocateBlock >>= begins : Step (ℕ × List WireEvent)) state).1 = .error error) ↔
      found = none ∧ maxBlocksPerStream ≤ state.nextBlockIndex := by
  rcases found with - | block
  · dsimp only
    rw [run_bind_stops_iff, allocateBlock_stops_iff, and_iff_right rfl]
    refine or_iff_left ?_
    rintro ⟨block, state', -, error, h⟩
    obtain ⟨opened, hopened⟩ := hbegins block state'
    nomatch h.symm.trans hopened
  · refine iff_of_false ?_ fun h ↦ nomatch h.1
    rintro ⟨error, h⟩
    nomatch h

theorem textBlock_stops_iff {index : ℕ} {state : StreamState} :
    (∃ error, (textBlock index state).1 = .error error) ↔
      state.textBlocks.lookup index = none ∧ maxBlocksPerStream ≤ state.nextBlockIndex :=
  block_stops_iff fun _ _ ↦ ⟨_, rfl⟩

theorem thinkingBlock_stops_iff {key : ℕ × ℕ} {state : StreamState} :
    (∃ error, (thinkingBlock key state).1 = .error error) ↔
      state.thinkingBlocks.lookup key = none ∧ maxBlocksPerStream ≤ state.nextBlockIndex :=
  block_stops_iff fun _ _ ↦ ⟨_, rfl⟩

section Tools

variable {index : ℕ} {id name : Option String} {state : StreamState}

theorem toolBlock_known {block : ToolBlock} (h : state.toolBlocks.lookup index = some block) :
    toolBlock index id name state = (.ok (block, []), state) := by
  rw [toolBlock, run_get_bind, h]
  rfl

/-- The first piece of a tool call names it, and then opens a block. -/
theorem toolBlock_named (firstId firstName : String) (h : state.toolBlocks.lookup index = none) :
    ∃ begins : ℕ → Step (ToolBlock × List WireEvent),
      toolBlock index (some firstId) (some firstName) state = (allocateBlock >>= begins) state ∧
      ∀ contentIndex s, ∃ opened t, begins contentIndex s =
        (.ok ({ contentIndex, id := firstId, name := firstName }, opened), t) := by
  refine ⟨fun contentIndex ↦ do
    let block : ToolBlock := { contentIndex, id := firstId, name := firstName }
    modify fun state ↦ { state with toolBlocks := state.toolBlocks.insert index block }
    pure (block, [.contentBlockStart contentIndex (.toolUse firstId firstName)]),
    ?_, fun _ _ ↦ ⟨_, _, rfl⟩⟩
  rw [toolBlock, run_get_bind, h]
  rfl

theorem toolBlock_stops_iff (h : state.toolBlocks.lookup index = none) :
    (∃ error, (toolBlock index id name state).1 = .error error) ↔
      id = none ∨ name = none ∨ maxBlocksPerStream ≤ state.nextBlockIndex := by
  rcases id with - | firstId
  · rw [toolBlock, run_get_bind, h]
    exact iff_of_true ⟨_, rfl⟩ (.inl rfl)
  · rcases name with - | firstName
    · rw [toolBlock, run_get_bind, h]
      exact iff_of_true ⟨_, rfl⟩ (.inr (.inl rfl))
    · obtain ⟨begins, hnamed, hbegins⟩ := toolBlock_named firstId firstName h
      rw [hnamed, run_bind_stops_iff, allocateBlock_stops_iff]
      constructor
      · rintro (hfull | ⟨contentIndex, state', -, error, herror⟩)
        · exact .inr (.inr hfull)
        · obtain ⟨opened, state'', hok⟩ := hbegins contentIndex state'
          rw [hok] at herror
          cases herror
      · rintro (hid | hname | hfull)
        · cases hid
        · cases hname
        · exact .inl hfull

/-- A new tool call has the names of its first piece. -/
theorem toolBlock_names {block : ToolBlock} {opened : List WireEvent} {state' : StreamState}
    (h : state.toolBlocks.lookup index = none)
    (hrun : toolBlock index id name state = (.ok (block, opened), state')) :
    id = some block.id ∧ name = some block.name := by
  have hruns : ¬ ∃ error, (toolBlock index id name state).1 = .error error := by
    rintro ⟨error, herror⟩
    rw [hrun] at herror
    nomatch herror
  rw [toolBlock_stops_iff h] at hruns
  obtain ⟨firstId, rfl⟩ := Option.ne_none_iff_exists'.mp fun hid ↦ hruns (.inl hid)
  obtain ⟨firstName, rfl⟩ := Option.ne_none_iff_exists'.mp fun hname ↦ hruns (.inr (.inl hname))
  obtain ⟨begins, hnamed, hbegins⟩ := toolBlock_named firstId firstName h
  rw [hnamed] at hrun
  obtain ⟨contentIndex, state₁, -, hrest⟩ := run_bind_eq.mp hrun
  obtain ⟨opened', state₂, hok⟩ := hbegins contentIndex state₁
  obtain ⟨hblock, -⟩ := Prod.mk.inj (hok.symm.trans hrest)
  obtain ⟨rfl, -⟩ := Prod.mk.inj (Except.ok.inj hblock)
  exact ⟨rfl, rfl⟩

end Tools

/-- **When an event of an open stream fails.** -/
theorem step_stops_iff {event : StreamEvent} {state : StreamState} :
    (∃ error, (step event state).1 = .error error) ↔ Unwritable state event := by
  -- a rest that only writes does not fail
  have hwrites {α : Type} {first : Step α} {rest : α → Step (List WireEvent)} {s : StreamState}
      (hrest : ∀ a t, ∃ out, (rest a t).1 = .ok out) :
      (∃ error, ((first >>= rest) s).1 = .error error) ↔ ∃ error, (first s).1 = .error error := by
    rw [run_bind_stops_iff]
    refine or_iff_left ?_
    rintro ⟨a, t, -, error, herror⟩
    obtain ⟨out, hout⟩ := hrest a t
    nomatch herror.symm.trans hout
  have hnever {α : Type} {run : Except ErrorEnvelope α × StreamState} {out : α}
      (hrun : run.1 = .ok out) : ¬ ∃ error, run.1 = .error error := by
    rintro ⟨error, herror⟩
    nomatch herror.symm.trans hrun
  cases event with
  | delta index content =>
    rw [step, run_bind_of_ok (ensureStarted_eq state), hwrites fun _ _ ↦ ⟨_, rfl⟩]
    exact textBlock_stops_iff
  | thinkingDelta index blockIndex piece =>
    rw [step, run_bind_of_ok (ensureStarted_eq state), hwrites fun _ _ ↦ ⟨_, rfl⟩]
    exact thinkingBlock_stops_iff
  | thinkingSignatureDelta index blockIndex piece =>
    rw [step, run_bind_of_ok (ensureStarted_eq state), hwrites fun _ _ ↦ ⟨_, rfl⟩]
    exact thinkingBlock_stops_iff
  | toolCallDelta index id name piece =>
    rw [step, run_bind_of_ok (ensureStarted_eq state), run_bind_stops_iff, Unwritable]
    have hchanged {block : ToolBlock} {opened : List WireEvent} {s : StreamState} :
        (∃ error, ((if id.any (· ≠ block.id) ∨ name.any (· ≠ block.name) then
            throw (invalid "tool-call identity changed between stream fragments")
          else pure (state.opening ++ opened ++ [.contentBlockDelta block.contentIndex
            (.inputJson piece)]) : Step (List WireEvent)) s).1 = .error error) ↔
          id.any (· ≠ block.id) = true ∨ name.any (· ≠ block.name) = true := by
      split
      next hdiffers => exact iff_of_true ⟨_, rfl⟩ hdiffers
      next hsame => exact iff_of_false (hnever rfl) hsame
    rcases hlookup : state.toolBlocks.lookup index with - | block
    · have hstarted : { state with started := true }.toolBlocks.lookup index = none := hlookup
      rw [toolBlock_stops_iff hstarted]
      refine or_iff_left ?_
      rintro ⟨⟨block, opened⟩, state', hrun, herror⟩
      obtain ⟨rfl, rfl⟩ := toolBlock_names hstarted hrun
      obtain hdiffers | hdiffers := hchanged.mp herror
      · simp at hdiffers
      · simp at hdiffers
    · have hstarted : { state with started := true }.toolBlocks.lookup index = some block := hlookup
      rw [toolBlock_known hstarted]
      constructor
      · rintro (herror | ⟨⟨found, opened⟩, state', hrun, herror⟩)
        · exact absurd herror (hnever rfl)
        · obtain ⟨hfound, rfl⟩ := Prod.mk.inj hrun
          obtain ⟨rfl, rfl⟩ := Prod.mk.inj (Except.ok.inj hfound)
          exact hchanged.mp herror
      · exact fun hdiffers ↦ .inr ⟨(block, []), _, rfl, hchanged.mpr hdiffers⟩
  | usage usage =>
    rw [step_usage]
    exact iff_of_false (hnever rfl) id
  | finish finishReason stopSequence => exact iff_of_false (hnever rfl) id
  | redactedThinking => exact iff_of_false (hnever rfl) id
  | done => exact iff_of_false (hnever rfl) id
  | error => exact iff_of_false (hnever rfl) id

/-! ## Calls -/

/-- A call of `render_stream_event`: what its two documents are read as. -/
structure RenderCall where
  event : Except ErrorEnvelope StreamEvent
  context : Except ErrorEnvelope JsonValue

namespace RenderCall

/-- `render_stream_event`, from its documents on. -/
def run (serde : SerdeJson) (call : RenderCall) (states : StreamStates) :
    Except ErrorEnvelope JsonValue × StreamStates :=
  match call.event, call.context with
  | .error error, _ => (.error error, states)
  | .ok _, .error error => (.error error, states)
  | .ok event, .ok context => renderStreamEvent serde event context states

/-- The stream of the call. No stream has the empty id. -/
def streamId (call : RenderCall) : String :=
  match call.context with
  | .ok context => (memberStr "stream_id" context).getD ""
  | .error _ => ""

/-- The call ends its stream. -/
def Terminal (call : RenderCall) : Prop :=
  (∃ reason sequence, call.event = .ok (.done reason sequence)) ∨
    ∃ error, call.event = .ok (.error error)

/-- After an error, or the end of the stream, there is nothing left of it. -/
def Freed (serde : SerdeJson) (states : StreamStates) (call : RenderCall) : Prop :=
  (∃ error, (call.run serde states).1 = .error error) ∨ call.Terminal →
    (call.run serde states).2.lookup call.streamId = none

/-- The event is not one, and its stream has a state; or the stream has a state of this identity, or
room for one, and the event cannot be written there. -/
def LeavesBehind (states : StreamStates) (call : RenderCall) : Prop :=
  (∃ error, call.event = .error error) ∧ states.lookup call.streamId ≠ none ∨
    ∃ event context read state, call.event = .ok event ∧ call.context = .ok context ∧
      streamContext context = .ok read ∧ admitStream read states = .ok state ∧
      Unwritable state event

end RenderCall

def afterCalls (serde : SerdeJson) (calls : List RenderCall) : StreamStates :=
  calls.foldl (fun states call ↦ (call.run serde states).2) ∅

/-- Every call of a run does, in the states that it finds. -/
def EveryCall (serde : SerdeJson) (calls : List RenderCall)
    (does : StreamStates → RenderCall → Prop) : Prop :=
  ∀ earlier call later, calls = earlier ++ call :: later → does (afterCalls serde earlier) call

/-- The last call of the stream was answered, and did not end it. -/
def Live (serde : SerdeJson) (calls : List RenderCall) (id : String) : Prop :=
  ∃ earlier call later, calls = earlier ++ call :: later ∧ call.streamId = id ∧
    (∀ next ∈ later, next.streamId ≠ id) ∧ ¬ call.Terminal ∧
    ∃ answer, (call.run serde (afterCalls serde earlier)).1 = .ok answer

open Classical in
/-- The streams whose last call was answered and did not end them. -/
noncomputable def liveStreams (serde : SerdeJson) (calls : List RenderCall) : Finset String :=
  {id ∈ (calls.map RenderCall.streamId).toFinset | Live serde calls id}

/-! ### One call -/

theorem streamContext_eq_ok {context : JsonValue} {read : StreamContext}
    (h : streamContext context = .ok read) :
    read.streamId = (memberStr "stream_id" context).getD "" ∧ read.streamId ≠ "" := by
  rw [streamContext, except_bind_eq_ok] at h
  obtain ⟨id, hid, hread⟩ := h
  obtain ⟨hmember, hne⟩ := Option.filter_eq_some_iff.mp (orInvalid_eq_ok.mp hid)
  obtain rfl := Except.ok.inj hread
  rw [hmember]
  exact ⟨rfl, by simpa using hne⟩

/-- What an event leaves of its own stream. -/
theorem freed_renderEvents_iff {event : StreamEvent} {context : StreamContext}
    {states : StreamStates} :
    (((∃ error, (renderEvents event context states).1 = .error error) ∨
        ((∃ reason sequence, event = .done reason sequence) ∨ ∃ error, event = .error error)) →
      (renderEvents event context states).2.lookup context.streamId = none) ↔
      ¬ ∃ state, admitStream context states = .ok state ∧ Unwritable state event := by
  have herase : (states.erase context.streamId).lookup context.streamId = none :=
    AList.lookup_erase _ _
  rw [renderEvents.eq_def]
  split
  next error =>
    refine iff_of_true (fun _ ↦ herase) ?_
    rintro ⟨state, -, h⟩
    exact h
  next _ hopen =>
    rcases hadmit : admitStream context states with error | state
    · refine iff_of_true (fun _ ↦ herase) ?_
      rintro ⟨state, h, -⟩
      cases h
    · have hstate : (∃ other, Except.ok (ε := ErrorEnvelope) state = .ok other ∧
          Unwritable other event) ↔ Unwritable state event := by
        constructor
        · rintro ⟨other, hsame, h⟩
          rwa [Except.ok.inj hsame]
        · exact fun h ↦ ⟨state, rfl, h⟩
      rw [hstate]
      dsimp only
      split
      next => exact iff_of_true (fun _ ↦ herase) id
      next => exact iff_of_true (fun _ ↦ herase) id
      next hredacted hdone =>
        -- the state is kept, whatever became of the event
        rw [← step_stops_iff]
        constructor
        · intro h hstops
          cases (AList.lookup_insert states).symm.trans (h (.inl hstops))
        · rintro hwritten (hstops | ⟨reason, sequence, hend⟩ | ⟨error, hend⟩)
          · exact absurd hstops hwritten
          · exact absurd hend (hdone reason sequence)
          · exact absurd hend (hopen error)

namespace RenderCall

theorem run_of_ok (serde : SerdeJson) (event : StreamEvent) (context : JsonValue)
    (states : StreamStates) : run serde ⟨.ok event, .ok context⟩ states =
      renderStreamEvent serde event context states := rfl

theorem streamId_of_ok (event : Except ErrorEnvelope StreamEvent) (context : JsonValue) :
    streamId ⟨event, .ok context⟩ = (memberStr "stream_id" context).getD "" := rfl

/-- A call without a stream does nothing, and fails. -/
theorem run_of_streamContext_error {serde : SerdeJson} {event : StreamEvent} {context : JsonValue}
    {error : ErrorEnvelope} (h : streamContext context = .error error) (states : StreamStates) :
    renderStreamEvent serde event context states = (.error error, states) := by
  rw [renderStreamEvent, h]

theorem streamId_of_streamContext_error {context : JsonValue} {error : ErrorEnvelope}
    (h : streamContext context = .error error) :
    (memberStr "stream_id" context).getD "" = "" := by
  rcases hmember : memberStr "stream_id" context with - | id
  · rfl
  · by_contra hne
    rw [streamContext, hmember, Option.filter_some, if_pos (by simpa using hne)] at h
    cases h

theorem renderStreamEvent_eq {serde : SerdeJson} {event : StreamEvent} {context : JsonValue}
    {read : StreamContext} (h : streamContext context = .ok read) (states : StreamStates) :
    (∃ error, (renderStreamEvent serde event context states).1 = .error error) =
        (∃ error, (renderEvents event read states).1 = .error error) ∧
      (renderStreamEvent serde event context states).2 = (renderEvents event read states).2 := by
  rw [renderStreamEvent, h]
  dsimp only
  rcases renderEvents event read states with ⟨error | out, states'⟩
  · exact ⟨propext (iff_of_true ⟨error, rfl⟩ ⟨error, rfl⟩), rfl⟩
  · refine ⟨propext (iff_of_false ?_ ?_), rfl⟩ <;> rintro ⟨error, h⟩ <;> nomatch h

/-- A call touches only its own stream. -/
theorem lookup_run {serde : SerdeJson} {call : RenderCall} {states : StreamStates} {other : String}
    (hother : other ≠ call.streamId) :
    (call.run serde states).2.lookup other = states.lookup other := by
  obtain ⟨error | event, error' | context⟩ := call
  · rfl
  · rfl
  · rfl
  · rcases hread : streamContext context with error | read
    · rw [run_of_ok, run_of_streamContext_error hread]
    · rw [run_of_ok, (renderStreamEvent_eq hread states).2]
      refine lookup_renderEvents fun hsame ↦ hother ?_
      exact hsame.trans (streamContext_eq_ok hread).1

/-- A call without an id touches nothing. -/
theorem run_of_empty {serde : SerdeJson} {call : RenderCall} (h : call.streamId = "")
    (states : StreamStates) : (call.run serde states).2 = states := by
  obtain ⟨error | event, error' | context⟩ := call
  · rfl
  · rfl
  · rfl
  · rcases hread : streamContext context with error | read
    · rw [run_of_ok, run_of_streamContext_error hread]
    · obtain ⟨hid, hne⟩ := streamContext_eq_ok hread
      exact absurd (hid.trans h) hne

/-- **What a call leaves of its stream.** -/
theorem freed_iff {serde : SerdeJson} {call : RenderCall} {states : StreamStates}
    (hempty : states.lookup "" = none) :
    call.Freed serde states ↔ ¬ call.LeavesBehind states := by
  obtain ⟨error | event, error' | context⟩ := call
  · refine iff_of_true (fun _ ↦ hempty) ?_
    rintro (⟨-, hentry⟩ | ⟨event, context, read, state, h, -⟩)
    · exact hentry hempty
    · nomatch h
  · constructor
    · rintro hfreed (⟨-, hentry⟩ | ⟨event, context, read, state, h, -⟩)
      · exact hentry (hfreed (.inl ⟨error, rfl⟩))
      · nomatch h
    · intro hleaves _
      by_contra hentry
      exact hleaves (.inl ⟨⟨error, rfl⟩, hentry⟩)
  · refine iff_of_true (fun _ ↦ hempty) ?_
    rintro (⟨⟨error, h⟩, -⟩ | ⟨event, context, read, state, -, h, -⟩)
    · nomatch h
    · nomatch h
  · have hleaves : LeavesBehind states ⟨.ok event, .ok context⟩ ↔ ∃ read,
        streamContext context = .ok read ∧
          ∃ state, admitStream read states = .ok state ∧ Unwritable state event := by
      constructor
      · rintro (⟨⟨error, h⟩, -⟩ | ⟨event', context', read, state, hevent, hcontext, hread, hrest⟩)
        · nomatch h
        · obtain rfl := Except.ok.inj hevent
          obtain rfl := Except.ok.inj hcontext
          exact ⟨read, hread, state, hrest⟩
      · rintro ⟨read, hread, state, hadmit, hunwritable⟩
        exact .inr ⟨event, context, read, state, rfl, rfl, hread, hadmit, hunwritable⟩
    rw [hleaves]
    rcases hread : streamContext context with error | read
    · refine iff_of_true (fun _ ↦ ?_) ?_
      · rw [run_of_ok, run_of_streamContext_error hread, streamId_of_ok,
          streamId_of_streamContext_error hread]
        exact hempty
      · rintro ⟨read, h, -⟩
        nomatch h
    · obtain ⟨hfails, hstates⟩ := @renderStreamEvent_eq serde event context read hread states
      have hone : (∃ other, Except.ok (ε := ErrorEnvelope) read = .ok other ∧
          ∃ state, admitStream other states = .ok state ∧ Unwritable state event) ↔
          ∃ state, admitStream read states = .ok state ∧ Unwritable state event := by
        constructor
        · rintro ⟨other, hsame, h⟩
          rwa [Except.ok.inj hsame]
        · exact fun h ↦ ⟨read, rfl, h⟩
      rw [hone, ← freed_renderEvents_iff, Freed, Terminal, run_of_ok, hfails, hstates,
        streamId_of_ok, ← (streamContext_eq_ok hread).1]
      simp only [Except.ok.injEq]

end RenderCall

/-! ### Runs -/

section Runs

variable {serde : SerdeJson} {calls : List RenderCall} {call : RenderCall}
variable {does : StreamStates → RenderCall → Prop}

theorem afterCalls_concat :
    afterCalls serde (calls ++ [call]) = (call.run serde (afterCalls serde calls)).2 :=
  List.foldl_concat ..

theorem lookup_empty_afterCalls (serde : SerdeJson) (calls : List RenderCall) :
    (afterCalls serde calls).lookup "" = none := by
  induction calls using List.reverseRecOn with
  | nil => rfl
  | append_singleton calls call ih =>
    rw [afterCalls_concat]
    by_cases hid : call.streamId = ""
    · rw [RenderCall.run_of_empty hid, ih]
    · rw [RenderCall.lookup_run (Ne.symm hid), ih]

theorem EveryCall.of_concat (h : EveryCall serde (calls ++ [call]) does) :
    EveryCall serde calls does ∧ does (afterCalls serde calls) call := by
  refine ⟨fun earlier other later hcalls ↦ ?_, h calls call [] rfl⟩
  refine h earlier other (later ++ [call]) ?_
  rw [hcalls, List.append_assoc, List.cons_append]

theorem everyCall_congr {does' : StreamStates → RenderCall → Prop}
    (h : ∀ earlier call, does (afterCalls serde earlier) call ↔
      does' (afterCalls serde earlier) call) :
    EveryCall serde calls does ↔ EveryCall serde calls does' := by
  refine forall_congr' fun earlier ↦ forall_congr' fun call ↦ forall_congr' fun later ↦ ?_
  rw [h]

theorem Live.concat {id : String} (h : Live serde calls id) (hid : id ≠ call.streamId) :
    Live serde (calls ++ [call]) id := by
  obtain ⟨earlier, last, later, hcalls, hlast, hlater, hopen, hanswer⟩ := h
  refine ⟨earlier, last, later ++ [call], ?_, hlast, fun next hnext ↦ ?_, hopen, hanswer⟩
  · rw [hcalls, List.append_assoc, List.cons_append]
  · obtain hmem | hmem := List.mem_append.mp hnext
    · exact hlater next hmem
    · rw [List.mem_singleton.mp hmem]
      exact hid.symm

/-- If every call frees what it should, only live streams are remembered. -/
theorem live_of_lookup (h : EveryCall serde calls (RenderCall.Freed serde)) {id : String}
    (hid : (afterCalls serde calls).lookup id ≠ none) : Live serde calls id := by
  induction calls using List.reverseRecOn with
  | nil => exact absurd rfl hid
  | append_singleton calls call ih =>
    obtain ⟨hearlier, hfreed⟩ := h.of_concat
    rw [afterCalls_concat] at hid
    by_cases hsame : id = call.streamId
    · subst hsame
      refine ⟨calls, call, [], rfl, rfl, fun next hnext ↦ (nomatch hnext), ?_, ?_⟩
      · exact fun hterminal ↦ hid (hfreed (.inr hterminal))
      · rcases hrun : (call.run serde (afterCalls serde calls)).1 with error | answer
        · exact absurd (hfreed (.inl ⟨error, hrun⟩)) hid
        · exact ⟨answer, rfl⟩
    · rw [RenderCall.lookup_run hsame] at hid
      exact (ih hearlier hid).concat hsame

theorem entries_le_liveStreams (h : EveryCall serde calls (RenderCall.Freed serde)) :
    (afterCalls serde calls).entries.length ≤ (liveStreams serde calls).card := by
  classical
  have hcard : (afterCalls serde calls).keys.toFinset.card =
      (afterCalls serde calls).entries.length := by
    rw [List.toFinset_card_of_nodup (AList.keys_nodup _), AList.keys, List.keys, List.length_map]
  rw [← hcard]
  refine Finset.card_le_card fun id hid ↦ ?_
  rw [List.mem_toFinset, ← AList.mem_keys] at hid
  have hlive : Live serde calls id := live_of_lookup h fun hnone ↦ AList.lookup_eq_none.mp hnone hid
  have hcalled : ∃ call ∈ calls, call.streamId = id := by
    obtain ⟨earlier, call, later, rfl, hsame, -⟩ := hlive
    exact ⟨call, by simp, hsame⟩
  rw [liveStreams, Finset.mem_filter, List.mem_toFinset, List.mem_map]
  exact ⟨hcalled, hlive⟩

end Runs

/-- **When failed renderings free their streams.** In every run, every call that fails or ends its
stream leaves nothing of it if and only if no call leaves one behind, and then there are no more
entries than streams whose last call was answered and did not end them. -/
theorem renders_freed_iff (serde : SerdeJson) (calls : List RenderCall) :
    (EveryCall serde calls (RenderCall.Freed serde) ↔
      EveryCall serde calls fun states call ↦ ¬ call.LeavesBehind states) ∧
    (EveryCall serde calls (fun states call ↦ ¬ call.LeavesBehind states) →
      (afterCalls serde calls).entries.length ≤ (liveStreams serde calls).card) := by
  have hiff : EveryCall serde calls (RenderCall.Freed serde) ↔
      EveryCall serde calls fun states call ↦ ¬ call.LeavesBehind states :=
    everyCall_congr fun earlier _ ↦ RenderCall.freed_iff (lookup_empty_afterCalls serde earlier)
  exact ⟨hiff, fun h ↦ entries_le_liveStreams (hiff.mpr h)⟩

/-- A first piece of a tool call that does not name it. -/
def namelessCall : RenderCall where
  event := .ok (.toolCallDelta 0 none none "")
  context := .ok (object [("stream_id", string "s")])

/-- The call fails, and its stream stays. -/
theorem not_freed_nameless :
    (∃ error, (namelessCall.run compactSerde ∅).1 = .error error) ∧
      (afterCalls compactSerde [namelessCall]).entries.length = 1 ∧
      ¬ EveryCall compactSerde [namelessCall] (RenderCall.Freed compactSerde) := by
  have hfails : ∃ error, (namelessCall.run compactSerde ∅).1 = .error error := ⟨_, rfl⟩
  have hstays : (namelessCall.run compactSerde ∅).2.lookup namelessCall.streamId ≠ none :=
    fun hnone ↦ nomatch hnone
  exact ⟨hfails, rfl, fun h ↦ hstays (h [] namelessCall [] rfl (.inl hfails))⟩

end AnthropicStream

end TokenStation
