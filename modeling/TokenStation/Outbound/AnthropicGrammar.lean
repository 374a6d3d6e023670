import TokenStation.Library.Blocks
import TokenStation.Library.Exits
import TokenStation.Outbound.AnthropicStream

/-!
# The grammar of a rendered stream

What `agent-anthropic` writes for a stream is one message. Every choice of text, every block of
thinking and every tool call of the canonical stream becomes one numbered content block, with the
fragments of its source in their order; `Blocks` says in general what that means.
-/

namespace TokenStation

namespace AnthropicStream

open Library JsonValue

/-! ## Sources and their fragments -/

/-- What a content block is made of. -/
inductive Source where
  | text (choice : ℕ)
  | thinking (choice block : ℕ)
  | tool (index : ℕ)
  deriving DecidableEq

/-- A piece of a content block. The first piece of a tool call names the call. -/
structure Fragment where
  delta : BlockDelta
  id : Option String := none
  name : Option String := none
  deriving DecidableEq

/-- The piece that an event brings. -/
def fragment? : StreamEvent → Option (Source × Fragment)
  | .delta index content => some (.text index, { delta := .text content })
  | .thinkingDelta index block piece => some (.thinking index block, { delta := .thinking piece })
  | .thinkingSignatureDelta index block piece =>
    some (.thinking index block, { delta := .signature piece })
  | .toolCallDelta index id name piece =>
    some (.tool index, { delta := .inputJson piece, id, name })
  | _ => none

def fragments (events : List StreamEvent) : List (Source × Fragment) := events.filterMap fragment?

/-- The sources of a stream, in the order in which they first appear. -/
def sources (events : List StreamEvent) : List Source := (Blocks.placeAll (fragments events)).keys

/-- The pieces of a source, in order. -/
def piecesOf (source : Source) (events : List StreamEvent) : List BlockDelta :=
  ((fragments events).filter (·.1 = source)).map (·.2.delta)

def blockStart : Source × Fragment → BlockStart
  | (.text _, _) => .text
  | (.thinking _ _, _) => .thinking
  | (.tool _, first) => .toolUse (first.id.getD "") (first.name.getD "")

/-- The usage of a stream: the reports, folded. -/
def foldedUsage (context : StreamContext) (events : List StreamEvent) : Usage :=
  (events.filterMap StreamEvent.usage?).foldl Usage.absorb { inputTokens := context.inputTokens }

/-- Whether an event is one that the renderer takes and that does not end the stream. -/
def leavesOpen : StreamEvent → Bool
  | .redactedThinking .. | .done .. | .error _ => false
  | _ => true

def finish? : StreamEvent → Option (Option FinishReason × Option String)
  | .finish finishReason stopSequence => some (finishReason, stopSequence)
  | _ => none

/-- The last early reason to finish. -/
def lastFinish (events : List StreamEvent) : Option FinishReason × Option String :=
  ((events.filterMap finish?).getLast?).getD (none, none)

/-! ## What is well formed -/

namespace WireEvent

def startIndex? : WireEvent → Option ℕ
  | contentBlockStart index _ => some index
  | _ => none

def stopIndex? : WireEvent → Option ℕ
  | contentBlockStop index => some index
  | _ => none

def deltaOf? (index : ℕ) : WireEvent → Option BlockDelta
  | contentBlockDelta block delta => if block = index then some delta else none
  | _ => none

end WireEvent

/-- A message with numbered blocks, each with all of its source, and the end of the stream. -/
structure WellFormed (context : StreamContext) (events : List StreamEvent)
    (finishReason : Option FinishReason) (stopSequence : Option String) (out : List WireEvent) :
    Prop where
  /-- One message begins, and before everything else. -/
  opening : ∃ tokens rest, out = .messageStart context.responseId context.model tokens :: rest ∧
    ∀ event ∈ rest, event.name ≠ "message_start"
  started : out.filterMap WireEvent.startIndex? = List.range (sources events).length
  stopped : out.filterMap WireEvent.stopIndex? = List.range (sources events).length
  /-- Deltas stand between the start of their block and its stop. -/
  inside : ∀ before index delta after,
    out = before ++ WireEvent.contentBlockDelta index delta :: after →
      (∃ block, WireEvent.contentBlockStart index block ∈ before) ∧
        WireEvent.contentBlockStop index ∈ after
  sources_nodup : (sources events).Nodup
  mem_sources : ∀ source, source ∈ sources events ↔ piecesOf source events ≠ []
  /-- A block is one source, whole and in order. -/
  content : ∀ index source, (sources events)[index]? = some source →
    out.filterMap (WireEvent.deltaOf? index) = piecesOf source events ∧
      ∃ first, (fragments events).find? (·.1 = source) = some first ∧
        WireEvent.contentBlockStart index (blockStart first) ∈ out
  ending : ∃ init, out = init ++
    [.messageDelta (finishReasonToAnthropic (finishReason.or (lastFinish events).1))
      (stopSequence.or (lastFinish events).2) (streamUsage (foldedUsage context events)),
      .messageStop]

/-! ## One step -/

namespace StreamState

/-- The head of the message, where it is not yet written. -/
def opening (state : StreamState) : List WireEvent :=
  if state.started then []
  else [.messageStart state.responseId state.model (freshInputTokens state.usage)]

/-- The block of a source. -/
def block? (state : StreamState) : Source → Option ℕ
  | .text choice => state.textBlocks.lookup choice
  | .thinking choice block => state.thinkingBlocks.lookup (choice, block)
  | .tool index => (state.toolBlocks.lookup index).map ToolBlock.contentIndex

/-- A state with one block more. -/
structure Extends (state : StreamState) (source : Source) (state' : StreamState) : Prop where
  block : ∀ other, state'.block? other =
    if other = source then some state.nextBlockIndex else state.block? other
  next : state'.nextBlockIndex = state.nextBlockIndex + 1
  openBlocks : state'.openBlocks = state.openBlocks ++ [state.nextBlockIndex]
  responseId : state'.responseId = state.responseId
  model : state'.model = state.model
  usage : state'.usage = state.usage
  started : state'.started = state.started
  pendingFinishReason : state'.pendingFinishReason = state.pendingFinishReason
  pendingStopSequence : state'.pendingStopSequence = state.pendingStopSequence

/-- A source has a block: the old one, or a new one that is opened. -/
def Placed (state : StreamState) (source : Source) (start : BlockStart) (block : ℕ)
    (opened : List WireEvent) (state' : StreamState) : Prop :=
  (state.block? source = some block ∧ opened = [] ∧ state' = state) ∨
    (state.block? source = none ∧ block = state.nextBlockIndex ∧
      opened = [.contentBlockStart block start] ∧ state.Extends source state')

end StreamState

theorem ensureStarted_run {state state' : StreamState} {out : List WireEvent}
    (h : ensureStarted state = (.ok out, state')) :
    out = state.opening ∧ state' = { state with started := true } := by
  rw [ensureStarted, run_get_bind] at h
  rw [StreamState.opening]
  split_ifs at h ⊢ with hstarted
  · obtain ⟨rfl, rfl⟩ := run_pure_eq.mp h
    exact ⟨rfl, by rw [← hstarted]⟩
  · obtain ⟨hvalue, rfl⟩ := Prod.mk.inj h
    exact ⟨(Except.ok.inj hvalue).symm, rfl⟩

theorem allocateBlock_run {state state' : StreamState} {block : ℕ}
    (h : allocateBlock state = (.ok block, state')) :
    block = state.nextBlockIndex ∧ state' = { state with
      nextBlockIndex := state.nextBlockIndex + 1
      openBlocks := state.openBlocks ++ [state.nextBlockIndex] } := by
  rw [allocateBlock, run_get_bind] at h
  split_ifs at h with hfull
  · nomatch h
  · obtain ⟨hblock, hstate⟩ := Prod.mk.inj h
    exact ⟨(Except.ok.inj hblock).symm, hstate.symm⟩

theorem textBlock_run {state state' : StreamState} {index block : ℕ} {opened : List WireEvent}
    (h : textBlock index state = (.ok (block, opened), state')) :
    state.Placed (.text index) .text block opened state' := by
  rw [textBlock, run_get_bind] at h
  rcases hlookup : state.textBlocks.lookup index with _ | old
  · rw [hlookup] at h
    obtain ⟨new, state₁, hallocate, h⟩ := run_bind_eq.mp h
    obtain ⟨rfl, rfl⟩ := allocateBlock_run hallocate
    obtain ⟨hvalue, rfl⟩ := Prod.mk.inj h
    obtain ⟨rfl, rfl⟩ := Prod.mk.inj (Except.ok.inj hvalue)
    refine Or.inr ⟨hlookup, rfl, rfl, ⟨fun other ↦ ?_, rfl, rfl, rfl, rfl, rfl, rfl, rfl, rfl⟩⟩
    rcases other with choice | ⟨choice, source⟩ | tool
    · by_cases heq : choice = index
      · rw [heq, if_pos rfl]
        exact AList.lookup_insert _
      · rw [if_neg (mt Source.text.inj heq)]
        exact AList.lookup_insert_ne heq
    · rfl
    · rfl
  · rw [hlookup] at h
    obtain ⟨hvalue, rfl⟩ := Prod.mk.inj h
    obtain ⟨rfl, rfl⟩ := Prod.mk.inj (Except.ok.inj hvalue)
    exact Or.inl ⟨hlookup, rfl, rfl⟩

theorem thinkingBlock_run {state state' : StreamState} {choice source block : ℕ}
    {opened : List WireEvent}
    (h : thinkingBlock (choice, source) state = (.ok (block, opened), state')) :
    state.Placed (.thinking choice source) .thinking block opened state' := by
  rw [thinkingBlock, run_get_bind] at h
  rcases hlookup : state.thinkingBlocks.lookup (choice, source) with _ | old
  · rw [hlookup] at h
    obtain ⟨new, state₁, hallocate, h⟩ := run_bind_eq.mp h
    obtain ⟨rfl, rfl⟩ := allocateBlock_run hallocate
    obtain ⟨hvalue, rfl⟩ := Prod.mk.inj h
    obtain ⟨rfl, rfl⟩ := Prod.mk.inj (Except.ok.inj hvalue)
    refine Or.inr ⟨hlookup, rfl, rfl, ⟨fun other ↦ ?_, rfl, rfl, rfl, rfl, rfl, rfl, rfl, rfl⟩⟩
    rcases other with text | ⟨otherChoice, otherSource⟩ | tool
    · rfl
    · by_cases heq : (otherChoice, otherSource) = (choice, source)
      · obtain ⟨rfl, rfl⟩ := Prod.mk.inj heq
        rw [if_pos rfl]
        exact AList.lookup_insert _
      · rw [if_neg fun hsource ↦ heq (Prod.ext_iff.mpr (Source.thinking.inj hsource))]
        exact AList.lookup_insert_ne heq
    · rfl
  · rw [hlookup] at h
    obtain ⟨hvalue, rfl⟩ := Prod.mk.inj h
    obtain ⟨rfl, rfl⟩ := Prod.mk.inj (Except.ok.inj hvalue)
    exact Or.inl ⟨hlookup, rfl, rfl⟩

theorem toolBlock_run {state state' : StreamState} {index : ℕ} {id name : Option String}
    {block : ToolBlock} {opened : List WireEvent}
    (h : toolBlock index id name state = (.ok (block, opened), state')) :
    state.Placed (.tool index) (.toolUse (id.getD "") (name.getD "")) block.contentIndex opened
      state' := by
  rw [toolBlock, run_get_bind] at h
  rcases hlookup : state.toolBlocks.lookup index with _ | old
  · rw [hlookup] at h
    obtain ⟨newId, state₁, hliftId, h⟩ := run_bind_eq.mp h
    obtain ⟨newName, state₂, hliftName, h⟩ := run_bind_eq.mp h
    obtain ⟨new, state₃, hallocate, h⟩ := run_bind_eq.mp h
    obtain ⟨hid, rfl⟩ := Prod.mk.inj hliftId
    obtain ⟨hname, rfl⟩ := Prod.mk.inj hliftName
    obtain ⟨rfl, rfl⟩ := allocateBlock_run hallocate
    obtain ⟨hvalue, rfl⟩ := Prod.mk.inj h
    obtain ⟨rfl, rfl⟩ := Prod.mk.inj (Except.ok.inj hvalue)
    obtain rfl : id = some newId := orInvalid_eq_ok.mp hid
    obtain rfl : name = some newName := orInvalid_eq_ok.mp hname
    refine Or.inr ⟨by rw [StreamState.block?, hlookup]; rfl, rfl, rfl,
      ⟨fun other ↦ ?_, rfl, rfl, rfl, rfl, rfl, rfl, rfl, rfl⟩⟩
    rcases other with text | ⟨choice, source⟩ | tool
    · rfl
    · rfl
    · by_cases heq : tool = index
      · rw [heq, if_pos rfl]
        exact congrArg (Option.map ToolBlock.contentIndex) (AList.lookup_insert state.toolBlocks)
      · rw [if_neg (mt Source.tool.inj heq)]
        exact congrArg (Option.map ToolBlock.contentIndex) (AList.lookup_insert_ne heq)
  · rw [hlookup] at h
    obtain ⟨hvalue, rfl⟩ := Prod.mk.inj h
    obtain ⟨rfl, rfl⟩ := Prod.mk.inj (Except.ok.inj hvalue)
    exact Or.inl ⟨by rw [StreamState.block?, hlookup]; rfl, rfl, rfl⟩

/-- A step with a fragment: the message begins, the block is opened, the piece is written. -/
theorem step_fragment {event : StreamEvent} {source : Source} {fragment : Fragment}
    {state state' : StreamState} {out : List WireEvent}
    (hfragment : fragment? event = some (source, fragment))
    (h : step event state = (.ok out, state')) :
    ∃ block opened,
      { state with started := true }.Placed source (blockStart (source, fragment)) block opened
        state' ∧
      out = state.opening ++ opened ++ [.contentBlockDelta block fragment.delta] := by
  cases event with
  | delta index content =>
    obtain ⟨rfl, rfl⟩ := Prod.mk.inj (Option.some.inj hfragment)
    rw [step] at h
    obtain ⟨started, state₁, hstarted, hrest⟩ := run_bind_eq.mp h
    obtain ⟨rfl, rfl⟩ := ensureStarted_run hstarted
    obtain ⟨⟨block, opened⟩, state₂, hblock, hwrite⟩ := run_bind_eq.mp hrest
    obtain ⟨rfl, rfl⟩ := run_pure_eq.mp hwrite
    exact ⟨block, opened, textBlock_run hblock, rfl⟩
  | thinkingDelta index blockIndex piece =>
    obtain ⟨rfl, rfl⟩ := Prod.mk.inj (Option.some.inj hfragment)
    rw [step] at h
    obtain ⟨started, state₁, hstarted, hrest⟩ := run_bind_eq.mp h
    obtain ⟨rfl, rfl⟩ := ensureStarted_run hstarted
    obtain ⟨⟨block, opened⟩, state₂, hblock, hwrite⟩ := run_bind_eq.mp hrest
    obtain ⟨rfl, rfl⟩ := run_pure_eq.mp hwrite
    exact ⟨block, opened, thinkingBlock_run hblock, rfl⟩
  | thinkingSignatureDelta index blockIndex piece =>
    obtain ⟨rfl, rfl⟩ := Prod.mk.inj (Option.some.inj hfragment)
    rw [step] at h
    obtain ⟨started, state₁, hstarted, hrest⟩ := run_bind_eq.mp h
    obtain ⟨rfl, rfl⟩ := ensureStarted_run hstarted
    obtain ⟨⟨block, opened⟩, state₂, hblock, hwrite⟩ := run_bind_eq.mp hrest
    obtain ⟨rfl, rfl⟩ := run_pure_eq.mp hwrite
    exact ⟨block, opened, thinkingBlock_run hblock, rfl⟩
  | toolCallDelta index id name piece =>
    obtain ⟨rfl, rfl⟩ := Prod.mk.inj (Option.some.inj hfragment)
    rw [step] at h
    obtain ⟨started, state₁, hstarted, hrest⟩ := run_bind_eq.mp h
    obtain ⟨rfl, rfl⟩ := ensureStarted_run hstarted
    obtain ⟨⟨block, opened⟩, state₂, hblock, hwrite⟩ := run_bind_eq.mp hrest
    dsimp only at hwrite
    split_ifs at hwrite with hchanged
    · nomatch hwrite
    · obtain ⟨rfl, rfl⟩ := run_pure_eq.mp hwrite
      exact ⟨block.contentIndex, opened, toolBlock_run hblock, rfl⟩
  | redactedThinking => nomatch hfragment
  | usage => nomatch hfragment
  | finish => nomatch hfragment
  | done => nomatch hfragment
  | error => nomatch hfragment

theorem step_usage (usage : Usage) (state : StreamState) :
    step (.usage usage) state =
      (.ok ({ state with usage := state.usage.absorb usage }.opening ++
          [.messageDelta none none (streamUsage (state.usage.absorb usage))]),
        { state with usage := state.usage.absorb usage, started := true }) := by
  obtain ⟨_, _, _, started, _, _, _, _, _, _, _⟩ := state
  cases started <;> rfl

/-! ## A whole stream -/

/-- How a mark stands in the stream. -/
def markEvent : BlockMark Source Fragment → WireEvent
  | .opened index first => .contentBlockStart index (blockStart first)
  | .put index piece => .contentBlockDelta index piece.delta

/-- Whether an event opens a block or writes into one. -/
def WireEvent.writes : WireEvent → Bool
  | contentBlockStart .. | contentBlockDelta .. => true
  | _ => false

/-- What stands between the head of the message and its end. -/
structure Body (events : List StreamEvent) (body : List WireEvent) : Prop where
  marks : body.filter WireEvent.writes = (Blocks.placeAll (fragments events)).marks.map markEvent
  others : ∀ event ∈ body, event.writes ∨ ∃ usage, event = .messageDelta none none usage

/-- What was written of a stream, and what is remembered of it. -/
structure Rendering (context : StreamContext) (events : List StreamEvent) (out : List WireEvent)
    (state : StreamState) : Prop where
  responseId : state.responseId = context.responseId
  model : state.model = context.model
  usage : state.usage = foldedUsage context events
  pending : (state.pendingFinishReason, state.pendingStopSequence) = lastFinish events
  block : ∀ source, state.block? source =
    if source ∈ sources events then some ((sources events).idxOf source) else none
  next : state.nextBlockIndex = (sources events).length
  openBlocks : state.openBlocks = List.range (sources events).length
  written : ∃ body, Body events body ∧
    (state.started = true ∧
        (∃ tokens, out = .messageStart context.responseId context.model tokens :: body) ∨
      state.started = false ∧ out = [] ∧ body = [])

/-- With the head of the message, if it is missing, there is a head and a body. -/
theorem Rendering.opening {context : StreamContext} {events : List StreamEvent}
    {out : List WireEvent} {state : StreamState} (h : Rendering context events out state)
    (usage : Usage) :
    ∃ tokens body, Body events body ∧ out ++ { state with usage := usage }.opening =
      .messageStart context.responseId context.model tokens :: body := by
  obtain ⟨body, hbody, ⟨hstarted, tokens, rfl⟩ | ⟨hstarted, rfl, rfl⟩⟩ := h.written
  · refine ⟨tokens, body, hbody, ?_⟩
    rw [StreamState.opening, if_pos hstarted, List.append_nil]
  · refine ⟨freshInputTokens usage, [], hbody, ?_⟩
    rw [StreamState.opening, if_neg (by simp [hstarted]), List.nil_append, h.responseId, h.model]

/-- Nothing is written of a new stream. -/
theorem Rendering.new (context : StreamContext) :
    Rendering context [] [] (StreamState.new context) where
  responseId := rfl
  model := rfl
  usage := rfl
  pending := rfl
  block source := by cases source <;> rfl
  next := rfl
  openBlocks := rfl
  written := ⟨[], ⟨rfl, fun _ hmem ↦ absurd hmem List.not_mem_nil⟩, Or.inr ⟨rfl, rfl, rfl⟩⟩

section Concat

variable {context : StreamContext} {events : List StreamEvent} {event : StreamEvent}
  {source : Source} {fragment : Fragment}

theorem fragments_concat_some (h : fragment? event = some (source, fragment)) :
    fragments (events ++ [event]) = fragments events ++ [(source, fragment)] := by
  rw [fragments, List.filterMap_append, List.filterMap_cons_some h, List.filterMap_nil, fragments]

theorem fragments_concat_none (h : fragment? event = none) :
    fragments (events ++ [event]) = fragments events := by
  rw [fragments, List.filterMap_append, List.filterMap_cons_none h, List.filterMap_nil,
    List.append_nil, fragments]

theorem foldedUsage_concat_none (h : event.usage? = none) :
    foldedUsage context (events ++ [event]) = foldedUsage context events := by
  rw [foldedUsage, List.filterMap_append, List.filterMap_cons_none h, List.filterMap_nil,
    List.append_nil, foldedUsage]

theorem lastFinish_concat_none (h : finish? event = none) :
    lastFinish (events ++ [event]) = lastFinish events := by
  rw [lastFinish, List.filterMap_append, List.filterMap_cons_none h, List.filterMap_nil,
    List.append_nil, lastFinish]

/-- An event with a fragment reports no usage and no reason to finish. -/
theorem none_of_fragment (h : fragment? event = some (source, fragment)) :
    event.usage? = none ∧ finish? event = none := by
  cases event with
  | usage => nomatch h
  | finish => nomatch h
  | _ => exact ⟨rfl, rfl⟩

theorem writes_markEvent (mark : BlockMark Source Fragment) : (markEvent mark).writes = true := by
  cases mark <;> rfl

/-- A body with more marks. -/
theorem Body.concat {events' : List StreamEvent} {body : List WireEvent}
    {new : List (BlockMark Source Fragment)} (h : Body events body)
    (hnew : (Blocks.placeAll (fragments events')).marks =
      (Blocks.placeAll (fragments events)).marks ++ new) :
    Body events' (body ++ new.map markEvent) where
  marks := by
    have hall : (new.map markEvent).filter WireEvent.writes = new.map markEvent := by
      refine List.filter_eq_self.mpr fun event hmem ↦ ?_
      obtain ⟨mark, -, rfl⟩ := List.mem_map.mp hmem
      exact writes_markEvent mark
    rw [hnew, List.filter_append, hall, h.marks, List.map_append]
  others event hmem := by
    rcases List.mem_append.mp hmem with hmem | hmem
    · exact h.others event hmem
    · obtain ⟨mark, -, rfl⟩ := List.mem_map.mp hmem
      exact Or.inl (writes_markEvent mark)

/-- A body with a report of usage. -/
theorem Body.concat_usage {events' : List StreamEvent} {body : List WireEvent} {usage : StreamUsage}
    (h : Body events body) (hsame : fragments events' = fragments events) :
    Body events' (body ++ [.messageDelta none none usage]) where
  marks := by
    rw [hsame, ← h.marks, List.filter_append]
    exact List.append_nil _
  others event hmem := by
    rcases List.mem_append.mp hmem with hmem | hmem
    · exact h.others event hmem
    · exact Or.inr ⟨usage, List.mem_singleton.mp hmem⟩

variable {out : List WireEvent} {state state' : StreamState}

theorem StreamState.block?_begun (state : StreamState) (source : Source) :
    { state with started := true }.block? source = state.block? source := by
  cases source <;> rfl

theorem Rendering.concat_fragment {block : ℕ} {opened : List WireEvent}
    (h : Rendering context events out state)
    (hfragment : fragment? event = some (source, fragment))
    (hplaced : { state with started := true }.Placed source (blockStart (source, fragment)) block
      opened state') :
    Rendering context (events ++ [event])
      (out ++ (state.opening ++ opened ++ [.contentBlockDelta block fragment.delta])) state' := by
  obtain ⟨husage, hfinish⟩ := none_of_fragment hfragment
  obtain ⟨tokens, body, hbody, hout⟩ := h.opening state.usage
  have hplace : Blocks.placeAll (fragments (events ++ [event])) =
      (Blocks.placeAll (fragments events)).place (source, fragment) := by
    rw [fragments_concat_some hfragment, Blocks.placeAll_concat]
  have hsplit : out ++ (state.opening ++ opened ++ [.contentBlockDelta block fragment.delta]) =
      .messageStart context.responseId context.model tokens ::
        (body ++ (opened ++ [.contentBlockDelta block fragment.delta])) := by
    rw [List.append_assoc, ← List.append_assoc, hout, List.cons_append]
  rcases hplaced with ⟨hblock, rfl, rfl⟩ | ⟨hblock, hindex, rfl, hextends⟩
  · -- the source has a block
    rw [state.block?_begun, h.block] at hblock
    obtain ⟨hmem, hindex⟩ := Option.ite_none_right_eq_some.mp hblock
    obtain rfl := Option.some.inj hindex
    have hkey : (source, fragment).1 ∈ (Blocks.placeAll (fragments events)).keys := hmem
    rw [Blocks.place_of_mem hkey] at hplace
    have hsources : sources (events ++ [event]) = sources events := by rw [sources, hplace, sources]
    exact
      { responseId := h.responseId
        model := h.model
        usage := h.usage.trans (foldedUsage_concat_none husage).symm
        pending := h.pending.trans (lastFinish_concat_none hfinish).symm
        block := fun other ↦ by rw [state.block?_begun, hsources, h.block]
        next := by rw [hsources]; exact h.next
        openBlocks := by rw [hsources]; exact h.openBlocks
        written := ⟨_, hbody.concat (congrArg Blocks.marks hplace), Or.inl ⟨rfl, tokens, hsplit⟩⟩ }
  · -- the source gets the next block
    rw [state.block?_begun, h.block] at hblock
    have hmem : source ∉ sources events := fun hmem ↦ by
      rw [if_pos hmem] at hblock
      nomatch hblock
    have hkey : (source, fragment).1 ∉ (Blocks.placeAll (fragments events)).keys := hmem
    rw [Blocks.place_of_notMem hkey] at hplace
    have hsources : sources (events ++ [event]) = sources events ++ [source] :=
      congrArg Blocks.keys hplace
    obtain rfl : block = (sources events).length := hindex.trans h.next
    exact
      { responseId := hextends.responseId.trans h.responseId
        model := hextends.model.trans h.model
        usage := (hextends.usage.trans h.usage).trans (foldedUsage_concat_none husage).symm
        pending := by
          rw [hextends.pendingFinishReason, hextends.pendingStopSequence,
            lastFinish_concat_none hfinish]
          exact h.pending
        block := fun other ↦ by
          rw [hextends.block, state.block?_begun, h.block, hsources]
          by_cases heq : other = source
          · rw [if_pos heq, heq, if_pos List.mem_concat_self, List.idxOf_append_of_notMem hmem,
              List.idxOf_cons_self, Nat.add_zero]
            exact congrArg some h.next
          · by_cases hold : other ∈ sources events
            · rw [if_neg heq, if_pos hold, if_pos (List.mem_append_left _ hold),
                List.idxOf_append_of_mem hold]
            · rw [if_neg heq, if_neg hold, if_neg fun hnew ↦ ?_]
              rcases List.mem_append.mp hnew with hnew | hnew
              · exact hold hnew
              · exact heq (List.mem_singleton.mp hnew)
        next := by
          rw [hextends.next, hsources, List.length_append, List.length_singleton]
          exact congrArg (· + 1) h.next
        openBlocks := by
          rw [hextends.openBlocks, hsources, List.length_append, List.length_singleton,
            List.range_succ, ← h.openBlocks, ← h.next]
        written := ⟨_, hbody.concat (congrArg Blocks.marks hplace),
          Or.inl ⟨hextends.started, tokens, hsplit⟩⟩ }

theorem Rendering.concat_usage (h : Rendering context events out state) (usage : Usage) :
    Rendering context (events ++ [.usage usage])
      (out ++ ({ state with usage := state.usage.absorb usage }.opening ++
        [.messageDelta none none (streamUsage (state.usage.absorb usage))]))
      { state with usage := state.usage.absorb usage, started := true } := by
  have hfragments : fragments (events ++ [.usage usage]) = fragments events :=
    fragments_concat_none rfl
  have hsources : sources (events ++ [.usage usage]) = sources events := by
    rw [sources, hfragments, sources]
  obtain ⟨tokens, body, hbody, hout⟩ := h.opening (state.usage.absorb usage)
  exact
    { responseId := h.responseId
      model := h.model
      usage := by
        rw [foldedUsage, List.filterMap_append, List.foldl_append, ← foldedUsage, ← h.usage]
        rfl
      pending := h.pending.trans (lastFinish_concat_none rfl).symm
      block := fun source ↦ by
        rw [hsources, ← h.block]
        cases source <;> rfl
      next := by rw [hsources]; exact h.next
      openBlocks := by rw [hsources]; exact h.openBlocks
      written := ⟨_, hbody.concat_usage hfragments,
        Or.inl ⟨rfl, tokens, by rw [← List.append_assoc, hout, List.cons_append]⟩⟩ }

theorem Rendering.concat_finish (h : Rendering context events out state)
    (finishReason : Option FinishReason) (stopSequence : Option String) :
    Rendering context (events ++ [.finish finishReason stopSequence]) (out ++ [])
      { state with
        pendingFinishReason := finishReason
        pendingStopSequence := stopSequence } := by
  have hfragments : fragments (events ++ [.finish finishReason stopSequence]) = fragments events :=
    fragments_concat_none rfl
  have hsources : sources (events ++ [.finish finishReason stopSequence]) = sources events := by
    rw [sources, hfragments, sources]
  obtain ⟨body, hbody, hwritten⟩ := h.written
  exact
    { responseId := h.responseId
      model := h.model
      usage := h.usage.trans (foldedUsage_concat_none rfl).symm
      pending := by
        have hlast : [StreamEvent.finish finishReason stopSequence].filterMap finish? =
            [(finishReason, stopSequence)] := rfl
        rw [lastFinish, List.filterMap_append, hlast, List.getLast?_concat, Option.getD_some]
      block := fun source ↦ by
        rw [hsources, ← h.block]
        cases source <;> rfl
      next := by rw [hsources]; exact h.next
      openBlocks := by rw [hsources]; exact h.openBlocks
      written := ⟨body, ⟨by rw [hfragments, hbody.marks], hbody.others⟩, by
        rw [List.append_nil]
        exact hwritten⟩ }

/-- What a step of a stream does to what was written. -/
theorem Rendering.step {written : List WireEvent} (h : Rendering context events out state)
    (hopen : leavesOpen event) (hrun : step event state = (.ok written, state')) :
    Rendering context (events ++ [event]) (out ++ written) state' := by
  rcases hfragment : fragment? event with _ | ⟨source, fragment⟩
  · cases event with
    | usage usage =>
      obtain ⟨hwritten, rfl⟩ := Prod.mk.inj ((step_usage usage state).symm.trans hrun)
      obtain rfl := Except.ok.inj hwritten
      exact h.concat_usage usage
    | finish finishReason stopSequence =>
      obtain ⟨hwritten, rfl⟩ := Prod.mk.inj hrun
      obtain rfl := Except.ok.inj hwritten
      exact h.concat_finish finishReason stopSequence
    | delta => nomatch hfragment
    | thinkingDelta => nomatch hfragment
    | thinkingSignatureDelta => nomatch hfragment
    | toolCallDelta => nomatch hfragment
    | redactedThinking => nomatch hopen
    | done => nomatch hopen
    | error => nomatch hopen
  · obtain ⟨block, opened, hplaced, rfl⟩ := step_fragment hfragment hrun
    exact h.concat_fragment hfragment hplaced

end Concat

/-! ## The end of a stream -/

section Closed

variable {context : StreamContext} {events : List StreamEvent} {body : List WireEvent}

/-- The end of a message: all blocks are closed. -/
def closing (events : List StreamEvent) (stopReason stopSequence : Option String)
    (usage : StreamUsage) : List WireEvent :=
  (List.range (sources events).length).map .contentBlockStop ++
    [.messageDelta stopReason stopSequence usage, .messageStop]

variable {stopReason stopSequence : Option String} {usage : StreamUsage} {tokens : UInt64}
  {out : List WireEvent}

theorem not_writes_of_mem_closing {event : WireEvent}
    (h : event ∈ closing events stopReason stopSequence usage) : event.writes = false := by
  rcases List.mem_append.mp h with hmem | hmem
  · obtain ⟨index, -, rfl⟩ := List.mem_map.mp hmem
    rfl
  · rcases List.mem_pair.mp hmem with rfl | rfl
    · rfl
    · rfl

/-- What is written into blocks is what the marks say. -/
theorem Body.filter_writes (h : Body events body)
    (hout : out = .messageStart context.responseId context.model tokens ::
      (body ++ closing events stopReason stopSequence usage)) :
    out.filter WireEvent.writes = (Blocks.placeAll (fragments events)).marks.map markEvent := by
  have hclosing : (closing events stopReason stopSequence usage).filter WireEvent.writes = [] :=
    List.filter_eq_nil_iff.mpr fun event hmem ↦ by simp [not_writes_of_mem_closing hmem]
  rw [hout, List.filter_cons_of_neg (by simp [WireEvent.writes]), List.filter_append, hclosing,
    List.append_nil, h.marks]

/-- What is read of the writing events alone is read of the marks. -/
theorem filterMap_of_writes {β : Type} {f : WireEvent → Option β}
    {marks : List (BlockMark Source Fragment)}
    (hout : out.filter WireEvent.writes = marks.map markEvent)
    (hf : ∀ event, event.writes = false → f event = none) :
    out.filterMap f = marks.filterMap (f ∘ markEvent) := by
  rw [← List.filterMap_map, ← hout, List.filterMap_filter]
  refine List.filterMap_congr fun event _ ↦ ?_
  by_cases hwrites : event.writes = true
  · rw [if_pos hwrites]
  · rw [if_neg hwrites, hf event (by simpa using hwrites)]

theorem startIndex?_markEvent :
    (WireEvent.startIndex? ∘ markEvent) = (BlockMark.openedIndex? : _ → Option ℕ) := by
  funext mark
  cases mark <;> rfl

theorem deltaOf?_markEvent (index : ℕ) : (WireEvent.deltaOf? index ∘ markEvent) =
    fun mark ↦ (BlockMark.pieceOf? index mark).map Fragment.delta := by
  funext mark
  cases mark with
  | opened => rfl
  | put block piece =>
    by_cases heq : block = index
    · simp [markEvent, WireEvent.deltaOf?, BlockMark.pieceOf?, heq]
    · simp [markEvent, WireEvent.deltaOf?, BlockMark.pieceOf?, heq]

/-- The place of a piece among the marks. -/
theorem exists_put_of_filter {before after : List WireEvent} {index : ℕ} {delta : BlockDelta}
    {marks : List (BlockMark Source Fragment)}
    (hout : out.filter WireEvent.writes = marks.map markEvent)
    (hsplit : out = before ++ .contentBlockDelta index delta :: after) :
    ∃ earlier piece later, marks = earlier ++ .put index piece :: later ∧
      earlier.map markEvent = before.filter WireEvent.writes := by
  rw [hsplit, List.filter_append, List.filter_cons_of_pos rfl] at hout
  obtain ⟨earlier, rest, rfl, hearlier, hrest⟩ := List.map_eq_append_iff.mp hout.symm
  obtain ⟨mark, later, rfl, hmark, -⟩ := List.map_eq_cons_iff.mp hrest
  cases mark with
  | opened => nomatch hmark
  | put block piece =>
    obtain ⟨rfl, -⟩ := WireEvent.contentBlockDelta.inj hmark
    exact ⟨earlier, piece, later, rfl, hearlier⟩

/-- A delta stands after the start of its block and before its stop. -/
theorem Body.inside (h : Body events body) {before after : List WireEvent} {index : ℕ}
    {delta : BlockDelta}
    (hout : out = .messageStart context.responseId context.model tokens ::
      (body ++ closing events stopReason stopSequence usage))
    (hsplit : out = before ++ .contentBlockDelta index delta :: after) :
    (∃ block, WireEvent.contentBlockStart index block ∈ before) ∧
      WireEvent.contentBlockStop index ∈ after := by
  obtain ⟨earlier, piece, later, hmarks, hearlier⟩ := exists_put_of_filter (h.filter_writes hout)
    hsplit
  have hput : (Blocks.placeAll (fragments events)).marks[earlier.length]? =
      some (.put index piece) := by
    rw [hmarks, List.getElem?_append_right le_rfl, Nat.sub_self]
    rfl
  constructor
  · obtain ⟨place, hlt, first, hopened⟩ := Blocks.opened_before hput
    rw [hmarks, List.getElem?_append_left hlt] at hopened
    have hmem := List.mem_map_of_mem (f := markEvent) (List.mem_of_getElem? hopened)
    rw [hearlier] at hmem
    exact ⟨blockStart first, (List.mem_filter.mp hmem).1⟩
  · have hstop : WireEvent.contentBlockStop index ∈
        closing events stopReason stopSequence usage :=
      List.mem_append_left _ (List.mem_map_of_mem (List.mem_range.mpr
        (Blocks.index_lt_of_put (List.mem_of_getElem? hput))))
    -- the end of the message has no deltas, so it comes whole after this one
    have hdelta : WireEvent.contentBlockDelta index delta ∉
        closing events stopReason stopSequence usage := fun hmem ↦ by
      nomatch not_writes_of_mem_closing hmem
    rw [hout, ← List.cons_append] at hsplit
    rcases List.append_eq_append_iff.mp hsplit with ⟨rest, -, hrest⟩ | ⟨rest, -, hrest⟩
    · exact absurd (hrest ▸ List.mem_append_right _ List.mem_cons_self) hdelta
    · rcases List.cons_eq_append_iff.mp hrest with ⟨-, hclosing⟩ | ⟨rest', -, rfl⟩
      · exact absurd (hclosing ▸ List.mem_cons_self) hdelta
      · exact List.mem_append_right _ hstop

/-- A block has the whole of its source. -/
theorem Body.content (h : Body events body) {index : ℕ} {source : Source}
    (hout : out = .messageStart context.responseId context.model tokens ::
      (body ++ closing events stopReason stopSequence usage))
    (hsource : (sources events)[index]? = some source) :
    out.filterMap (WireEvent.deltaOf? index) = piecesOf source events ∧
      ∃ first, (fragments events).find? (·.1 = source) = some first ∧
        WireEvent.contentBlockStart index (blockStart first) ∈ out := by
  have hwrites := h.filter_writes hout
  constructor
  · have hsilent : ∀ event : WireEvent, event.writes = false → event.deltaOf? index = none := by
      intro event hevent
      cases event with
      | contentBlockDelta => nomatch hevent
      | _ => rfl
    rw [filterMap_of_writes hwrites hsilent, deltaOf?_markEvent, ← List.map_filterMap,
      Blocks.filterMap_pieceOf hsource, List.map_map]
    rfl
  · obtain ⟨first, hfirst, hopened⟩ := Blocks.opened_first hsource
    have hmem := List.mem_map_of_mem (f := markEvent) hopened
    rw [← hwrites] at hmem
    exact ⟨first, hfirst, (List.mem_filter.mp hmem).1⟩

/-- Every block is started once, in the order of the numbers. -/
theorem Body.filterMap_startIndex (h : Body events body)
    (hout : out = .messageStart context.responseId context.model tokens ::
      (body ++ closing events stopReason stopSequence usage)) :
    out.filterMap WireEvent.startIndex? = List.range (sources events).length := by
  have hsilent : ∀ event : WireEvent, event.writes = false → event.startIndex? = none := by
    intro event hevent
    cases event with
    | contentBlockStart => nomatch hevent
    | _ => rfl
  rw [filterMap_of_writes (h.filter_writes hout) hsilent, startIndex?_markEvent,
    Blocks.filterMap_openedIndex, sources]

theorem Body.stopIndex?_eq_none (h : Body events body) {event : WireEvent} (hmem : event ∈ body) :
    event.stopIndex? = none := by
  rcases h.others event hmem with hwrites | ⟨usage, rfl⟩
  · cases event with
    | contentBlockStop => nomatch hwrites
    | _ => rfl
  · rfl

/-- Every block is stopped once, in the order of the numbers. -/
theorem Body.filterMap_stopIndex (h : Body events body)
    (hout : out = .messageStart context.responseId context.model tokens ::
      (body ++ closing events stopReason stopSequence usage)) :
    out.filterMap WireEvent.stopIndex? = List.range (sources events).length := by
  have hbody : body.filterMap WireEvent.stopIndex? = [] :=
    List.filterMap_eq_nil_iff.mpr fun event hmem ↦ h.stopIndex?_eq_none hmem
  have hstops : (closing events stopReason stopSequence usage).filterMap WireEvent.stopIndex? =
      List.range (sources events).length := by
    rw [closing, List.filterMap_append, List.filterMap_map]
    exact (List.append_nil _).trans List.filterMap_some
  rw [hout, List.filterMap_cons_none rfl, List.filterMap_append, hbody, hstops, List.nil_append]

theorem name_eq_messageStart {event : WireEvent} (h : event.name = "message_start") :
    ∃ id model inputTokens, event = .messageStart id model inputTokens := by
  cases event with
  | messageStart id model inputTokens => exact ⟨id, model, inputTokens, rfl⟩
  | _ => simp [WireEvent.name] at h

/-- There is no second head of a message. -/
theorem Body.name_ne (h : Body events body) {event : WireEvent}
    (hmem : event ∈ body ++ closing events stopReason stopSequence usage) :
    event.name ≠ "message_start" := by
  intro hname
  obtain ⟨id, model, inputTokens, rfl⟩ := name_eq_messageStart hname
  rcases List.mem_append.mp hmem with hmem | hmem
  · rcases h.others _ hmem with hwrites | ⟨usage, hother⟩
    · nomatch hwrites
    · nomatch hother
  · rcases List.mem_append.mp hmem with hmem | hmem
    · obtain ⟨index, -, hstop⟩ := List.mem_map.mp hmem
      nomatch hstop
    · rcases List.mem_pair.mp hmem with hlast | hlast
      · nomatch hlast
      · nomatch hlast

end Closed

/-- The sources with a block are those with a piece. -/
theorem mem_sources_iff (events : List StreamEvent) (source : Source) :
    source ∈ sources events ↔ piecesOf source events ≠ [] := by
  rw [sources, Blocks.mem_keys_iff, piecesOf, Ne, List.map_eq_nil_iff, List.filter_eq_nil_iff]
  push Not
  constructor
  · rintro ⟨fragment, hmem⟩
    exact ⟨_, hmem, by simp⟩
  · rintro ⟨⟨other, fragment⟩, hmem, heq⟩
    obtain rfl : other = source := by simpa using heq
    exact ⟨fragment, hmem⟩

/-- A stream that is rendered to its end is well formed. -/
theorem Rendering.wellFormed {context : StreamContext} {events : List StreamEvent}
    {out : List WireEvent} {state : StreamState} (h : Rendering context events out state)
    (finishReason : Option FinishReason) (stopSequence : Option String) :
    WellFormed context events finishReason stopSequence
      (out ++ close finishReason stopSequence state) := by
  obtain ⟨tokens, body, hbody, hopening⟩ := h.opening state.usage
  have hreason : state.pendingFinishReason = (lastFinish events).1 := congrArg Prod.fst h.pending
  have hsequence : state.pendingStopSequence = (lastFinish events).2 := congrArg Prod.snd h.pending
  have hout : out ++ close finishReason stopSequence state =
      .messageStart context.responseId context.model tokens :: (body ++
        closing events (finishReasonToAnthropic (finishReason.or (lastFinish events).1))
          (stopSequence.or (lastFinish events).2) (streamUsage (foldedUsage context events))) := by
    rw [← List.cons_append, ← hopening, closing, ← h.openBlocks, ← h.usage, ← hreason,
      ← hsequence, close, StreamState.opening, List.append_assoc, List.append_assoc]
  exact
    { opening := ⟨tokens, _, hout, fun event hmem ↦ hbody.name_ne hmem⟩
      started := hbody.filterMap_startIndex hout
      stopped := hbody.filterMap_stopIndex hout
      inside := fun before index delta after hsplit ↦ hbody.inside hout hsplit
      sources_nodup := Blocks.nodup_keys _
      mem_sources := mem_sources_iff events
      content := fun index source hsource ↦ hbody.content hout hsource
      ending := ⟨_, hout.trans (by
        rw [closing, ← List.append_assoc, ← List.cons_append])⟩ }

end AnthropicStream

end TokenStation
