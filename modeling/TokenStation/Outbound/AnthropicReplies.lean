import TokenStation.Library.Outcome
import TokenStation.Outbound.AnthropicGrammar

/-!
# Usage in Anthropic's replies

The host counts cached input as input, Anthropic beside it. A reply is written with the rest of the
input, and a gateway that reads the reply adds the parts up again. Whole replies leave counts of
zero out, streams write them.
-/

namespace TokenStation

open JsonValue Library

namespace AnthropicStream

/-! ## Whole replies -/

/-- A tool call as a block. Its arguments have to be the text of an object. -/
def toolUseBlock (parse : String → Option JsonValue) (call : ToolCall) :
    Except ErrorEnvelope JsonValue :=
  match parse call.arguments with
  | none => .error (invalid s!"tool call `{call.id}` arguments are not complete JSON")
  | some input =>
    if input.isObject then
      .ok (object [("type", string "tool_use"), ("id", string call.id), ("name", string call.name),
        ("input", input)])
    else .error (invalid s!"tool call `{call.id}` arguments must encode a JSON object")

def contentBlock : ContentPart → Except ErrorEnvelope JsonValue
  | .text text => .ok (object [("type", string "text"), ("text", string text)])
  | .imageUrl .. => .error (capability "Anthropic assistant responses cannot contain image blocks")
  | .thinking thinking signature =>
    .ok (object [("type", string "thinking"), ("thinking", string thinking),
      ("signature", nullable signature)])
  | .redactedThinking data =>
    .ok (object [("type", string "redacted_thinking"), ("data", string data)])
  | .unknown raw => .ok raw

def responseBlocks (parse : String → Option JsonValue) (message : Message) :
    Except ErrorEnvelope (List JsonValue) := do
  let blocks ← match message.content with
    | some (.text text) => pure [object [("type", string "text"), ("text", string text)]]
    | some (.parts parts) => parts.mapM contentBlock
    | none => pure []
  let calls ← message.toolCalls.mapM (toolUseBlock parse)
  pure (blocks ++ calls)

/-- The usage of a whole reply. -/
def usageMap (usage : Usage) : JsonValue :=
  object ([("input_tokens", count (freshInputTokens usage)),
      ("output_tokens", count usage.outputTokens)]
    ++ (if 0 < usage.cacheReadTokens then
        [("cache_read_input_tokens", count usage.cacheReadTokens)] else [])
    ++ (if 0 < usage.cacheWriteTokens then
        [("cache_creation_input_tokens", count usage.cacheWriteTokens)] else []))

/-- `render_response`. -/
def renderResponse (parse : String → Option JsonValue) (response : ChatResponse) :
    Except ErrorEnvelope JsonValue :=
  match response.choices with
  | [choice] => do
    let content ← responseBlocks parse choice.message
    pure (object [("id", string response.id), ("type", string "message"),
      ("role", string "assistant"), ("content", array content), ("model", string response.model),
      ("stop_reason", nullable (finishReasonToAnthropic choice.finishReason)),
      ("stop_sequence", null), ("usage", usageMap response.usage)])
  | _ => .error (capability "Anthropic Messages requires exactly one response choice")

/-! ## What is read again -/

/-- The document reports a usage, which is read as the same totals. -/
def Survives (usage : Usage) (document : JsonValue) : Prop :=
  ∃ raw decoded, document.member "usage" = some raw ∧ anthropicWireUsage raw = some decoded ∧
    decoded.inputTokens = usage.inputTokens ∧ decoded.outputTokens = usage.outputTokens ∧
    decoded.cacheReadTokens = usage.cacheReadTokens ∧
    decoded.cacheWriteTokens = usage.cacheWriteTokens

/-- Some total is not zero. -/
def Reported (usage : Usage) : Prop :=
  usage.inputTokens ≠ 0 ∨ usage.outputTokens ≠ 0 ∨ usage.cacheReadTokens ≠ 0 ∨
    usage.cacheWriteTokens ≠ 0

/-- The counts that are written, with those that are left out as zero. -/
def writtenUsage (usage : Usage) : Usage where
  inputTokens := freshInputTokens usage
  outputTokens := usage.outputTokens
  cacheReadTokens := usage.cacheReadTokens
  cacheWriteTokens := usage.cacheWriteTokens

/-- A count that is written is read as itself. -/
theorem asU64_count (n : UInt64) : asU64 (count n) = some n := by
  have hlt : n.toNat < 2 ^ 64 := n.toNat_lt
  rw [count, asU64_number hlt, UInt64.ofNat_toNat]

theorem rawCount_of_member {raw : JsonValue} {key : String} {n : UInt64}
    (h : raw.member key = some (count n)) : ((raw.member key).bind asU64).getD 0 = n := by
  rw [h, Option.bind_some, asU64_count, Option.getD_some]

/-- What is written of a usage is read, whichever way it is written. -/
theorem wireUsage_of_members {raw : JsonValue} {usage : Usage}
    (hinput : raw.member "input_tokens" = some (count (freshInputTokens usage)))
    (houtput : raw.member "output_tokens" = some (count usage.outputTokens))
    (hread : ((raw.member "cache_read_input_tokens").bind asU64).getD 0 = usage.cacheReadTokens)
    (hwrite : ((raw.member "cache_creation_input_tokens").bind asU64).getD 0 =
      usage.cacheWriteTokens)
    (htiers : raw.member "cache_creation" = none) : wireUsage raw = writtenUsage usage := by
  rw [wireUsage, writtenUsage, htiers]
  dsimp only
  rw [rawCount_of_member hinput, rawCount_of_member houtput, hread, hwrite]
  rfl

theorem wireUsage_usageDocument (usage : Usage) :
    wireUsage (usageDocument (streamUsage usage)) = writtenUsage usage :=
  wireUsage_of_members rfl rfl (rawCount_of_member rfl) (rawCount_of_member rfl) rfl

theorem wireUsage_usageMap (usage : Usage) : wireUsage (usageMap usage) = writtenUsage usage := by
  have hzero {n : UInt64} (h : ¬ 0 < n) : n = 0 := UInt64.le_zero_iff.mp (UInt64.not_lt.mp h)
  rw [usageMap]
  -- a count that is left out is zero
  split <;> split
  next hread hwrite =>
    exact wireUsage_of_members rfl rfl (rawCount_of_member rfl) (rawCount_of_member rfl) rfl
  next hread hwrite =>
    exact wireUsage_of_members rfl rfl (rawCount_of_member rfl) (hzero hwrite).symm rfl
  next hread hwrite =>
    exact wireUsage_of_members rfl rfl (hzero hread).symm (rawCount_of_member rfl) rfl
  next hread hwrite =>
    exact wireUsage_of_members rfl rfl (hzero hread).symm (hzero hwrite).symm rfl

/-! ## The numbers -/

section Decoded

variable {raw : JsonValue} {usage : Usage}

end Decoded

/-! ## The writers -/

theorem member_renderResponse {parse : String → Option JsonValue} {response : ChatResponse}
    {document : JsonValue} (h : renderResponse parse response = .ok document) :
    document.member "usage" = some (usageMap response.usage) := by
  rw [renderResponse] at h
  split at h
  next choice hchoice =>
    obtain ⟨content, -, hdocument⟩ := except_bind_eq_ok.mp h
    obtain rfl := Except.ok.inj hdocument
    rfl
  next => nomatch h

/-- The event says how a usage stands, if it is one that does. -/
def Deltas (usage : Usage) (event : WireEvent) : Prop :=
  event.name = "message_delta" →
    ∃ reason sequence, event = .messageDelta reason sequence (streamUsage usage)

theorem deltas_of_ne {usage : Usage} {event : WireEvent}
    (h : (event.name == "message_delta") = false) : Deltas usage event := by
  intro hdelta
  rw [hdelta] at h
  nomatch h

theorem deltas_opening {usage : Usage} {state : StreamState} {event : WireEvent}
    (h : event ∈ state.opening) : Deltas usage event := by
  rw [StreamState.opening] at h
  split at h
  · cases h
  · obtain rfl := List.mem_singleton.mp h
    exact deltas_of_ne rfl

/-- The end of a stream says how its usage stands. -/
theorem deltas_close {finishReason : Option FinishReason} {stopSequence : Option String}
    {state : StreamState} {event : WireEvent}
    (h : event ∈ close finishReason stopSequence state) : Deltas state.usage event := by
  have hclose : close finishReason stopSequence state = state.opening ++
      state.openBlocks.map .contentBlockStop ++
      [.messageDelta (finishReasonToAnthropic (finishReason.or state.pendingFinishReason))
        (stopSequence.or state.pendingStopSequence) (streamUsage state.usage), .messageStop] := rfl
  rw [hclose, List.mem_append, List.mem_append, List.mem_map] at h
  obtain (hopening | ⟨block, -, rfl⟩) | hend := h
  · exact deltas_opening hopening
  · exact deltas_of_ne rfl
  · obtain rfl | hstop := List.mem_cons.mp hend
    · exact fun _ ↦ ⟨_, _, rfl⟩
    · obtain rfl := List.mem_singleton.mp hstop
      exact deltas_of_ne rfl

/-- A step that says how the usage stands has taken it in. -/
theorem deltas_step {event : StreamEvent} {state state' : StreamState} {out : List WireEvent}
    (hstep : step event state = (.ok out, state')) {written : WireEvent} (h : written ∈ out) :
    Deltas state'.usage written := by
  rcases hfragment : fragment? event with - | ⟨source, fragment⟩
  · cases event with
    | usage usage =>
      rw [step_usage] at hstep
      obtain ⟨hout, rfl⟩ := Prod.mk.inj hstep
      obtain rfl := Except.ok.inj hout
      obtain hopening | hdelta := List.mem_append.mp h
      · exact deltas_opening hopening
      · obtain rfl := List.mem_singleton.mp hdelta
        exact fun _ ↦ ⟨_, _, rfl⟩
    | finish | redactedThinking | done | error =>
      obtain ⟨hout, -⟩ := Prod.mk.inj hstep
      obtain rfl := Except.ok.inj hout
      nomatch h
    | delta | thinkingDelta | thinkingSignatureDelta | toolCallDelta => nomatch hfragment
  · obtain ⟨block, opened, hplaced, rfl⟩ := step_fragment hfragment hstep
    rw [List.mem_append, List.mem_append] at h
    obtain (hopening | hopened) | hdelta := h
    · exact deltas_opening hopening
    · obtain ⟨-, rfl, -⟩ | ⟨-, -, rfl, -⟩ := hplaced
      · nomatch hopened
      · obtain rfl := List.mem_singleton.mp hopened
        exact deltas_of_ne rfl
    · obtain rfl := List.mem_singleton.mp hdelta
      exact deltas_of_ne rfl

/-- Some document that a usage is written in, by any of the writers. -/
inductive Writes (usage : Usage) : JsonValue → Prop where
  | response {parse : String → Option JsonValue} {response : ChatResponse} {document : JsonValue} :
    response.usage = usage → renderResponse parse response = .ok document → Writes usage document
  | step {event : StreamEvent} {state state' : StreamState} {out : List WireEvent}
      {written : WireEvent} : step event state = (.ok out, state') → state'.usage = usage →
    written ∈ out → written.name = "message_delta" → Writes usage written.document
  | close {finishReason : Option FinishReason} {stopSequence : Option String} {state : StreamState}
      {written : WireEvent} : state.usage = usage →
    written ∈ AnthropicStream.close finishReason stopSequence state →
    written.name = "message_delta" → Writes usage written.document

theorem Writes.member {usage : Usage} {document : JsonValue} (h : Writes usage document) :
    ∃ raw, document.member "usage" = some raw ∧ wireUsage raw = writtenUsage usage := by
  cases h with
  | response husage hdocument =>
    rw [← husage]
    exact ⟨_, member_renderResponse hdocument, wireUsage_usageMap _⟩
  | step hstep husage hmem hname =>
    obtain ⟨reason, sequence, rfl⟩ := deltas_step hstep hmem hname
    rw [← husage]
    exact ⟨_, rfl, wireUsage_usageDocument _⟩
  | close husage hmem hname =>
    obtain ⟨reason, sequence, rfl⟩ := deltas_close hmem hname
    rw [← husage]
    exact ⟨_, rfl, wireUsage_usageDocument _⟩

end AnthropicStream

end TokenStation
