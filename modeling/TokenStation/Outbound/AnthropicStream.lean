import TokenStation.Gateway.Accounting
import TokenStation.Gateway.Exchange
import TokenStation.Inbound.Request

/-!
# Streams in Anthropic's dialect

`agent-anthropic` renders a canonical stream as the events of the Messages API. What it has to
remember of a stream (the blocks it opened, the usage so far, a reason to finish) stands in one map
from stream ids, which all streams of the adapter share.
-/

namespace TokenStation

open JsonValue Library

/-- The context of a rendering, as the document that an adapter gets. -/
def RenderContext.document (context : RenderContext) : JsonValue :=
  .object ([("protocol", .string context.protocol)]
    ++ (context.streamId.map fun id ↦ ("stream_id", JsonValue.string id)).toList
    ++ [("response_id", .string context.responseId), ("model", .string context.model),
      ("inbound_tools", context.inboundTools)]
    ++ (context.continuationKey.map fun key ↦
      ("token_station_private_continuation_key", key)).toList
    ++ (context.toolNamespaces.map fun names ↦ ("responses_tool_namespaces", names)).toList)

namespace AnthropicStream

/-! ## What is written -/

inductive BlockStart where
  | text
  | thinking
  | toolUse (id name : String)
  deriving DecidableEq

inductive BlockDelta where
  | text (piece : String)
  | thinking (piece : String)
  | signature (piece : String)
  | inputJson (piece : String)
  deriving DecidableEq

/-- One event of the stream. -/
inductive WireEvent where
  | messageStart (id model : String) (inputTokens : UInt64)
  | contentBlockStart (index : ℕ) (block : BlockStart)
  | contentBlockDelta (index : ℕ) (delta : BlockDelta)
  | contentBlockStop (index : ℕ)
  | messageDelta (stopReason stopSequence : Option String) (usage : StreamUsage)
  | messageStop
  | error (kind message : String)
  deriving DecidableEq

def BlockStart.document : BlockStart → JsonValue
  | .text => object [("type", string "text"), ("text", string "")]
  | .thinking => object [("type", string "thinking"), ("thinking", string "")]
  | .toolUse id name => object [("type", string "tool_use"), ("id", string id),
      ("name", string name), ("input", object [])]

def BlockDelta.document : BlockDelta → JsonValue
  | .text piece => object [("type", string "text_delta"), ("text", string piece)]
  | .thinking piece => object [("type", string "thinking_delta"), ("thinking", string piece)]
  | .signature piece => object [("type", string "signature_delta"), ("signature", string piece)]
  | .inputJson piece => object [("type", string "input_json_delta"), ("partial_json", string piece)]

/-- A count as a document. -/
def count (n : UInt64) : JsonValue := number (toString n.toNat)

def nullable (text : Option String) : JsonValue := (text.map string).getD null

/-- `stream_usage`. -/
def usageDocument (usage : StreamUsage) : JsonValue :=
  object [("input_tokens", count usage.inputTokens), ("output_tokens", count usage.outputTokens),
    ("cache_read_input_tokens", count usage.cacheReadInputTokens),
    ("cache_creation_input_tokens", count usage.cacheCreationInputTokens)]

namespace WireEvent

def name : WireEvent → String
  | messageStart .. => "message_start"
  | contentBlockStart .. => "content_block_start"
  | contentBlockDelta .. => "content_block_delta"
  | contentBlockStop _ => "content_block_stop"
  | messageDelta .. => "message_delta"
  | messageStop => "message_stop"
  | error .. => "error"

/-- The members of an event besides its type. -/
def members : WireEvent → List (String × JsonValue)
  | messageStart id model inputTokens =>
    [("message", object [("id", string id), ("type", string "message"),
      ("role", string "assistant"), ("content", array []), ("model", string model),
      ("stop_reason", null), ("stop_sequence", null),
      ("usage", object [("input_tokens", count inputTokens), ("output_tokens", number "0")])])]
  | contentBlockStart index block =>
    [("index", number (toString index)), ("content_block", block.document)]
  | contentBlockDelta index delta =>
    [("index", number (toString index)), ("delta", delta.document)]
  | contentBlockStop index => [("index", number (toString index))]
  | messageDelta stopReason stopSequence usage =>
    [("delta", object [("stop_reason", nullable stopReason),
      ("stop_sequence", nullable stopSequence)]), ("usage", usageDocument usage)]
  | messageStop => []
  | error kind message =>
    [("error", object [("type", string kind), ("message", string message)])]

def document (event : WireEvent) : JsonValue :=
  object (("type", string event.name) :: event.members)

/-- `sse`. -/
def text (serde : SerdeJson) (event : WireEvent) : String :=
  s!"event: {event.name}\ndata: {serde.toString event.document}\n\n"

end WireEvent

def finishReasonToAnthropic : Option FinishReason → Option String
  | some .stop => some "end_turn"
  | some .length => some "max_tokens"
  | some .toolCalls => some "tool_use"
  | some .contentFilter => some "refusal"
  | some .stopSequence => some "stop_sequence"
  | some (.other reason) => some reason
  | none => none

def anthropicErrorType : ErrorCode → String
  | .auth | .paymentRequired => "authentication_error"
  | .rateLimit => "rate_limit_error"
  | .capacity => "overloaded_error"
  | .invalidRequest | .capability | .contentPolicy | .contextLength => "invalid_request_error"
  | .upstreamUnavailable | .transportTruncated | .providerProtocolError | .timeout | .internal =>
    "api_error"

/-! ## One stream -/

def maxActiveStreams : ℕ := 1024

def maxBlocksPerStream : ℕ := 256

structure ToolBlock where
  contentIndex : ℕ
  id : String
  name : String

/-- What the adapter remembers of a stream. Blocks are opened in the order of their indices. -/
structure StreamState where
  responseId : String
  model : String
  usage : Usage
  started : Bool := false
  nextBlockIndex : ℕ := 0
  textBlocks : AList fun _ : ℕ ↦ ℕ := ∅
  thinkingBlocks : AList fun _ : ℕ × ℕ ↦ ℕ := ∅
  toolBlocks : AList fun _ : ℕ ↦ ToolBlock := ∅
  openBlocks : List ℕ := []
  pendingFinishReason : Option FinishReason := none
  pendingStopSequence : Option String := none

/-- A step keeps what it did to the state, also where it fails. -/
abbrev Step := ExceptT ErrorEnvelope (StateM StreamState)

def ensureStarted : Step (List WireEvent) := do
  let state ← get
  if state.started then pure []
  else
    set { state with started := true }
    pure [.messageStart state.responseId state.model (freshInputTokens state.usage)]

def allocateBlock : Step ℕ := do
  let state ← get
  if maxBlocksPerStream ≤ state.nextBlockIndex then
    throw (capability s!"stream exceeds the {maxBlocksPerStream}-block safety limit")
  else
    set { state with
      nextBlockIndex := state.nextBlockIndex + 1
      openBlocks := state.openBlocks ++ [state.nextBlockIndex] }
    pure state.nextBlockIndex

/-- The block of a text choice, opened where it is new. -/
def textBlock (index : ℕ) : Step (ℕ × List WireEvent) := do
  match (← get).textBlocks.lookup index with
  | some block => pure (block, [])
  | none =>
    let block ← allocateBlock
    modify fun state ↦ { state with textBlocks := state.textBlocks.insert index block }
    pure (block, [.contentBlockStart block .text])

/-- The block of a choice and a source block. -/
def thinkingBlock (key : ℕ × ℕ) : Step (ℕ × List WireEvent) := do
  match (← get).thinkingBlocks.lookup key with
  | some block => pure (block, [])
  | none =>
    let block ← allocateBlock
    modify fun state ↦ { state with thinkingBlocks := state.thinkingBlocks.insert key block }
    pure (block, [.contentBlockStart block .thinking])

/-- The block of a tool call. Its first fragment names the call. -/
def toolBlock (index : ℕ) (id name : Option String) : Step (ToolBlock × List WireEvent) := do
  match (← get).toolBlocks.lookup index with
  | some block => pure (block, [])
  | none =>
    let id ← (orInvalid id "first tool-call stream fragment declares no id" :
      Except ErrorEnvelope String)
    let name ← (orInvalid name "first tool-call stream fragment declares no name" :
      Except ErrorEnvelope String)
    let contentIndex ← allocateBlock
    let block : ToolBlock := { contentIndex, id, name }
    modify fun state ↦ { state with toolBlocks := state.toolBlocks.insert index block }
    pure (block, [.contentBlockStart contentIndex (.toolUse id name)])

/-- An event that leaves the stream open. -/
def step : StreamEvent → Step (List WireEvent)
  | .delta index content => do
    let started ← ensureStarted
    let (block, opened) ← textBlock index
    pure (started ++ opened ++ [.contentBlockDelta block (.text content)])
  | .thinkingDelta index blockIndex thinkingDelta => do
    let started ← ensureStarted
    let (block, opened) ← thinkingBlock (index, blockIndex)
    pure (started ++ opened ++ [.contentBlockDelta block (.thinking thinkingDelta)])
  | .thinkingSignatureDelta index blockIndex signatureDelta => do
    let started ← ensureStarted
    let (block, opened) ← thinkingBlock (index, blockIndex)
    pure (started ++ opened ++ [.contentBlockDelta block (.signature signatureDelta)])
  | .toolCallDelta index id name argumentsDelta => do
    let started ← ensureStarted
    let (block, opened) ← toolBlock index id name
    if id.any (· ≠ block.id) ∨ name.any (· ≠ block.name) then
      throw (invalid "tool-call identity changed between stream fragments")
    else
      pure (started ++ opened ++ [.contentBlockDelta block.contentIndex
        (.inputJson argumentsDelta)])
  | .usage usage => do
    modify fun state ↦ { state with usage := state.usage.absorb usage }
    let started ← ensureStarted
    let state ← get
    pure (started ++ [.messageDelta none none (streamUsage state.usage)])
  | .finish finishReason stopSequence => do
    modify fun state ↦ { state with
      pendingFinishReason := finishReason
      pendingStopSequence := stopSequence }
    pure []
  -- these three are settled before a step
  | .redactedThinking .. | .done .. | .error _ => pure []

/-- The end of a stream. -/
def close (finishReason : Option FinishReason) (stopSequence : Option String)
    (state : StreamState) : List WireEvent :=
  let started : List WireEvent :=
    if state.started then []
    else [.messageStart state.responseId state.model (freshInputTokens state.usage)]
  started ++ state.openBlocks.map .contentBlockStop ++
    [.messageDelta (finishReasonToAnthropic (finishReason.or state.pendingFinishReason))
      (stopSequence.or state.pendingStopSequence) (streamUsage state.usage), .messageStop]

/-! ## All streams -/

abbrev StreamStates := AList fun _ : String ↦ StreamState

structure StreamContext where
  streamId : String
  responseId : String
  model : String
  inputTokens : UInt64

def streamContext (context : JsonValue) : Except ErrorEnvelope StreamContext := do
  let streamId ← orInvalid ((memberStr "stream_id" context).filter (· ≠ ""))
    "stream render context declares no stream_id"
  pure
    { streamId
      responseId := (((context.member "response_id").or (context.member "id")).bind asStr).getD
        "msg_token_station"
      model := (memberStr "model" context).getD "unknown"
      inputTokens := ((context.member "input_tokens").bind asU64).getD 0 }

def StreamState.new (context : StreamContext) : StreamState where
  responseId := context.responseId
  model := context.model
  usage := { inputTokens := context.inputTokens }

/-- The state of a stream: an old one, or a new one where there is room. -/
def admitStream (context : StreamContext) (states : StreamStates) :
    Except ErrorEnvelope StreamState :=
  match states.lookup context.streamId with
  | some state =>
    if state.responseId ≠ context.responseId ∨ state.model ≠ context.model then
      .error (invalid "stream render context changed response_id or model mid-stream")
    else .ok state
  | none =>
    if maxActiveStreams ≤ states.entries.length then
      .error (capability s!"adapter reached the {maxActiveStreams}-stream safety limit")
    else .ok (StreamState.new context)

/-- What an event does to the states. -/
def renderEvents (event : StreamEvent) (context : StreamContext) (states : StreamStates) :
    Except ErrorEnvelope (List WireEvent) × StreamStates :=
  match event with
  | .error error =>
    (.ok [.error (anthropicErrorType error.code) error.message], states.erase context.streamId)
  | event =>
    match admitStream context states with
    -- a stream that is there and has another identity is given up
    | .error error => (.error error, states.erase context.streamId)
    | .ok state =>
      match event with
      | .redactedThinking .. =>
        (.error (invalid
          "anthropic-messages redacted thinking is not implemented by this adapter version"),
          states.erase context.streamId)
      | .done finishReason stopSequence =>
        (.ok (close finishReason stopSequence state), states.erase context.streamId)
      | event =>
        let (result, state) := step event state
        (result, states.insert context.streamId state)

/-- `render_stream_event`. -/
def renderStreamEvent (serde : SerdeJson) (event : StreamEvent) (context : JsonValue)
    (states : StreamStates) : Except ErrorEnvelope JsonValue × StreamStates :=
  match streamContext context with
  | .error error => (.error error, states)
  | .ok context =>
    let (result, states) := renderEvents event context states
    (result.map fun events ↦
      object [("data", string (String.join (events.map (WireEvent.text serde))))], states)

end AnthropicStream

end TokenStation
