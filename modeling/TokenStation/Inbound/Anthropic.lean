import TokenStation.Inbound.Request
import TokenStation.Library.Outcome

/-!
# Requests in Anthropic's dialect

`agent-anthropic` reads the Messages API. Members of the body that it does not know are kept as
extensions of the canonical request.
-/

namespace TokenStation

namespace Anthropic

open JsonValue Library

def knownRequestFields : List String :=
  ["model", "messages", "system", "tools", "max_tokens", "stop_sequences", "temperature", "top_p",
    "stream", "thinking", "tool_choice"]

def thinkingExtension : String := "anthropic_thinking"

/-! ## Checks -/

def validateThinking (body : JsonValue) : Except ErrorEnvelope Unit :=
  match body.member "thinking" with
  | none | some null => .ok ()
  | some (object config) =>
    match memberStr "type" (object config) with
    | some "adaptive" | some "enabled" | some "disabled" => .ok ()
    | some kind => .error (capability
        s!"Anthropic thinking type {kind} is not supported by the configured provider")
    | none => .error (invalid "thinking declares no string type")
  | some _ => .error (invalid "thinking must be an object")

def validateToolChoice (body : JsonValue) : Except ErrorEnvelope Unit :=
  match (body.member "tool_choice").filter (!·.isNull) with
  | none => .ok ()
  | some choice => do
    let _ ← orInvalid choice.asObject "tool_choice must be an object"
    let kind ← orInvalid (memberStr "type" choice) "tool_choice declares no string type"
    let disable := choice.member "disable_parallel_tool_use"
    if disable.any isTrue then
      throw (capability
        "Anthropic tool_choice cannot disable parallel tool use through Canonical IR")
    if disable.any (·.asBool.isNone) then
      throw (invalid "tool_choice.disable_parallel_tool_use must be a boolean")
    if kind = "auto" ∨ kind = "any" ∨ kind = "tool" then pure ()
    else throw (capability
      s!"Anthropic tool_choice type {kind} is not supported by the configured chat provider")

def asU32 (value : JsonValue) (field : String) : Except ErrorEnvelope ℕ :=
  orInvalid value.asU32 s!"{field} must be an unsigned 32-bit integer"

/-! ## Content -/

def parseImage (block : JsonValue) : Except ErrorEnvelope ContentPart := do
  let members ← orInvalid ((block.member "source").bind asObject) "image block declares no source"
  let source := object members
  match memberStr "type" source with
  | some "url" =>
    let url ← orInvalid (memberStr "url" source) "URL image source declares no url"
    pure (.imageUrl url none)
  | some "base64" =>
    let mediaType ← orInvalid (memberStr "media_type" source)
      "base64 image source declares no media_type"
    let data ← orInvalid (memberStr "data" source) "base64 image source declares no data"
    pure (.imageUrl s!"data:{mediaType};base64,{data}" none)
  | some kind => throw (capability s!"unsupported image source type `{kind}`")
  | none => throw (invalid "image source declares no type")

/-- A block that the dialect of no other renderer may know is kept as it is. -/
def parsePlainBlock (block : JsonValue) : Except ErrorEnvelope ContentPart :=
  match memberStr "type" block with
  | some "text" => do
    let text ← orInvalid (memberStr "text" block) "text block declares no text"
    pure (.text text)
  | some "image" => parseImage block
  | some "thinking" => do
    let thinking ← orInvalid (memberStr "thinking" block) "thinking block declares no thinking"
    pure (.thinking thinking (memberStr "signature" block))
  | some "redacted_thinking" => do
    let data ← orInvalid (memberStr "data" block) "redacted_thinking block declares no data"
    pure (.redactedThinking data)
  | some _ => .ok (.unknown block)
  | none => .error (invalid "content block declares no type")

def contentFromParts (parts : List ContentPart) : Option Content :=
  if parts.isEmpty then none else some (.parts parts)

def isImage : ContentPart → Bool
  | .imageUrl .. => true
  | _ => false

def systemMessage (system : JsonValue) : Except ErrorEnvelope (Option CanonicalMessage) :=
  match system with
  | null => .ok none
  | string text => .ok (some (CanonicalMessage.text .system text))
  | array blocks => do
    let parts ← blocks.mapM parsePlainBlock
    if parts.any isImage then
      throw (invalid "Anthropic system blocks may only contain text")
    pure ((contentFromParts parts).map fun content ↦ { role := .system, content := some content })
  | _ => .error (invalid "system must be a string or an array of text blocks")

def toolCall (serde : SerdeJson) (block : JsonValue) : Except ErrorEnvelope ToolCall := do
  let id ← orInvalid (memberStr "id" block) "tool_use block declares no id"
  let name ← orInvalid (memberStr "name" block) "tool_use block declares no name"
  let input ← orInvalid (block.member "input") "tool_use block declares no input"
  pure { id, name, arguments := serde.toString input }

def toolResultContent (block : JsonValue) : Except ErrorEnvelope (Option Content) :=
  match block.member "content" with
  | none | some null => .ok none
  | some (string text) => .ok (some (.text text))
  | some (array blocks) => contentFromParts <$> blocks.mapM parsePlainBlock
  | some _ => .error (invalid
      "tool_result content must be a string or an array of content blocks")

/-! ## Messages -/

/-- The messages so far, and the parts of the user message that is being read. -/
structure UserBlocks where
  messages : List CanonicalMessage := []
  parts : List ContentPart := []

/-- `push_user_parts`. -/
def UserBlocks.pushUserParts (state : UserBlocks) : UserBlocks where
  messages := state.messages ++ ((contentFromParts state.parts).map fun content ↦
    { role := .user, content := some content : CanonicalMessage }).toList
  parts := []

def toolResultExtensions (block : JsonValue) : Extensions :=
  match (block.member "is_error").bind asBool with
  | some isError => (∅ : Extensions).insert "anthropic_tool_result_is_error" (bool isError)
  | none => ∅

def userBlock (state : UserBlocks) (block : JsonValue) : Except ErrorEnvelope UserBlocks :=
  match memberStr "type" block with
  | some "tool_result" => do
    let state := state.pushUserParts
    let toolCallId ← orInvalid (memberStr "tool_use_id" block)
      "tool_result block declares no tool_use_id"
    let content ← toolResultContent block
    let message : CanonicalMessage :=
      { role := .tool
        content
        toolCallId := some toolCallId
        extensions := toolResultExtensions block }
    pure { state with messages := state.messages ++ [message] }
  | some "tool_use" => .error (invalid "user messages cannot contain tool_use blocks")
  | _ => do
    let part ← parsePlainBlock block
    pure { state with parts := state.parts ++ [part] }

def parseUserBlocks (blocks : List JsonValue) : Except ErrorEnvelope (List CanonicalMessage) := do
  let state ← blocks.foldlM userBlock {}
  pure state.pushUserParts.messages

def assistantBlock (serde : SerdeJson) (message : List ContentPart × List ToolCall)
    (block : JsonValue) : Except ErrorEnvelope (List ContentPart × List ToolCall) :=
  match memberStr "type" block with
  | some "tool_use" => do
    let call ← toolCall serde block
    pure (message.1, message.2 ++ [call])
  | some "tool_result" =>
    .error (invalid "assistant messages cannot contain tool_result blocks")
  | some "image" => .error (invalid "assistant messages cannot contain image blocks")
  | _ => do
    let part ← parsePlainBlock block
    pure (message.1 ++ [part], message.2)

def parseAssistantBlocks (serde : SerdeJson) (blocks : List JsonValue) :
    Except ErrorEnvelope CanonicalMessage := do
  let (parts, toolCalls) ← blocks.foldlM (assistantBlock serde) ([], [])
  pure { role := .assistant, content := contentFromParts parts, toolCalls }

def parseMessage (serde : SerdeJson) (raw : JsonValue) :
    Except ErrorEnvelope (List CanonicalMessage) := do
  let role ← orInvalid (memberStr "role" raw) "message declares no role"
  match role, raw.member "content" with
  | "system", some content =>
    let message ← systemMessage content
    let message ← orInvalid message "system message declares no content"
    pure [message]
  | "user", some (string text) => pure [CanonicalMessage.text .user text]
  | "assistant", some (string text) => pure [CanonicalMessage.text .assistant text]
  | "user", some (array blocks) => parseUserBlocks blocks
  | "assistant", some (array blocks) =>
    let message ← parseAssistantBlocks serde blocks
    pure [message]
  | "system", _ | "user", _ | "assistant", _ =>
    throw (invalid "message content must be a string or block array")
  | role, _ => throw (invalid s!"unknown Anthropic message role `{role}`")

def parseMessages (serde : SerdeJson) (body : JsonValue) :
    Except ErrorEnvelope (List CanonicalMessage) := do
  let rawMessages ← orInvalid ((body.member "messages").bind asArray)
    "request declares no messages array"
  let system ← systemMessage (body.index "system")
  let messages ← rawMessages.mapM (parseMessage serde)
  pure (system.toList ++ messages.flatten)

/-! ## Tools -/

/-- Tools that the provider's servers run. -/
def isAnthropicServerTool (toolType : String) : Bool :=
  ["web_search_", "web_fetch_", "code_execution_", "tool_search_", "mcp_", "advisor_"].any
    fun start ↦ start.toList.isPrefixOf toolType.toList

def parseTool (tool : JsonValue) : Except ErrorEnvelope ToolDef := do
  let name ← orInvalid (memberStr "name" tool) "tool declares no name"
  let toolType := memberStr "type" tool
  if toolType.any isAnthropicServerTool then
    throw (capability ("Anthropic server tool `" ++ toolType.getD "" ++ "` requires an " ++
      "anthropic-native provider; the translated route cannot execute it"))
  let parameters ←
    if toolType = none ∨ toolType = some "custom" then
      orInvalid (tool.member "input_schema") "tool declares no input_schema"
    else pure ((tool.member "input_schema").getD (object []))
  pure { name, description := memberStr "description" tool, parameters }

def parseTools (body : JsonValue) : Except ErrorEnvelope (List ToolDef) :=
  (((body.member "tools").bind asArray).getD []).mapM parseTool

/-! ## The request -/

def reasoningEffortFromOutputConfig (body : JsonValue) : Option String :=
  match (body.member "output_config").bind (memberStr "effort") with
  | some "low" => some "low"
  | some "medium" => some "medium"
  | some "high" | some "max" => some "high"
  | _ => none

/-- What the adapter adds to the members that it does not know. -/
def ownExtensions (body : JsonValue) (extensions : Extensions) : Extensions :=
  let extensions := match (body.member "thinking").filter (!·.isNull) with
    | some thinking => extensions.insert thinkingExtension thinking
    | none => extensions
  match reasoningEffortFromOutputConfig body with
  | some effort => extensions.insert "reasoning_effort" (string effort)
  | none => extensions

def requestExtensions (body : JsonValue) : Extensions :=
  ownExtensions body
    (Extensions.ofMembers (fun key ↦ !knownRequestFields.contains key) (body.asObject.getD []))

def toolChoice (body : JsonValue) : Option ToolChoice :=
  ((body.member "tool_choice").filter (!·.isNull)).map fun value ↦
    match memberStr "type" value with
    | some "any" => .required
    | some "tool" =>
      match memberStr "name" value with
      | some name => .other (object
          [("type", string "function"), ("function", object [("name", string name)])])
      | none => .auto
    | _ => .auto

def stopSequences (body : JsonValue) : Except ErrorEnvelope (List String) :=
  match body.member "stop_sequences" with
  | none => .ok []
  | some (array values) => values.mapM fun value ↦
      orInvalid value.asStr "stop_sequences must contain only strings"
  | some _ => .error (invalid "stop_sequences must be an array")

def normalizeInbound (serde : SerdeJson) (envelope : AgentRequestEnvelope) :
    Except ErrorEnvelope CanonicalRequest := do
  let body := envelope.body
  validateThinking body
  validateToolChoice body
  let model ← orInvalid (memberStr "model" body) "request declares no model"
  let maxTokens ← orInvalid (body.member "max_tokens") "request declares no max_tokens"
  let maxOutputTokens ← asU32 maxTokens "max_tokens"
  let stop ← stopSequences body
  let messages ← parseMessages serde body
  let tools ← parseTools body
  pure
    { model
      messages
      tools
      toolChoice := toolChoice body
      sampling :=
        { temperature := (body.member "temperature").bind asF64
          topP := (body.member "top_p").bind asF64
          maxOutputTokens := some maxOutputTokens
          stop }
      stream := ((body.member "stream").bind asBool).getD false
      extensions := requestExtensions body }

/-! ## What the caller gets into the request -/

theorem extensions_normalizeInbound {serde : SerdeJson} {envelope : AgentRequestEnvelope}
    {request : CanonicalRequest} (h : normalizeInbound serde envelope = .ok request) :
    request.extensions = requestExtensions envelope.body := by
  simp only [normalizeInbound, except_bind_eq_ok] at h
  obtain ⟨_, -, _, -, _, -, _, -, _, -, _, -, _, -, _, -, hrequest⟩ := h
  cases hrequest
  rfl

/-- The names that the adapter gives to values of its own. -/
theorem lookup_ownExtensions {body : JsonValue} {extensions : Extensions} {key : String}
    (hthinking : key ≠ thinkingExtension) (heffort : key ≠ "reasoning_effort") :
    (ownExtensions body extensions).lookup key = extensions.lookup key := by
  rw [ownExtensions]
  split
  · rw [AList.lookup_insert_ne heffort]
    split
    · exact AList.lookup_insert_ne hthinking
    · rfl
  · split
    · exact AList.lookup_insert_ne hthinking
    · rfl

end Anthropic

end TokenStation
