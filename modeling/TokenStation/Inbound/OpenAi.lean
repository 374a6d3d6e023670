import TokenStation.Inbound.Request
import TokenStation.Library.Outcome

/-!
# Requests in the dialect of Chat Completions

`agent-openai` reads the members it knows and drops the others. One client sends a body of another
shape to the same address; it is put into the usual shape first.
-/

namespace TokenStation

namespace OpenAi

open JsonValue Library

def validateResponseFormat (body : JsonValue) : Except ErrorEnvelope Unit :=
  match (body.member "response_format").filter (!·.isNull) with
  | none => .ok ()
  | some format => do
    let _ ← orInvalid format.asObject "response_format must be an object"
    let kind ← orInvalid (memberStr "type" format) "response_format declares no string type"
    if kind = "text" then pure ()
    else if kind = "json_schema" ∨ kind = "json_object" then
      throw (capability
        "Chat Completions structured output requires an approved Canonical IR/provider mapping")
    else throw (capability s!"unsupported Chat Completions response_format type {kind}")

/-! ## Cursor's bodies -/

def cursorText (part : JsonValue) : Option String :=
  (memberStr "text" part).or (memberStr "input_text" part)

def cursorMessage (item : JsonValue) : Except ErrorEnvelope JsonValue := do
  let role ← orInvalid ((memberStr "role" item).or
    (((memberStr "type" item).filter (· == "message")).map fun _ ↦ "user"))
    "Cursor input item declares no message role"
  let content := match (item.member "content").getD null with
    | array parts => string (String.join (parts.filterMap cursorText))
    | other => other
  pure (object [("content", content), ("role", string role)])

/-- A bare function becomes the `function` of a tool. -/
def wrapTool (tool : JsonValue) : JsonValue :=
  match tool with
  | object members =>
    if memberStr "type" tool = some "function" ∧ tool.member "function" = none then
      object [("function", object (members.filter fun entry ↦ entry.1 != "type")),
        ("type", string "function")]
    else tool
  | _ => tool

def droppedCursorFields : List String :=
  ["input", "previous_response_id", "store", "include", "truncation"]

def wrapTools (members : List (String × JsonValue)) : List (String × JsonValue) :=
  members.map fun entry ↦
    match entry with
    | ("tools", array tools) => ("tools", array (tools.map wrapTool))
    | entry => entry

def normalizeCursorBody (body : JsonValue) : Except ErrorEnvelope JsonValue := do
  let members ← orInvalid body.asObject "request body must be an object"
  if (body.member "messages").isSome then pure body
  else
    match (body.member "input").bind asArray with
    | none => pure body
    | some input =>
      let messages ← input.mapM cursorMessage
      let kept := members.filter fun entry ↦ !droppedCursorFields.contains entry.1
      pure (object (("messages", array messages) :: wrapTools kept))

/-! ## The request -/

def toolCallsFromOpenAi (raw : JsonValue) : List ToolCall :=
  (raw.asArray.getD []).map fun call ↦
    { id := (memberStr "id" call).getD ""
      name := (memberStr "name" (call.index "function")).getD ""
      arguments := (memberStr "arguments" (call.index "function")).getD "" }

def roleOf : Option String → Option Role
  | some "system" => some .system
  | some "user" => some .user
  | some "assistant" => some .assistant
  | some "tool" => some .tool
  | _ => none

def parseMessage (serde : SerdeJson) (raw : JsonValue) : Except ErrorEnvelope CanonicalMessage := do
  let role ← orInvalid (roleOf (memberStr "role" raw)) "message declares no known role"
  let content := match raw.index "content" with
    | string text => some (Content.text text)
    | array parts => some (Content.parts (parts.map serde.contentPart))
    | _ => none
  pure
    { role
      content
      toolCalls := toolCallsFromOpenAi (raw.index "tool_calls")
      toolCallId := memberStr "tool_call_id" raw
      name := memberStr "name" raw }

def parseTool (tool : JsonValue) : ToolDef where
  name := (memberStr "name" (tool.index "function")).getD ""
  description := memberStr "description" (tool.index "function")
  parameters := (tool.index "function").index "parameters"

/-- `serde_json::from_value`: any value is a choice. -/
def toolChoiceOf : JsonValue → ToolChoice
  | string "auto" => .auto
  | string "none" => .none
  | string "required" => .required
  | raw => .other raw

/-- The extensions that the adapter makes. -/
def requestExtensions (body : JsonValue) : Extensions :=
  let extensions : Extensions := match memberStr "reasoning_effort" body with
    | some effort => (∅ : Extensions).insert "reasoning_effort" (string effort)
    | none => ∅
  match (body.member "parallel_tool_calls").bind asBool with
  | some parallel => extensions.insert "parallel_tool_calls" (bool parallel)
  | none => extensions

def maxOutputTokens (body : JsonValue) : Option ℕ :=
  (((body.member "max_tokens").bind asU64).or
    ((body.member "max_completion_tokens").bind asU64)).bind fun value ↦
      if value.toNat < 2 ^ 32 then some value.toNat else none

/-- The body in the usual shape. -/
def chatBody (envelope : AgentRequestEnvelope) : Except ErrorEnvelope JsonValue :=
  if envelope.agentTool = some "cursor" then normalizeCursorBody envelope.body
  else .ok envelope.body

def normalizeInbound (serde : SerdeJson) (envelope : AgentRequestEnvelope) :
    Except ErrorEnvelope CanonicalRequest := do
  let body ← chatBody envelope
  validateResponseFormat body
  let model ← orInvalid (memberStr "model" body) "request declares no model"
  let messages ← (((body.member "messages").bind asArray).getD []).mapM (parseMessage serde)
  pure
    { model
      messages
      tools := (((body.member "tools").bind asArray).getD []).map parseTool
      toolChoice := (body.member "tool_choice").map toolChoiceOf
      sampling :=
        { temperature := (body.member "temperature").bind asF64
          topP := (body.member "top_p").bind asF64
          maxOutputTokens := maxOutputTokens body
          stop := (((body.member "stop").bind asArray).getD []).filterMap asStr }
      stream := ((body.member "stream").bind asBool).getD false
      extensions := requestExtensions body }

/-! ## What the caller gets into the request -/

theorem mem_insert_empty {key name : String} {value : JsonValue} :
    key ∈ (∅ : Extensions).insert name value ↔ key = name := by
  rw [AList.mem_insert]
  exact or_iff_left (AList.notMem_empty key)

/-- No name is the caller's. -/
theorem keys_requestExtensions {body : JsonValue} {key : String}
    (hmem : key ∈ requestExtensions body) :
    key = "reasoning_effort" ∨ key = "parallel_tool_calls" := by
  rw [requestExtensions] at hmem
  split at hmem
  · split at hmem
    · rw [AList.mem_insert, mem_insert_empty] at hmem
      exact hmem.symm
    · rw [AList.mem_insert] at hmem
      exact Or.inr (hmem.resolve_right (AList.notMem_empty key))
  · split at hmem
    · exact Or.inl (mem_insert_empty.mp hmem)
    · exact absurd hmem (AList.notMem_empty key)

theorem keys_normalizeInbound {serde : SerdeJson} {envelope : AgentRequestEnvelope}
    {request : CanonicalRequest} (h : normalizeInbound serde envelope = .ok request)
    {key : String} (hmem : key ∈ request.extensions) :
    key = "reasoning_effort" ∨ key = "parallel_tool_calls" := by
  simp only [normalizeInbound, except_bind_eq_ok] at h
  obtain ⟨body, -, _, -, _, -, _, -, hrequest⟩ := h
  cases hrequest
  exact keys_requestExtensions hmem

end OpenAi

end TokenStation
