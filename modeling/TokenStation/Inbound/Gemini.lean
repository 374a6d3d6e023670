import TokenStation.Inbound.Request
import TokenStation.Library.Outcome
import TokenStation.Protocol.Text

/-!
# Requests in Gemini's dialect

`agent-gemini` takes the model and the kind of the answer from the path of the call. Function calls
may come without an id; the adapter numbers them, and gives a response the id of the call it
answers.
-/

namespace TokenStation

namespace Gemini

open JsonValue Library

/-! ## The path -/

/-- What follows the last occurrence of a marker. -/
def afterLast (marker : List Char) : List Char → Option (List Char)
  | [] => stripPrefix marker []
  | c :: rest => (afterLast marker rest).or (stripPrefix marker (c :: rest))

def isModelChar (c : Char) : Bool :=
  c.toNat < 128 && c.isAlphanum || c == '.' || c == '_' || c == '-' || c == '/'

/-- The model that a path names, and whether the answer is a stream. -/
def route (path : String) : Option (String × Bool) := do
  let path := trimEndMatches (· == '/') (path.toList.takeWhile (· != '?'))
  let tail ← afterLast "/models/".toList path
  let (model, stream) ←
    ((stripSuffix ":generateContent".toList tail).map fun model ↦ (model, false)).or
      ((stripSuffix ":streamGenerateContent".toList tail).map fun model ↦ (model, true))
  if !model.isEmpty && model.length ≤ 256 && model.all isModelChar then
    some (String.ofList model, stream)
  else none

def transportPath (envelope : AgentRequestEnvelope) : Except ErrorEnvelope String :=
  orInvalid ((envelope.extensions.lookup "transport_path").bind asStr)
    "Gemini request envelope declares no transport_path"

/-! ## Messages -/

def textPart (context : String) (content : List ContentPart) (part : JsonValue) :
    Except ErrorEnvelope (List ContentPart) := do
  let _ ← orInvalid part.asObject s!"{context}.parts entries must be objects"
  match part.member "text" with
  | some text =>
    let text ← orInvalid text.asStr s!"{context} text part must be a string"
    pure (content ++ [.text text])
  | none =>
    if (part.member "inlineData").isSome ∨ (part.member "fileData").isSome ∨
        (part.member "videoMetadata").isSome then
      throw (capability "Gemini multimodal parts are not supported by this adapter")
    else if (part.member "functionCall").isNone ∧ (part.member "functionResponse").isNone then
      throw (capability "unsupported Gemini content part")
    else pure content

def textParts (parts : JsonValue) (context : String) : Except ErrorEnvelope (Option Content) := do
  let parts ← orInvalid parts.asArray s!"{context}.parts must be an array"
  let content ← parts.foldlM (textPart context) []
  pure (if content.isEmpty then none else some (.parts content))

def parseSystem (body : JsonValue) : Except ErrorEnvelope (Option CanonicalMessage) :=
  match body.member "systemInstruction" with
  | none => .ok none
  | some system => do
    let parts ← orInvalid (system.member "parts") "systemInstruction declares no parts"
    let content ← textParts parts "systemInstruction"
    pure (content.map fun content ↦ { role := .system, content := some content })

/-- A function call that was read, and whether a response has answered it. -/
structure PendingCall where
  id : String
  name : String
  answered : Bool := false

/-- The calls of the conversation so far, and the next number for a call without an id. -/
structure CallIds where
  pendingCalls : List PendingCall := []
  generatedCallId : ℕ := 0

/-- The id of a call or a response: absent, or a text that is not empty. -/
def explicitId (call : JsonValue) (kind : String) : Except ErrorEnvelope (Option String) :=
  match call.member "id" with
  | none | some null => .ok none
  | some (string id) =>
    if id ≠ "" then .ok (some id) else .error (invalid s!"{kind} id must not be empty")
  | some _ => .error (invalid s!"{kind} id must be a string")

def functionCall (serde : SerdeJson) (ids : CallIds) (call : JsonValue) :
    Except ErrorEnvelope (CallIds × ToolCall) := do
  let name ← orInvalid (memberStr "name" call) "functionCall declares no name"
  let args := (call.member "args").getD (object [])
  let given ← explicitId call "functionCall"
  let (id, generatedCallId) ← match given with
    | some id => pure (id, ids.generatedCallId)
    | none =>
      if ids.generatedCallId + 1 < 2 ^ 64 then
        pure (s!"gemini-call-{ids.generatedCallId}", ids.generatedCallId + 1)
      else throw (invalid "too many Gemini function calls")
  if ids.pendingCalls.any (·.id == id) then throw (invalid "functionCall id is duplicated")
  pure ({ pendingCalls := ids.pendingCalls ++ [{ id, name }], generatedCallId },
    { id, name, arguments := serde.toString args })

/-- The call that a response answers: by its id, else the first of its name. -/
def answeredIndex (ids : CallIds) (name : String) (given : Option String) :
    Except ErrorEnvelope ℕ :=
  match given with
  | some id =>
    orInvalid (ids.pendingCalls.findIdx? fun call ↦ call.id == id && !call.answered)
      "functionResponse references an unknown or completed call id"
  | none =>
    orInvalid (ids.pendingCalls.findIdx? fun call ↦ call.name == name && !call.answered)
      "functionResponse has no matching unanswered functionCall by name"

def functionResponse (serde : SerdeJson) (ids : CallIds) (result : JsonValue) :
    Except ErrorEnvelope (CallIds × CanonicalMessage) := do
  let name ← orInvalid (memberStr "name" result) "functionResponse declares no name"
  let response := (result.member "response").getD null
  let given ← explicitId result "functionResponse"
  let index ← answeredIndex ids name given
  let call := ids.pendingCalls.getD index { id := "", name := "" }
  if call.name ≠ name then
    throw (invalid "functionResponse name does not match its functionCall id")
  pure ({ ids with pendingCalls := ids.pendingCalls.set index { call with answered := true } },
    { role := .tool
      content := some (.text (serde.toString response))
      toolCallId := some call.id
      name := some name })

/-- The calls and the results of one item. -/
structure ItemParts where
  ids : CallIds
  toolCalls : List ToolCall := []
  toolResults : List CanonicalMessage := []

def itemPart (serde : SerdeJson) (item : ItemParts) (part : JsonValue) :
    Except ErrorEnvelope ItemParts := do
  let item ← match part.member "functionCall" with
    | none => pure item
    | some call =>
      let (ids, toolCall) ← functionCall serde item.ids call
      pure { item with ids, toolCalls := item.toolCalls ++ [toolCall] }
  match part.member "functionResponse" with
  | none => pure item
  | some result =>
    let (ids, message) ← functionResponse serde item.ids result
    pure { item with ids, toolResults := item.toolResults ++ [message] }

def parseItem (serde : SerdeJson) (state : List CanonicalMessage × CallIds) (item : JsonValue) :
    Except ErrorEnvelope (List CanonicalMessage × CallIds) := do
  let role ← match (memberStr "role" item).getD "user" with
    | "user" => pure Role.user
    | "model" => pure Role.assistant
    | other => throw (invalid s!"unsupported Gemini role `{other}`")
  let parts ← orInvalid ((item.member "parts").bind asArray)
    "Gemini content declares no parts array"
  let content ← textParts (array parts) "contents"
  let read ← parts.foldlM (itemPart serde) { ids := state.2 }
  let message : List CanonicalMessage :=
    if content.isSome ∨ read.toolCalls ≠ [] then [{ role, content, toolCalls := read.toolCalls }]
    else []
  pure (state.1 ++ message ++ read.toolResults, read.ids)

def parseMessages (serde : SerdeJson) (body : JsonValue) :
    Except ErrorEnvelope (List CanonicalMessage) := do
  let contents ← orInvalid ((body.member "contents").bind asArray)
    "Gemini request declares no contents array"
  let system ← parseSystem body
  let state ← contents.foldlM (parseItem serde) (system.toList, {})
  pure state.1

/-! ## Tools -/

def functionParameters (declaration : JsonValue) : Except ErrorEnvelope JsonValue :=
  match declaration.member "parameters", declaration.member "parametersJsonSchema" with
  | some _, some _ => .error (invalid
      "function declaration must not combine parameters and parametersJsonSchema")
  | none, none => .ok (object [("type", string "object")])
  | some schema, none | none, some schema =>
    if schema.isObject then .ok schema
    else .error (invalid "function declaration parameters must be a schema object")

def parseDeclaration (declaration : JsonValue) : Except ErrorEnvelope ToolDef := do
  let name ← orInvalid (memberStr "name" declaration) "function declaration declares no name"
  let parameters ← functionParameters declaration
  pure { name, description := memberStr "description" declaration, parameters }

/-- The tools that a group names, which the provider's servers run. -/
def hostedTools (group : JsonValue) : String :=
  let keys := ", ".intercalate ((group.asObject.getD []).map Prod.fst)
  if keys = "" then "unknown" else keys

def parseGroup (group : JsonValue) : Except ErrorEnvelope (List ToolDef) :=
  match (group.member "functionDeclarations").bind asArray with
  | some declarations => declarations.mapM parseDeclaration
  | none => .error (capability (s!"Gemini hosted tools ({hostedTools group}) are executed by " ++
      "Google's servers and have no Canonical IR representation; only functionDeclarations are " ++
      "supported. Route to a native Gemini upstream or disable the tool on the Agent."))

def parseTools (body : JsonValue) : Except ErrorEnvelope (List ToolDef) :=
  match body.member "tools" with
  | none => .ok []
  | some tools => do
    let groups ← orInvalid tools.asArray "tools must be an array"
    let definitions ← groups.mapM parseGroup
    pure definitions.flatten

/-! ## The request -/

def stringArray (value : Option JsonValue) (field : String) :
    Except ErrorEnvelope (List String) :=
  match value with
  | none => .ok []
  | some (array values) => values.mapM fun value ↦
      orInvalid value.asStr s!"{field} must contain only strings"
  | some _ => .error (invalid s!"{field} must be an array")

def maxOutputTokens (generation : JsonValue) : Except ErrorEnvelope (Option ℕ) :=
  match generation.member "maxOutputTokens" with
  | none => .ok none
  | some value => do
    let tokens ← orInvalid value.asU32 "maxOutputTokens must be an unsigned 32-bit integer"
    pure (some tokens)

def normalizeInbound (serde : SerdeJson) (envelope : AgentRequestEnvelope) :
    Except ErrorEnvelope CanonicalRequest := do
  let path ← transportPath envelope
  let (model, stream) ← orInvalid (route path)
    "transport_path is not a Gemini generateContent route"
  let generation := (envelope.body.member "generationConfig").getD (object [])
  let maxOutputTokens ← maxOutputTokens generation
  let messages ← parseMessages serde envelope.body
  let tools ← parseTools envelope.body
  let stop ← stringArray (generation.member "stopSequences") "stopSequences"
  pure
    { model
      messages
      tools
      toolChoice := none
      sampling :=
        { temperature := (generation.member "temperature").bind asF64
          topP := (generation.member "topP").bind asF64
          maxOutputTokens
          stop }
      stream
      extensions := ∅ }

/-- The adapter makes no extension. -/
theorem extensions_normalizeInbound {serde : SerdeJson} {envelope : AgentRequestEnvelope}
    {request : CanonicalRequest} (h : normalizeInbound serde envelope = .ok request) :
    request.extensions = ∅ := by
  simp only [normalizeInbound, except_bind_eq_ok] at h
  obtain ⟨_, -, _, -, _, -, _, -, _, -, _, -, hrequest⟩ := h
  cases hrequest
  rfl

end Gemini

end TokenStation
