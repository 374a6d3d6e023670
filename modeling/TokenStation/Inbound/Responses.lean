import TokenStation.Inbound.Continuation
import TokenStation.Gateway.ProviderCall

/-!
# Requests in the dialect of Responses

`agent-openai-responses` leaves the reading of a body to a codec. It puts the messages of the
conversation that the call continues before those of the call, reserves the call's own input, and
tells the host what it needs to carry the conversation on in extensions of the request.
-/

namespace TokenStation

namespace Responses

open JsonValue

def continuationScopeExtension : String := "token_station_continuation_scope"

def nativeInputExtension : String := "token_station_private_native_input"

/-- The prefix of the names that only the host and its adapters use. -/
def privatePrefix : String := "token_station_private_"

def isPrivate (key : String) : Bool := privatePrefix.toList.isPrefixOf key.toList

def directRequestFields : List String :=
  ["model", "instructions", "input", "tools", "max_output_tokens", "temperature", "top_p",
    "stream", "previous_response_id", "tool_choice", "parallel_tool_calls", "reasoning", "text"]

/-- The members that the codec does not read, less those that are the host's. -/
def requestExtensions (body : JsonValue) : Extensions :=
  Extensions.ofMembers (fun key ↦ !directRequestFields.contains key && !isPrivate key &&
    key != continuationScopeExtension) (body.asObject.getD [])

def continuationScope (envelope : AgentRequestEnvelope) : Except ErrorEnvelope String :=
  let scope := ((envelope.extensions.lookup continuationScopeExtension).bind asStr).getD
    (envelope.agentTool.getD "unknown-agent" ++ ":" ++ envelope.subject)
  if scope = "" ∨ 256 < scope.utf8ByteSize then
    .error (invalid "continuation scope is invalid")
  else .ok scope

def isKeyChar (c : Char) : Bool :=
  c.toNat < 128 && c.isAlphanum || c == '-' || c == '_' || c == '.' || c == ':'

/-- The key that the host gives to the call. -/
def continuationRequestKey (envelope : AgentRequestEnvelope) :
    Except ErrorEnvelope (Option String) :=
  match (envelope.extensions.lookup continuationKeyExtension).bind asStr with
  | none => .ok none
  | some key =>
    if key = "" ∨ 256 < key.utf8ByteSize ∨ ¬ key.toList.all isKeyChar then
      .error (invalid "continuation request key is invalid")
    else .ok (some key)

/-- The items of an input. The codec accepts a list and a text. -/
def inputItems (body : JsonValue) : List JsonValue :=
  match body.index "input" with
  | array items => items
  | string text => [object [("content", string text), ("role", string "user")]]
  | _ => []

/-- The messages after those instructions that come first and do not last. -/
def insertHistory (history messages : List CanonicalMessage) : List CanonicalMessage :=
  let insertAt := if messages.head?.any ContinuationStore.isTransient then 1 else 0
  messages.take insertAt ++ history ++ messages.drop insertAt

section Normalize

variable (codec : ResponsesCodec)

/-- What the call continues: its messages and, while every turn was native, its items. -/
def continued (now : ℕ) (scope : String) (body : JsonValue) :
    ExceptT ErrorEnvelope (StateM ContinuationStore)
      (List CanonicalMessage × Option (List JsonValue)) :=
  match memberStr "previous_response_id" body with
  | none => pure ([], some [])
  | some previousResponseId => do
    let history ← ExceptT.mk fun store : ContinuationStore ↦
      store.find now scope previousResponseId
    pure (history.messages, history.nativeItems)

/-- Reserve the call's input under the host's key. -/
def reserve (now : ℕ) (envelope : AgentRequestEnvelope) (scope : String)
    (messages : List CanonicalMessage) (nativeItems : Option (List JsonValue)) :
    ExceptT ErrorEnvelope (StateM ContinuationStore) (Option String) := do
  match ← (continuationRequestKey envelope : Except ErrorEnvelope _) with
  | none => pure none
  | some key =>
    let retained ← ExceptT.mk fun store : ContinuationStore ↦
      store.begin codec now key scope messages nativeItems
    pure (if retained then some key else none)

/-- What the adapter tells the host. -/
def privateExtensions (key : Option String) (nativeItems : Option (List JsonValue))
    (extensions : Extensions) : Extensions :=
  let extensions := match key with
    | some key => extensions.insert continuationKeyExtension (string key)
    | none => extensions
  match nativeItems with
  | some items => extensions.insert nativeInputExtension (array items)
  | none => extensions

/-- `normalize_inbound`. The clock is read when the history is looked up and when the input is
reserved. -/
def normalizeInbound (lookedUpAt begunAt : ℕ) (envelope : AgentRequestEnvelope) :
    ExceptT ErrorEnvelope (StateM ContinuationStore) CanonicalRequest := do
  let body := envelope.body
  let request ← (codec.chatRequestFromResponses body : Except ErrorEnvelope _)
  let scope ← (continuationScope envelope : Except ErrorEnvelope _)
  let (history, nativeItems) ← continued lookedUpAt scope body
  let messages := insertHistory history request.messages
  let nativeItems := nativeItems.map (· ++ inputItems body)
  let key ← reserve codec begunAt envelope scope messages nativeItems
  pure { request with
    messages
    extensions := privateExtensions key nativeItems
      (request.extensions ∪ requestExtensions body) }

end Normalize

end Responses

end TokenStation
