import TokenStation.Protocol.Error

/-!
# Requests, hints and model capabilities

The normalized chat request is the only request shape the router sees. Members that no modelled
function reads (identifiers of tool results, temperature and the like) are left out.
-/

namespace TokenStation

/-! ## Chat requests -/

/-- Who authored a message. -/
inductive Role where
  | system
  | user
  | assistant
  | tool
  deriving DecidableEq, Repr

/-- One part of a multimodal message. -/
inductive ContentPart where
  | text (text : String)
  | imageUrl (url : String) (detail : Option String)
  | thinking (thinking : String) (signature : Option String)
  | redactedThinking (data : String)
  | unknown (raw : JsonValue)

/-- A message body: plain text, or ordered parts. -/
inductive Content where
  | text (text : String)
  | parts (parts : List ContentPart)

/-- A tool the assistant asked the caller to run. -/
structure ToolCall where
  id : String
  name : String
  arguments : String

/-- A tool the caller offers to the model. -/
structure ToolDef where
  name : String
  description : Option String
  parameters : JsonValue

inductive ResponseFormat where
  | text
  | jsonObject
  | jsonSchema (schema : JsonValue)

structure Message where
  role : Role
  content : Option Content
  toolCalls : List ToolCall := []

/-- `Message::text`. -/
def Message.text (role : Role) (text : String) : Message :=
  { role, content := some (.text text) }

/-- A normalized chat request. -/
structure ChatRequest where
  /-- The model the caller asked for; routing may replace it. -/
  model : String
  messages : List Message
  tools : List ToolDef := []
  responseFormat : Option ResponseFormat := none
  /-- `sampling.max_output_tokens`. -/
  maxOutputTokens : Option ℕ := none
  stream : Bool := false
  extensions : Extensions := ∅

/-! ## Agent hints -/

/-- What a hint describes; a closed catalog. -/
inductive HintKind where
  | stepType
  | taskType
  | preference
  | capability
  deriving DecidableEq, Repr

/-- A routing feature supplied by the calling agent. -/
structure AgentHint where
  kind : HintKind
  value : String

/-! ## Model capabilities -/

/-- Evidence strength for one model capability. -/
inductive CapabilityState where
  | verified
  | declared
  | unsupported
  | unknown
  deriving DecidableEq, Repr

/-- Positive evidence of support. -/
def CapabilityState.isSupported : CapabilityState → Bool
  | verified | declared => true
  | unsupported | unknown => false

/-- What one model can do, as its provider adapter reports it. -/
structure ModelCapability where
  tool : Bool := false
  vision : Bool := false
  jsonSchema : Bool := false
  toolState? : Option CapabilityState := none
  visionState? : Option CapabilityState := none
  jsonSchemaState? : Option CapabilityState := none
  /-- Maximum combined input and output tokens; zero means unknown. -/
  contextWindow : ℕ := 0
  /-- Maximum output tokens for one response; zero means unknown. -/
  maxOutputTokens : ℕ := 0
  deriving DecidableEq

namespace ModelCapability

/-- The state an absent evidence field stands for, from the legacy flag. -/
def legacyState (flag : Bool) : CapabilityState :=
  if flag then .declared else .unsupported

def toolState (capability : ModelCapability) : CapabilityState :=
  capability.toolState?.getD (legacyState capability.tool)

def visionState (capability : ModelCapability) : CapabilityState :=
  capability.visionState?.getD (legacyState capability.vision)

def jsonSchemaState (capability : ModelCapability) : CapabilityState :=
  capability.jsonSchemaState?.getD (legacyState capability.jsonSchema)

/-- An image request can establish support where there is no evidence; an explicit negative
declaration prevents it. -/
def allowsImageAttempt (capability : ModelCapability) : Bool :=
  decide (capability.visionState ≠ .unsupported)

end ModelCapability

end TokenStation
