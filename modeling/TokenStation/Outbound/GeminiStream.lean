import TokenStation.Library.SortByKey
import TokenStation.Outbound.AnthropicStream

/-!
# Streams in Gemini's dialect

`agent-gemini` renders most events on their own. It holds back the fragments of tool calls and an
early reason to finish, each in a map from stream ids, until the end of the stream.
-/

namespace TokenStation

namespace GeminiStream

open JsonValue Library

structure PendingCall where
  name : Option String := none
  arguments : String := ""

abbrev PendingCalls := AList fun _ : ℕ ↦ PendingCall

/-- `STREAM_CALLS` and `STREAM_FINISHES`. -/
structure StreamMaps where
  calls : AList fun _ : String ↦ PendingCalls := ∅
  finishes : AList fun _ : String ↦ Option FinishReason := ∅

def finishReason : Option FinishReason → Option String
  | some .stop => some "STOP"
  | some .length => some "MAX_TOKENS"
  | some .toolCalls => some "STOP"
  | some .contentFilter => some "SAFETY"
  | some .stopSequence => some "STOP"
  | some (.other reason) => some reason
  | none => none

/-- One chunk of the answer; `usage` alone has no candidate. -/
inductive WireChunk where
  | text (index : ℕ) (piece : String)
  | thought (index : ℕ) (piece : String)
  | usage (report : Usage)
  | final (calls : List (String × JsonValue)) (reason : Option String)
  | error (httpStatus : ℕ) (message status : String)

/-- `Usage::total`. -/
def totalTokens (usage : Usage) : UInt64 := Word.satAdd usage.inputTokens usage.outputTokens

def usageMetadata (usage : Usage) : JsonValue :=
  object [("promptTokenCount", AnthropicStream.count usage.inputTokens),
    ("candidatesTokenCount", AnthropicStream.count usage.outputTokens),
    ("totalTokenCount", AnthropicStream.count (totalTokens usage)),
    ("cachedContentTokenCount", AnthropicStream.count usage.cacheReadTokens)]

def functionCallPart (call : String × JsonValue) : JsonValue :=
  object [("functionCall", object [("name", string call.1), ("args", call.2)])]

/-- A candidate of a chunk. -/
def candidate (index : ℕ) (parts : List JsonValue) (rest : List (String × JsonValue)) :
    JsonValue :=
  object ([("index", number (toString index)),
    ("content", object [("role", string "model"), ("parts", array parts)])] ++ rest)

def WireChunk.document (model : String) : WireChunk → JsonValue
  | .text index piece =>
    object [("candidates", array [candidate index [object [("text", string piece)]] []]),
      ("modelVersion", string model)]
  | .thought index piece =>
    object [("candidates", array [candidate index
        [object [("text", string piece), ("thought", bool true)]] []]),
      ("modelVersion", string model)]
  | .usage report =>
    object [("candidates", array []), ("usageMetadata", usageMetadata report),
      ("modelVersion", string model)]
  | .final calls reason =>
    object [("candidates", array [candidate 0 (calls.map functionCallPart)
        [("finishReason", AnthropicStream.nullable reason)]]),
      ("modelVersion", string model)]
  | .error httpStatus message status =>
    object [("error", object [("code", number (toString httpStatus)), ("message", string message),
      ("status", string status)])]

/-- `sse`. -/
def WireChunk.sse (serde : SerdeJson) (model : String) (chunk : WireChunk) : String :=
  let document := chunk.document model
  s!"data: {serde.toString document}\n\n"

/-- `map_inbound_error`: the status that a code stands for. -/
def googleStatus (error : ErrorEnvelope) : String :=
  if (error.extensions.lookup "client_error_code").bind asStr = some "route_not_configured" then
    "FAILED_PRECONDITION"
  else
    match error.code with
    | .invalidRequest => "INVALID_ARGUMENT"
    | .auth => "UNAUTHENTICATED"
    | .paymentRequired => "FAILED_PRECONDITION"
    | .rateLimit => "RESOURCE_EXHAUSTED"
    | .capacity | .upstreamUnavailable => "UNAVAILABLE"
    | .capability => "FAILED_PRECONDITION"
    | .contentPolicy => "PERMISSION_DENIED"
    | .contextLength => "OUT_OF_RANGE"
    | .timeout => "DEADLINE_EXCEEDED"
    | .transportTruncated | .providerProtocolError | .internal => "INTERNAL"

/-- The id of a stream; a context without one has a common one. -/
def streamId (context : JsonValue) : String := (memberStr "stream_id" context).getD "gemini-stream"

/-- Another fragment of a call. -/
def PendingCall.push (call : PendingCall) (name : Option String) (argumentsDelta : String) :
    PendingCall where
  name := name.or call.name
  arguments := call.arguments ++ argumentsDelta

def pushCall (index : ℕ) (name : Option String) (argumentsDelta : String) (calls : PendingCalls) :
    PendingCalls :=
  calls.insert index (((calls.lookup index).getD {}).push name argumentsDelta)

/-- A finished call. -/
def finishCall (parse : String → Option JsonValue) (call : PendingCall) :
    Except ErrorEnvelope (String × JsonValue) := do
  let name ← orInvalid call.name "streamed tool call declares no name"
  let args ← orInvalid (parse call.arguments) "streamed tool arguments are not complete JSON"
  pure (name, args)

/-- The calls of a stream, in the order of their indices. -/
def finishCalls (parse : String → Option JsonValue) (calls : PendingCalls) :
    Except ErrorEnvelope (List (String × JsonValue)) :=
  (sortByKey Sigma.fst calls.entries).mapM fun entry ↦ finishCall parse entry.2

/-- What an event does to the maps. A chunk is missing where there is nothing to say yet. -/
def renderEvents (parse : String → Option JsonValue) (event : StreamEvent) (id : String)
    (maps : StreamMaps) : Except ErrorEnvelope (Option WireChunk) × StreamMaps :=
  match event with
  | .thinkingDelta index _ thinkingDelta => (.ok (some (.thought index thinkingDelta)), maps)
  | .thinkingSignatureDelta .. => (.ok none, maps)
  | .redactedThinking .. => (.error (invalid "gemini cannot render redacted thinking"), maps)
  | .delta index content => (.ok (some (.text index content)), maps)
  | .toolCallDelta index _ name argumentsDelta =>
    let calls := pushCall index name argumentsDelta ((maps.calls.lookup id).getD ∅)
    (.ok none, { maps with calls := maps.calls.insert id calls })
  | .usage usage => (.ok (some (.usage usage)), maps)
  | .finish reason _ => (.ok none, { maps with finishes := maps.finishes.insert id reason })
  | .done reason _ =>
    let reason := reason.or ((maps.finishes.lookup id).getD none)
    let calls := finishCalls parse ((maps.calls.lookup id).getD ∅)
    (calls.map fun calls ↦ some (.final calls (finishReason reason)),
      { calls := maps.calls.erase id, finishes := maps.finishes.erase id })
  | .error error =>
    (.ok (some (.error error.httpStatus error.message (googleStatus error))),
      { calls := maps.calls.erase id, finishes := maps.finishes.erase id })

/-- `render_stream_event`. -/
def renderStreamEvent (serde : SerdeJson) (parse : String → Option JsonValue)
    (event : StreamEvent) (context : JsonValue) (maps : StreamMaps) :
    Except ErrorEnvelope JsonValue × StreamMaps :=
  let model := (memberStr "model" context).getD "unknown"
  let (result, maps) := renderEvents parse event (streamId context) maps
  (result.map fun chunk ↦
    object [("data", string ((chunk.map (WireChunk.sse serde model)).getD ""))], maps)

end GeminiStream

end TokenStation
