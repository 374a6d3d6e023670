import TokenStation.Gateway.Exchange

/-!
# One attempt with the canonical payload

The request is rendered for the target's dialect, sent, and its answer translated back, whole or
event by event. A stream is *committed* once its first chunk was taken: before that a failure is
returned as an error and nothing has reached the client, after it the failure is one more chunk.
-/

namespace TokenStation

open Exchange

/-- How an attempt ends. -/
abbrev AttemptResult : Type := Except ErrorEnvelope StreamOutcome

/-- The request that every attempt renders for its own target. -/
structure CanonicalCall where
  agent : LoadedAgent
  /-- The inbound protocol. -/
  protocol : String
  hasImages : Bool
  request : ChatRequest
  inboundTools : JsonValue

def continuationKeyExtension : String := "token_station_private_continuation_key"

def toolNamespacesExtension : String := "responses_tool_namespaces"

/-- What the error catalog makes of a failed stream pull. -/
def mapStreamReadFailure (failure : StreamReadError) (reason : Option CancelReason) :
    ErrorEnvelope :=
  match failure, reason with
  | .streamReadFailed, _ =>
    ErrorEnvelope.new .transportTruncated 502 "provider response was truncated"
  | .streamIdleTimeout, _ => ErrorEnvelope.new .timeout 504 "provider stream became idle"
  | .streamDeadlineExceeded, _ => ErrorEnvelope.new .timeout 504 "request deadline exceeded"
  | .streamCancelled, some .clientDisconnect =>
    ErrorEnvelope.new .internal 499 "request cancelled"
  | .streamCancelled, some .serverDrain =>
    ErrorEnvelope.new .upstreamUnavailable 503 "Token Station is restarting. Retry this request."
  | .streamCancelled, _ => ErrorEnvelope.new .timeout 504 "request deadline exceeded"
  | .chunkNotDeliverable, _ =>
    ErrorEnvelope.new .providerProtocolError 502 "provider stream chunk was rejected"

/-- An attempt that outlived the deadline is the last one. -/
def mapSouthStreamFailureForAttempt (failure : StreamReadError) (reason : Option CancelReason) :
    ErrorEnvelope :=
  if failure = .streamDeadlineExceeded then
    forbidAttemptFallback (mapStreamReadFailure failure reason)
  else mapStreamReadFailure failure reason

def rejectRedirect (status : ℕ) : Except ErrorEnvelope Unit :=
  if 300 ≤ status ∧ status < 400 then
    .error (ErrorEnvelope.new .upstreamUnavailable 502
      s!"upstream redirect refused: HTTP {status}")
  else .ok ()

/-- Whether a batch closes the stream without anything having been delivered. -/
def terminalWithoutDelivery (events : List StreamEvent) (delivered : Bool) : Bool :=
  !delivered && !events.isEmpty && events.all StreamEvent.isDone

def emptyStreamEnvelope : ErrorEnvelope :=
  ErrorEnvelope.new .providerProtocolError 502
    "the upstream stream ended without delivering any event"

def truncatedStreamEnvelope : ErrorEnvelope :=
  ErrorEnvelope.new .transportTruncated 502
    "upstream SSE connection closed before a terminal event"

/-- The text of a rendered chunk. -/
def chunkData (chunk : JsonValue) : String :=
  ((chunk.member "data").bind JsonValue.asStr).getD ""

/-- What a batch of events leaves a stream in. -/
inductive Relay where
  | ended (result : AttemptResult)
  | running (committed delivered : Bool)

section Attempt

variable {W : Type} (env : Environment W) (ctx : RequestContext) (call : CanonicalCall)

def emitReply (reply : Reply) : StateM (Exchange W) Bool :=
  attemptEmit env ctx call.hasImages reply

def emitCancelled : StateM (Exchange W) Unit := do
  let _ ← emitReply env ctx call (cancelledReply env.jsonText)

/-- A cancelled attempt: the error of a drain or a deadline, or the reply that closes the exchange
of a client that left. -/
def cancelAttempt : StateM (Exchange W) AttemptResult := do
  match ← ask (lifecycleCancellation env ctx) with
  | some error => pure (.error error)
  | none =>
    emitCancelled env ctx call
    pure (.ok .clientCancelled)

/-! ## The request -/

/-- The request one attempt renders. -/
def requestForAttempt (config : ProviderConfig) (target : UpstreamModel) : ChatRequest :=
  let request := { call.request with model := target.model }
  if config.provider != "anthropic" then env.replaceCanonicalDocuments request else request

def buildProviderRequest (config : ProviderConfig) (request : ChatRequest) :
    StateM (Exchange W) (Except ErrorEnvelope HttpRequestDescriptor) := do
  match ← ask (env.buildHttpRequest config request) with
  | .error error => pure (.error error)
  | .ok descriptor =>
    match config.authorize descriptor with
    | .error refusal => pure (.error (ErrorEnvelope.new .internal 500 refusal.text))
    | .ok () => pure (.ok descriptor)

/-! ## Whole answers -/

/-- Read a response to its end; the error is how the attempt ends. -/
def responseParts (response : UpstreamResponse) :
    StateM (Exchange W) (Except AttemptResult HttpResponseParts) := do
  match ← ask (env.intoParts response) with
  | .error error =>
    if ← ask (isCancelled env ctx) then
      let terminal ← cancelAttempt env ctx call
      pure (.error terminal)
    else pure (.error (.error error))
  | .ok parts =>
    if ← ask (isCancelled env ctx) then
      let terminal ← cancelAttempt env ctx call
      pure (.error terminal)
    else pure (.ok parts)

/-- The error that a failed response stands for, unless the client left. -/
def classifyProviderError (config : ProviderConfig) (response : UpstreamResponse) :
    StateM (Exchange W) (Except StreamOutcome ErrorEnvelope) := do
  match ← responseParts env ctx call response with
  | .error (.ok outcome) => pure (.error outcome)
  | .error (.error error) => pure (.ok error)
  | .ok parts =>
    match ← ask (env.mapProviderError config parts) with
    | .ok error | .error error => pure (.ok error)

/-- The id of the rendered answer: a fresh one in the Responses protocol. -/
def renderedId (chatResponse : ChatResponse) : StateM (Exchange W) String :=
  if call.agent.protocol = "openai-responses" then do
    let sequence ← ask env.nextRenderId
    pure s!"resp_token_station_{sequence}"
  else pure chatResponse.id

def translateNonstreamResponse (config : ProviderConfig) (request : ChatRequest)
    (response : UpstreamResponse) : StateM (Exchange W) AttemptResult := do
  match ← responseParts env ctx call response with
  | .error terminal => pure terminal
  | .ok parts =>
    match ← ask (env.parseResponse config parts) with
    | .error error => pure (.error error)
    | .ok parsed =>
      let chatResponse :=
        { parsed with usage := canonicalProviderUsage config.provider parsed.usage }
      modify fun exchange ↦ { exchange with usage := some chatResponse.usage }
      let responseId ← renderedId env call chatResponse
      let context : RenderContext :=
        { protocol := call.protocol
          responseId
          model := chatResponse.model
          inboundTools := call.inboundTools
          continuationKey := request.extensions.lookup continuationKeyExtension
          toolNamespaces := request.extensions.lookup toolNamespacesExtension }
      match ← ask (env.renderResponse call.agent chatResponse context) with
      | .error error => pure (.error error)
      | .ok rendered =>
        if ← emitReply env ctx call (.beginJson 200 (env.jsonText rendered)) then
          pure (.ok .complete)
        else pure (.ok .clientCancelled)

/-! ## Streams -/

/-- Drop what the renderer remembers of the stream. -/
def clearStreamState (context : RenderContext) : StateM (Exchange W) Unit := do
  let farewell := StreamEvent.error (ErrorEnvelope.new .internal 499 "client disconnected")
  let _ ← ask (env.renderStreamEvent call.agent farewell context)

/-- A stream error, rendered the way the inbound protocol spells it. -/
def renderStreamError (envelope : ErrorEnvelope) (context : RenderContext) :
    StateM (Exchange W) String := do
  let rendered ← ask (env.renderStreamEvent call.agent (.error envelope) context)
  match rendered.toOption.bind fun chunk ↦ (chunk.member "data").bind JsonValue.asStr with
  | some data => pure data
  | none =>
    let body ← match ← ask (env.mapInboundError call.agent envelope (some context)) with
      | .error _ =>
        pure (env.jsonText (.object [("error", .object [("message", .string envelope.message)])]))
      | .ok document => pure (env.jsonText document)
    pure s!"data: {body}\n\n"

/-- End a stream with an error: as an error while nothing is committed, else as one more chunk. -/
def terminateStream (context : RenderContext) (envelope : ErrorEnvelope) (committed : Bool) :
    StateM (Exchange W) AttemptResult := do
  if !committed then
    clearStreamState env call context
    pure (.error envelope)
  else
    let envelope := sanitizeAttemptErrorForRender envelope
    modify fun exchange ↦ { exchange with errorCode := some envelope.code }
    let rendered ← renderStreamError env call envelope context
    let accepted ← emitReply env ctx call (.chunk rendered)
    clearStreamState env call context
    pure (.ok (if accepted then .failedAfterPartial else .clientCancelled))

/-- The client no longer takes the stream. -/
def abandonStream (context : RenderContext) : StateM (Exchange W) AttemptResult := do
  clearStreamState env call context
  pure (.ok .clientCancelled)

/-- A cancelled stream: a drain or a deadline ends it with an error; a client that left before the
first chunk still gets a reply. -/
def cancelStream (context : RenderContext) (committed : Bool) :
    StateM (Exchange W) AttemptResult := do
  match ← ask (lifecycleCancellation env ctx) with
  | some envelope => terminateStream env ctx call context envelope committed
  | none =>
    clearStreamState env call context
    if !committed then emitCancelled env ctx call
    pure (.ok .clientCancelled)

/-- Fold the usage that the events report into the record. -/
def absorbRecordUsage (events : List StreamEvent) : StateM (Exchange W) Unit :=
  modify fun exchange ↦
    { exchange with
      usage := (events.filterMap StreamEvent.usage?).foldl
        (fun usage report ↦ some ((usage.getD {}).absorb report)) exchange.usage }

/-- The head of the stream, before its first chunk. -/
def openStream (committed : Bool) : StateM (Exchange W) Bool :=
  if committed then pure true else emitReply env ctx call .beginStream

/-- Render a batch, up to the first event that does not render. -/
def renderAll (context : RenderContext) : List StreamEvent →
    StateM (Exchange W) (Except ErrorEnvelope (List String))
  | [] => pure (.ok [])
  | event :: events => do
    match ← ask (env.renderStreamEvent call.agent event context) with
    | .error envelope => pure (.error envelope)
    | .ok chunk =>
      match ← renderAll context events with
      | .error envelope => pure (.error envelope)
      | .ok rendered => pure (.ok (chunkData chunk :: rendered))

/-- Hand the chunks of a batch on. -/
def relayChunks (context : RenderContext) (committed delivered terminal : Bool) :
    List (StreamEvent × String) → StateM (Exchange W) Relay
  | [] =>
    if terminal then do
      clearStreamState env call context
      pure (.ended (.ok .complete))
    else pure (.running committed delivered)
  | (event, data) :: rest => do
    if ← emitReply env ctx call (.chunk data) then
      if event.isDone then relayChunks context true delivered true rest
      else relayChunks context true true terminal rest
    else
      let result ← abandonStream env call context
      pure (.ended result)

/-- One complete frame. -/
def relayFrame (config : ProviderConfig) (context : RenderContext) (committed delivered : Bool)
    (data : String) : StateM (Exchange W) Relay := do
  let terminate (envelope : ErrorEnvelope) : StateM (Exchange W) Relay := do
    let result ← terminateStream env ctx call context envelope committed
    pure (.ended result)
  match ← ask (env.parseChunk config data) with
  | .error envelope => terminate envelope
  | .ok parsed =>
    let events := canonicalProviderEvents config.provider parsed
    absorbRecordUsage events
    match events.findSome? StreamEvent.error? with
    | some error => terminate error
    | none =>
      if terminalWithoutDelivery events delivered then terminate emptyStreamEnvelope
      else
        match ← renderAll env call context events with
        | .error envelope => terminate envelope
        | .ok rendered =>
          if rendered.isEmpty then pure (.running committed delivered)
          else if ← openStream env ctx call committed then
            relayChunks env ctx call context committed delivered false (events.zip rendered)
          else
            let result ← abandonStream env call context
            pure (.ended result)

/-- The frames that one read completed. -/
def relayFrames (config : ProviderConfig) (context : RenderContext) (committed delivered : Bool) :
    List String → StateM (Exchange W) Relay
  | [] => pure (.running committed delivered)
  | data :: frames => do
    match ← relayFrame env ctx call config context committed delivered data with
    | .ended result => pure (.ended result)
    | .running committed delivered => relayFrames config context committed delivered frames

/-- The events that the parser still holds at the end of the stream, one by one. -/
def relayRest (context : RenderContext) (committed terminal : Bool) :
    List StreamEvent → StateM (Exchange W) AttemptResult
  | [] =>
    if terminal then do
      clearStreamState env call context
      pure (.ok .complete)
    else terminateStream env ctx call context truncatedStreamEnvelope committed
  | event :: events => do
    match ← ask (env.renderStreamEvent call.agent event context) with
    | .error envelope => terminateStream env ctx call context envelope committed
    | .ok chunk =>
      if ← openStream env ctx call committed then
        if ← emitReply env ctx call (.chunk (chunkData chunk)) then
          relayRest context true (terminal || event.isDone) events
        else abandonStream env call context
      else abandonStream env call context

/-- The end of the stream. -/
def relayEnd (config : ProviderConfig) (context : RenderContext) (decoder : SseFrameDecoder)
    (committed delivered : Bool) : StateM (Exchange W) AttemptResult := do
  match decoder.finish with
  | .error envelope => terminateStream env ctx call context envelope committed
  | .ok () =>
    match ← ask (env.finishParser config) with
    | .error envelope => terminateStream env ctx call context envelope committed
    | .ok parsed =>
      let events := canonicalProviderEvents config.provider parsed
      absorbRecordUsage events
      match events.findSome? StreamEvent.error? with
      | some error => terminateStream env ctx call context error committed
      | none =>
        if terminalWithoutDelivery events delivered then
          terminateStream env ctx call context emptyStreamEnvelope committed
        else relayRest env ctx call context committed false events

/-- The error of a failed read. -/
def readFailure : Option StreamReadError → StateM (Exchange W) ErrorEnvelope
  | none =>
    pure (ErrorEnvelope.new .transportTruncated 502 "upstream connection broke while streaming")
  | some failure => do
    let reason ← ask (cancelReason env ctx)
    pure (mapSouthStreamFailureForAttempt failure reason)

/-- The stream, read by read. -/
def relayStream (config : ProviderConfig) (context : RenderContext) :
    SseFrameDecoder → Bool → Bool → List StreamRead → StateM (Exchange W) AttemptResult
  | decoder, committed, delivered, [] => do
    if ← ask (isCancelled env ctx) then cancelStream env ctx call context committed
    else relayEnd env ctx call config context decoder committed delivered
  | decoder, committed, delivered, read :: reads => do
    if ← ask (isCancelled env ctx) then cancelStream env ctx call context committed
    else
      match read with
      | .failed failure =>
        if ← ask (isCancelled env ctx) then cancelStream env ctx call context committed
        else
          let envelope ← readFailure env ctx failure
          terminateStream env ctx call context envelope committed
      | .data bytes =>
        -- a read of nothing is the end of the stream
        if bytes.isEmpty then relayEnd env ctx call config context decoder committed delivered
        else
          match decoder.push bytes with
          | .error envelope => terminateStream env ctx call context envelope committed
          | .ok (frames, decoder) =>
            match ← relayFrames env ctx call config context committed delivered frames with
            | .ended result => pure result
            | .running committed delivered =>
              relayStream config context decoder committed delivered reads

def translateStreamResponse (config : ProviderConfig) (request : ChatRequest)
    (target : UpstreamModel) (response : UpstreamResponse) :
    StateM (Exchange W) AttemptResult := do
  let sequence ← ask env.nextRenderId
  let context : RenderContext :=
    { protocol := call.protocol
      streamId := some s!"stream-{sequence}"
      responseId := s!"msg_token_station_{sequence}"
      model := target.model
      inboundTools := call.inboundTools
      continuationKey := request.extensions.lookup continuationKeyExtension
      toolNamespaces := request.extensions.lookup toolNamespacesExtension }
  relayStream env ctx call config context {} false false response.body

/-! ## The attempt -/

/-- The deadline of an attempt that starts now. -/
def attemptDeadline (world : W) : ℕ × W :=
  (min ctx.deadline ((env.now world).1 + ctx.perAttemptTimeout), (env.now world).2)

/-- Build, authorize, send, and translate the answer back. -/
def canonicalAttempt (upstreams : AList fun _ : String ↦ ProviderConfig) (target : UpstreamModel) :
    StateM (Exchange W) AttemptResult := do
  let deadline ← ask (attemptDeadline env ctx)
  match upstreams.lookup target.upstream.name with
  | none =>
    pure (.error (ErrorEnvelope.new .internal 500
      s!"upstream `{target.upstream.name}` vanished from configuration"))
  | some config =>
    let request := requestForAttempt env call config target
    match ← buildProviderRequest env config request with
    | .error error => pure (.error error)
    | .ok descriptor =>
      match ← ask (env.sendProviderCall config descriptor deadline) with
      | .error error =>
        if ← ask (isCancelled env ctx) then cancelAttempt env ctx call else pure (.error error)
      | .ok response =>
        modify fun exchange ↦ { exchange with upstreamHttpStatus := some response.status }
        match rejectRedirect response.status with
        | .error error => pure (.error error)
        | .ok () =>
          if 400 ≤ response.status then
            match ← classifyProviderError env ctx call config response with
            | .ok error => pure (.error error)
            | .error outcome => pure (.ok outcome)
          else
            ask fun world ↦ ((), env.noteAuthoritative target.upstream.name response world)
            if request.stream then
              translateStreamResponse env ctx call config request target response
            else translateNonstreamResponse env ctx call config request response

end Attempt

end TokenStation
