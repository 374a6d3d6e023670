import TokenStation.Gateway.Fallback
import TokenStation.Gateway.Sse
import TokenStation.Protocol.Json
import TokenStation.Protocol.Provider
import TokenStation.Router.Decision

/-!
# One exchange with an upstream

An attempt runs in a world it does not control: the clock, the client that takes the replies, the
transport, and the adapters that speak each dialect. An `Environment` holds their answers. Each
answer may depend on the whole state of the world and may change it, so a statement about every
environment covers every order of answers.

The gateway's own part of an exchange is what it has handed to the client, whether the client took
it, and the members of the request's record that an attempt writes.
-/

namespace TokenStation

/-- Why a request is cancelled. -/
inductive CancelReason where
  | clientDisconnect
  | serverDrain
  | deadline
  deriving DecidableEq

/-- What a worker hands to the server: one whole answer, or the head of a stream and its chunks. -/
inductive Reply where
  | beginJson (status : ℕ) (body : String)
  | beginStream
  | chunk (data : String)
  deriving DecidableEq

/-- The limits of one request. Times are nanoseconds of a monotonic clock. -/
structure RequestContext where
  deadline : ℕ
  perAttemptTimeout : ℕ

/-- The inbound adapter that claimed the request. -/
structure LoadedAgent where
  protocol : String

/-- Why pulling a stream failed. -/
inductive StreamReadError where
  | streamReadFailed
  | streamIdleTimeout
  | streamDeadlineExceeded
  | streamCancelled
  | chunkNotDeliverable
  deriving DecidableEq

/-- What one read of a response body returns. A body ends after its last read. -/
inductive StreamRead where
  | data (bytes : List UInt8)
  | failed (failure : Option StreamReadError)

/-- An upstream's answer, with the body still unread. -/
structure UpstreamResponse where
  status : ℕ
  body : List StreamRead

/-- An upstream's answer, read to its end. -/
structure HttpResponseParts where
  status : ℕ
  body : String

/-- What an outbound renderer knows about the exchange. -/
structure RenderContext where
  protocol : String
  streamId : Option String := none
  responseId : String
  model : String
  inboundTools : JsonValue
  continuationKey : Option JsonValue
  toolNamespaces : Option JsonValue

/-- The answers of everything outside of the attempt machine. -/
structure Environment (W : Type) where
  now : W → ℕ × W
  /-- The reason that the request's own token, or the server's, carries. -/
  tokenReason : W → Option CancelReason × W
  /-- Whether the client takes a reply. -/
  deliver : Reply → W → Bool × W
  nextRenderId : W → ℕ × W
  /-- `build_http_request` of the provider's adapter. -/
  buildHttpRequest : ProviderConfig → ChatRequest → W →
    Except ErrorEnvelope HttpRequestDescriptor × W
  /-- Send a descriptor within the attempt's deadline. -/
  sendProviderCall : ProviderConfig → HttpRequestDescriptor → ℕ → W →
    Except ErrorEnvelope UpstreamResponse × W
  /-- Read the rest of a body. -/
  intoParts : UpstreamResponse → W → Except ErrorEnvelope HttpResponseParts × W
  /-- Note the limits that the response's headers report. -/
  noteAuthoritative : String → UpstreamResponse → W → W
  mapProviderError : ProviderConfig → HttpResponseParts → W →
    Except ErrorEnvelope ErrorEnvelope × W
  parseResponse : ProviderConfig → HttpResponseParts → W → Except ErrorEnvelope ChatResponse × W
  parseChunk : ProviderConfig → String → W → Except ErrorEnvelope (List StreamEvent) × W
  finishParser : ProviderConfig → W → Except ErrorEnvelope (List StreamEvent) × W
  renderResponse : LoadedAgent → ChatResponse → RenderContext → W →
    Except ErrorEnvelope JsonValue × W
  renderStreamEvent : LoadedAgent → StreamEvent → RenderContext → W →
    Except ErrorEnvelope JsonValue × W
  mapInboundError : LoadedAgent → ErrorEnvelope → Option RenderContext → W →
    Except ErrorEnvelope JsonValue × W
  /-- The text of a document, as it goes on the wire. -/
  jsonText : JsonValue → String
  parseJson : String → Option JsonValue
  /-- Replace the documents that a dialect cannot carry by their text. -/
  replaceCanonicalDocuments : ChatRequest → ChatRequest
  /-- What the accounting tap makes of the usage at the end of an attempt. -/
  finishAccounting : Option Usage → W → Option Usage × W

/-- What an attempt has done so far. -/
structure Exchange (W : Type) where
  world : W
  /-- Every reply handed to the client, and whether it was taken. -/
  emitted : List (Reply × Bool) := []
  outputStarted : Bool := false
  validImageResponse : Bool := true
  upstreamHttpStatus : Option ℕ := none
  usage : Option Usage := none
  errorCode : Option ErrorCode := none

/-! ## Cancellation -/

section Cancellation

variable {W : Type} (env : Environment W) (ctx : RequestContext)

/-- The time left before the deadline. -/
def remaining (world : W) : ℕ × W := ((ctx.deadline - (env.now world).1), (env.now world).2)

/-- A reason on the token wins over a passed deadline. -/
def cancelReason (world : W) : Option CancelReason × W :=
  match env.tokenReason world with
  | (some reason, world) => (some reason, world)
  | (none, world) =>
    match remaining env ctx world with
    | (0, world) => (some .deadline, world)
    | (_, world) => (none, world)

def isCancelled (world : W) : Bool × W := (cancelReason env ctx world).map Option.isSome id

/-- The error of a cancellation that is not the client's. -/
def lifecycleError : Option CancelReason → Option ErrorEnvelope
  | some .serverDrain =>
    some (ErrorEnvelope.new .upstreamUnavailable 503
      "Token Station is restarting. Retry this request.")
  | some .deadline => some (ErrorEnvelope.new .timeout 504 "request deadline exceeded")
  | some .clientDisconnect | none => none

def lifecycleCancellation (world : W) : Option ErrorEnvelope × W :=
  (cancelReason env ctx world).map lifecycleError id

end Cancellation

/-! ## Replies -/

/-- The reply that completes an exchange nobody waits for. -/
def cancelledReply (jsonText : JsonValue → String) : Reply :=
  .beginJson 499 (jsonText (.object [("error", .object [("message", .string "request cancelled"),
    ("type", .string "cancelled"), ("code", .string "client_cancelled")])]))

/-- Whether a body is a finished answer without an error. -/
def completedImageJsonResponse (parseJson : String → Option JsonValue) (body : String) : Bool :=
  (parseJson body).any fun document ↦
    document.isObject && (document.member "error").all JsonValue.isNull
      && (document.member "status").all fun status ↦ status.asStr == some "completed"

namespace Exchange

variable {W : Type}

/-- Let the world answer. -/
def ask {α : Type} (op : W → α × W) : StateM (Exchange W) α := fun exchange ↦
  ((op exchange.world).1, { exchange with world := (op exchange.world).2 })

/-- Hand a reply to the client, and watch what that says about an image attempt. -/
def attemptEmit (env : Environment W) (ctx : RequestContext) (hasImages : Bool) (reply : Reply) :
    StateM (Exchange W) Bool := do
  modify fun exchange ↦ { exchange with outputStarted := true }
  match hasImages, reply with
  | true, .beginJson _ body =>
    modify fun exchange ↦
      { exchange with
        validImageResponse :=
          exchange.validImageResponse && completedImageJsonResponse env.parseJson body }
  | _, _ => pure ()
  -- the cancellation is read before the delivery, which may end the server's own guard
  let cancelled ← ask (isCancelled env ctx)
  modify fun exchange ↦
    { exchange with validImageResponse := exchange.validImageResponse && !cancelled }
  let accepted ← ask (env.deliver reply)
  modify fun exchange ↦
    { exchange with
      emitted := exchange.emitted ++ [(reply, accepted)]
      validImageResponse := exchange.validImageResponse && accepted }
  pure accepted

end Exchange

end TokenStation
