import TokenStation.Gateway.LossyText
import TokenStation.Library.Runs

/-!
# HTTP traces

A request can be traced: the agent's request and response and each exchange with an upstream are
copied into memory, headers without their secrets and bodies as text. All bodies share a budget, and
no single one may grow beyond a bound of its own. What does not fit is left out, cut where a
character ends, and from then on the body stays as it is.
-/

namespace TokenStation

open Library

/-! ## Snapshots -/

inductive HttpMethod where
  | get
  | post

/-- The name of a method, in capitals. -/
def HttpMethod.name : HttpMethod → String
  | get => "GET"
  | post => "POST"

structure HttpHeaderSnapshot where
  name : String
  value : String
  redacted : Bool

structure HttpRequestSnapshot where
  method : String
  url : String
  headers : List HttpHeaderSnapshot
  body : List Char
  bodyTruncated : Bool

structure HttpResponseSnapshot where
  status : ℕ := 0
  headers : List HttpHeaderSnapshot := []
  body : List Char := []
  bodyTruncated : Bool := false

structure UpstreamHttpExchange where
  ordinal : ℕ
  upstream : String
  model : String
  request : HttpRequestSnapshot
  response : Option HttpResponseSnapshot

structure HttpTraceSnapshot where
  agentRequest : Option HttpRequestSnapshot := none
  upstreamExchanges : List UpstreamHttpExchange := []
  agentResponse : Option HttpResponseSnapshot := none

/-- What a trace copies of a descriptor, besides what the host checks. -/
structure TracedDescriptor extends HttpRequestDescriptor where
  method : HttpMethod
  headers : List (String × String)
  body : Option JsonValue

/-! ## Headers -/

/-- The headers whose values are shown. -/
def safeValueHeaders : List String :=
  ["accept", "accept-encoding", "anthropic-beta", "anthropic-version", "cache-control",
    "content-length", "content-type", "user-agent"]

/-- `RequestContext::captured_headers`. -/
def capturedHeaders (headers : List (String × String)) : List HttpHeaderSnapshot :=
  headers.map fun (name, value) ↦
    let lower := String.ofList (toAsciiLowercase name.toList)
    let redacted := !safeValueHeaders.contains lower
    { name := lower, value := if redacted then "<redacted>" else value, redacted }

/-- The headers in which the host presents a credential. -/
def authNames : Option Auth → List String
  | none => []
  | some (.bearer _) | some (.oauth _ _) => ["authorization"]
  | some (.header name _) => [name]
  | some (.bearerAndHeader name _) => ["authorization", name]

/-! ## Bodies -/

/-- `MAX_BODY_BYTES`. -/
def maxBodyBytes : ℕ := 256 * 1024

/-- `MAX_HTTP_TRACE_BODY_BYTES`. -/
def maxHttpTraceBodyBytes : ℕ := 1024 * 1024

/-- `str::is_char_boundary`. -/
def isCharBoundary : List Char → ℕ → Bool
  | _, 0 => true
  | [], _ + 1 => false
  | c :: text, n + 1 => c.utf8Size ≤ n + 1 && isCharBoundary text (n + 1 - c.utf8Size)

/-- The last boundary that is not behind an index, looked for from there. -/
def charBoundary (text : List Char) : ℕ → ℕ
  | 0 => 0
  | n + 1 => if isCharBoundary text (n + 1) then n + 1 else charBoundary text n

/-- What `append_body` is lent: the budget, and a body with its flag. -/
structure BodyCopy where
  remaining : ℕ
  body : List Char := []
  truncated : Bool := false

/-- `HttpTraceCapture::append_body`. -/
def appendBody (copy : BodyCopy) (value : List UInt8) : BodyCopy :=
  if copy.truncated ∨ value = [] then copy
  else
    let value := fromUtf8Lossy value
    let allowed := min (maxBodyBytes - utf8Length copy.body) copy.remaining
    let boundary := charBoundary value (min allowed (utf8Length value))
    { remaining := copy.remaining - boundary
      -- the boundary is one, so the slice up to it is what fits before it
      body := copy.body ++ fit Char.utf8Size boundary value
      truncated := boundary < utf8Length value }

/-- A writer that stops where the copy would be cut anyway. -/
structure CappedJsonWriter where
  bytes : List UInt8 := []
  limit : ℕ
  truncated : Bool := false

/-- `CappedJsonWriter::write`, and whether it succeeds. -/
def CappedJsonWriter.write (writer : CappedJsonWriter) (value : List UInt8) :
    CappedJsonWriter × Bool :=
  let remaining := writer.limit - writer.bytes.length
  if value.length ≤ remaining then ({ writer with bytes := writer.bytes ++ value }, true)
  else
    ({ writer with bytes := writer.bytes ++ value.take remaining, truncated := true }, false)

/-- The writes of a serializer, which gives up at the first one that fails. -/
def CappedJsonWriter.writeAll : CappedJsonWriter → List (List UInt8) → CappedJsonWriter
  | writer, [] => writer
  | writer, value :: values =>
    match writer.write value with
    | (writer, true) => writeAll writer values
    | (writer, false) => writer

structure HttpTraceCapture where
  snapshot : HttpTraceSnapshot := {}
  remainingBodyBytes : ℕ := maxHttpTraceBodyBytes

namespace HttpTraceCapture

variable (capture : HttpTraceCapture)

/-- `HttpTraceCapture::take_body`. -/
def takeBody (value : List UInt8) : HttpTraceCapture × List Char × Bool :=
  let copy := appendBody { remaining := capture.remainingBodyBytes } value
  ({ capture with remainingBodyBytes := copy.remaining }, copy.body, copy.truncated)

/-! ## What is recorded -/

/-- The last exchange is replaced. -/
def setLastExchange (exchange : UpstreamHttpExchange) : HttpTraceCapture :=
  { capture with snapshot.upstreamExchanges :=
      capture.snapshot.upstreamExchanges.dropLast ++ [exchange] }

def captureAgentRequest (method url : String) (headers : List (String × String))
    (body : List UInt8) : HttpTraceCapture :=
  let (capture, body, bodyTruncated) := capture.takeBody body
  { capture with snapshot.agentRequest := some {
      method, url, headers := capturedHeaders headers, body, bodyTruncated } }

/-- The body is serialized write by write, as `jsonWrites` says. -/
def captureUpstreamRequest (jsonWrites : JsonValue → List (List UInt8)) (upstream model : String)
    (descriptor : TracedDescriptor) : HttpTraceCapture :=
  let headers := descriptor.headers ++
    (authNames descriptor.auth).map fun name ↦ (name, "<redacted>")
  let writer : CappedJsonWriter := { limit := min maxBodyBytes capture.remainingBodyBytes }
  let writer :=
    match descriptor.body with
    | none => writer
    | some value => writer.writeAll (jsonWrites value)
  let (capture, body, budgetTruncated) := capture.takeBody writer.bytes
  let exchange : UpstreamHttpExchange := {
    ordinal := min (capture.snapshot.upstreamExchanges.length + 1) (2 ^ 32 - 1)
    upstream
    model
    request := {
      method := descriptor.method.name
      url := descriptor.url
      headers := capturedHeaders headers
      body
      bodyTruncated := writer.truncated || budgetTruncated }
    response := none }
  { capture with
    snapshot.upstreamExchanges := capture.snapshot.upstreamExchanges ++ [exchange] }

def captureUpstreamResponseHead (status : ℕ) (headers : List (String × String)) :
    HttpTraceCapture :=
  match capture.snapshot.upstreamExchanges.getLast? with
  | none => capture
  | some exchange => capture.setLastExchange
      { exchange with response := some { status, headers := capturedHeaders headers } }

def appendUpstreamResponseBody (value : List UInt8) : HttpTraceCapture :=
  match capture.snapshot.upstreamExchanges.getLast? with
  | none => capture
  | some exchange =>
    match exchange.response with
    | none => capture
    | some response =>
      let copy := appendBody
        { remaining := capture.remainingBodyBytes, body := response.body,
          truncated := response.bodyTruncated } value
      let response := { response with body := copy.body, bodyTruncated := copy.truncated }
      let capture := { capture with remainingBodyBytes := copy.remaining }
      capture.setLastExchange { exchange with response := some response }

def captureAgentResponseHead (status : ℕ) (streaming : Bool) : HttpTraceCapture :=
  let headers : List HttpHeaderSnapshot :=
    if streaming then
      [{ name := "content-type", value := "text/event-stream", redacted := false },
        { name := "cache-control", value := "no-cache", redacted := false }]
    else [{ name := "content-type", value := "application/json", redacted := false }]
  { capture with snapshot.agentResponse := some { status, headers } }

def appendAgentResponseBody (value : List Char) : HttpTraceCapture :=
  match capture.snapshot.agentResponse with
  | none => capture
  | some response =>
    let copy := appendBody
      { remaining := capture.remainingBodyBytes, body := response.body,
        truncated := response.bodyTruncated } (value.flatMap String.utf8EncodeChar)
    { capture with
      remainingBodyBytes := copy.remaining
      snapshot.agentResponse := some
        { response with body := copy.body, bodyTruncated := copy.truncated } }

end HttpTraceCapture

/-! ## Calls -/

/-- What can be called on a context to record something. -/
inductive TraceCall where
  | captureAgentRequest (method url : String) (headers : List (String × String))
    (body : List UInt8)
  | captureUpstreamRequest (upstream model : String) (descriptor : TracedDescriptor)
  | captureUpstreamResponseHead (status : ℕ) (headers : List (String × String))
  | appendUpstreamResponseBody (value : List UInt8)
  | captureAgentResponseHead (status : ℕ) (streaming : Bool)
  | appendAgentResponseBody (value : List Char)

variable (jsonWrites : JsonValue → List (List UInt8))

def HttpTraceCapture.record (capture : HttpTraceCapture) : TraceCall → HttpTraceCapture
  | .captureAgentRequest method url headers body =>
    capture.captureAgentRequest method url headers body
  | .captureUpstreamRequest upstream model descriptor =>
    capture.captureUpstreamRequest jsonWrites upstream model descriptor
  | .captureUpstreamResponseHead status headers =>
    capture.captureUpstreamResponseHead status headers
  | .appendUpstreamResponseBody value => capture.appendUpstreamResponseBody value
  | .captureAgentResponseHead status streaming =>
    capture.captureAgentResponseHead status streaming
  | .appendAgentResponseBody value => capture.appendAgentResponseBody value

/-- A call on a context. Where tracing is not enabled, it records nothing. -/
def recordCall (trace : Option HttpTraceCapture) (call : TraceCall) : Option HttpTraceCapture :=
  trace.map fun capture ↦ capture.record jsonWrites call

end TokenStation
