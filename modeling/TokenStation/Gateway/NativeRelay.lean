import TokenStation.Gateway.Accounting
import TokenStation.Gateway.ProviderCall
import TokenStation.Library.Framing
import TokenStation.Protocol.Utf8

/-!
# Streams that are passed on as they are

A native payload is answered with the upstream's own bytes. The relay cuts them where characters
end, because a read does not, and looks at the lines that pass for usage and for the end of the
answer. It has two forms, one for each dialect.
-/

namespace TokenStation

open Exchange JsonValue Library

/-! ## What passes -/

/-- Where a line ends. -/
def lineEnd (text : List Char) : Option (ℕ × ℕ) :=
  if '\n' ∈ text then some (text.idxOf '\n', 1) else none

/-- The number of bytes of a text. -/
def utf8Length (text : List Char) : ℕ := (text.map Char.utf8Size).sum

def lineCutter : Cutter Char where
  boundary := lineEnd
  bounded := fun {text i n} h ↦ by
    obtain ⟨hmem, hsome⟩ := Option.ite_none_right_eq_some.mp h
    obtain ⟨rfl, rfl⟩ := Prod.mk.inj (Option.some.inj hsome)
    exact ⟨Nat.one_pos, List.idxOf_lt_length_iff.mpr hmem⟩
  stable := fun {text p} more h ↦ by
    obtain ⟨hmem, hsome⟩ := Option.ite_none_right_eq_some.mp h
    rw [lineEnd, if_pos (List.mem_append_left _ hmem), List.idxOf_append_of_mem hmem]
    exact hsome
  prompt := fun {text more i n} h hfit ↦ by
    obtain ⟨hmem, hsome⟩ := Option.ite_none_right_eq_some.mp h
    obtain ⟨rfl, rfl⟩ := Prod.mk.inj (Option.some.inj hsome)
    by_cases htext : '\n' ∈ text
    · rw [lineEnd, if_pos htext, List.idxOf_append_of_mem htext]
    · rw [List.idxOf_append_of_notMem htext] at hfit
      omega

/-- A tap that reads the lines of a text as they arrive. It gives up on a line without an end. -/
structure LineTap (σ : Type) where
  /-- The line that has no end yet. -/
  line : List Char := []
  seen : σ
  abandoned : Bool := false

namespace LineTap

variable {σ : Type}

/-- A single line far beyond any real event. -/
def maxLine : ℕ := 256 * 1024

def withoutCr (line : List Char) : List Char := trimEndMatches (· == '\r') line

/-- `observe` of a chunk. -/
def observe (observeLine : σ → List Char → σ) (tap : LineTap σ) (chunk : List Char) : LineTap σ :=
  if tap.abandoned then tap
  else
    let (lines, rest) := lineCutter.frames (tap.line ++ chunk)
    let seen := (lines.map fun line ↦ withoutCr line.raw).foldl observeLine tap.seen
    if maxLine < utf8Length rest then { line := [], seen, abandoned := true }
    else { line := rest, seen, abandoned := false }

/-- `finish`: the last line may lack its end. -/
def finish (observeLine : σ → List Char → σ) (tap : LineTap σ) : LineTap σ :=
  if tap.abandoned ∨ tap.line = [] then tap
  else { tap with line := [], seen := observeLine tap.seen (withoutCr tap.line) }

end LineTap

/-- The event of a line, if it has one. -/
def lineEvent (parseJson : String → Option JsonValue) (line : List Char) : Option JsonValue :=
  (stripPrefix "data:".toList line).bind fun payload ↦ parseJson (String.ofList (trim payload))

/-- What `AnthropicSseUsageTap` has seen. -/
structure AnthropicSeen where
  usage : Option Usage := none
  sawMessageStop : Bool := false

def AnthropicSeen.observeLine (parseJson : String → Option JsonValue) (seen : AnthropicSeen)
    (line : List Char) : AnthropicSeen :=
  match lineEvent parseJson line with
  | none => seen
  | some event =>
    { usage := nativeObserve seen.usage event
      sawMessageStop :=
        seen.sawMessageStop || (event.member "type").bind asStr == some "message_stop" }

/-- `responses_wire_usage`: an object with no count is not a report. -/
def responsesWireUsage (usage : JsonValue) : Option Usage :=
  let field (name : String) : UInt64 := ((usage.member name).bind asU64).getD 0
  let detail (group name : String) : UInt64 :=
    (((usage.member group).bind (·.member name)).bind asU64).getD 0
  let parsed : Usage :=
    { inputTokens := field "input_tokens"
      outputTokens := field "output_tokens"
      cacheReadTokens := detail "input_tokens_details" "cached_tokens"
      explicitCacheReadTokens := 0
      cacheWriteTokens := 0
      cacheWrite5mTokens := 0
      cacheWrite1hTokens := 0
      reasoningTokens := detail "output_tokens_details" "reasoning_tokens" }
  if parsed ≠ {} then some parsed else none

/-- What `ResponsesSseUsageTap` has seen. -/
structure ResponsesSeen where
  usage : Option Usage := none
  sawTerminal : Bool := false
  successful : Bool := false
  terminalResponse : Option JsonValue := none

namespace ResponsesSeen

def terminalKinds : List String := ["response.completed", "response.failed", "response.incomplete"]

/-- Whether a terminal event reports success. -/
def reportsSuccess (event : JsonValue) : Bool :=
  (event.member "type").bind asStr == some "response.completed"
    && (((event.member "response").bind (·.member "error")).all isNull)
    && (((event.member "response").bind (·.member "status")).all fun status ↦
      status.asStr == some "completed")

def observeLine (parseJson : String → Option JsonValue) (seen : ResponsesSeen) (line : List Char) :
    ResponsesSeen :=
  match lineEvent parseJson line with
  | none => seen
  | some event =>
    let kind := (event.member "type").bind asStr
    let terminal := kind.any (terminalKinds.contains ·)
    { usage :=
        match (((event.member "response").bind (·.member "usage")).or
            (event.member "usage")).bind responsesWireUsage with
        | none => seen.usage
        | some found => some ((seen.usage.getD {}).absorb found)
      sawTerminal := seen.sawTerminal || terminal
      successful := if terminal then reportsSuccess event else seen.successful
      terminalResponse :=
        if utf8Length line ≤ LineTap.maxLine ∧ kind = some "response.completed" then
          event.member "response"
        else seen.terminalResponse }

end ResponsesSeen

/-! ## The world of a native attempt -/

/-- `RawUpstreamError`: a reply that is kept in case the pool runs out. -/
structure RawUpstreamError where
  target : UpstreamModel
  status : ℕ
  body : String

/-- The world, with what native attempts write besides: the parked reply, and the status of the
request's record. -/
structure NativeWorld (W : Type) where
  outer : W
  lastUpstreamError : Option RawUpstreamError := none
  status : ℕ := 0

namespace NativeWorld

variable {W : Type}

/-- The outer world answers. -/
def lift {α : Type} (op : W → α × W) (world : NativeWorld W) : α × NativeWorld W :=
  ((op world.outer).1, { world with outer := (op world.outer).2 })

end NativeWorld

/-- The answers of an environment are the same for native attempts. -/
def Environment.native {W : Type} (env : Environment W) : Environment (NativeWorld W) where
  now := NativeWorld.lift env.now
  tokenReason := NativeWorld.lift env.tokenReason
  deliver reply := NativeWorld.lift (env.deliver reply)
  nextRenderId := NativeWorld.lift env.nextRenderId
  buildHttpRequest config request := NativeWorld.lift (env.buildHttpRequest config request)
  sendProviderCall config descriptor deadline :=
    NativeWorld.lift (env.sendProviderCall config descriptor deadline)
  intoParts response := NativeWorld.lift (env.intoParts response)
  noteAuthoritative upstream response world :=
    { world with outer := env.noteAuthoritative upstream response world.outer }
  mapProviderError config parts := NativeWorld.lift (env.mapProviderError config parts)
  parseResponse config parts := NativeWorld.lift (env.parseResponse config parts)
  parseChunk config data := NativeWorld.lift (env.parseChunk config data)
  finishParser config := NativeWorld.lift (env.finishParser config)
  renderResponse agent response context :=
    NativeWorld.lift (env.renderResponse agent response context)
  renderStreamEvent agent event context :=
    NativeWorld.lift (env.renderStreamEvent agent event context)
  mapInboundError agent error context :=
    NativeWorld.lift (env.mapInboundError agent error context)
  jsonText := env.jsonText
  parseJson := env.parseJson
  replaceCanonicalDocuments := env.replaceCanonicalDocuments
  finishAccounting usage := NativeWorld.lift (env.finishAccounting usage)

/-! ## The relay -/

/-- What a relay watches for, and what it says of a stream that ends badly. -/
structure RelayWatch (σ : Type) where
  start : σ
  observeLine : σ → List Char → σ
  /-- Whether the answer has come to its end. -/
  isComplete : σ → Bool
  usage : σ → Option Usage
  /-- Whether the usage is noted only at the end of the stream. -/
  usageAtEnd : Bool
  truncated : String
  invalidUtf8 : String
  broken : String

section Relay

variable {W σ : Type} (env : Environment W) (ctx : RequestContext) (hasImages : Bool)
  (deadline : ℕ) (watch : RelayWatch σ)

/-- A native reply goes to the client as any other. -/
def nativeEmit (reply : Reply) : StateM (Exchange (NativeWorld W)) Bool :=
  attemptEmit env.native ctx hasImages reply

def nativeEmitCancelled : StateM (Exchange (NativeWorld W)) Unit := do
  let _ ← nativeEmit env ctx hasImages (cancelledReply env.jsonText)

/-- Write a failure into the record. -/
def noteFailure (code : ErrorCode) (status : ℕ → ℕ) : StateM (Exchange (NativeWorld W)) Unit :=
  modify fun exchange ↦
    { exchange with
      errorCode := some code
      world := { exchange.world with status := status exchange.world.status } }

/-- A failure is an error until something has been handed on. -/
def failRelay (committed : Bool) (error : ErrorEnvelope) :
    StateM (Exchange (NativeWorld W)) AttemptResult := do
  if committed then
    noteFailure error.code fun _ ↦ error.httpStatus
    pure (.ok .failedAfterPartial)
  else pure (.error error)

/-- `raw_stream_cancellation`: how a relay ends that is cancelled. -/
def rawStreamCancellation (committed : Bool) :
    StateM (Exchange (NativeWorld W)) (Option AttemptResult) := do
  if ← ask (isCancelled env.native ctx) then
    match ← ask (lifecycleCancellation env.native ctx) with
    | some error => some <$> failRelay committed error
    | none =>
      if !committed then nativeEmitCancelled env ctx hasImages
      pure (some (.ok .clientCancelled))
  else pure none

/-- What `from_utf8_lossy` makes of the beginning of a character. -/
def replacement : Char := Char.ofNat 0xFFFD

def noteUsage (seen : σ) : StateM (Exchange (NativeWorld W)) Unit :=
  match watch.usage seen with
  | none => pure ()
  | some usage => modify fun exchange ↦ { exchange with usage := some usage }

def noteUsageAtEnd (seen : σ) : StateM (Exchange (NativeWorld W)) Unit :=
  if watch.usageAtEnd then noteUsage watch seen else pure ()

/-- Whether the stream came to its end, once all of it has passed. -/
def relayOutcome (committed : Bool) (tap : LineTap σ) :
    StateM (Exchange (NativeWorld W)) (AttemptResult × LineTap σ) := do
  let tap := tap.finish watch.observeLine
  noteUsageAtEnd watch tap.seen
  if watch.isComplete tap.seen then pure (.ok .complete, tap)
  else
    let result ← failRelay committed
      (ErrorEnvelope.new .transportTruncated 502 watch.truncated)
    pure (result, tap)

/-- The end of the stream. What is left over is the beginning of a character. -/
def relayRawEnd (tap : LineTap σ) (committed : Bool) (pending : List UInt8) :
    StateM (Exchange (NativeWorld W)) (AttemptResult × LineTap σ) := do
  if pending = [] then relayOutcome watch committed tap
  else
    let tap := tap.observe watch.observeLine [replacement]
    if ← nativeEmit env ctx hasImages (.chunk (String.ofList [replacement])) then
      relayOutcome watch committed tap
    else pure (.ok .clientCancelled, tap)

/-- A read that failed. -/
def relayReadFailure (tap : LineTap σ) (committed : Bool) :
    StateM (Exchange (NativeWorld W)) (AttemptResult × LineTap σ) := do
  match ← rawStreamCancellation env ctx hasImages committed with
  | some result => pure (result, tap)
  | none =>
    if deadline ≤ (← ask env.native.now) then
      let result ← failRelay committed
        (ErrorEnvelope.new .timeout 504 "upstream attempt deadline exceeded")
      pure (result, tap)
    else if committed then
      noteFailure .transportTruncated fun status ↦ if status < 400 then 502 else status
      pure (.ok .failedAfterPartial, tap)
    else pure (.error (ErrorEnvelope.new .transportTruncated 502 watch.broken), tap)

/-- The head of the stream, before its first chunk. -/
def openRelay (committed : Bool) : StateM (Exchange (NativeWorld W)) Bool :=
  if committed then pure true else nativeEmit env ctx hasImages .beginStream

/-- The stream, read by read. -/
def relayRaw (tap : LineTap σ) (committed : Bool) (pending : List UInt8) :
    List StreamRead → StateM (Exchange (NativeWorld W)) (AttemptResult × LineTap σ)
  | [] => do
    match ← rawStreamCancellation env ctx hasImages committed with
    | some result => pure (result, tap)
    | none => relayRawEnd env ctx hasImages watch tap committed pending
  | read :: reads => do
    match ← rawStreamCancellation env ctx hasImages committed with
    | some result => pure (result, tap)
    | none =>
      match read with
      | .failed _ => relayReadFailure env ctx hasImages deadline watch tap committed
      | .data bytes =>
        if bytes = [] then relayRawEnd env ctx hasImages watch tap committed pending
        else
          let (text, rest) := utf8Decoder.decode (pending ++ bytes)
          if rest ≠ [] ∧ isUnfinished rest = false then
            let result ← failRelay committed
              (ErrorEnvelope.new .providerProtocolError 502 watch.invalidUtf8)
            pure (result, tap)
          else if text = [] then relayRaw tap committed rest reads
          else if ← openRelay env ctx hasImages committed then
            let tap := tap.observe watch.observeLine text
            if ← nativeEmit env ctx hasImages (.chunk (String.ofList text)) then
              relayRaw tap true rest reads
            else pure (.ok .clientCancelled, tap)
          else pure (.ok .clientCancelled, tap)

end Relay

/-! ## The two relays -/

section Relays

variable {W : Type} (env : Environment W) (ctx : RequestContext) (hasImages : Bool)
  (deadline : ℕ)

def anthropicWatch (parseJson : String → Option JsonValue) : RelayWatch AnthropicSeen where
  start := {}
  observeLine := AnthropicSeen.observeLine parseJson
  isComplete := AnthropicSeen.sawMessageStop
  usage := AnthropicSeen.usage
  usageAtEnd := false
  truncated := "upstream Anthropic stream ended before message_stop"
  invalidUtf8 := "upstream stream contains invalid UTF-8"
  broken := "upstream connection broke while streaming"

/-- `relay_raw_sse`: the usage is noted on every way out. -/
def relayRawSse (response : UpstreamResponse) :
    StateM (Exchange (NativeWorld W)) AttemptResult := do
  let watch := anthropicWatch env.parseJson
  let (result, tap) ← relayRaw env ctx hasImages deadline watch { seen := watch.start } false []
    response.body
  noteUsage watch tap.seen
  pure result

def responsesWatch (parseJson : String → Option JsonValue) : RelayWatch ResponsesSeen where
  start := {}
  observeLine := ResponsesSeen.observeLine parseJson
  isComplete := ResponsesSeen.sawTerminal
  usage := ResponsesSeen.usage
  usageAtEnd := true
  truncated := "upstream Responses stream ended before a terminal response event"
  invalidUtf8 := "upstream Responses stream contains invalid UTF-8"
  broken := "upstream connection broke while streaming Responses events"

/-- `relay_responses_sse`: the usage is noted at the end of the stream. -/
def relayResponsesSse (response : UpstreamResponse) :
    StateM (Exchange (NativeWorld W)) AttemptResult := do
  let watch := responsesWatch env.parseJson
  let (result, _) ← relayRaw env ctx hasImages deadline watch { seen := watch.start } false []
    response.body
  pure result

end Relays

end TokenStation
