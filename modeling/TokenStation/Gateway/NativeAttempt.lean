import TokenStation.Client.Config
import TokenStation.Gateway.AdmissionSlots
import TokenStation.Gateway.NoReplay
import TokenStation.Protocol.Containment
import TokenStation.Protocol.EndpointRoundTrip

/-!
# Attempts with a native payload

A native payload goes to the upstream as the client wrote it, and a refusal comes back as the
upstream wrote it. A refusal that another upstream may survive is parked instead: the dispatch goes
on, and when no target is left the reply that is still parked answers the request.

The parked reply is one cell that all attempts of a request share. `Parked` ties it to the receipts:
what is in it was put there by the last attempt, which has handed nothing on.
-/

namespace TokenStation

open Exchange JsonValue Library

/-! ## The two dialects -/

/-- The dialect of a payload that is not translated. -/
inductive NativeDialect where
  | anthropic
  | responses
  deriving DecidableEq

structure NativeUpstream where
  config : ProviderConfig
  dialect : ApiDialect

/-- `passthrough_error_code`: a code for the receipt; the client gets the upstream's own words. -/
def passthroughErrorCode (status : ℕ) : ErrorCode :=
  if status = 401 ∨ status = 403 then .auth
  else if status = 429 then .rateLimit
  else if 500 ≤ status then .upstreamUnavailable
  else .invalidRequest

/-- `responses_error_code`: the same table. -/
def responsesErrorCode (status : ℕ) : ErrorCode := passthroughErrorCode status

namespace NativeDialect

def api : NativeDialect → ProviderApi
  | anthropic => .messages
  | responses => .responses

/-- How the credential is presented. -/
def attach : NativeDialect → SecretRef → Auth
  | anthropic, secret => .header "x-api-key" secret
  | responses, secret => .bearer secret

def errorCode : NativeDialect → ℕ → ErrorCode
  | anthropic => passthroughErrorCode
  | responses => responsesErrorCode

def refusal : NativeDialect → String
  | anthropic => "upstream refused the native passthrough"
  | responses => "upstream refused the native Responses request"

/-- Only the Responses payload looks at the dialect of the upstream. -/
def mismatch : NativeDialect → ApiDialect → Option ErrorEnvelope
  | anthropic, _ => none
  | responses, dialect =>
    if dialect = .responsesNative then none
    else some (ErrorEnvelope.new .capability 400
      "native Responses payload requires a responses-native upstream")

def wireUsage : NativeDialect → JsonValue → Option Usage
  | anthropic => anthropicWireUsage
  | responses => responsesWireUsage

def relay {W : Type} (dialect : NativeDialect) (env : Environment W) (ctx : RequestContext)
    (hasImages : Bool) (deadline : ℕ) (response : UpstreamResponse) :
    StateM (Exchange (NativeWorld W)) AttemptResult :=
  match dialect with
  | anthropic => relayRawSse env ctx hasImages deadline response
  | responses => relayResponsesSse env ctx hasImages deadline response

end NativeDialect

/-- The request as the client wrote it. -/
structure NativeCall where
  dialect : NativeDialect
  body : JsonValue
  stream : Bool
  hasImages : Bool

/-- The caller's model is remapped to the routed one, and nothing else changes. -/
def NativeCall.forwarded (call : NativeCall) (target : UpstreamModel) : JsonValue :=
  match call.body with
  | .object members =>
    if members.any (·.1 == "model") then
      .object (members.map fun member ↦
        if member.1 == "model" then ("model", .string target.model) else member)
    else .object (members ++ [("model", .string target.model)])
  | body => body

/-! ## Refusals of images -/

/-- What may hold an image part. -/
def imageHolders : List String := ["messages", "input", "content"]

mutual

/-- `raw_contains_images` -/
def rawContainsImages : JsonValue → Bool
  | .array items => anyContainsImages items
  | .object members =>
    ((JsonValue.object members).member "type").any (fun kind ↦
        ["image", "input_image", "image_url"].any (kind.asStr == some ·)) ||
      holdersContainImages members
  | _ => false

def anyContainsImages : List JsonValue → Bool
  | [] => false
  | item :: items => rawContainsImages item || anyContainsImages items

def holdersContainImages : List (String × JsonValue) → Bool
  | [] => false
  | (key, value) :: members =>
    (imageHolders.contains key && rawContainsImages value) || holdersContainImages members

end

/-- Whether an object classifies its error as something else than a bad request. -/
def classifiedElsewhere (document : JsonValue) : Bool :=
  ["code", "type"].any fun field ↦
    (document.member field).any fun classification ↦
      !classification.isNull &&
        !(["", "invalid_request", "invalid_request_error", "error"].any
          (classification.asStr == some ·))

/-- `native_rejects_image` -/
def nativeRejectsImage (parseJson : String → Option JsonValue) (status : ℕ) (body : String) :
    Bool :=
  (parseJson body).any fun value ↦
    !classifiedElsewhere value && !(value.member "error").any classifiedElsewhere &&
      (((value.member "error").bind (·.member "message")).bind asStr <|>
        (value.member "message").bind asStr).any fun message ↦
          isUnsupportedMediaError (ErrorEnvelope.new .invalidRequest status message)

/-! ## The attempt -/

/-- `send_provider_call` of a descriptor with its body, within the attempt's deadline. -/
abbrev NativeTransport (W : Type) : Type :=
  ProviderConfig → HttpRequestDescriptor → JsonValue → ℕ → W →
    Except ErrorEnvelope UpstreamResponse × W

section Attempt

variable {W : Type} (env : Environment W) (send : NativeTransport W)
  (ctx : RequestContext) (call : NativeCall)

/-- Put a reply into the shared cell, or clear it. -/
def park (reply : Option RawUpstreamError) : StateM (Exchange (NativeWorld W)) Unit :=
  modify fun exchange ↦
    { exchange with world := { exchange.world with lastUpstreamError := reply } }

/-- `into_parts`: the status is the response's own. -/
def nativeParts (response : UpstreamResponse) :
    StateM (Exchange (NativeWorld W)) (Except ErrorEnvelope HttpResponseParts) := do
  match ← ask (env.native.intoParts response) with
  | .error error => pure (.error error)
  | .ok parts => pure (.ok { parts with status := response.status })

/-- Nothing came back. Only a client that left is reported as such. -/
def nativeSendFailure (error : ErrorEnvelope) :
    StateM (Exchange (NativeWorld W)) AttemptResult := do
  if ← ask (isCancelled env.native ctx) then
    if (← ask (cancelReason env.native ctx)) = some .clientDisconnect then
      nativeEmitCancelled env ctx call.hasImages
      pure (.ok .clientCancelled)
    else pure (.error error)
  else pure (.error error)

/-- A refusal: parked when another upstream may survive it, else handed on as it is. -/
def nativeRefusal (target : UpstreamModel) (response : UpstreamResponse) :
    StateM (Exchange (NativeWorld W)) AttemptResult := do
  let code := call.dialect.errorCode response.status
  match ← nativeParts env response with
  | .error error => pure (.error error)
  | .ok parts =>
    if rawContainsImages call.body && nativeRejectsImage env.parseJson parts.status parts.body then
      pure (.error upstreamImageError)
    else if code.isRetriableElsewhere then
      park (some { target, status := parts.status, body := parts.body })
      pure (.error (ErrorEnvelope.new code parts.status call.dialect.refusal))
    else
      noteFailure code fun _ ↦ parts.status
      let _ ← nativeEmit env ctx call.hasImages (.beginJson parts.status parts.body)
      pure (.ok .failedBeforeOutput)

/-- A whole answer goes on as it is, and its usage is read. -/
def nativeWhole (response : UpstreamResponse) :
    StateM (Exchange (NativeWorld W)) AttemptResult := do
  match ← nativeParts env response with
  | .error error => pure (.error error)
  | .ok parts =>
    match ((env.parseJson parts.body).bind (·.member "usage")).bind call.dialect.wireUsage with
    | some usage => modify fun exchange ↦ { exchange with usage := some usage }
    | none => pure ()
    let _ ← nativeEmit env ctx call.hasImages (.beginJson parts.status parts.body)
    pure (.ok .complete)

/-- What the upstream answered. -/
def nativeResponse (deadline : ℕ) (target : UpstreamModel) (response : UpstreamResponse) :
    StateM (Exchange (NativeWorld W)) AttemptResult := do
  modify fun exchange ↦ { exchange with upstreamHttpStatus := some response.status }
  match rejectRedirect response.status with
  | .error error => pure (.error error)
  | .ok () =>
    ask fun world ↦ ((), env.native.noteAuthoritative target.upstream.name response world)
    if 400 ≤ response.status then nativeRefusal env ctx call target response
    else if call.stream then call.dialect.relay env ctx call.hasImages deadline response
    else nativeWhole env ctx call response

def nativeDescriptor (dialect : NativeDialect) (config : ProviderConfig) :
    HttpRequestDescriptor where
  url := config.baseUrl.resolve dialect.api
  auth := config.auth.map dialect.attach

/-- `native_attempt` and `responses_native_attempt`. The cell belongs to the attempt that runs. -/
def nativeCallUpstream (deadline : ℕ) (upstream : NativeUpstream) (target : UpstreamModel) :
    StateM (Exchange (NativeWorld W)) AttemptResult := do
  park none
  match call.dialect.mismatch upstream.dialect with
  | some error => pure (.error error)
  | none =>
    let descriptor := nativeDescriptor call.dialect upstream.config
    match upstream.config.authorize descriptor with
    | .error refusal => pure (.error (ErrorEnvelope.new .internal 500 refusal.text))
    | .ok () =>
      match ← ask (NativeWorld.lift
          (send upstream.config descriptor (call.forwarded target) deadline)) with
      | .error error => nativeSendFailure env ctx call error
      | .ok response => nativeResponse env ctx call deadline target response

/-- `try_upstream_inner` with a native payload: an upstream that is gone is found before the cell is
cleared. -/
def nativeAttempt (upstreams : AList fun _ : String ↦ NativeUpstream) (target : UpstreamModel) :
    StateM (Exchange (NativeWorld W)) AttemptResult := do
  let deadline ← ask (attemptDeadline env.native ctx)
  match upstreams.lookup target.upstream.name with
  | none =>
    pure (.error (ErrorEnvelope.new .internal 500
      s!"upstream `{target.upstream.name}` vanished from configuration"))
  | some upstream => nativeCallUpstream env send ctx call deadline upstream target

end Attempt

/-! ## The request -/

/-- Other requests see nothing of the cell. -/
def Ledgers.native {W : Type} (ledgers : Ledgers W) : Ledgers (NativeWorld W) where
  enterProvider upstream := NativeWorld.lift (ledgers.enterProvider upstream)
  leaveProvider upstream world :=
    { world with outer := ledgers.leaveProvider upstream world.outer }
  grantLease upstream ttl := NativeWorld.lift (ledgers.grantLease upstream ttl)
  releaseLease lease world := { world with outer := ledgers.releaseLease lease world.outer }
  recordSettled upstream receiptId usage completed world :=
    { world with outer := ledgers.recordSettled upstream receiptId usage completed world.outer }
  observe target failure world := { world with outer := ledgers.observe target failure world.outer }
  remember session target world :=
    { world with outer := ledgers.remember session target world.outer }
  updateImageObservations f world :=
    { world with outer := ledgers.updateImageObservations f world.outer }
  waitRetryDelay duration world :=
    { world with outer := ledgers.waitRetryDelay duration world.outer }

section Request

variable {W : Type} (env : Environment W) (ledgers : Ledgers W)
  (send : NativeTransport W)
  (ctx : RequestContext) (call : NativeCall)
  (catalog : List (UpstreamModel × ModelCapability))
  (upstreams : AList fun _ : String ↦ NativeUpstream)

open Dispatch

/-- The pool is exhausted: the reply that is still parked answers the request. A refusal of the
payload itself is the host's own answer. -/
def relayParked (result : DispatchResult) :
    StateM (Dispatch (NativeWorld W)) DispatchResult := do
  let dispatch ← get
  match result, dispatch.world.lastUpstreamError with
  | .error error, some raw =>
    if error.code = .capability then pure result
    else
      updateRecord fun record ↦
        { record with
          status := raw.status
          errorCode := some (call.dialect.errorCode raw.status) }
      let reply := Reply.beginJson raw.status raw.body
      let accepted ← ask (env.native.deliver reply)
      log (.emitted reply accepted)
      pure (.ok (raw.target, .failedBeforeOutput))
  | _, _ => pure result

/-- A Responses payload is only offered to upstreams that speak it, the first target apart. -/
def NativeDialect.decision (dialect : NativeDialect) (decision : Decision) : Decision :=
  match dialect with
  | .anthropic => decision
  | .responses =>
    { decision with
      fallbacks := decision.fallbacks.filter fun target ↦
        (upstreams.lookup target.upstream.name).any (·.dialect = .responsesNative) }

/-- The routed part of a native request. Its attempts write the status of the record. -/
def nativeRoutedRequest (session : String) (decision : Decision) :
    StateM (Dispatch (NativeWorld W)) DispatchResult := do
  let result ← executeRoutedAttempt env.native ledgers.native ctx catalog
    (nativeAttempt env send ctx call upstreams) session (call.dialect.decision upstreams decision)
  modify fun dispatch ↦
    { dispatch with record := { dispatch.record with status := dispatch.world.status } }
  relayParked env call result

end Request

/-! ## The cell during an attempt -/

section Cell

variable {W σ α : Type} {env : Environment W} {ctx : RequestContext} {hasImages : Bool}
  {deadline : ℕ} {watch : RelayWatch σ} {tap : LineTap σ} {committed : Bool}

def Exchange.parked (exchange : Exchange (NativeWorld W)) : Option RawUpstreamError :=
  exchange.world.lastUpstreamError

/-- The computation leaves the cell alone. -/
abbrev LeavesCell (m : StateM (Exchange (NativeWorld W)) α) : Prop := Keeps Exchange.parked m

theorem cancelReason_parked (world : NativeWorld W) :
    (cancelReason env.native ctx world).2.lastUpstreamError = world.lastUpstreamError := by
  rw [cancelReason_native]
  rfl

theorem leavesCell_nativeEmit (reply : Reply) :
    LeavesCell (nativeEmit env ctx hasImages reply) := by
  intro exchange
  have hcancelled := @cancelReason_parked W env ctx exchange.world
  rw [nativeEmit, attemptEmit]
  cases hasImages <;> cases reply <;> exact hcancelled

theorem leavesCell_failRelay (error : ErrorEnvelope) :
    LeavesCell (failRelay committed error : StateM (Exchange (NativeWorld W)) AttemptResult) := by
  cases committed <;> exact fun _ ↦ rfl

theorem leavesCell_rawStreamCancellation :
    LeavesCell (rawStreamCancellation env ctx hasImages committed) := by
  refine Keeps.bind (fun exchange ↦ cancelReason_parked exchange.world) fun cancelled ↦ ?_
  refine Keeps.ite (fun _ ↦ ?_) fun _ ↦ Keeps.pure _
  refine Keeps.bind (fun exchange ↦ cancelReason_parked exchange.world) fun lifecycle ↦ ?_
  cases lifecycle with
  | some error => exact leavesCell_failRelay error
  | none =>
    cases committed with
    | true => exact Keeps.pure _
    | false => exact (leavesCell_nativeEmit _).bind fun _ ↦ Keeps.pure _

theorem leavesCell_noteUsage (seen : σ) :
    LeavesCell (noteUsage watch seen : StateM (Exchange (NativeWorld W)) Unit) := by
  rw [noteUsage]
  cases watch.usage seen <;> exact fun _ ↦ rfl

theorem leavesCell_relayOutcome :
    LeavesCell (relayOutcome watch committed tap :
      StateM (Exchange (NativeWorld W)) (AttemptResult × LineTap σ)) := by
  refine Keeps.bind ?_ fun _ ↦ Keeps.ite (fun _ ↦ Keeps.pure _) fun _ ↦
    (leavesCell_failRelay _).bind fun _ ↦ Keeps.pure _
  exact Keeps.ite (fun _ ↦ leavesCell_noteUsage _) fun _ ↦ Keeps.pure _

theorem leavesCell_relayRawEnd (pending : List UInt8) :
    LeavesCell (relayRawEnd env ctx hasImages watch tap committed pending) := by
  refine Keeps.ite (fun _ ↦ leavesCell_relayOutcome) fun _ ↦ ?_
  refine (leavesCell_nativeEmit _).bind fun accepted ↦ ?_
  exact Keeps.ite (fun _ ↦ leavesCell_relayOutcome) fun _ ↦ Keeps.pure _

theorem leavesCell_relayReadFailure :
    LeavesCell (relayReadFailure env ctx hasImages deadline watch tap committed) := by
  refine leavesCell_rawStreamCancellation.bind fun stopped ↦ ?_
  cases stopped with
  | some result => exact Keeps.pure _
  | none =>
    refine Keeps.bind (fun _ ↦ rfl) fun now ↦ Keeps.ite (fun _ ↦ ?_) fun _ ↦ ?_
    · exact (leavesCell_failRelay _).bind fun _ ↦ Keeps.pure _
    · exact Keeps.ite (fun _ ↦ fun _ ↦ rfl) fun _ ↦ Keeps.pure _

/-- The stream of an answer is no refusal. -/
theorem leavesCell_relayRaw (pending : List UInt8) (reads : List StreamRead) :
    LeavesCell (relayRaw env ctx hasImages deadline watch tap committed pending reads) := by
  induction reads generalizing tap committed pending with
  | nil =>
    refine leavesCell_rawStreamCancellation.bind fun stopped ↦ ?_
    cases stopped with
    | some result => exact Keeps.pure _
    | none => exact leavesCell_relayRawEnd pending
  | cons read reads ih =>
    refine leavesCell_rawStreamCancellation.bind fun stopped ↦ ?_
    cases stopped with
    | some result => exact Keeps.pure _
    | none =>
      cases read with
      | failed failure => exact leavesCell_relayReadFailure
      | data bytes =>
        refine Keeps.ite (fun _ ↦ leavesCell_relayRawEnd pending) fun _ ↦ ?_
        rcases utf8Decoder.decode (pending ++ bytes) with ⟨text, rest⟩
        refine Keeps.ite (fun _ ↦ (leavesCell_failRelay _).bind fun _ ↦ Keeps.pure _) fun _ ↦ ?_
        refine Keeps.ite (fun _ ↦ ih rest) fun _ ↦ ?_
        have hopen : LeavesCell (openRelay env ctx hasImages committed) :=
          Keeps.ite (fun _ ↦ Keeps.pure _) fun _ ↦ leavesCell_nativeEmit _
        refine hopen.bind fun opened ↦ Keeps.ite (fun _ ↦ ?_) fun _ ↦ Keeps.pure _
        refine (leavesCell_nativeEmit _).bind fun accepted ↦ ?_
        exact Keeps.ite (fun _ ↦ ih rest) fun _ ↦ Keeps.pure _

theorem leavesCell_relay (dialect : NativeDialect) (response : UpstreamResponse) :
    LeavesCell (dialect.relay env ctx hasImages deadline response) := by
  cases dialect with
  | anthropic =>
    refine (leavesCell_relayRaw [] response.body).bind fun ended ↦ ?_
    exact (leavesCell_noteUsage ended.2.seen).bind fun _ ↦ Keeps.pure _
  | responses => exact (leavesCell_relayRaw [] response.body).bind fun _ ↦ Keeps.pure _

end Cell

/-! ### What an attempt parks -/

section Parks

variable {W : Type} {env : Environment W}
  {send : NativeTransport W}
  {ctx : RequestContext} {call : NativeCall} {target : UpstreamModel}

/-- What an attempt leaves in the cell is its own refusal, before anything was handed on. -/
def AttemptParks (call : NativeCall) (target : UpstreamModel) (result : AttemptResult)
    (exchange : Exchange (NativeWorld W)) : Prop :=
  ∀ raw ∈ exchange.parked, raw.target = target ∧ exchange.upstreamHttpStatus = some raw.status ∧
    exchange.emitted = [] ∧ exchange.outputStarted = false ∧
      (call.dialect.errorCode raw.status).isRetriableElsewhere = true ∧
        result = .error (ErrorEnvelope.new (call.dialect.errorCode raw.status) raw.status
          call.dialect.refusal)

/-- Nothing has been handed on. -/
def Fresh (exchange : Exchange (NativeWorld W)) : Prop :=
  exchange.emitted = [] ∧ exchange.outputStarted = false

/-- A step that leaves an empty cell alone parks nothing. -/
theorem attemptParks_of_leavesCell {P : Exchange (NativeWorld W) → Prop}
    {m : StateM (Exchange (NativeWorld W)) AttemptResult} (h : LeavesCell m) :
    Triple (fun exchange ↦ exchange.parked = none ∧ P exchange) m (AttemptParks call target) := by
  rintro exchange ⟨hnone, -⟩ raw hraw
  rw [h exchange, hnone] at hraw
  nomatch hraw

theorem nativeRefusal_parks (response : UpstreamResponse) :
    Triple (fun exchange ↦ exchange.parked = none ∧ Fresh exchange ∧
        exchange.upstreamHttpStatus = some response.status)
      (nativeRefusal env ctx call target response) (AttemptParks call target) := by
  rintro exchange hstart
  have hparts : Triple (fun exchange : Exchange (NativeWorld W) ↦ exchange.parked = none ∧
        Fresh exchange ∧ exchange.upstreamHttpStatus = some response.status)
      (nativeParts env response) fun parts exchange ↦
        (∀ read, parts = .ok read → read.status = response.status) ∧ exchange.parked = none ∧
          Fresh exchange ∧ exchange.upstreamHttpStatus = some response.status := by
    refine Triple.bind (R := fun _ exchange ↦ exchange.parked = none ∧ Fresh exchange ∧
      exchange.upstreamHttpStatus = some response.status) (fun _ h ↦ h) fun parts ↦ ?_
    cases parts with
    | error error => exact Triple.pure fun _ h ↦ ⟨nofun, h⟩
    | ok parts => exact Triple.pure fun _ h ↦ ⟨fun read hread ↦ by rw [← Except.ok.inj hread], h⟩
  refine Triple.bind hparts (fun parts ↦ Triple.ofAnd fun hstatus ↦ ?_) exchange hstart
  cases parts with
  | error error => exact attemptParks_of_leavesCell (Keeps.pure _)
  | ok parts =>
    have hown := hstatus parts rfl
    refine Triple.ite (fun _ ↦ attemptParks_of_leavesCell (Keeps.pure _)) fun _ ↦ ?_
    refine Triple.ite (fun hretriable ↦ ?_) fun _ ↦ attemptParks_of_leavesCell ?_
    · rintro exchange ⟨-, ⟨hemitted, hstarted⟩, hhttp⟩ raw hraw
      obtain rfl : ({ target, status := parts.status, body := parts.body } : RawUpstreamError) =
        raw := Option.some.inj hraw
      rw [← hown] at hretriable hhttp ⊢
      exact ⟨rfl, hhttp, hemitted, hstarted, hretriable, rfl⟩
    · refine Keeps.bind (fun _ ↦ rfl) fun _ ↦ ?_
      exact (leavesCell_nativeEmit _).bind fun _ ↦ Keeps.pure _

theorem leavesCell_nativeWhole (response : UpstreamResponse) :
    LeavesCell (nativeWhole env ctx call response) := by
  have hparts : LeavesCell (nativeParts env response) := by
    refine Keeps.bind (fun _ ↦ rfl) fun parts ↦ ?_
    cases parts <;> exact Keeps.pure _
  refine hparts.bind fun parts ↦ ?_
  cases parts with
  | error error => exact Keeps.pure _
  | ok parts =>
    have hemit : LeavesCell (nativeEmit env ctx call.hasImages (.beginJson parts.status parts.body)
        >>= fun _ ↦ pure (.ok .complete : AttemptResult)) :=
      (leavesCell_nativeEmit _).bind fun _ ↦ Keeps.pure _
    dsimp only
    split
    · exact Keeps.bind (fun _ ↦ rfl) fun _ ↦ hemit
    · exact hemit

theorem nativeResponse_parks (deadline : ℕ) (response : UpstreamResponse) :
    Triple (fun exchange ↦ exchange.parked = none ∧ Fresh exchange)
      (nativeResponse env ctx call deadline target response) (AttemptParks call target) := by
  refine Triple.bind (R := fun _ exchange ↦ exchange.parked = none ∧ Fresh exchange ∧
    exchange.upstreamHttpStatus = some response.status) (fun _ h ↦ ⟨h.1, h.2, rfl⟩) fun _ ↦ ?_
  cases rejectRedirect response.status with
  | error error => exact attemptParks_of_leavesCell (Keeps.pure _)
  | ok _ =>
    refine Triple.bind (R := fun _ exchange ↦ exchange.parked = none ∧ Fresh exchange ∧
      exchange.upstreamHttpStatus = some response.status) (fun _ h ↦ h) fun _ ↦ ?_
    refine Triple.ite (fun _ ↦ nativeRefusal_parks response) fun _ ↦ Triple.ite (fun _ ↦ ?_) ?_
    · exact attemptParks_of_leavesCell (leavesCell_relay call.dialect response)
    · exact fun _ ↦ attemptParks_of_leavesCell (leavesCell_nativeWhole response)

theorem leavesCell_nativeSendFailure (error : ErrorEnvelope) :
    LeavesCell (nativeSendFailure env ctx call error) := by
  refine Keeps.bind (fun exchange ↦ cancelReason_parked exchange.world) fun cancelled ↦ ?_
  refine Keeps.ite (fun _ ↦ ?_) fun _ ↦ Keeps.pure _
  refine Keeps.bind (fun exchange ↦ cancelReason_parked exchange.world) fun reason ↦ ?_
  refine Keeps.ite (fun _ ↦ ?_) fun _ ↦ Keeps.pure _
  exact (leavesCell_nativeEmit _).bind fun _ ↦ Keeps.pure _

/-- An attempt that finds its upstream leaves nothing of an earlier one in the cell. -/
theorem nativeAttempt_parks {upstreams : AList fun _ : String ↦ NativeUpstream}
    (hconfigured : (upstreams.lookup target.upstream.name).isSome = true) :
    Triple Fresh (nativeAttempt env send ctx call upstreams target) (AttemptParks call target) := by
  obtain ⟨upstream, hlookup⟩ := Option.isSome_iff_exists.mp hconfigured
  refine Triple.bind (R := fun _ ↦ Fresh) (fun _ h ↦ h) fun deadline ↦ ?_
  rw [hlookup]
  refine Triple.bind (R := fun _ exchange ↦ exchange.parked = none ∧ Fresh exchange)
    (fun _ h ↦ ⟨rfl, h⟩) fun _ ↦ ?_
  cases call.dialect.mismatch upstream.dialect with
  | some error => exact attemptParks_of_leavesCell (Keeps.pure _)
  | none =>
    dsimp only
    cases upstream.config.authorize (nativeDescriptor call.dialect upstream.config) with
    | error refusal => exact attemptParks_of_leavesCell (Keeps.pure _)
    | ok _ =>
      refine Triple.bind (R := fun _ exchange ↦ exchange.parked = none ∧ Fresh exchange)
        (fun _ h ↦ h) fun response ↦ ?_
      cases response with
      | error error => exact attemptParks_of_leavesCell (leavesCell_nativeSendFailure error)
      | ok response => exact nativeResponse_parks deadline response

end Parks

/-! ## The cell during a dispatch -/

section Dispatches

variable {W α : Type} {env : Environment W} {ledgers : Ledgers W}
  {send : NativeTransport W}
  {ctx : RequestContext} {call : NativeCall} {catalog : List (UpstreamModel × ModelCapability)}
  {hasImages : Bool} {upstreams : AList fun _ : String ↦ NativeUpstream}
  {attempt : UpstreamModel → StateM (Exchange (NativeWorld W)) AttemptResult}

open Dispatch

/-- The parked reply, and the receipts so far. -/
def Dispatch.parkedReceipts (dispatch : Dispatch (NativeWorld W)) :
    Option RawUpstreamError × List AttemptRecord :=
  (dispatch.world.lastUpstreamError, dispatch.record.attemptRecords)

/-- The parked reply is the refusal that the last receipt is about. -/
def ParkedByLast (call : NativeCall) (state : Option RawUpstreamError × List AttemptRecord) :
    Prop :=
  ∀ raw ∈ state.1, ∃ last ∈ state.2.getLast?, last.target = raw.target ∧
    last.httpStatus = some raw.status ∧
      last.errorCode = some (call.dialect.errorCode raw.status) ∧ last.fallbackAllowed = true

abbrev LeavesReceipts (m : StateM (Dispatch (NativeWorld W)) α) : Prop :=
  Keeps Dispatch.parkedReceipts m

theorem leavesReceipts_cancelReason {β : Type} (f : Option CancelReason → β) :
    LeavesReceipts (ask fun world ↦ (cancelReason env.native ctx world).map f id) :=
  fun dispatch ↦ Prod.ext (cancelReason_parked dispatch.world) rfl

theorem leavesReceipts_tryBegin (budget : AttemptBudget) (estimatedCost : Option UInt64) :
    LeavesReceipts (ask (budget.tryBegin env.native estimatedCost)) := by
  intro dispatch
  refine Prod.ext ?_ rfl
  show (budget.tryBegin env.native estimatedCost dispatch.world).2.lastUpstreamError = _
  rw [AttemptBudget.tryBegin]
  split
  · rfl
  · split
    next world hspent => rw [← congrArg Prod.snd hspent]; rfl
    next left world _ hleft => rw [← congrArg Prod.snd hleft]; rfl

theorem leavesReceipts_observeImageAttempt (target : UpstreamModel)
    (exchange : Exchange (NativeWorld W)) (result : AttemptResult) :
    LeavesReceipts (observeImageAttempt env.native ledgers.native ctx catalog hasImages target
      exchange result) := by
  have hobservation : LeavesReceipts (imageObservation env.native ctx exchange result) := by
    cases result with
    | error error => exact (leavesReceipts_cancelReason Option.isSome).bind fun _ ↦ Keeps.pure _
    | ok outcome => exact Keeps.pure _
  refine Keeps.ite (fun _ ↦ hobservation.bind fun observation ↦ ?_) fun _ ↦ Keeps.pure _
  cases observation with
  | none => exact Keeps.pure _
  | some state => exact Keeps.ite (fun _ _ ↦ rfl) fun _ ↦ Keeps.pure _

theorem leavesReceipts_waitForRetry (budget : AttemptBudget) (error : ErrorEnvelope)
    (targetsLeft : Bool) :
    LeavesReceipts (waitForRetry env.native ledgers.native ctx budget error targetsLeft) := by
  rw [waitForRetry]
  split
  · exact Keeps.pure _
  · refine Keeps.ite (fun _ ↦ Keeps.bind (fun _ ↦ rfl) fun wait ↦ ?_) fun _ ↦ Keeps.pure _
    refine Keeps.ite (fun _ ↦ ?_) fun _ ↦ Keeps.pure _
    refine (leavesReceipts_cancelReason Option.isSome).bind fun cancelled ↦ ?_
    exact Keeps.ite (fun _ ↦ Keeps.pure _) fun _ _ ↦ rfl

theorem leavesReceipts_cancelBeforeAttempt (target : UpstreamModel) :
    LeavesReceipts (cancelBeforeAttempt env.native ctx target) := by
  refine (leavesReceipts_cancelReason lifecycleError).bind fun lifecycle ↦ ?_
  cases lifecycle with
  | some error => exact Keeps.pure _
  | none => exact fun _ ↦ rfl

theorem refusal_not_statement (dialect : NativeDialect) :
    (imageRefusalStatements.any fun known ↦
      known.toList == trimEndMatches (fun c ↦ c == '.' || c == '!')
        (trim ((stripPrefix "kiro:".toList (trim (toAsciiLowercase dialect.refusal.toList))).getD
          (trim (toAsciiLowercase dialect.refusal.toList))))) = false := by
  cases dialect <;> decide +kernel

/-- No image refusal is read into the words of a native refusal. -/
theorem attemptError_refusal {status : ℕ} (code : ErrorCode)
    (hretriable : code.isRetriableElsewhere = true) :
    attemptError hasImages false (ErrorEnvelope.new code status call.dialect.refusal) =
      ErrorEnvelope.new code status call.dialect.refusal := by
  have hmedia :
      isUnsupportedMediaError (ErrorEnvelope.new code status call.dialect.refusal) = false := by
    rw [isUnsupportedMediaError]
    split
    · rfl
    split
    · rfl
    · dsimp only
      split
      · rfl
      · exact refusal_not_statement call.dialect
  have hguidance : imageRequestGuidance (ErrorEnvelope.new code status call.dialect.refusal) =
      ErrorEnvelope.new code status call.dialect.refusal := by
    refine if_neg fun hboth ↦ ?_
    rw [show code = .invalidRequest from hboth.1] at hretriable
    nomatch hretriable
  rw [attemptError, hmedia, hguidance]
  simp

theorem attemptFallbackAllowed_refusal {status : ℕ} {message : String} (code : ErrorCode)
    (hretriable : code.isRetriableElsewhere = true) :
    attemptFallbackAllowed (ErrorEnvelope.new code status message) = true := by
  have hmark : isMarked (ErrorEnvelope.new code status message) noAttemptFallbackExtension =
      false := rfl
  have hcode : (ErrorEnvelope.new code status message).code = code := rfl
  rw [attemptFallbackAllowed, hmark, hcode, hretriable]
  rfl

/-- The receipt of an attempt is about the reply that it parked. -/
theorem runAttempt_parks {target : UpstreamModel}
    (hattempt : Triple Fresh (attempt target) (AttemptParks call target)) (ordinal : ℕ) :
    Triple (fun _ ↦ True)
      (runAttempt env.native ledgers.native ctx catalog hasImages attempt target ordinal)
      fun _ dispatch ↦ ParkedByLast call dispatch.parkedReceipts := by
  have hanything : ∀ {β : Type} (m : StateM (Dispatch (NativeWorld W)) β),
      Triple (fun _ ↦ True) m fun _ _ ↦ True := fun _ _ _ ↦ trivial
  refine Triple.bind (hanything _) fun _ ↦ Triple.bind (hanything _) fun lease ↦ ?_
  refine Triple.bind (hanything _) fun _ ↦ Triple.bind (hanything _) fun _ ↦ ?_
  refine Triple.bind (hanything _) fun _ ↦ ?_
  have htry : Triple (fun _ ↦ True)
      (tryUpstream env.native ledgers.native attempt target) fun answer dispatch ↦
        AttemptParks call target answer.1 answer.2 ∧
          dispatch.world.lastUpstreamError = answer.2.parked :=
    fun dispatch _ ↦ ⟨hattempt _ ⟨rfl, rfl⟩, rfl⟩
  refine Triple.bind htry ?_
  rintro ⟨raw, exchange⟩
  refine Triple.ofAnd fun hparks ↦ Triple.bind
    ((leavesReceipts_observeImageAttempt target exchange _).frame (·.1 = exchange.parked)) ?_
  rintro - dispatch hcell reply hreply
  have hreply' : reply ∈ exchange.parked := by rwa [← hcell]
  obtain ⟨htarget, hhttp, -, hstarted, hretriable, hresult⟩ := hparks reply hreply'
  refine ⟨_, List.getLast?_concat, ?_⟩
  rw [show raw = _ from hresult, hstarted]
  simp only [Except.mapError, attemptError_refusal _ hretriable]
  refine ⟨?_, hhttp, rfl, attemptFallbackAllowed_refusal _ hretriable⟩
  rw [attemptReceipt_target, htarget]

theorem dispatchTargets_parks {targets : List UpstreamModel}
    (hattempt : ∀ target ∈ targets, Triple Fresh (attempt target) (AttemptParks call target))
    (budget : AttemptBudget) (lastError : Option ErrorEnvelope) :
    Triple (fun dispatch ↦ ParkedByLast call dispatch.parkedReceipts)
      (dispatchTargets env.native ledgers.native ctx catalog hasImages attempt budget lastError
        targets)
      fun _ dispatch ↦ ParkedByLast call dispatch.parkedReceipts := by
  induction targets generalizing budget lastError with
  | nil => exact Triple.pure fun _ h ↦ h
  | cons target targets ih =>
    have hrest := ih fun other hother ↦ hattempt other (List.mem_cons_of_mem _ hother)
    have hclose : ∀ lease (result : DispatchResult),
        Triple (fun dispatch ↦ ParkedByLast call dispatch.parkedReceipts)
          (closeAttempt ledgers.native target lease >>= fun _ ↦ pure result)
          fun _ dispatch ↦ ParkedByLast call dispatch.parkedReceipts := fun lease result _ h ↦ h
    have hkeep : ∀ {β : Type} {m : StateM (Dispatch (NativeWorld W)) β}, LeavesReceipts m →
        Triple (fun dispatch ↦ ParkedByLast call dispatch.parkedReceipts) m
          fun _ dispatch ↦ ParkedByLast call dispatch.parkedReceipts := fun h ↦
      h.frame (ParkedByLast call)
    refine Triple.bind (hkeep fun _ ↦ rfl) fun _ ↦
      Triple.bind (hkeep (leavesReceipts_cancelReason Option.isSome)) fun cancelled ↦ ?_
    refine Triple.ite (fun _ ↦ ?_) fun _ ↦ Triple.bind (hkeep fun _ ↦ rfl) fun admitted ↦ ?_
    · exact hkeep (leavesReceipts_cancelBeforeAttempt target)
    refine Triple.ite (fun _ ↦ Triple.bind (hkeep fun _ ↦ rfl) fun _ ↦ ?_) fun _ ↦
      Triple.bind (hkeep fun _ ↦ rfl) fun _ ↦ hrest _ _
    refine Triple.bind (hkeep (leavesReceipts_tryBegin budget none)) fun begun ↦ ?_
    cases begun with
    | none => exact hkeep fun _ ↦ rfl
    | some next =>
      -- whatever was parked before, the attempt has the cell for itself
      refine Triple.bind ((runAttempt_parks (hattempt target List.mem_cons_self) _).weaken
        (fun _ _ ↦ trivial) fun _ _ h ↦ h) ?_
      rintro ⟨result, lease⟩
      cases result with
      | ok outcome => exact hclose lease _
      | error failure =>
        refine Triple.bind (hkeep (leavesReceipts_cancelReason lifecycleError)) fun lifecycle ↦ ?_
        cases lifecycle with
        | some lifecycle => exact hclose lease _
        | none =>
          refine Triple.bind (hkeep fun _ ↦ rfl) fun _ ↦
            Triple.ite (fun _ ↦ ?_) fun _ ↦ hclose lease _
          refine Triple.bind (hkeep fun _ ↦ rfl) fun _ ↦
            Triple.bind (hkeep (leavesReceipts_waitForRetry _ _ _)) fun _ ↦ ?_
          exact Triple.bind (hkeep fun _ ↦ rfl) fun _ ↦ hrest _ _

/-- The pool's own end, and what it leaves in the cell and in the ledgers. -/
theorem executeRoutedAttempt_run {Post : AttemptResult → List (Reply × Bool) → Prop}
    (hattempt : ∀ target, Triple (fun exchange ↦ exchange.emitted = []) (attempt target)
      fun result exchange ↦ Post result exchange.emitted) {decision : Decision}
    (hparks : ∀ target ∈ decision.targets,
      Triple Fresh (attempt target) (AttemptParks call target))
    (session requestId : String) (outer : W) :
    let routed := executeRoutedAttempt env.native ledgers.native ctx catalog attempt session
      decision { world := { outer }, record := { requestId } }
    ∃ records, Run requestId Post 0 decision.targets records routed.2.events routed.1 ∧
      routed.2.record.attemptRecords = records ∧ ParkedByLast call routed.2.parkedReceipts := by
  intro routed
  let start : Dispatch (NativeWorld W) := { world := { outer }, record := { requestId } }
  let answer := dispatch env.native ledgers.native ctx catalog attempt decision start
  obtain ⟨records, trace, hrun, -, hrecords, hevents, -⟩ :=
    dispatch_run env.native ledgers.native ctx catalog Post hattempt decision start
      ⟨rfl, rfl, rfl, rfl⟩
  have hparked : ParkedByLast call answer.2.parkedReceipts :=
    dispatchTargets_parks hparks _ none _ nofun
  have hsettle : ∀ result : DispatchResult, Keeps
      (fun dispatch : Dispatch (NativeWorld W) ↦ (dispatch.parkedReceipts, dispatch.events))
      (settleQuota ledgers.native session result) := by
    rintro (error | answer)
    · exact Keeps.bind (fun _ ↦ rfl) fun _ ↦ Keeps.pure _
    · exact Keeps.bind (fun _ ↦ rfl) fun _ ↦ Keeps.ite (fun _ _ ↦ rfl) fun _ ↦ Keeps.pure _
  obtain ⟨hreceipts, hsame⟩ := Prod.mk.inj (hsettle answer.1 answer.2)
  refine ⟨records, ?_, (congrArg Prod.snd hreceipts).trans hrecords, hreceipts ▸ hparked⟩
  rw [show routed.2.events = trace from hsame.trans hevents]
  exact hrun

/-- Either the pool's own end stands, or the parked reply takes its place. -/
theorem relayParked_cases (result : DispatchResult) (dispatch : Dispatch (NativeWorld W)) :
    relayParked env call result dispatch = (result, dispatch) ∨
      ∃ error raw accepted final, result = .error error ∧ error.code ≠ .capability ∧
        dispatch.world.lastUpstreamError = some raw ∧
        relayParked env call result dispatch = (.ok (raw.target, .failedBeforeOutput), final) ∧
        final.record = { dispatch.record with
          status := raw.status
          errorCode := some (call.dialect.errorCode raw.status) } ∧
        final.events = dispatch.events ++ [.emitted (.beginJson raw.status raw.body) accepted] := by
  cases result with
  | ok answer => exact .inl rfl
  | error error =>
    obtain ⟨⟨outer, parked, status⟩, record, events⟩ := dispatch
    cases parked with
    | none => exact .inl rfl
    | some raw =>
      by_cases hcode : error.code = .capability
      · exact .inl (congrFun (if_pos hcode) _)
      · exact .inr ⟨error, raw, _, _, rfl, hcode, rfl, congrFun (if_neg hcode) _, rfl, rfl⟩

end Dispatches

/-! ## The reply of an exhausted pool -/

section Request

variable {W : Type} (env : Environment W) (ledgers : Ledgers W)
  (send : NativeTransport W)
  (ctx : RequestContext) (call : NativeCall)
  (catalog : List (UpstreamModel × ModelCapability))
  (upstreams : AList fun _ : String ↦ NativeUpstream)

/-- The targets of the routed decision are targets of the decision. -/
theorem NativeDialect.decision_targets (dialect : NativeDialect) {decision : Decision}
    {target : UpstreamModel} (h : target ∈ (dialect.decision upstreams decision).targets) :
    target ∈ decision.targets := by
  cases dialect with
  | anthropic => exact h
  | responses =>
    rcases List.mem_cons.mp h with rfl | hfallback
    · exact List.mem_cons_self
    · exact List.mem_cons_of_mem _ (List.mem_filter.mp hfallback).1

theorem nativeRoutedRequest_run (session requestId : String) (decision : Decision) (outer : W)
    (hconfigured : ∀ target ∈ decision.targets,
      (upstreams.lookup target.upstream.name).isSome = true)
    (Post : AttemptResult → List (Reply × Bool) → Prop)
    (hattempt : ∀ target, Triple (fun exchange ↦ exchange.emitted = [])
      (nativeAttempt env send ctx call upstreams target)
      fun result exchange ↦ Post result exchange.emitted) :
    let start : Dispatch (NativeWorld W) := { world := { outer }, record := { requestId } }
    let routed := executeRoutedAttempt env.native ledgers.native ctx catalog
      (nativeAttempt env send ctx call upstreams) session (call.dialect.decision upstreams decision)
      start
    let answer := nativeRoutedRequest env ledgers send ctx call catalog upstreams session decision
      start
    ∃ targets records, Run requestId Post 0 targets records routed.2.events routed.1 ∧
      answer.2.record.attemptRecords = records ∧
      ((answer.1 = routed.1 ∧ answer.2.events = routed.2.events) ∨
        ∃ error last status body accepted, routed.1 = .error error ∧ error.code ≠ .capability ∧
          records.getLast? = some last ∧ answer.1 = .ok (last.target, .failedBeforeOutput) ∧
          last.httpStatus = some status ∧ last.fallbackAllowed = true ∧
          answer.2.record.status = status ∧ answer.2.record.errorCode = last.errorCode ∧
          answer.2.events = routed.2.events ++ [.emitted (.beginJson status body) accepted]) := by
  intro start routed answer
  obtain ⟨records, hrun, hrecords, hparked⟩ := executeRoutedAttempt_run hattempt
    (fun target htarget ↦ nativeAttempt_parks
      (hconfigured target (call.dialect.decision_targets upstreams htarget)))
    session requestId outer
  refine ⟨_, records, hrun, ?_⟩
  have hanswer : answer = relayParked env call routed.1 { routed.2 with
      record := { routed.2.record with status := routed.2.world.status } } := rfl
  rcases relayParked_cases routed.1 { routed.2 with
      record := { routed.2.record with status := routed.2.world.status } } with
    hsame | ⟨error, raw, accepted, final, hresult, hcode, hcell, hrelayed, hrecord, hevents⟩
  · rw [hanswer, hsame]
    exact ⟨hrecords, .inl ⟨rfl, rfl⟩⟩
  · obtain ⟨last, hlast, htarget, hhttp, herror, hallowed⟩ := hparked raw hcell
    rw [hanswer, hrelayed, hrecord, hevents]
    refine ⟨hrecords, .inr ⟨error, last, raw.status, raw.body, accepted, hresult, hcode, ?_, ?_,
      hhttp, hallowed, rfl, herror.symm, rfl⟩⟩
    · rw [← hrecords]
      exact hlast
    · rw [htarget]

end Request

/-! ## Verdicts -/

section Verdicts

variable {Post : AttemptResult → List (Reply × Bool) → Prop} {requestId : String} {started : ℕ}
  {targets : List UpstreamModel} {records : List AttemptRecord} {events : List Event}
  {result : DispatchResult}

/-- Each attempt has one verdict, the last one perhaps none. -/
def OneVerdictEach (events : List Event) : Prop :=
  observations events = ((calls events).map Prod.snd).dropLast ∨
    observations events = (calls events).map Prod.snd

/-- An attempt itself gives no verdict. -/
theorem AttemptTrace.observations_before {ordinal : ℕ} {target : UpstreamModel}
    (attempt : AttemptTrace Post ordinal target) (rest : List Event) :
    observations (.visited target :: .entered target :: attempt.events requestId ++ rest) =
      observations rest := by
  have hnone : (attempt.events requestId).filterMap Event.observation? = [] :=
    attempt.filterMap_events (fun _ _ ↦ rfl) fun _ ↦ rfl
  rw [observations, List.filterMap_append, List.filterMap_cons_none rfl,
    List.filterMap_cons_none rfl, hnone, List.nil_append, observations]

/-- A failure that is fallen over from has its verdict before the next attempt. -/
theorem AttemptTrace.observations_retried {ordinal : ℕ} {target : UpstreamModel}
    (attempt : AttemptTrace Post ordinal target) (observed : ErrorEnvelope) (wait : Option ℕ)
    (events : List Event) :
    observations (.visited target :: .entered target :: attempt.events requestId ++
      [.observed target (some observed), .released attempt.lease] ++ wait.toList.map .waited ++
      [.left target] ++ events) = target :: observations events := by
  rw [List.append_assoc, List.append_assoc, List.append_assoc, attempt.observations_before]
  cases wait <;> rfl

theorem Run.oneVerdictEach (h : Run requestId Post started targets records events result) :
    OneVerdictEach events := by
  have htargets : (calls events).map Prod.snd = records.map AttemptRecord.target := by
    rw [h.calls_eq, List.map_map]
    rfl
  rw [OneVerdictEach, htargets]
  clear htargets
  induction h with
  | exhausted | drained | disconnected | spent => exact .inl rfl
  | refused rest ih => exact ih
  | answered attempt => exact .inl (attempt.observations_before _)
  | failed attempt budget raw error failure observed =>
    rw [List.append_assoc, attempt.observations_before, List.map_singleton, attempt.target_eq]
    cases observed with
    | none => exact .inl rfl
    | some error => exact .inr rfl
  | @retried _ _ _ records _ _ attempt budget raw observed failure allowed wait rest ih =>
    rw [attempt.observations_retried, List.map_cons, attempt.target_eq]
    rcases ih with hlast | hall
    · rw [hlast]
      by_cases hrecords : records = []
      · -- the failure was the last attempt
        exact .inr (by rw [hrecords]; rfl)
      · exact .inl (List.dropLast_cons_of_ne_nil (by simpa using hrecords)).symm
    · exact .inr (by rw [hall])

/-- An attempt that ended the dispatch with an outcome of its own has no verdict yet. -/
theorem Run.observations_of_ok {served : UpstreamModel} {outcome : StreamOutcome}
    (h : Run requestId Post started targets records events (.ok (served, outcome)))
    (houtcome : outcome ≠ .clientCancelled) :
    ∃ earlier last, records = earlier ++ [last] ∧ last.target = served ∧
      observations events = earlier.map AttemptRecord.target := by
  generalize hresult : (Except.ok (served, outcome) : DispatchResult) = result at h
  induction h with
  | exhausted | drained | spent | failed => nomatch hresult
  | disconnected => exact absurd (Prod.mk.inj (Except.ok.inj hresult)).2 houtcome
  | refused rest ih => exact ih hresult
  | answered attempt budget outcome' =>
    refine ⟨[], attempt.record, rfl, ?_, attempt.observations_before _⟩
    rw [attempt.target_eq, (Prod.mk.inj (Except.ok.inj hresult)).1]
  | retried attempt budget raw observed failure allowed wait rest ih =>
    obtain ⟨earlier, last, hrecords, htarget, hobserved⟩ := ih hresult
    refine ⟨attempt.record :: earlier, last, by rw [hrecords]; rfl, htarget, ?_⟩
    rw [attempt.observations_retried, List.map_cons, attempt.target_eq, hobserved]

end Verdicts

/-! ### A pool of one -/

/-- One upstream that speaks the Messages API. -/
def soleUpstreams : AList fun _ : String ↦ NativeUpstream :=
  AList.singleton "sole"
    { config := { provider := "anthropic", baseUrl := exampleEndpoint, auth := none }
      dialect := .anthropicNative }

def soleDecision : Decision where
  chosen := ⟨⟨"sole", by decide⟩, "m"⟩
  decidedBy := .default
  fallbacks := []
  features := {}
  pool := "p"

/-- A world whose upstream is overloaded. -/
def overloadedWorld : Environment Unit :=
  { Environment.quiet fun _ ↦ none with
    intoParts := fun response world ↦ (.ok { status := response.status, body := "busy" }, world) }

def overloaded : NativeTransport Unit :=
  fun _ _ _ _ world ↦ (.ok { status := 529, body := [] }, world)

def overloadedCall : NativeCall where
  dialect := .anthropic
  body := .object [("model", .string "any")]
  stream := true
  hasImages := false

theorem soleDecision_configured : ∀ target ∈ soleDecision.targets,
    (soleUpstreams.lookup target.upstream.name).isSome = true := by decide

/-! ## The request as a whole -/

section Whole

variable {W : Type} {env : Environment W} {ledgers : Ledgers W}

/-- How a request with a native payload answers for its pool: as the pool ended, or with the refusal
of the last upstream that was called, and with a receipt that says so. -/
def AnswersForPool (pool answer : DispatchResult × Dispatch (NativeWorld W)) : Prop :=
  (answer.1 = pool.1 ∧ answer.2.events = pool.2.events) ∨
    ∃ error last status body accepted, pool.1 = .error error ∧ error.code ≠ .capability ∧
      answer.2.record.attemptRecords.getLast? = some last ∧
      (calls pool.2.events).getLast? = some (last.ordinal, last.target) ∧
      last.httpStatus = some status ∧ last.fallbackAllowed = true ∧
      answer.1 = .ok (last.target, .failedBeforeOutput) ∧
      answer.2.record.status = status ∧ answer.2.record.errorCode = last.errorCode ∧
      answer.2.events = pool.2.events ++ [.emitted (.beginJson status body) accepted]

/-- **The parked reply is the last upstream's.** Whatever the admissions, the clock, the
cancellations and the upstreams do, a reply that was parked by an earlier attempt never answers the
request. -/
theorem nativeRoutedRequest_answersForPool (env : Environment W) (ledgers : Ledgers W)
    (send : NativeTransport W)
    (ctx : RequestContext) (call : NativeCall) (catalog : List (UpstreamModel × ModelCapability))
    (upstreams : AList fun _ : String ↦ NativeUpstream) (session requestId : String)
    (decision : Decision) (outer : W)
    (hconfigured : ∀ target ∈ decision.targets,
      (upstreams.lookup target.upstream.name).isSome = true) :
    let start : Dispatch (NativeWorld W) := { world := { outer }, record := { requestId } }
    AnswersForPool
      (executeRoutedAttempt env.native ledgers.native ctx catalog
        (nativeAttempt env send ctx call upstreams) session
        (call.dialect.decision upstreams decision) start)
      (nativeRoutedRequest env ledgers send ctx call catalog upstreams session decision start) := by
  intro start
  obtain ⟨targets, records, hrun, hrecords, hsame | ⟨error, last, status, body, accepted, herror,
      hcode, hlast, hanswer, hhttp, hallowed, hstatus, hnoted, hevents⟩⟩ :=
    nativeRoutedRequest_run env ledgers send ctx call catalog upstreams session requestId decision
      outer hconfigured (fun _ _ ↦ True) fun _ _ _ ↦ trivial
  · exact .inl hsame
  · refine .inr ⟨error, last, status, body, accepted, herror, hcode, hrecords ▸ hlast, ?_, hhttp,
      hallowed, hanswer, hstatus, hnoted, hevents⟩
    rw [hrun.calls_eq, List.getLast?_map, hlast]
    rfl

/-- The refusal of a pool of one. -/
theorem answersForPool_sole : AnswersForPool
    (executeRoutedAttempt overloadedWorld.native idleLedgers.native ⟨2, 1⟩ []
      (nativeAttempt overloadedWorld overloaded ⟨2, 1⟩ overloadedCall soleUpstreams) ""
      soleDecision { world := { outer := () }, record := { requestId := "r" } })
    (nativeRoutedRequest overloadedWorld idleLedgers overloaded ⟨2, 1⟩ overloadedCall []
      soleUpstreams "" soleDecision
      { world := { outer := () }, record := { requestId := "r" } }) :=
  nativeRoutedRequest_answersForPool overloadedWorld idleLedgers overloaded ⟨2, 1⟩ overloadedCall []
    soleUpstreams "" "r" soleDecision () soleDecision_configured

/-- Settling an outcome gives at most one verdict, and none on an attempt that already has one. -/
theorem settle_verdict (served : UpstreamModel) (outcome : StreamOutcome) (dispatch : Dispatch W) :
    ∃ verdict : List Event,
      (settle ledgers served outcome dispatch).2.events = dispatch.events ++ verdict ∧
        (verdict = [] ∨ outcome ≠ .clientCancelled ∧
          (outcome = .failedBeforeOutput →
            dispatch.record.attemptRecords.getLast?.any AttemptRecord.fallbackAllowed = false) ∧
          ∃ failure, verdict = [.observed served failure]) := by
  cases outcome with
  | complete => exact ⟨_, rfl, .inr ⟨nofun, nofun, _, rfl⟩⟩
  | failedBeforeOutput =>
    by_cases hcharged :
        dispatch.record.attemptRecords.getLast?.any AttemptRecord.fallbackAllowed = true
    · refine ⟨[], ?_, .inl rfl⟩
      rw [List.append_nil]
      exact congrArg (fun m : StateM (Dispatch W) Unit ↦ (m _).2.events) (if_pos hcharged)
    · exact ⟨_, congrArg (fun m : StateM (Dispatch W) Unit ↦ (m _).2.events) (if_neg hcharged),
        .inr ⟨nofun, fun _ ↦ Bool.eq_false_iff.mpr hcharged, _, rfl⟩⟩
  | failedAfterPartial => exact ⟨[], (List.append_nil _).symm, .inl rfl⟩
  | clientCancelled => exact ⟨[], (List.append_nil _).symm, .inl rfl⟩

theorem chatScopedInner_ok (env : Environment W) (ledgers : Ledgers W) (agent : LoadedAgent)
    {chatInner : StateM (Dispatch W) DispatchResult} {dispatch : Dispatch W}
    {answer : UpstreamModel × StreamOutcome} (h : (chatInner dispatch).1 = .ok answer) :
    chatScopedInner env ledgers agent chatInner dispatch =
      settle ledgers answer.1 answer.2 (chatInner dispatch).2 := by
  have hbind : ∀ f : DispatchResult → StateM (Dispatch W) Unit,
      (chatInner >>= f) dispatch = f (chatInner dispatch).1 (chatInner dispatch).2 := fun _ ↦ rfl
  rw [chatScopedInner, hbind, h]

theorem chatScopedInner_error (env : Environment W) (ledgers : Ledgers W) (agent : LoadedAgent)
    {chatInner : StateM (Dispatch W) DispatchResult} {dispatch : Dispatch W}
    {refusal : ErrorEnvelope} (h : (chatInner dispatch).1 = .error refusal) :
    ∃ reply accepted, (chatScopedInner env ledgers agent chatInner dispatch).2.events =
      (chatInner dispatch).2.events ++ [.emitted reply accepted] := by
  have hbind : ∀ f : DispatchResult → StateM (Dispatch W) Unit,
      (chatInner >>= f) dispatch = f (chatInner dispatch).1 (chatInner dispatch).2 := fun _ ↦ rfl
  rw [chatScopedInner, hbind, h]
  have hrender : Keeps Dispatch.events (renderError env agent refusal) := by
    refine Keeps.bind (fun _ ↦ rfl) fun document ↦ ?_
    cases document <;> exact Keeps.pure _
  exact ⟨_, _, congrArg (· ++ [_]) (hrender _)⟩

theorem OneVerdictEach.emitted {events : List Event} (h : OneVerdictEach events) (reply : Reply)
    (accepted : Bool) : OneVerdictEach (events ++ [.emitted reply accepted]) := by
  have hcalls : calls (events ++ [.emitted reply accepted]) = calls events :=
    List.filterMap_append.trans (List.append_nil _)
  have hobservations : observations (events ++ [.emitted reply accepted]) = observations events :=
    List.filterMap_append.trans (List.append_nil _)
  rwa [OneVerdictEach, hcalls, hobservations]

/-- The verdict of the outcome is the one that the last attempt lacks. -/
theorem Run.oneVerdictEach_settled {Post : AttemptResult → List (Reply × Bool) → Prop}
    {requestId : String} {targets : List UpstreamModel} {records : List AttemptRecord}
    {events : List Event} {served : UpstreamModel} {outcome : StreamOutcome}
    (h : Run requestId Post 0 targets records events (.ok (served, outcome)))
    (houtcome : outcome ≠ .clientCancelled) (failure : Option ErrorEnvelope) :
    OneVerdictEach (events ++ [.observed served failure]) := by
  obtain ⟨earlier, last, hrecords, htarget, hobserved⟩ := h.observations_of_ok houtcome
  have hcalls : calls (events ++ [.observed served failure]) = calls events :=
    List.filterMap_append.trans (List.append_nil _)
  have hobservations : observations (events ++ [.observed served failure]) =
      observations events ++ [served] := List.filterMap_append
  refine .inr ?_
  rw [hcalls, hobservations, h.calls_eq, hobserved, hrecords, ← htarget, List.map_append,
    List.map_append, List.map_map]
  rfl

/-- A dispatch that is settled as it ended. -/
theorem oneVerdictEach_settled (env : Environment W) (ledgers : Ledgers W) (agent : LoadedAgent)
    {chatInner : StateM (Dispatch W) DispatchResult} {dispatch : Dispatch W}
    {Post : AttemptResult → List (Reply × Bool) → Prop} {requestId : String}
    {targets : List UpstreamModel} {records : List AttemptRecord}
    (hrun : Run requestId Post 0 targets records (chatInner dispatch).2.events
      (chatInner dispatch).1) :
    OneVerdictEach (chatScopedInner env ledgers agent chatInner dispatch).2.events := by
  cases hanswer : (chatInner dispatch).1 with
  | error refusal =>
    obtain ⟨reply, accepted, hfinal⟩ := chatScopedInner_error env ledgers agent hanswer
    rw [hfinal]
    exact hrun.oneVerdictEach.emitted reply accepted
  | ok served =>
    rw [chatScopedInner_ok env ledgers agent hanswer]
    obtain ⟨verdict, hfinal, rfl | ⟨houtcome, -, failure, rfl⟩⟩ :=
      settle_verdict served.1 served.2 _
    · rw [hfinal, List.append_nil]
      exact hrun.oneVerdictEach
    · rw [hfinal]
      exact (hanswer ▸ hrun).oneVerdictEach_settled houtcome failure

/-- **One attempt, one verdict.** From the first attempt to the settlement, health hears once of
every attempt that was fallen over from, and at most once of the last one: whatever the attempts
are, and also where a parked reply is relayed in the end. -/
theorem request_oneVerdictEach (env : Environment W) (ledgers : Ledgers W)
    (attempt : UpstreamModel → StateM (Exchange W) AttemptResult) (send : NativeTransport W)
    (ctx : RequestContext) (call : NativeCall) (catalog : List (UpstreamModel × ModelCapability))
    (upstreams : AList fun _ : String ↦ NativeUpstream) (agent : LoadedAgent)
    (session requestId : String) (decision : Decision) (outer : W)
    (hconfigured : ∀ target ∈ decision.targets,
      (upstreams.lookup target.upstream.name).isSome = true) :
    OneVerdictEach (chatScopedInner env ledgers agent
        (executeRoutedAttempt env ledgers ctx catalog attempt session decision)
        { world := outer, record := { requestId } }).2.events ∧
      OneVerdictEach (chatScopedInner env.native ledgers.native agent
        (nativeRoutedRequest env ledgers send ctx call catalog upstreams session decision)
        { world := { outer }, record := { requestId } }).2.events := by
  constructor
  · let start : Dispatch W := { world := outer, record := { requestId } }
    let answer := dispatch env ledgers ctx catalog attempt decision start
    obtain ⟨records, trace, hrun, -, -, hevents, -⟩ :=
      dispatch_run env ledgers ctx catalog (fun _ _ ↦ True) (fun _ _ _ ↦ trivial) decision start
        ⟨rfl, rfl, rfl, rfl⟩
    have hsettle : ∀ result : DispatchResult,
        Keeps Dispatch.events (settleQuota ledgers session result : StateM (Dispatch W) Unit) := by
      rintro (error | answer)
      · exact Keeps.bind (fun _ ↦ rfl) fun _ ↦ Keeps.pure _
      · exact Keeps.bind (fun _ ↦ rfl) fun _ ↦ Keeps.ite (fun _ _ ↦ rfl) fun _ ↦ Keeps.pure _
    -- the settlement of the quota is not an event
    have hsame : (executeRoutedAttempt env ledgers ctx catalog attempt session decision
        start).2.events = trace := (hsettle answer.1 answer.2).trans hevents
    have hsettled : Run requestId (fun _ _ ↦ True) 0 decision.targets records
        (executeRoutedAttempt env ledgers ctx catalog attempt session decision start).2.events
        answer.1 := hsame ▸ hrun
    exact oneVerdictEach_settled env ledgers agent hsettled
  obtain ⟨targets, records, hrun, hrecords, ⟨hresult, hevents⟩ |
    ⟨error, last, status, body, accepted, -, -, hlast, hanswer, -, hallowed, -, -, hevents⟩⟩ :=
    nativeRoutedRequest_run env ledgers send ctx call catalog upstreams session requestId decision
      outer hconfigured (fun _ _ ↦ True) fun _ _ _ ↦ trivial
  · rw [← hevents, ← hresult] at hrun
    exact oneVerdictEach_settled env.native ledgers.native agent hrun
  · -- the last attempt was charged when it failed
    rw [chatScopedInner_ok env.native ledgers.native agent hanswer]
    obtain ⟨verdict, hfinal, rfl | ⟨-, hcharged, -⟩⟩ :=
      settle_verdict last.target .failedBeforeOutput _
    · rw [hfinal, List.append_nil, hevents]
      exact hrun.oneVerdictEach.emitted _ accepted
    · have hnot := hcharged rfl
      rw [hrecords, hlast, Option.any_some, hallowed] at hnot
      nomatch hnot

end Whole

theorem request_oneVerdictEach_sole : OneVerdictEach (chatScopedInner overloadedWorld.native
    idleLedgers.native ⟨"anthropic-messages"⟩
    (nativeRoutedRequest overloadedWorld idleLedgers overloaded ⟨2, 1⟩ overloadedCall []
      soleUpstreams "" soleDecision)
    { world := { outer := () }, record := { requestId := "r" } }).2.events :=
  (request_oneVerdictEach overloadedWorld idleLedgers (fun _ ↦ pure (.ok .complete)) overloaded
    ⟨2, 1⟩ overloadedCall [] soleUpstreams ⟨"anthropic-messages"⟩ "" "r" soleDecision ()
    soleDecision_configured).2

end TokenStation
