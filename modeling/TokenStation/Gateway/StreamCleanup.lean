import TokenStation.Gateway.StreamMaps

/-!
# Every way out of a relayed stream

The relay of a stream has some fifteen exits. On the way to each of them, the last thing that the
adapter hears of the stream is an error, and what follows does not reach the adapter. So when the
relay returns, the adapter has forgotten the stream.
-/

namespace TokenStation

open Library Exchange

section World

variable {S E V : Type}

/-- An answer of the world besides the adapter. -/
def onRest {α : Type} (op : V → α × V) (world : S × V) : α × (S × V) :=
  ((op world.2).1, world.1, (op world.2).2)

/-- An environment in which streams are rendered by an adapter. Everything else is as it was, also
what happens in the world while the adapter renders. -/
def Environment.withAdapter (env : Environment V) (adapter : StreamAdapter S E) :
    Environment (S × V) where
  now := onRest env.now
  tokenReason := onRest env.tokenReason
  deliver reply := onRest (env.deliver reply)
  nextRenderId := onRest env.nextRenderId
  buildHttpRequest config request := onRest (env.buildHttpRequest config request)
  sendProviderCall config descriptor deadline :=
    onRest (env.sendProviderCall config descriptor deadline)
  intoParts response := onRest (env.intoParts response)
  noteAuthoritative name response world := (world.1, env.noteAuthoritative name response world.2)
  mapProviderError config parts := onRest (env.mapProviderError config parts)
  parseResponse config parts := onRest (env.parseResponse config parts)
  parseChunk config data := onRest (env.parseChunk config data)
  finishParser config := onRest (env.finishParser config)
  renderResponse agent response context := onRest (env.renderResponse agent response context)
  renderStreamEvent agent event context world :=
    let rendered := adapter.render event context world.1
    (rendered.1, rendered.2, (env.renderStreamEvent agent event context world.2).2)
  mapInboundError agent error context := onRest (env.mapInboundError agent error context)
  jsonText := env.jsonText
  parseJson := env.parseJson
  replaceCanonicalDocuments := env.replaceCanonicalDocuments
  finishAccounting usage := onRest (env.finishAccounting usage)

variable {env : Environment V} {adapter : StreamAdapter S E} {ctx : RequestContext}
  {call : CanonicalCall} {config : ProviderConfig} {α : Type}

/-! ## Steps that do not reach the adapter -/

/-- The computation leaves the adapter alone. -/
abbrev Apart (m : StateM (Exchange (S × V)) α) : Prop :=
  Keeps (fun exchange : Exchange (S × V) ↦ exchange.world.1) m

theorem apart_ask (op : V → α × V) : Apart (S := S) (ask (onRest op)) := fun _ ↦ rfl

theorem cancelReason_withAdapter :
    cancelReason (env.withAdapter adapter) ctx = onRest (cancelReason env ctx) := by
  funext world
  have hremaining : remaining (env.withAdapter adapter) ctx = onRest (remaining env ctx) := rfl
  have htoken : (env.withAdapter adapter).tokenReason world =
      ((env.tokenReason world.2).1, world.1, (env.tokenReason world.2).2) := rfl
  rw [cancelReason, htoken, onRest, cancelReason]
  rcases env.tokenReason world.2 with ⟨_ | reason, rest⟩
  · simp only [hremaining, onRest]
    rcases remaining env ctx rest with ⟨_ | time, rest⟩ <;> rfl
  · rfl

theorem apart_isCancelled : Apart (ask (isCancelled (env.withAdapter adapter) ctx)) := by
  have heq : isCancelled (env.withAdapter adapter) ctx = onRest (isCancelled env ctx) := by
    funext world
    rw [isCancelled, cancelReason_withAdapter]
    rfl
  rw [heq]
  exact apart_ask _

theorem apart_lifecycleCancellation :
    Apart (ask (lifecycleCancellation (env.withAdapter adapter) ctx)) := by
  have heq : lifecycleCancellation (env.withAdapter adapter) ctx =
      onRest (lifecycleCancellation env ctx) := by
    funext world
    rw [lifecycleCancellation, cancelReason_withAdapter]
    rfl
  rw [heq]
  exact apart_ask _

theorem apart_emitReply (reply : Reply) :
    Apart (emitReply (env.withAdapter adapter) ctx call reply) := by
  intro exchange
  have hcancelled : (isCancelled (env.withAdapter adapter) ctx exchange.world).2.1 =
      exchange.world.1 := apart_isCancelled exchange
  rw [emitReply, attemptEmit]
  generalize call.hasImages = hasImages
  cases hasImages <;> cases reply <;> exact hcancelled

theorem apart_emitCancelled : Apart (emitCancelled (env.withAdapter adapter) ctx call) :=
  (apart_emitReply _).bind fun _ ↦ Keeps.pure _

theorem apart_openStream (committed : Bool) :
    Apart (openStream (env.withAdapter adapter) ctx call committed) := by
  cases committed with
  | true => exact Keeps.pure _
  | false => exact apart_emitReply _

theorem apart_absorbRecordUsage (events : List StreamEvent) :
    Apart (absorbRecordUsage events : StateM (Exchange (S × V)) Unit) := fun _ ↦ rfl

theorem apart_readFailure (failure : Option StreamReadError) :
    Apart (readFailure (env.withAdapter adapter) ctx failure) := by
  cases failure with
  | none => exact Keeps.pure _
  | some failure =>
    rw [readFailure, cancelReason_withAdapter]
    exact (apart_ask _).bind fun _ ↦ Keeps.pure _

end World

/-! ## One stream -/

section Stream

variable {S E V : Type} {env : Environment V} {adapter : StreamAdapter S E} {ctx : RequestContext}
  {call : CanonicalCall} {config : ProviderConfig} {context : RenderContext} {α : Type}

/-- All but one stream are in the adapter as they were. -/
def OthersKept (adapter : StreamAdapter S E) (id : String) (before now : S) : Prop :=
  ∀ other, other ≠ id → adapter.entry now other = adapter.entry before other

/-- The adapter has forgotten a stream, and all others are as they were. -/
def Forgotten (adapter : StreamAdapter S E) (id : String) (before now : S) : Prop :=
  OthersKept adapter id before now ∧ adapter.entry now id = none

variable {id : String} {before : S}

/-- The precondition of every step of a relay. -/
abbrev Open (adapter : StreamAdapter S E) (id : String) (before : S) :
    Exchange (S × V) → Prop := fun exchange ↦ OthersKept adapter id before exchange.world.1

/-- The postcondition of every exit. -/
abbrev Closed (adapter : StreamAdapter S E) (id : String) (before : S) :
    Exchange (S × V) → Prop := fun exchange ↦ Forgotten adapter id before exchange.world.1

/-- A relay that goes on, or one that has ended with the stream forgotten. -/
def RelayLeaves (adapter : StreamAdapter S E) (id : String) (before : S) (relay : Relay)
    (exchange : Exchange (S × V)) : Prop :=
  match relay with
  | .running _ _ => OthersKept adapter id before exchange.world.1
  | .ended _ => Forgotten adapter id before exchange.world.1

variable (hcontext : context.streamId = some id) (hid : id ≠ "")

include hcontext hid in
theorem render_open (agent : LoadedAgent) (event : StreamEvent) :
    Triple (Open (V := V) adapter id before)
      (ask ((env.withAdapter adapter).renderStreamEvent agent event context))
      fun _ ↦ Open adapter id before := fun _ hopen other hother ↦
  (adapter.frame event context id _ hcontext hid other hother).trans (hopen other hother)

include hcontext hid in
theorem clearStreamState_closed :
    Triple (Open (V := V) adapter id before)
      (clearStreamState (env.withAdapter adapter) call context)
      fun _ ↦ Closed adapter id before := by
  intro exchange hopen
  exact ⟨render_open hcontext hid call.agent _ exchange hopen,
    adapter.forgets _ context id _ hcontext hid⟩

include hcontext hid in
theorem renderStreamError_open (envelope : ErrorEnvelope) :
    Triple (Open (V := V) adapter id before)
      (renderStreamError (env.withAdapter adapter) call envelope context)
      fun _ ↦ Open adapter id before := by
  refine Triple.bind (render_open hcontext hid _ _) fun rendered ↦ ?_
  refine Keeps.frame (?_ : Apart _) (OthersKept adapter id before)
  split
  · exact Keeps.pure _
  · refine (apart_ask _).bind fun body ↦ ?_
    cases body with
    | error envelope => exact (Keeps.pure _).bind fun _ ↦ Keeps.pure _
    | ok document => exact (Keeps.pure _).bind fun _ ↦ Keeps.pure _

include hcontext hid in
theorem terminateStream_closed (envelope : ErrorEnvelope) (committed : Bool) :
    Triple (Open (V := V) adapter id before)
      (terminateStream (env.withAdapter adapter) ctx call context envelope committed)
      fun _ ↦ Closed adapter id before := by
  cases committed with
  | false =>
    exact Triple.bind (clearStreamState_closed hcontext hid) fun _ ↦ Triple.pure fun _ h ↦ h
  | true =>
    have hcode : Apart (modify fun exchange ↦ { exchange with
        errorCode := some (sanitizeAttemptErrorForRender envelope).code } :
        StateM (Exchange (S × V)) Unit) := fun _ ↦ rfl
    refine Triple.bind (hcode.frame (OthersKept adapter id before)) fun _ ↦ ?_
    refine Triple.bind (renderStreamError_open hcontext hid _) fun rendered ↦ ?_
    refine Triple.bind ((apart_emitReply _).frame (OthersKept adapter id before))
      fun accepted ↦ ?_
    exact Triple.bind (clearStreamState_closed hcontext hid) fun _ ↦ Triple.pure fun _ h ↦ h

include hcontext hid in
theorem abandonStream_closed :
    Triple (Open (V := V) adapter id before)
      (abandonStream (env.withAdapter adapter) call context) fun _ ↦ Closed adapter id before :=
  Triple.bind (clearStreamState_closed hcontext hid) fun _ ↦ Triple.pure fun _ h ↦ h

include hcontext hid in
theorem cancelStream_closed (committed : Bool) :
    Triple (Open (V := V) adapter id before)
      (cancelStream (env.withAdapter adapter) ctx call context committed)
      fun _ ↦ Closed adapter id before := by
  refine Triple.bind (apart_lifecycleCancellation.frame (OthersKept adapter id before))
    fun lifecycle ↦ ?_
  cases lifecycle with
  | some envelope => exact terminateStream_closed hcontext hid envelope committed
  | none =>
    refine Triple.bind (clearStreamState_closed hcontext hid) fun _ ↦ ?_
    cases committed with
    | false =>
      -- the reply goes to the client alone
      exact Triple.bind (apart_emitCancelled.frame (Forgotten adapter id before)) fun _ ↦
        Triple.pure fun _ h ↦ h
    | true => exact Triple.pure fun _ h ↦ h

include hcontext hid in
theorem renderAll_open (events : List StreamEvent) :
    Triple (Open (V := V) adapter id before)
      (renderAll (env.withAdapter adapter) call context events)
      fun _ ↦ Open adapter id before := by
  induction events with
  | nil => exact Triple.pure fun _ h ↦ h
  | cons event events ih =>
    refine Triple.bind (render_open hcontext hid _ _) fun chunk ↦ ?_
    cases chunk with
    | error envelope => exact Triple.pure fun _ h ↦ h
    | ok chunk =>
      refine Triple.bind ih fun rendered ↦ ?_
      cases rendered with
      | error envelope => exact Triple.pure fun _ h ↦ h
      | ok rendered => exact Triple.pure fun _ h ↦ h

include hcontext hid in
theorem relayChunks_leaves (chunks : List (StreamEvent × String))
    (committed delivered terminal : Bool) :
    Triple (Open (V := V) adapter id before)
      (relayChunks (env.withAdapter adapter) ctx call context committed delivered terminal chunks)
      (RelayLeaves adapter id before) := by
  induction chunks generalizing committed delivered terminal with
  | nil =>
    rw [relayChunks]
    refine Triple.ite (fun _ ↦ ?_) fun _ ↦ Triple.pure fun _ h ↦ h
    exact Triple.bind (clearStreamState_closed hcontext hid) fun _ ↦ Triple.pure fun _ h ↦ h
  | cons chunk chunks ih =>
    obtain ⟨event, data⟩ := chunk
    rw [relayChunks]
    refine Triple.bind ((apart_emitReply _).frame (OthersKept adapter id before))
      fun accepted ↦ ?_
    refine Triple.ite (fun _ ↦ Triple.ite (fun _ ↦ ih _ _ _) fun _ ↦ ih _ _ _) fun _ ↦ ?_
    exact Triple.bind (abandonStream_closed hcontext hid) fun _ ↦ Triple.pure fun _ h ↦ h

include hcontext hid in
theorem relayFrame_leaves (committed delivered : Bool) (data : String) :
    Triple (Open (V := V) adapter id before)
      (relayFrame (env.withAdapter adapter) ctx call config context committed delivered data)
      (RelayLeaves adapter id before) := by
  have hterminate : ∀ envelope : ErrorEnvelope,
      Triple (Open (V := V) adapter id before)
        (do
          let result ← terminateStream (env.withAdapter adapter) ctx call context envelope committed
          pure (.ended result))
        (RelayLeaves adapter id before) := fun envelope ↦
    Triple.bind (terminateStream_closed hcontext hid envelope committed) fun _ ↦
      Triple.pure fun _ h ↦ h
  refine Triple.bind ((apart_ask _).frame (OthersKept adapter id before)) fun parsed ↦ ?_
  cases parsed with
  | error envelope => exact hterminate envelope
  | ok parsed =>
    refine Triple.bind ((apart_absorbRecordUsage _).frame (OthersKept adapter id before))
      fun _ ↦ ?_
    split
    next error _ => exact hterminate error
    next =>
      refine Triple.ite (fun _ ↦ hterminate _) fun _ ↦ ?_
      refine Triple.bind (renderAll_open hcontext hid _) fun rendered ↦ ?_
      cases rendered with
      | error envelope => exact hterminate envelope
      | ok rendered =>
        refine Triple.ite (fun _ ↦ Triple.pure fun _ h ↦ h) fun _ ↦ ?_
        refine Triple.bind ((apart_openStream committed).frame (OthersKept adapter id before))
          fun opened ↦ ?_
        refine Triple.ite (fun _ ↦ relayChunks_leaves hcontext hid _ _ _ _) fun _ ↦ ?_
        exact Triple.bind (abandonStream_closed hcontext hid) fun _ ↦ Triple.pure fun _ h ↦ h

include hcontext hid in
theorem relayFrames_leaves (committed delivered : Bool) (frames : List String) :
    Triple (Open (V := V) adapter id before)
      (relayFrames (env.withAdapter adapter) ctx call config context committed delivered frames)
      (RelayLeaves adapter id before) := by
  induction frames generalizing committed delivered with
  | nil => exact Triple.pure fun _ h ↦ h
  | cons data frames ih =>
    refine Triple.bind (relayFrame_leaves hcontext hid committed delivered data) fun relay ↦ ?_
    cases relay with
    | ended result => exact Triple.pure fun _ h ↦ h
    | running committed delivered => exact ih committed delivered

include hcontext hid in
theorem relayRest_closed (events : List StreamEvent) (committed terminal : Bool) :
    Triple (Open (V := V) adapter id before)
      (relayRest (env.withAdapter adapter) ctx call context committed terminal events)
      fun _ ↦ Closed adapter id before := by
  induction events generalizing committed terminal with
  | nil =>
    rw [relayRest]
    refine Triple.ite (fun _ ↦ ?_) fun _ ↦ terminateStream_closed hcontext hid _ committed
    exact Triple.bind (clearStreamState_closed hcontext hid) fun _ ↦ Triple.pure fun _ h ↦ h
  | cons event events ih =>
    refine Triple.bind (render_open hcontext hid _ _) fun chunk ↦ ?_
    cases chunk with
    | error envelope => exact terminateStream_closed hcontext hid envelope committed
    | ok chunk =>
      refine Triple.bind ((apart_openStream committed).frame (OthersKept adapter id before))
        fun opened ↦ Triple.ite (fun _ ↦ ?_) fun _ ↦ abandonStream_closed hcontext hid
      refine Triple.bind ((apart_emitReply _).frame (OthersKept adapter id before))
        fun accepted ↦ ?_
      exact Triple.ite (fun _ ↦ ih _ _) fun _ ↦ abandonStream_closed hcontext hid

include hcontext hid in
theorem relayEnd_closed (decoder : SseFrameDecoder) (committed delivered : Bool) :
    Triple (Open (V := V) adapter id before)
      (relayEnd (env.withAdapter adapter) ctx call config context decoder committed delivered)
      fun _ ↦ Closed adapter id before := by
  rw [relayEnd]
  split
  · exact terminateStream_closed hcontext hid _ committed
  · refine Triple.bind ((apart_ask _).frame (OthersKept adapter id before)) fun parsed ↦ ?_
    cases parsed with
    | error envelope => exact terminateStream_closed hcontext hid envelope committed
    | ok parsed =>
      refine Triple.bind ((apart_absorbRecordUsage _).frame (OthersKept adapter id before))
        fun _ ↦ ?_
      split
      · exact terminateStream_closed hcontext hid _ committed
      · exact Triple.ite (fun _ ↦ terminateStream_closed hcontext hid _ committed) fun _ ↦
          relayRest_closed hcontext hid _ committed false

include hcontext hid in
/-- Whatever the stream, the client and the clock do, the adapter forgets the stream. -/
theorem relayStream_closed (decoder : SseFrameDecoder) (committed delivered : Bool)
    (reads : List StreamRead) :
    Triple (Open (V := V) adapter id before)
      (relayStream (env.withAdapter adapter) ctx call config context decoder committed delivered
        reads) fun _ ↦ Closed adapter id before := by
  induction reads generalizing decoder committed delivered with
  | nil =>
    refine Triple.bind (apart_isCancelled.frame (OthersKept adapter id before))
      fun cancelled ↦ ?_
    exact Triple.ite (fun _ ↦ cancelStream_closed hcontext hid committed) fun _ ↦
      relayEnd_closed hcontext hid decoder committed delivered
  | cons read reads ih =>
    refine Triple.bind (apart_isCancelled.frame (OthersKept adapter id before))
      fun cancelled ↦ ?_
    refine Triple.ite (fun _ ↦ cancelStream_closed hcontext hid committed) fun _ ↦ ?_
    cases read with
    | failed failure =>
      refine Triple.bind (apart_isCancelled.frame (OthersKept adapter id before))
        fun cancelled ↦ ?_
      refine Triple.ite (fun _ ↦ cancelStream_closed hcontext hid committed) fun _ ↦ ?_
      exact Triple.bind ((apart_readFailure failure).frame (OthersKept adapter id before))
        fun envelope ↦ terminateStream_closed hcontext hid envelope committed
    | data bytes =>
      refine Triple.ite (fun _ ↦ relayEnd_closed hcontext hid decoder committed delivered)
        fun _ ↦ ?_
      split
      · exact terminateStream_closed hcontext hid _ committed
      next frames decoder _ =>
        refine Triple.bind (relayFrames_leaves hcontext hid committed delivered frames)
          fun relay ↦ ?_
        cases relay with
        | ended result => exact Triple.pure fun _ h ↦ h
        | running committed delivered => exact ih decoder committed delivered

end Stream

/-! ## Many streams -/

section Runs

variable {S E V : Type}

/-- A request whose answer is relayed as a stream, and what happened in the world before it. -/
structure StreamRequest (V : Type) where
  ctx : RequestContext
  call : CanonicalCall
  config : ProviderConfig
  request : ChatRequest
  target : UpstreamModel
  response : UpstreamResponse
  before : V → V

/-- The world after one request. -/
def afterStream (env : Environment V) (adapter : StreamAdapter S E) (world : S × V)
    (request : StreamRequest V) : S × V :=
  (translateStreamResponse (env.withAdapter adapter) request.ctx request.call request.config
    request.request request.target request.response
    { world := (world.1, request.before world.2) }).2.world

/-- The world after requests, one after another. -/
def afterStreams (env : Environment V) (adapter : StreamAdapter S E) (world : S × V)
    (requests : List (StreamRequest V)) : S × V :=
  requests.foldl (afterStream env adapter) world

/-- The id of the next stream. -/
def nextStreamId (env : Environment V) (world : V) : String :=
  s!"stream-{(env.nextRenderId world).1}"

/-- What an adapter keeps of streams that were relayed: nothing. -/
structure LeavesNothing (adapter : StreamAdapter S E) : Prop where
  relayed : ∀ {V : Type} (env : Environment V) (ctx : RequestContext) (call : CanonicalCall)
    (config : ProviderConfig) (context : RenderContext) (id : String),
    context.streamId = some id → id ≠ "" → ∀ (decoder : SseFrameDecoder)
    (committed delivered : Bool) (reads : List StreamRead) (exchange : Exchange (S × V)),
    Forgotten adapter id exchange.world.1
      (relayStream (env.withAdapter adapter) ctx call config context decoder committed delivered
        reads exchange).2.world.1
  translated : ∀ {V : Type} (env : Environment V) (ctx : RequestContext) (call : CanonicalCall)
    (config : ProviderConfig) (request : ChatRequest) (target : UpstreamModel)
    (response : UpstreamResponse) (exchange : Exchange (S × V)),
    Forgotten adapter (nextStreamId env exchange.world.2) exchange.world.1
      (translateStreamResponse (env.withAdapter adapter) ctx call config request target response
        exchange).2.world.1
  finished : ∀ {V : Type} (env : Environment V) (world : S × V) (requests : List (StreamRequest V)),
    adapter.size world.1 = 0 → adapter.size (afterStreams env adapter world requests).1 = 0

theorem nextStreamId_ne_empty (env : Environment V) (world : V) : nextStreamId env world ≠ "" := by
  intro h
  have hlength := congrArg (fun text : String ↦ text.toList) h
  simp [nextStreamId] at hlength

theorem translateStreamResponse_closed (env : Environment V) (adapter : StreamAdapter S E)
    (ctx : RequestContext) (call : CanonicalCall) (config : ProviderConfig) (request : ChatRequest)
    (target : UpstreamModel) (response : UpstreamResponse) (exchange : Exchange (S × V)) :
    Forgotten adapter (nextStreamId env exchange.world.2) exchange.world.1
      (translateStreamResponse (env.withAdapter adapter) ctx call config request target response
        exchange).2.world.1 :=
  relayStream_closed rfl (nextStreamId_ne_empty env exchange.world.2) {} false false response.body
    { exchange with world := onRest env.nextRenderId exchange.world |>.2 } fun _ _ ↦ rfl

/-- One request. -/
theorem afterStream_size {env : Environment V} {adapter : StreamAdapter S E} {world : S × V}
    (hempty : adapter.size world.1 = 0) (request : StreamRequest V) :
    adapter.size (afterStream env adapter world request).1 = 0 := by
  rw [adapter.size_eq_zero_iff] at hempty ⊢
  intro id
  have hforgotten : Forgotten adapter (nextStreamId env (request.before world.2)) world.1
      (afterStream env adapter world request).1 :=
    translateStreamResponse_closed env adapter request.ctx request.call request.config
      request.request request.target request.response
      { world := (world.1, request.before world.2) }
  by_cases hid : id = nextStreamId env (request.before world.2)
  · rw [hid]
    exact hforgotten.2
  · exact (hforgotten.1 id hid).trans (hempty id)

/-- Any number of requests. -/
theorem afterStreams_size (env : Environment V) (adapter : StreamAdapter S E) (world : S × V)
    (hempty : adapter.size world.1 = 0) (requests : List (StreamRequest V)) :
    adapter.size (afterStreams env adapter world requests).1 = 0 := by
  induction requests generalizing world with
  | nil => exact hempty
  | cons request requests ih => exact ih _ (afterStream_size hempty request)

theorem StreamAdapter.leavesNothing (adapter : StreamAdapter S E) : LeavesNothing adapter where
  relayed _ _ _ _ _ _ hcontext hid decoder committed delivered reads exchange :=
    relayStream_closed hcontext hid decoder committed delivered reads exchange fun _ _ ↦ rfl
  translated env ctx call config request target response exchange :=
    translateStreamResponse_closed env adapter ctx call config request target response exchange
  finished env world requests hempty := afterStreams_size env adapter world hempty requests

/-- The next stream is not refused for its number. -/
theorem AnthropicStream.admitStream_of_empty {states : AnthropicStream.StreamStates}
    (hempty : states.entries.length = 0) (context : AnthropicStream.StreamContext) :
    AnthropicStream.admitStream context states = .ok (AnthropicStream.StreamState.new context) := by
  have hlookup := (length_entries_eq_zero_iff states).mp hempty context.streamId
  rw [AnthropicStream.admitStream, hlookup, hempty]
  rfl

/-- **A relayed stream leaves no adapter state**, so finished streams never use up the limit. -/
theorem relayed_streams_forgotten :
    (∀ serde, LeavesNothing (AnthropicStream.adapter serde)) ∧
    (∀ serde parse, LeavesNothing (GeminiStream.adapter serde parse)) ∧
    ∀ {V : Type} (serde : SerdeJson) (env : Environment V) (rest : V)
      (requests : List (StreamRequest V)) (context : AnthropicStream.StreamContext),
      AnthropicStream.admitStream context
        (afterStreams env (AnthropicStream.adapter serde) (∅, rest) requests).1 =
          .ok (AnthropicStream.StreamState.new context) :=
  ⟨fun serde ↦ (AnthropicStream.adapter serde).leavesNothing,
    fun serde parse ↦ (GeminiStream.adapter serde parse).leavesNothing,
    fun serde env rest requests context ↦ AnthropicStream.admitStream_of_empty
      (afterStreams_size env (AnthropicStream.adapter serde) (∅, rest) rfl requests) context⟩

end Runs

end TokenStation
