import TokenStation.Gateway.ProviderCall
import TokenStation.Library.Triple

/-!
# What one attempt hands to the client

An attempt that returns an error has handed nothing on; any other has handed on one whole answer, or
the head of a stream and its chunks, and has stopped at the first reply the client did not take. The
relay carries this through its exits with one invariant: before the commit point nothing has been
handed on, after it everything so far is a stream that the client took.
-/

namespace TokenStation

open Library Exchange

/-- The replies are one response: one whole answer, or one stream head followed by chunks, with
nothing after a reply that was not taken. -/
def OneHead (replies : List (Reply × Bool)) : Prop :=
  ((∃ status body accepted, replies = [(.beginJson status body, accepted)]) ∨
    ∃ accepted chunks, replies = (.beginStream, accepted) :: chunks ∧
      ∀ reply ∈ chunks, ∃ data, reply.1 = .chunk data) ∧
  ∀ reply ∈ replies.dropLast, reply.2 = true

/-- A stream of which the client took everything so far. -/
def Streaming (replies : List (Reply × Bool)) : Prop :=
  ∃ chunks : List String,
    replies = (.beginStream, true) :: chunks.map fun data ↦ (.chunk data, true)

/-- The relay's invariant around the commit point. -/
def Committed (committed : Bool) (replies : List (Reply × Bool)) : Prop :=
  if committed then Streaming replies else replies = []

/-- What has been handed on once a result is known. -/
def Settled {α : Type} (result : Except ErrorEnvelope α) (replies : List (Reply × Bool)) : Prop :=
  match result with
  | .error _ => replies = []
  | .ok _ => OneHead replies

/-- What a batch has handed on. -/
def Relayed (relay : Relay) (replies : List (Reply × Bool)) : Prop :=
  match relay with
  | .ended result => Settled result replies
  | .running committed _ => Committed committed replies

theorem OneHead.whole (status : ℕ) (body : String) (accepted : Bool) :
    OneHead [(.beginJson status body, accepted)] :=
  ⟨.inl ⟨status, body, accepted, rfl⟩, fun _ h ↦ nomatch h⟩

theorem Streaming.begin : Streaming [(.beginStream, true)] := ⟨[], rfl⟩

theorem Streaming.chunk {replies : List (Reply × Bool)} (h : Streaming replies) (data : String) :
    Streaming (replies ++ [(.chunk data, true)]) := by
  obtain ⟨chunks, rfl⟩ := h
  exact ⟨chunks ++ [data], by simp⟩

theorem Streaming.accepted {replies : List (Reply × Bool)} (h : Streaming replies) :
    ∀ reply ∈ replies, reply.2 = true := by
  obtain ⟨chunks, rfl⟩ := h
  intro reply hreply
  rcases List.mem_cons.mp hreply with rfl | hreply
  · rfl
  · obtain ⟨data, -, rfl⟩ := List.mem_map.mp hreply
    rfl

theorem Streaming.oneHead {replies : List (Reply × Bool)} (h : Streaming replies) :
    OneHead replies := by
  refine ⟨?_, fun reply hreply ↦ h.accepted reply (List.mem_of_mem_dropLast hreply)⟩
  obtain ⟨chunks, rfl⟩ := h
  refine .inr ⟨true, _, rfl, fun reply hreply ↦ ?_⟩
  obtain ⟨data, -, rfl⟩ := List.mem_map.mp hreply
  exact ⟨data, rfl⟩

/-- A stream may end with a chunk, taken or not. -/
theorem Streaming.oneHead_chunk {replies : List (Reply × Bool)} (h : Streaming replies)
    (data : String) (accepted : Bool) : OneHead (replies ++ [(.chunk data, accepted)]) := by
  constructor
  · obtain ⟨chunks, rfl⟩ := h
    refine .inr ⟨true, _, List.cons_append, fun reply hreply ↦ ?_⟩
    rcases List.mem_append.mp hreply with hreply | hreply
    · obtain ⟨data, -, rfl⟩ := List.mem_map.mp hreply
      exact ⟨data, rfl⟩
    · obtain rfl := List.mem_singleton.mp hreply
      exact ⟨data, rfl⟩
  · rw [List.dropLast_concat]
    exact h.accepted

theorem OneHead.refusedStream : OneHead [(.beginStream, false)] :=
  ⟨.inr ⟨false, [], rfl, fun _ h ↦ nomatch h⟩, fun _ h ↦ nomatch h⟩

/-! ## Steps that hand nothing on -/

section Attempt

variable {W : Type} {env : Environment W} {ctx : RequestContext} {call : CanonicalCall}
  {α : Type}

/-- The computation leaves the replies alone. -/
abbrev Quiet (m : StateM (Exchange W) α) : Prop := Keeps Exchange.emitted m

theorem quiet_ask (op : W → α × W) : Quiet (ask op) := fun _ ↦ rfl

theorem quiet_clearStreamState (context : RenderContext) :
    Quiet (clearStreamState env call context) :=
  (quiet_ask _).bind fun _ ↦ Keeps.pure _

theorem quiet_renderStreamError (envelope : ErrorEnvelope) (context : RenderContext) :
    Quiet (renderStreamError env call envelope context) := by
  refine (quiet_ask _).bind fun rendered ↦ ?_
  split
  · exact Keeps.pure _
  · refine (quiet_ask _).bind fun body ↦ ?_
    cases body with
    | error envelope => exact (Keeps.pure _).bind fun _ ↦ Keeps.pure _
    | ok document => exact (Keeps.pure _).bind fun _ ↦ Keeps.pure _

theorem quiet_absorbRecordUsage (events : List StreamEvent) :
    Quiet (absorbRecordUsage events : StateM (Exchange W) Unit) := fun _ ↦ rfl

theorem quiet_renderAll (context : RenderContext) (events : List StreamEvent) :
    Quiet (renderAll env call context events) := by
  induction events with
  | nil => exact Keeps.pure _
  | cons event events ih =>
    refine (quiet_ask _).bind fun chunk ↦ ?_
    cases chunk with
    | error envelope => exact Keeps.pure _
    | ok chunk =>
      refine ih.bind fun rendered ↦ ?_
      cases rendered with
      | error envelope => exact Keeps.pure _
      | ok rendered => exact Keeps.pure _

/-- Every event of a batch renders to one text. -/
theorem renderAll_length {P : Exchange W → Prop} (context : RenderContext)
    (events : List StreamEvent) : Triple P (renderAll env call context events)
      fun rendered _ ↦ ∀ texts ∈ rendered.toOption, texts.length = events.length := by
  induction events generalizing P with
  | nil =>
    refine Triple.pure fun exchange _ texts htexts ↦ ?_
    obtain rfl := Option.some.inj htexts
    rfl
  | cons event events ih =>
    refine Triple.bind (R := fun _ _ ↦ True) (fun _ _ ↦ trivial) fun chunk ↦ ?_
    cases chunk with
    | error envelope => exact Triple.pure fun _ _ _ htexts ↦ nomatch htexts
    | ok chunk =>
      refine Triple.bind ih fun rendered ↦ ?_
      cases rendered with
      | error envelope => exact Triple.pure fun _ _ _ htexts ↦ nomatch htexts
      | ok rendered =>
        refine Triple.pure fun exchange hlength texts htexts ↦ ?_
        obtain rfl := Option.some.inj htexts
        rw [List.length_cons, List.length_cons, hlength rendered rfl]

theorem quiet_renderedId (chatResponse : ChatResponse) :
    Quiet (renderedId env call chatResponse) := by
  rw [renderedId]
  split
  · exact (quiet_ask _).bind fun _ ↦ Keeps.pure _
  · exact Keeps.pure _

theorem quiet_readFailure (failure : Option StreamReadError) :
    Quiet (readFailure env ctx failure) := by
  cases failure with
  | none => exact Keeps.pure _
  | some failure => exact (quiet_ask _).bind fun _ ↦ Keeps.pure _

theorem quiet_buildProviderRequest (config : ProviderConfig) (request : ChatRequest) :
    Quiet (buildProviderRequest env config request) := by
  refine (quiet_ask _).bind fun built ↦ ?_
  cases built with
  | error error => exact Keeps.pure _
  | ok descriptor => dsimp only; split <;> exact Keeps.pure _

/-! ## Replies -/

/-- A reply is the last of the list, with the client's answer to it. -/
theorem emitReply_emitted (replies : List (Reply × Bool)) (reply : Reply) :
    Triple (fun exchange ↦ exchange.emitted = replies) (emitReply env ctx call reply)
      fun accepted exchange ↦ exchange.emitted = replies ++ [(reply, accepted)] := by
  rintro exchange rfl
  rw [emitReply, attemptEmit]
  generalize call.hasImages = hasImages
  cases hasImages <;> cases reply <;> rfl

theorem emitCancelled_oneHead :
    Triple (fun exchange ↦ exchange.emitted = []) (emitCancelled env ctx call)
      fun _ exchange ↦ OneHead exchange.emitted := by
  refine Triple.bind (emitReply_emitted [] _) fun accepted ↦ Triple.pure fun exchange h ↦ ?_
  rw [h]
  exact OneHead.whole _ _ accepted

/-- A chunk after a stream ends it or carries it on. -/
theorem emitChunk_streaming (data : String) :
    Triple (fun exchange ↦ Streaming exchange.emitted) (emitReply env ctx call (.chunk data))
      fun accepted exchange ↦ OneHead exchange.emitted ∧
        (accepted = true → Streaming exchange.emitted) := by
  intro exchange h
  have hemitted : (emitReply env ctx call (.chunk data) exchange).2.emitted = exchange.emitted ++
      [(.chunk data, (emitReply env ctx call (.chunk data) exchange).1)] :=
    emitReply_emitted exchange.emitted (.chunk data) exchange rfl
  rw [hemitted]
  refine ⟨h.oneHead_chunk data _, fun haccepted ↦ ?_⟩
  rw [haccepted]
  exact h.chunk data

theorem openStream_committed (committed : Bool) :
    Triple (fun exchange ↦ Committed committed exchange.emitted)
      (openStream env ctx call committed)
      fun opened exchange ↦ if opened then Streaming exchange.emitted
        else OneHead exchange.emitted := by
  cases committed with
  | true => exact Triple.pure fun exchange h ↦ h
  | false =>
    refine (emitReply_emitted [] .beginStream).weaken (fun exchange h ↦ h) ?_
    intro opened exchange h
    rw [List.nil_append] at h
    rw [h]
    cases opened with
    | true => exact Streaming.begin
    | false => exact OneHead.refusedStream

/-! ## Whole answers -/

theorem cancelAttempt_settled :
    Triple (fun exchange ↦ exchange.emitted = []) (cancelAttempt env ctx call)
      fun result exchange ↦ Settled result exchange.emitted := by
  refine Triple.bind ((quiet_ask _).frame (· = [])) fun lifecycle ↦ ?_
  cases lifecycle with
  | some error => exact Triple.pure fun exchange h ↦ h
  | none => exact Triple.bind emitCancelled_oneHead fun _ ↦ Triple.pure fun exchange h ↦ h

theorem responseParts_settled (response : UpstreamResponse) :
    Triple (fun exchange ↦ exchange.emitted = []) (responseParts env ctx call response)
      fun parts exchange ↦ match parts with
        | .error terminal => Settled terminal exchange.emitted
        | .ok _ => exchange.emitted = [] := by
  refine Triple.bind ((quiet_ask _).frame (· = [])) fun parts ↦ ?_
  cases parts with
  | error error =>
    refine Triple.bind ((quiet_ask _).frame (· = [])) fun cancelled ↦ Triple.ite (fun _ ↦ ?_) ?_
    · exact Triple.bind cancelAttempt_settled fun terminal ↦ Triple.pure fun exchange h ↦ h
    · exact fun _ ↦ Triple.pure fun exchange h ↦ h
  | ok parts =>
    refine Triple.bind ((quiet_ask _).frame (· = [])) fun cancelled ↦ Triple.ite (fun _ ↦ ?_) ?_
    · exact Triple.bind cancelAttempt_settled fun terminal ↦ Triple.pure fun exchange h ↦ h
    · exact fun _ ↦ Triple.pure fun exchange h ↦ h

theorem classifyProviderError_settled (config : ProviderConfig) (response : UpstreamResponse) :
    Triple (fun exchange ↦ exchange.emitted = [])
      (classifyProviderError env ctx call config response)
      fun classified exchange ↦ match classified with
        | .error _ => OneHead exchange.emitted
        | .ok _ => exchange.emitted = [] := by
  refine Triple.bind (responseParts_settled response) fun parts ↦ ?_
  match parts with
  | .error (.ok outcome) => exact Triple.pure fun exchange h ↦ h
  | .error (.error error) => exact Triple.pure fun exchange h ↦ h
  | .ok parts =>
    refine Triple.bind ((quiet_ask _).frame (· = [])) fun mapped ↦ ?_
    cases mapped with
    | error error => exact Triple.pure fun exchange h ↦ h
    | ok error => exact Triple.pure fun exchange h ↦ h

theorem translateNonstreamResponse_settled (config : ProviderConfig) (request : ChatRequest)
    (response : UpstreamResponse) :
    Triple (fun exchange ↦ exchange.emitted = [])
      (translateNonstreamResponse env ctx call config request response)
      fun result exchange ↦ Settled result exchange.emitted := by
  refine Triple.bind (responseParts_settled response) fun parts ↦ ?_
  cases parts with
  | error terminal => exact Triple.pure fun exchange h ↦ h
  | ok parts =>
    refine Triple.bind ((quiet_ask _).frame (· = [])) fun parsed ↦ ?_
    cases parsed with
    | error error => exact Triple.pure fun exchange h ↦ h
    | ok parsed =>
      have husage : Quiet (modify fun exchange ↦
          { exchange with usage := some (canonicalProviderUsage config.provider parsed.usage) } :
            StateM (Exchange W) Unit) := fun _ ↦ rfl
      refine Triple.bind (husage.frame (· = [])) fun _ ↦ ?_
      refine Triple.bind ((quiet_renderedId _).frame (· = [])) fun responseId ↦ ?_
      refine Triple.bind ((quiet_ask _).frame (· = [])) fun rendered ↦ ?_
      cases rendered with
      | error error => exact Triple.pure fun exchange h ↦ h
      | ok rendered =>
        refine Triple.bind (emitReply_emitted [] _) fun accepted ↦ ?_
        have hwhole : ∀ exchange : Exchange W,
            exchange.emitted = [] ++ [(.beginJson 200 (env.jsonText rendered), accepted)] →
              OneHead exchange.emitted := by
          intro exchange h
          rw [h]
          exact OneHead.whole 200 _ accepted
        exact Triple.ite (fun _ ↦ Triple.pure hwhole) fun _ ↦ Triple.pure hwhole

/-! ## Streams -/

variable {context : RenderContext} {config : ProviderConfig}

/-- The error of a stream is returned before the commit point, and one more chunk after it. -/
theorem terminateStream_settled (envelope : ErrorEnvelope) (committed : Bool) :
    Triple (fun exchange ↦ Committed committed exchange.emitted)
      (terminateStream env ctx call context envelope committed)
      fun result exchange ↦ Settled result exchange.emitted := by
  cases committed with
  | false =>
    exact Triple.bind ((quiet_clearStreamState context).frame (· = [])) fun _ ↦
      Triple.pure fun exchange h ↦ h
  | true =>
    have hcode : Quiet (modify fun exchange ↦ { exchange with
        errorCode := some (sanitizeAttemptErrorForRender envelope).code } :
        StateM (Exchange W) Unit) := fun _ ↦ rfl
    refine Triple.bind (hcode.frame Streaming) fun _ ↦ ?_
    refine Triple.bind ((quiet_renderStreamError _ context).frame Streaming) fun rendered ↦ ?_
    refine Triple.bind (emitChunk_streaming rendered) fun accepted ↦ ?_
    have hclear : Quiet (clearStreamState env call context) := quiet_clearStreamState context
    exact Triple.bind ((hclear.frame OneHead).weaken (fun _ h ↦ h.1) fun _ _ h ↦ h) fun _ ↦
      Triple.pure fun exchange h ↦ h

theorem abandonStream_settled :
    Triple (fun exchange ↦ OneHead exchange.emitted) (abandonStream env call context)
      fun result exchange ↦ Settled result exchange.emitted :=
  Triple.bind ((quiet_clearStreamState context).frame OneHead) fun _ ↦ Triple.pure fun _ h ↦ h

theorem cancelStream_settled (committed : Bool) :
    Triple (fun exchange ↦ Committed committed exchange.emitted)
      (cancelStream env ctx call context committed)
      fun result exchange ↦ Settled result exchange.emitted := by
  refine Triple.bind ((quiet_ask _).frame (Committed committed)) fun lifecycle ↦ ?_
  cases lifecycle with
  | some envelope => exact terminateStream_settled envelope committed
  | none =>
    refine Triple.bind ((quiet_clearStreamState context).frame (Committed committed)) fun _ ↦ ?_
    cases committed with
    | false => exact Triple.bind emitCancelled_oneHead fun _ ↦ Triple.pure fun exchange h ↦ h
    | true =>
      exact Triple.pure fun exchange (h : Streaming exchange.emitted) ↦ h.oneHead

/-- The chunks of a batch carry the stream on. -/
theorem relayChunks_relayed (chunks : List (StreamEvent × String)) {committed : Bool}
    (delivered terminal : Bool) (hchunks : committed = true ∨ chunks ≠ []) :
    Triple (fun exchange ↦ Streaming exchange.emitted)
      (relayChunks env ctx call context committed delivered terminal chunks)
      fun relay exchange ↦ Relayed relay exchange.emitted := by
  induction chunks generalizing committed delivered terminal with
  | nil =>
    obtain rfl : committed = true := hchunks.resolve_right fun h ↦ h rfl
    rw [relayChunks]
    refine Triple.ite (fun _ ↦ ?_) fun _ ↦ Triple.pure fun exchange h ↦ h
    exact Triple.bind ((quiet_clearStreamState context).frame Streaming) fun _ ↦
      Triple.pure fun exchange h ↦ h.oneHead
  | cons chunk chunks ih =>
    obtain ⟨event, data⟩ := chunk
    rw [relayChunks]
    refine Triple.bind (emitChunk_streaming data) fun accepted ↦ ?_
    refine Triple.ite (fun haccepted ↦ Triple.ite (fun _ ↦ ?_) fun _ ↦ ?_) fun _ ↦ ?_
    · exact (ih delivered true (.inl rfl)).weaken (fun _ h ↦ h.2 haccepted) fun _ _ h ↦ h
    · exact (ih true terminal (.inl rfl)).weaken (fun _ h ↦ h.2 haccepted) fun _ _ h ↦ h
    · exact Triple.bind (abandonStream_settled.weaken (fun _ h ↦ h.1) fun _ _ h ↦ h) fun _ ↦
        Triple.pure fun exchange h ↦ h

theorem relayFrame_relayed (committed delivered : Bool) (data : String) :
    Triple (fun exchange ↦ Committed committed exchange.emitted)
      (relayFrame env ctx call config context committed delivered data)
      fun relay exchange ↦ Relayed relay exchange.emitted := by
  have hterminate : ∀ envelope : ErrorEnvelope,
      Triple (fun exchange ↦ Committed committed exchange.emitted)
        (do
          let result ← terminateStream env ctx call context envelope committed
          pure (.ended result))
        fun relay exchange ↦ Relayed relay exchange.emitted := fun envelope ↦
    Triple.bind (terminateStream_settled envelope committed) fun _ ↦ Triple.pure fun _ h ↦ h
  refine Triple.bind ((quiet_ask _).frame (Committed committed)) fun parsed ↦ ?_
  cases parsed with
  | error envelope => exact hterminate envelope
  | ok parsed =>
    refine Triple.bind ((quiet_absorbRecordUsage _).frame (Committed committed)) fun _ ↦ ?_
    split
    next error _ => exact hterminate error
    next =>
      refine Triple.ite (fun _ ↦ hterminate _) fun _ ↦ ?_
      refine Triple.bind ((renderAll_length context _).and
        ((quiet_renderAll context _).frame (Committed committed))) fun rendered ↦ ?_
      refine Triple.ofAnd fun hlength ↦ ?_
      cases rendered with
      | error envelope => exact hterminate envelope
      | ok rendered =>
        refine Triple.ite (fun _ ↦ Triple.pure fun _ h ↦ h) fun hrendered ↦ ?_
        refine Triple.bind (openStream_committed committed) fun opened ↦ ?_
        cases opened with
        | true =>
          -- as many texts as events, and not none
          refine relayChunks_relayed _ delivered false (.inr ?_)
          have hevents := hlength rendered rfl
          intro hzip
          rcases List.zip_eq_nil_iff.mp hzip with hnil | hnil
          · rw [hnil, List.length_nil, List.length_eq_zero_iff] at hevents
            exact hrendered (by rw [hevents]; rfl)
          · exact hrendered (by rw [hnil]; rfl)
        | false => exact Triple.bind abandonStream_settled fun _ ↦ Triple.pure fun _ h ↦ h

theorem relayFrames_relayed (committed delivered : Bool) (frames : List String) :
    Triple (fun exchange ↦ Committed committed exchange.emitted)
      (relayFrames env ctx call config context committed delivered frames)
      fun relay exchange ↦ Relayed relay exchange.emitted := by
  induction frames generalizing committed delivered with
  | nil => exact Triple.pure fun _ h ↦ h
  | cons data frames ih =>
    refine Triple.bind (relayFrame_relayed committed delivered data) fun relay ↦ ?_
    cases relay with
    | ended result => exact Triple.pure fun _ h ↦ h
    | running committed delivered => exact ih committed delivered

/-- Only a stream that has begun can have seen its terminal event. -/
theorem relayRest_settled (events : List StreamEvent) {committed terminal : Bool}
    (hterminal : terminal = true → committed = true) :
    Triple (fun exchange ↦ Committed committed exchange.emitted)
      (relayRest env ctx call context committed terminal events)
      fun result exchange ↦ Settled result exchange.emitted := by
  induction events generalizing committed terminal with
  | nil =>
    rw [relayRest]
    refine Triple.ite (fun hdone ↦ ?_) fun _ ↦ terminateStream_settled _ committed
    obtain rfl := hterminal hdone
    exact Triple.bind ((quiet_clearStreamState context).frame Streaming) fun _ ↦
      Triple.pure fun _ h ↦ h.oneHead
  | cons event events ih =>
    refine Triple.bind ((quiet_ask _).frame (Committed committed)) fun chunk ↦ ?_
    cases chunk with
    | error envelope => exact terminateStream_settled envelope committed
    | ok chunk =>
      refine Triple.bind (openStream_committed committed) fun opened ↦ ?_
      cases opened with
      | false => exact abandonStream_settled
      | true =>
        refine Triple.bind (emitChunk_streaming _) fun accepted ↦ Triple.ite (fun haccepted ↦ ?_) ?_
        · exact (ih fun _ ↦ rfl).weaken (fun _ h ↦ h.2 haccepted) fun _ _ h ↦ h
        · exact fun _ ↦ abandonStream_settled.weaken (fun _ h ↦ h.1) fun _ _ h ↦ h

theorem relayEnd_settled (decoder : SseFrameDecoder) (committed delivered : Bool) :
    Triple (fun exchange ↦ Committed committed exchange.emitted)
      (relayEnd env ctx call config context decoder committed delivered)
      fun result exchange ↦ Settled result exchange.emitted := by
  rw [relayEnd]
  split
  · exact terminateStream_settled _ committed
  · refine Triple.bind ((quiet_ask _).frame (Committed committed)) fun parsed ↦ ?_
    cases parsed with
    | error envelope => exact terminateStream_settled envelope committed
    | ok parsed =>
      refine Triple.bind ((quiet_absorbRecordUsage _).frame (Committed committed)) fun _ ↦ ?_
      split
      · exact terminateStream_settled _ committed
      · exact Triple.ite (fun _ ↦ terminateStream_settled _ committed) fun _ ↦
          relayRest_settled _ nofun

/-- **The relay never mixes two responses**: from every state it can be in, however the stream and
the client go on. -/
theorem relayStream_settled (decoder : SseFrameDecoder) (committed delivered : Bool)
    (reads : List StreamRead) :
    Triple (fun exchange ↦ Committed committed exchange.emitted)
      (relayStream env ctx call config context decoder committed delivered reads)
      fun result exchange ↦ Settled result exchange.emitted := by
  induction reads generalizing decoder committed delivered with
  | nil =>
    refine Triple.bind ((quiet_ask _).frame (Committed committed)) fun cancelled ↦ ?_
    exact Triple.ite (fun _ ↦ cancelStream_settled committed) fun _ ↦
      relayEnd_settled decoder committed delivered
  | cons read reads ih =>
    refine Triple.bind ((quiet_ask _).frame (Committed committed)) fun cancelled ↦ ?_
    refine Triple.ite (fun _ ↦ cancelStream_settled committed) fun _ ↦ ?_
    cases read with
    | failed failure =>
      refine Triple.bind ((quiet_ask _).frame (Committed committed)) fun cancelled ↦ ?_
      refine Triple.ite (fun _ ↦ cancelStream_settled committed) fun _ ↦ ?_
      exact Triple.bind ((quiet_readFailure failure).frame (Committed committed)) fun envelope ↦
        terminateStream_settled envelope committed
    | data bytes =>
      refine Triple.ite (fun _ ↦ relayEnd_settled decoder committed delivered) fun _ ↦ ?_
      split
      · exact terminateStream_settled _ committed
      next frames decoder _ =>
        refine Triple.bind (relayFrames_relayed committed delivered frames) fun relay ↦ ?_
        cases relay with
        | ended result => exact Triple.pure fun _ h ↦ h
        | running committed delivered => exact ih decoder committed delivered

theorem translateStreamResponse_settled (request : ChatRequest) (target : UpstreamModel)
    (response : UpstreamResponse) :
    Triple (fun exchange ↦ exchange.emitted = [])
      (translateStreamResponse env ctx call config request target response)
      fun result exchange ↦ Settled result exchange.emitted :=
  Triple.bind ((quiet_ask _).frame (· = [])) fun _ ↦
    relayStream_settled {} false false response.body

/-! ## The attempt -/

/-- **One attempt hands on at most one response**, and nothing if it returns an error. -/
theorem canonicalAttempt_settled (upstreams : AList fun _ : String ↦ ProviderConfig)
    (target : UpstreamModel) :
    Triple (fun exchange ↦ exchange.emitted = []) (canonicalAttempt env ctx call upstreams target)
      fun result exchange ↦ Settled result exchange.emitted := by
  have hdeadline := (quiet_ask (attemptDeadline env ctx)).frame (· = [])
  refine Triple.bind hdeadline fun deadline ↦ ?_
  split
  · exact Triple.pure fun _ h ↦ h
  next config _ =>
    refine Triple.bind ((quiet_buildProviderRequest config _).frame (· = [])) fun built ↦ ?_
    cases built with
    | error error => exact Triple.pure fun _ h ↦ h
    | ok descriptor =>
      refine Triple.bind ((quiet_ask _).frame (· = [])) fun sent ↦ ?_
      cases sent with
      | error error =>
        refine Triple.bind ((quiet_ask _).frame (· = [])) fun cancelled ↦ ?_
        exact Triple.ite (fun _ ↦ cancelAttempt_settled) fun _ ↦ Triple.pure fun _ h ↦ h
      | ok response =>
        have hstatus : Quiet (modify fun exchange ↦ { exchange with
            upstreamHttpStatus := some response.status } : StateM (Exchange W) Unit) := fun _ ↦ rfl
        refine Triple.bind (hstatus.frame (· = [])) fun _ ↦ ?_
        split
        · exact Triple.pure fun _ h ↦ h
        · refine Triple.ite (fun _ ↦ ?_) fun _ ↦ ?_
          · refine Triple.bind (classifyProviderError_settled config response) fun classified ↦ ?_
            cases classified with
            | error outcome => exact Triple.pure fun _ h ↦ h
            | ok error => exact Triple.pure fun _ h ↦ h
          · refine Triple.bind ((quiet_ask _).frame (· = [])) fun _ ↦ ?_
            exact Triple.ite (fun _ ↦ translateStreamResponse_settled _ target response) fun _ ↦
              translateNonstreamResponse_settled config _ response

end Attempt

end TokenStation
