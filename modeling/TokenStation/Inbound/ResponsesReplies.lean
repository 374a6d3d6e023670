import TokenStation.Inbound.Responses

/-!
# Replies in the dialect of Responses

A reply that the adapter writes, or that the host hands over as the upstream wrote it, ends the
reservation of its call. A stream is written event by event, and ends it with its last event, with
an error, or when its context changes.
-/

namespace TokenStation

namespace Responses

open JsonValue

/-! ## What the codec writes -/

structure CanonicalChoice where
  index : ℕ
  message : CanonicalMessage
  finishReason : Option FinishReason
  stopSequence : Option String := none

/-- A provider's whole answer, with everything that a message has. -/
structure CanonicalResponse where
  id : String
  model : String
  choices : List CanonicalChoice
  usage : Usage

def CanonicalResponse.messages (response : CanonicalResponse) : List CanonicalMessage :=
  response.choices.map CanonicalChoice.message

/-- What the codec is told about a reply. Its options are the same for all. -/
structure ResponsesContext where
  responseId : String
  model : String
  inboundTools : JsonValue

/-- The writing half of the third-party codec, with the states of its streams. -/
structure ReplyCodec (S : Type) where
  responsesResponse : CanonicalResponse → ResponsesContext → Except ErrorEnvelope JsonValue
  newStream : ResponsesContext → S
  eventJson : StreamEvent → S → Except ErrorEnvelope JsonValue × S
  isTerminated : S → Bool
  /-- What a terminated stream has said, unless it failed. -/
  terminalResponse : S → Option CanonicalResponse
  /-- The derived equality of contexts. -/
  sameContext : ResponsesContext → ResponsesContext → Bool

/-! ## The adapter -/

structure ResponsesStream (S : Type) where
  context : ResponsesContext
  continuationKey : Option String
  codec : S

/-- The state of the adapter. -/
structure ResponsesAdapter (S : Type) where
  store : ContinuationStore := {}
  streams : AList fun _ : String ↦ ResponsesStream S := ∅
  /-- Streams that have ended, the latest last. -/
  finished : List (String × ResponsesContext) := []

def nativeResponseExtension : String := "token_station_private_native_response"

def contextKey (context : JsonValue) : Option String := memberStr continuationKeyExtension context

/-- `context_identity`: the id and the model of a reply. -/
def contextIdentity (context : JsonValue) (fallbackId fallbackModel : String) : String × String :=
  ((memberStr "response_id" context).getD fallbackId,
    (memberStr "model" context).getD fallbackModel)

def codecContext (context : JsonValue) (responseId model : String) : ResponsesContext :=
  { responseId, model, inboundTools := context.index "inbound_tools" }

section Render

variable {S : Type} (codec : ResponsesCodec) (writer : ReplyCodec S) (now : ℕ)

/-- `render_response`. A native reply is written as it is. -/
def renderResponse (response : CanonicalResponse) (context : JsonValue)
    (adapter : ResponsesAdapter S) : Except ErrorEnvelope JsonValue × ResponsesAdapter S :=
  match context.member nativeResponseExtension with
  | some native =>
    (.ok native, match contextKey context with
      | some key => { adapter with store := adapter.store.completeNative codec now key native }
      | none => adapter)
  | none =>
    let (responseId, model) := contextIdentity context response.id response.model
    match writer.responsesResponse response (codecContext context responseId model) with
    | .error error => (.error error, adapter)
    | .ok rendered =>
      (.ok rendered, match contextKey context with
        | some key =>
          { adapter with
            store := adapter.store.complete codec now key responseId response.messages none }
        | none => adapter)

/-- Give the reservation of a stream up, if it has one. -/
def abandonStream (key : Option String) (store : ContinuationStore) : ContinuationStore :=
  match key with
  | some key => store.abandon key
  | none => store

/-- What the end of a stream does to the store. -/
def endStream (state : ResponsesStream S) (ended : S) (responseId : String)
    (store : ContinuationStore) : ContinuationStore :=
  match state.continuationKey with
  | none => store
  | some key =>
    match writer.terminalResponse ended with
    | some response => store.complete codec now key responseId response.messages none
    | none => store.abandon key

/-- The streams that have ended, with one more. -/
def pushFinished (streamId : String) (facts : ResponsesContext)
    (finished : List (String × ResponsesContext)) : List (String × ResponsesContext) :=
  let finished := finished ++ [(streamId, facts)]
  if maxContinuationEntries < finished.length then finished.drop 1 else finished

def changedMidStream : ErrorEnvelope :=
  invalid "stream render context changed response_id or model mid-stream"

/-- One event of a stream that has not ended. -/
def renderOpenStream (event : StreamEvent) (context : JsonValue) (streamId : String)
    (facts : ResponsesContext) (adapter : ResponsesAdapter S) :
    Except ErrorEnvelope JsonValue × ResponsesAdapter S :=
  let state := (adapter.streams.lookup streamId).getD
    { context := facts, continuationKey := contextKey context, codec := writer.newStream facts }
  if !writer.sameContext state.context facts ∨ state.continuationKey ≠ contextKey context then
    (.error changedMidStream,
      { adapter with
        streams := adapter.streams.erase streamId
        store := abandonStream state.continuationKey adapter.store })
  else
    match writer.eventJson event state.codec with
    | (.error error, after) =>
      -- the state stays for the failure that the host sends next
      (.error error,
        { adapter with
          streams := adapter.streams.insert streamId { state with codec := after }
          store := abandonStream state.continuationKey adapter.store })
    | (.ok rendered, after) =>
      if writer.isTerminated after then
        (.ok rendered,
          { streams := adapter.streams.erase streamId
            store := endStream codec writer now state after facts.responseId adapter.store
            finished := pushFinished streamId facts adapter.finished })
      else
        (.ok rendered,
          { adapter with
            streams := adapter.streams.insert streamId { state with codec := after } })

/-- What the context of a stream says. -/
def streamFacts (context : JsonValue) : Except ErrorEnvelope (String × ResponsesContext) := do
  let streamId ← orInvalid (memberStr "stream_id" context)
    "stream render context declares no stream_id"
  let responseId ← orInvalid (memberStr "response_id" context)
    "stream render context declares no response_id"
  let model ← orInvalid (memberStr "model" context) "stream render context declares no model"
  pure (streamId, codecContext context responseId model)

/-- Whether a stream has ended already. -/
def finishedAs (streamId : String) (facts : ResponsesContext) (adapter : ResponsesAdapter S) :
    Option ResponsesContext :=
  (adapter.finished.find? fun entry ↦
    entry.1 == streamId && entry.2.responseId == facts.responseId).map Prod.snd

/-- `render_stream_event`. -/
def renderStreamEvent (event : StreamEvent) (context : JsonValue) (adapter : ResponsesAdapter S) :
    Except ErrorEnvelope JsonValue × ResponsesAdapter S :=
  match streamFacts context with
  | .error error => (.error error, adapter)
  | .ok (streamId, facts) =>
    match finishedAs streamId facts adapter with
    | some previous =>
      if writer.sameContext previous facts then (.ok (object [("data", string "")]), adapter)
      else (.error changedMidStream, adapter)
    | none => renderOpenStream codec writer now event context streamId facts adapter

end Render

end Responses

end TokenStation
