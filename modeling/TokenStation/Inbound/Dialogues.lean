import TokenStation.Inbound.HostPrivate
import TokenStation.Inbound.ResponsesReplies
import TokenStation.Inbound.Retention

/-!
# What an id should stand for

The abstract side of the store, without its limits: the conversations themselves. A turn is what was
asked and what was answered, and `Dialogue.latest` says which conversation the latest reply with an
id has ended, in a scope. It is nothing where that reply failed, was too large or could not be kept.
The host gives every call its own key, and hands the key to every call of the adapter about it.
-/

namespace TokenStation

namespace Responses

open ContinuationStore JsonValue

/-! ## Conversations -/

/-- One turn of a conversation. -/
structure Turn where
  scope : String
  /-- What was asked, less the instructions of this turn alone. -/
  input : List CanonicalMessage
  /-- What was asked, as it came. -/
  items : List JsonValue
  output : List CanonicalMessage
  /-- What was answered, as it came, if it was passed on so. -/
  nativeOutput : Option (List JsonValue)

/-- All inputs and outputs of a conversation, in their order. -/
def messagesOf (turns : List Turn) : List CanonicalMessage :=
  turns.flatMap fun turn ↦ turn.input ++ turn.output

/-- The same as they came, if every turn was native. -/
def nativeOf (turns : List Turn) : Option (List JsonValue) :=
  if turns.all fun turn ↦ turn.nativeOutput.isSome then
    some (turns.flatMap fun turn ↦ turn.items ++ turn.nativeOutput.getD [])
  else none

/-- A call that was accepted, and the conversation that it continues. -/
structure Asked where
  key : Option String
  scope : String
  prior : List Turn
  input : List CanonicalMessage
  items : List JsonValue

namespace Asked

/-- The conversation with the reply to the call. -/
def answered (asked : Asked) (output : List CanonicalMessage)
    (nativeOutput : Option (List JsonValue)) : List Turn :=
  asked.prior ++ [{ scope := asked.scope, input := lasting asked.input, items := asked.items,
                    output, nativeOutput }]

/-- Whether the input of the call is still reserved. -/
def isReserved (asked : Asked) (store : ContinuationStore) : Bool :=
  asked.key.any fun key ↦ (store.pending.lookup key).isSome

end Asked

/-! ## Replies -/

/-- The end of a reply: it failed, or it said something. -/
inductive ReplyEnd where
  | failed (responseId : String)
  | said (responseId : String) (output : List CanonicalMessage)
      (nativeOutput : Option (List JsonValue))

section Ends

variable {S : Type} (codec : ResponsesCodec) (writer : ReplyCodec S)

/-- How a native reply ends. It says something if it is complete and can be replayed. -/
def nativeEnd (native : JsonValue) : Option ReplyEnd :=
  match nativeReply native with
  | none => (memberStr "id" native).map .failed
  | some (responseId, output) =>
    match inputMessages codec (array output) with
    | .ok messages => some (.said responseId messages (some output))
    | .error _ => some (.failed responseId)

/-- How a whole reply ends. -/
def responseEnd (response : CanonicalResponse) (context : JsonValue) : Option ReplyEnd :=
  match context.member nativeResponseExtension with
  | some native => nativeEnd codec native
  | none =>
    let (responseId, model) := contextIdentity context response.id response.model
    match writer.responsesResponse response (codecContext context responseId model) with
    | .ok _ => some (.said responseId response.messages none)
    | .error _ => some (.failed responseId)

/-- How an event ends a stream that was open, if it does. -/
def openStreamEnd (event : StreamEvent) (context : JsonValue) (streamId : String)
    (facts : ResponsesContext) (adapter : ResponsesAdapter S) : Option ReplyEnd :=
  let state := (adapter.streams.lookup streamId).getD
    { context := facts, continuationKey := contextKey context, codec := writer.newStream facts }
  if !writer.sameContext state.context facts ∨ state.continuationKey ≠ contextKey context then
    some (.failed facts.responseId)
  else
    match writer.eventJson event state.codec with
    | (.error _, _) => some (.failed facts.responseId)
    | (.ok _, after) =>
      if writer.isTerminated after then
        match writer.terminalResponse after with
        | some response => some (.said facts.responseId response.messages none)
        | none => some (.failed facts.responseId)
      else none

/-- How an event ends a stream, if it does. -/
def streamEnd (event : StreamEvent) (context : JsonValue) (adapter : ResponsesAdapter S) :
    Option ReplyEnd :=
  match streamFacts context with
  | .error _ => none
  | .ok (streamId, facts) =>
    match finishedAs streamId facts adapter with
    | some previous =>
      if writer.sameContext previous facts then none else some (.failed facts.responseId)
    | none => openStreamEnd writer event context streamId facts adapter

end Ends

/-! ## Runs -/

/-- The adapter, with the calls that it has accepted and what its replies have said. -/
structure Dialogue (S : Type) where
  adapter : ResponsesAdapter S := {}
  asked : List Asked := []
  /-- What the latest reply with an id has said, in a scope. -/
  latest : String × String → Option (List Turn) := fun _ ↦ none

/-- A call, or a call of the adapter about the reply to one. -/
inductive DialogueEvent where
  | ask (lookedUpAt begunAt : ℕ) (envelope : AgentRequestEnvelope)
  | respond (turn now : ℕ) (response : CanonicalResponse) (context : JsonValue)
  | stream (turn now : ℕ) (event : StreamEvent) (context : JsonValue)

section Runs

variable {S : Type} (codec : ResponsesCodec) (writer : ReplyCodec S)

/-- A reply can be kept: its call is still reserved, and the conversation is not too large. -/
def Keeps (store : ContinuationStore) (asked : Asked) (output : List CanonicalMessage)
    (nativeOutput : Option (List JsonValue)) : Prop :=
  asked.isReserved store = true ∧
    continuationBytes codec (messagesOf (asked.answered output nativeOutput))
      (nativeOf (asked.answered output nativeOutput)) ≤ maxContinuationEntryBytes

instance (store : ContinuationStore) (asked : Asked) (output : List CanonicalMessage)
    (nativeOutput : Option (List JsonValue)) :
    Decidable (Keeps codec store asked output nativeOutput) :=
  inferInstanceAs (Decidable (_ ∧ _))

/-- What the replies have said, after one more. -/
def recordEnd (store : ContinuationStore) (asked : Asked)
    (latest : String × String → Option (List Turn)) :
    Option ReplyEnd → String × String → Option (List Turn)
  | none => latest
  | some (.failed responseId) => Function.update latest (asked.scope, responseId) none
  | some (.said responseId output nativeOutput) =>
    Function.update latest (asked.scope, responseId)
      (if Keeps codec store asked output nativeOutput then
        some (asked.answered output nativeOutput)
      else none)

/-- What a call continues. -/
def priorTurns (latest : String × String → Option (List Turn)) (scope : String)
    (body : JsonValue) : List Turn :=
  match memberStr "previous_response_id" body with
  | none => []
  | some responseId => (latest (scope, responseId)).getD []

/-- An accepted call. -/
def askedOf (latest : String × String → Option (List Turn)) (envelope : AgentRequestEnvelope)
    (scope : String) (parsed request : CanonicalRequest) : Asked where
  key := (request.extensions.lookup continuationKeyExtension).bind asStr
  scope
  prior := priorTurns latest scope envelope.body
  input := parsed.messages
  items := inputItems envelope.body

def Dialogue.step (event : DialogueEvent) (dialogue : Dialogue S) : Dialogue S :=
  match event with
  | .ask lookedUpAt begunAt envelope =>
    let (result, store) :=
      normalizeInbound codec lookedUpAt begunAt envelope dialogue.adapter.store
    let adapter := { dialogue.adapter with store }
    match result, continuationScope envelope, codec.chatRequestFromResponses envelope.body with
    | .ok request, .ok scope, .ok parsed =>
      { dialogue with
        adapter
        asked := dialogue.asked ++ [askedOf dialogue.latest envelope scope parsed request] }
    | _, _, _ => { dialogue with adapter }
  | .respond turn now response context =>
    match dialogue.asked[turn]? with
    | none => dialogue
    | some asked =>
      { dialogue with
        adapter := (renderResponse codec writer now response context dialogue.adapter).2
        latest := recordEnd codec dialogue.adapter.store asked dialogue.latest
          (responseEnd codec writer response context) }
  | .stream turn now event context =>
    match dialogue.asked[turn]? with
    | none => dialogue
    | some asked =>
      { dialogue with
        adapter := (renderStreamEvent codec writer now event context dialogue.adapter).2
        latest := recordEnd codec dialogue.adapter.store asked dialogue.latest
          (streamEnd writer event context dialogue.adapter) }

/-- What the host promises: every call has its own key, and a call of the adapter about a reply
bears the key that the adapter has given back. -/
def Permitted (dialogue : Dialogue S) : DialogueEvent → Prop
  | .ask _ _ envelope => ∀ asked ∈ dialogue.asked, ∀ key, asked.key = some key →
    envelope.extensions.lookup continuationKeyExtension ≠ some (.string key)
  | .respond turn _ _ context | .stream turn _ _ context =>
    ∀ asked, dialogue.asked[turn]? = some asked → contextKey context = asked.key

/-- A reply does not leave an older conversation under its id, and marks nothing as the instructions
of one turn. -/
def EndsClean (store : ContinuationStore) (asked : Asked) : Option ReplyEnd → Prop
  | none => True
  | some (.failed responseId) => store.history.lookup (asked.scope, responseId) = none
  | some (.said responseId output nativeOutput) =>
    (store.history.lookup (asked.scope, responseId) = none ∨
      Keeps codec store asked output nativeOutput) ∧
    ∀ message ∈ output, isTransient message = false

/-- The reply of a step ends clean. -/
def Clean (dialogue : Dialogue S) : DialogueEvent → Prop
  | .ask _ _ _ => True
  | .respond turn _ response context => ∀ asked, dialogue.asked[turn]? = some asked →
    EndsClean codec dialogue.adapter.store asked (responseEnd codec writer response context)
  | .stream turn _ event context => ∀ asked, dialogue.asked[turn]? = some asked →
    EndsClean codec dialogue.adapter.store asked
      (streamEnd writer event context dialogue.adapter)

/-- The state after a run. -/
def Dialogue.run (events : List DialogueEvent) (dialogue : Dialogue S) : Dialogue S :=
  events.foldl (fun dialogue event ↦ dialogue.step codec writer event) dialogue

/-- Every step of a run has a property, in the state it is taken in. -/
def Dialogue.Always (P : Dialogue S → DialogueEvent → Prop) :
    List DialogueEvent → Dialogue S → Prop
  | [], _ => True
  | event :: events, dialogue =>
    P dialogue event ∧ Dialogue.Always P events (dialogue.step codec writer event)

end Runs

/-- What a call that continues an id gets: the whole conversation that the latest reply with this id
has ended in the scope of the call, and as it came if it was native throughout. -/
structure Replays {S : Type} (codec : ResponsesCodec) (dialogue : Dialogue S) : Prop where
  whole : ∀ {lookedUpAt begunAt envelope request responseId},
    (normalizeInbound codec lookedUpAt begunAt envelope dialogue.adapter.store).1 = .ok request →
    memberStr "previous_response_id" envelope.body = some responseId →
    ∃ scope parsed turns, continuationScope envelope = .ok scope ∧
      codec.chatRequestFromResponses envelope.body = .ok parsed ∧
      dialogue.latest (scope, responseId) = some turns ∧
      request.messages = insertHistory (messagesOf turns) parsed.messages ∧
      request.extensions.lookup nativeInputExtension =
        (nativeOf turns).map fun items ↦ .array (items ++ inputItems envelope.body)
  /-- A conversation has turns of its own scope only. -/
  ownScope : ∀ {scope responseId turns}, dialogue.latest (scope, responseId) = some turns →
    turns ≠ [] ∧ ∀ turn ∈ turns, turn.scope = scope

end Responses

end TokenStation
