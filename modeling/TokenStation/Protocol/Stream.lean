import TokenStation.Protocol.Chat
import TokenStation.Protocol.Usage

/-!
# Provider answers

What a provider's whole answer and its stream are parsed into, and how one exchange can end.
-/

namespace TokenStation

inductive FinishReason where
  | stop
  | length
  | toolCalls
  | contentFilter
  | stopSequence
  | other (reason : String)
  deriving DecidableEq

structure Choice where
  index : ℕ
  message : Message
  finishReason : Option FinishReason
  stopSequence : Option String

/-- A provider's whole answer. -/
structure ChatResponse where
  id : String
  /-- The model that served the request, which may differ from the one that was asked for. -/
  model : String
  choices : List Choice
  usage : Usage

/-- One event of a canonical stream. -/
inductive StreamEvent where
  | delta (index : ℕ) (content : String)
  | toolCallDelta (index : ℕ) (id name : Option String) (argumentsDelta : String)
  | usage (usage : Usage)
  | thinkingDelta (index blockIndex : ℕ) (thinkingDelta : String)
  | thinkingSignatureDelta (index blockIndex : ℕ) (signatureDelta : String)
  | redactedThinking (index blockIndex : ℕ) (data : String)
  | finish (finishReason : Option FinishReason) (stopSequence : Option String)
  | done (finishReason : Option FinishReason) (stopSequence : Option String)
  | error (error : ErrorEnvelope)

namespace StreamEvent

/-- Whether this is the terminal event. -/
def isDone : StreamEvent → Bool
  | done _ _ => true
  | _ => false

/-- The error that an event carries. -/
def error? : StreamEvent → Option ErrorEnvelope
  | error envelope => some envelope
  | _ => none

/-- The usage that an event reports. -/
def usage? : StreamEvent → Option Usage
  | usage report => some report
  | _ => none

end StreamEvent

/-- How one exchange actually ended. -/
inductive StreamOutcome where
  | complete
  | failedAfterPartial
  | failedBeforeOutput
  | clientCancelled
  deriving DecidableEq, Repr

/-- Provider data enters the host's representation. -/
def canonicalProviderEvents (provider : String) (events : List StreamEvent) : List StreamEvent :=
  events.map fun event ↦
    match event with
    | .usage usage => .usage (canonicalProviderUsage provider usage)
    | event => event

end TokenStation
