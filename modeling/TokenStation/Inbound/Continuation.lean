import Mathlib.Data.List.MinMax
import Mathlib.Data.Prod.Lex
import Mathlib.Data.String.Basic
import TokenStation.Inbound.Request

/-!
# Conversations that an id continues

The Responses protocol lets a call continue an earlier one by the id of its reply. The adapter keeps
what it needs for that in a bounded store. A call reserves its input under a key of the host, and
the reply turns the reservation into a history under the reply's id, in the scope of the caller.
-/

namespace TokenStation

open JsonValue

/-- The third-party codec of the Responses protocol, and the sizes of what it reads. -/
structure ResponsesCodec where
  chatRequestFromResponses : JsonValue → Except ErrorEnvelope CanonicalRequest
  /-- The bytes of messages as a document. -/
  messagesBytes : List CanonicalMessage → ℕ
  itemsBytes : List JsonValue → ℕ

def continuationTtlMs : ℕ := 30 * 60 * 1000
def pendingContinuationTtlMs : ℕ := 5 * 60 * 1000
def maxContinuationEntries : ℕ := 64
def maxPendingContinuations : ℕ := 64
def maxContinuationEntryBytes : ℕ := 2 * 1024 * 1024
def maxContinuationTotalBytes : ℕ := 16 * 1024 * 1024

def transientInstructionsExtension : String := "responses_transient_instructions"

structure ContinuationHistory where
  messages : List CanonicalMessage
  nativeItems : Option (List JsonValue)
  createdAtMs : ℕ
  sequence : UInt64
  bytes : ℕ

structure PendingContinuation where
  scope : String
  messages : List CanonicalMessage
  nativeItems : Option (List JsonValue)
  createdAtMs : ℕ
  bytes : ℕ

/-- Histories by scope and reply, reservations by the host's key. -/
structure ContinuationStore where
  history : AList fun _ : String × String ↦ ContinuationHistory := ∅
  pending : AList fun _ : String ↦ PendingContinuation := ∅
  nextSequence : UInt64 := 0
  totalBytes : ℕ := 0

namespace ContinuationStore

variable (store : ContinuationStore)

def allocateSequence : UInt64 := max (store.nextSequence + 1) 1

/-- Forget a history. -/
def removeHistory (key : String × String) : ContinuationStore :=
  match store.history.lookup key with
  | none => store
  | some entry =>
    { store with history := store.history.erase key, totalBytes := store.totalBytes - entry.bytes }

/-- Give a reservation up. -/
def abandon (key : String) : ContinuationStore :=
  match store.pending.lookup key with
  | none => store
  | some entry =>
    { store with pending := store.pending.erase key, totalBytes := store.totalBytes - entry.bytes }

def expiredHistory (now : ℕ) : List (String × String) :=
  (store.history.entries.filter fun entry ↦
    decide (continuationTtlMs ≤ now - entry.2.createdAtMs)).map Sigma.fst

def expiredPending (now : ℕ) : List String :=
  (store.pending.entries.filter fun entry ↦
    decide (pendingContinuationTtlMs ≤ now - entry.2.createdAtMs)).map Sigma.fst

/-- Forget what is too old. -/
def prune (now : ℕ) : ContinuationStore :=
  let fresh := (store.expiredHistory now).foldl removeHistory store
  (store.expiredPending now).foldl abandon fresh

/-- The history with the lowest sequence number. -/
def oldestHistory : Option (String × String) :=
  (store.history.entries.argmin fun entry ↦
    toLex (entry.2.sequence.toNat, toLex entry.1)).map Sigma.fst

/-- `evict_oldest_history`, until there is room. -/
def makeRoom (bytes : ℕ) : ℕ → ContinuationStore → ContinuationStore
  | 0, store => store
  | fuel + 1, store =>
    if maxContinuationEntries ≤ store.history.entries.length ∨
        maxContinuationTotalBytes < store.totalBytes + bytes then
      match store.oldestHistory with
      | none => store
      | some key => makeRoom bytes fuel (store.removeHistory key)
    else store

def continuationBytes (codec : ResponsesCodec) (messages : List CanonicalMessage)
    (nativeItems : Option (List JsonValue)) : ℕ :=
  codec.messagesBytes messages + (nativeItems.map codec.itemsBytes).getD 0

/-- `history`: what an id stands for in a scope. -/
def find (now : ℕ) (scope responseId : String) :
    Except ErrorEnvelope ContinuationHistory × ContinuationStore :=
  let store := store.prune now
  (orInvalid (store.history.lookup (scope, responseId))
    ("continuation_expired: previous_response_id is unknown, expired, or belongs to another " ++
      "Agent scope"), store)

/-- Reserve the input of a call; false where it is not retained. -/
def begin (codec : ResponsesCodec) (now : ℕ) (key scope : String)
    (messages : List CanonicalMessage) (nativeItems : Option (List JsonValue)) :
    Except ErrorEnvelope Bool × ContinuationStore :=
  let store := store.prune now
  let bytes := continuationBytes codec messages nativeItems
  if (store.pending.lookup key).isSome then
    (.error (invalid "continuation request key is already in flight"), store)
  else if maxContinuationEntryBytes < bytes then (.ok false, store)
  else if maxPendingContinuations ≤ store.pending.entries.length ∨
      maxContinuationTotalBytes < store.totalBytes + bytes then (.ok false, store)
  else
    (.ok true, { store with
      totalBytes := store.totalBytes + bytes
      pending := store.pending.insert key
        { scope, messages, nativeItems, createdAtMs := now, bytes } })

/-- Instructions of one turn, which a history does not keep. -/
def isTransient (message : CanonicalMessage) : Bool :=
  (message.extensions.lookup transientInstructionsExtension).any isTrue

/-- The bytes that reservations hold. -/
def reservedBytes : ℕ :=
  store.totalBytes - (store.history.entries.map fun entry ↦ entry.2.bytes).sum

/-- Keep a finished turn, if there is room for it. -/
def retain (codec : ResponsesCodec) (now : ℕ) (scope responseId : String)
    (messages : List CanonicalMessage) (nativeItems : Option (List JsonValue)) :
    ContinuationStore :=
  let bytes := continuationBytes codec messages nativeItems
  if maxContinuationEntryBytes < bytes then store
  else
    let store := (store.prune now).removeHistory (scope, responseId)
    if maxContinuationTotalBytes < store.reservedBytes + bytes then store
    else
      let store := makeRoom bytes store.history.entries.length store
      if maxContinuationTotalBytes < store.totalBytes + bytes then store
      else { store with
        nextSequence := store.allocateSequence
        totalBytes := store.totalBytes + bytes
        history := store.history.insert (scope, responseId)
          { messages, nativeItems, createdAtMs := now, sequence := store.allocateSequence, bytes } }

/-- Turn the reservation of a call into the history of its reply. -/
def complete (codec : ResponsesCodec) (now : ℕ) (key responseId : String)
    (assistantMessages : List CanonicalMessage) (nativeOutput : Option (List JsonValue)) :
    ContinuationStore :=
  match store.pending.lookup key with
  | none => store
  | some pending =>
    let messages := pending.messages.filter (fun message ↦ !isTransient message) ++
      assistantMessages
    -- a reply without native items ends the native chain
    let nativeItems := match pending.nativeItems, nativeOutput with
      | some items, some output => some (items ++ output)
      | _, _ => none
    (store.abandon key).retain codec now pending.scope responseId messages nativeItems

/-! ### Native replies -/

/-- What a reply may contribute to a conversation. -/
def replayableKinds : List String :=
  ["function_call", "custom_tool_call", "tool_search_call", "local_shell_call", "reasoning"]

def isReplayable (item : JsonValue) : Bool :=
  ((item.member "role").all fun role ↦ role.asStr == some "assistant") &&
    match memberStr "type" item with
    | some "message" => memberStr "role" item == some "assistant"
    | some kind => replayableKinds.contains kind
    | none => false

/-- `input_messages`: the items of an input or an output as messages. -/
def inputMessages (codec : ResponsesCodec) (input : JsonValue) :
    Except ErrorEnvelope (List CanonicalMessage) :=
  match input with
  | array [] => .ok []
  | _ =>
    CanonicalRequest.messages <$> codec.chatRequestFromResponses
      (object [("input", input), ("model", string "continuation")])

/-- The id and the items of a reply that may be replayed. -/
def nativeReply (response : JsonValue) : Option (String × List JsonValue) := do
  if memberStr "status" response ≠ some "completed" ∨
      (response.member "error").any (!·.isNull) then none
  else
    let id ← (memberStr "id" response).filter fun id ↦ id ≠ "" && id.utf8ByteSize ≤ 256
    let output ← (response.member "output").bind asArray
    if output.all isReplayable then some (id, output) else none

/-- `complete_native`: a reply that cannot be replayed gives the reservation up. -/
def completeNative (codec : ResponsesCodec) (now : ℕ) (key : String) (response : JsonValue) :
    ContinuationStore :=
  match nativeReply response with
  | none => store.abandon key
  | some (id, output) =>
    match inputMessages codec (array output) with
    | .error _ => store.abandon key
    | .ok messages => store.complete codec now key id messages (some output)

end ContinuationStore

end TokenStation
