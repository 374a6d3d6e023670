import Mathlib.Logic.Encodable.Basic
import Mathlib.Logic.Equiv.List
import TokenStation.Inbound.Request

/-!
# The key of a conversation

A conversation is served by the account that served it before, so that the provider's cache of its
beginning is used. The gateway finds the account under a hash of the first texts of the request. The
native path reads them off the wire, every other path off the canonical request.

The hash is a parameter, taken to be injective. `sessionKey_stable_iff` says which turns keep the
key of the turn before.
-/

namespace TokenStation

open JsonValue

/-! ## The keys -/

def partText : ContentPart → Option String
  | .text text => some text
  | _ => none

/-- `message_text` -/
def messageText (message : CanonicalMessage) : Option String :=
  message.content.bind fun content ↦
    match content with
    | .text text => some text
    | .parts parts => parts.findSome? partText

/-- `quota_session_key` -/
def quotaSessionKey (hash : List String → String) (request : CanonicalRequest) : String :=
  hash ((request.messages.take 2).filterMap messageText)

def blockText (block : JsonValue) : Option String :=
  if memberStr "type" block = some "text" then memberStr "text" block else none

/-- The texts of a message on the wire. -/
def wireTexts (message : JsonValue) : List String :=
  match message.member "content" with
  | some (string text) => [text]
  | some (array blocks) => blocks.filterMap blockText
  | _ => []

def wireMessages (body : JsonValue) : List JsonValue :=
  ((body.member "messages").bind asArray).getD []

/-- `native_quota_session_key` -/
def nativeQuotaSessionKey (hash : List String → String) (body : JsonValue) : String :=
  hash (((wireMessages body).take 2).flatMap wireTexts)

/-! ## Turns of a conversation -/

section Turns

variable {α : Type} {texts : α → List String} {turn next : List α}

/-- Two messages were there at the first turn, or the second has no text. -/
def KeySettled (texts : α → List String) (turn next : List α) : Prop :=
  2 ≤ turn.length ∨ ∀ second ∈ next[1]?, texts second = []

/-- The first two messages of a later turn hold what the first ones did, or one more. -/
theorem flatMap_take_two_eq_iff (hturn : turn ≠ []) (hextends : turn <+: next) :
    (next.take 2).flatMap texts = (turn.take 2).flatMap texts ↔ KeySettled texts turn next := by
  obtain ⟨later, rfl⟩ := hextends
  cases turn with
  | nil => exact absurd rfl hturn
  | cons first rest =>
    cases rest with
    | cons second rest =>
      exact iff_of_true rfl (Or.inl (Nat.le_add_left 2 rest.length))
    | nil =>
      cases later with
      | nil => exact iff_of_true rfl (Or.inr nofun)
      | cons second later =>
        have hshort : ¬ 2 ≤ [first].length := Nat.not_succ_le_self 1
        rw [KeySettled, or_iff_right hshort]
        simp

end Turns

/-- An injective hash, by numbers for sequences of texts. -/
def numbered (texts : List String) : String :=
  String.ofList (List.replicate
    (Encodable.encode (texts.map fun text ↦ text.toList.map Char.toNat)) 'x')

theorem numbered_injective : Function.Injective numbered := by
  intro texts texts' h
  have hlength := congrArg (fun text ↦ text.toList.length) h
  simp only [numbered, String.toList_ofList, List.length_replicate] at hlength
  have hchars : Function.Injective fun text : String ↦ text.toList.map Char.toNat :=
    (List.map_injective_iff.mpr fun c d hc ↦ Char.ext (UInt32.toNat_inj.mp hc)).comp
      fun _ _ ↦ String.toList_injective
  exact (List.map_injective_iff.mpr hchars) (Encodable.encode_injective hlength)

/-- What is asked of the keys of two turns of a conversation. -/
structure StableIff (hash : List String → String) : Prop where
  canonical : ∀ request request' : CanonicalRequest, request.messages ≠ [] →
    request.messages <+: request'.messages →
      (quotaSessionKey hash request' = quotaSessionKey hash request ↔
        KeySettled (fun message ↦ (messageText message).toList) request.messages request'.messages)
  native : ∀ body body' : JsonValue, wireMessages body ≠ [] →
    wireMessages body <+: wireMessages body' →
      (nativeQuotaSessionKey hash body' = nativeQuotaSessionKey hash body ↔
        KeySettled wireTexts (wireMessages body) (wireMessages body'))

/-- A turn keeps the key of the turn before if its key was settled then. -/
theorem sessionKey_stable_iff (hash : List String → String) (h : Function.Injective hash) :
    StableIff hash := by
  refine ⟨fun request request' hturn hextends ↦ ?_, fun body body' hturn hextends ↦ ?_⟩
  · rw [quotaSessionKey, quotaSessionKey, h.eq_iff, List.filterMap_eq_flatMap_toList,
      List.filterMap_eq_flatMap_toList]
    exact flatMap_take_two_eq_iff hturn hextends
  · rw [nativeQuotaSessionKey, nativeQuotaSessionKey, h.eq_iff]
    exact flatMap_take_two_eq_iff hturn hextends

theorem sessionKey_stable_iff_numbered : StableIff numbered :=
  sessionKey_stable_iff numbered numbered_injective

/-- A conversation that starts with one message, as the canonical request has it. -/
def canonicalTurn (messages : List CanonicalMessage) : CanonicalRequest where
  model := "model"
  messages := messages
  tools := []
  toolChoice := none
  sampling := {}
  stream := false
  extensions := ∅

def firstTurn : List CanonicalMessage := [CanonicalMessage.text .user "hi"]

def nextTurn : List CanonicalMessage :=
  firstTurn ++ [CanonicalMessage.text .assistant "hello", CanonicalMessage.text .user "go on"]

def wireMessage (role text : String) : JsonValue :=
  object [("role", string role), ("content", string text)]

def firstBody : JsonValue := object [("messages", array [wireMessage "user" "hi"])]

def nextBody : JsonValue :=
  object [("messages", array [wireMessage "user" "hi", wireMessage "assistant" "hello",
    wireMessage "user" "go on"])]

theorem sessionKey_changes :
    (firstTurn ≠ [] ∧ firstTurn <+: nextTurn ∧
      quotaSessionKey numbered (canonicalTurn nextTurn) ≠
        quotaSessionKey numbered (canonicalTurn firstTurn)) ∧
    (wireMessages firstBody ≠ [] ∧ wireMessages firstBody <+: wireMessages nextBody ∧
      nativeQuotaSessionKey numbered nextBody ≠ nativeQuotaSessionKey numbered firstBody) :=
  ⟨⟨List.cons_ne_nil _ _, List.prefix_append _ _, numbered_injective.ne (by decide +kernel)⟩,
    List.cons_ne_nil _ _, ⟨_, rfl⟩, numbered_injective.ne (by decide +kernel)⟩

end TokenStation
