import TokenStation.Inbound.Anthropic
import TokenStation.Inbound.Gemini
import TokenStation.Inbound.OpenAi
import TokenStation.Inbound.Responses
import TokenStation.Library.Exits

/-!
# Names that only the host may use

The host finds its own values in the extensions of a request by names with a reserved prefix, and
trusts what it finds. Three of the adapters keep those names out of the caller's reach. The adapter
of Anthropic's dialect passes on whatever members it does not know, reserved names included.
-/

namespace TokenStation

open JsonValue Library Responses

/-- The inbound adapters. -/
inductive InboundAdapter where
  | anthropic
  | openAi
  | gemini
  | openAiResponses
  deriving DecidableEq

/-- What an adapter works with: documents, the codec, the store, and the clock when the store is
read and when it is written. -/
structure InboundSetting where
  serde : SerdeJson
  codec : ResponsesCodec
  store : ContinuationStore := {}
  lookedUpAt : ℕ := 0
  begunAt : ℕ := 0

/-- `normalize_inbound` of an adapter. -/
def normalizeInbound (setting : InboundSetting) (envelope : AgentRequestEnvelope) :
    InboundAdapter → Except ErrorEnvelope CanonicalRequest
  | .anthropic => Anthropic.normalizeInbound setting.serde envelope
  | .openAi => OpenAi.normalizeInbound setting.serde envelope
  | .gemini => Gemini.normalizeInbound setting.serde envelope
  | .openAiResponses => (Responses.normalizeInbound setting.codec setting.lookedUpAt
      setting.begunAt envelope setting.store).1

/-- The items of the conversation that a call continues, as the store has them. -/
def conversationItems (setting : InboundSetting) (envelope : AgentRequestEnvelope) :
    Option (List JsonValue) :=
  match memberStr "previous_response_id" envelope.body, continuationScope envelope with
  | none, _ => some []
  | some responseId, .ok scope =>
    ((setting.store.prune setting.lookedUpAt).history.lookup (scope, responseId)).bind
      ContinuationHistory.nativeItems
  | some _, .error _ => none

/-- Every reserved name in a request stands for a value of the host's envelope, or for the items
that the adapter puts together. -/
structure HostPrivate (setting : InboundSetting) (envelope : AgentRequestEnvelope)
    (adapter : InboundAdapter) (request : CanonicalRequest) : Prop where
  origin : ∀ key value, isPrivate key → request.extensions.lookup key = some value →
    envelope.extensions.lookup key = some value ∨
      adapter = .openAiResponses ∧ key = nativeInputExtension ∧
        ∃ items, conversationItems setting envelope = some items ∧
          value = .array (items ++ inputItems envelope.body)
  /-- The render context of the answer gets the key of the host. -/
  reservation : ∀ value, request.extensions.lookup continuationKeyExtension = some value →
    envelope.extensions.lookup continuationKeyExtension = some value

/-- The extensions that the codec makes have public names. -/
def CodecPublic (codec : ResponsesCodec) : Prop :=
  ∀ body request, codec.chatRequestFromResponses body = .ok request →
    ∀ key ∈ request.extensions, ¬ isPrivate key

/-! ## Reserved names -/

theorem isPrivate_continuationKey : isPrivate continuationKeyExtension := by decide

theorem continuationKey_ne_nativeInput : continuationKeyExtension ≠ nativeInputExtension := by
  decide

/-- A list of public names has no reserved one. -/
theorem not_mem_of_isPrivate (names : List String) (hnames : names.all (!isPrivate ·) = true)
    {key : String} (hkey : isPrivate key) : key ∉ names := by
  intro hmem
  have hpublic := List.all_eq_true.mp hnames key hmem
  rw [hkey] at hpublic
  nomatch hpublic

theorem member_eq_find? (name : String) (value : JsonValue) :
    value.member name =
      ((value.asObject.getD []).find? fun entry ↦ entry.1 == name).map Prod.snd := by
  cases value <;> rfl

theorem mem_names_of_member {members : List (String × JsonValue)} {name : String}
    {value : JsonValue} (h : (object members).member name = some value) :
    name ∈ members.map Prod.fst := by
  obtain ⟨entry, hfound, -⟩ := Option.map_eq_some_iff.mp h
  have hname : entry.1 = name := by simpa using List.find?_some hfound
  exact hname ▸ List.mem_map_of_mem (List.mem_of_find?_eq_some hfound)

theorem hostPrivate_of_origin {setting : InboundSetting} {envelope : AgentRequestEnvelope}
    {adapter : InboundAdapter} {request : CanonicalRequest}
    (h : ∀ key value, isPrivate key → request.extensions.lookup key = some value →
      envelope.extensions.lookup key = some value ∨
        adapter = .openAiResponses ∧ key = nativeInputExtension ∧
          ∃ items, conversationItems setting envelope = some items ∧
            value = .array (items ++ inputItems envelope.body)) :
    HostPrivate setting envelope adapter request where
  origin := h
  reservation value hvalue := by
    rcases h _ value isPrivate_continuationKey hvalue with hhost | ⟨-, hkey, -⟩
    · exact hhost
    · exact absurd hkey continuationKey_ne_nativeInput

/-! ## The adapters -/

/-- Anthropic's adapter passes the reserved members of the body on. -/
theorem Anthropic.lookup_private {serde : SerdeJson} {envelope : AgentRequestEnvelope}
    {request : CanonicalRequest} (h : Anthropic.normalizeInbound serde envelope = .ok request)
    {key : String} (hkey : isPrivate key) :
    request.extensions.lookup key = envelope.body.member key := by
  have hown := not_mem_of_isPrivate [Anthropic.thinkingExtension, "reasoning_effort"] (by decide)
    hkey
  rw [List.mem_pair, not_or] at hown
  have hunknown : (!Anthropic.knownRequestFields.contains key) = true := by
    simpa using not_mem_of_isPrivate Anthropic.knownRequestFields (by decide) hkey
  rw [Anthropic.extensions_normalizeInbound h, Anthropic.requestExtensions,
    Anthropic.lookup_ownExtensions hown.1 hown.2, Extensions.lookup_ofMembers, if_pos hunknown,
    member_eq_find?]

theorem OpenAi.lookup_private {serde : SerdeJson} {envelope : AgentRequestEnvelope}
    {request : CanonicalRequest} (h : OpenAi.normalizeInbound serde envelope = .ok request)
    {key : String} (hkey : isPrivate key) : request.extensions.lookup key = none := by
  rw [AList.lookup_eq_none]
  intro hmem
  have hnames := OpenAi.keys_normalizeInbound h hmem
  exact not_mem_of_isPrivate ["reasoning_effort", "parallel_tool_calls"] (by decide) hkey
    (List.mem_pair.mpr hnames)

theorem Extensions.lookup_insert_eq_some {extensions : Extensions} {key name : String}
    {given value : JsonValue} (h : (extensions.insert key given).lookup name = some value) :
    name = key ∧ value = given ∨ extensions.lookup name = some value := by
  by_cases heq : name = key
  · subst heq
    rw [AList.lookup_insert] at h
    exact Or.inl ⟨rfl, (Option.some.inj h).symm⟩
  · rw [AList.lookup_insert_ne heq] at h
    exact Or.inr h

theorem Responses.lookup_privateExtensions {key : Option String}
    {nativeItems : Option (List JsonValue)} {extensions : Extensions} {name : String}
    {value : JsonValue} (hname : extensions.lookup name = none)
    (h : (privateExtensions key nativeItems extensions).lookup name = some value) :
    (∃ items, nativeItems = some items ∧ name = nativeInputExtension ∧ value = .array items) ∨
      ∃ given, key = some given ∧ name = continuationKeyExtension ∧ value = .string given := by
  have hrest : extensions.lookup name ≠ some value := fun heq ↦ nomatch hname.symm.trans heq
  rcases nativeItems with _ | items
  · rcases key with _ | given
    · exact absurd h hrest
    · obtain ⟨hkey, hvalue⟩ := (Extensions.lookup_insert_eq_some h).resolve_right hrest
      exact Or.inr ⟨given, rfl, hkey, hvalue⟩
  · rcases Extensions.lookup_insert_eq_some h with ⟨hkey, hvalue⟩ | h
    · exact Or.inl ⟨items, rfl, hkey, hvalue⟩
    · rcases key with _ | given
      · exact absurd h hrest
      · obtain ⟨hkey, hvalue⟩ := (Extensions.lookup_insert_eq_some h).resolve_right hrest
        exact Or.inr ⟨given, rfl, hkey, hvalue⟩

theorem Responses.continuationRequestKey_eq_some {envelope : AgentRequestEnvelope} {key : String}
    (h : continuationRequestKey envelope = .ok (some key)) :
    envelope.extensions.lookup continuationKeyExtension = some (.string key) := by
  rw [continuationRequestKey] at h
  split at h
  · cases h
  next given hgiven =>
    split at h
    · cases h
    · obtain rfl : given = key := Option.some.inj (Except.ok.inj h)
      obtain ⟨value, hvalue, hstr⟩ := Option.bind_eq_some_iff.mp hgiven
      cases value with
      | string text => rw [hvalue, Option.some.inj hstr]
      | _ => cases hstr

theorem Responses.reserve_eq_some {codec : ResponsesCodec} {now : ℕ}
    {envelope : AgentRequestEnvelope} {scope key : String} {messages : List CanonicalMessage}
    {nativeItems : Option (List JsonValue)} {store : ContinuationStore}
    (h : (reserve codec now envelope scope messages nativeItems store).1 = .ok (some key)) :
    envelope.extensions.lookup continuationKeyExtension = some (.string key) := by
  obtain ⟨given, hgiven, h⟩ := run_bind_eq_ok.mp h
  rcases given with _ | given
  · nomatch h
  · obtain ⟨retained, -, h⟩ := run_bind_eq_ok.mp h
    have hkey : (if retained then some given else none) = some key := Except.ok.inj h
    obtain ⟨-, heq⟩ := Option.ite_none_right_eq_some.mp hkey
    obtain rfl := Option.some.inj heq
    exact continuationRequestKey_eq_some hgiven

theorem Responses.continued_items {setting : InboundSetting} {envelope : AgentRequestEnvelope}
    {scope : String} (hscope : continuationScope envelope = .ok scope)
    {history : List CanonicalMessage} {nativeItems : Option (List JsonValue)}
    (h : (continued setting.lookedUpAt scope envelope.body setting.store).1 =
      .ok (history, nativeItems)) : nativeItems = conversationItems setting envelope := by
  rw [conversationItems, hscope]
  rcases hprevious : memberStr "previous_response_id" envelope.body with _ | responseId
  · simp only [continued, hprevious] at h
    exact (congrArg Prod.snd (Except.ok.inj h)).symm
  · simp only [continued, hprevious] at h
    obtain ⟨entry, hfound, h⟩ := run_bind_eq_ok.mp h
    have hlookup := orInvalid_eq_ok.mp hfound
    have hitems : entry.nativeItems = nativeItems := congrArg Prod.snd (Except.ok.inj h)
    change nativeItems = ((setting.store.prune setting.lookedUpAt).history.lookup
      (scope, responseId)).bind ContinuationHistory.nativeItems
    rw [hlookup, ← hitems]
    rfl

theorem Responses.lookup_requestExtensions {body : JsonValue} {key : String}
    (hkey : isPrivate key) : (requestExtensions body).lookup key = none := by
  rw [requestExtensions, Extensions.lookup_ofMembers, if_neg]
  simp [hkey]

theorem Responses.hostPrivate {setting : InboundSetting} (hcodec : CodecPublic setting.codec)
    {envelope : AgentRequestEnvelope} {request : CanonicalRequest}
    (h : TokenStation.normalizeInbound setting envelope .openAiResponses = .ok request) :
    HostPrivate setting envelope .openAiResponses request := by
  obtain ⟨parsed, hparsed, h⟩ := run_bind_eq_ok.mp h
  obtain ⟨scope, hscope, h⟩ := run_bind_eq_ok.mp h
  obtain ⟨⟨history, nativeItems⟩, hcontinued, h⟩ := run_bind_eq_ok.mp h
  obtain ⟨key, hreserve, h⟩ := run_bind_eq_ok.mp h
  have hrequest := Except.ok.inj h
  have hitems := continued_items hscope hcontinued
  refine hostPrivate_of_origin fun name value hname hvalue ↦ ?_
  rw [← hrequest] at hvalue
  have hpublic : (parsed.extensions ∪ requestExtensions envelope.body).lookup name = none := by
    rw [AList.lookup_union_right fun hmem ↦ hcodec _ _ hparsed name hmem hname]
    exact lookup_requestExtensions hname
  rcases lookup_privateExtensions hpublic hvalue with ⟨items, hmap, hkey, hvalue⟩ | hgiven
  · obtain ⟨own, hown, rfl⟩ := Option.map_eq_some_iff.mp hmap
    exact Or.inr ⟨rfl, hkey, own, hitems ▸ hown, hvalue⟩
  · obtain ⟨given, rfl, rfl, rfl⟩ := hgiven
    exact Or.inl (reserve_eq_some hreserve)

/-! ## Who keeps the names -/

/-- The reserved names in a request are the host's if and only if the caller of Anthropic's dialect
has not used one, except as the host does. -/
theorem hostPrivate_iff {setting : InboundSetting} (hcodec : CodecPublic setting.codec)
    {envelope : AgentRequestEnvelope} {adapter : InboundAdapter} {request : CanonicalRequest}
    (h : normalizeInbound setting envelope adapter = .ok request) :
    HostPrivate setting envelope adapter request ↔
      (adapter = .anthropic → ∀ key value, isPrivate key →
        envelope.body.member key = some value → envelope.extensions.lookup key = some value) := by
  constructor
  · rintro hprivate rfl key value hkey hvalue
    have hlookup := Anthropic.lookup_private h hkey
    rcases hprivate.origin key value hkey (hlookup.trans hvalue) with hhost | ⟨hadapter, -⟩
    · exact hhost
    · nomatch hadapter
  · intro hcaller
    cases adapter with
    | anthropic =>
      refine hostPrivate_of_origin fun key value hkey hvalue ↦ Or.inl ?_
      rw [Anthropic.lookup_private h hkey] at hvalue
      exact hcaller rfl key value hkey hvalue
    | openAi =>
      refine hostPrivate_of_origin fun key value hkey hvalue ↦ ?_
      rw [OpenAi.lookup_private h hkey] at hvalue
      nomatch hvalue
    | gemini =>
      refine hostPrivate_of_origin fun key value _ hvalue ↦ ?_
      rw [Gemini.extensions_normalizeInbound h] at hvalue
      nomatch hvalue
    | openAiResponses => exact Responses.hostPrivate hcodec h

/-! ## A forged key -/

/-- A codec that takes the model of a body and nothing else. -/
def modelCodec : ResponsesCodec where
  chatRequestFromResponses body :=
    .ok { model := (memberStr "model" body).getD "", messages := [], tools := []
          toolChoice := none, sampling := {}, stream := false, extensions := ∅ }
  messagesBytes messages := messages.length
  itemsBytes items := items.length

theorem codecPublic_modelCodec : CodecPublic modelCodec := by
  intro body request h key hmem
  cases h
  exact absurd hmem (AList.notMem_empty key)

def plainSetting : InboundSetting where
  serde := { toString := fun _ ↦ "", contentPart := .unknown }
  codec := modelCodec

/-- A call of Messages with one member more. -/
def callWith (extra : List (String × JsonValue)) : AgentRequestEnvelope where
  protocol := "anthropic-messages"
  subject := "local"
  body := .object ([("max_tokens", .number "16"), ("messages", .array []),
    ("model", .string "m")] ++ extra)
  extensions := (∅ : Extensions).insert continuationKeyExtension (.string "request-1")

/-- A member that no dialect reserves. -/
theorem hostPrivate_seed : ∃ request,
    normalizeInbound plainSetting (callWith [("seed", .number "1")]) .anthropic = .ok request ∧
      HostPrivate plainSetting (callWith [("seed", .number "1")]) .anthropic request := by
  refine ⟨_, rfl, (hostPrivate_iff codecPublic_modelCodec rfl).mpr fun _ key value hkey hvalue ↦ ?_⟩
  have hpublic : key ∉ ["max_tokens", "messages", "model", "seed"] :=
    not_mem_of_isPrivate _ (by decide) hkey
  exact absurd (mem_names_of_member hvalue) hpublic

/-- The key of another call, as a member of the body. -/
theorem not_hostPrivate_forged : CodecPublic plainSetting.codec ∧ ∃ request,
    normalizeInbound plainSetting
        (callWith [(continuationKeyExtension, .string "request-7")]) .anthropic = .ok request ∧
      ¬ HostPrivate plainSetting
        (callWith [(continuationKeyExtension, .string "request-7")]) .anthropic request := by
  refine ⟨codecPublic_modelCodec, _, rfl, fun h ↦ ?_⟩
  have hkey := h.reservation (.string "request-7") (by rfl)
  have htext : some "request-1" = some "request-7" := congrArg (·.bind asStr) hkey
  exact absurd htext (by decide)

end TokenStation
