import TokenStation.Inbound.Anthropic
import TokenStation.Inbound.SessionKey

/-!
# The key of a conversation off Anthropic's wire

The native path hashes every text block of the first two messages of the wire. The canonical request
that the same body normalizes to starts with the system prompt, a user message is cut at its tool
results there, and only the first text of a message is hashed.

`sessionKeys_eq_iff` says for which bodies the two keys are the same.
-/

namespace TokenStation

namespace Anthropic

open JsonValue Library

/-! ## The first texts of the wire -/

/-- The first text of some blocks, unless there are none. -/
def runLead (blocks : List JsonValue) : List (Option String) :=
  if blocks.isEmpty then [] else [(blocks.filterMap blockText).head?]

def systemLeads (system : JsonValue) : List (Option String) :=
  match system with
  | string text => [some text]
  | array blocks => runLead blocks
  | _ => []

def isToolResult (block : JsonValue) : Bool := decide (memberStr "type" block = some "tool_result")

def resultLead (block : JsonValue) : Option String :=
  match block.member "content" with
  | some (string text) => some text
  | some (array blocks) => (blocks.filterMap blockText).head?
  | _ => none

/-- The blocks of a user message, cut at its tool results. -/
def userLeads (run : List JsonValue) : List JsonValue → List (Option String)
  | [] => runLead run
  | block :: rest =>
    if isToolResult block then runLead run ++ resultLead block :: userLeads [] rest
    else userLeads (run ++ [block]) rest

def messageLeads (message : JsonValue) : List (Option String) :=
  match message.member "content" with
  | some (string text) => [some text]
  | some (array blocks) =>
    if memberStr "role" message = some "user" then userLeads [] blocks
    else [(blocks.filterMap blockText).head?]
  | _ => []

/-- The first text of each message that a body is normalized to. -/
def wireLeads (body : JsonValue) : List (Option String) :=
  systemLeads (body.index "system") ++ (wireMessages body).flatMap messageLeads

/-! ## Parts -/

theorem partText_of_parsePlainBlock {block : JsonValue} {part : ContentPart}
    (h : parsePlainBlock block = .ok part) : partText part = blockText block := by
  rw [parsePlainBlock] at h
  rw [blockText]
  split at h
  next htype =>
    simp only [except_bind_eq_ok, orInvalid_eq_ok] at h
    obtain ⟨text, htext, hpart⟩ := h
    cases hpart
    rw [if_pos htype, htext]
    rfl
  next htype =>
    have himage : partText part = none := by
      simp only [parseImage, except_bind_eq_ok] at h
      obtain ⟨members, -, h⟩ := h
      split at h
      · simp only [except_bind_eq_ok] at h
        obtain ⟨_, -, hpart⟩ := h
        cases hpart
        rfl
      · simp only [except_bind_eq_ok] at h
        obtain ⟨_, -, _, -, hpart⟩ := h
        cases hpart
        rfl
      · cases h
      · cases h
    rw [himage, htype, if_neg (by decide)]
  next htype =>
    simp only [except_bind_eq_ok] at h
    obtain ⟨_, -, hpart⟩ := h
    cases hpart
    rw [htype, if_neg (by decide)]
    rfl
  next htype =>
    simp only [except_bind_eq_ok] at h
    obtain ⟨_, -, hpart⟩ := h
    cases hpart
    rw [htype, if_neg (by decide)]
    rfl
  next htext _ _ _ htype =>
    cases h
    rw [if_neg fun hsome ↦ htext (Option.some.inj (htype.symm.trans hsome))]
    rfl
  next => cases h

/-- Blocks become parts one by one, with the same texts. -/
theorem texts_of_mapM {blocks : List JsonValue} {parts : List ContentPart}
    (h : blocks.mapM parsePlainBlock = .ok parts) :
    parts.filterMap partText = blocks.filterMap blockText ∧ parts.isEmpty = blocks.isEmpty := by
  induction blocks generalizing parts with
  | nil =>
    rw [List.mapM_nil] at h
    cases h
    exact ⟨rfl, rfl⟩
  | cons block blocks ih =>
    rw [List.mapM_cons] at h
    simp only [except_bind_eq_ok] at h
    obtain ⟨part, hpart, rest, hrest, hparts⟩ := h
    cases hparts
    rw [List.filterMap_cons, List.filterMap_cons, partText_of_parsePlainBlock hpart,
      (ih hrest).1]
    exact ⟨rfl, rfl⟩

/-- The text of a message that is made of parts. -/
theorem bind_contentFromParts (parts : List ContentPart) (message : CanonicalMessage)
    (h : message.content = contentFromParts parts) :
    messageText message = (parts.filterMap partText).head? := by
  rw [messageText, h, contentFromParts, List.head?_filterMap]
  cases parts with
  | nil => rfl
  | cons part parts => rfl

/-! ## Messages -/

theorem leads_systemMessage {system : JsonValue} {message : Option CanonicalMessage}
    (h : systemMessage system = .ok message) :
    message.toList.map messageText = systemLeads system := by
  cases system with
  | null =>
    cases h
    rfl
  | string text =>
    cases h
    rfl
  | array blocks =>
    simp only [systemMessage, except_bind_eq_ok] at h
    obtain ⟨parts, hparts, h⟩ := h
    obtain ⟨htexts, hempty⟩ := texts_of_mapM hparts
    split at h
    · nomatch h
    cases h
    rw [systemLeads, runLead, ← htexts, ← hempty, contentFromParts]
    cases parts with
    | nil => rfl
    | cons part parts =>
      exact congrArg (· :: []) (bind_contentFromParts (part :: parts) _ rfl)
  | bool value => nomatch h
  | number literal => nomatch h
  | object members => nomatch h

theorem isEmpty_concat {α : Type} (l : List α) (a : α) : (l ++ [a]).isEmpty = false := by
  cases l <;> rfl

/-- The parts of the message that is being read are those of a run of blocks. -/
structure ReadsRun (state : UserBlocks) (run : List JsonValue) : Prop where
  texts : state.parts.filterMap partText = run.filterMap blockText
  empty : state.parts.isEmpty = run.isEmpty

theorem ReadsRun.leads {state : UserBlocks} {run : List JsonValue} (h : ReadsRun state run) :
    state.pushUserParts.messages.map messageText =
      state.messages.map messageText ++ runLead run := by
  rw [UserBlocks.pushUserParts, List.map_append, runLead, ← h.empty, ← h.texts, contentFromParts]
  cases hparts : state.parts with
  | nil => rfl
  | cons part parts =>
    exact congrArg (state.messages.map messageText ++ [·])
      (bind_contentFromParts (part :: parts) _ rfl)

theorem messageText_toolResult {block : JsonValue} {content : Option Content}
    (h : toolResultContent block = .ok content) (message : CanonicalMessage)
    (hmessage : message.content = content) : messageText message = resultLead block := by
  rw [toolResultContent] at h
  rw [resultLead]
  cases hcontent : block.member "content" with
  | none =>
    rw [hcontent] at h
    cases h
    rw [messageText, hmessage]
    rfl
  | some value =>
    rw [hcontent] at h
    cases value with
    | null =>
      cases h
      rw [messageText, hmessage]
      rfl
    | string text =>
      cases h
      rw [messageText, hmessage]
      rfl
    | array blocks =>
      simp only [except_map_eq_ok] at h
      obtain ⟨parts, hparts, rfl⟩ := h
      rw [bind_contentFromParts parts message hmessage, (texts_of_mapM hparts).1]
    | bool value => nomatch h
    | number literal => nomatch h
    | object members => nomatch h

theorem leads_foldlM_userBlock {state state' : UserBlocks} {run blocks : List JsonValue}
    (hrun : ReadsRun state run) (h : blocks.foldlM userBlock state = .ok state') :
    state'.pushUserParts.messages.map messageText =
      state.messages.map messageText ++ userLeads run blocks := by
  induction blocks generalizing state run with
  | nil =>
    cases h
    exact hrun.leads
  | cons block blocks ih =>
    rw [List.foldlM_cons] at h
    simp only [except_bind_eq_ok] at h
    obtain ⟨next, hblock, hrest⟩ := h
    rw [userBlock] at hblock
    rw [userLeads, isToolResult]
    split at hblock
    next htype =>
      simp only [except_bind_eq_ok] at hblock
      obtain ⟨toolCallId, -, content, hcontent, hnext⟩ := hblock
      cases hnext
      have hnone : ReadsRun { state.pushUserParts with messages := state.pushUserParts.messages ++
          [{ role := .tool, content, toolCallId := some toolCallId,
             extensions := toolResultExtensions block }] } [] := ⟨rfl, rfl⟩
      rw [if_pos (decide_eq_true htype), ih hnone hrest, List.map_append, hrun.leads,
        List.map_singleton, messageText_toolResult hcontent _ rfl]
      simp only [List.append_assoc, List.singleton_append]
    next => nomatch hblock
    next htype _ =>
      simp only [except_bind_eq_ok] at hblock
      obtain ⟨part, hpart, hnext⟩ := hblock
      cases hnext
      have hkind : decide (memberStr "type" block = some "tool_result") ≠ true :=
        fun hresult ↦ htype (of_decide_eq_true hresult)
      have hlonger : ReadsRun { state with parts := state.parts ++ [part] } (run ++ [block]) := by
        constructor
        · rw [List.filterMap_append, List.filterMap_append, hrun.texts, List.filterMap_cons,
            List.filterMap_cons, partText_of_parsePlainBlock hpart]
          rfl
        · rw [isEmpty_concat, isEmpty_concat]
      rw [if_neg hkind, ← ih hlonger hrest]

theorem leads_parseUserBlocks {blocks : List JsonValue} {messages : List CanonicalMessage}
    (h : parseUserBlocks blocks = .ok messages) :
    messages.map messageText = userLeads [] blocks := by
  simp only [parseUserBlocks, except_bind_eq_ok] at h
  obtain ⟨state, hstate, hmessages⟩ := h
  cases hmessages
  exact leads_foldlM_userBlock ⟨rfl, rfl⟩ hstate

theorem texts_foldlM_assistantBlock {serde : SerdeJson} {blocks : List JsonValue}
    {read read' : List ContentPart × List ToolCall}
    (h : blocks.foldlM (assistantBlock serde) read = .ok read') :
    read'.1.filterMap partText = read.1.filterMap partText ++ blocks.filterMap blockText := by
  induction blocks generalizing read with
  | nil =>
    cases h
    exact (List.append_nil _).symm
  | cons block blocks ih =>
    rw [List.foldlM_cons] at h
    simp only [except_bind_eq_ok] at h
    obtain ⟨next, hblock, hrest⟩ := h
    rw [ih hrest, List.filterMap_cons]
    rw [assistantBlock] at hblock
    split at hblock
    next htype =>
      simp only [except_bind_eq_ok] at hblock
      obtain ⟨call, -, hnext⟩ := hblock
      cases hnext
      rw [blockText, htype, if_neg (by decide)]
    next => nomatch hblock
    next => nomatch hblock
    next =>
      simp only [except_bind_eq_ok] at hblock
      obtain ⟨part, hpart, hnext⟩ := hblock
      cases hnext
      rw [List.filterMap_append, List.append_assoc, List.filterMap_cons,
        partText_of_parsePlainBlock hpart]
      cases blockText block <;> rfl

theorem leads_parseAssistantBlocks {serde : SerdeJson} {blocks : List JsonValue}
    {message : CanonicalMessage} (h : parseAssistantBlocks serde blocks = .ok message) :
    messageText message = (blocks.filterMap blockText).head? := by
  simp only [parseAssistantBlocks, except_bind_eq_ok] at h
  obtain ⟨read, hread, hmessage⟩ := h
  cases hmessage
  have htexts := texts_foldlM_assistantBlock hread
  rw [bind_contentFromParts read.1 _ rfl, htexts]
  rfl

theorem leads_parseMessage {serde : SerdeJson} {raw : JsonValue}
    {messages : List CanonicalMessage} (h : parseMessage serde raw = .ok messages) :
    messages.map messageText = messageLeads raw := by
  simp only [parseMessage, except_bind_eq_ok, orInvalid_eq_ok] at h
  obtain ⟨role, hrole, h⟩ := h
  rw [messageLeads, hrole]
  split at h
  next content hcontent =>
    simp only [except_bind_eq_ok, orInvalid_eq_ok] at h
    obtain ⟨message, hmessage, system, rfl, h⟩ := h
    cases h
    have hleads := leads_systemMessage hmessage
    rw [hcontent]
    refine hleads.trans ?_
    cases content with
    | array blocks =>
      rw [systemLeads, runLead]
      cases blocks with
      | nil => cases hleads
      | cons block blocks => exact (if_neg (by decide)).symm
    | null => rfl
    | bool value => rfl
    | number literal => rfl
    | string text => rfl
    | object members => rfl
  next text hcontent =>
    cases h
    rw [hcontent]
    rfl
  next text hcontent =>
    cases h
    rw [hcontent]
    rfl
  next blocks hcontent =>
    rw [hcontent]
    exact (leads_parseUserBlocks h).trans (if_pos rfl).symm
  next blocks hcontent =>
    simp only [except_bind_eq_ok] at h
    obtain ⟨message, hmessage, h⟩ := h
    cases h
    rw [hcontent]
    dsimp only
    rw [if_neg (by decide), ← leads_parseAssistantBlocks hmessage]
    rfl
  all_goals cases h

theorem leads_mapM_parseMessage {serde : SerdeJson} {raw : List JsonValue}
    {messages : List (List CanonicalMessage)} (h : raw.mapM (parseMessage serde) = .ok messages) :
    messages.flatten.map messageText = raw.flatMap messageLeads := by
  induction raw generalizing messages with
  | nil =>
    rw [List.mapM_nil] at h
    cases h
    rfl
  | cons first raw ih =>
    rw [List.mapM_cons] at h
    simp only [except_bind_eq_ok] at h
    obtain ⟨message, hmessage, rest, hrest, hmessages⟩ := h
    cases hmessages
    rw [List.flatten_cons, List.map_append, leads_parseMessage hmessage, ih hrest,
      List.flatMap_cons]

/-- The first texts of a canonical request can be read off the wire. -/
theorem leads_normalizeInbound {serde : SerdeJson} {envelope : AgentRequestEnvelope}
    {request : CanonicalRequest} (h : normalizeInbound serde envelope = .ok request) :
    request.messages.map messageText = wireLeads envelope.body := by
  simp only [normalizeInbound, except_bind_eq_ok] at h
  obtain ⟨_, -, _, -, _, -, _, -, _, -, _, -, messages, hmessages, _, -, hrequest⟩ := h
  cases hrequest
  simp only [parseMessages, except_bind_eq_ok, orInvalid_eq_ok] at hmessages
  obtain ⟨raw, hraw, system, hsystem, parsed, hparsed, hmessages⟩ := hmessages
  cases hmessages
  rw [List.map_append, leads_systemMessage hsystem, leads_mapM_parseMessage hparsed, wireLeads,
    wireMessages, hraw]
  rfl

/-! ## The law -/

theorem userLeads_of_whole {run blocks : List JsonValue}
    (h : ∀ block ∈ blocks, isToolResult block = false) :
    userLeads run blocks = runLead (run ++ blocks) := by
  induction blocks generalizing run with
  | nil => rw [userLeads, List.append_nil]
  | cons block blocks ih =>
    obtain ⟨hblock, hrest⟩ := List.forall_mem_cons.mp h
    rw [userLeads, hblock, if_neg Bool.false_ne_true, ih hrest, List.append_assoc]
    rfl

/-- An accepted message has a text or blocks. -/
theorem content_of_parseMessage {serde : SerdeJson} {raw : JsonValue}
    {messages : List CanonicalMessage} (h : parseMessage serde raw = .ok messages) :
    (∃ text, raw.member "content" = some (string text)) ∨
      ∃ blocks, raw.member "content" = some (array blocks) := by
  simp only [parseMessage, except_bind_eq_ok, orInvalid_eq_ok] at h
  obtain ⟨role, -, h⟩ := h
  split at h
  next content hcontent =>
    simp only [except_bind_eq_ok, orInvalid_eq_ok] at h
    obtain ⟨message, hmessage, system, rfl, -⟩ := h
    cases content with
    | string text => exact Or.inl ⟨text, hcontent⟩
    | array blocks => exact Or.inr ⟨blocks, hcontent⟩
    | null => cases hmessage
    | bool value => cases hmessage
    | number literal => cases hmessage
    | object members => cases hmessage
  next text hcontent => exact Or.inl ⟨text, hcontent⟩
  next text hcontent => exact Or.inl ⟨text, hcontent⟩
  next blocks hcontent => exact Or.inr ⟨blocks, hcontent⟩
  next blocks hcontent => exact Or.inr ⟨blocks, hcontent⟩
  all_goals cases h

/-- A user message that is not cut. -/
def IsWhole (message : JsonValue) : Prop :=
  ∀ blocks, message.member "content" = some (array blocks) →
    memberStr "role" message = some "user" →
      blocks ≠ [] ∧ ∀ block ∈ blocks, isToolResult block = false

theorem messageLeads_of_whole {serde : SerdeJson} {raw : JsonValue}
    {messages : List CanonicalMessage} (h : parseMessage serde raw = .ok messages)
    (hwhole : IsWhole raw) : messageLeads raw = [(wireTexts raw).head?] := by
  obtain ⟨text, hcontent⟩ | ⟨blocks, hcontent⟩ := content_of_parseMessage h
  · rw [messageLeads, wireTexts, hcontent]
    rfl
  · rw [messageLeads, wireTexts, hcontent]
    dsimp only
    by_cases hrole : memberStr "role" raw = some "user"
    · obtain ⟨hblocks, hresults⟩ := hwhole blocks hcontent hrole
      rw [if_pos hrole, userLeads_of_whole hresults, List.nil_append, runLead,
        if_neg (mt List.isEmpty_iff.mp hblocks)]
    · rw [if_neg hrole]

/-- No system prompt, and neither of the first messages is cut. -/
structure WholeTurns (body : JsonValue) : Prop where
  noSystem : systemLeads (body.index "system") = []
  whole : ∀ message ∈ (wireMessages body).take 2, IsWhole message

/-- The first texts of the first two messages, when these are whole. -/
theorem take_two_wireLeads {serde : SerdeJson} {raw : List JsonValue}
    (h : ∀ message ∈ raw, ∃ messages, parseMessage serde message = .ok messages)
    (hwhole : ∀ message ∈ raw.take 2, IsWhole message) :
    (raw.flatMap messageLeads).take 2 =
      (raw.take 2).map fun message ↦ (wireTexts message).head? := by
  have hleads : ∀ message ∈ raw.take 2, messageLeads message = [(wireTexts message).head?] := by
    intro message hmessage
    obtain ⟨messages, hparsed⟩ := h message (List.mem_of_mem_take hmessage)
    exact messageLeads_of_whole hparsed (hwhole message hmessage)
  cases raw with
  | nil => rfl
  | cons first raw =>
    cases raw with
    | nil =>
      rw [List.flatMap_cons, hleads first List.mem_cons_self]
      rfl
    | cons second raw =>
      rw [List.flatMap_cons, List.flatMap_cons, hleads first List.mem_cons_self,
        hleads second (List.mem_cons_of_mem _ List.mem_cons_self)]
      rfl

theorem length_filterMap_head_le {α β : Type} (f : α → List β) (l : List α) :
    (l.filterMap fun a ↦ (f a).head?).length ≤ (l.flatMap f).length := by
  induction l with
  | nil => exact le_rfl
  | cons a l ih =>
    rw [List.filterMap_cons, List.flatMap_cons, List.length_append]
    cases f a with
    | nil => exact ih.trans (Nat.le_add_left _ _)
    | cons b rest =>
      exact (Nat.succ_le_succ ih).trans (by rw [List.length_cons]; omega)

/-- One text at most is read of each message. -/
theorem filterMap_head_eq_iff {α β : Type} {f : α → List β} {l : List α} :
    (l.filterMap fun a ↦ (f a).head?) = l.flatMap f ↔ ∀ a ∈ l, (f a).length ≤ 1 := by
  induction l with
  | nil => exact iff_of_true rfl nofun
  | cons a l ih =>
    rw [List.forall_mem_cons, ← ih, List.filterMap_cons, List.flatMap_cons]
    cases f a with
    | nil => exact (and_iff_right (Nat.zero_le 1)).symm
    | cons b rest =>
      dsimp only [List.head?_cons]
      rw [List.cons_append, List.cons_inj_right, List.length_cons]
      constructor
      · intro heq
        have hlength := congrArg List.length heq
        rw [List.length_append] at hlength
        have hle := length_filterMap_head_le f l
        have hrest : rest = [] := List.length_eq_zero_iff.mp (by omega)
        rw [hrest] at heq
        exact ⟨by rw [hrest]; exact le_rfl, heq⟩
      · rintro ⟨hlength, heq⟩
        have hrest : rest = [] := List.length_eq_zero_iff.mp (by omega)
        rw [hrest, List.nil_append, heq]

/-- Both keys hash the same texts. -/
structure Aligned (body : JsonValue) : Prop where
  whole : WholeTurns body →
    ∀ message ∈ (wireMessages body).take 2, (wireTexts message).length ≤ 1
  /-- Another text has moved in front; the texts are the same by accident. -/
  moved : ¬ WholeTurns body →
    ((wireLeads body).take 2).filterMap id = ((wireMessages body).take 2).flatMap wireTexts

theorem mem_of_mapM {serde : SerdeJson} {raw : List JsonValue}
    {messages : List (List CanonicalMessage)} (h : raw.mapM (parseMessage serde) = .ok messages) :
    ∀ message ∈ raw, ∃ parsed, parseMessage serde message = .ok parsed := by
  induction raw generalizing messages with
  | nil => exact nofun
  | cons first raw ih =>
    rw [List.mapM_cons] at h
    simp only [except_bind_eq_ok] at h
    obtain ⟨parsed, hparsed, rest, hrest, -⟩ := h
    exact List.forall_mem_cons.mpr ⟨⟨parsed, hparsed⟩, ih hrest⟩

theorem accepted {serde : SerdeJson} {envelope : AgentRequestEnvelope}
    {request : CanonicalRequest} (h : normalizeInbound serde envelope = .ok request) :
    ∀ message ∈ wireMessages envelope.body, ∃ parsed, parseMessage serde message = .ok parsed := by
  simp only [normalizeInbound, except_bind_eq_ok] at h
  obtain ⟨_, -, _, -, _, -, _, -, _, -, _, -, messages, hmessages, -⟩ := h
  simp only [parseMessages, except_bind_eq_ok, orInvalid_eq_ok] at hmessages
  obtain ⟨raw, hraw, -, -, parsed, hparsed, -⟩ := hmessages
  rw [wireMessages, hraw]
  exact mem_of_mapM hparsed

theorem sessionKeys_eq_iff (hash : List String → String) (hhash : Function.Injective hash)
    (serde : SerdeJson) (envelope : AgentRequestEnvelope) (request : CanonicalRequest)
    (h : normalizeInbound serde envelope = .ok request) :
    nativeQuotaSessionKey hash envelope.body = quotaSessionKey hash request ↔
      Aligned envelope.body := by
  have hkey : (request.messages.take 2).filterMap messageText =
      ((wireLeads envelope.body).take 2).filterMap id := by
    rw [← leads_normalizeInbound h, ← List.map_take, List.filterMap_map]
    rfl
  rw [nativeQuotaSessionKey, quotaSessionKey, hhash.eq_iff, hkey, eq_comm]
  by_cases hwhole : WholeTurns envelope.body
  · have htexts : ((wireLeads envelope.body).take 2).filterMap id =
        ((wireMessages envelope.body).take 2).filterMap fun message ↦
          (wireTexts message).head? := by
      rw [wireLeads, hwhole.noSystem, List.nil_append, take_two_wireLeads (accepted h) hwhole.whole,
        List.filterMap_map]
      rfl
    rw [htexts, filterMap_head_eq_iff]
    exact ⟨fun hshort ↦ ⟨fun _ ↦ hshort, fun hnot ↦ absurd hwhole hnot⟩,
      fun haligned ↦ haligned.whole hwhole⟩
  · exact ⟨fun heq ↦ ⟨fun hyes ↦ absurd hyes hwhole, fun _ ↦ heq⟩,
      fun haligned ↦ haligned.moved hwhole⟩

/-- A body with two plain messages, after some other members. -/
def plainEnvelope (members : List (String × JsonValue)) : AgentRequestEnvelope where
  protocol := "anthropic-messages"
  subject := "local"
  body := object (members ++ [("model", string "model"), ("max_tokens", number "1"),
    ("messages", array [wireMessage "user" "hi", wireMessage "assistant" "hello"])])

def plainRequest (system : List CanonicalMessage) : CanonicalRequest where
  model := "model"
  messages := system ++
    [CanonicalMessage.text .user "hi", CanonicalMessage.text .assistant "hello"]
  tools := []
  toolChoice := none
  sampling := { maxOutputTokens := some 1 }
  stream := false
  extensions := ∅

/-- The writer of documents is not called for such a body. -/
def silentSerde : SerdeJson where
  toString _ := ""
  contentPart := .unknown

theorem sessionKeys_eq_iff_plain :
    nativeQuotaSessionKey numbered (plainEnvelope []).body =
        quotaSessionKey numbered (plainRequest []) ↔ Aligned (plainEnvelope []).body :=
  sessionKeys_eq_iff numbered numbered_injective silentSerde (plainEnvelope [])
    (plainRequest []) rfl

/-- The system prompt takes the place of a message. -/
theorem sessionKeys_ne_system :
    normalizeInbound silentSerde (plainEnvelope [("system", string "be brief")]) =
        .ok (plainRequest [CanonicalMessage.text .system "be brief"]) ∧
      nativeQuotaSessionKey numbered (plainEnvelope [("system", string "be brief")]).body ≠
        quotaSessionKey numbered (plainRequest [CanonicalMessage.text .system "be brief"]) :=
  ⟨rfl, numbered_injective.ne (by decide +kernel)⟩

end Anthropic

end TokenStation
