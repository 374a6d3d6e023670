import TokenStation.Client.Secrets
import TokenStation.Inbound.Request
import TokenStation.Router.Lexicon

/-!
# Answers of bridged searches

A hosted search runs on a Responses upstream, and its answer is turned into a Messages answer. The
conversion reads one output item after another and stops at the first search over the limit.

`Turns`: a search is its call, directly followed by its result. `Answers` says what an answer may
be made of.
-/

namespace TokenStation

open JsonValue Library

/-- The libraries that the bridge uses. -/
structure SearchHost where
  /-- The scheme of a text that `Url::parse` accepts. -/
  scheme : String → Option String
  /-- `serde_json::from_str`. -/
  parseJson : String → Except String JsonValue

structure SearchSource where
  url : String
  title : String
  deriving DecidableEq

inductive SearchError where
  | maxUsesExceeded
  | unavailable
  deriving DecidableEq

/-- The blocks of an answer. -/
inductive SearchBlock where
  | serverToolUse (id name : String) (input : JsonValue)
  | searchResult (toolUseId : String) (content : Except SearchError (List SearchSource))
  | text (text : String)
  | toolUse (id name input : JsonValue)

namespace SearchBlock

def json : SearchBlock → JsonValue
  | serverToolUse id name input => .object [("type", .string "server_tool_use"),
      ("id", .string id), ("name", .string name), ("input", input)]
  | searchResult id content => .object [("type", .string "web_search_tool_result"),
      ("tool_use_id", .string id), ("content", match content with
        | .error error => .object [("type", .string "web_search_tool_result_error"),
            ("error_code", .string (if error = .unavailable then "unavailable"
              else "max_uses_exceeded"))]
        | .ok found => .array (found.map fun source ↦ .object [
            ("type", .string "web_search_result"), ("url", .string source.url),
            ("title", .string source.title), ("encrypted_content", .string ""),
            ("page_age", .null)]))]
  | text content => .object [("type", .string "text"), ("text", .string content)]
  | toolUse id name input =>
    .object [("type", .string "tool_use"), ("id", id), ("name", name), ("input", input)]

def isUsable : SearchBlock → Bool
  | text content => SecretStore.trimmed content != ""
  | _ => true

def callId : SearchBlock → Option String
  | serverToolUse id _ _ => some id
  | _ => none

def withInput (input : JsonValue) : SearchBlock → Option SearchBlock
  | serverToolUse id name _ => some (serverToolUse id name input)
  | toolUse id name _ => some (toolUse id name input)
  | _ => none

def isToolUse : SearchBlock → Bool
  | toolUse .. => true
  | _ => false

end SearchBlock

structure SearchUsage where
  inputTokens : ℕ
  cacheReadInputTokens : ℕ
  outputTokens : ℕ
  webSearchRequests : ℕ

structure SearchMessage where
  id : String
  model : String
  content : List SearchBlock
  stopReason : Option String
  usage : SearchUsage

namespace WebSearch

def maxUpstreamBody : ℕ := 32 * 1024 * 1024

def protocolError (message : String) : ErrorEnvelope :=
  ErrorEnvelope.new .providerProtocolError 502 message

def orProtocol {α : Type} (value : Option α) (message : String) : Except ErrorEnvelope α :=
  match value with
  | some value => .ok value
  | none => .error (protocolError message)

def searchTool (tool : JsonValue) : Bool :=
  ((tool.member "type").bind asStr).any fun kind ↦ "web_search_".toList.isPrefixOf kind.toList

/-- The elements of an array; none of anything else. -/
def elements (value : JsonValue) : List JsonValue := value.asArray.getD []

section Conversion

variable (host : SearchHost) (body : JsonValue) (name : String) (maxUses : Option ℕ)
  (request : JsonValue)

def source (value : JsonValue) : Option SearchSource := do
  let url ← (value.index "url").asStr
  let scheme ← host.scheme url
  if scheme = "https" ∨ scheme = "http" then some ⟨url, (value.index "title").asStr.getD url⟩
  else none

def sources (values : JsonValue) : List SearchSource := (elements values).filterMap (source host)

/-- The objects of an output; saturation is far beyond the limit. -/
def entries (output : List JsonValue) : ℕ :=
  output.length + (output.map fun item ↦ (elements (item.index "content")).length +
    ((elements (item.index "content")).map fun block ↦
      (elements (block.index "annotations")).length).sum +
    (elements ((item.index "action").index "sources")).length).sum

def kind (item : JsonValue) : Option String := (item.index "type").asStr

/-- `"{}"` with the citations that the text does not contain. -/
def cited (text : String) (citations : List SearchSource) : String :=
  citations.foldl (fun text citation ↦ if containsText text citation.url then text
    else text ++ "\n" ++ citation.title ++ ": " ++ citation.url) text

def messageBlock (block : JsonValue) : Except ErrorEnvelope SearchBlock :=
  if kind block = some "output_text" then do
    let text ← orProtocol (block.index "text").asStr "The search backend text is invalid"
    return .text (cited text (sources host (block.index "annotations")))
  else if kind block = some "refusal" then
    .ok (.text ((block.index "refusal").asStr.getD "Search was refused."))
  else .error (protocolError "The search backend returned an unsupported message block")

/-- `callers == &json!(["direct"])`. -/
def isDirect (callers : JsonValue) : Bool :=
  match callers with
  | .array [.string "direct"] => true
  | _ => false

def isDeclared (function : String) : Bool :=
  (elements (request.index "tools")).any fun tool ↦ !searchTool tool &&
    (tool.index "name").asStr == some function && (tool.member "input_schema").any isObject &&
    (tool.member "allowed_callers").all isDirect

/-- Whether the choice of the request leaves the tool. -/
def isChosen (function : String) : Bool :=
  let choice := request.index "tool_choice"
  kind choice != some "none" &&
    (kind choice != some "tool" || (choice.index "name").asStr == some function)

def functionCall (item : JsonValue) : Except ErrorEnvelope SearchBlock := do
  let function ← orProtocol ((item.index "name").asStr.filter (· ≠ ""))
    "The search backend function name is invalid"
  ensure (isDeclared request function = true ∧ isChosen request function = true)
    (protocolError "The search backend returned an unauthorized client tool call")
  ensure ((item.index "call_id").asStr.any (· ≠ "") = true)
    (protocolError "The search backend function call ID is invalid")
  let input ← (host.parseJson ((item.index "arguments").asStr.getD "")).mapError
    fun _ ↦ protocolError "The search backend returned invalid function arguments"
  ensure (input.isObject = true)
    (protocolError "The search backend function arguments must be an object")
  return .toolUse (item.index "call_id") (item.index "name") input

/-- The answer so far. -/
structure Reply where
  content : List SearchBlock := []
  count : ℕ := 0
  hasFunction : Bool := false
  citations : List SearchSource := []

/-- The id of a search; the counter is bounded by the entries. -/
def searchId (count : ℕ) : String :=
  "srvtoolu_" ++ String.ofList ((((body.index "id").asStr.getD "search").toList.filter fun c ↦
    c.isAlphanum || c == '_').take 100) ++ "_" ++ toString count

def isOver (count : ℕ) : Bool := maxUses.any (· < count)

def found (item : JsonValue) (isLast : Bool) (citations : List SearchSource) : List SearchSource :=
  let found := sources host ((item.index "action").index "sources")
  if found.isEmpty && isLast then citations else found

/-- A search: its call and its result. The last one takes the citations if it has no sources. -/
def search (item : JsonValue) (isLast : Bool) (reply : Reply) : Reply :=
  let count := reply.count + 1
  let isCompleted := (item.index "status").asStr == some "completed"
  let result : Except SearchError (List SearchSource) :=
    if isOver maxUses count then .error .maxUsesExceeded
    else if !isCompleted then .error .unavailable
    else .ok (found host item isLast reply.citations)
  { reply with
    count
    content := reply.content ++ [
      .serverToolUse (searchId body count) name
        (.object [("query", .string (((item.index "action").index "query").asStr.getD ""))]),
      .searchResult (searchId body count) result] }

/-- The loop over the output; whether a search is the last one is seen from the rest. -/
def convert : List JsonValue → Reply → Except ErrorEnvelope Reply
  | [], reply => .ok reply
  | item :: rest, reply =>
    if kind item = some "web_search_call" then
      let isLast := rest.all fun other ↦ kind other != some "web_search_call"
      let reply := search host body name maxUses item isLast reply
      if isOver maxUses reply.count then .ok reply else convert rest reply
    else if kind item = some "message" then do
      let blocks ← orProtocol (item.index "content").asArray
        "The search backend message has no content"
      let texts ← blocks.mapM (messageBlock host)
      convert rest { reply with content := reply.content ++ texts }
    else if kind item = some "function_call" then do
      let call ← functionCall host request item
      convert rest { reply with content := reply.content ++ [call], hasFunction := true }
    else if kind item = some "reasoning" then convert rest reply
    else .error (protocolError "The search backend returned an unsupported output item")

/-- A count of the usage. -/
def tokens (value : JsonValue) : ℕ := (value.asU64.map UInt64.toNat).getD 0

def fromResponses (model : String) : Except ErrorEnvelope SearchMessage := do
  let status := (body.index "status").asStr
  ensure (status = some "completed" ∨ status = some "incomplete")
    (protocolError "The search backend did not complete a valid Responses request")
  let output ← orProtocol (body.index "output").asArray
    "The search backend response has no output array"
  ensure (entries output ≤ 4096)
    (protocolError "The search backend returned too many output items")
  let citations := output.flatMap fun item ↦ (elements (item.index "content")).flatMap fun block ↦
    sources host (block.index "annotations")
  let reply ← convert host body name maxUses request output { citations }
  ensure (reply.content.any SearchBlock.isUsable = true)
    (protocolError "The search backend returned no usable output")
  ensure ((compact (.array (reply.content.map SearchBlock.json))).utf8ByteSize ≤ maxUpstreamBody)
    (protocolError "The converted search response exceeds the size limit")
  let usage := body.index "usage"
  let cached := tokens ((usage.index "input_tokens_details").index "cached_tokens")
  return {
    id := (body.index "id").asStr.getD "msg_search"
    model
    content := reply.content
    stopReason := some (if reply.hasFunction then "tool_use"
      else if status = some "incomplete" then "max_tokens" else "end_turn")
    usage :=
      { inputTokens := tokens (usage.index "input_tokens") - cached
        cacheReadInputTokens := cached
        outputTokens := tokens (usage.index "output_tokens")
        webSearchRequests := reply.count } }

/-! ## Well-formed answers -/

/-- A call of a tool that the request declares and leaves to the model. -/
def Permitted : SearchBlock → Prop
  | .toolUse id name input => ∃ function, function ≠ "" ∧ name.asStr = some function ∧
      isDeclared request function = true ∧ isChosen request function = true ∧
      (∃ call, call ≠ "" ∧ id.asStr = some call) ∧ input.isObject = true
  | _ => False

/-- The blocks of an answer with this many searches, none of them over the limit. -/
inductive Turns : ℕ → List SearchBlock → Prop
  | nil : Turns 0 []
  | text {count : ℕ} {blocks : List SearchBlock} (text : String) (h : Turns count blocks) :
      Turns count (blocks ++ [.text text])
  | call {count : ℕ} {blocks : List SearchBlock} {block : SearchBlock}
      (hpermitted : Permitted request block) (h : Turns count blocks) :
      Turns count (blocks ++ [block])
  | search {count : ℕ} {blocks : List SearchBlock} (query : JsonValue)
      {result : Except SearchError (List SearchSource)}
      (hlimit : isOver maxUses (count + 1) = false)
      (hresult : result ≠ .error .maxUsesExceeded) (h : Turns count blocks) :
      Turns (count + 1) (blocks ++ [.serverToolUse (searchId body (count + 1)) name query,
        .searchResult (searchId body (count + 1)) result])

/-- An answer ends where the upstream's does, or with the first search over the limit. -/
inductive Answers : ℕ → List SearchBlock → Prop
  | complete {count : ℕ} {blocks : List SearchBlock}
      (h : Turns body name maxUses request count blocks) : Answers count blocks
  | refused {count : ℕ} {blocks : List SearchBlock} (query : JsonValue)
      (hlimit : maxUses = some count) (h : Turns body name maxUses request count blocks) :
      Answers (count + 1) (blocks ++ [.serverToolUse (searchId body (count + 1)) name query,
        .searchResult (searchId body (count + 1)) (.error .maxUsesExceeded)])

variable {host body name maxUses request}

theorem Turns.within {count : ℕ} {blocks : List SearchBlock}
    (h : Turns body name maxUses request count blocks) : isOver maxUses count = false := by
  induction h with
  | nil => cases maxUses <;> rfl
  | text text h ih => exact ih
  | call hpermitted h ih => exact ih
  | search query hlimit hresult h ih => exact hlimit

/-- The blocks of a message are texts. -/
theorem Turns.texts {count : ℕ} {blocks texts : List SearchBlock} {items : List JsonValue}
    (h : Turns body name maxUses request count blocks)
    (htexts : items.mapM (messageBlock host) = .ok texts) :
    Turns body name maxUses request count (blocks ++ texts) ∧
      texts.any SearchBlock.isToolUse = false := by
  induction items generalizing blocks texts with
  | nil =>
    obtain rfl : [] = texts := Except.ok.inj htexts
    exact ⟨by rwa [List.append_nil], rfl⟩
  | cons item items ih =>
    rw [List.mapM_cons] at htexts
    obtain ⟨block, hblock, htexts⟩ := except_bind_eq_ok.mp htexts
    obtain ⟨rest, hrest, htexts⟩ := except_bind_eq_ok.mp htexts
    obtain rfl := Except.ok.inj htexts
    obtain ⟨text, rfl⟩ : ∃ text, block = .text text := by
      unfold messageBlock at hblock
      split at hblock
      · obtain ⟨text, -, hblock⟩ := except_bind_eq_ok.mp hblock
        exact ⟨_, (Except.ok.inj hblock).symm⟩
      · split at hblock
        · exact ⟨_, (Except.ok.inj hblock).symm⟩
        · nomatch hblock
    rw [← List.singleton_append, ← List.append_assoc]
    exact ih (h.text text) hrest

theorem orProtocol_eq_ok {α : Type} {value : Option α} {message : String} {a : α} :
    orProtocol value message = .ok a ↔ value = some a := by
  cases value <;> simp [orProtocol]

theorem permitted_functionCall {item : JsonValue} {block : SearchBlock}
    (h : functionCall host request item = .ok block) :
    Permitted request block ∧ block.isToolUse = true := by
  unfold functionCall at h
  obtain ⟨function, hname, h⟩ := except_bind_eq_ok.mp h
  obtain ⟨hname, hnonempty⟩ := Option.filter_eq_some_iff.mp (orProtocol_eq_ok.mp hname)
  rw [except_seq_eq_ok, except_seq_eq_ok, ensure_eq_ok, ensure_eq_ok] at h
  obtain ⟨⟨hdeclared, hchosen⟩, hcall, h⟩ := h
  obtain ⟨input, -, h⟩ := except_bind_eq_ok.mp h
  rw [except_seq_eq_ok, ensure_eq_ok] at h
  obtain ⟨hobject, h⟩ := h
  obtain rfl := Except.ok.inj h
  obtain ⟨call, hcall, hid⟩ := Option.any_eq_true _ _ |>.mp hcall
  exact ⟨⟨function, by simpa using hnonempty, hname, hdeclared, hchosen, ⟨call, by simpa using hid,
    hcall⟩, hobject⟩, rfl⟩

variable (host body name maxUses) in
theorem content_search (item : JsonValue) (isLast : Bool) (reply : Reply) : ∃ query result,
    (search host body name maxUses item isLast reply).content = reply.content ++
      [.serverToolUse (searchId body (reply.count + 1)) name query,
        .searchResult (searchId body (reply.count + 1)) result] ∧
    (result = .error .maxUsesExceeded ↔ isOver maxUses (reply.count + 1) = true) := by
  refine ⟨_, _, rfl, ?_⟩
  by_cases hover : isOver maxUses (reply.count + 1) = true
  · simp [hover]
  · rw [if_neg hover]
    split <;> simp [hover]

/-- The loop keeps the answer well formed. -/
theorem answers_convert {output : List JsonValue} {reply last : Reply}
    (h : Turns body name maxUses request reply.count reply.content)
    (hfunction : reply.hasFunction = reply.content.any SearchBlock.isToolUse)
    (hlast : convert host body name maxUses request output reply = .ok last) :
    Answers body name maxUses request last.count last.content ∧
      last.hasFunction = last.content.any SearchBlock.isToolUse := by
  induction output generalizing reply with
  | nil =>
    obtain rfl := Except.ok.inj hlast
    exact ⟨.complete h, hfunction⟩
  | cons item rest ih =>
    rw [convert] at hlast
    split at hlast
    · obtain ⟨query, result, hcontent, hresult⟩ := content_search host body name maxUses item
        (rest.all fun other ↦ kind other != some "web_search_call") reply
      have hany : reply.hasFunction = (search host body name maxUses item (rest.all fun other ↦
          kind other != some "web_search_call") reply).content.any SearchBlock.isToolUse := by
        simp [hcontent, hfunction, SearchBlock.isToolUse]
      change (if isOver maxUses (reply.count + 1) = true then _ else _) = _ at hlast
      split at hlast
      next hover =>
        -- the search that is refused is the first one over the limit
        obtain rfl := Except.ok.inj hlast
        obtain rfl := hresult.mpr hover
        refine ⟨?_, hany⟩
        have hwithin := h.within
        obtain - | limit := maxUses
        · nomatch hover
        have hlimit : limit = reply.count := by
          simp [isOver] at hover hwithin
          omega
        rw [hcontent]
        exact .refused query (congrArg some hlimit) h
      next hover =>
        refine ih ?_ hany hlast
        rw [hcontent]
        exact .search query (Bool.not_eq_true _ ▸ hover) (mt hresult.mp hover) h
    split at hlast
    · obtain ⟨blocks, -, hlast⟩ := except_bind_eq_ok.mp hlast
      obtain ⟨texts, htexts, hlast⟩ := except_bind_eq_ok.mp hlast
      obtain ⟨hturns, hnone⟩ := h.texts htexts
      exact ih hturns (by rw [List.any_append, hnone, Bool.or_false]; exact hfunction) hlast
    split at hlast
    · obtain ⟨call, hcall, hlast⟩ := except_bind_eq_ok.mp hlast
      obtain ⟨hpermitted, htool⟩ := permitted_functionCall hcall
      exact ih (h.call hpermitted) (by simp [htool]) hlast
    split at hlast
    · exact ih h hfunction hlast
    · nomatch hlast

/-- The searches are numbered from one. -/
theorem Answers.ids {count : ℕ} {blocks : List SearchBlock}
    (h : Answers body name maxUses request count blocks) :
    blocks.filterMap SearchBlock.callId = (List.range count).map fun n ↦ searchId body (n + 1) := by
  have hturns : ∀ {count blocks}, Turns body name maxUses request count blocks →
      blocks.filterMap SearchBlock.callId =
        (List.range count).map fun n ↦ searchId body (n + 1) := by
    intro count blocks h
    induction h with
    | nil => rfl
    | text text h ih => rw [List.filterMap_append, ih]; exact List.append_nil _
    | @call count blocks block hpermitted h ih =>
      rw [List.filterMap_append, ih]
      rcases block with _ | _ | _ | _
      · exact hpermitted.elim
      · exact hpermitted.elim
      · exact hpermitted.elim
      · exact List.append_nil _
    | search query hlimit hresult h ih =>
      rw [List.filterMap_append, ih, List.range_succ, List.map_append]
      rfl
  obtain h | ⟨query, hlimit, h⟩ := h
  · exact hturns h
  · rw [List.filterMap_append, hturns h, List.range_succ, List.map_append]
    rfl

theorem searchId_injective (body : JsonValue) : Function.Injective (searchId body) := by
  intro n m h
  have htext : (toString n).toList = (toString m).toList := by
    simpa [searchId, String.toList_append] using congrArg String.toList h
  change (Nat.repr n).toList = (Nat.repr m).toList at htext
  rw [Nat.toList_repr, Nat.toList_repr] at htext
  exact Option.some.inj ((decimal_toDigits n).symm.trans (htext ▸ decimal_toDigits m))

/-- **Answers of bridged searches.** Every search is answered right after its call, under an id of
its own; within the limit but for one that is refused in the end. The client's tools are called only
as the request permits, and the answer stops for them if and only if there are calls. -/
theorem answers_fromResponses (host : SearchHost) (body : JsonValue) (name : String)
    (maxUses : Option ℕ) (request : JsonValue) (model : String) (message : SearchMessage)
    (h : fromResponses host body name maxUses request model = .ok message) :
    Answers body name maxUses request message.usage.webSearchRequests message.content ∧
      (message.content.filterMap SearchBlock.callId).Nodup ∧
      (message.content.filterMap SearchBlock.callId).length = message.usage.webSearchRequests ∧
      (message.stopReason = some "tool_use" ↔ ∃ block ∈ message.content, block.isToolUse = true) ∧
      ∃ block ∈ message.content, block.isUsable = true := by
  unfold fromResponses at h
  rw [except_seq_eq_ok] at h
  obtain ⟨-, h⟩ := h
  obtain ⟨output, -, h⟩ := except_bind_eq_ok.mp h
  rw [except_seq_eq_ok] at h
  obtain ⟨reply, hreply, h⟩ := except_bind_eq_ok.mp h.2
  rw [except_seq_eq_ok, ensure_eq_ok, except_seq_eq_ok] at h
  obtain ⟨husable, -, h⟩ := h
  obtain rfl := Except.ok.inj h
  obtain ⟨hanswers, hfunction⟩ := answers_convert (by exact .nil) (by rfl) hreply
  refine ⟨hanswers, ?_, ?_, ?_, List.any_eq_true.mp husable⟩
  · rw [hanswers.ids]
    exact List.nodup_range.map fun n m hnm ↦ Nat.succ_injective (searchId_injective body hnm)
  · rw [hanswers.ids, List.length_map, List.length_range]
  · rw [← List.any_eq_true, ← hfunction]
    by_cases hcalls : reply.hasFunction = true
    · simp [hcalls]
    · by_cases hstatus : (body.index "status").asStr = some "incomplete"
      · simp [hcalls, hstatus]
      · simp [hcalls, hstatus]

end Conversion

/-- One search and one call of a client's tool. -/
def searchedBody : JsonValue := .object [("status", .string "completed"), ("output", .array [
  .object [("type", .string "web_search_call"), ("status", .string "completed")],
  .object [("type", .string "function_call"), ("name", .string "f"), ("call_id", .string "c")]])]

def searchRequest : JsonValue := .object [("tools", .array [
  .object [("name", .string "f"), ("input_schema", .object [])]])]

theorem answers_fromResponses_searchedBody : ∃ message : SearchMessage,
    message.stopReason = some "tool_use" ∧ ∃ block ∈ message.content, block.isToolUse = true := by
  have hstop : (fromResponses ⟨fun _ ↦ none, fun _ ↦ .ok (.object [])⟩ searchedBody "web_search"
      (some 1) searchRequest "m").toOption.map SearchMessage.stopReason =
        some (some "tool_use") := by
    decide +kernel
  rcases hanswer : fromResponses ⟨fun _ ↦ none, fun _ ↦ .ok (.object [])⟩ searchedBody "web_search"
    (some 1) searchRequest "m" with error | message
  · rw [hanswer] at hstop
    nomatch hstop
  · rw [hanswer] at hstop
    have htool : message.stopReason = some "tool_use" := Option.some.inj hstop
    exact ⟨message, htool, (answers_fromResponses _ _ _ _ _ _ _ hanswer).2.2.2.1.mp htool⟩

/-! ## Streaming -/

/-- The events of the Messages stream, without their frames. -/
inductive Event where
  | messageStart (message : SearchMessage)
  | blockStart (index : ℕ) (block : SearchBlock)
  | textDelta (index : ℕ) (text : String)
  | inputJsonDelta (index : ℕ) (partialJson : String)
  | blockStop (index : ℕ)
  | messageDelta (stopReason : Option String) (usage : SearchUsage)
  | messageStop

/-- The message that was read so far, and the block that is open. -/
abbrev Reading : Type := Option SearchMessage × Option SearchBlock

/-- A reader of the stream: blocks come one after another under their indices, and an event in any
other place is an error. -/
def read (parse : String → Option JsonValue) : Reading → Event → Option Reading
  | (none, none), .messageStart message => some (some message, none)
  | (some message, none), .blockStart index block =>
    if index = message.content.length then some (some message, some block) else none
  | (some message, some (.text text)), .textDelta index more =>
    if index = message.content.length then some (some message, some (.text (text ++ more)))
    else none
  | (some message, some block), .inputJsonDelta index json =>
    if index = message.content.length then
      ((parse json).bind (SearchBlock.withInput · block)).map fun block ↦ (some message, some block)
    else none
  | (some message, some block), .blockStop index =>
    if index = message.content.length then
      some (some { message with content := message.content ++ [block] }, none)
    else none
  | (some message, none), .messageDelta stopReason usage =>
    some (some { message with stopReason, usage }, none)
  | (some message, none), .messageStop => some (some message, none)
  | _, _ => none

end WebSearch

end TokenStation
