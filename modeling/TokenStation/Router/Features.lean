import TokenStation.Protocol.Chat
import TokenStation.Router.Lexicon

/-!
# What the router looked at

`RequestFeatures.extract` reads a request once and keeps only numbers. Token counts saturate at
`u32::MAX`, as every counter of the structure does.
-/

namespace TokenStation

open Library

/-- What the router looked at, and the only thing it remembers having looked at. -/
structure RequestFeatures where
  /-- Estimated tokens of the whole request, for context-window fitting. -/
  estimatedInputTokens : ℕ := 0
  /-- Estimated tokens of the non-system messages, for difficulty scoring. -/
  conversationTokens : ℕ := 0
  messageCount : ℕ := 0
  toolCount : ℕ := 0
  hasImages : Bool := false
  requiresJsonSchema : Bool := false
  codeBlockCount : ℕ := 0
  requestedMaxOutputTokens : Option ℕ := none
  hintCount : ℕ := 0
  reasoningMarkerCount : ℕ := 0
  technicalTermCount : ℕ := 0
  simpleIndicatorCount : ℕ := 0
  codeKeywordCount : ℕ := 0
  mathTermCount : ℕ := 0
  creativeTermCount : ℕ := 0
  multiStepSignal : ℕ := 0
  questionCount : ℕ := 0
  systemFormatHint : Bool := false
  deriving DecidableEq, Repr

/-- Four ASCII characters per token, one token per non-ASCII character. -/
def estimateTokens (text : String) : ℕ :=
  let ascii := clampTo u32Max (text.toList.countP fun c ↦ decide (c.val < 128))
  let wide := clampTo u32Max (text.toList.countP fun c ↦ !decide (c.val < 128))
  satAdd u32Max ((ascii + 3) / 4) wide

/-- The number of triple-backtick fences. -/
def countFences (text : String) : ℕ :=
  truncate (countOccurrences "```".toList 0 text.toList)

/-! ## The message loop -/

/-- The counters the message loop of `extract` carries. -/
structure Tally where
  estimatedInputTokens : ℕ := 0
  conversationTokens : ℕ := 0
  codeFences : ℕ := 0
  hasImages : Bool := false

namespace Tally

/-- The `add` closure: tokens always count as input, and as conversation outside system text. -/
def add (isConversation : Bool) (tokens : ℕ) (tally : Tally) : Tally :=
  { tally with
    estimatedInputTokens := satAdd u32Max tally.estimatedInputTokens tokens
    conversationTokens :=
      if isConversation then satAdd u32Max tally.conversationTokens tokens
      else tally.conversationTokens }

def addText (isConversation : Bool) (text : String) (tally : Tally) : Tally :=
  let tally := tally.add isConversation (estimateTokens text)
  { tally with codeFences := satAdd u32Max tally.codeFences (countFences text) }

def addPart (isConversation : Bool) (tally : Tally) : ContentPart → Tally
  | .text text => tally.addText isConversation text
  | .imageUrl _ _ => { tally with hasImages := true }
  | .thinking _ _ | .redactedThinking _ | .unknown _ => tally

def addMessage (tally : Tally) (message : Message) : Tally :=
  let isConversation := decide (message.role ≠ .system)
  let tally := match message.content with
    | some (.text text) => tally.addText isConversation text
    | some (.parts parts) => parts.foldl (addPart isConversation) tally
    | none => tally
  message.toolCalls.foldl
    (fun tally call ↦ tally.add isConversation (estimateTokens call.arguments)) tally

end Tally

/-! ## The scanned texts -/

/-- The texts of the text parts, each followed by a space. -/
def partsText (parts : List ContentPart) : String :=
  parts.foldl (fun text part ↦ match part with
    | .text t => text ++ t ++ " "
    | _ => text) ""

/-- The text of the last user message. -/
def lastUserText (request : ChatRequest) : String :=
  match request.messages.reverse.find? fun message ↦ decide (message.role = .user) with
  | none => ""
  | some message => match message.content with
    | some (.text text) => text
    | some (.parts parts) => partsText parts
    | none => ""

/-- All system-role text, concatenated. -/
def systemText (request : ChatRequest) : String :=
  request.messages.foldl (fun text message ↦
    if message.role = .system then
      match message.content with
      | some (.text t) => text ++ t ++ " "
      | some (.parts parts) => text ++ partsText parts
      | none => text
    else text) ""

/-- Multi-step framing: 10 for numbered or step framing, 6 for first-then sequencing, else 0. -/
def multiStepSignal (unicode : Unicode) (userText : String) : ℕ :=
  let numbered := containsText userText "1." && containsText userText "2."
  let stepWords := Lexicon.hasPhrase unicode userText "step 1"
    || Lexicon.hasPhrase unicode userText "step 2"
    || containsText userText "第一步" || containsText userText "第二步"
  let sequenced := (Lexicon.hasPhrase unicode userText "first"
      && Lexicon.hasPhrase unicode userText "then")
    || (containsText userText "首先" && containsText userText "然后")
  if numbered || stepWords then 10 else if sequenced then 6 else 0

/-- Whether the caller asked for JSON output, with a schema or without. -/
def requiresJsonSchema : Option ResponseFormat → Bool
  | some .jsonObject | some (.jsonSchema _) => true
  | some .text | none => false

namespace RequestFeatures

/-- Reads the request once, and keeps only numbers. -/
def extract (unicode : Unicode) (request : ChatRequest) (hints : List AgentHint) :
    RequestFeatures :=
  let tally := request.messages.foldl Tally.addMessage {}
  let userText := unicode.toLowercase (lastUserText request)
  let systemText := unicode.toLowercase (systemText request)
  { estimatedInputTokens := tally.estimatedInputTokens
    conversationTokens := tally.conversationTokens
    messageCount := truncate request.messages.length
    toolCount := truncate request.tools.length
    hasImages := tally.hasImages
    requiresJsonSchema := TokenStation.requiresJsonSchema request.responseFormat
    codeBlockCount := tally.codeFences / 2
    requestedMaxOutputTokens := request.maxOutputTokens
    hintCount := truncate hints.length
    reasoningMarkerCount := Lexicon.countMatches unicode userText Lexicon.reasoningMarkers
    technicalTermCount := Lexicon.countMatches unicode userText Lexicon.technicalTerms
    simpleIndicatorCount := Lexicon.countMatches unicode userText Lexicon.simpleIndicators
    codeKeywordCount := Lexicon.countMatches unicode userText Lexicon.codeKeywords
    mathTermCount := Lexicon.countMatches unicode userText Lexicon.mathTerms
    creativeTermCount := Lexicon.countMatches unicode userText Lexicon.creativeTerms
    multiStepSignal := TokenStation.multiStepSignal unicode userText
    questionCount := truncate (userText.toList.count '?' + userText.toList.count '？')
    systemFormatHint :=
      decide (0 < Lexicon.countMatches unicode systemText Lexicon.formatTerms) }

end RequestFeatures

end TokenStation
