import TokenStation.Protocol.Json
import TokenStation.Protocol.Usage

/-!
# What the host reads of a provider's usage

Three places read the usage that a provider reports. The relay folds the reports of the provider
component, the native path reads them off the events it passes on, and the accounting tap observes
every body on its own. The tap tells a count that was reported as zero from one that was not
reported.
-/

namespace TokenStation

open JsonValue Library

/-! ## The native path -/

/-- Anthropic's usage object in the host's fields, with the wire's convention for the input. -/
def wireUsage (usage : JsonValue) : Usage :=
  let field (name : String) : UInt64 := ((usage.member name).bind asU64).getD 0
  let tier (name : String) : UInt64 :=
    (((usage.member "cache_creation").bind (·.member name)).bind asU64).getD 0
  { inputTokens := field "input_tokens"
    outputTokens := field "output_tokens"
    cacheReadTokens := field "cache_read_input_tokens"
    explicitCacheReadTokens := 0
    cacheWriteTokens := field "cache_creation_input_tokens"
    cacheWrite5mTokens := tier "ephemeral_5m_input_tokens"
    cacheWrite1hTokens := tier "ephemeral_1h_input_tokens"
    reasoningTokens := 0 }

/-- `anthropic_wire_usage`: an object with no count is not a report. -/
def anthropicWireUsage (usage : JsonValue) : Option Usage :=
  let parsed := canonicalProviderUsage "anthropic" (wireUsage usage)
  if parsed ≠ {} then some parsed else none

/-- The usage object of an event of the native stream. -/
def nativeUsageObject (event : JsonValue) : Option JsonValue :=
  (event.member "usage").or ((event.member "message").bind (·.member "usage"))

/-- `AnthropicSseUsageTap::observe_line`, once the line is parsed: the usage so far. -/
def nativeObserve (usage : Option Usage) (event : JsonValue) : Option Usage :=
  match (nativeUsageObject event).bind anthropicWireUsage with
  | none => usage
  | some found => some ((usage.getD {}).absorb found)

/-! ## The accounting tap -/

/-- `UsageObservation`: counts that were reported, the input with its cached part. -/
structure UsageObservation where
  incomplete : Bool := false
  inputTokens : Option UInt64 := none
  outputTokens : Option UInt64 := none
  cacheReadTokens : Option UInt64 := none
  cacheWriteTokens : Option UInt64 := none
  cacheWrite5mTokens : Option UInt64 := none
  cacheWrite1hTokens : Option UInt64 := none
  reasoningTokens : Option UInt64 := none
  deriving DecidableEq

namespace UsageObservation

/-- A count of a later observation counts, zero or not. -/
def absorb (observation later : UsageObservation) : UsageObservation where
  incomplete := observation.incomplete || later.incomplete
  inputTokens := later.inputTokens.or observation.inputTokens
  outputTokens := later.outputTokens.or observation.outputTokens
  cacheReadTokens := later.cacheReadTokens.or observation.cacheReadTokens
  cacheWriteTokens := later.cacheWriteTokens.or observation.cacheWriteTokens
  cacheWrite5mTokens := later.cacheWrite5mTokens.or observation.cacheWrite5mTokens
  cacheWrite1hTokens := later.cacheWrite1hTokens.or observation.cacheWrite1hTokens
  reasoningTokens := later.reasoningTokens.or observation.reasoningTokens

/-- The usage with the counts that were observed. -/
def apply (observation : UsageObservation) (usage : Usage) : Usage where
  inputTokens := observation.inputTokens.getD usage.inputTokens
  outputTokens := observation.outputTokens.getD usage.outputTokens
  cacheReadTokens := observation.cacheReadTokens.getD usage.cacheReadTokens
  explicitCacheReadTokens := usage.explicitCacheReadTokens
  cacheWriteTokens := observation.cacheWriteTokens.getD usage.cacheWriteTokens
  cacheWrite5mTokens := observation.cacheWrite5mTokens.getD usage.cacheWrite5mTokens
  cacheWrite1hTokens := observation.cacheWrite1hTokens.getD usage.cacheWrite1hTokens
  reasoningTokens := observation.reasoningTokens.getD usage.reasoningTokens

end UsageObservation

/-- The usage object of a body, in any of the dialects. -/
def usageObject (body : JsonValue) : Option JsonValue :=
  ((((body.member "usage").or ((body.member "message").bind (·.member "usage"))).or
    ((body.member "response").bind (·.member "usage"))).or
      (body.member "usageMetadata")).filter isObject

/-- A count of a usage object. -/
def rawCount (raw : JsonValue) (key : String) : Option UInt64 := (raw.member key).bind asU64

/-- A count of a group in a usage object. -/
def rawDetail (raw : JsonValue) (group key : String) : Option UInt64 :=
  ((raw.member group).bind (·.member key)).bind asU64

def rawCacheRead (raw : JsonValue) : Option UInt64 :=
  ((((rawCount raw "cache_read_input_tokens").or
    (rawDetail raw "prompt_tokens_details" "cached_tokens")).or
    (rawDetail raw "input_tokens_details" "cached_tokens")).or
    (rawCount raw "prompt_cache_hit_tokens")).or
    (rawCount raw "cachedContentTokenCount")

def rawCacheWrite (raw : JsonValue) : Option UInt64 :=
  ((rawCount raw "cache_creation_input_tokens").or
    (rawDetail raw "prompt_tokens_details" "cache_write_tokens")).or
    (rawDetail raw "input_tokens_details" "cache_write_tokens")

/-- A count that is there, and is no count. -/
def invalidCount (raw : JsonValue) (key : String) : Bool :=
  (raw.member key).any fun value ↦ !value.isNull && value.asU64.isNone

def invalidDetail (raw : JsonValue) (group : String) (keys : List String) : Bool :=
  (raw.member group).any fun value ↦
    !value.isNull && (!value.isObject || keys.any (invalidCount value))

def countKeys : List String :=
  ["prompt_tokens", "input_tokens", "promptTokenCount", "completion_tokens", "output_tokens",
    "candidatesTokenCount", "thoughtsTokenCount", "cache_read_input_tokens",
    "cache_creation_input_tokens", "prompt_cache_hit_tokens", "cachedContentTokenCount"]

def observationIncomplete (raw : JsonValue) : Bool :=
  countKeys.any (invalidCount raw)
    || invalidDetail raw "prompt_tokens_details" ["cached_tokens", "cache_write_tokens"]
    || invalidDetail raw "input_tokens_details" ["cached_tokens", "cache_write_tokens"]
    || invalidDetail raw "cache_creation"
      ["ephemeral_5m_input_tokens", "ephemeral_1h_input_tokens"]
    || invalidDetail raw "completion_tokens_details" ["reasoning_tokens"]
    || invalidDetail raw "output_tokens_details" ["reasoning_tokens"]

/-- Whether the input of a body leaves its cached part out. -/
def reportsFreshInput (body raw : JsonValue) : Bool :=
  (raw.member "prompt_tokens").isNone
    && ((raw.member "cache_creation_input_tokens").isSome
      || (raw.member "cache_read_input_tokens").isSome
      || (body.member "message").isSome
      || (body.member "type").bind asStr == some "message_delta")

/-- The input with its cached part, if it fits. -/
def inclusiveInput (fresh cacheRead cacheWrite : UInt64) : Option UInt64 :=
  (Word.checkedAdd fresh cacheRead).bind (Word.checkedAdd · cacheWrite)

def observedInput (body raw : JsonValue) : Option UInt64 :=
  let input := ((rawCount raw "prompt_tokens").or (rawCount raw "input_tokens")).or
    (rawCount raw "promptTokenCount")
  if reportsFreshInput body raw then
    input.bind fun value ↦
      inclusiveInput value ((rawCacheRead raw).getD 0) ((rawCacheWrite raw).getD 0)
  else input

def observedOutput (raw : JsonValue) : Option UInt64 :=
  ((rawCount raw "completion_tokens").or (rawCount raw "output_tokens")).or
    ((rawCount raw "candidatesTokenCount").bind fun value ↦
      Word.checkedAdd value ((rawCount raw "thoughtsTokenCount").getD 0))

def observe (body : JsonValue) : UsageObservation :=
  match usageObject body with
  | none => {}
  | some raw =>
    { incomplete := observationIncomplete raw
      inputTokens := observedInput body raw
      outputTokens := observedOutput raw
      cacheReadTokens := rawCacheRead raw
      cacheWriteTokens := rawCacheWrite raw
      cacheWrite5mTokens := rawDetail raw "cache_creation" "ephemeral_5m_input_tokens"
      cacheWrite1hTokens := rawDetail raw "cache_creation" "ephemeral_1h_input_tokens"
      reasoningTokens := ((rawDetail raw "completion_tokens_details" "reasoning_tokens").or
        (rawDetail raw "output_tokens_details" "reasoning_tokens")).or
        (rawCount raw "thoughtsTokenCount") }

inductive UsageStage where
  | unseen
  | preliminary
  | reported
  deriving DecidableEq

/-- The part of the tap that the events of a stream change. -/
structure AccountingTap where
  observation : UsageObservation := {}
  stage : UsageStage := .unseen
  actualUsd : Option ℤ := none
  trustedUsd : Bool := false

namespace AccountingTap

/-- `a.checked_sub(b)`. -/
def checkedSub (a b : UInt64) : Option UInt64 := if b ≤ a then some (a - b) else none

/-- Whether an event has the native convention for the input. -/
def nativeInput (body raw : JsonValue) : Bool :=
  (raw.member "prompt_tokens").isNone
    && (((body.member "type").bind asStr).any (fun kind ↦ "message_".toList.isPrefixOf kind.toList)
      || (raw.member "cache_read_input_tokens").isSome
      || (raw.member "cache_creation_input_tokens").isSome)

/-- The fresh input that an observation stands for. -/
def freshOf (observation : UsageObservation) : Option UInt64 := do
  let input ← observation.inputTokens
  let withoutRead ← checkedSub input (observation.cacheReadTokens.getD 0)
  checkedSub withoutRead (observation.cacheWriteTokens.getD 0)

def stageAfter (stage : UsageStage) (body : JsonValue) (observation : UsageObservation) :
    UsageStage :=
  match (body.member "type").bind asStr with
  | some "message_start" => .preliminary
  | some "message_delta" => if observation.outputTokens.isNone then stage else .reported
  | _ => .reported

/-- `AccountingTap::event`. -/
def event (tap : AccountingTap) (body : JsonValue) (cost : Option ℤ) : AccountingTap :=
  match usageObject body with
  | none => tap
  | some raw =>
    let observation := observe body
    let fresh :=
      if nativeInput body raw then (rawCount raw "input_tokens").or (freshOf tap.observation)
      else none
    let absorbed := tap.observation.absorb observation
    let absorbed := match fresh with
      | none => absorbed
      | some fresh => { absorbed with
          inputTokens := inclusiveInput fresh (absorbed.cacheReadTokens.getD 0)
            (absorbed.cacheWriteTokens.getD 0) }
    { tap with
      observation := absorbed
      stage := stageAfter tap.stage body observation
      actualUsd := if tap.trustedUsd then cost.or tap.actualUsd else tap.actualUsd }

end AccountingTap

/-! ## What the client is told -/

/-- The input without its cached part. -/
def freshInputTokens (usage : Usage) : UInt64 :=
  let withoutRead := if usage.cacheReadTokens ≤ usage.inputTokens then
    usage.inputTokens - usage.cacheReadTokens else 0
  if usage.cacheWriteTokens ≤ withoutRead then withoutRead - usage.cacheWriteTokens else 0

/-- `stream_usage`: the counts of a rendered `message_delta`. -/
structure StreamUsage where
  inputTokens : UInt64
  outputTokens : UInt64
  cacheReadInputTokens : UInt64
  cacheCreationInputTokens : UInt64
  deriving DecidableEq

def streamUsage (usage : Usage) : StreamUsage where
  inputTokens := freshInputTokens usage
  outputTokens := usage.outputTokens
  cacheReadInputTokens := usage.cacheReadTokens
  cacheCreationInputTokens := usage.cacheWriteTokens

end TokenStation
