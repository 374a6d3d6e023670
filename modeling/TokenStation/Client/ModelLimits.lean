import TokenStation.Client.Draft
import TokenStation.Protocol.Text

/-!
# The limits of a model

A model has a context window and a limit of its output, and each of them says who set it: the
provider, a built-in preset, the operator or a guess. What the provider reports and what is built in
are merged into the draft. A configuration whose output limit is above the context window is
refused, so a merge has to look at both limits and at both of their sources.
-/

namespace TokenStation

open Library JsonValue

namespace ModelLimits

/-! ## The limits in a draft -/

def contextWindowSourceKey : String := "x-token-station-context-window-source"

def maxOutputTokensSourceKey : String := "x-token-station-max-output-tokens-source"

def limitSourceProvider : String := "provider"

def limitSourceBuiltinPreset : String := "builtin_preset"

def limitSourceOperator : String := "operator"

def limitSourceHeuristic : String := "heuristic"

def jsonLimitSource (capability : JsonValue) (key : String) : Option String :=
  (capability.member key).bind asStr

def sourceIsDefault (source : Option String) : Bool :=
  source == some limitSourceBuiltinPreset || source == some limitSourceHeuristic

/-- `capability[field].as_u64()` -/
def limitAt (capability : JsonValue) (field : String) : Option ℕ :=
  (capability.index field).asU64.map UInt64.toNat

/-- A limit is written with its source. -/
def writeLimit (field key : String) (limit : UInt32) (source : String) (capability : JsonValue) :
    JsonValue :=
  setMember key (.string source) (setMember field (.number (toString limit.toNat)) capability)

/-- A limit is removed with its source. -/
def removeLimit (field key : String) (capability : JsonValue) : JsonValue :=
  removeMember key (removeMember field capability)

def writeContext (limit : UInt32) (source : String) : JsonValue → JsonValue :=
  writeLimit "context_window" contextWindowSourceKey limit source

def writeOutput (limit : UInt32) (source : String) : JsonValue → JsonValue :=
  writeLimit "max_output_tokens" maxOutputTokensSourceKey limit source

def removeContext : JsonValue → JsonValue := removeLimit "context_window" contextWindowSourceKey

def removeOutput : JsonValue → JsonValue :=
  removeLimit "max_output_tokens" maxOutputTokensSourceKey

/-! ## What the provider reports -/

/-- The reported context window. It does not displace the operator's, nor an output limit that is
the operator's and does not fit. -/
def reportContext (context : UInt32) (capability : JsonValue) : JsonValue × Bool :=
  let source := jsonLimitSource capability contextWindowSourceKey
  let configured := limitAt capability "context_window"
  if (configured.getD 0 = 0 ∨ sourceIsDefault source ∨ source = some limitSourceProvider) ∧
      (configured ≠ some context.toNat ∨ source ≠ some limitSourceProvider) then
    let configuredOutput := (limitAt capability "max_output_tokens").getD 0
    let outputSource := jsonLimitSource capability maxOutputTokensSourceKey
    let conflict := context.toNat ≤ configuredOutput ∧ 0 < configuredOutput
    if conflict then
      if sourceIsDefault outputSource ∨ outputSource = some limitSourceProvider then
        -- the output limit is stale
        (writeContext context limitSourceProvider (removeOutput capability), true)
      else (capability, false)
    else (writeContext context limitSourceProvider capability, true)
  else (capability, false)

/-- An output limit that nobody set goes where it does not fit. -/
def dropDefaultOutput (capability : JsonValue) : JsonValue × Bool :=
  let effectiveContext := (limitAt capability "context_window").getD 0
  let configuredOutput := (limitAt capability "max_output_tokens").getD 0
  if 0 < effectiveContext ∧ effectiveContext ≤ configuredOutput ∧ 0 < configuredOutput ∧
      sourceIsDefault (jsonLimitSource capability maxOutputTokensSourceKey) then
    (removeOutput capability, true)
  else (capability, false)

/-- An output that is reported alone makes a context window unknown that it does not fit and that is
not the operator's. -/
def dropContext (reportedContext : Option UInt32) (output : UInt32) (capability : JsonValue) :
    JsonValue × Bool :=
  let effectiveContext := (limitAt capability "context_window").getD 0
  let source := jsonLimitSource capability contextWindowSourceKey
  if reportedContext = none ∧ 0 < effectiveContext ∧ effectiveContext ≤ output.toNat ∧
      (sourceIsDefault source ∨ source = some limitSourceProvider) then
    (removeContext capability, true)
  else (capability, false)

/-- The reported output limit, where it fits. -/
def reportOutput (output : UInt32) (capability : JsonValue) : JsonValue × Bool :=
  let effectiveContext := (limitAt capability "context_window").getD 0
  if (effectiveContext = 0 ∨ output.toNat < effectiveContext) ∧
      (limitAt capability "max_output_tokens" ≠ some output.toNat ∨
        jsonLimitSource capability maxOutputTokensSourceKey ≠ some limitSourceProvider) then
    (writeOutput output limitSourceProvider capability, true)
  else (capability, false)

/-- Whether a reported output may displace the one that is configured. -/
def outputIsOpen (capability : JsonValue) : Bool :=
  let source := jsonLimitSource capability maxOutputTokensSourceKey
  (limitAt capability "max_output_tokens").getD 0 == 0 || sourceIsDefault source ||
    source == some limitSourceProvider

/-- The reported output limit, in the place of one that it may displace. -/
def mergeOutput (reportedContext : Option UInt32) (output : UInt32) (capability : JsonValue) :
    JsonValue × Bool :=
  if outputIsOpen capability then
    let (capability, contextDropped) := dropContext reportedContext output capability
    let (capability, outputChanged) := reportOutput output capability
    (capability, contextDropped || outputChanged)
  else (capability, false)

/-- `apply_provider_reported_limits`: whether something changed comes with the capability. -/
def applyProviderReportedLimits (reportedContext reportedOutput : Option UInt32)
    (capability : JsonValue) : JsonValue × Bool :=
  let (capability, contextChanged) :=
    (reportedContext.map reportContext).getD (fun capability ↦ (capability, false)) capability
  let (capability, outputDropped) := dropDefaultOutput capability
  let (capability, outputChanged) :=
    (reportedOutput.map (mergeOutput reportedContext)).getD (fun capability ↦ (capability, false))
      capability
  (capability, contextChanged || outputDropped || outputChanged)

/-! ## What is built in -/

structure BuiltinModelLimits where
  contextWindow : UInt32
  maxOutputTokens : UInt32
  deriving DecidableEq

/-- The limits of a few models at a few endpoints. -/
def builtinModelLimits (baseUrl model : String) : Option BuiltinModelLimits :=
  let endpoint := String.ofList (trimEndMatches (· == '/') (trim baseUrl.toList))
  if model = "glm-5.2" ∧ endpoint ∈ ["https://open.bigmodel.cn/api/paas/v4",
      "https://api.z.ai/api/paas/v4", "https://open.wecoding.ai/v1"] then
    some { contextWindow := 1000000, maxOutputTokens := 131072 }
  else if endpoint ∈ ["https://api.moonshot.cn/v1", "https://api.moonshot.ai/v1"] then
    if model = "kimi-k2.6" then some { contextWindow := 262144, maxOutputTokens := 262144 }
    else if model = "kimi-k3" then some { contextWindow := 1048576, maxOutputTokens := 131072 }
    else none
  else none

/-- The window of a size marker such as `128k`. -/
def markerWindow (digits : List Char) (unit : Char) : Option ℕ :=
  if unit = 'k' ∨ unit = 'm' then
    (decimal digits).bind fun n ↦
      let window := min (n * if unit = 'm' then 1000000 else 1000) (2 ^ 64 - 1)
      if n < 2 ^ 64 ∧ 8000 ≤ window ∧ window ≤ 10000000 then some window else none
  else none

/-- `context_window_from_marker`, after some digits: the largest marker counts. -/
def contextWindowFromMarker (digits : List Char) (best : Option ℕ) : List Char → Option ℕ
  | [] => best
  | c :: rest =>
    if c.isDigit then contextWindowFromMarker (digits ++ [c]) best rest
    else contextWindowFromMarker [] (max best (markerWindow digits c)) rest

def knownContextWindow (model : String) : ℕ :=
  let name := toAsciiLowercase model.toList
  match contextWindowFromMarker [] none name with
  | some window => window
  | none =>
    if "gemini".toList <:+: name then 1000000
    else if "claude".toList <:+: name then 200000
    else if name = "glm-5.2".toList then 1000000
    else 128000

/-- A context window that was guessed before guesses were marked. -/
def legacyHeuristic (model : String) (capability : JsonValue) : Bool :=
  let contextSource := jsonLimitSource capability contextWindowSourceKey
  (limitAt capability "max_output_tokens").getD 0 == 0 &&
    (jsonLimitSource capability maxOutputTokensSourceKey).isNone &&
    (limitAt capability "context_window").getD 0 == knownContextWindow model &&
    contextSource.all (· == limitSourceHeuristic)

/-- The context window of a preset, unless the provider reported an output that does not fit. -/
def fillContext (model : String) (preset : BuiltinModelLimits) (capability : JsonValue) :
    JsonValue × Bool :=
  let context := (limitAt capability "context_window").getD 0
  let output := (limitAt capability "max_output_tokens").getD 0
  let contextSource := jsonLimitSource capability contextWindowSourceKey
  let outputBlocks := jsonLimitSource capability maxOutputTokensSourceKey =
    some limitSourceProvider ∧ preset.contextWindow.toNat ≤ output
  if (context = 0 ∨ legacyHeuristic model capability ∨ sourceIsDefault contextSource) ∧
      ¬ outputBlocks ∧ (context ≠ preset.contextWindow.toNat ∨
        contextSource ≠ some limitSourceBuiltinPreset) then
    (writeContext preset.contextWindow limitSourceBuiltinPreset capability, true)
  else (capability, false)

/-- The output limit of a preset, where it fits. -/
def fillOutput (preset : BuiltinModelLimits) (capability : JsonValue) : JsonValue × Bool :=
  let effectiveContext := (limitAt capability "context_window").getD 0
  let output := (limitAt capability "max_output_tokens").getD 0
  let outputSource := jsonLimitSource capability maxOutputTokensSourceKey
  if (output = 0 ∨ sourceIsDefault outputSource) ∧
      preset.maxOutputTokens.toNat ≤ effectiveContext ∧
      (output ≠ preset.maxOutputTokens.toNat ∨
        outputSource ≠ some limitSourceBuiltinPreset) then
    (writeOutput preset.maxOutputTokens limitSourceBuiltinPreset capability, true)
  else (capability, false)

/-- The preset of a capability. -/
def presetOf (baseUrl : String) (capability : JsonValue) : Option (String × BuiltinModelLimits) :=
  (capability.index "model").asStr.bind fun model ↦
    (builtinModelLimits baseUrl model).map fun preset ↦ (model, preset)

/-- One turn of the loop of `apply_builtin_model_limits_to_upstream`. -/
def applyBuiltinModelLimits (baseUrl : String) (capability : JsonValue) : JsonValue × Bool :=
  match presetOf baseUrl capability with
  | none => (capability, false)
  | some (model, preset) =>
    let (capability, contextChanged) := fillContext model preset capability
    let (capability, outputChanged) := fillOutput preset capability
    (capability, contextChanged || outputChanged)

def baseUrlOf (upstream : JsonValue) : String := ((upstream.index "base_url").asStr).getD ""

/-- `apply_builtin_model_limits_to_upstream` -/
def applyBuiltinModelLimitsToUpstream (upstream : JsonValue) : JsonValue × Bool :=
  match upstream.member "models" with
  | some (.array models) =>
    let filled := models.map (applyBuiltinModelLimits (baseUrlOf upstream))
    (setMember "models" (.array (filled.map Prod.fst)) upstream, filled.any Prod.snd)
  | some _ => (upstream, false)
  | none => (setMember "models" .null upstream, false)

/-! ## Calls -/

/-- The calls that merge limits into an upstream. -/
inductive Call where
  | builtin
  | reported (index : ℕ) (context output : Option UInt32)

def modelsOf (upstream : JsonValue) : List JsonValue :=
  match upstream.member "models" with
  | some (.array models) => models
  | _ => []

/-- A call, with what it returns. The program stops where there is no such capability, or where it
is neither an object nor null. -/
def apply (upstream : JsonValue) : Call → Option (JsonValue × Bool)
  | .builtin => some (applyBuiltinModelLimitsToUpstream upstream)
  | .reported index context output =>
    match (modelsOf upstream)[index]? with
    | none => none
    | some capability =>
      if capability.isWritable then
        let (capability, changed) := applyProviderReportedLimits context output capability
        some (setMember "models" (.array ((modelsOf upstream).set index capability)) upstream,
          changed)
      else none

/-- Some calls, one after the other. -/
def run (upstream : JsonValue) (calls : List Call) : Option JsonValue :=
  calls.foldlM (fun upstream call ↦ (apply upstream call).map Prod.fst) upstream

/-! ## Reading and writing limits -/

/-- The context window, with its source. -/
def contextLimit (capability : JsonValue) : Option ℕ × Option String :=
  (limitAt capability "context_window", jsonLimitSource capability contextWindowSourceKey)

/-- The output limit, with its source. -/
def outputLimit (capability : JsonValue) : Option ℕ × Option String :=
  (limitAt capability "max_output_tokens", jsonLimitSource capability maxOutputTokensSourceKey)

section Fields

variable {capability : JsonValue} {limit : UInt32} {source field key other : String}

theorem limitAt_writeLimit (h : capability.isWritable = true) (hkey : field ≠ key) :
    limitAt (writeLimit field key limit source capability) field = some limit.toNat := by
  have hlt : limit.toNat < 2 ^ 64 := limit.toNat_lt.trans (by decide)
  rw [limitAt, writeLimit, index_setMember_ne hkey, index, member_setMember_self h,
    Option.getD_some, asU64_number hlt, Option.map_some, UInt64.toNat_ofNat_of_lt' hlt]

theorem jsonLimitSource_writeLimit (h : capability.isWritable = true) :
    jsonLimitSource (writeLimit field key limit source capability) key = some source := by
  rw [jsonLimitSource, writeLimit, member_setMember_self (by rw [isWritable_setMember, h])]
  rfl

theorem limitAt_writeLimit_ne (hfield : other ≠ field) (hkey : other ≠ key) :
    limitAt (writeLimit field key limit source capability) other = limitAt capability other := by
  rw [limitAt, writeLimit, index_setMember_ne hkey, index_setMember_ne hfield, limitAt]

theorem jsonLimitSource_writeLimit_ne (hfield : other ≠ field) (hkey : other ≠ key) :
    jsonLimitSource (writeLimit field key limit source capability) other =
      jsonLimitSource capability other := by
  rw [jsonLimitSource, writeLimit, member_setMember_ne hkey, member_setMember_ne hfield,
    jsonLimitSource]

theorem member_removeLimit :
    (removeLimit field key capability).member other =
      if other = key ∨ other = field then none else capability.member other := by
  rw [removeLimit, member_removeMember, member_removeMember]
  by_cases hkey : other = key
  · rw [if_pos hkey, if_pos (Or.inl hkey)]
  · by_cases hfield : other = field
    · rw [if_neg hkey, if_pos hfield, if_pos (Or.inr hfield)]
    · rw [if_neg hkey, if_neg hfield, if_neg (not_or.mpr ⟨hkey, hfield⟩)]

@[grind =] theorem contextLimit_writeContext (h : capability.isWritable = true) :
    contextLimit (writeContext limit source capability) = (some limit.toNat, some source) :=
  Prod.ext (limitAt_writeLimit h (by decide)) (jsonLimitSource_writeLimit h)

@[grind =] theorem outputLimit_writeContext :
    outputLimit (writeContext limit source capability) = outputLimit capability :=
  Prod.ext (limitAt_writeLimit_ne (by decide) (by decide))
    (jsonLimitSource_writeLimit_ne (by decide) (by decide))

@[grind =] theorem outputLimit_writeOutput (h : capability.isWritable = true) :
    outputLimit (writeOutput limit source capability) = (some limit.toNat, some source) :=
  Prod.ext (limitAt_writeLimit h (by decide)) (jsonLimitSource_writeLimit h)

@[grind =] theorem contextLimit_writeOutput :
    contextLimit (writeOutput limit source capability) = contextLimit capability :=
  Prod.ext (limitAt_writeLimit_ne (by decide) (by decide))
    (jsonLimitSource_writeLimit_ne (by decide) (by decide))

@[grind =] theorem contextLimit_removeContext :
    contextLimit (removeContext capability) = (none, none) := by
  rw [contextLimit, limitAt, jsonLimitSource, index, removeContext, member_removeLimit,
    member_removeLimit]
  rfl

@[grind =] theorem outputLimit_removeContext :
    outputLimit (removeContext capability) = outputLimit capability := by
  rw [outputLimit, limitAt, jsonLimitSource, index, removeContext, member_removeLimit,
    member_removeLimit, if_neg (by decide), if_neg (by decide)]
  rfl

@[grind =] theorem outputLimit_removeOutput :
    outputLimit (removeOutput capability) = (none, none) := by
  rw [outputLimit, limitAt, jsonLimitSource, index, removeOutput, member_removeLimit,
    member_removeLimit]
  rfl

@[grind =] theorem contextLimit_removeOutput :
    contextLimit (removeOutput capability) = contextLimit capability := by
  rw [contextLimit, limitAt, jsonLimitSource, index, removeOutput, member_removeLimit,
    member_removeLimit, if_neg (by decide), if_neg (by decide)]
  rfl

@[grind =] theorem isWritable_writeContext :
    (writeContext limit source capability).isWritable = capability.isWritable := by
  rw [writeContext, writeLimit, isWritable_setMember, isWritable_setMember]

@[grind =] theorem isWritable_writeOutput :
    (writeOutput limit source capability).isWritable = capability.isWritable := by
  rw [writeOutput, writeLimit, isWritable_setMember, isWritable_setMember]

@[grind =] theorem isWritable_removeContext :
    (removeContext capability).isWritable = capability.isWritable := by
  rw [removeContext, removeLimit, isWritable_removeMember, isWritable_removeMember]

@[grind =] theorem isWritable_removeOutput :
    (removeOutput capability).isWritable = capability.isWritable := by
  rw [removeOutput, removeLimit, isWritable_removeMember, isWritable_removeMember]

end Fields

/-! ## Sources -/

@[grind =] theorem sourceIsDefault_provider :
    sourceIsDefault (some limitSourceProvider) = false := by decide

@[grind =] theorem sourceIsDefault_preset :
    sourceIsDefault (some limitSourceBuiltinPreset) = true := by decide

@[grind =] theorem sourceIsDefault_operator :
    sourceIsDefault (some limitSourceOperator) = false := by decide

@[grind =] theorem sourceIsDefault_none : sourceIsDefault none = false := by decide

theorem provider_ne_preset : limitSourceProvider ≠ limitSourceBuiltinPreset := by decide

theorem provider_ne_operator : limitSourceProvider ≠ limitSourceOperator := by decide

/-! ## The parts of a merge -/

section Parts

variable {capability : JsonValue} {context output : UInt32}
variable {reportedContext reportedOutput : Option UInt32}

@[grind =] theorem limitAt_context :
    limitAt capability "context_window" = (contextLimit capability).1 := rfl

@[grind =] theorem limitAt_output :
    limitAt capability "max_output_tokens" = (outputLimit capability).1 := rfl

@[grind =] theorem source_context :
    jsonLimitSource capability contextWindowSourceKey = (contextLimit capability).2 := rfl

@[grind =] theorem source_output :
    jsonLimitSource capability maxOutputTokensSourceKey = (outputLimit capability).2 := rfl

/-- What is not changed is not touched. -/
theorem still_reportContext (h : (reportContext context capability).2 = false) :
    (reportContext context capability).1 = capability := by grind [reportContext]

theorem still_dropDefaultOutput (h : (dropDefaultOutput capability).2 = false) :
    (dropDefaultOutput capability).1 = capability := by grind [dropDefaultOutput]

theorem still_dropContext (h : (dropContext reportedContext output capability).2 = false) :
    (dropContext reportedContext output capability).1 = capability := by grind [dropContext]

theorem still_reportOutput (h : (reportOutput output capability).2 = false) :
    (reportOutput output capability).1 = capability := by grind [reportOutput]

theorem outputIsOpen_dropContext :
    outputIsOpen (dropContext reportedContext output capability).1 = outputIsOpen capability := by
  grind [dropContext, outputIsOpen]

/-- What is kept by every part of a merge is kept by the merge. -/
theorem reported_induction {motive : JsonValue → Prop} (start : motive capability)
    (context : ∀ capability context, reportedContext = some context → motive capability →
      motive (reportContext context capability).1)
    (drop : ∀ capability, motive capability → motive (dropDefaultOutput capability).1)
    (dropped : ∀ capability output, reportedOutput = some output →
      outputIsOpen capability = true → motive capability →
        motive (dropContext reportedContext output capability).1)
    (output : ∀ capability output, reportedOutput = some output →
      outputIsOpen capability = true → motive capability →
        motive (reportOutput output capability).1) :
    motive (applyProviderReportedLimits reportedContext reportedOutput capability).1 := by
  have hmerge (capability : JsonValue) (limit : UInt32) (hlimit : reportedOutput = some limit)
      (h : motive capability) : motive (mergeOutput reportedContext limit capability).1 := by
    rw [mergeOutput]
    split
    next hopen =>
      refine output _ _ hlimit ?_ (dropped _ _ hlimit hopen h)
      rw [outputIsOpen_dropContext, hopen]
    next => exact h
  have hcontext : motive ((reportedContext.map reportContext).getD
      (fun capability ↦ (capability, false)) capability).1 := by
    obtain _ | limit := reportedContext
    · exact start
    · exact context _ _ rfl start
  have hdrop := drop _ hcontext
  rw [applyProviderReportedLimits]
  obtain _ | limit := reportedOutput
  · exact hdrop
  · exact hmerge _ _ rfl hdrop

/-- A capability that a merge of the reported limits leaves. -/
structure Settled (reportedContext reportedOutput : Option UInt32) (capability : JsonValue) :
    Prop where
  context : ∀ context, reportedContext = some context →
    (reportContext context capability).2 = false
  drop : (dropDefaultOutput capability).2 = false
  output : ∀ output, reportedOutput = some output →
    (mergeOutput reportedContext output capability).2 = false

theorem still_mergeOutput (h : (mergeOutput reportedContext output capability).2 = false) :
    (mergeOutput reportedContext output capability).1 = capability := by
  grind [mergeOutput, still_dropContext, still_reportOutput]

theorem Settled.unchanged (h : Settled reportedContext reportedOutput capability) :
    (applyProviderReportedLimits reportedContext reportedOutput capability).2 = false := by
  obtain ⟨hcontext, hdrop, houtput⟩ := h
  have hfirst : (reportedContext.map reportContext).getD (fun capability ↦ (capability, false))
      capability = (capability, false) := by
    obtain _ | limit := reportedContext
    · rfl
    · exact Prod.ext (still_reportContext (hcontext limit rfl)) (hcontext limit rfl)
  have hlast : (reportedOutput.map (mergeOutput reportedContext)).getD
      (fun capability ↦ (capability, false)) capability = (capability, false) := by
    obtain _ | limit := reportedOutput
    · rfl
    · exact Prod.ext (still_mergeOutput (houtput limit rfl)) (houtput limit rfl)
  have hmiddle : dropDefaultOutput capability = (capability, false) :=
    Prod.ext (still_dropDefaultOutput hdrop) hdrop
  rw [applyProviderReportedLimits, hfirst]
  dsimp only
  rw [hmiddle]
  dsimp only
  rw [hlast]
  rfl

/-! ### A merge settles what it merges -/

theorem reportContext_settles (h : capability.isWritable = true) :
    (reportContext context (reportContext context capability).1).2 = false := by
  grind [reportContext]

theorem reportContext_dropDefaultOutput (h : (reportContext context capability).2 = false) :
    (reportContext context (dropDefaultOutput capability).1).2 = false := by
  grind [reportContext, dropDefaultOutput]

theorem dropDefaultOutput_settles :
    (dropDefaultOutput (dropDefaultOutput capability).1).2 = false := by
  grind [dropDefaultOutput]

theorem reportContext_mergeOutput (_ : capability.isWritable = true)
    (hquiet : (reportContext context capability).2 = false) :
    (reportContext context (mergeOutput (some context) output capability).1).2 = false := by
  grind [reportContext, mergeOutput, outputIsOpen, dropContext, reportOutput]

theorem dropDefaultOutput_mergeOutput (hwritable : capability.isWritable = true)
    (hquiet : (dropDefaultOutput capability).2 = false) :
    (dropDefaultOutput (mergeOutput reportedContext output capability).1).2 = false := by
  grind [dropDefaultOutput, mergeOutput, outputIsOpen, dropContext, reportOutput]

theorem mergeOutput_settles (h : capability.isWritable = true) :
    (mergeOutput reportedContext output
      (mergeOutput reportedContext output capability).1).2 = false := by
  grind [mergeOutput, outputIsOpen, dropContext, reportOutput]

theorem isWritable_reportContext :
    (reportContext context capability).1.isWritable = capability.isWritable := by
  grind [reportContext]

theorem isWritable_dropDefaultOutput :
    (dropDefaultOutput capability).1.isWritable = capability.isWritable := by
  grind [dropDefaultOutput]

theorem settled_applyProviderReportedLimits (h : capability.isWritable = true) :
    Settled reportedContext reportedOutput
      (applyProviderReportedLimits reportedContext reportedOutput capability).1 := by
  rw [applyProviderReportedLimits]
  dsimp only
  generalize hfirst : ((reportedContext.map reportContext).getD
    (fun capability ↦ (capability, false)) capability).1 = first
  have hwritable : first.isWritable = true := by
    obtain _ | limit := reportedContext
    · rw [← hfirst]
      exact h
    · rw [← hfirst, ← h]
      exact isWritable_reportContext
  have hcontext : ∀ context, reportedContext = some context →
      (reportContext context (dropDefaultOutput first).1).2 = false := by
    rintro context rfl
    rw [← hfirst]
    exact reportContext_dropDefaultOutput (reportContext_settles h)
  have hmiddle : (dropDefaultOutput first).1.isWritable = true := by
    rw [isWritable_dropDefaultOutput, hwritable]
  obtain _ | output := reportedOutput
  · refine ⟨?_, ?_, fun output houtput ↦ nomatch houtput⟩
    · exact hcontext
    · exact dropDefaultOutput_settles
  · refine ⟨?_, ?_, ?_⟩
    · rintro context rfl
      exact reportContext_mergeOutput hmiddle (hcontext context rfl)
    · exact dropDefaultOutput_mergeOutput hmiddle dropDefaultOutput_settles
    · rintro _ ⟨⟩
      exact mergeOutput_settles hmiddle

/-- A merge that changes nothing leaves the capability. -/
theorem still_applyProviderReportedLimits
    (h : (applyProviderReportedLimits reportedContext reportedOutput capability).2 = false) :
    (applyProviderReportedLimits reportedContext reportedOutput capability).1 = capability := by
  rw [applyProviderReportedLimits] at h ⊢
  dsimp only at h ⊢
  rw [Bool.or_eq_false_iff, Bool.or_eq_false_iff] at h
  obtain ⟨⟨hcontext, hdrop⟩, houtput⟩ := h
  have hfirst : ((reportedContext.map reportContext).getD (fun capability ↦ (capability, false))
      capability).1 = capability := by
    obtain _ | limit := reportedContext
    · rfl
    · exact still_reportContext hcontext
  have hmiddle := still_dropDefaultOutput hdrop
  rw [hfirst] at hmiddle hdrop houtput ⊢
  rw [hmiddle] at houtput ⊢
  obtain _ | limit := reportedOutput
  · rfl
  · exact still_mergeOutput houtput

end Parts

/-! ## The parts of a preset -/

section Presets

variable {capability : JsonValue} {model baseUrl : String} {preset : BuiltinModelLimits}

/-- Every preset is accepted. -/
theorem preset_bounds (h : builtinModelLimits baseUrl model = some preset) :
    0 < preset.contextWindow.toNat ∧
      preset.maxOutputTokens.toNat ≤ preset.contextWindow.toNat := by
  rw [builtinModelLimits] at h
  generalize String.ofList (trimEndMatches (· == '/') (trim baseUrl.toList)) = endpoint at h
  split_ifs at h
  · rw [← Option.some.inj h]
    decide
  · rw [← Option.some.inj h]
    decide
  · rw [← Option.some.inj h]
    decide

theorem presetOf_eq_some (h : presetOf baseUrl capability = some (model, preset)) :
    (capability.index "model").asStr = some model ∧
      builtinModelLimits baseUrl model = some preset := by
  obtain ⟨name, hname, hpreset⟩ := Option.bind_eq_some_iff.mp h
  obtain ⟨found, hfound, heq⟩ := Option.map_eq_some_iff.mp hpreset
  obtain ⟨rfl, rfl⟩ := Prod.mk.inj heq
  exact ⟨hname, hfound⟩

theorem isWritable_of_presetOf (h : presetOf baseUrl capability = some (model, preset)) :
    capability.isWritable = true := by
  have hmodel := (presetOf_eq_some h).1
  obtain _ | _ | _ | _ | _ | _ := capability
  · rfl
  · nomatch hmodel
  · nomatch hmodel
  · nomatch hmodel
  · nomatch hmodel
  · rfl

theorem still_fillContext (h : (fillContext model preset capability).2 = false) :
    (fillContext model preset capability).1 = capability := by grind [fillContext]

theorem still_fillOutput (h : (fillOutput preset capability).2 = false) :
    (fillOutput preset capability).1 = capability := by grind [fillOutput]

/-- A guess has no source, or says that it is one. -/
theorem source_of_legacyHeuristic (h : legacyHeuristic model capability = true) :
    (contextLimit capability).2 = none ∨ sourceIsDefault (contextLimit capability).2 = true := by
  rw [legacyHeuristic, Bool.and_eq_true] at h
  have hsource := h.2
  rw [source_context] at hsource
  cases hfound : (contextLimit capability).2 with
  | none => exact Or.inl rfl
  | some source =>
    rw [hfound, Option.all_some, beq_iff_eq] at hsource
    rw [hsource]
    exact Or.inr (by decide)

theorem index_model_fillContext :
    (fillContext model preset capability).1.index "model" = capability.index "model" := by
  rw [fillContext]
  split_ifs
  · rw [writeContext, writeLimit, index_setMember_ne (by decide), index_setMember_ne (by decide)]
  · rfl

theorem index_model_fillOutput :
    (fillOutput preset capability).1.index "model" = capability.index "model" := by
  rw [fillOutput]
  split_ifs
  · rw [writeOutput, writeLimit, index_setMember_ne (by decide), index_setMember_ne (by decide)]
  · rfl

theorem fillContext_settles (hwritable : capability.isWritable = true) :
    (fillContext model preset (fillContext model preset capability).1).2 = false := by
  grind [fillContext, legacyHeuristic]

theorem fillContext_fillOutput (hwritable : capability.isWritable = true)
    (hpos : 0 < preset.contextWindow.toNat)
    (h : (fillContext model preset capability).2 = false) :
    (fillContext model preset (fillOutput preset capability).1).2 = false := by
  grind [fillContext, fillOutput, legacyHeuristic]

theorem fillOutput_settles (hwritable : capability.isWritable = true) :
    (fillOutput preset (fillOutput preset capability).1).2 = false := by
  grind [fillOutput]

theorem isWritable_fillContext :
    (fillContext model preset capability).1.isWritable = capability.isWritable := by
  grind [fillContext]

end Presets

/-! ## What is kept -/

/-- What `validate` asks of the limits of a model. -/
def Accepted (capability : JsonValue) : Prop :=
  ¬ (0 < (limitAt capability "max_output_tokens").getD 0 ∧
    0 < (limitAt capability "context_window").getD 0 ∧
    (limitAt capability "context_window").getD 0 < (limitAt capability "max_output_tokens").getD 0)

/-- The operator's output limit, or one that nobody answers for, fits a context window that is to
be filled in. -/
def Fits (baseUrl : String) (capability : JsonValue) : Prop :=
  ∀ model preset, presetOf baseUrl capability = some (model, preset) →
    (limitAt capability "context_window").getD 0 = 0 ∨
      sourceIsDefault (jsonLimitSource capability contextWindowSourceKey) = true →
    outputIsOpen capability = false →
      (limitAt capability "max_output_tokens").getD 0 ≤ preset.contextWindow.toNat

/-- Nothing of a source is changed or removed, where there is a limit. -/
structure StandsBy (source : String) (before after : JsonValue) : Prop where
  context : (contextLimit before).1.getD 0 ≠ 0 → (contextLimit before).2 = some source →
    contextLimit after = contextLimit before
  output : (outputLimit before).1.getD 0 ≠ 0 → (outputLimit before).2 = some source →
    outputLimit after = outputLimit before

/-- The operator's limits stand, and no preset takes the place of what the provider reported. -/
structure KeepsLimits (before after : JsonValue) : Prop where
  operator : StandsBy limitSourceOperator before after
  context : (contextLimit before).1.getD 0 ≠ 0 →
    (contextLimit before).2 = some limitSourceProvider →
      (contextLimit after).2 ≠ some limitSourceBuiltinPreset
  output : (outputLimit before).1.getD 0 ≠ 0 →
    (outputLimit before).2 = some limitSourceProvider →
      (outputLimit after).2 ≠ some limitSourceBuiltinPreset

section Kept

variable {capability : JsonValue} {baseUrl : String}
variable {reportedContext reportedOutput : Option UInt32}

theorem accepted_applyProviderReportedLimits (hwritable : capability.isWritable = true)
    (h : Accepted capability) :
    Accepted (applyProviderReportedLimits reportedContext reportedOutput capability).1 := by
  have hboth : (applyProviderReportedLimits reportedContext reportedOutput
      capability).1.isWritable = true ∧
      Accepted (applyProviderReportedLimits reportedContext reportedOutput capability).1 := by
    refine reported_induction
      (motive := fun capability ↦ capability.isWritable = true ∧ Accepted capability)
      ⟨hwritable, h⟩ ?_ ?_ ?_ ?_
    · intro capability context _ h
      grind [reportContext, Accepted]
    · intro capability h
      grind [dropDefaultOutput, Accepted]
    · intro capability output _ _ h
      grind [dropContext, Accepted]
    · intro capability output _ _ h
      grind [reportOutput, Accepted]
  exact hboth.2

/-- A preset leaves an accepted capability accepted exactly when what it fills in fits. -/
theorem accepted_applyBuiltinModelLimits_iff (h : Accepted capability) :
    Accepted (applyBuiltinModelLimits baseUrl capability).1 ↔ Fits baseUrl capability := by
  rw [applyBuiltinModelLimits]
  cases hpreset : presetOf baseUrl capability with
  | none => exact iff_of_true h fun model preset hsome ↦ nomatch hpreset.symm.trans hsome
  | some found =>
    obtain ⟨model, preset⟩ := found
    have hwritable := isWritable_of_presetOf hpreset
    obtain ⟨hpos, hle⟩ := preset_bounds (presetOf_eq_some hpreset).2
    have hfits : Fits baseUrl capability ↔
        ((limitAt capability "context_window").getD 0 = 0 ∨
          sourceIsDefault (jsonLimitSource capability contextWindowSourceKey) = true →
        outputIsOpen capability = false →
          (limitAt capability "max_output_tokens").getD 0 ≤ preset.contextWindow.toNat) := by
      refine ⟨fun hfits ↦ hfits model preset hpreset, fun hfits model' preset' hsome ↦ ?_⟩
      obtain ⟨rfl, rfl⟩ := Prod.mk.inj (Option.some.inj (hpreset.symm.trans hsome))
      exact hfits
    rw [hfits]
    clear hfits hpreset
    grind [fillContext, fillOutput, legacyHeuristic, Accepted, outputIsOpen]

/-- What holds of a capability that the provider's limits are merged into. -/
def ReportedFrom (before after : JsonValue) : Prop :=
  after.isWritable = true ∧ StandsBy limitSourceOperator before after ∧
    ((contextLimit after).2 = some limitSourceBuiltinPreset →
      contextLimit after = contextLimit before) ∧
    ((outputLimit after).2 = some limitSourceBuiltinPreset →
      outputLimit after = outputLimit before)

theorem reportedFrom_applyProviderReportedLimits (hwritable : capability.isWritable = true) :
    ReportedFrom capability
      (applyProviderReportedLimits reportedContext reportedOutput capability).1 := by
  have hself : ReportedFrom capability capability :=
    ⟨hwritable, ⟨fun _ _ ↦ rfl, fun _ _ ↦ rfl⟩, fun _ ↦ rfl, fun _ ↦ rfl⟩
  have hpresetSource := provider_ne_preset
  have hoperatorSource := provider_ne_operator
  refine reported_induction (motive := ReportedFrom capability) hself ?_ ?_ ?_ ?_
  · intro after context _ h
    obtain ⟨hwritable, ⟨hcontext, houtput⟩, hpreset, hpreset'⟩ := h
    refine ⟨?_, ⟨?_, ?_⟩, ?_, ?_⟩ <;> grind [reportContext]
  · intro after h
    obtain ⟨hwritable, ⟨hcontext, houtput⟩, hpreset, hpreset'⟩ := h
    refine ⟨?_, ⟨?_, ?_⟩, ?_, ?_⟩ <;> grind [dropDefaultOutput]
  · intro after output _ hopen h
    obtain ⟨hwritable, ⟨hcontext, houtput⟩, hpreset, hpreset'⟩ := h
    refine ⟨?_, ⟨?_, ?_⟩, ?_, ?_⟩ <;> grind [dropContext]
  · intro after output _ hopen h
    obtain ⟨hwritable, ⟨hcontext, houtput⟩, hpreset, hpreset'⟩ := h
    refine ⟨?_, ⟨?_, ?_⟩, ?_, ?_⟩ <;> grind [reportOutput, outputIsOpen]

theorem keepsLimits_applyProviderReportedLimits (hwritable : capability.isWritable = true) :
    KeepsLimits capability
      (applyProviderReportedLimits reportedContext reportedOutput capability).1 := by
  obtain ⟨-, hoperator, hcontext, houtput⟩ :=
    @reportedFrom_applyProviderReportedLimits capability reportedContext reportedOutput hwritable
  refine ⟨hoperator, fun _ hsource hafter ↦ ?_, fun _ hsource hafter ↦ ?_⟩
  · rw [hcontext hafter, hsource] at hafter
    nomatch hafter
  · rw [houtput hafter, hsource] at hafter
    nomatch hafter

theorem keepsLimits_applyBuiltinModelLimits :
    KeepsLimits capability (applyBuiltinModelLimits baseUrl capability).1 := by
  rw [applyBuiltinModelLimits]
  cases hpreset : presetOf baseUrl capability with
  | none =>
    refine ⟨⟨fun _ _ ↦ rfl, fun _ _ ↦ rfl⟩, fun _ hsource ↦ ?_, fun _ hsource ↦ ?_⟩
    · rw [hsource]
      decide
    · rw [hsource]
      decide
  | some found =>
    obtain ⟨model, preset⟩ := found
    have hwritable := isWritable_of_presetOf hpreset
    have hpresetSource := provider_ne_preset
    refine ⟨⟨?_, ?_⟩, ?_, ?_⟩ <;> grind [fillContext, fillOutput, source_of_legacyHeuristic]

/-- A preset that changes nothing leaves the capability. -/
theorem still_applyBuiltinModelLimits (h : (applyBuiltinModelLimits baseUrl capability).2 = false) :
    (applyBuiltinModelLimits baseUrl capability).1 = capability := by
  rw [applyBuiltinModelLimits] at h ⊢
  cases hpreset : presetOf baseUrl capability with
  | none => rfl
  | some found =>
    rw [hpreset] at h
    dsimp only at h ⊢
    obtain ⟨hcontext, houtput⟩ := Bool.or_eq_false_iff.mp h
    rw [still_fillOutput houtput, still_fillContext hcontext]

theorem applyBuiltinModelLimits_settles :
    (applyBuiltinModelLimits baseUrl (applyBuiltinModelLimits baseUrl capability).1).2 = false := by
  rw [applyBuiltinModelLimits, applyBuiltinModelLimits]
  cases hpreset : presetOf baseUrl capability with
  | none => rw [hpreset]
  | some found =>
    obtain ⟨model, preset⟩ := found
    have hwritable := isWritable_of_presetOf hpreset
    have hpos := (preset_bounds (presetOf_eq_some hpreset).2).1
    have hsame : presetOf baseUrl (fillOutput preset (fillContext model preset capability).1).1 =
        some (model, preset) := by
      rw [presetOf, index_model_fillOutput, index_model_fillContext]
      exact hpreset
    have hfilled : (fillContext model preset capability).1.isWritable = true := by
      rw [isWritable_fillContext, hwritable]
    have hcontext := fillContext_fillOutput hfilled hpos (fillContext_settles hwritable)
    dsimp only
    rw [hsame]
    dsimp only
    rw [hcontext, still_fillContext hcontext, fillOutput_settles hfilled]
    rfl

end Kept

/-! ## Calls on an upstream -/

section Upstreams

variable {upstream value : JsonValue} {name : String}

theorem member_of_mem_modelsOf {capability : JsonValue} (h : capability ∈ modelsOf upstream) :
    upstream.member "models" = some (.array (modelsOf upstream)) := by
  rw [modelsOf] at h ⊢
  split at h
  next models hmodels => rw [hmodels]
  next => nomatch h

theorem modelsOf_of_member {models : List JsonValue}
    (h : upstream.member "models" = some (.array models)) : modelsOf upstream = models := by
  rw [modelsOf, h]

theorem modelsOf_eq_nil (h : ∀ models, upstream.member "models" ≠ some (.array models)) :
    modelsOf upstream = [] := by
  rw [modelsOf]
  split
  next models hmodels => exact absurd hmodels (h models)
  next => rfl

theorem modelsOf_setMember {models : List JsonValue} (h : upstream.isWritable = true) :
    modelsOf (setMember "models" (.array models) upstream) = models :=
  modelsOf_of_member (member_setMember_self h)

theorem baseUrlOf_setMember {models : JsonValue} :
    baseUrlOf (setMember "models" models upstream) = baseUrlOf upstream := by
  rw [baseUrlOf, index_setMember_ne (by decide), baseUrlOf]

theorem modelsOf_applyBuiltinModelLimitsToUpstream :
    modelsOf (applyBuiltinModelLimitsToUpstream upstream).1 =
      (modelsOf upstream).map fun capability ↦
        (applyBuiltinModelLimits (baseUrlOf upstream) capability).1 := by
  rw [applyBuiltinModelLimitsToUpstream]
  split
  next models hmodels =>
    rw [modelsOf_setMember (isWritable_of_member hmodels), List.map_map,
      modelsOf_of_member hmodels]
    rfl
  -- where the models are no list, there is none before and none after
  next other hother hmodels =>
    have hnil : modelsOf upstream = [] := modelsOf_eq_nil fun models h ↦
      hother models (Option.some.inj (hmodels.symm.trans h))
    rw [hnil, List.map_nil]
  next hnone =>
    have hnil : modelsOf upstream = [] := modelsOf_eq_nil fun models h ↦
      nomatch hnone.symm.trans h
    rw [hnil, List.map_nil]
    refine modelsOf_eq_nil fun models h ↦ ?_
    by_cases hwritable : upstream.isWritable = true
    · rw [member_setMember_self hwritable] at h
      nomatch h
    · have hafter := isWritable_of_member h
      rw [isWritable_setMember] at hafter
      exact hwritable hafter

theorem setMember_of_not_isWritable (h : upstream.isWritable = false) :
    setMember name value upstream = upstream := by
  obtain _ | _ | _ | _ | _ | members := upstream
  · nomatch h
  · rfl
  · rfl
  · rfl
  · rfl
  · nomatch h

/-- The presets are filled in once. -/
theorem applyBuiltinModelLimitsToUpstream_settles :
    applyBuiltinModelLimitsToUpstream (applyBuiltinModelLimitsToUpstream upstream).1 =
      ((applyBuiltinModelLimitsToUpstream upstream).1, false) := by
  rw [applyBuiltinModelLimitsToUpstream.eq_def upstream]
  split
  next models hmodels =>
    have hwritable := isWritable_of_member hmodels
    dsimp only
    rw [List.map_map]
    generalize hfilled : models.map (Prod.fst ∘ applyBuiltinModelLimits (baseUrlOf upstream)) =
      filled
    -- every capability is settled
    have hsettled : filled.map (applyBuiltinModelLimits (baseUrlOf upstream)) =
        filled.map fun capability ↦ (capability, false) := by
      rw [← hfilled, List.map_map, List.map_map]
      refine List.map_congr_left fun capability _ ↦ ?_
      have hquiet := @applyBuiltinModelLimits_settles capability (baseUrlOf upstream)
      exact Prod.ext (still_applyBuiltinModelLimits hquiet) hquiet
    rw [applyBuiltinModelLimitsToUpstream, member_setMember_self hwritable]
    dsimp only
    rw [baseUrlOf_setMember, hsettled, List.map_map, List.any_map]
    refine Prod.ext ?_ ?_
    · rw [show Prod.fst ∘ (fun capability : JsonValue ↦ (capability, false)) = id from rfl,
        List.map_id]
      exact setMember_of_member (member_setMember_self hwritable)
    · simp
  next other hother hmodels =>
    rw [applyBuiltinModelLimitsToUpstream, hmodels]
    split
    next models h => exact absurd (Option.some.inj h) (hother models)
    next => rfl
    next h => nomatch h
  next hnone =>
    dsimp only
    cases hwritable : upstream.isWritable with
    | true => rw [applyBuiltinModelLimitsToUpstream, member_setMember_self hwritable]
    | false =>
      rw [setMember_of_not_isWritable hwritable, applyBuiltinModelLimitsToUpstream, hnone]
      dsimp only
      rw [setMember_of_not_isWritable hwritable]

/-- What a call merges into a capability. -/
theorem apply_reported_eq_some {index : ℕ} {context output : Option UInt32} {after : JsonValue}
    {changed : Bool} (h : apply upstream (.reported index context output) = some (after, changed)) :
    ∃ capability, (modelsOf upstream)[index]? = some capability ∧
      capability.isWritable = true ∧
      after = setMember "models" (.array ((modelsOf upstream).set index
        (applyProviderReportedLimits context output capability).1)) upstream := by
  rw [apply] at h
  cases hfound : (modelsOf upstream)[index]? with
  | none =>
    rw [hfound] at h
    nomatch h
  | some capability =>
    rw [hfound] at h
    dsimp only at h
    split at h
    next hwritable =>
      exact ⟨capability, rfl, hwritable, (congrArg Prod.fst (Option.some.inj h)).symm⟩
    next => nomatch h

theorem modelsOf_reported {index : ℕ} {context output : Option UInt32} {after : JsonValue}
    {changed : Bool} (h : apply upstream (.reported index context output) = some (after, changed)) :
    ∃ capability, (modelsOf upstream)[index]? = some capability ∧
      capability.isWritable = true ∧ modelsOf after = (modelsOf upstream).set index
        (applyProviderReportedLimits context output capability).1 := by
  obtain ⟨capability, hfound, hwritable, rfl⟩ := apply_reported_eq_some h
  have hmem := member_of_mem_modelsOf (List.mem_of_getElem? hfound)
  exact ⟨capability, hfound, hwritable, modelsOf_setMember (isWritable_of_member hmem)⟩

/-- A call that is repeated changes nothing. -/
theorem apply_settles {call : Call} {after : JsonValue} {changed : Bool}
    (h : apply upstream call = some (after, changed)) :
    apply after call = some (after, false) := by
  cases call with
  | builtin =>
    have hafter := congrArg Prod.fst (Option.some.inj h)
    dsimp only at hafter
    rw [apply, ← hafter, applyBuiltinModelLimitsToUpstream_settles]
  | reported index context output =>
    obtain ⟨capability, hfound, hwritable, hafter⟩ := apply_reported_eq_some h
    obtain ⟨_, hfound', -, hmodels⟩ := modelsOf_reported h
    obtain rfl := Option.some.inj (hfound.symm.trans hfound')
    have hlt := (List.getElem?_eq_some_iff.mp hfound).1
    generalize hmerged : (applyProviderReportedLimits context output capability).1 = merged
      at hafter hmodels
    have hquiet : (applyProviderReportedLimits context output merged).2 = false := by
      rw [← hmerged]
      exact (settled_applyProviderReportedLimits hwritable).unchanged
    have hstill := still_applyProviderReportedLimits hquiet
    have hmergedWritable : merged.isWritable = true := by
      rw [← hmerged]
      exact (reportedFrom_applyProviderReportedLimits hwritable).1
    have hthere : (modelsOf after)[index]? = some merged := by
      rw [hmodels, List.getElem?_set_self hlt]
    -- the merged capability is written over itself
    have hmember := member_of_mem_modelsOf (List.mem_of_getElem? hthere)
    have hset : (modelsOf after).set index merged = modelsOf after := by
      rw [hmodels, List.set_set]
    rw [apply, hthere]
    dsimp only
    rw [if_pos hmergedWritable, hquiet, hstill, hset, setMember_of_member hmember]

theorem keepsLimits_refl (capability : JsonValue) : KeepsLimits capability capability := by
  refine ⟨⟨fun _ _ ↦ rfl, fun _ _ ↦ rfl⟩, fun _ hsource ↦ ?_, fun _ hsource ↦ ?_⟩
  · rw [hsource]
    decide
  · rw [hsource]
    decide

theorem forall₂_set {α : Type} {r : α → α → Prop} (hrefl : ∀ a, r a a) {l : List α} {index : ℕ}
    {a b : α} (h : l[index]? = some a) (hr : r a b) : List.Forall₂ r l (l.set index b) := by
  induction l generalizing index with
  | nil => nomatch h
  | cons c l ih =>
    cases index with
    | zero =>
      obtain rfl := Option.some.inj h
      exact .cons hr (List.forall₂_same.mpr fun a _ ↦ hrefl a)
    | succ index => exact .cons (hrefl c) (ih h)

/-- Every call keeps the limits of the operator and of the provider. -/
theorem forall₂_keepsLimits {call : Call} {after : JsonValue} {changed : Bool}
    (h : apply upstream call = some (after, changed)) :
    List.Forall₂ KeepsLimits (modelsOf upstream) (modelsOf after) := by
  cases call with
  | builtin =>
    have hafter := congrArg Prod.fst (Option.some.inj h)
    dsimp only at hafter
    rw [← hafter, modelsOf_applyBuiltinModelLimitsToUpstream, List.forall₂_map_right_iff]
    exact List.forall₂_same.mpr fun capability _ ↦ keepsLimits_applyBuiltinModelLimits
  | reported index context output =>
    obtain ⟨capability, hfound, hwritable, hmodels⟩ := modelsOf_reported h
    rw [hmodels]
    exact forall₂_set keepsLimits_refl hfound (keepsLimits_applyProviderReportedLimits hwritable)

/-- The models that validation accepts. -/
def AllAccepted (upstream : JsonValue) : Prop :=
  ∀ capability ∈ modelsOf upstream, Accepted capability

def AllFit (upstream : JsonValue) : Prop :=
  ∀ capability ∈ modelsOf upstream, Fits (baseUrlOf upstream) capability

theorem allAccepted_builtin_iff (h : AllAccepted upstream) :
    AllAccepted (applyBuiltinModelLimitsToUpstream upstream).1 ↔ AllFit upstream := by
  rw [AllAccepted, modelsOf_applyBuiltinModelLimitsToUpstream, List.forall_mem_map]
  exact forall₂_congr fun capability hmem ↦ accepted_applyBuiltinModelLimits_iff (h _ hmem)

theorem allAccepted_reported {index : ℕ} {context output : Option UInt32} {after : JsonValue}
    {changed : Bool} (hstart : AllAccepted upstream)
    (h : apply upstream (.reported index context output) = some (after, changed)) :
    AllAccepted after := by
  obtain ⟨capability, hfound, hwritable, hmodels⟩ := modelsOf_reported h
  intro merged hmem
  rw [hmodels] at hmem
  obtain hmem | rfl := List.mem_or_eq_of_mem_set hmem
  · exact hstart merged hmem
  · exact accepted_applyProviderReportedLimits hwritable
      (hstart capability (List.mem_of_getElem? hfound))

/-! ## Runs -/

/-- What the calls of a run keep, whatever they report. -/
structure LimitsKept (upstream : JsonValue) (calls : List Call) : Prop where
  /-- An accepted configuration stays accepted. -/
  accepted : AllAccepted upstream → ∀ before, before <+: calls → ∀ current,
    run upstream before = some current → AllAccepted current
  /-- The limits of the operator and of the provider are kept by every call. -/
  kept : ∀ before call, before ++ [call] <+: calls → ∀ current after changed,
    run upstream before = some current → apply current call = some (after, changed) →
      List.Forall₂ KeepsLimits (modelsOf current) (modelsOf after)
  /-- A call that is repeated changes nothing. -/
  repeated : ∀ before call, before ++ [call] <+: calls → ∀ current after changed,
    run upstream before = some current → apply current call = some (after, changed) →
      apply after call = some (after, false)

/-- What the presets of a run fill in fits, as long as it starts accepted. -/
def PresetsFit (upstream : JsonValue) (calls : List Call) : Prop :=
  AllAccepted upstream → ∀ before, before ++ [.builtin] <+: calls → ∀ current,
    run upstream before = some current → AllFit current

theorem run_concat (before : List Call) (call : Call) :
    run upstream (before ++ [call]) =
      (run upstream before).bind fun current ↦ (apply current call).map Prod.fst := by
  rw [run, List.foldlM_append, ← run]
  cases run upstream before with
  | none => rfl
  | some current => simp

/-- As long as the presets fit, every state of a run is accepted. -/
theorem allAccepted_of_presetsFit {calls : List Call} (hfit : PresetsFit upstream calls)
    (hstart : AllAccepted upstream) {before : List Call} (hbefore : before <+: calls)
    {current : JsonValue} (hrun : run upstream before = some current) : AllAccepted current := by
  induction before using List.reverseRecOn generalizing current with
  | nil =>
    obtain rfl := Option.some.inj hrun
    exact hstart
  | append_singleton before call ih =>
    rw [run_concat] at hrun
    obtain ⟨middle, hmiddle, hcall⟩ := Option.bind_eq_some_iff.mp hrun
    obtain ⟨⟨after, changed⟩, hafter, rfl⟩ := Option.map_eq_some_iff.mp hcall
    have haccepted := ih ((List.prefix_append _ _).trans hbefore) hmiddle
    cases call with
    | builtin =>
      obtain rfl : _ = after := congrArg Prod.fst (Option.some.inj hafter)
      exact (allAccepted_builtin_iff haccepted).mpr (hfit hstart before hbefore middle hmiddle)
    | reported index context output => exact allAccepted_reported haccepted hafter

/-- The merges of limits keep what they should exactly when what the presets fill in fits. -/
theorem limitsKept_iff (upstream : JsonValue) (calls : List Call) :
    LimitsKept upstream calls ↔ PresetsFit upstream calls := by
  constructor
  · intro hkept hstart before hbefore current hrun
    have hcurrent := hkept.accepted hstart before ((List.prefix_append _ _).trans hbefore) current
      hrun
    refine (allAccepted_builtin_iff hcurrent).mp (hkept.accepted hstart _ hbefore _ ?_)
    rw [run_concat, hrun]
    rfl
  · intro hfit
    refine ⟨?_, ?_, ?_⟩
    · intro hstart before hbefore current hrun
      exact allAccepted_of_presetsFit hfit hstart hbefore hrun
    · intro before call _ current after changed _ hcall
      exact forall₂_keepsLimits hcall
    · intro before call _ current after changed _ hcall
      exact apply_settles hcall

end Upstreams

/-- A model whose output limit the operator set, and whose context window is unknown. -/
def operatorOutput : JsonValue :=
  .object [("model", .string "kimi-k2.6"), ("max_output_tokens", .number "300000"),
    (maxOutputTokensSourceKey, .string limitSourceOperator)]

def moonshot : JsonValue :=
  .object [("base_url", .string "https://api.moonshot.cn/v1"), ("models", .array [operatorOutput])]

/-- The preset fills in a context window below the operator's output limit. -/
theorem not_limitsKept_operatorOutput : ¬ LimitsKept moonshot [.builtin] := by
  intro hkept
  have hstart : AllAccepted moonshot := by
    intro capability hmem
    obtain rfl := List.mem_singleton.mp hmem
    rintro ⟨-, hcontext, -⟩
    nomatch hcontext
  have hfit := (allAccepted_builtin_iff hstart).mp
    (hkept.accepted hstart [.builtin] List.prefix_rfl _ rfl)
  have hpreset : presetOf (baseUrlOf moonshot) operatorOutput =
      some ("kimi-k2.6", ⟨262144, 262144⟩) := by decide +kernel
  have hle := hfit operatorOutput List.mem_cons_self _ _ hpreset (Or.inl rfl) (by decide +kernel)
  exact absurd hle (by decide +kernel)

end ModelLimits

end TokenStation
