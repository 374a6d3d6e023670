import Mathlib.Data.UInt
import TokenStation.Gateway.Accounting
import TokenStation.Library.LastReport

/-!
# One inclusive total

A stream of Anthropic reports usage more than once, and leaves out of each report what it pleases.
The host makes the input of every report inclusive and then keeps the last counts that are not
zero. The total is right if and only if the last report with a part of the input has every part
that was reported before it; `LastCovers` says so of any counts.
-/

namespace TokenStation

open JsonValue Library

/-! ## Reports -/

/-- What other dialects call their counts. -/
def otherDialects : List String :=
  ["prompt_tokens", "promptTokenCount", "completion_tokens", "candidatesTokenCount",
    "thoughtsTokenCount", "prompt_cache_hit_tokens", "cachedContentTokenCount",
    "prompt_tokens_details", "input_tokens_details", "completion_tokens_details",
    "output_tokens_details"]

/-- An event of an Anthropic stream that reports usage. Any of its counts may be left out. -/
structure UsageReport where
  event : JsonValue
  raw : JsonValue
  reported : nativeUsageObject event = some raw
  isObject : raw.isObject = true
  kind : event.member "type" = some (.string "message_start") ∧ (event.member "message").isSome ∨
    event.member "type" = some (.string "message_delta")
  dialect : ∀ key ∈ otherDialects, raw.member key = none

/-- The counts of a report. -/
inductive WireCount where
  | freshInput
  | cacheRead
  | cacheWrite
  | cacheWrite5m
  | cacheWrite1h
  | output
  deriving DecidableEq

/-- The counts that make up the input. -/
def inputCounts : Finset WireCount := {.freshInput, .cacheRead, .cacheWrite}

namespace UsageReport

/-- A count, if the report has it. -/
def count? (report : UsageReport) : WireCount → Option UInt64
  | .freshInput => rawCount report.raw "input_tokens"
  | .cacheRead => rawCount report.raw "cache_read_input_tokens"
  | .cacheWrite => rawCount report.raw "cache_creation_input_tokens"
  | .cacheWrite5m => rawDetail report.raw "cache_creation" "ephemeral_5m_input_tokens"
  | .cacheWrite1h => rawDetail report.raw "cache_creation" "ephemeral_1h_input_tokens"
  | .output => rawCount report.raw "output_tokens"

def count (report : UsageReport) (wire : WireCount) : UInt64 := (report.count? wire).getD 0

end UsageReport

/-- The last count that is not zero. -/
def lastCount (reports : List UsageReport) (wire : WireCount) : UInt64 :=
  lastNonzero (reports.map (·.count wire))

/-- The last count, zero or not. -/
def lastCount? (reports : List UsageReport) (wire : WireCount) : Option UInt64 :=
  lastSome (reports.map (·.count? wire))

/-- No sum of an input and its cached parts overflows. -/
def Small (reports : List UsageReport) : Prop :=
  ∀ a ∈ reports, ∀ b ∈ reports, ∀ c ∈ reports, (a.count .freshInput).toNat +
    (b.count .cacheRead).toNat + (c.count .cacheWrite).toNat < 2 ^ 64

/-! ## The consumers -/

/-- The record of a relay: every report in the host's convention, folded. -/
def relayUsage (reports : List UsageReport) : Usage :=
  (reports.map fun report ↦ canonicalProviderUsage "anthropic" (wireUsage report.raw)).foldl
    Usage.absorb {}

/-- The tap of the native path. -/
def nativeUsage (reports : List UsageReport) : Option Usage :=
  (reports.map (·.event)).foldl nativeObserve none

/-- The accounting tap, whatever the prices of the events are. -/
def tapAfter (cost : UsageReport → Option ℤ) (trustedUsd : Bool) (reports : List UsageReport) :
    AccountingTap :=
  reports.foldl (fun tap report ↦ tap.event report.event (cost report)) { trustedUsd }

/-- A rendered usage that stands for a usage of the host. -/
structure RendersUsage (rendered : StreamUsage) (usage : Usage) : Prop where
  input : rendered.inputTokens.toNat + rendered.cacheReadInputTokens.toNat +
    rendered.cacheCreationInputTokens.toNat = usage.inputTokens.toNat
  output : rendered.outputTokens = usage.outputTokens
  cacheRead : rendered.cacheReadInputTokens = usage.cacheReadTokens
  cacheWrite : rendered.cacheCreationInputTokens = usage.cacheWriteTokens

/-- All consumers of a stream say the same, and it is what was last reported. -/
structure InclusiveTotal (cost : UsageReport → Option ℤ) (trustedUsd : Bool)
    (reports : List UsageReport) : Prop where
  input : (relayUsage reports).inputTokens.toNat =
    ∑ wire ∈ inputCounts, (lastCount reports wire).toNat
  output : (relayUsage reports).outputTokens = lastCount reports .output
  cacheRead : (relayUsage reports).cacheReadTokens = lastCount reports .cacheRead
  cacheWrite : (relayUsage reports).cacheWriteTokens = lastCount reports .cacheWrite
  cacheWrite5m : (relayUsage reports).cacheWrite5mTokens = lastCount reports .cacheWrite5m
  cacheWrite1h : (relayUsage reports).cacheWrite1hTokens = lastCount reports .cacheWrite1h
  explicit : (relayUsage reports).explicitCacheReadTokens = 0
  reasoning : (relayUsage reports).reasoningTokens = 0
  native : (nativeUsage reports).getD {} = relayUsage reports
  rendered : RendersUsage (streamUsage (relayUsage reports)) (relayUsage reports)
  tap : (tapAfter cost trustedUsd reports).observation.apply (relayUsage reports) =
    relayUsage reports
  partitioned : (relayUsage reports).cacheReadTokens.toNat +
    (relayUsage reports).cacheWriteTokens.toNat ≤ (relayUsage reports).inputTokens.toNat

/-- A count that the last report of it gives as zero was never anything else. -/
def ZerosStand (reports : List UsageReport) : Prop :=
  ∀ wire value, lastCount? reports wire = some value → value = lastCount reports wire

/-! ## The fold, count by count -/

theorem absorb_default (usage : Usage) : usage.absorb {} = usage := rfl

/-- A field of the fold is the fold of the field. -/
theorem field_foldl_absorb {field : Usage → UInt64}
    (hfield : ∀ a b, field (a.absorb b) = Usage.keep (field a) (field b)) (hzero : field {} = 0)
    (l : List Usage) : field (l.foldl Usage.absorb {}) = lastNonzero (l.map field) := by
  induction l using List.reverseRecOn with
  | nil => exact hzero
  | append_singleton l a ih =>
    rw [List.foldl_append, List.map_append, List.map_singleton, lastNonzero_concat, ← ih]
    exact hfield _ _

theorem field_relayUsage (field : Usage → UInt64)
    (hfield : ∀ a b, field (a.absorb b) = Usage.keep (field a) (field b)) (hzero : field {} = 0)
    {count : UsageReport → UInt64} (hcount : ∀ report,
      field (canonicalProviderUsage "anthropic" (wireUsage report.raw)) = count report)
    (reports : List UsageReport) :
    field (relayUsage reports) = lastNonzero (reports.map count) := by
  rw [relayUsage, field_foldl_absorb hfield hzero, List.map_map]
  exact congrArg lastNonzero (List.map_congr_left fun report _ ↦ hcount report)

theorem nativeUsage_eq (reports : List UsageReport) :
    (nativeUsage reports).getD {} = relayUsage reports := by
  induction reports using List.reverseRecOn with
  | nil => rfl
  | append_singleton reports report ih =>
    rw [nativeUsage, List.map_append, List.foldl_append]
    rw [relayUsage, List.map_append, List.foldl_append]
    change (nativeObserve (nativeUsage reports) report.event).getD {} =
      (relayUsage reports).absorb (canonicalProviderUsage "anthropic" (wireUsage report.raw))
    rw [nativeObserve, report.reported, Option.bind_some, anthropicWireUsage, ← ih]
    by_cases hzero : canonicalProviderUsage "anthropic" (wireUsage report.raw) = {}
    · rw [if_neg (not_not.mpr hzero), hzero, absorb_default]
    · rw [if_pos hzero]
      rfl

/-! ## The input -/

theorem sum_inputCounts {M : Type*} [AddCommMonoid M] (f : WireCount → M) :
    ∑ wire ∈ inputCounts, f wire = f .freshInput + f .cacheRead + f .cacheWrite := by
  rw [inputCounts, Finset.sum_insert (by decide), Finset.sum_insert (by decide),
    Finset.sum_singleton, add_assoc]

theorem toNat_satAdd_of_lt {a b : UInt64} (h : a.toNat + b.toNat < 2 ^ 64) :
    (Word.satAdd a b).toNat = a.toNat + b.toNat := by
  rw [Word.toNat_satAdd]
  omega

theorem toNat_canonical_input {report : UsageReport}
    (h : (report.count .freshInput).toNat + (report.count .cacheRead).toNat +
      (report.count .cacheWrite).toNat < 2 ^ 64) :
    (canonicalProviderUsage "anthropic" (wireUsage report.raw)).inputTokens.toNat =
      ∑ wire ∈ inputCounts, (report.count wire).toNat := by
  have hread : (Word.satAdd (report.count .freshInput) (report.count .cacheRead)).toNat =
      (report.count .freshInput).toNat + (report.count .cacheRead).toNat :=
    toNat_satAdd_of_lt (by omega)
  have hsum : (Word.satAdd (report.count .freshInput) (report.count .cacheRead)).toNat +
      (report.count .cacheWrite).toNat < 2 ^ 64 := by
    rw [hread]
    exact h
  rw [sum_inputCounts, ← hread]
  exact toNat_satAdd_of_lt hsum

/-- The input is kept as a sum. -/
theorem toNat_relayUsage_input {reports : List UsageReport} (hsmall : Small reports) :
    (relayUsage reports).inputTokens.toNat =
      lastNonzero (reports.map fun report ↦ ∑ wire ∈ inputCounts, (report.count wire).toNat) := by
  have hfield := field_relayUsage Usage.inputTokens (fun _ _ ↦ rfl) rfl
    (fun _ ↦ rfl) reports
  have hnat : ∀ a : UInt64, a.toNat = 0 ↔ a = 0 := fun a ↦ by
    rw [← UInt64.toNat_inj, UInt64.toNat_zero]
  rw [hfield, ← lastNonzero_map hnat, List.map_map]
  refine congrArg lastNonzero (List.map_congr_left fun report hmem ↦ ?_)
  exact toNat_canonical_input (hsmall report hmem report hmem report hmem)

theorem toNat_lastCount (reports : List UsageReport) (wire : WireCount) :
    (lastCount reports wire).toNat =
      lastNonzero (reports.map fun report ↦ (report.count wire).toNat) := by
  have hnat : ∀ a : UInt64, a.toNat = 0 ↔ a = 0 := fun a ↦ by
    rw [← UInt64.toNat_inj, UInt64.toNat_zero]
  rw [lastCount, ← lastNonzero_map hnat, List.map_map]
  rfl

/-- The total is the sum of the last counts if and only if the last report with a part of the input
has every part that was reported before it. -/
theorem input_relayUsage_iff {reports : List UsageReport} (hsmall : Small reports) :
    (relayUsage reports).inputTokens.toNat = ∑ wire ∈ inputCounts, (lastCount reports wire).toNat ↔
      LastCovers inputCounts (fun wire report ↦ (UsageReport.count report wire).toNat) reports := by
  rw [toNat_relayUsage_input hsmall, ← lastNonzero_sum_iff]
  simp only [toNat_lastCount]

/-! ## The accounting tap -/

section Tap

variable {report : UsageReport}

theorem rawCount_dialect (key : String) (h : key ∈ otherDialects) :
    rawCount report.raw key = none := by
  rw [rawCount, report.dialect key h]
  rfl

theorem rawDetail_dialect (group key : String) (h : group ∈ otherDialects) :
    rawDetail report.raw group key = none := by
  rw [rawDetail, report.dialect group h]
  rfl

theorem usageObject_report : usageObject report.event = some report.raw := by
  have hreported : (report.event.member "usage").or
      ((report.event.member "message").bind (·.member "usage")) = some report.raw :=
    report.reported
  rw [usageObject, hreported, Option.some_or, Option.some_or, Option.filter_some,
    if_pos report.isObject]

theorem rawCacheRead_report : rawCacheRead report.raw = report.count? .cacheRead := by
  rw [rawCacheRead, rawDetail_dialect _ _ (by decide), rawDetail_dialect _ _ (by decide),
    rawCount_dialect "prompt_cache_hit_tokens" (by decide),
    rawCount_dialect "cachedContentTokenCount" (by decide)]
  simp only [Option.or_none]
  rfl

theorem rawCacheWrite_report : rawCacheWrite report.raw = report.count? .cacheWrite := by
  rw [rawCacheWrite, rawDetail_dialect _ _ (by decide), rawDetail_dialect _ _ (by decide)]
  simp only [Option.or_none]
  rfl

theorem observedOutput_report : observedOutput report.raw = report.count? .output := by
  rw [observedOutput, rawCount_dialect "completion_tokens" (by decide),
    rawCount_dialect "candidatesTokenCount" (by decide)]
  simp only [Option.none_or, Option.bind_none, Option.or_none]
  rfl

/-- A report without a fresh input has no input. -/
theorem observedInput_report (h : report.count? .freshInput = none) :
    observedInput report.event report.raw = none := by
  have hinput : rawCount report.raw "input_tokens" = none := h
  rw [observedInput, hinput, rawCount_dialect "prompt_tokens" (by decide),
    rawCount_dialect "promptTokenCount" (by decide)]
  simp

theorem nativeInput_report : AccountingTap.nativeInput report.event report.raw = true := by
  rw [AccountingTap.nativeInput, report.dialect "prompt_tokens" (by decide)]
  obtain ⟨htype, -⟩ | htype := report.kind
  · simp [htype, asStr]
  · simp [htype, asStr]

/-- One event of the tap. -/
theorem observation_event (tap : AccountingTap) (cost : Option ℤ) :
    (tap.event report.event cost).observation =
      let absorbed := tap.observation.absorb (observe report.event)
      match (report.count? .freshInput).or (AccountingTap.freshOf tap.observation) with
      | none => absorbed
      | some fresh => { absorbed with
          inputTokens := inclusiveInput fresh (absorbed.cacheReadTokens.getD 0)
            (absorbed.cacheWriteTokens.getD 0) } := by
  rw [AccountingTap.event, usageObject_report]
  simp only [nativeInput_report, if_true]
  rfl

theorem observe_report : observe report.event =
    { incomplete := observationIncomplete report.raw
      inputTokens := observedInput report.event report.raw
      outputTokens := report.count? .output
      cacheReadTokens := report.count? .cacheRead
      cacheWriteTokens := report.count? .cacheWrite
      cacheWrite5mTokens := report.count? .cacheWrite5m
      cacheWrite1hTokens := report.count? .cacheWrite1h
      reasoningTokens := none } := by
  rw [observe, usageObject_report]
  simp only [observedOutput_report, rawCacheRead_report, rawCacheWrite_report,
    rawDetail_dialect "completion_tokens_details" _ (by decide),
    rawDetail_dialect "output_tokens_details" _ (by decide),
    rawCount_dialect "thoughtsTokenCount" (by decide), Option.or_none]
  rfl

end Tap

theorem inclusiveInput_of_lt {fresh cacheRead cacheWrite : UInt64}
    (h : fresh.toNat + cacheRead.toNat + cacheWrite.toNat < 2 ^ 64) :
    inclusiveInput fresh cacheRead cacheWrite = some (fresh + cacheRead + cacheWrite) := by
  have hread : (fresh + cacheRead).toNat = fresh.toNat + cacheRead.toNat := by
    rw [UInt64.toNat_add, Nat.mod_eq_of_lt (by omega)]
  rw [inclusiveInput, Word.checkedAdd, if_pos (by omega), Option.bind_some, Word.checkedAdd,
    if_pos (by omega)]

/-- What the tap knows of a stream: the last counts, and the input that they make up. -/
structure Observed (reports : List UsageReport) (observation : UsageObservation) : Prop where
  input : observation.inputTokens = (lastCount? reports .freshInput).bind fun fresh ↦
    inclusiveInput fresh ((lastCount? reports .cacheRead).getD 0)
      ((lastCount? reports .cacheWrite).getD 0)
  output : observation.outputTokens = lastCount? reports .output
  cacheRead : observation.cacheReadTokens = lastCount? reports .cacheRead
  cacheWrite : observation.cacheWriteTokens = lastCount? reports .cacheWrite
  cacheWrite5m : observation.cacheWrite5mTokens = lastCount? reports .cacheWrite5m
  cacheWrite1h : observation.cacheWrite1hTokens = lastCount? reports .cacheWrite1h
  reasoning : observation.reasoningTokens = none

theorem lastCount?_concat (reports : List UsageReport) (report : UsageReport) (wire : WireCount) :
    lastCount? (reports ++ [report]) wire = (report.count? wire).or (lastCount? reports wire) := by
  rw [lastCount?, List.map_append, List.map_singleton, lastSome_concat]
  rfl

/-- The last counts are counts of reports. -/
theorem exists_count_of_lastCount? {reports : List UsageReport} {wire : WireCount}
    {value : UInt64} (h : lastCount? reports wire = some value) :
    ∃ report ∈ reports, report.count wire = value := by
  obtain ⟨report, hmem, hcount⟩ := List.mem_map.mp (mem_of_lastSome h)
  exact ⟨report, hmem, by rw [UsageReport.count, hcount]; rfl⟩

theorem exists_getD_le {reports : List UsageReport} {report : UsageReport}
    (hmem : report ∈ reports) (wire : WireCount) : ∃ other ∈ reports,
      ((lastCount? reports wire).getD 0).toNat ≤ (other.count wire).toNat := by
  rcases hlast : lastCount? reports wire with _ | value
  · exact ⟨report, hmem, Nat.zero_le _⟩
  · obtain ⟨other, hother, rfl⟩ := exists_count_of_lastCount? hlast
    exact ⟨other, hother, le_rfl⟩

theorem small_lastCount? {reports : List UsageReport} (hsmall : Small reports) {fresh : UInt64}
    (h : lastCount? reports .freshInput = some fresh) :
    fresh.toNat + ((lastCount? reports .cacheRead).getD 0).toNat +
      ((lastCount? reports .cacheWrite).getD 0).toNat < 2 ^ 64 := by
  obtain ⟨a, ha, rfl⟩ := exists_count_of_lastCount? h
  obtain ⟨b, hb, hread⟩ := exists_getD_le ha .cacheRead
  obtain ⟨c, hc, hwrite⟩ := exists_getD_le ha .cacheWrite
  have := hsmall a ha b hb c hc
  omega

theorem Observed.freshOf_eq {reports : List UsageReport} {observation : UsageObservation}
    (h : Observed reports observation) (hsmall : Small reports) :
    AccountingTap.freshOf observation = lastCount? reports .freshInput := by
  rw [AccountingTap.freshOf, h.input, h.cacheRead, h.cacheWrite]
  rcases hfresh : lastCount? reports .freshInput with _ | fresh
  · rfl
  · have hlt := small_lastCount? hsmall hfresh
    rw [Option.bind_some, inclusiveInput_of_lt hlt]
    generalize (lastCount? reports .cacheRead).getD 0 = cacheRead at hlt ⊢
    generalize (lastCount? reports .cacheWrite).getD 0 = cacheWrite at hlt ⊢
    have hread : cacheRead ≤ fresh + cacheRead + cacheWrite := by
      rw [UInt64.le_iff_toNat_le, UInt64.toNat_add, UInt64.toNat_add]
      omega
    have hwrite : cacheWrite ≤ fresh + cacheRead + cacheWrite - cacheRead := by
      rw [UInt64.le_iff_toNat_le, UInt64.toNat_sub_of_le _ _ hread, UInt64.toNat_add,
        UInt64.toNat_add]
      omega
    change (AccountingTap.checkedSub (fresh + cacheRead + cacheWrite) cacheRead).bind
      (AccountingTap.checkedSub · cacheWrite) = some fresh
    rw [AccountingTap.checkedSub, if_pos hread, Option.bind_some, AccountingTap.checkedSub,
      if_pos hwrite, Option.some.injEq, ← UInt64.toNat_inj, UInt64.toNat_sub_of_le _ _ hwrite,
      UInt64.toNat_sub_of_le _ _ hread, UInt64.toNat_add, UInt64.toNat_add]
    omega

/-- One more event. -/
theorem Observed.event {reports : List UsageReport} {tap : AccountingTap}
    (h : Observed reports tap.observation) (hsmall : Small reports) (report : UsageReport)
    (cost : Option ℤ) :
    Observed (reports ++ [report]) (tap.event report.event cost).observation := by
  rw [observation_event, h.freshOf_eq hsmall, observe_report]
  have hfresh := lastCount?_concat reports report .freshInput
  have hread := lastCount?_concat reports report .cacheRead
  have hwrite := lastCount?_concat reports report .cacheWrite
  rcases hcase : (report.count? .freshInput).or (lastCount? reports .freshInput) with _ | fresh
  · -- no report has said anything of the input
    obtain ⟨hnone, hbefore⟩ := Option.or_eq_none_iff.mp hcase
    refine ⟨?_, ?_, ?_, ?_, ?_, ?_, ?_⟩
    · rw [hfresh, hcase]
      simp [UsageObservation.absorb, observedInput_report hnone, h.input, hbefore]
    all_goals simp [UsageObservation.absorb, lastCount?_concat, h.output, h.cacheRead,
      h.cacheWrite, h.cacheWrite5m, h.cacheWrite1h, h.reasoning]
  · refine ⟨?_, ?_, ?_, ?_, ?_, ?_, ?_⟩
    · rw [hfresh, hcase, hread, hwrite, ← h.cacheRead, ← h.cacheWrite]
      rfl
    all_goals simp [UsageObservation.absorb, lastCount?_concat, h.output, h.cacheRead,
      h.cacheWrite, h.cacheWrite5m, h.cacheWrite1h, h.reasoning]

theorem Small.of_append {reports others : List UsageReport} (h : Small (reports ++ others)) :
    Small reports := fun a ha b hb c hc ↦
  h a (List.mem_append_left _ ha) b (List.mem_append_left _ hb) c (List.mem_append_left _ hc)

/-- A whole stream. -/
theorem observed_tapAfter (cost : UsageReport → Option ℤ) (trustedUsd : Bool)
    {reports : List UsageReport} (hsmall : Small reports) :
    Observed reports (tapAfter cost trustedUsd reports).observation := by
  induction reports using List.reverseRecOn with
  | nil => exact ⟨rfl, rfl, rfl, rfl, rfl, rfl, rfl⟩
  | append_singleton reports report ih =>
    rw [tapAfter, List.foldl_append]
    exact (ih hsmall.of_append).event hsmall.of_append report (cost report)

/-! ## The consumers together -/

theorem lastCount_of_none {reports : List UsageReport} {wire : WireCount}
    (h : lastCount? reports wire = none) : lastCount reports wire = 0 := by
  refine lastNonzero_eq_zero_iff.mpr fun value hmem ↦ ?_
  obtain ⟨report, hreport, rfl⟩ := List.mem_map.mp hmem
  rw [UsageReport.count, lastSome_eq_none_iff.mp h _ (List.mem_map_of_mem hreport)]
  rfl

theorem getD_lastCount? {reports : List UsageReport} {wire : WireCount}
    (h : ∀ value, lastCount? reports wire = some value → value = lastCount reports wire) :
    (lastCount? reports wire).getD 0 = lastCount reports wire := by
  rcases hlast : lastCount? reports wire with _ | value
  · exact (lastCount_of_none hlast).symm
  · exact h value hlast

theorem getD_eq_iff {reports : List UsageReport} {wire : WireCount} :
    (lastCount? reports wire).getD (lastCount reports wire) = lastCount reports wire ↔
      ∀ value, lastCount? reports wire = some value → value = lastCount reports wire := by
  rcases lastCount? reports wire with _ | value
  · exact iff_of_true rfl fun _ h ↦ nomatch h
  · exact ⟨fun h _ hvalue ↦ Option.some.inj hvalue ▸ h, fun h ↦ h value rfl⟩

section Relay

variable (reports : List UsageReport)

theorem relayUsage_output : (relayUsage reports).outputTokens = lastCount reports .output :=
  field_relayUsage Usage.outputTokens (fun _ _ ↦ rfl) rfl (fun _ ↦ rfl) reports

theorem relayUsage_cacheRead :
    (relayUsage reports).cacheReadTokens = lastCount reports .cacheRead :=
  field_relayUsage Usage.cacheReadTokens (fun _ _ ↦ rfl) rfl (fun _ ↦ rfl) reports

theorem relayUsage_cacheWrite :
    (relayUsage reports).cacheWriteTokens = lastCount reports .cacheWrite :=
  field_relayUsage Usage.cacheWriteTokens (fun _ _ ↦ rfl) rfl (fun _ ↦ rfl) reports

theorem relayUsage_cacheWrite5m :
    (relayUsage reports).cacheWrite5mTokens = lastCount reports .cacheWrite5m :=
  field_relayUsage Usage.cacheWrite5mTokens (fun _ _ ↦ rfl) rfl (fun _ ↦ rfl) reports

theorem relayUsage_cacheWrite1h :
    (relayUsage reports).cacheWrite1hTokens = lastCount reports .cacheWrite1h :=
  field_relayUsage Usage.cacheWrite1hTokens (fun _ _ ↦ rfl) rfl (fun _ ↦ rfl) reports

/-- What is never reported stays zero. -/
theorem relayUsage_unreported : (relayUsage reports).explicitCacheReadTokens = 0 ∧
    (relayUsage reports).reasoningTokens = 0 := by
  have hzero : lastNonzero (reports.map fun _ ↦ (0 : UInt64)) = 0 :=
    lastNonzero_eq_zero_iff.mpr fun value hmem ↦ by
      obtain ⟨_, -, rfl⟩ := List.mem_map.mp hmem
      rfl
  exact ⟨(field_relayUsage Usage.explicitCacheReadTokens (fun _ _ ↦ rfl) rfl (fun _ ↦ rfl)
    reports).trans hzero, (field_relayUsage Usage.reasoningTokens (fun _ _ ↦ rfl) rfl
    (fun _ ↦ rfl) reports).trans hzero⟩

end Relay

section Agreement

variable {reports : List UsageReport} (hinput : (relayUsage reports).inputTokens.toNat =
  ∑ wire ∈ inputCounts, (lastCount reports wire).toNat)

include hinput in
theorem partitioned_of_input : (relayUsage reports).cacheReadTokens.toNat +
    (relayUsage reports).cacheWriteTokens.toNat ≤ (relayUsage reports).inputTokens.toNat := by
  rw [hinput, sum_inputCounts, relayUsage_cacheRead, relayUsage_cacheWrite]
  omega

/-- The client is told the parts of the input. -/
theorem rendersUsage_of_partitioned {usage : Usage}
    (h : usage.cacheReadTokens.toNat + usage.cacheWriteTokens.toNat ≤ usage.inputTokens.toNat) :
    RendersUsage (streamUsage usage) usage := by
  refine ⟨?_, rfl, rfl, rfl⟩
  have hread : usage.cacheReadTokens ≤ usage.inputTokens := by
    rw [UInt64.le_iff_toNat_le]
    omega
  have hwrite : usage.cacheWriteTokens ≤ usage.inputTokens - usage.cacheReadTokens := by
    rw [UInt64.le_iff_toNat_le, UInt64.toNat_sub_of_le _ _ hread]
    omega
  simp only [streamUsage, freshInputTokens, if_pos hread, if_pos hwrite]
  rw [UInt64.toNat_sub_of_le _ _ hwrite, UInt64.toNat_sub_of_le _ _ hread]
  omega

include hinput in
/-- The accounting tap agrees with the fold if and only if no count ends at a zero that it was not
at all along. -/
theorem tap_agrees_iff (hsmall : Small reports) {observation : UsageObservation}
    (h : Observed reports observation) :
    observation.apply (relayUsage reports) = relayUsage reports ↔ ZerosStand reports := by
  rw [sum_inputCounts] at hinput
  constructor
  · intro heq
    have hread := congrArg Usage.cacheReadTokens heq
    have hwrite := congrArg Usage.cacheWriteTokens heq
    have h5m := congrArg Usage.cacheWrite5mTokens heq
    have h1h := congrArg Usage.cacheWrite1hTokens heq
    have houtput := congrArg Usage.outputTokens heq
    have htotal := congrArg Usage.inputTokens heq
    simp only [UsageObservation.apply, h.cacheRead, h.cacheWrite, h.cacheWrite5m, h.cacheWrite1h,
      h.output, relayUsage_cacheRead, relayUsage_cacheWrite, relayUsage_cacheWrite5m,
      relayUsage_cacheWrite1h, relayUsage_output, getD_eq_iff] at hread hwrite h5m h1h houtput
    intro wire value hvalue
    cases wire with
    | freshInput =>
      have hlt := small_lastCount? hsmall hvalue
      simp only [UsageObservation.apply, h.input, hvalue, Option.bind_some] at htotal
      rw [inclusiveInput_of_lt hlt, Option.getD_some] at htotal
      rw [getD_lastCount? hread, getD_lastCount? hwrite] at hlt htotal
      rw [← htotal, UInt64.toNat_add, UInt64.toNat_add] at hinput
      rw [← UInt64.toNat_inj]
      omega
    | cacheRead => exact hread value hvalue
    | cacheWrite => exact hwrite value hvalue
    | cacheWrite5m => exact h5m value hvalue
    | cacheWrite1h => exact h1h value hvalue
    | output => exact houtput value hvalue
  · intro hzeros
    have htotal : observation.inputTokens.getD (relayUsage reports).inputTokens =
        (relayUsage reports).inputTokens := by
      rcases hfresh : lastCount? reports .freshInput with _ | fresh
      · rw [h.input, hfresh]
        rfl
      · have hlt := small_lastCount? hsmall hfresh
        rw [h.input, hfresh, Option.bind_some, inclusiveInput_of_lt hlt, Option.getD_some,
          ← UInt64.toNat_inj, hinput, ← hzeros _ _ hfresh]
        rw [getD_lastCount? (hzeros .cacheRead), getD_lastCount? (hzeros .cacheWrite)] at hlt ⊢
        rw [UInt64.toNat_add, UInt64.toNat_add]
        omega
    rw [UsageObservation.apply, htotal, h.output, h.cacheRead, h.cacheWrite, h.cacheWrite5m,
      h.cacheWrite1h, h.reasoning, relayUsage_output, relayUsage_cacheRead, relayUsage_cacheWrite,
      relayUsage_cacheWrite5m, relayUsage_cacheWrite1h, getD_eq_iff.mpr (hzeros .output),
      getD_eq_iff.mpr (hzeros .cacheRead), getD_eq_iff.mpr (hzeros .cacheWrite),
      getD_eq_iff.mpr (hzeros .cacheWrite5m), getD_eq_iff.mpr (hzeros .cacheWrite1h),
      ← relayUsage_output, ← relayUsage_cacheRead, ← relayUsage_cacheWrite,
      ← relayUsage_cacheWrite5m, ← relayUsage_cacheWrite1h]
    rfl

end Agreement

/-- All consumers agree on the inclusive total if and only if the last report with a part of the
input has every part that was reported before it, and no count ends at a zero that it was not at
all along. -/
theorem inclusiveTotal_iff (cost : UsageReport → Option ℤ) (trustedUsd : Bool)
    {reports : List UsageReport} (hsmall : Small reports) :
    InclusiveTotal cost trustedUsd reports ↔
      LastCovers inputCounts (fun wire report ↦ (UsageReport.count report wire).toNat) reports ∧
        ZerosStand reports := by
  have hobserved := observed_tapAfter cost trustedUsd hsmall
  constructor
  · intro h
    exact ⟨(input_relayUsage_iff hsmall).mp h.input,
      (tap_agrees_iff h.input hsmall hobserved).mp h.tap⟩
  · rintro ⟨hcovers, hzeros⟩
    have hinput := (input_relayUsage_iff hsmall).mpr hcovers
    have hpartitioned := partitioned_of_input hinput
    exact {
      input := hinput
      output := relayUsage_output reports
      cacheRead := relayUsage_cacheRead reports
      cacheWrite := relayUsage_cacheWrite reports
      cacheWrite5m := relayUsage_cacheWrite5m reports
      cacheWrite1h := relayUsage_cacheWrite1h reports
      explicit := (relayUsage_unreported reports).1
      reasoning := (relayUsage_unreported reports).2
      native := nativeUsage_eq reports
      rendered := rendersUsage_of_partitioned hpartitioned
      tap := (tap_agrees_iff hinput hsmall hobserved).mpr hzeros
      partitioned := hpartitioned }

/-! ## A report that leaves the fresh input out -/

/-- The usage that a stream starts with. -/
def startReport : UsageReport where
  event := .object [("type", .string "message_start"), ("message", .object [("usage",
    .object [("input_tokens", .number "30"), ("cache_read_input_tokens", .number "100")])])]
  raw := .object [("input_tokens", .number "30"), ("cache_read_input_tokens", .number "100")]
  reported := rfl
  isObject := rfl
  kind := Or.inl ⟨rfl, rfl⟩
  dialect := by decide

/-- A later report, with the cached part again and without the fresh one. -/
def deltaReport : UsageReport where
  event := .object [("type", .string "message_delta"), ("usage",
    .object [("cache_read_input_tokens", .number "100"), ("output_tokens", .number "12")])]
  raw := .object [("cache_read_input_tokens", .number "100"), ("output_tokens", .number "12")]
  reported := rfl
  isObject := rfl
  kind := Or.inr rfl
  dialect := by decide

theorem small_startReport : Small [startReport] := by
  intro a ha b hb c hc
  rw [List.mem_singleton.mp ha, List.mem_singleton.mp hb, List.mem_singleton.mp hc]
  decide

theorem small_deltaReport : Small [startReport, deltaReport] := by
  intro a ha b hb c hc
  simp only [List.mem_cons, List.not_mem_nil, or_false] at ha hb hc
  obtain rfl | rfl := ha <;> obtain rfl | rfl := hb <;> obtain rfl | rfl := hc <;> decide

theorem zerosStand_singleton (report : UsageReport) : ZerosStand [report] := by
  intro wire value h
  have hcount : (report.count? wire).or none = some value := h
  rw [Option.or_none] at hcount
  have hvalue : report.count wire = value := by
    rw [UsageReport.count, hcount]
    rfl
  change value = if report.count wire ≠ 0 then report.count wire else 0
  rw [hvalue]
  split
  · rfl
  next hzero => exact not_not.mp hzero

theorem inclusiveTotal_start : InclusiveTotal (fun _ ↦ none) false [startReport] := by
  have hcovers : LastCovers inputCounts (fun wire report ↦ (UsageReport.count report wire).toNat)
      ([] ++ [startReport]) :=
    (lastCovers_concat_of_ne ⟨.freshInput, by decide, by decide⟩).mpr
      fun _ _ _ _ hmem ↦ nomatch hmem
  exact (inclusiveTotal_iff (fun _ ↦ none) false small_startReport).mpr
    ⟨hcovers, zerosStand_singleton startReport⟩

/-- The fresh input of the first report is lost: 100 tokens are recorded of 130. -/
theorem not_inclusiveTotal_delta : Small [startReport, deltaReport] ∧
    ¬ InclusiveTotal (fun _ ↦ none) false [startReport, deltaReport] := by
  refine ⟨small_deltaReport, fun h ↦ ?_⟩
  have hinput := h.input
  rw [sum_inputCounts] at hinput
  exact absurd hinput (by decide)

end TokenStation
