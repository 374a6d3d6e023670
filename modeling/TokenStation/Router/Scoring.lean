import TokenStation.Router.Config

/-!
# The heuristic is monotone

The score adds fourteen dimensions with saturation and subtracts the fifteenth at the end. Every
operation on the way is monotone, so a request that has more of everything, and less easy talk, does
not score lower: `monotone_of_validated`. Images, a schema and the format hint are dimensions too,
so a request that lacks one of them may score lower whatever its counts are.

Descending bands that end at zero catch every score, each score in the highest band it reaches.
-/

namespace TokenStation

open Library

/-! ## Saturating operations -/

section Saturation

variable {top a b c d : ℕ}

@[gcongr]
theorem satAdd_le_satAdd (hac : a ≤ c) (hbd : b ≤ d) : satAdd top a b ≤ satAdd top c d :=
  min_le_min_left top (Nat.add_le_add hac hbd)

@[gcongr]
theorem satMul_le_satMul (hac : a ≤ c) (hbd : b ≤ d) : satMul top a b ≤ satMul top c d :=
  min_le_min_left top (Nat.mul_le_mul hac hbd)

theorem satAdd_le_top (top a b : ℕ) : satAdd top a b ≤ top := min_le_left _ _

theorem le_satAdd (ha : a ≤ top) (b : ℕ) : a ≤ satAdd top a b :=
  le_min ha (Nat.le_add_right a b)

/-- A charge that is made under a flag. -/
theorem flagged_le_flagged {flag flag' : Bool} (hflag : flag = true → flag' = true) (hab : a ≤ b)
    (hb : b ≤ top) (weight : ℕ) :
    (if flag then satAdd top a weight else a) ≤ if flag' then satAdd top b weight else b := by
  cases flag with
  | true =>
    rw [if_pos rfl, if_pos (hflag rfl)]
    exact satAdd_le_satAdd hab le_rfl
  | false =>
    rw [if_neg Bool.false_ne_true]
    split
    · exact hab.trans (le_satAdd hb weight)
    · exact hab

theorem flagged_le_top (flag : Bool) (ha : a ≤ top) (weight : ℕ) :
    (if flag then satAdd top a weight else a) ≤ top := by
  split
  · exact satAdd_le_top _ _ _
  · exact ha

end Saturation

/-! ## Scores -/

namespace RequestFeatures

/-- Every counter of a request is at most the other's, and there is no less easy talk. -/
structure CountsBelow (features features' : RequestFeatures) : Prop where
  estimatedInputTokens : features.estimatedInputTokens ≤ features'.estimatedInputTokens
  conversationTokens : features.conversationTokens ≤ features'.conversationTokens
  messageCount : features.messageCount ≤ features'.messageCount
  toolCount : features.toolCount ≤ features'.toolCount
  hintCount : features.hintCount ≤ features'.hintCount
  codeBlockCount : features.codeBlockCount ≤ features'.codeBlockCount
  requestedMaxOutputTokens : features.requestedMaxOutputTokens.getD 0 ≤
    features'.requestedMaxOutputTokens.getD 0
  reasoningMarkerCount : features.reasoningMarkerCount ≤ features'.reasoningMarkerCount
  technicalTermCount : features.technicalTermCount ≤ features'.technicalTermCount
  codeKeywordCount : features.codeKeywordCount ≤ features'.codeKeywordCount
  mathTermCount : features.mathTermCount ≤ features'.mathTermCount
  creativeTermCount : features.creativeTermCount ≤ features'.creativeTermCount
  multiStepSignal : features.multiStepSignal ≤ features'.multiStepSignal
  questionCount : features.questionCount ≤ features'.questionCount
  simpleIndicatorCount : features'.simpleIndicatorCount ≤ features.simpleIndicatorCount

/-- What is set for a request is set for the other. -/
structure FlagsBelow (features features' : RequestFeatures) : Prop where
  requiresJsonSchema : features.requiresJsonSchema = true → features'.requiresJsonSchema = true
  hasImages : features.hasImages = true → features'.hasImages = true
  systemFormatHint : features.systemFormatHint = true → features'.systemFormatHint = true

end RequestFeatures

namespace Heuristic

variable {heuristic : Heuristic} {features features' : RequestFeatures}

/-- `a.saturating_div(b)` on `u32`. -/
def dividedBy (a b : ℕ) : Outcome Empty ℕ := if b = 0 then .panic else .ok (a / b)

/-- The score as it is computed, where a division by zero panics. -/
def computedScore (heuristic : Heuristic) (features : RequestFeatures) : Outcome Empty ℕ :=
  let weights := heuristic.weights
  let charge (score count weight : ℕ) := satAdd u32Max score (satMul u32Max count weight)
  (dividedBy features.conversationTokens (max weights.tokensPerPoint 1)).bind fun score ↦
    let score := charge score features.codeBlockCount weights.perCodeBlock
    let score := charge score (features.messageCount - 1) weights.perExtraTurn
    let score :=
      if features.requiresJsonSchema then satAdd u32Max score weights.jsonSchema else score
    let score := if features.hasImages then satAdd u32Max score weights.image else score
    let score := charge score features.reasoningMarkerCount weights.perReasoningMarker
    let score := charge score features.technicalTermCount weights.perTechnicalTerm
    let score := charge score features.codeKeywordCount weights.perCodeKeyword
    let score := charge score features.mathTermCount weights.perMathTerm
    let score := charge score features.creativeTermCount weights.perCreativeTerm
    let score := charge score features.multiStepSignal weights.perMultiStepPoint
    let score := charge score features.questionCount weights.perQuestion
    let score :=
      if features.systemFormatHint then satAdd u32Max score weights.systemFormat else score
    let discount := satMul u32Max features.simpleIndicatorCount weights.perSimpleIndicator
    if weights.maxOutputTokensPerPoint > 0 then
      (dividedBy (features.requestedMaxOutputTokens.getD 0) weights.maxOutputTokensPerPoint).bind
        fun points ↦ .ok (satAdd u32Max score points - discount)
    else .ok (score - discount)

/-- No division is by zero. -/
theorem computedScore_eq (heuristic : Heuristic) (features : RequestFeatures) :
    heuristic.computedScore features = .ok (heuristic.score features) := by
  have hpoint : max heuristic.weights.tokensPerPoint 1 ≠ 0 := by omega
  rw [computedScore, dividedBy, if_neg hpoint, Outcome.ok_bind, score]
  by_cases houtput : heuristic.weights.maxOutputTokensPerPoint > 0
  · simp only [if_pos houtput, dividedBy, if_neg (Nat.ne_of_gt houtput), Outcome.ok_bind]
  · simp only [if_neg houtput]

theorem score_le_u32Max (heuristic : Heuristic) (features : RequestFeatures) :
    heuristic.score features ≤ u32Max := by
  rw [score]
  refine (Nat.sub_le _ _).trans ?_
  split
  · exact satAdd_le_top _ _ _
  · exact flagged_le_top _ (satAdd_le_top _ _ _) _

/-- More of everything does not score lower. -/
theorem score_le_score (heuristic : Heuristic) (hcounts : features.CountsBelow features')
    (hflags : features.FlagsBelow features') :
    heuristic.score features ≤ heuristic.score features' := by
  have hcharge : ∀ {s s' count count' : ℕ} (weight : ℕ), s ≤ s' → count ≤ count' →
      satAdd u32Max s (satMul u32Max count weight) ≤
        satAdd u32Max s' (satMul u32Max count' weight) := fun weight hs hcount ↦
    satAdd_le_satAdd hs (satMul_le_satMul hcount le_rfl)
  rw [score, score]
  refine tsub_le_tsub ?_ (satMul_le_satMul hcounts.simpleIndicatorCount le_rfl)
  have hsum : ∀ {s s' : ℕ}, s ≤ s' →
      (if heuristic.weights.maxOutputTokensPerPoint > 0 then satAdd u32Max s
        (features.requestedMaxOutputTokens.getD 0 / heuristic.weights.maxOutputTokensPerPoint)
        else s) ≤
      if heuristic.weights.maxOutputTokensPerPoint > 0 then satAdd u32Max s'
        (features'.requestedMaxOutputTokens.getD 0 / heuristic.weights.maxOutputTokensPerPoint)
        else s' := by
    intro s s' hs
    split
    · exact satAdd_le_satAdd hs (Nat.div_le_div_right hcounts.requestedMaxOutputTokens)
    · exact hs
  -- the dimensions, from the last one to the first
  refine hsum (flagged_le_flagged hflags.systemFormatHint ?_ (satAdd_le_top _ _ _) _)
  refine hcharge _ ?_ hcounts.questionCount
  refine hcharge _ ?_ hcounts.multiStepSignal
  refine hcharge _ ?_ hcounts.creativeTermCount
  refine hcharge _ ?_ hcounts.mathTermCount
  refine hcharge _ ?_ hcounts.codeKeywordCount
  refine hcharge _ ?_ hcounts.technicalTermCount
  refine hcharge _ ?_ hcounts.reasoningMarkerCount
  refine flagged_le_flagged hflags.hasImages ?_ (flagged_le_top _ (satAdd_le_top _ _ _) _) _
  refine flagged_le_flagged hflags.requiresJsonSchema ?_ (satAdd_le_top _ _ _) _
  refine hcharge _ ?_ (Nat.sub_le_sub_right hcounts.messageCount 1)
  refine hcharge _ ?_ hcounts.codeBlockCount
  exact Nat.div_le_div_right hcounts.conversationTokens

/-! ## Bands -/

/-- The bands end in one that every score reaches. -/
def CatchesAll (heuristic : Heuristic) : Prop :=
  ∃ band, heuristic.bands.getLast? = some band ∧ band.atLeast = 0

/-- The band is the highest one that the score reaches, and no other band has its floor. -/
structure HighestBand (heuristic : Heuristic) (score : ℕ) (band : Band) : Prop where
  mem : band ∈ heuristic.bands
  reached : band.atLeast ≤ score
  highest : ∀ other ∈ heuristic.bands, other.atLeast ≤ score → other.atLeast ≤ band.atLeast
  unique : ∀ other ∈ heuristic.bands, other.atLeast = band.atLeast → other = band

/-- In a descending list, the first band that is reached is the highest one. -/
theorem highestBand_of_find {score : ℕ} {band : Band}
    (hbands : heuristic.bands.Pairwise fun first second ↦ second.atLeast < first.atLeast)
    (hfind : (heuristic.bands.find? fun band ↦ decide (score ≥ band.atLeast)) = some band) :
    heuristic.HighestBand score band := by
  obtain ⟨hreached, before, after, hsplit, hnot⟩ := List.find?_eq_some_iff_append.mp hfind
  rw [hsplit, List.pairwise_append, List.pairwise_cons] at hbands
  obtain ⟨-, ⟨hafter, -⟩, hbefore⟩ := hbands
  have hbelow : ∀ other ∈ before, band.atLeast < other.atLeast := fun other hother ↦
    hbefore other hother band List.mem_cons_self
  have hcases : ∀ other ∈ heuristic.bands, other ∈ before ∨ other = band ∨ other ∈ after := by
    intro other hother
    rw [hsplit] at hother
    simpa only [List.mem_append, List.mem_cons] using hother
  refine ⟨List.mem_of_find?_eq_some hfind, of_decide_eq_true hreached, ?_, ?_⟩
  · intro other hother hle
    obtain hother | rfl | hother := hcases other hother
    · have hmiss := hnot other hother
      rw [Bool.not_eq_true', decide_eq_false_iff_not] at hmiss
      exact absurd hle hmiss
    · exact le_rfl
    · exact (hafter other hother).le
  · intro other hother heq
    obtain hother | rfl | hother := hcases other hother
    · exact absurd heq (hbelow other hother).ne'
    · rfl
    · exact absurd heq (hafter other hother).ne

theorem select_highestBand
    (hbands : heuristic.bands.Pairwise fun first second ↦ second.atLeast < first.atLeast)
    (hall : heuristic.CatchesAll) (score : ℕ) :
    ∃ band, heuristic.HighestBand score band ∧
      heuristic.select score = (band.pool, band.atLeast) := by
  obtain ⟨last, hlast, hzero⟩ := hall
  have hmem : last ∈ heuristic.bands := List.mem_of_getLast? hlast
  rw [select]
  split
  next band hfind => exact ⟨band, highestBand_of_find hbands hfind, rfl⟩
  next hnone =>
    have hmiss := List.find?_eq_none.mp hnone last hmem
    rw [decide_eq_true_iff, hzero] at hmiss
    exact absurd (Nat.zero_le score) hmiss

theorem floor_le_floor
    (hbands : heuristic.bands.Pairwise fun first second ↦ second.atLeast < first.atLeast)
    (hall : heuristic.CatchesAll) {score score' : ℕ} (hle : score ≤ score') :
    (heuristic.select score).2 ≤ (heuristic.select score').2 := by
  obtain ⟨band, hband, hselect⟩ := select_highestBand hbands hall score
  obtain ⟨band', hband', hselect'⟩ := select_highestBand hbands hall score'
  rw [hselect, hselect']
  exact hband'.highest band hband.mem (hband.reached.trans hle)

/-! ## The law -/

/-- What is asked of the score and of the bands. `below` says which requests are compared. -/
structure Monotone (heuristic : Heuristic) (below : RequestFeatures → RequestFeatures → Prop) :
    Prop where
  computed : ∀ features, heuristic.computedScore features = .ok (heuristic.score features) ∧
    heuristic.score features ≤ u32Max
  score : ∀ features features', below features features' →
    heuristic.score features ≤ heuristic.score features'
  tier : heuristic.CatchesAll → ∀ score, ∃ band, heuristic.HighestBand score band ∧
    heuristic.select score = (band.pool, band.atLeast)
  floor : heuristic.CatchesAll → ∀ features features', below features features' →
    (heuristic.select (heuristic.score features)).2 ≤
      (heuristic.select (heuristic.score features')).2

/-- A validated heuristic is monotone in its counters and its flags. -/
theorem monotone_of_validated (config : RouterConfig) (heuristic : Heuristic)
    (hvalid : config.validateHeuristic heuristic = .ok ()) :
    heuristic.Monotone fun features features' ↦
      features.CountsBelow features' ∧ features.FlagsBelow features' := by
  obtain ⟨-, -, hbands⟩ := RouterConfig.validateHeuristic_eq_ok.mp hvalid
  refine ⟨fun features ↦ ⟨heuristic.computedScore_eq features, heuristic.score_le_u32Max features⟩,
    fun features features' hbelow ↦ heuristic.score_le_score hbelow.1 hbelow.2,
    select_highestBand hbands, fun hall features features' hbelow ↦ ?_⟩
  exact floor_le_floor hbands hall (heuristic.score_le_score hbelow.1 hbelow.2)

/-- A heuristic that charges for images, over two bands. -/
def imageHeuristic : Heuristic where
  weights :=
    { tokensPerPoint := 100, perTool := 0, jsonSchema := 0, image := 20, perCodeBlock := 5,
      perExtraTurn := 1 }
  threshold := 10
  above := "strong"
  below := "cheap"
  bands := [⟨10, "strong"⟩, ⟨0, "cheap"⟩]

/-- The pools that `imageHeuristic` names. -/
def imagePools : RouterConfig where
  pools := (AList.singleton "strong" [⟨⟨"cloud", by decide⟩, "large"⟩]).insert "cheap"
    [⟨⟨"cloud", by decide⟩, "small"⟩]

theorem monotone_of_validated_images :
    imageHeuristic.Monotone fun features features' ↦
      features.CountsBelow features' ∧ features.FlagsBelow features' :=
  monotone_of_validated imagePools imageHeuristic (by decide +kernel)

/-- A request with an image scores higher than one with more turns. -/
theorem not_monotone_counts : imagePools.validateHeuristic imageHeuristic = .ok () ∧
    ¬ imageHeuristic.Monotone RequestFeatures.CountsBelow := by
  refine ⟨by decide +kernel, fun hmonotone ↦ ?_⟩
  have hbelow : RequestFeatures.CountsBelow { messageCount := 1, hasImages := true }
      { messageCount := 2 } := by
    constructor <;> decide
  exact absurd (hmonotone.score _ _ hbelow) (by decide)

end Heuristic

end TokenStation
