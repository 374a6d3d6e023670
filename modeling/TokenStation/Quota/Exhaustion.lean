import TokenStation.Quota.Headers

/-!
# Exhausted accounts

An account is out of rotation when the remaining permille of one of its windows is zero. The share
is rounded down, so a window with less than a thousandth of its limit left counts as spent. Exactly
there the picture and the allowance disagree, in the ledger (`AccountLedger.exhaustedWhenSpent_iff`)
and in the windows that a provider reports (`exhaustedWhenDrained_iff`).
-/

namespace TokenStation

open Library

/-- The soonest-closing window of a list, and whether any of them is spent. -/
def bindingOf (windows : List WindowSnapshot) : Option ResetWindow × Bool :=
  let reset := (windows.argmin fun w ↦ w.msUntilReset.toNat).map fun w ↦
    ResetWindow.mk w.msUntilReset.toNat w.remainingPermille
  let exhausted := windows.any fun w ↦ w.remainingPermille = 0
  (reset, exhausted)

/-- A permille rounds to nothing below a thousandth of the whole. -/
theorem permille_eq_zero {part whole : UInt64} (h : part.toNat ≤ whole.toNat) :
    permille part whole = 0 ↔ whole.toNat = 0 ∨ part.toNat * 1000 < whole.toNat := by
  rw [permille_eq h, Nat.div_eq_zero_iff]

/-- Where every `p` is a `q`, there is a `q` exactly if there is a `p` in just those lists that have
a `p` or have no `q`. -/
theorem exists_iff_exists_iff {α : Type} {l : List α} {p q : α → Prop}
    (h : ∀ a ∈ l, p a → q a) :
    ((∃ a ∈ l, q a) ↔ ∃ a ∈ l, p a) ↔ (∃ a ∈ l, p a) ∨ ∀ a ∈ l, ¬ q a := by
  constructor
  · intro hiff
    by_cases hp : ∃ a ∈ l, p a
    · exact Or.inl hp
    · exact Or.inr fun a ha hq ↦ hp (hiff.mp ⟨a, ha, hq⟩)
  · rintro (⟨a, ha, hp⟩ | hnone)
    · exact iff_of_true ⟨a, ha, h a ha hp⟩ ⟨a, ha, hp⟩
    · refine iff_of_false ?_ ?_
      · rintro ⟨a, ha, hq⟩
        exact hnone a ha hq
      · rintro ⟨a, ha, hp⟩
        exact hnone a ha (h a ha hp)

/-! ## The ledger -/

namespace SlidingWindow

/-- The window's allowance is used up, or it has none. -/
def Spent (window : SlidingWindow) (nowMs : UInt64) : Prop :=
  window.limit ≠ 0 ∧ window.limit ≤ window.effectiveUsed nowMs ∨ window.limit = 0

/-- At least a thousandth of the limit is left. -/
def Usable (window : SlidingWindow) (nowMs : UInt64) : Prop :=
  0 < window.limit.toNat ∧
    window.limit.toNat ≤ 1000 * (window.limit.toNat - (window.effectiveUsed nowMs).toNat)

theorem remainingPermille_eq_zero {window : SlidingWindow} {nowMs : UInt64} :
    window.remainingPermille nowMs = 0 ↔ ¬ window.Usable nowMs := by
  rw [remainingPermille_eq, Nat.div_eq_zero_iff, toNat_remaining, Usable]
  omega

theorem Spent.not_usable {window : SlidingWindow} {nowMs : UInt64} (h : window.Spent nowMs) :
    ¬ window.Usable nowMs := by
  rintro ⟨hpos, hleft⟩
  rcases h with ⟨-, hle⟩ | hzero
  · rw [UInt64.le_iff_toNat_le] at hle
    omega
  · rw [hzero, UInt64.toNat_zero] at hpos
    exact absurd hpos (lt_irrefl 0)

end SlidingWindow

namespace AccountLedger

def Spent (ledger : AccountLedger) (nowMs : UInt64) : Prop :=
  ∃ window ∈ ledger.windows, window.Spent nowMs

/-- The router's picture shows an account as exhausted exactly when an allowance is spent, and no
account with unspent allowance is dropped from the ranking. -/
def ExhaustedWhenSpent (ledger : AccountLedger) (nowMs : UInt64) : Prop :=
  ((ledger.quotaState nowMs).exhausted = true ↔ ledger.Spent nowMs) ∧
    ∀ isLastUsed insertionIndex weights tieBandMs,
      quotaRank (ledger.quotaState nowMs) isLastUsed insertionIndex weights tieBandMs = none →
        ledger.Spent nowMs

theorem exhausted_iff {ledger : AccountLedger} {nowMs : UInt64} :
    (ledger.quotaState nowMs).exhausted = true ↔
      ∃ window ∈ ledger.windows, ¬ window.Usable nowMs := by
  simp only [quotaState, List.any_eq_true, decide_eq_true_eq,
    SlidingWindow.remainingPermille_eq_zero]

/-- Only an exhausted account has no rank. -/
theorem quotaRank_eq_none {state : QuotaState} {isLastUsed : Bool} {insertionIndex : ℕ}
    {weights : QuotaWeights} {tieBandMs : ℕ}
    (h : quotaRank state isLastUsed insertionIndex weights tieBandMs = none) :
    state.exhausted = true := by
  by_contra hopen
  rw [quotaRank, if_neg hopen] at h
  nomatch h

/-- The picture is right exactly when an allowance is spent or every window is still usable. -/
theorem exhaustedWhenSpent_iff (ledger : AccountLedger) (nowMs : UInt64) :
    ledger.ExhaustedWhenSpent nowMs ↔
      ledger.Spent nowMs ∨ ∀ window ∈ ledger.windows, window.Usable nowMs := by
  have hiff := exists_iff_exists_iff fun window (_ : window ∈ ledger.windows)
    (h : window.Spent nowMs) ↦ h.not_usable
  simp only [not_not] at hiff
  rw [Spent, ← hiff, ← exhausted_iff, ExhaustedWhenSpent]
  refine ⟨And.left, fun h ↦ ⟨h, fun _ _ _ _ hnone ↦ h.mp (quotaRank_eq_none hnone)⟩⟩

end AccountLedger

/-! ## Provider-reported windows -/

/-- Nothing remains of what the provider allows. -/
def Drained (windows : List WindowSnapshot) : Prop :=
  ∃ window ∈ windows, window.limit.toNat - window.used.toNat = 0

variable {floats : Floats} {headers : Headers} {nowMs : UInt64}

/-- The headers' picture shows an account as exhausted exactly when a reported window is drained. -/
def ExhaustedWhenDrained (floats : Floats) (headers : Headers) (nowMs : UInt64) : Prop :=
  (bindingOf (parseQuotaWindows floats headers nowMs)).2 = true ↔
    Drained (parseQuotaWindows floats headers nowMs)

/-- Some family that counts reports nothing left. -/
def ReportsNone (headers : Headers) : Prop :=
  ∃ family ∈ quotaFamilies, counted headers family = true ∧
    getU64 headers family.remainingKey = some 0

/-- Every family that counts reports at least a thousandth of its limit left. -/
def ReportsUsable (headers : Headers) : Prop :=
  ∀ family ∈ quotaFamilies, ∀ limit remaining, counted headers family = true →
    getU64 headers family.limitKey = some limit →
      getU64 headers family.remainingKey = some remaining →
        limit.toNat ≤ 1000 * remaining.toNat

/-- Where a reported window comes from. -/
theorem mem_parseQuotaWindows {window : WindowSnapshot} :
    window ∈ parseQuotaWindows floats headers nowMs ↔
      ∃ family ∈ quotaFamilies, counted headers family = true ∧
        windowFrom floats headers family nowMs = some window := by
  rw [parseQuotaWindows, List.mem_filterMap]
  constructor
  · rintro ⟨family, hfamily, hwindow⟩
    refine ⟨family, hfamily, ?_, hwindow⟩
    by_contra huncounted
    rw [windowFrom_eq_none (Bool.eq_false_iff.mpr huncounted)] at hwindow
    nomatch hwindow
  · rintro ⟨family, hfamily, -, hwindow⟩
    exact ⟨family, hfamily, hwindow⟩

variable (floats nowMs) in
/-- The counts of the window of a family. -/
theorem windowFrom_counts {family : QuotaFamily} {limit remaining : UInt64}
    (hlimit : getU64 headers family.limitKey = some limit) (hpos : limit ≠ 0)
    (hremaining : getU64 headers family.remainingKey = some remaining) :
    ∃ window, windowFrom floats headers family nowMs = some window ∧ window.limit = limit ∧
      window.limit.toNat - window.used.toNat = min remaining.toNat limit.toNat ∧
      (window.remainingPermille = 0 ↔
        1000 * (window.limit.toNat - window.used.toNat) < window.limit.toNat) := by
  refine ⟨_, windowFrom_of_counted hlimit hpos hremaining, rfl, ?_⟩
  have hmin : (min remaining limit).toNat = min remaining.toNat limit.toNat :=
    Word.toNat_min remaining limit
  have hlimitPos : limit.toNat ≠ 0 := fun h ↦ hpos (UInt64.toNat_inj.mp h)
  have hle : (min remaining limit).toNat ≤ limit.toNat := by omega
  dsimp only
  rw [permille_eq_zero hle, UInt64.toNat_sub_of_le _ _ (UInt64.le_iff_toNat_le.mpr (by omega)),
    hmin]
  constructor
  · omega
  · omega

/-- The counts of a reported window are those of its family. -/
theorem exists_counts {window : WindowSnapshot}
    (hmem : window ∈ parseQuotaWindows floats headers nowMs) :
    ∃ family ∈ quotaFamilies, ∃ remaining, counted headers family = true ∧
      getU64 headers family.limitKey = some window.limit ∧ window.limit.toNat ≠ 0 ∧
      getU64 headers family.remainingKey = some remaining ∧
      window.limit.toNat - window.used.toNat = min remaining.toNat window.limit.toNat ∧
      (window.remainingPermille = 0 ↔
        1000 * (window.limit.toNat - window.used.toNat) < window.limit.toNat) := by
  obtain ⟨family, hfamily, hcounted, hwindow⟩ := mem_parseQuotaWindows.mp hmem
  obtain ⟨limit, remaining, hlimit, hpos, hremaining⟩ := exists_of_counted hcounted
  obtain ⟨window', hwindow', rfl, hleft, hzero⟩ :=
    windowFrom_counts floats nowMs hlimit hpos hremaining
  rw [hwindow] at hwindow'
  obtain rfl := Option.some.inj hwindow'
  exact ⟨family, hfamily, remaining, hcounted, hlimit, fun h ↦ hpos (UInt64.toNat_inj.mp h),
    hremaining, hleft, hzero⟩

variable (floats headers nowMs) in
theorem drained_iff : Drained (parseQuotaWindows floats headers nowMs) ↔ ReportsNone headers := by
  constructor
  · rintro ⟨window, hmem, hdrained⟩
    obtain ⟨family, hfamily, remaining, hcounted, -, hpos, hremaining, hleft, -⟩ :=
      exists_counts hmem
    have hzero : remaining = 0 := by
      rw [← UInt64.toNat_inj, UInt64.toNat_zero]
      omega
    exact ⟨family, hfamily, hcounted, hzero ▸ hremaining⟩
  · rintro ⟨family, hfamily, hcounted, hremaining⟩
    obtain ⟨limit, _, hlimit, hpos, -⟩ := exists_of_counted hcounted
    obtain ⟨window, hwindow, -, hleft, -⟩ :=
      windowFrom_counts floats nowMs hlimit hpos hremaining
    refine ⟨window, mem_parseQuotaWindows.mpr ⟨family, hfamily, hcounted, hwindow⟩, ?_⟩
    rw [hleft, UInt64.toNat_zero, Nat.zero_min]

variable (floats headers nowMs) in
theorem forall_usable_iff :
    (∀ window ∈ parseQuotaWindows floats headers nowMs, ¬ window.remainingPermille = 0) ↔
      ReportsUsable headers := by
  constructor
  · intro h family hfamily limit remaining hcounted hlimit hremaining
    obtain ⟨_, _, hlimit', hpos, -⟩ := exists_of_counted hcounted
    rw [hlimit] at hlimit'
    obtain rfl := Option.some.inj hlimit'
    obtain ⟨window, hwindow, rfl, hleft, hzero⟩ :=
      windowFrom_counts floats nowMs hlimit hpos hremaining
    have hopen := h window (mem_parseQuotaWindows.mpr ⟨family, hfamily, hcounted, hwindow⟩)
    rw [hzero, hleft] at hopen
    omega
  · intro h window hmem hpermille
    obtain ⟨family, hfamily, remaining, hcounted, hlimit, hpos, hremaining, hleft, hzero⟩ :=
      exists_counts hmem
    have husable := h family hfamily _ remaining hcounted hlimit hremaining
    rw [hzero, hleft] at hpermille
    omega

theorem exhaustedWhenDrained_iff (floats : Floats) (headers : Headers) (nowMs : UInt64) :
    ExhaustedWhenDrained floats headers nowMs ↔ ReportsNone headers ∨ ReportsUsable headers := by
  have hrounds : ∀ window ∈ parseQuotaWindows floats headers nowMs,
      window.limit.toNat - window.used.toNat = 0 → window.remainingPermille = 0 := by
    intro window hmem hdrained
    obtain ⟨_, _, _, -, -, hpos, -, -, hzero⟩ := exists_counts hmem
    rw [hzero, hdrained]
    omega
  have hiff := exists_iff_exists_iff hrounds
  rw [← drained_iff floats headers nowMs, ← forall_usable_iff floats headers nowMs, Drained, ← hiff,
    ExhaustedWhenDrained, Drained]
  simp only [bindingOf, List.any_eq_true, decide_eq_true_eq]

/-- **When exhausted means spent.** The ledger's picture and the headers' picture show an account as
exhausted for a spent allowance alone exactly when one is spent, or a thousandth of each is left. -/
theorem exhausted_iff_spent_iff (plan : List (UInt64 × UInt64)) (rateLimitPerMin : Option UInt64)
    (records : List (UInt64 × UInt64)) (floats : Floats) (headers : Headers) (nowMs : UInt64) :
    (((AccountLedger.ofPlan plan rateLimitPerMin).recordAll records).ExhaustedWhenSpent nowMs ↔
      ((AccountLedger.ofPlan plan rateLimitPerMin).recordAll records).Spent nowMs ∨
        ∀ window ∈ ((AccountLedger.ofPlan plan rateLimitPerMin).recordAll records).windows,
          window.Usable nowMs) ∧
    (ExhaustedWhenDrained floats headers nowMs ↔ ReportsNone headers ∨ ReportsUsable headers) :=
  ⟨AccountLedger.exhaustedWhenSpent_iff _ nowMs, exhaustedWhenDrained_iff floats headers nowMs⟩

/-- A response with one token left of two thousand. -/
def lastTokenHeaders : Headers :=
  (AList.insert "x-ratelimit-limit-tokens" "2000" ∅).insert "x-ratelimit-remaining-tokens" "1"

/-- With one token left of two thousand, both pictures show an exhausted account. -/
theorem not_exhausted_iff_spent_lastToken :
    ¬ ((AccountLedger.ofPlan [(60000, 2000)] none).recordAll [(0, 1999)]).ExhaustedWhenSpent 0 ∧
      ¬ ExhaustedWhenDrained Floats.host lastTokenHeaders 0 := by
  constructor
  · rintro ⟨hiff, -⟩
    obtain ⟨window, hmem, hspent⟩ := hiff.mp (by decide +kernel)
    obtain rfl : window = (SlidingWindow.new 60000 2000).record 0 1999 := List.mem_singleton.mp hmem
    revert hspent
    rw [SlidingWindow.Spent]
    decide +kernel
  · rw [exhaustedWhenDrained_iff]
    rintro (⟨family, hfamily, -, hremaining⟩ | husable)
    · revert hremaining family
      decide +kernel
    · have hfirst := husable _ List.mem_cons_self 2000 1 (by decide +kernel) (by decide +kernel)
        (by decide +kernel)
      revert hfirst
      decide

end TokenStation
