import Mathlib.Data.List.MinMax
import TokenStation.Quota.Ledger
import TokenStation.Router.Quota

/-!
# Reading a ledger

A read never disturbs a count. What a window shows as used is the abstract counter's reading, cut
off at the largest word (`toNat_effectiveUsed`), so it only falls while nothing is recorded. The
router's picture of an account, `AccountLedger.quotaState`, keeps one window of the ledger: the
soonest to close.
-/

namespace TokenStation

open Library

/-- One window's full picture for the quota viewer. -/
structure WindowSnapshot where
  lenMs : UInt64
  limit : UInt64
  used : UInt64
  remainingPermille : ℕ
  msUntilReset : UInt64
  deriving DecidableEq

/-- `u16::try_from(part * 1000 / whole).unwrap_or(1000)`, the product and the quotient in `u128`. -/
def permille (part whole : UInt64) : ℕ :=
  let share := part.toNat * 1000 / whole.toNat
  if share ≤ 65535 then share else 1000

/-- A part of the whole never reaches the fallback. -/
theorem permille_eq {part whole : UInt64} (h : part.toNat ≤ whole.toNat) :
    permille part whole = part.toNat * 1000 / whole.toNat := by
  have hshare : part.toNat * 1000 / whole.toNat ≤ 1000 :=
    Nat.div_le_of_le_mul (Nat.mul_le_mul_right 1000 h)
  rw [permille, if_pos (by omega)]

namespace SlidingWindow

/-! ## Windows -/

/-- Effective consumption as seen at `nowMs`: the current bucket plus the previous one, weighted by
how much of the window it still covers. -/
def effectiveUsed (window : SlidingWindow) (nowMs : UInt64) : UInt64 :=
  let idx := window.indexAt nowMs
  if idx < window.index then Word.satAdd window.curr window.prev
  else
    let (curr, prev) : UInt64 × UInt64 :=
      if idx = window.index then (window.curr, window.prev)
      else if some idx = Word.checkedAdd window.index 1 then (0, window.curr)
      else (0, 0)
    let bucketStart := Word.satMul idx window.lenMs
    let elapsed := min (Word.satSub nowMs bucketStart) window.lenMs
    let prevWeight := window.lenMs - elapsed
    let prevContribution :=
      (Word.tryFrom (prev.toNat * prevWeight.toNat / window.lenMs.toNat)).getD prev
    Word.satAdd curr prevContribution

/-- Remaining allowance in permille. A zero limit leaves nothing. -/
def remainingPermille (window : SlidingWindow) (nowMs : UInt64) : ℕ :=
  if window.limit = 0 then 0
  else
    let used := min (window.effectiveUsed nowMs) window.limit
    let remaining := window.limit - used
    permille remaining window.limit

/-- The end of the bucket that `nowMs` is in. -/
def nextBoundary (window : SlidingWindow) (nowMs : UInt64) : UInt64 :=
  Word.satMul (Word.satAdd (window.indexAt nowMs) 1) window.lenMs

/-- Milliseconds until this window's next bucket boundary. -/
def msUntilReset (window : SlidingWindow) (nowMs : UInt64) : UInt64 :=
  window.nextBoundary nowMs - nowMs

/-- Full display detail for one window. -/
def snapshot (window : SlidingWindow) (nowMs : UInt64) : WindowSnapshot where
  lenMs := window.lenMs
  limit := window.limit
  used := min (window.effectiveUsed nowMs) window.limit
  remainingPermille := window.remainingPermille nowMs
  msUntilReset := window.msUntilReset nowMs

/-! ### The abstract reading -/

/-- The counts of a window as numbers. -/
def counts (window : SlidingWindow) : TwoBucket ℕ :=
  ⟨window.index.toNat, window.curr.toNat, window.prev.toNat⟩

theorem lenMs_toNat_pos (window : SlidingWindow) : 0 < window.lenMs.toNat :=
  UInt64.lt_iff_toNat_lt.mp window.lenMs_pos

theorem indexAt_toNat (window : SlidingWindow) (nowMs : UInt64) :
    (window.indexAt nowMs).toNat = nowMs.toNat / window.lenMs.toNat := by
  rw [indexAt, UInt64.toNat_div]

/-- The weight that `effectiveUsed` gives to the previous bucket is its decayed share. -/
theorem toNat_prevContribution (window : SlidingWindow) (nowMs prev : UInt64) :
    ((Word.tryFrom (prev.toNat * (window.lenMs - min (Word.satSub nowMs
        (Word.satMul (window.indexAt nowMs) window.lenMs)) window.lenMs).toNat
          / window.lenMs.toNat)).getD prev).toNat =
      TwoBucket.decayed window.lenMs.toNat prev.toNat (nowMs.toNat % window.lenMs.toNat) := by
  have hnow : nowMs.toNat < 2 ^ 64 := nowMs.toNat_lt
  have hprev : prev.toNat < 2 ^ 64 := prev.toNat_lt
  have hstart := Nat.div_add_mod nowMs.toNat window.lenMs.toNat
  have hmod := Nat.mod_lt nowMs.toNat window.lenMs_toNat_pos
  have helapsed : (min (Word.satSub nowMs
      (Word.satMul (window.indexAt nowMs) window.lenMs)) window.lenMs).toNat =
        nowMs.toNat % window.lenMs.toNat := by
    rw [Word.toNat_min, Word.toNat_satSub, Word.toNat_satMul, indexAt_toNat, mul_comm]
    omega
  rw [UInt64.toNat_sub_of_le _ _ (UInt64.le_iff_toNat_le.mpr (by omega)), helapsed]
  refine Word.toNat_getD_tryFrom ?_ prev
  exact (TwoBucket.decayed_le _ prev.toNat _).trans_lt hprev

/-- **Refinement.** What a window shows is the abstract reading, cut off at the largest word. -/
theorem toNat_effectiveUsed (window : SlidingWindow) (nowMs : UInt64) :
    (window.effectiveUsed nowMs).toNat =
      min (2 ^ 64 - 1) (window.counts.reading window.lenMs.toNat nowMs.toNat) := by
  have hidx := window.indexAt_toNat nowMs
  have hlt : window.indexAt nowMs < window.index ↔
      nowMs.toNat / window.lenMs.toNat < window.counts.index := by
    rw [UInt64.lt_iff_toNat_lt, hidx, counts]
  have hsame : window.indexAt nowMs = window.index ↔
      nowMs.toNat / window.lenMs.toNat = window.counts.index := by
    rw [← UInt64.toNat_inj, hidx, counts]
  have hnext : some (window.indexAt nowMs) = Word.checkedAdd window.index 1 ↔
      nowMs.toNat / window.lenMs.toNat = window.counts.index + 1 := by
    rw [eq_comm, Word.checkedAdd_one_eq_some, hidx, counts]
  rw [effectiveUsed, TwoBucket.reading]
  by_cases h : window.indexAt nowMs < window.index
  · rw [if_pos h, if_pos (hlt.mp h), Word.toNat_satAdd, counts]
  · rw [if_neg h, if_neg (mt hlt.mpr h), Word.toNat_satAdd, toNat_prevContribution]
    by_cases h' : window.indexAt nowMs = window.index
    · rw [if_pos h', if_pos (hsame.mp h'), counts]
    · rw [if_neg h', if_neg (mt hsame.mpr h')]
      by_cases h'' : some (window.indexAt nowMs) = Word.checkedAdd window.index 1
      · rw [if_pos h'', if_pos (hnext.mp h''), counts, UInt64.toNat_zero, zero_add]
      · rw [if_neg h'', if_neg (mt hnext.mpr h'')]
        simp [TwoBucket.decayed]

theorem effectiveUsed_antitone (window : SlidingWindow) {t₁ t₂ : UInt64} (h : t₁ ≤ t₂) :
    window.effectiveUsed t₂ ≤ window.effectiveUsed t₁ := by
  rw [UInt64.le_iff_toNat_le, toNat_effectiveUsed, toNat_effectiveUsed]
  refine min_le_min_left _ ?_
  exact TwoBucket.reading_antitone window.counts _ (UInt64.le_iff_toNat_le.mp h)

theorem effectiveUsed_le (window : SlidingWindow) (nowMs : UInt64) :
    window.effectiveUsed nowMs ≤ Word.satAdd window.curr window.prev := by
  rw [UInt64.le_iff_toNat_le, toNat_effectiveUsed, Word.toNat_satAdd]
  exact min_le_min_left _ (TwoBucket.reading_le window.counts _ _)

/-- Before its newest bucket a window shows both of its counts in full. -/
theorem effectiveUsed_of_lt {window : SlidingWindow} {nowMs : UInt64}
    (h : window.indexAt nowMs < window.index) :
    window.effectiveUsed nowMs = Word.satAdd window.curr window.prev := if_pos h

/-- What is left of the allowance at `nowMs`. -/
def remaining (window : SlidingWindow) (nowMs : UInt64) : UInt64 :=
  window.limit - min (window.effectiveUsed nowMs) window.limit

theorem toNat_remaining (window : SlidingWindow) (nowMs : UInt64) :
    (window.remaining nowMs).toNat =
      window.limit.toNat - (window.effectiveUsed nowMs).toNat := by
  have hmin := Word.toNat_min (window.effectiveUsed nowMs) window.limit
  rw [remaining, UInt64.toNat_sub_of_le _ _ (UInt64.le_iff_toNat_le.mpr (by omega)), hmin]
  omega

/-- The remaining permille is the remaining share, rounded down; of a zero limit it is zero. -/
theorem remainingPermille_eq (window : SlidingWindow) (nowMs : UInt64) :
    window.remainingPermille nowMs =
      (window.remaining nowMs).toNat * 1000 / window.limit.toNat := by
  have hle : (window.remaining nowMs).toNat ≤ window.limit.toNat := by
    rw [toNat_remaining]
    exact Nat.sub_le _ _
  rw [remainingPermille]
  split
  next h => rw [h, UInt64.toNat_zero, Nat.div_zero]
  next => exact permille_eq hle

theorem remainingPermille_mono (window : SlidingWindow) {t₁ t₂ : UInt64} (h : t₁ ≤ t₂) :
    window.remainingPermille t₁ ≤ window.remainingPermille t₂ := by
  have hused := UInt64.le_iff_toNat_le.mp (window.effectiveUsed_antitone h)
  rw [remainingPermille_eq, remainingPermille_eq, toNat_remaining, toNat_remaining]
  refine Nat.div_le_div_right (Nat.mul_le_mul_right 1000 ?_)
  exact Nat.sub_le_sub_left hused _

theorem le_nextBoundary (window : SlidingWindow) (nowMs : UInt64) :
    nowMs ≤ window.nextBoundary nowMs := by
  have hnow : nowMs.toNat < 2 ^ 64 := nowMs.toNat_lt
  have hone : (1 : UInt64).toNat = 1 := rfl
  have hend := Nat.lt_mul_div_succ nowMs.toNat window.lenMs_toNat_pos
  have hfits : nowMs.toNat ≤
      min (2 ^ 64 - 1) (nowMs.toNat / window.lenMs.toNat + 1) * window.lenMs.toNat := by
    rcases le_total (2 ^ 64 - 1) (nowMs.toNat / window.lenMs.toNat + 1) with hle | hle
    · -- a bucket number at the top is a time at the top
      rw [min_eq_left hle]
      calc nowMs.toNat ≤ 2 ^ 64 - 1 := by omega
        _ ≤ (2 ^ 64 - 1) * window.lenMs.toNat := Nat.le_mul_of_pos_right _ window.lenMs_toNat_pos
    · rw [min_eq_right hle, mul_comm]
      exact hend.le
  rw [UInt64.le_iff_toNat_le, nextBoundary, Word.toNat_satMul, Word.toNat_satAdd, hone,
    indexAt_toNat]
  exact le_min (by omega) hfits

/-- A boundary that fits in a word is less than a period away, and not yet reached. -/
theorem msUntilReset_mem {window : SlidingWindow} {nowMs : UInt64}
    (h : ((window.indexAt nowMs).toNat + 1) * window.lenMs.toNat < 2 ^ 64) :
    1 ≤ window.msUntilReset nowMs ∧ window.msUntilReset nowMs ≤ window.lenMs := by
  have hone : (1 : UInt64).toNat = 1 := rfl
  have hpos := window.lenMs_toNat_pos
  have hstart := Nat.div_add_mod nowMs.toNat window.lenMs.toNat
  have hmod := Nat.mod_lt nowMs.toNat hpos
  rw [indexAt_toNat] at h
  have hindex : nowMs.toNat / window.lenMs.toNat + 1 < 2 ^ 64 :=
    (Nat.le_mul_of_pos_right _ hpos).trans_lt h
  have hboundary : (window.nextBoundary nowMs).toNat =
      window.lenMs.toNat * (nowMs.toNat / window.lenMs.toNat) + window.lenMs.toNat := by
    have hsucc : min (2 ^ 64 - 1) (nowMs.toNat / window.lenMs.toNat + 1) =
        nowMs.toNat / window.lenMs.toNat + 1 := min_eq_right (by omega)
    rw [nextBoundary, Word.toNat_satMul, Word.toNat_satAdd, hone, indexAt_toNat, hsucc,
      min_eq_right (by omega)]
    ring
  have hreset : (window.msUntilReset nowMs).toNat =
      (window.nextBoundary nowMs).toNat - nowMs.toNat :=
    UInt64.toNat_sub_of_le _ _ (window.le_nextBoundary nowMs)
  rw [UInt64.le_iff_toNat_le, UInt64.le_iff_toNat_le, hreset, hboundary, hone]
  omega

/-! ### What a run of records shows -/

/-- The consumption that a run of records filed in the bucket of `nowMs`, as a saturating sum. -/
def recordedIn (window : SlidingWindow) (records : List (UInt64 × UInt64)) (nowMs : UInt64) :
    UInt64 :=
  Word.satSum ((records.filter fun r ↦ window.indexAt r.1 = window.indexAt nowMs).map Prod.snd)

/-- A window shows at least what its own bucket was charged, wherever that bucket is still kept. -/
theorem Summarizes.recordedIn_le {window : SlidingWindow} {records : List (UInt64 × UInt64)}
    (h : window.Summarizes records) {nowMs : UInt64}
    (hkept : window.index.toNat ≤ (window.indexAt nowMs).toNat + 1) :
    window.recordedIn records nowMs ≤ window.effectiveUsed nowMs := by
  rw [recordedIn]
  rcases lt_trichotomy (window.indexAt nowMs).toNat window.index.toNat with hlt | heq | hgt
  · -- just before the newest bucket: its count is shown in full, beside the newest one's
    have hprev : window.prev = Word.satSum ((records.filter fun r ↦
        window.indexAt r.1 = window.indexAt nowMs).map Prod.snd) := by
      rw [h.prev]
      refine congrArg (fun l ↦ Word.satSum (List.map Prod.snd l)) (List.filter_congr ?_)
      intro r _
      rw [decide_eq_decide, ← UInt64.toNat_inj, indexAt]
      omega
    rw [effectiveUsed_of_lt (UInt64.lt_iff_toNat_lt.mpr hlt), ← hprev, UInt64.le_iff_toNat_le,
      Word.toNat_satAdd]
    have := window.prev.toNat_lt
    omega
  · have hindex : window.indexAt nowMs = window.index := UInt64.toNat_inj.mp heq
    have hcurr : window.curr = Word.satSum ((records.filter fun r ↦
        window.indexAt r.1 = window.indexAt nowMs).map Prod.snd) := by
      rw [hindex]
      exact h.curr
    rw [← hcurr, UInt64.le_iff_toNat_le, toNat_effectiveUsed, TwoBucket.reading,
      if_neg (by rw [← indexAt_toNat, heq]; exact lt_irrefl _),
      if_pos (by rw [← indexAt_toNat, heq, counts])]
    have := window.curr.toNat_lt
    simp only [counts]
    omega
  · -- after the newest bucket: nothing is recorded in this one
    have hnone : (records.filter fun r ↦ window.indexAt r.1 = window.indexAt nowMs) = [] := by
      rw [List.filter_eq_nil_iff]
      intro r hr heq
      have hle := UInt64.le_iff_toNat_le.mp (h.index_max r hr)
      rw [← of_decide_eq_true heq, indexAt] at hgt
      omega
    rw [hnone]
    exact UInt64.zero_le

/-- What the readings of a window promise about the records it was given. -/
structure ReadsSoundly (window : SlidingWindow) (records : List (UInt64 × UInt64)) : Prop where
  /-- While nothing is recorded, what is used only falls and what remains only grows. -/
  recovers : ∀ t₁ t₂, t₁ ≤ t₂ → window.effectiveUsed t₂ ≤ window.effectiveUsed t₁ ∧
    window.remainingPermille t₁ ≤ window.remainingPermille t₂
  at_most : ∀ t, window.effectiveUsed t ≤ Word.satAdd window.curr window.prev
  /-- The newest bucket, the one before it and every later one show at least their own records. -/
  at_least : ∀ t, window.index.toNat ≤ (window.indexAt t).toNat + 1 →
    window.recordedIn records t ≤ window.effectiveUsed t
  /-- A clock set back before the newest bucket shows both kept counts in full. -/
  rollback : ∀ t, window.indexAt t < window.index →
    window.effectiveUsed t = Word.satAdd window.curr window.prev
  no_underflow : ∀ t, t ≤ window.nextBoundary t
  reset_in_period : ∀ t, ((window.indexAt t).toNat + 1) * window.lenMs.toNat < 2 ^ 64 →
    1 ≤ window.msUntilReset t ∧ window.msUntilReset t ≤ window.lenMs

/-- **Quota only recovers with time.** Every window that a run of records reaches reads soundly. -/
theorem recordAll_new_readsSoundly (lenMs limit : UInt64) (records : List (UInt64 × UInt64)) :
    ((new lenMs limit).recordAll records).ReadsSoundly records where
  recovers _ _ h := ⟨effectiveUsed_antitone _ h, remainingPermille_mono _ h⟩
  at_most := effectiveUsed_le _
  at_least _ hkept := (recordAll_new_summarizes lenMs limit records).recordedIn_le hkept
  rollback _ h := effectiveUsed_of_lt h
  no_underflow := le_nextBoundary _
  reset_in_period _ h := msUntilReset_mem h

/-- A bucket more than one before the newest is forgotten: the clock goes five minutes ahead and
back, and a hundred units spent in the first minute show as one. -/
theorem not_recordedIn_le_forgotten :
    ¬ ((new 60000 1000).recordAll [(0, 100), (300000, 1)]).recordedIn [(0, 100), (300000, 1)] 0 ≤
      ((new 60000 1000).recordAll [(0, 100), (300000, 1)]).effectiveUsed 0 := by
  decide +kernel

end SlidingWindow

/-! ## Ledgers -/

/-- At or below this much rate headroom an account is pressured. -/
def ratePressurePermille : ℕ := 100

namespace AccountLedger

/-- Instantaneous rate headroom. Full headroom when the rate is not tracked. -/
def rateHeadroomPermille (ledger : AccountLedger) (nowMs : UInt64) : ℕ :=
  ledger.rate.elim 1000 fun rate ↦ rate.remainingPermille nowMs

/-- The router-facing quota picture: the soonest window to close, and whether any is spent. -/
def quotaState (ledger : AccountLedger) (nowMs : UInt64) : QuotaState :=
  let reset := (ledger.windows.argmin fun window ↦ (window.msUntilReset nowMs).toNat).map
    fun window ↦ ResetWindow.mk (window.msUntilReset nowMs).toNat (window.remainingPermille nowMs)
  let exhausted := ledger.windows.any fun window ↦ window.remainingPermille nowMs = 0
  let rateHeadroomPermille := ledger.rate.elim 1000 fun rate ↦ rate.remainingPermille nowMs
  let ratePressured := decide (rateHeadroomPermille ≤ ratePressurePermille)
  { reset, rateHeadroomPermille, ratePressured, exhausted }

/-- Full per-window detail for the viewer, in the plan's declared order. -/
def windowSnapshots (ledger : AccountLedger) (nowMs : UInt64) : List WindowSnapshot :=
  ledger.windows.map fun window ↦ window.snapshot nowMs

end AccountLedger

end TokenStation
