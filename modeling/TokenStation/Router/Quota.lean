import TokenStation.Library.Saturating
import Mathlib.Data.Prod.Lex
import Mathlib.Order.Lattice.Nat
import Mathlib.Tactic.Linarith

/-!
# Quota ranks

`quotaRank` places one account in the quota-first order. The comparison has two levels: the reset
bucket, sooner first, and inside a bucket a score made of an affinity bonus, a headroom term and a
pressure penalty, from which the account's position in the operator's list is subtracted.

The weights are `u32` and the headroom is `u16`, so the `i64` score never overflows
(`score_in_range`) and the model computes it in `ℤ`.
-/

namespace TokenStation

open Library

/-- The binding reset window of an account. -/
structure ResetWindow where
  msUntilReset : ℕ
  remainingPermille : ℕ
  deriving DecidableEq, Repr

/-- One account's quota picture, host-measured. The default is a non-windowed, open account. -/
structure QuotaState where
  reset : Option ResetWindow := none
  rateHeadroomPermille : ℕ := 1000
  ratePressured : Bool := false
  exhausted : Bool := false
  deriving DecidableEq, Repr

/-- Weights of the secondary score. -/
structure QuotaWeights where
  affinity : ℕ := 300000
  headroom : ℕ := 200000
  pressure : ℕ := 500000
  deriving DecidableEq, Repr

/-- Tuning of quota-first routing. -/
structure QuotaConfig where
  weights : QuotaWeights := {}
  resetTieBandMs : ℕ := 60000
  deriving DecidableEq, Repr

/-- Where a candidate lands in the quota-first order; greater is preferred. -/
structure QuotaRank where
  bucket : ℕ
  score : ℤ
  deriving DecidableEq, Repr

namespace QuotaRank

/-- The rank as a pair compared lexicographically, the bucket reversed. -/
def toPair (rank : QuotaRank) : ℕᵒᵈ ×ₗ ℤ := toLex (OrderDual.toDual rank.bucket, rank.score)

theorem toPair_injective : Function.Injective toPair := by
  rintro ⟨b, s⟩ ⟨b', s'⟩ h
  simpa [toPair] using h

/-- `QuotaRank::cmp`. -/
instance : LinearOrder QuotaRank := LinearOrder.lift' toPair toPair_injective

theorem le_iff {a b : QuotaRank} :
    a ≤ b ↔ b.bucket < a.bucket ∨ a.bucket = b.bucket ∧ a.score ≤ b.score := by
  change toPair a ≤ toPair b ↔ _
  rw [Prod.Lex.le_iff]
  simp [toPair]

theorem lt_iff {a b : QuotaRank} :
    a < b ↔ b.bucket < a.bucket ∨ a.bucket = b.bucket ∧ a.score < b.score := by
  change toPair a < toPair b ↔ _
  rw [Prod.Lex.lt_iff]
  simp [toPair]

end QuotaRank

/-- The reset clock quantized by the tie band; an account without a window takes `u64::MAX`. -/
def QuotaState.bucket (state : QuotaState) (tieBandMs : ℕ) : ℕ :=
  match state.reset with
  | some window => window.msUntilReset / max tieBandMs 1
  | none => 2 ^ 64 - 1

/-- The weighted terms of the secondary score: affinity plus headroom minus pressure. -/
def QuotaState.weighted (state : QuotaState) (isLastUsed : Bool) (weights : QuotaWeights) : ℤ :=
  let affinity : ℤ := if isLastUsed then weights.affinity else 0
  let headroom : ℤ := (weights.headroom * state.rateHeadroomPermille / 1000 : ℕ)
  let pressure : ℤ := if state.ratePressured then weights.pressure else 0
  affinity + headroom - pressure

/-- Rank one candidate account, or drop it when a window allowance is spent. -/
def quotaRank (state : QuotaState) (isLastUsed : Bool) (insertionIndex : ℕ)
    (weights : QuotaWeights) (tieBandMs : ℕ) : Option QuotaRank :=
  if state.exhausted then none
  else some {
    bucket := state.bucket tieBandMs
    score := state.weighted isLastUsed weights - insertionIndex }

/-- With weights and an index that fit `u32` and a headroom that fits `u16`, every partial sum of
the score fits `i64`. -/
theorem QuotaState.weighted_in_range {state : QuotaState} {weights : QuotaWeights}
    (haffinity : weights.affinity ≤ u32Max) (hheadroom : weights.headroom ≤ u32Max)
    (hpressure : weights.pressure ≤ u32Max) (hpermille : state.rateHeadroomPermille ≤ 65535)
    (isLastUsed : Bool) {index : ℕ} (hindex : index ≤ u32Max) :
    -2 ^ 63 < state.weighted isLastUsed weights - index ∧
      state.weighted isLastUsed weights < 2 ^ 63 := by
  have hproduct : weights.headroom * state.rateHeadroomPermille ≤ u32Max * 65535 :=
    Nat.mul_le_mul hheadroom hpermille
  rw [weighted]
  simp only [u32Max] at *
  constructor
  all_goals split_ifs <;> omega

end TokenStation
