import TokenStation.Client.PriceSync
import TokenStation.Protocol.Usage
import Mathlib.Algebra.Order.Field.Rat
import Mathlib.Tactic.Linarith

/-!
# What an exchange costs

Tokens fall into seven classes, each with its own rate. Five amounts are rounded down: the three
classes of cache writes are rounded together, so that splitting them by their time to live costs
nothing. The details of a usage can contradict its totals; what is billed then is bounded by the
totals.

A price that was validated is small enough for every product to fit; `exactCost_of_validated` says
that nothing overflows, and how far below the exact amount the cost can be.
-/

namespace TokenStation

open Library

def u128Max : ℕ := 2 ^ 128 - 1

def i64Max : ℕ := 2 ^ 63 - 1

/-- `a - b` on `u64`, which panics below zero. -/
def checkedMinus (a b : UInt64) : Outcome Empty UInt64 :=
  match Word.checkedSub a b with
  | some difference => .ok difference
  | none => .panic

theorem checkedMinus_of_le {a b : UInt64} (h : b ≤ a) : checkedMinus a b = .ok (a - b) := by
  rw [checkedMinus, Word.checkedSub, if_pos h]

/-- The cache writes of a usage, by their time to live. -/
structure CacheWrites where
  short : UInt64
  long : UInt64
  other : UInt64

/-- The classes of the cache writes: the details are subsets of the total. -/
def Usage.cacheWrites (usage : Usage) : Outcome Empty CacheWrites :=
  let short := min usage.cacheWrite5mTokens usage.cacheWriteTokens
  (checkedMinus usage.cacheWriteTokens short).bind fun rest ↦
    let long := min usage.cacheWrite1hTokens rest
    (checkedMinus rest long).bind fun other ↦ .ok { short, long, other }

namespace ModelPrice

/-- `u128::from(tokens) * u128::from(rate)`, which panics when it overflows. -/
def weighted (tokens : UInt64) (rate : ℕ) : Outcome Empty ℕ :=
  if tokens.toNat * rate ≤ u128Max then .ok (tokens.toNat * rate) else .panic

def per (tokens : UInt64) (rate : ℕ) : ℕ := satMul u128Max tokens.toNat rate / 1000000

def shortRate (price : ModelPrice) : ℕ := price.cacheWrite5mPerMtok.getD price.cacheWritePerMtok

def longRate (price : ModelPrice) : ℕ := price.cacheWrite1hPerMtok.getD price.cacheWritePerMtok

def reasoningRate (price : ModelPrice) : ℕ := price.reasoningPerMtok.getD price.outputPerMtok

/-- `ModelPrice::cost_micros` -/
def costMicros (price : ModelPrice) (usage : Usage) : Outcome Empty ℕ :=
  let freshInput := Word.satSub (Word.satSub usage.inputTokens usage.cacheReadTokens)
    usage.cacheWriteTokens
  let freshOutput := Word.satSub usage.outputTokens usage.reasoningTokens
  usage.cacheWrites.bind fun writes ↦
    (weighted writes.short price.shortRate).bind fun short ↦
    (weighted writes.long price.longRate).bind fun long ↦
    (weighted writes.other price.cacheWritePerMtok).bind fun other ↦
      let cacheCost := satAdd u128Max (satAdd u128Max short long) other / 1000000
      let total := satAdd u128Max (per freshInput price.inputPerMtok)
        (per freshOutput price.outputPerMtok)
      let total := satAdd u128Max total (per usage.cacheReadTokens price.cacheReadPerMtok)
      let total := satAdd u128Max total cacheCost
      let total := satAdd u128Max total (per usage.reasoningTokens price.reasoningRate)
      -- `i64::try_from(total).unwrap_or(i64::MAX)`
      .ok (clampTo i64Max total)

end ModelPrice

/-! ## The classes -/

namespace Usage

/-- The classes as they are billed. -/
def billedWrites (usage : Usage) : CacheWrites :=
  let short := min usage.cacheWrite5mTokens usage.cacheWriteTokens
  let long := min usage.cacheWrite1hTokens (usage.cacheWriteTokens - short)
  { short, long, other := usage.cacheWriteTokens - short - long }

theorem min_le_right (a b : UInt64) : min a b ≤ b := by
  rw [UInt64.le_iff_toNat_le, Word.toNat_min]
  exact Nat.min_le_right _ _

/-- No class is taken from less than there is. -/
theorem cacheWrites_eq (usage : Usage) : usage.cacheWrites = .ok usage.billedWrites := by
  rw [cacheWrites, checkedMinus_of_le (min_le_right _ _), Outcome.ok_bind]
  dsimp only
  rw [checkedMinus_of_le (min_le_right _ _), Outcome.ok_bind, billedWrites]

theorem billedWrites_sum (usage : Usage) :
    usage.billedWrites.short.toNat + usage.billedWrites.long.toNat +
      usage.billedWrites.other.toNat = usage.cacheWriteTokens.toNat := by
  rw [billedWrites]
  dsimp only
  rw [UInt64.toNat_sub_of_le _ _ (min_le_right _ _), UInt64.toNat_sub_of_le _ _ (min_le_right _ _),
    Word.toNat_min, Word.toNat_min, UInt64.toNat_sub_of_le _ _ (min_le_right _ _), Word.toNat_min]
  omega

/-- The totals of a usage contain its details. -/
structure Consistent (usage : Usage) : Prop where
  cache : usage.cacheReadTokens.toNat + usage.cacheWriteTokens.toNat ≤ usage.inputTokens.toNat
  reasoning : usage.reasoningTokens.toNat ≤ usage.outputTokens.toNat

end Usage

/-! ## Amounts -/

namespace ModelPrice

variable {price : ModelPrice}

/-- Every rate is below the ceiling. -/
structure Bounded (price : ModelPrice) : Prop where
  input : price.inputPerMtok ≤ maxPricePerMtok
  output : price.outputPerMtok ≤ maxPricePerMtok
  cacheRead : price.cacheReadPerMtok ≤ maxPricePerMtok
  cacheWrite : price.cacheWritePerMtok ≤ maxPricePerMtok
  short : price.shortRate ≤ maxPricePerMtok
  long : price.longRate ≤ maxPricePerMtok
  reasoning : price.reasoningRate ≤ maxPricePerMtok

theorem le_of_rates {rate : Option ℕ} {default : ℕ}
    (h : ∀ value, rate = some value → value ≤ maxPricePerMtok)
    (hdefault : default ≤ maxPricePerMtok) :
    rate.getD default ≤ maxPricePerMtok := by
  cases hrate : rate with
  | none => exact hdefault
  | some value => exact h value hrate

theorem bounded_of_validate (h : price.validate = .ok ()) : price.Bounded := by
  rw [validate] at h
  split at h
  · nomatch h
  next hnone =>
    have hall : ∀ rate ∈ price.rates, ∀ value, rate.2 = some value → value ≤ maxPricePerMtok := by
      intro rate hmem value hvalue
      have hrate := List.find?_eq_none.mp hnone rate hmem
      rw [hvalue, Option.any_some, decide_eq_true_iff, not_lt] at hrate
      exact hrate
    simp only [rates, List.forall_mem_cons] at hall
    obtain ⟨hinput, houtput, hread, hwrite, hshort, hlong, hreasoning, -⟩ := hall
    have hwrite := hwrite _ rfl
    have houtput := houtput _ rfl
    exact ⟨hinput _ rfl, houtput, hread _ rfl, hwrite, le_of_rates hshort hwrite,
      le_of_rates hlong hwrite, le_of_rates hreasoning houtput⟩

/-- The cost as a sum of whole micro-units, with no bound. -/
def micros (price : ModelPrice) (usage : Usage) : ℕ :=
  let freshInput := usage.inputTokens.toNat - usage.cacheReadTokens.toNat -
    usage.cacheWriteTokens.toNat
  let freshOutput := usage.outputTokens.toNat - usage.reasoningTokens.toNat
  let writes := usage.billedWrites
  freshInput * price.inputPerMtok / 1000000 + freshOutput * price.outputPerMtok / 1000000 +
    usage.cacheReadTokens.toNat * price.cacheReadPerMtok / 1000000 +
    (writes.short.toNat * price.shortRate + writes.long.toNat * price.longRate +
      writes.other.toNat * price.cacheWritePerMtok) / 1000000 +
    usage.reasoningTokens.toNat * price.reasoningRate / 1000000

/-- A product of a count and a rate is far below the top. -/
theorem weighted_lt (tokens : UInt64) {rate : ℕ} (h : rate ≤ maxPricePerMtok) :
    tokens.toNat * rate < 2 ^ 118 := by
  have htokens : tokens.toNat ≤ 2 ^ 64 := tokens.toNat_lt.le
  calc tokens.toNat * rate ≤ 2 ^ 64 * maxPricePerMtok := Nat.mul_le_mul htokens h
    _ < 2 ^ 118 := by decide

theorem weighted_eq (tokens : UInt64) {rate : ℕ} (h : rate ≤ maxPricePerMtok) :
    weighted tokens rate = .ok (tokens.toNat * rate) := by
  have hlt := weighted_lt tokens h
  rw [weighted, if_pos (by rw [u128Max]; omega)]

theorem per_eq (tokens : UInt64) {rate : ℕ} (h : rate ≤ maxPricePerMtok) :
    per tokens rate = tokens.toNat * rate / 1000000 := by
  have hlt := weighted_lt tokens h
  rw [per, satMul, Nat.min_eq_right (by rw [u128Max]; omega)]

/-- Nothing overflows, and nothing saturates but the result. -/
theorem costMicros_eq (h : price.Bounded) (usage : Usage) :
    price.costMicros usage = .ok (clampTo i64Max (price.micros usage)) := by
  rw [costMicros, Usage.cacheWrites_eq, Outcome.ok_bind, weighted_eq _ h.short, Outcome.ok_bind,
    weighted_eq _ h.long, Outcome.ok_bind, weighted_eq _ h.cacheWrite, Outcome.ok_bind,
    per_eq _ h.input, per_eq _ h.output, per_eq _ h.cacheRead, per_eq _ h.reasoning]
  have hinput := weighted_lt (Word.satSub (Word.satSub usage.inputTokens usage.cacheReadTokens)
    usage.cacheWriteTokens) h.input
  have houtput := weighted_lt (Word.satSub usage.outputTokens usage.reasoningTokens) h.output
  have hread := weighted_lt usage.cacheReadTokens h.cacheRead
  have hshort := weighted_lt usage.billedWrites.short h.short
  have hlong := weighted_lt usage.billedWrites.long h.long
  have hother := weighted_lt usage.billedWrites.other h.cacheWrite
  have hreasoning := weighted_lt usage.reasoningTokens h.reasoning
  rw [Word.toNat_satSub, Word.toNat_satSub] at hinput
  rw [Word.toNat_satSub] at houtput
  rw [micros, Word.toNat_satSub, Word.toNat_satSub, Word.toNat_satSub]
  refine congrArg Outcome.ok (congrArg (clampTo i64Max) ?_)
  simp only [satAdd, u128Max]
  omega

/-! ### The exact amount -/

/-- The tokens of a usage times their rates. -/
def exactMicros (price : ModelPrice) (usage : Usage) : ℚ :=
  let writes := usage.billedWrites
  ((usage.inputTokens.toNat - usage.cacheReadTokens.toNat - usage.cacheWriteTokens.toNat) *
      price.inputPerMtok +
    (usage.outputTokens.toNat - usage.reasoningTokens.toNat) * price.outputPerMtok +
    usage.cacheReadTokens.toNat * price.cacheReadPerMtok +
    (writes.short.toNat * price.shortRate + writes.long.toNat * price.longRate +
      writes.other.toNat * price.cacheWritePerMtok) +
    usage.reasoningTokens.toNat * price.reasoningRate) / 1000000

/-- An amount that is rounded down loses less than a micro-unit. -/
theorem floor_within (amount : ℕ) :
    ((amount / 1000000 : ℕ) : ℚ) ≤ amount / 1000000 ∧
      (amount : ℚ) / 1000000 < (amount / 1000000 : ℕ) + 1 := by
  have hlow : 1000000 * (amount / 1000000) ≤ amount := Nat.mul_div_le amount 1000000
  have hhigh : amount < 1000000 * (amount / 1000000 + 1) := by omega
  have hlow : (1000000 : ℚ) * (amount / 1000000 : ℕ) ≤ amount := by exact_mod_cast hlow
  have hhigh : (amount : ℚ) < 1000000 * ((amount / 1000000 : ℕ) + 1) := by exact_mod_cast hhigh
  constructor
  · rw [le_div_iff₀ (by norm_num)]
    linarith
  · rw [div_lt_iff₀ (by norm_num)]
    linarith

/-- Five amounts are rounded down. -/
theorem micros_within {usage : Usage} (h : usage.Consistent) :
    (price.micros usage : ℚ) ≤ price.exactMicros usage ∧
      price.exactMicros usage < price.micros usage + 5 := by
  have hinput : ((usage.inputTokens.toNat - usage.cacheReadTokens.toNat -
      usage.cacheWriteTokens.toNat : ℕ) : ℚ) = (usage.inputTokens.toNat : ℚ) -
        usage.cacheReadTokens.toNat - usage.cacheWriteTokens.toNat := by
    rw [Nat.sub_sub, Nat.cast_sub h.cache]
    push_cast
    ring
  have houtput : ((usage.outputTokens.toNat - usage.reasoningTokens.toNat : ℕ) : ℚ) =
      (usage.outputTokens.toNat : ℚ) - usage.reasoningTokens.toNat := Nat.cast_sub h.reasoning
  obtain ⟨hfresh, hfresh'⟩ := floor_within ((usage.inputTokens.toNat -
    usage.cacheReadTokens.toNat - usage.cacheWriteTokens.toNat) * price.inputPerMtok)
  obtain ⟨hanswer, hanswer'⟩ := floor_within
    ((usage.outputTokens.toNat - usage.reasoningTokens.toNat) * price.outputPerMtok)
  obtain ⟨hread, hread'⟩ := floor_within (usage.cacheReadTokens.toNat * price.cacheReadPerMtok)
  obtain ⟨hwrite, hwrite'⟩ := floor_within (usage.billedWrites.short.toNat * price.shortRate +
    usage.billedWrites.long.toNat * price.longRate +
    usage.billedWrites.other.toNat * price.cacheWritePerMtok)
  obtain ⟨hthought, hthought'⟩ := floor_within (usage.reasoningTokens.toNat * price.reasoningRate)
  rw [Nat.cast_mul, hinput] at hfresh hfresh'
  rw [Nat.cast_mul, houtput] at hanswer hanswer'
  push_cast at hread hread' hwrite hwrite' hthought hthought'
  rw [micros, exactMicros]
  push_cast
  constructor <;> linarith

/-! ### Higher rates -/

/-- No rate of the first price is above the second's; what is not given is the default. -/
structure RatesBelow (price price' : ModelPrice) : Prop where
  input : price.inputPerMtok ≤ price'.inputPerMtok
  output : price.outputPerMtok ≤ price'.outputPerMtok
  cacheRead : price.cacheReadPerMtok ≤ price'.cacheReadPerMtok
  cacheWrite : price.cacheWritePerMtok ≤ price'.cacheWritePerMtok
  short : price.shortRate ≤ price'.shortRate
  long : price.longRate ≤ price'.longRate
  reasoning : price.reasoningRate ≤ price'.reasoningRate

theorem micros_le_micros {price' : ModelPrice} (h : price.RatesBelow price') (usage : Usage) :
    price.micros usage ≤ price'.micros usage := by
  obtain ⟨hinput, houtput, hread, hwrite, hshort, hlong, hreasoning⟩ := h
  rw [micros, micros]
  gcongr

/-! ### The law -/

/-- What is asked of the cost of an exchange. -/
structure ExactCost (price : ModelPrice) : Prop where
  /-- No operation panics, and only the result saturates. -/
  computed : ∀ usage : Usage, price.costMicros usage = .ok (clampTo i64Max (price.micros usage))
  classes : ∀ (usage : Usage) (writes : CacheWrites), usage.cacheWrites = .ok writes →
    writes.short.toNat + writes.long.toNat + writes.other.toNat = usage.cacheWriteTokens.toNat
  /-- The cost is less than five micro-units below the exact amount, or it is the largest one. -/
  within : ∀ usage : Usage, usage.Consistent → ∀ cost, price.costMicros usage = .ok cost →
    (cost : ℚ) ≤ price.exactMicros usage ∧ price.exactMicros usage < cost + 5 ∨
      cost = i64Max ∧ (i64Max : ℚ) < price.exactMicros usage
  monotone : ∀ price', price'.validate = .ok () → price.RatesBelow price' → ∀ usage cost cost',
    price.costMicros usage = .ok cost → price'.costMicros usage = .ok cost' → cost ≤ cost'
  shortDefault : price.cacheWrite5mPerMtok = none → ∀ usage,
    { price with cacheWrite5mPerMtok := some price.cacheWritePerMtok }.costMicros usage =
      price.costMicros usage
  longDefault : price.cacheWrite1hPerMtok = none → ∀ usage,
    { price with cacheWrite1hPerMtok := some price.cacheWritePerMtok }.costMicros usage =
      price.costMicros usage
  reasoningDefault : price.reasoningPerMtok = none → ∀ usage,
    { price with reasoningPerMtok := some price.outputPerMtok }.costMicros usage =
      price.costMicros usage

/-- The cost of an exchange under a price that was validated. -/
theorem exactCost_of_validated (price : ModelPrice) (h : price.validate = .ok ()) :
    price.ExactCost := by
  have hbounded := bounded_of_validate h
  refine ⟨costMicros_eq hbounded, fun usage writes hwrites ↦ ?_, fun usage husage cost hcost ↦ ?_,
    fun price' h' hrates usage cost cost' hcost hcost' ↦ ?_, fun hnone usage ↦ ?_,
    fun hnone usage ↦ ?_, fun hnone usage ↦ ?_⟩
  · obtain rfl := Outcome.ok.inj ((Usage.cacheWrites_eq usage).symm.trans hwrites)
    exact usage.billedWrites_sum
  · obtain rfl := Outcome.ok.inj ((costMicros_eq hbounded usage).symm.trans hcost)
    obtain ⟨hlow, hhigh⟩ := @micros_within price usage husage
    by_cases hfits : price.micros usage ≤ i64Max
    · rw [clampTo, Nat.min_eq_left hfits]
      exact Or.inl ⟨hlow, hhigh⟩
    · have hover : (i64Max : ℚ) < price.micros usage := by exact_mod_cast not_le.mp hfits
      rw [clampTo, Nat.min_eq_right (not_le.mp hfits).le]
      exact Or.inr ⟨rfl, hover.trans_le hlow⟩
  · obtain rfl := Outcome.ok.inj ((costMicros_eq hbounded usage).symm.trans hcost)
    obtain rfl := Outcome.ok.inj
      ((costMicros_eq (bounded_of_validate h') usage).symm.trans hcost')
    exact min_le_min_right i64Max (micros_le_micros hrates usage)
  · simp only [costMicros, shortRate, longRate, reasoningRate, hnone, Option.getD_some,
      Option.getD_none]
  · simp only [costMicros, shortRate, longRate, reasoningRate, hnone, Option.getD_some,
      Option.getD_none]
  · simp only [costMicros, shortRate, longRate, reasoningRate, hnone, Option.getD_some,
      Option.getD_none]

/-- A price with a rate of its own for the longer cache. -/
def tieredPrice : ModelPrice where
  inputPerMtok := 3000000
  outputPerMtok := 15000000
  cacheReadPerMtok := 300000
  cacheWritePerMtok := 3750000
  cacheWrite1hPerMtok := some 6000000

theorem exactCost_of_validated_tiered : tieredPrice.ExactCost :=
  exactCost_of_validated tieredPrice (by decide +kernel)

end ModelPrice

end TokenStation
