import Mathlib.Algebra.BigOperators.Group.List.Basic
import Mathlib.Tactic.Common

/-!
# Saturating and checked machine arithmetic

Counters that stop at the largest representable value instead of wrapping. For a narrow counter
whose width nothing depends on, the value is a natural number and the bound is an argument. For
64-bit words the type is `UInt64`, since there the bound is part of what a comparison or a checked
successor means.

Words with saturating addition are a commutative monoid, so a saturating sum does not depend on the
order of its terms.
-/

namespace Library

/-! ## Natural numbers with a bound -/

/-- The largest value of an unsigned 32-bit integer. -/
def u32Max : ℕ := 4294967295

/-- `a.saturating_add(b)` for integers bounded by `top`. -/
def satAdd (top a b : ℕ) : ℕ := min top (a + b)

/-- `a.saturating_mul(b)` for integers bounded by `top`. -/
def satMul (top a b : ℕ) : ℕ := min top (a * b)

/-- A conversion to a narrower integer that clamps at `top`. -/
def clampTo (top n : ℕ) : ℕ := min n top

/-! ## 64-bit words -/

namespace Word

/-- `a.saturating_add(b)` on `u64`. -/
def satAdd (a b : UInt64) : UInt64 := UInt64.ofNat (min (2 ^ 64 - 1) (a.toNat + b.toNat))

/-- `a.checked_add(b)` on `u64`. -/
def checkedAdd (a b : UInt64) : Option UInt64 :=
  if a.toNat + b.toNat < 2 ^ 64 then some (a + b) else none

/-- `a.saturating_mul(b)` on `u64`. -/
def satMul (a b : UInt64) : UInt64 := UInt64.ofNat (min (2 ^ 64 - 1) (a.toNat * b.toNat))

/-- `a.saturating_sub(b)` on `u64`. -/
def satSub (a b : UInt64) : UInt64 := UInt64.ofNat (a.toNat - b.toNat)

/-- `a.checked_sub(b)` on `u64`. -/
def checkedSub (a b : UInt64) : Option UInt64 := if b ≤ a then some (a - b) else none

/-- `u64::try_from` of a wider integer. -/
def tryFrom (n : ℕ) : Option UInt64 := if n < 2 ^ 64 then some (UInt64.ofNat n) else none

@[simp] theorem toNat_satAdd (a b : UInt64) :
    (satAdd a b).toNat = min (2 ^ 64 - 1) (a.toNat + b.toNat) := by
  rw [satAdd, UInt64.toNat_ofNat']
  exact Nat.mod_eq_of_lt (by omega)

@[simp] theorem toNat_satMul (a b : UInt64) :
    (satMul a b).toNat = min (2 ^ 64 - 1) (a.toNat * b.toNat) := by
  rw [satMul, UInt64.toNat_ofNat']
  exact Nat.mod_eq_of_lt (by omega)

@[simp] theorem toNat_satSub (a b : UInt64) : (satSub a b).toNat = a.toNat - b.toNat := by
  have ha : a.toNat < 2 ^ 64 := a.toNat_lt
  rw [satSub, UInt64.toNat_ofNat']
  exact Nat.mod_eq_of_lt (by omega)

@[simp] theorem toNat_min (a b : UInt64) : (min a b).toNat = min a.toNat b.toNat := by
  change (if a ≤ b then a else b).toNat = min a.toNat b.toNat
  split
  next h => exact (Nat.min_eq_left (UInt64.le_iff_toNat_le.mp h)).symm
  next h =>
    have hlt := UInt64.lt_iff_toNat_lt.mp (UInt64.not_le.mp h)
    exact (Nat.min_eq_right (Nat.le_of_lt hlt)).symm

/-- A value that fits is taken as it is. -/
theorem toNat_getD_tryFrom {n : ℕ} (h : n < 2 ^ 64) (default : UInt64) :
    ((tryFrom n).getD default).toNat = n := by
  rw [tryFrom, if_pos h, Option.getD_some, UInt64.toNat_ofNat', Nat.mod_eq_of_lt h]

/-- A checked successor exists exactly below the top word, and is then the successor. -/
theorem checkedAdd_one_eq_some {a b : UInt64} :
    checkedAdd a 1 = some b ↔ b.toNat = a.toNat + 1 := by
  have hb : b.toNat < 2 ^ 64 := b.toNat_lt
  have hone : (1 : UInt64).toNat = 1 := rfl
  rw [checkedAdd, hone]
  constructor
  · intro h
    split at h
    next hlt =>
      obtain rfl := Option.some.inj h
      rw [UInt64.toNat_add, hone, Nat.mod_eq_of_lt hlt]
    next => exact absurd h (by simp)
  · intro h
    rw [if_pos (by omega), Option.some.injEq, ← UInt64.toNat_inj, UInt64.toNat_add, hone,
      Nat.mod_eq_of_lt (by omega), h]

theorem satAdd_zero (a : UInt64) : satAdd a 0 = a := by
  have ha : a.toNat < 2 ^ 64 := a.toNat_lt
  rw [← UInt64.toNat_inj, toNat_satAdd]
  simp only [UInt64.toNat_zero]
  omega

theorem zero_satAdd (a : UInt64) : satAdd 0 a = a := by
  have ha : a.toNat < 2 ^ 64 := a.toNat_lt
  rw [← UInt64.toNat_inj, toNat_satAdd]
  simp only [UInt64.toNat_zero]
  omega

theorem satAdd_comm (a b : UInt64) : satAdd a b = satAdd b a := by
  rw [satAdd, satAdd, add_comm]

theorem satAdd_assoc (a b c : UInt64) : satAdd (satAdd a b) c = satAdd a (satAdd b c) := by
  rw [← UInt64.toNat_inj]
  simp only [toNat_satAdd]
  omega

/-! ### Saturating sums -/

/-- The saturating sum of a list of words. -/
def satSum (l : List UInt64) : UInt64 := l.foldr satAdd 0

@[simp] theorem satSum_cons (a : UInt64) (l : List UInt64) :
    satSum (a :: l) = satAdd a (satSum l) := rfl

/-! ### The saturating monoid -/

/-- A word whose addition saturates. -/
@[ext] structure Sat where
  word : UInt64

instance : Zero Sat := ⟨⟨0⟩⟩

instance : Add Sat := ⟨fun a b ↦ ⟨satAdd a.word b.word⟩⟩

instance : AddCommMonoid Sat where
  add_assoc a b c := Sat.ext (satAdd_assoc a.word b.word c.word)
  zero_add a := Sat.ext (zero_satAdd a.word)
  add_zero a := Sat.ext (satAdd_zero a.word)
  add_comm a b := Sat.ext (satAdd_comm a.word b.word)
  nsmul := nsmulRec

@[simp] theorem Sat.word_add (a b : Sat) : (a + b).word = satAdd a.word b.word := rfl

/-- The sum in the saturating monoid is the saturating sum. -/
theorem Sat.word_sum (l : List UInt64) : (l.map Sat.mk).sum.word = satSum l := by
  induction l with
  | nil => rfl
  | cons a l ih => rw [List.map_cons, List.sum_cons, Sat.word_add, ih, satSum_cons]

end Word

end Library
