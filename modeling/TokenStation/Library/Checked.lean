import Mathlib.Algebra.Order.Ring.Int

/-!
# Checked integers

The result of an operation on machine integers is its exact result, if that lies in the range of
the type, and nothing otherwise.
-/

namespace Library

/-- The integer, if it lies in the range. -/
def checked (low high value : ℤ) : Option ℤ :=
  if low ≤ value ∧ value < high then some value else none

theorem checked_eq {low high value : ℤ} (h : low ≤ value ∧ value < high) :
    checked low high value = some value := if_pos h

theorem checked_eq_some {low high value result : ℤ} :
    checked low high value = some result ↔ (low ≤ value ∧ value < high) ∧ value = result := by
  rw [checked]
  split
  next h => exact ⟨fun hsome ↦ ⟨h, Option.some.inj hsome⟩, fun hboth ↦ congrArg some hboth.2⟩
  next h => exact iff_of_false (fun hnone ↦ nomatch hnone) fun hboth ↦ h hboth.1

/-- A 32-bit signed integer. -/
def i32 : ℤ → Option ℤ := checked (-2147483648) 2147483648

/-- A 64-bit signed integer. -/
def i64 : ℤ → Option ℤ := checked (-9223372036854775808) 9223372036854775808

/-- A 128-bit unsigned integer. -/
def u128 : ℤ → Option ℤ := checked 0 340282366920938463463374607431768211456

end Library
