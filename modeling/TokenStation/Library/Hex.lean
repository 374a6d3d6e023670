import Mathlib.Tactic.Common

/-!
# Lower-case hexadecimal

Bytes are written as two lower-case digits each, and read back with every other spelling refused.
-/

namespace Library

namespace Hex

/-- A decimal digit or one of `a` to `f`. -/
def isDigit (c : Char) : Bool := c.isDigit || ('a' ≤ c && c ≤ 'f')

/-- The digit of a number below sixteen. -/
def digit (value : ℕ) : Char :=
  if value < 10 then Char.ofNat ('0'.toNat + value) else Char.ofNat ('a'.toNat + (value - 10))

/-- What a digit stands for. -/
def value (c : Char) : ℕ :=
  if c.isDigit then c.toNat - '0'.toNat else c.toNat - 'a'.toNat + 10

/-- The digits of a byte, high half first. -/
def pair (byte : UInt8) : List Char := [digit (byte.toNat / 16), digit (byte.toNat % 16)]

def encode (bytes : List UInt8) : List Char := bytes.flatMap pair

/-- Read digits two at a time. -/
def decode : List Char → Option (List UInt8)
  | [] => some []
  | high :: low :: rest =>
    if isDigit high && isDigit low then
      (decode rest).map (UInt8.ofNat (value high * 16 + value low) :: ·)
    else none
  | [_] => none

theorem digit_spec : ∀ n < 16, isDigit (digit n) = true ∧ value (digit n) = n := by
  decide

theorem decode_encode (bytes : List UInt8) : decode (encode bytes) = some bytes := by
  induction bytes with
  | nil => rfl
  | cons byte bytes ih =>
    have hbyte := byte.toNat_lt
    obtain ⟨hhigh, hhighValue⟩ := digit_spec (byte.toNat / 16) (by omega)
    obtain ⟨hlow, hlowValue⟩ := digit_spec (byte.toNat % 16) (by omega)
    have hsame : UInt8.ofNat (byte.toNat / 16 * 16 + byte.toNat % 16) = byte := by
      rw [Nat.div_add_mod', UInt8.ofNat_toNat]
    have hstep : encode (byte :: bytes) =
        digit (byte.toNat / 16) :: digit (byte.toNat % 16) :: encode bytes := rfl
    rw [hstep, decode, hhigh, hlow, hhighValue, hlowValue, ih, hsame]
    rfl

theorem isDigit_of_mem_encode {bytes : List UInt8} {c : Char} (h : c ∈ encode bytes) :
    isDigit c = true := by
  obtain ⟨byte, -, hc⟩ := List.mem_flatMap.mp h
  have hbyte := byte.toNat_lt
  simp only [pair, List.mem_cons, List.not_mem_nil, or_false] at hc
  rcases hc with rfl | rfl
  · exact (digit_spec _ (by omega)).1
  · exact (digit_spec _ (by omega)).1

end Hex

end Library
