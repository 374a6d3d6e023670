import Mathlib.Algebra.GroupWithZero.Nat
import TokenStation.Protocol.Error

/-!
# Reading JSON values

The accessors of a parsed document: members by name, and values of a wanted type.
-/

namespace TokenStation

namespace JsonValue

/-- The member of an object. -/
def member (name : String) : JsonValue → Option JsonValue
  | object members => (members.find? fun entry ↦ entry.1 == name).map Prod.snd
  | _ => none

def isObject : JsonValue → Bool
  | object _ => true
  | _ => false

def isNull : JsonValue → Bool
  | null => true
  | _ => false

def asStr : JsonValue → Option String
  | string text => some text
  | _ => none

/-- The number that decimal digits write. -/
def decimal (digits : List Char) : Option ℕ :=
  if digits.isEmpty || digits.any fun c ↦ !c.isDigit then none
  else some (digits.foldl (fun n c ↦ 10 * n + (c.toNat - '0'.toNat)) 0)

/-- `Value::as_u64`: a literal with a sign, a point or an exponent is not a count. -/
def asU64 : JsonValue → Option UInt64
  | number literal =>
    (decimal literal.toList).bind fun n ↦ if n < 2 ^ 64 then some (UInt64.ofNat n) else none
  | _ => none

theorem decimal_toDigits (n : ℕ) : decimal (Nat.toDigits 10 n) = some n := by
  have hdigits : ((Nat.toDigits 10 n).any fun c ↦ !c.isDigit) = false := by
    rw [List.any_eq_false]
    intro c hc
    rw [Nat.isDigit_of_mem_toDigits (by decide) (by decide) hc]
    exact Bool.false_ne_true
  rw [decimal, List.isEmpty_eq_false_iff.mpr Nat.toDigits_ne_nil, hdigits]
  exact congrArg some (Nat.ofDigitChars_toDigits (by decide) (by decide))

/-- A count that is written is read as itself. -/
theorem asU64_number {n : ℕ} (h : n < 2 ^ 64) :
    asU64 (.number (toString n)) = some (UInt64.ofNat n) := by
  have htext : (toString n).toList = Nat.toDigits 10 n := Nat.toList_repr
  rw [asU64, htext, decimal_toDigits, Option.bind_some, if_pos h]

end JsonValue

end TokenStation
