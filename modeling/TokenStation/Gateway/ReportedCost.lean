import Mathlib.Data.Rat.Floor
import Mathlib.Tactic.FieldSimp
import Mathlib.Tactic.Positivity
import Mathlib.Tactic.Ring
import TokenStation.Library.Checked
import TokenStation.Protocol.Text

/-!
# The cost a provider reports

A provider reports its charge as a JSON number or as a string, and `usdMicros` turns the text into
millionths of a dollar. What is right is said of the text alone: `Spells` is the grammar with its
value, and the rounding is `roundHalfUp`. The code agrees with it on every text but one kind, a
point with no digit behind it, which it reads as if the point were not there.
-/

namespace TokenStation

open Library

/-! ## The code -/

/-- `str::parse::<i32>`. -/
def parseI32 (text : List Char) : Option ℤ :=
  let value : Option ℤ := match stripPrefix ['-'] text with
    | some digits => (parseDigits digits).map fun n : ℕ ↦ -(n : ℤ)
    | none => (parseDigits ((stripPrefix ['+'] text).getD text)).map fun n : ℕ ↦ (n : ℤ)
  value.bind i32

def isExponentMark (c : Char) : Bool := c == 'e' || c == 'E'

def isPoint (c : Char) : Bool := c == '.'

/-- The digits times a power of ten, rounded where the power is negative. -/
def scaledMicros (digits scale : ℤ) : Option ℤ :=
  if 0 ≤ scale then
    (u128 (10 ^ scale.toNat)).bind fun power ↦ (u128 (digits * power)).bind i64
  else
    (u128 (10 ^ scale.natAbs)).bind fun divisor ↦
      (u128 (digits + divisor / 2)).bind fun sum ↦ i64 (sum / divisor)

/-- `usd_micros` of the digits, of which the last `places` stand behind the point. -/
def digitsMicros (digits places exponent : ℤ) : Option ℤ :=
  (u128 digits).bind fun digits ↦
    (i32 (6 + exponent)).bind fun scale ↦
      (i32 (scale - places)).bind fun scale ↦ scaledMicros digits scale

/-- `usd_micros` of the mantissa and the exponent. A missing fraction is an empty one. -/
def mantissaMicros (mantissa : List Char) (exponent : ℤ) : Option ℤ :=
  let (whole, fraction) := (splitOnce isPoint mantissa).getD (mantissa, [])
  if whole.isEmpty || !(whole ++ fraction).all Char.isDigit then none
  else
    (parseDigits (whole ++ fraction)).bind fun digits ↦
      digitsMicros digits fraction.length exponent

/-- `usd_micros` of the decoded text. -/
def textMicros (text : List Char) : Option ℤ :=
  if (String.ofList text).utf8ByteSize > 64 then none
  else
    match splitOnce isExponentMark text with
    | none => mantissaMicros text 0
    | some (mantissa, exponent) => (parseI32 exponent).bind (mantissaMicros mantissa)

/-- The text of a raw JSON value, by the JSON library's decoding of a string. -/
def costText (fromStr : List Char → Option (List Char)) (raw : List Char) : Option (List Char) :=
  if raw.head? = some '"' then fromStr raw else some raw

def usdMicros (fromStr : List Char → Option (List Char)) (raw : List Char) : Option ℤ :=
  (costText fromStr raw).bind textMicros

/-! ## The grammar -/

/-- A nonempty text of digits. -/
def Digits (text : List Char) : Prop := text ≠ [] ∧ ∀ c ∈ text, c.isDigit = true

/-- Digits that may have a sign. -/
inductive SignedDigits : List Char → ℤ → Prop
  | plain {digits : List Char} (h : Digits digits) : SignedDigits digits (decimalValue digits)
  | plus {digits : List Char} (h : Digits digits) :
    SignedDigits ('+' :: digits) (decimalValue digits)
  | minus {digits : List Char} (h : Digits digits) :
    SignedDigits ('-' :: digits) (-decimalValue digits)

/-- `[.digits]`, and its digits. -/
inductive FractionText : List Char → List Char → Prop
  | none : FractionText [] []
  | point {digits : List Char} (h : Digits digits) : FractionText ('.' :: digits) digits

/-- `[e[+-]digits]`, and its value. -/
inductive ExponentText : List Char → ℤ → Prop
  | none : ExponentText [] 0
  | mark {c : Char} {text : List Char} {value : ℤ} (hc : isExponentMark c = true)
    (h : SignedDigits text value) : ExponentText (c :: text) value

/-- The text is `digits[.digits][e[+-]digits]`, and this is the number that it spells. -/
inductive Spells : List Char → ℚ → Prop
  | intro {whole fraction digits tail : List Char} {exponent : ℤ} (hwhole : Digits whole)
    (hfraction : FractionText fraction digits) (htail : ExponentText tail exponent) :
    Spells (whole ++ fraction ++ tail)
      ((decimalValue (whole ++ digits) : ℚ) * 10 ^ (exponent - digits.length))

/-- The nearest integer, and the greater one of two that are equally near. -/
def roundHalfUp (x : ℚ) : ℤ := ⌊x + 1 / 2⌋

/-! ## The arithmetic -/

/-- What the scaling gives is the product rounded half up. -/
theorem roundHalfUp_scaledMicros {digits scale micros : ℤ}
    (h : scaledMicros digits scale = some micros) :
    roundHalfUp ((digits : ℚ) * 10 ^ scale) = micros := by
  rw [scaledMicros] at h
  split at h
  next hscale =>
    obtain ⟨power, hpower, h⟩ := Option.bind_eq_some_iff.mp h
    obtain ⟨product, hproduct, h⟩ := Option.bind_eq_some_iff.mp h
    obtain ⟨-, rfl⟩ := checked_eq_some.mp hpower
    obtain ⟨-, rfl⟩ := checked_eq_some.mp hproduct
    obtain ⟨-, rfl⟩ := checked_eq_some.mp h
    obtain ⟨n, rfl⟩ := Int.eq_ofNat_of_zero_le hscale
    have hproduct : (digits : ℚ) * 10 ^ (n : ℤ) = ((digits * 10 ^ n : ℤ) : ℚ) := by
      rw [zpow_natCast]
      push_cast
      rfl
    have hhalf : ⌊(1 / 2 : ℚ)⌋ = 0 := by norm_num
    rw [roundHalfUp, hproduct, Int.floor_intCast_add, hhalf, add_zero, Int.toNat_natCast]
  next hscale =>
    obtain ⟨divisor, hdivisor, h⟩ := Option.bind_eq_some_iff.mp h
    obtain ⟨sum, hsum, h⟩ := Option.bind_eq_some_iff.mp h
    obtain ⟨-, rfl⟩ := checked_eq_some.mp hdivisor
    obtain ⟨-, rfl⟩ := checked_eq_some.mp hsum
    obtain ⟨-, rfl⟩ := checked_eq_some.mp h
    obtain ⟨k, rfl⟩ : ∃ k : ℕ, scale = -((k + 1 : ℕ) : ℤ) := ⟨scale.natAbs - 1, by omega⟩
    -- the divisor is even, so that its half is added without a remainder
    have hhalf : (10 ^ (k + 1) : ℤ) / 2 = 5 * 10 ^ k := by
      rw [pow_succ, show (10 ^ k * 10 : ℤ) = 2 * (5 * 10 ^ k) by ring,
        Int.mul_ediv_cancel_left _ two_ne_zero]
    have hsum : (digits : ℚ) * 10 ^ (-((k + 1 : ℕ) : ℤ)) + 1 / 2 =
        ((digits + 5 * 10 ^ k : ℤ) : ℚ) / ((10 ^ (k + 1) : ℕ) : ℚ) := by
      have hpos : (10 : ℚ) ^ k ≠ 0 := by positivity
      rw [zpow_neg, zpow_natCast]
      push_cast
      rw [pow_succ]
      field_simp
      ring
    rw [roundHalfUp, hsum, Rat.floor_intCast_div_natCast, Int.natAbs_neg, Int.natAbs_natCast, hhalf]
    push_cast
    rfl

/-- The digits with their point and exponent, in millionths. -/
theorem roundHalfUp_digitsMicros {digits places exponent micros : ℤ}
    (h : digitsMicros digits places exponent = some micros) :
    roundHalfUp ((digits : ℚ) * 10 ^ (exponent - places) * 10 ^ 6) = micros := by
  obtain ⟨value, hvalue, h⟩ := Option.bind_eq_some_iff.mp h
  obtain ⟨-, rfl⟩ := checked_eq_some.mp hvalue
  obtain ⟨scale, hscale, h⟩ := Option.bind_eq_some_iff.mp h
  obtain ⟨-, rfl⟩ := checked_eq_some.mp hscale
  obtain ⟨scale, hscale, h⟩ := Option.bind_eq_some_iff.mp h
  obtain ⟨-, rfl⟩ := checked_eq_some.mp hscale
  have hpower : (10 : ℚ) ^ (6 + exponent - places) = 10 ^ (exponent - places) * 10 ^ 6 := by
    rw [show 6 + exponent - places = exponent - places + (6 : ℕ) by push_cast; ring,
      zpow_add₀ (by norm_num), zpow_natCast]
  rw [mul_assoc, ← hpower]
  exact roundHalfUp_scaledMicros h

/-- What is read is a number of 64 bits. -/
theorem digitsMicros_lt {digits places exponent micros : ℤ}
    (h : digitsMicros digits places exponent = some micros) : micros < 9223372036854775808 := by
  obtain ⟨_, -, h⟩ := Option.bind_eq_some_iff.mp h
  obtain ⟨_, -, h⟩ := Option.bind_eq_some_iff.mp h
  obtain ⟨_, -, h⟩ := Option.bind_eq_some_iff.mp h
  rw [scaledMicros] at h
  split at h
  all_goals
    obtain ⟨_, -, h⟩ := Option.bind_eq_some_iff.mp h
    obtain ⟨_, -, h⟩ := Option.bind_eq_some_iff.mp h
    obtain ⟨⟨-, hlt⟩, rfl⟩ := checked_eq_some.mp h
    exact hlt

/-- The digits and the power of ten that they are scaled by fit the integers of the code. -/
structure FitsMicros (digits exponent : ℤ) : Prop where
  digits_lt : digits < 2 ^ 128
  exponent_mem : -2 ^ 31 ≤ exponent ∧ 6 + exponent < 2 ^ 31
  /-- A product has 64 bits, and its power of ten 128. -/
  product : 0 ≤ 6 + exponent →
    (10 : ℤ) ^ (6 + exponent).toNat < 2 ^ 128 ∧ digits * 10 ^ (6 + exponent).toNat < 2 ^ 63
  /-- A quotient has 64 bits, and what is divided and the divisor 128. -/
  quotient : 6 + exponent < 0 →
    (10 : ℤ) ^ (6 + exponent).natAbs < 2 ^ 128 ∧
      digits + 10 ^ (6 + exponent).natAbs / 2 < 2 ^ 128 ∧
      (digits + 10 ^ (6 + exponent).natAbs / 2) / 10 ^ (6 + exponent).natAbs < 2 ^ 63

theorem exists_digitsMicros_iff {digits exponent : ℤ} (hdigits : 0 ≤ digits) :
    (∃ micros, (i32 exponent).bind (digitsMicros digits 0) = some micros) ↔
      FitsMicros digits exponent := by
  constructor
  · rintro ⟨micros, h⟩
    obtain ⟨_, hexponent, h⟩ := Option.bind_eq_some_iff.mp h
    obtain ⟨hexponentRange, rfl⟩ := checked_eq_some.mp hexponent
    obtain ⟨_, hvalue, h⟩ := Option.bind_eq_some_iff.mp h
    obtain ⟨hvalueRange, rfl⟩ := checked_eq_some.mp hvalue
    obtain ⟨_, hscale, h⟩ := Option.bind_eq_some_iff.mp h
    obtain ⟨hscaleRange, rfl⟩ := checked_eq_some.mp hscale
    obtain ⟨_, hplaces, h⟩ := Option.bind_eq_some_iff.mp h
    obtain ⟨-, rfl⟩ := checked_eq_some.mp hplaces
    rw [sub_zero, scaledMicros] at h
    refine ⟨by omega, by omega, ?_, ?_⟩
    · intro hpositive
      rw [if_pos hpositive] at h
      obtain ⟨_, hpower, h⟩ := Option.bind_eq_some_iff.mp h
      obtain ⟨hpowerRange, rfl⟩ := checked_eq_some.mp hpower
      obtain ⟨_, hproduct, h⟩ := Option.bind_eq_some_iff.mp h
      obtain ⟨-, rfl⟩ := checked_eq_some.mp hproduct
      obtain ⟨hlast, -⟩ := checked_eq_some.mp h
      exact ⟨hpowerRange.2, hlast.2⟩
    · intro hnegative
      rw [if_neg (not_le.mpr hnegative)] at h
      obtain ⟨_, hpower, h⟩ := Option.bind_eq_some_iff.mp h
      obtain ⟨hpowerRange, rfl⟩ := checked_eq_some.mp hpower
      obtain ⟨_, hsum, h⟩ := Option.bind_eq_some_iff.mp h
      obtain ⟨hsumRange, rfl⟩ := checked_eq_some.mp hsum
      obtain ⟨hlast, -⟩ := checked_eq_some.mp h
      exact ⟨hpowerRange.2, hsumRange.2, hlast.2⟩
  · rintro ⟨hvalue, ⟨hlow, hhigh⟩, hproduct, hquotient⟩
    have hexponent : i32 exponent = some exponent := checked_eq (by omega)
    have hdigits' : u128 digits = some digits := checked_eq ⟨hdigits, hvalue⟩
    have hscale : i32 (6 + exponent) = some (6 + exponent) := checked_eq (by omega)
    rw [hexponent, Option.bind_some, digitsMicros, hdigits', Option.bind_some, hscale,
      Option.bind_some, sub_zero, hscale, Option.bind_some, scaledMicros]
    split
    next hpositive =>
      obtain ⟨hpower, hlast⟩ := hproduct hpositive
      have hpos : (0 : ℤ) ≤ 10 ^ (6 + exponent).toNat := by positivity
      have hnonneg := mul_nonneg hdigits hpos
      have hproduct' : u128 (digits * 10 ^ (6 + exponent).toNat) =
          some (digits * 10 ^ (6 + exponent).toNat) :=
        checked_eq ⟨hnonneg, hlast.trans (by norm_num)⟩
      have hpower' : u128 (10 ^ (6 + exponent).toNat) = some (10 ^ (6 + exponent).toNat) :=
        checked_eq ⟨hpos, hpower⟩
      rw [hpower', Option.bind_some, hproduct', Option.bind_some]
      exact ⟨_, checked_eq ⟨hnonneg.trans' (by norm_num), hlast⟩⟩
    next hnegative =>
      obtain ⟨hpower, hsum, hlast⟩ := hquotient (not_le.mp hnegative)
      have hpos : (0 : ℤ) ≤ 10 ^ (6 + exponent).natAbs := by positivity
      have hnonneg : 0 ≤ digits + (10 : ℤ) ^ (6 + exponent).natAbs / 2 := by positivity
      have hquotient' := Int.ediv_nonneg hnonneg hpos
      have hpower' : u128 (10 ^ (6 + exponent).natAbs) = some (10 ^ (6 + exponent).natAbs) :=
        checked_eq ⟨hpos, hpower⟩
      have hsum' : u128 (digits + 10 ^ (6 + exponent).natAbs / 2) =
          some (digits + 10 ^ (6 + exponent).natAbs / 2) := checked_eq ⟨hnonneg, hsum⟩
      rw [hpower', Option.bind_some, hsum', Option.bind_some]
      exact ⟨_, checked_eq ⟨hquotient'.trans' (by norm_num), hlast⟩⟩

/-! ## The parser on texts of the grammar -/

theorem not_isDigit_of_mark {c : Char} (h : isExponentMark c = true) : c.isDigit = false := by
  rw [isExponentMark, Bool.or_eq_true, beq_iff_eq, beq_iff_eq] at h
  rcases h with rfl | rfl <;> rfl

theorem stripPrefix_digits {digits : List Char} (h : Digits digits) {c : Char}
    (hc : c.isDigit = false) : stripPrefix [c] digits = none := by
  obtain ⟨first, rest, rfl⟩ := List.exists_cons_of_ne_nil h.1
  have hne : c ≠ first := by
    rintro rfl
    rw [h.2 c List.mem_cons_self] at hc
    nomatch hc
  simp [stripPrefix, hne]

theorem parseDigits_of_digits {digits : List Char} (h : Digits digits) :
    parseDigits digits = some (decimalValue digits) := parseDigits_eq h.1 h.2

/-- Digits with a sign are read as their value, if it is in range. -/
theorem parseI32_signed {text : List Char} {value : ℤ} (h : SignedDigits text value) :
    parseI32 text = i32 value := by
  unfold parseI32
  rcases h with h | @⟨digits, h⟩ | @⟨digits, h⟩
  · rw [stripPrefix_digits h rfl, stripPrefix_digits h rfl, Option.getD_none]
    dsimp only
    rw [parseDigits_of_digits h, Option.map_some, Option.bind_some]
  · have hminus : stripPrefix ['-'] ('+' :: digits) = none := by simp [stripPrefix]
    have hplus : stripPrefix ['+'] ('+' :: digits) = some digits := stripPrefix_append ['+'] digits
    rw [hminus, hplus, Option.getD_some]
    dsimp only
    rw [parseDigits_of_digits h, Option.map_some, Option.bind_some]
  · have hminus : stripPrefix ['-'] ('-' :: digits) = some digits := stripPrefix_append ['-'] digits
    rw [hminus]
    dsimp only
    rw [parseDigits_of_digits h, Option.map_some, Option.bind_some]

/-- Whatever is read as an exponent is digits with a sign. -/
theorem signedDigits_of_parseI32 {text : List Char} {value : ℤ} (h : parseI32 text = some value) :
    SignedDigits text value := by
  have hread {digits : List Char} {n : ℕ} (hn : parseDigits digits = some n) :
      Digits digits ∧ n = decimalValue digits := by
    obtain ⟨hne, hall, hvalue⟩ := parseDigits_eq_some hn
    exact ⟨⟨hne, hall⟩, hvalue⟩
  obtain ⟨read, hread', hrange⟩ := Option.bind_eq_some_iff.mp h
  obtain ⟨-, rfl⟩ := checked_eq_some.mp hrange
  split at hread'
  next digits hminus =>
    obtain ⟨n, hn, rfl⟩ := Option.map_eq_some_iff.mp hread'
    obtain ⟨hdigits, rfl⟩ := hread hn
    rw [stripPrefix_eq_some hminus]
    exact .minus hdigits
  · obtain ⟨n, hn, rfl⟩ := Option.map_eq_some_iff.mp hread'
    rcases hplus : stripPrefix ['+'] text with - | digits
    · rw [hplus, Option.getD_none] at hn
      obtain ⟨hdigits, rfl⟩ := hread hn
      exact .plain hdigits
    · rw [hplus, Option.getD_some] at hn
      obtain ⟨hdigits, rfl⟩ := hread hn
      rw [stripPrefix_eq_some hplus]
      exact .plus hdigits

/-- A mantissa of digits with a point, or without one. -/
theorem mantissaMicros_eq {whole fraction digits : List Char} (hwhole : Digits whole)
    (hfraction : fraction = [] ∧ digits = [] ∨ fraction = '.' :: digits)
    (hdigits : ∀ c ∈ digits, c.isDigit = true) (exponent : ℤ) :
    mantissaMicros (whole ++ fraction) exponent =
      digitsMicros (decimalValue (whole ++ digits)) digits.length exponent := by
  have hpoint {text : List Char} (h : ∀ c ∈ text, c.isDigit = true) :
      ∀ c ∈ text, isPoint c = false := by
    intro c hc
    refine beq_eq_false_iff_ne.mpr ?_
    rintro rfl
    nomatch h _ hc
  have hsplit : (splitOnce isPoint (whole ++ fraction)).getD (whole ++ fraction, []) =
      (whole, digits) := by
    rcases hfraction with ⟨rfl, rfl⟩ | rfl
    · rw [List.append_nil, splitOnce_eq_none.mpr (hpoint hwhole.2), Option.getD_none]
    · rw [splitOnce_append (hpoint hwhole.2) rfl, Option.getD_some]
  have hall : ∀ c ∈ whole ++ digits, c.isDigit = true := fun c hc ↦
    (List.mem_append.mp hc).elim (hwhole.2 c) (hdigits c)
  have hne : whole ++ digits ≠ [] := List.append_ne_nil_of_left_ne_nil hwhole.1 digits
  have haccept : ¬(whole.isEmpty || !(whole ++ digits).all Char.isDigit) = true := by
    rw [List.all_eq_true.mpr hall, Bool.not_true, Bool.or_false, List.isEmpty_iff]
    exact hwhole.1
  rw [mantissaMicros, hsplit]
  dsimp only
  rw [if_neg haccept, parseDigits_eq hne hall, Option.bind_some]

/-- Whatever mantissa is read is one of digits, with a point or without one. -/
theorem of_mantissaMicros {mantissa : List Char} {exponent micros : ℤ}
    (h : mantissaMicros mantissa exponent = some micros) :
    ∃ whole fraction digits, mantissa = whole ++ fraction ∧ Digits whole ∧
      (fraction = [] ∧ digits = [] ∨ fraction = '.' :: digits) ∧
      ∀ c ∈ digits, c.isDigit = true := by
  obtain ⟨whole, digits, hsplit, htext⟩ : ∃ whole digits,
      (splitOnce isPoint mantissa).getD (mantissa, []) = (whole, digits) ∧
      (mantissa = whole ∧ digits = [] ∨ mantissa = whole ++ '.' :: digits) := by
    rcases hfound : splitOnce isPoint mantissa with - | ⟨whole, digits⟩
    · exact ⟨mantissa, [], rfl, .inl ⟨rfl, rfl⟩⟩
    · obtain ⟨c, hc, htext⟩ := splitOnce_eq_some hfound
      obtain rfl := beq_iff_eq.mp hc
      exact ⟨whole, digits, rfl, .inr htext⟩
  rw [mantissaMicros, hsplit] at h
  dsimp only at h
  split at h
  · nomatch h
  next haccept =>
    rw [Bool.not_eq_true, Bool.or_eq_false_iff, Bool.not_eq_false', List.all_eq_true] at haccept
    obtain ⟨hempty, hall⟩ := haccept
    have hwhole : Digits whole := by
      refine ⟨?_, fun c hc ↦ hall c (List.mem_append_left _ hc)⟩
      rintro rfl
      nomatch hempty
    have hdigits : ∀ c ∈ digits, c.isDigit = true := fun c hc ↦
      hall c (List.mem_append_right _ hc)
    rcases htext with ⟨rfl, rfl⟩ | rfl
    · exact ⟨mantissa, [], [], (List.append_nil _).symm, hwhole, .inl ⟨rfl, rfl⟩, hdigits⟩
    · exact ⟨whole, _, digits, rfl, hwhole, .inr rfl, hdigits⟩

/-- A text whose mantissa has no mark of an exponent is split there. -/
theorem textMicros_eq {mantissa tail : List Char} {exponent : ℤ}
    (hmantissa : ∀ c ∈ mantissa, isExponentMark c = false) (htail : ExponentText tail exponent) :
    textMicros (mantissa ++ tail) =
      if (String.ofList (mantissa ++ tail)).utf8ByteSize > 64 then none
      else (i32 exponent).bind (mantissaMicros mantissa) := by
  rw [textMicros]
  congr 1
  rcases htail with - | @⟨c, text, value, hc, h⟩
  · rw [List.append_nil, splitOnce_eq_none.mpr hmantissa]
    rfl
  · rw [splitOnce_append hmantissa hc]
    dsimp only
    rw [parseI32_signed h]

/-- Whatever is read has a mantissa and an exponent. -/
theorem of_textMicros {text : List Char} {micros : ℤ} (h : textMicros text = some micros) :
    ∃ mantissa tail exponent, text = mantissa ++ tail ∧ ExponentText tail exponent ∧
      mantissaMicros mantissa exponent = some micros := by
  rw [textMicros] at h
  split at h
  · nomatch h
  · split at h
    · exact ⟨text, [], 0, (List.append_nil _).symm, .none, h⟩
    next mantissa exponentText hsplit =>
      obtain ⟨exponent, hexponent, h⟩ := Option.bind_eq_some_iff.mp h
      obtain ⟨c, hc, htext⟩ := splitOnce_eq_some hsplit
      exact ⟨mantissa, c :: exponentText, exponent, htext,
        .mark hc (signedDigits_of_parseI32 hexponent), h⟩

/-! ## A dangling point -/

theorem Digits.not_point {text : List Char} (h : Digits text) : ∀ c ∈ text, isPoint c = false := by
  intro c hc
  refine beq_eq_false_iff_ne.mpr ?_
  rintro rfl
  nomatch h.2 _ hc

theorem ExponentText.not_point {text : List Char} {value : ℤ} (h : ExponentText text value) :
    ∀ c ∈ text, isPoint c = false := by
  rcases h with - | @⟨mark, text, _, hmark, h⟩
  · exact fun c hc ↦ nomatch hc
  · intro c hc
    rcases List.mem_cons.mp hc with rfl | hc
    · refine beq_eq_false_iff_ne.mpr ?_
      rintro rfl
      nomatch hmark
    · rcases h with h | h | h
      · exact h.not_point c hc
      · rcases List.mem_cons.mp hc with rfl | hc
        · rfl
        · exact h.not_point c hc
      · rcases List.mem_cons.mp hc with rfl | hc
        · rfl
        · exact h.not_point c hc

/-- An exponent does not begin with a digit. -/
theorem ExponentText.head {text : List Char} {value : ℤ} (h : ExponentText text value) {c : Char}
    (hc : text.head? = some c) : c.isDigit = false := by
  rcases h with - | ⟨hmark, -⟩
  · nomatch hc
  · obtain rfl := Option.some.inj hc
    exact not_isDigit_of_mark hmark

/-- Digits and a point with nothing behind it but an exponent. -/
def DanglingPoint (text whole : List Char) (exponent : ℤ) : Prop :=
  ∃ tail, Digits whole ∧ ExponentText tail exponent ∧ text = whole ++ '.' :: tail

theorem DanglingPoint.not_spells {text whole : List Char} {exponent : ℤ}
    (h : DanglingPoint text whole exponent) (value : ℚ) : ¬Spells text value := by
  obtain ⟨tail, hwhole, htail, htext⟩ := h
  rintro @⟨whole', fraction, digits, tail', exponent', hwhole', hfraction, htail'⟩
  have hsplit : splitOnce isPoint (whole' ++ fraction ++ tail') = some (whole, tail) := by
    rw [htext]
    exact splitOnce_append hwhole.not_point rfl
  rcases hfraction with - | hdigits
  · -- without a point in the fraction there is none at all
    have hnone : splitOnce isPoint (whole' ++ [] ++ tail') = none := by
      rw [splitOnce_eq_none, List.append_nil]
      intro c hc
      exact (List.mem_append.mp hc).elim (hwhole'.not_point c) (htail'.not_point c)
    rw [hnone] at hsplit
    nomatch hsplit
  · have hpoint : splitOnce isPoint (whole' ++ '.' :: digits ++ tail') =
        some (whole', digits ++ tail') := by
      rw [List.append_assoc, List.cons_append]
      exact splitOnce_append hwhole'.not_point rfl
    rw [hpoint] at hsplit
    obtain ⟨-, rfl⟩ := Prod.mk.inj (Option.some.inj hsplit)
    obtain ⟨c, rest, rfl⟩ := List.exists_cons_of_ne_nil hdigits.1
    have hfirst := htail.head rfl
    rw [hdigits.2 c List.mem_cons_self] at hfirst
    nomatch hfirst

/-! ## The text as a whole -/

theorem not_mark_of_digits {text : List Char} (h : Digits text) :
    ∀ c ∈ text, isExponentMark c = false := by
  intro c hc
  by_contra hmark
  have hdigit := not_isDigit_of_mark (Bool.eq_true_of_not_eq_false hmark)
  rw [h.2 c hc] at hdigit
  nomatch hdigit

/-- A text with its parts, read as far as it fits. -/
theorem textMicros_parts {whole fraction digits tail : List Char} {exponent : ℤ}
    (hwhole : Digits whole) (hfraction : fraction = [] ∧ digits = [] ∨ fraction = '.' :: digits)
    (hdigits : digits = [] ∨ Digits digits) (htail : ExponentText tail exponent) :
    textMicros (whole ++ fraction ++ tail) =
      if (String.ofList (whole ++ fraction ++ tail)).utf8ByteSize > 64 then none
      else (i32 exponent).bind
        (digitsMicros (decimalValue (whole ++ digits)) digits.length) := by
  have hall : ∀ c ∈ digits, c.isDigit = true := by
    rcases hdigits with rfl | hdigits
    · exact fun c hc ↦ nomatch hc
    · exact hdigits.2
  have hdigitsMark : ∀ c ∈ digits, isExponentMark c = false := by
    rcases hdigits with rfl | hdigits
    · exact fun c hc ↦ nomatch hc
    · exact not_mark_of_digits hdigits
  have hmark : ∀ c ∈ whole ++ fraction, isExponentMark c = false := by
    intro c hc
    rcases List.mem_append.mp hc with hc | hc
    · exact not_mark_of_digits hwhole c hc
    · rcases hfraction with ⟨rfl, -⟩ | rfl
      · nomatch hc
      · rcases List.mem_cons.mp hc with rfl | hc
        · rfl
        · exact hdigitsMark c hc
  have hsame : mantissaMicros (whole ++ fraction) =
      digitsMicros (decimalValue (whole ++ digits)) digits.length :=
    funext fun exponent ↦ mantissaMicros_eq hwhole hfraction hall exponent
  rw [textMicros_eq hmark htail, hsame]

/-- What is read of a text of the grammar is its value in millionths, rounded half up. -/
theorem textMicros_of_spells {text : List Char} {value : ℚ} (h : Spells text value) {micros : ℤ}
    (hread : textMicros text = some micros) :
    micros = roundHalfUp (value * 10 ^ 6) ∧ micros < 9223372036854775808 := by
  rcases h with @⟨whole, fraction, digits, tail, exponent, hwhole, hfraction, htail⟩
  have hparts : (fraction = [] ∧ digits = [] ∨ fraction = '.' :: digits) ∧
      (digits = [] ∨ Digits digits) := by
    rcases hfraction with - | hdigits
    · exact ⟨.inl ⟨rfl, rfl⟩, .inl rfl⟩
    · exact ⟨.inr rfl, .inr hdigits⟩
  rw [textMicros_parts hwhole hparts.1 hparts.2 htail] at hread
  split at hread
  · nomatch hread
  · obtain ⟨_, hexponent, hread⟩ := Option.bind_eq_some_iff.mp hread
    obtain ⟨-, rfl⟩ := checked_eq_some.mp hexponent
    have hround := roundHalfUp_digitsMicros hread
    rw [Int.cast_natCast] at hround
    exact ⟨hround.symm, digitsMicros_lt hread⟩

/-- A dangling point is read as if it were not there, as far as the number fits. -/
theorem exists_textMicros_dangling_iff {text whole : List Char} {exponent : ℤ}
    (h : DanglingPoint text whole exponent) :
    (∃ micros, textMicros text = some micros) ↔
      (String.ofList text).utf8ByteSize ≤ 64 ∧ FitsMicros (decimalValue whole) exponent := by
  obtain ⟨tail, hwhole, htail, rfl⟩ := h
  have hparts := textMicros_parts hwhole (.inr rfl) (.inl rfl) htail
  rw [List.append_assoc, List.cons_append, List.nil_append, List.append_nil] at hparts
  rw [hparts, ← exists_digitsMicros_iff (Int.natCast_nonneg _)]
  split
  next hlong => exact iff_of_false (fun ⟨_, hnone⟩ ↦ nomatch hnone) fun hboth ↦ by omega
  next hshort => exact ⟨fun hread ↦ ⟨by omega, hread⟩, fun hboth ↦ hboth.2⟩

/-- What is read is a text of the grammar, or one with a dangling point. -/
theorem spells_or_dangling {text : List Char} {micros : ℤ} (h : textMicros text = some micros) :
    (∃ value, Spells text value) ∨ ∃ whole exponent, DanglingPoint text whole exponent := by
  obtain ⟨mantissa, tail, exponent, rfl, htail, hmantissa⟩ := of_textMicros h
  obtain ⟨whole, fraction, digits, rfl, hwhole, hfraction, hdigits⟩ := of_mantissaMicros hmantissa
  rcases hfraction with ⟨rfl, rfl⟩ | rfl
  · exact .inl ⟨_, .intro hwhole .none htail⟩
  · by_cases hnil : digits = []
    · subst hnil
      exact .inr ⟨whole, exponent, tail, hwhole, htail, List.append_assoc ..⟩
    · exact .inl ⟨_, .intro hwhole (.point ⟨hnil, hdigits⟩) htail⟩

/-! ## Exact costs -/

/-- A reported cost is the value of its text in millionths, rounded half up, and nothing where that
exceeds 64 bits or the text is not of the grammar. -/
structure ExactCost (fromStr : List Char → Option (List Char)) (raw : List Char) : Prop where
  rounded : ∀ {text value micros}, costText fromStr raw = some text → Spells text value →
    usdMicros fromStr raw = some micros → micros = roundHalfUp (value * 10 ^ 6)
  overflow : ∀ {text value}, costText fromStr raw = some text → Spells text value →
    9223372036854775807 < roundHalfUp (value * 10 ^ 6) → usdMicros fromStr raw = none
  malformed : ∀ {text}, costText fromStr raw = some text → (∀ value, ¬Spells text value) →
    usdMicros fromStr raw = none
  undecoded : costText fromStr raw = none → usdMicros fromStr raw = none

theorem usdMicros_of_costText {fromStr : List Char → Option (List Char)} {raw text : List Char}
    (h : costText fromStr raw = some text) : usdMicros fromStr raw = textMicros text := by
  rw [usdMicros, h, Option.bind_some]

/-- Costs are exact but for a dangling point on a number that fits. -/
theorem exactCost_iff (fromStr : List Char → Option (List Char)) (raw : List Char) :
    ExactCost fromStr raw ↔ ∀ text whole exponent, costText fromStr raw = some text →
      DanglingPoint text whole exponent → (String.ofList text).utf8ByteSize ≤ 64 →
      ¬FitsMicros (decimalValue whole) exponent := by
  constructor
  · intro hexact text whole exponent htext hpoint hshort hfits
    obtain ⟨micros, hread⟩ := (exists_textMicros_dangling_iff hpoint).mpr ⟨hshort, hfits⟩
    have hnone := hexact.malformed htext hpoint.not_spells
    rw [usdMicros_of_costText htext, hread] at hnone
    nomatch hnone
  · intro hpoint
    refine ⟨?_, ?_, ?_, fun hnone ↦ by rw [usdMicros, hnone, Option.bind_none]⟩
    · intro text value micros htext hspells hread
      rw [usdMicros_of_costText htext] at hread
      exact (textMicros_of_spells hspells hread).1
    · intro text value htext hspells hlarge
      rw [usdMicros_of_costText htext, Option.eq_none_iff_forall_ne_some]
      intro micros hread
      obtain ⟨rfl, hlt⟩ := textMicros_of_spells hspells hread
      omega
    · intro text htext hnot
      rw [usdMicros_of_costText htext, Option.eq_none_iff_forall_ne_some]
      intro micros hread
      rcases spells_or_dangling hread with ⟨value, hspells⟩ | ⟨whole, exponent, hdangling⟩
      · exact hnot value hspells
      · obtain ⟨hshort, hfits⟩ := (exists_textMicros_dangling_iff hdangling).mp ⟨micros, hread⟩
        exact hpoint text whole exponent htext hdangling hshort hfits

/-- The string `"1."` is read as a dollar, though it has no digit behind its point. A string without
an escape is decoded by taking its quotes off. -/
theorem not_exactCost_danglingPoint :
    ¬ExactCost (fun raw ↦ some raw.tail.dropLast) "\"1.\"".toList := by
  intro hexact
  have htext : costText (fun raw ↦ some raw.tail.dropLast) "\"1.\"".toList =
      some "1.".toList := rfl
  have hpoint : DanglingPoint "1.".toList ['1'] 0 :=
    ⟨[], ⟨List.cons_ne_nil _ _, List.forall_mem_singleton.mpr rfl⟩, .none, rfl⟩
  have hread : textMicros "1.".toList = some 1000000 := by decide +kernel
  have hnone := hexact.malformed htext hpoint.not_spells
  rw [usdMicros_of_costText htext, hread] at hnone
  nomatch hnone

end TokenStation
