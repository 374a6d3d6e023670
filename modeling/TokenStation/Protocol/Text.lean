import Mathlib.Data.List.DropRight
import Mathlib.Data.List.Infix
import TokenStation.Library.Saturating

/-!
# Text on character lists

The string operations of the standard library that the gateway and the provider contract use, on
lists of characters.
-/

namespace TokenStation

open Library

/-- `char::is_whitespace`: the characters with the Unicode property `White_Space`. -/
def isWhitespace (c : Char) : Bool :=
  (9 ≤ c.toNat && c.toNat ≤ 13) || c.toNat == 0x20 || c.toNat == 0x85 || c.toNat == 0xA0
    || c.toNat == 0x1680 || (0x2000 ≤ c.toNat && c.toNat ≤ 0x200A) || c.toNat == 0x2028
    || c.toNat == 0x2029 || c.toNat == 0x202F || c.toNat == 0x205F || c.toNat == 0x3000

/-- `str::trim_end_matches`. -/
def trimEndMatches (p : Char → Bool) (text : List Char) : List Char := text.rdropWhile p

/-- `str::trim`. -/
def trim (text : List Char) : List Char := trimEndMatches isWhitespace (text.dropWhile isWhitespace)

theorem trim_trim (text : List Char) : trim (trim text) = trim text := by
  have hdrop : (trim text).dropWhile isWhitespace = trim text := by
    rw [List.dropWhile_eq_self_iff]
    intro hpos
    -- what is left starts as the text does once its leading spaces are gone
    have hprefix : trim text <+: text.dropWhile isWhitespace := List.rdropWhile_prefix _ _
    have hpos' := hpos.trans_le hprefix.length_le
    rw [List.IsPrefix.getElem hprefix hpos]
    exact List.dropWhile_eq_self_iff.mp (List.dropWhile_idempotent isWhitespace text) hpos'
  rw [trim, hdrop]
  exact List.rdropWhile_idempotent _ _

/-- Trimming commutes with a map of the characters that keeps the spaces. -/
theorem trim_map {f : Char → Char} (h : ∀ c, isWhitespace (f c) = isWhitespace c)
    (text : List Char) : trim (text.map f) = (trim text).map f := by
  have hcomp : isWhitespace ∘ f = isWhitespace := funext h
  rw [trim, trim, trimEndMatches, trimEndMatches, List.rdropWhile, List.rdropWhile,
    List.dropWhile_map, hcomp, ← List.map_reverse, List.dropWhile_map, hcomp, ← List.map_reverse]

theorem subset_of_trim (text : List Char) : trim text ⊆ text :=
  fun _ hc ↦ (List.dropWhile_sublist _).subset ((List.rdropWhile_prefix _ _).subset hc)

/-- `str::strip_prefix`. -/
def stripPrefix (start text : List Char) : Option (List Char) :=
  if start.isPrefixOf text then some (text.drop start.length) else none

theorem stripPrefix_eq_some {start text rest : List Char}
    (h : stripPrefix start text = some rest) : text = start ++ rest := by
  rw [stripPrefix] at h
  split at h
  next hprefix =>
    obtain ⟨tail, rfl⟩ := List.isPrefixOf_iff_prefix.mp hprefix
    obtain rfl : _ = rest := Option.some.inj h
    rw [List.drop_left']
    rfl
  · nomatch h

theorem stripPrefix_append (start rest : List Char) :
    stripPrefix start (start ++ rest) = some rest := by
  rw [stripPrefix, if_pos (List.isPrefixOf_iff_prefix.mpr (List.prefix_append start rest)),
    List.drop_left]

/-- `str::strip_suffix`. -/
def stripSuffix (ending text : List Char) : Option (List Char) :=
  if ending.isSuffixOf text then some (text.take (text.length - ending.length)) else none

theorem stripSuffix_eq_some {ending text start : List Char}
    (h : stripSuffix ending text = some start) : text = start ++ ending := by
  rw [stripSuffix] at h
  split at h
  next hsuffix =>
    obtain ⟨rest, rfl⟩ := List.isSuffixOf_iff_suffix.mp hsuffix
    obtain rfl : _ = start := Option.some.inj h
    rw [List.length_append, Nat.add_sub_cancel, List.take_left']
    rfl
  · nomatch h

theorem stripSuffix_append (start ending : List Char) :
    stripSuffix ending (start ++ ending) = some start := by
  rw [stripSuffix, if_pos (List.isSuffixOf_iff_suffix.mpr (List.suffix_append start ending)),
    List.length_append, Nat.add_sub_cancel, List.take_left]

theorem stripSuffix_eq_none {ending text : List Char} (h : ¬ending <:+ text) :
    stripSuffix ending text = none :=
  if_neg fun hsuffix ↦ h (List.isSuffixOf_iff_suffix.mp hsuffix)

theorem takeWhile_append_stop (test : Char → Bool) {text rest : List Char}
    (h : ∀ c ∈ text, test c = true) (hrest : ∀ c ∈ rest.head?, test c = false) :
    (text ++ rest).takeWhile test = text ∧ (text ++ rest).dropWhile test = rest := by
  rw [List.takeWhile_append_of_pos h, List.dropWhile_append_of_pos h]
  cases rest with
  | nil => exact ⟨List.append_nil text, rfl⟩
  | cons c rest =>
    have hc : ¬test c = true := by simp [hrest c rfl]
    rw [List.takeWhile_cons_of_neg hc, List.dropWhile_cons_of_neg hc, List.append_nil]
    exact ⟨rfl, rfl⟩

/-- `str::split_once`, at the first character of a kind. -/
def splitOnce (sep : Char → Bool) (text : List Char) : Option (List Char × List Char) :=
  match text.dropWhile fun c ↦ !sep c with
  | [] => none
  | _ :: rest => some (text.takeWhile fun c ↦ !sep c, rest)

theorem splitOnce_append {sep : Char → Bool} {start rest : List Char} {c : Char}
    (hstart : ∀ c ∈ start, sep c = false) (hc : sep c = true) :
    splitOnce sep (start ++ c :: rest) = some (start, rest) := by
  have hpass : ∀ c ∈ start, (!sep c) = true := fun c hc ↦ by rw [hstart c hc]; rfl
  have hstop : ∀ d ∈ (c :: rest).head?, (!sep d) = false := by
    rintro d hd
    obtain rfl := Option.some.inj hd
    rw [hc]
    rfl
  obtain ⟨htake, hdrop⟩ := takeWhile_append_stop (fun c ↦ !sep c) hpass hstop
  rw [splitOnce, htake, hdrop]

theorem splitOnce_eq_none {sep : Char → Bool} {text : List Char} :
    splitOnce sep text = none ↔ ∀ c ∈ text, sep c = false := by
  rw [splitOnce]
  split
  next hdrop => simpa using hdrop
  next c rest hdrop =>
    refine iff_of_false (Option.some_ne_none _) fun hall ↦ ?_
    rw [List.dropWhile_eq_nil_iff.mpr fun c hc ↦ by rw [hall c hc]; rfl] at hdrop
    nomatch hdrop

theorem splitOnce_eq_some {sep : Char → Bool} {text start rest : List Char}
    (h : splitOnce sep text = some (start, rest)) :
    ∃ c, sep c = true ∧ text = start ++ c :: rest := by
  rw [splitOnce] at h
  split at h
  · nomatch h
  next c tail hdrop =>
    obtain ⟨rfl, rfl⟩ := Prod.mk.inj (Option.some.inj h)
    have hc := List.head?_dropWhile_not (fun c ↦ !sep c) text
    rw [hdrop] at hc
    refine ⟨c, by simpa using hc, ?_⟩
    rw [← hdrop, List.takeWhile_append_dropWhile]

/-- `str::to_ascii_lowercase`. -/
def toAsciiLowercase (text : List Char) : List Char := text.map Char.toLower

/-! ## Numbers in text -/

/-- The value of a list of decimal digits. -/
def decimalValue (digits : List Char) : ℕ :=
  digits.foldl (fun n c ↦ 10 * n + (c.toNat - '0'.toNat)) 0

/-- The decimal digits of an integer without its sign, as long as there are some. -/
def parseDigits (digits : List Char) : Option ℕ :=
  if digits.isEmpty || !digits.all Char.isDigit then none else some (decimalValue digits)

theorem parseDigits_eq {digits : List Char} (hne : digits ≠ [])
    (hdigits : ∀ c ∈ digits, c.isDigit = true) :
    parseDigits digits = some (decimalValue digits) := by
  obtain ⟨c, rest, rfl⟩ := List.exists_cons_of_ne_nil hne
  rw [parseDigits, List.isEmpty_cons, Bool.false_or, List.all_eq_true.mpr hdigits]
  rfl

theorem parseDigits_eq_some {digits : List Char} {value : ℕ} (h : parseDigits digits = some value) :
    digits ≠ [] ∧ (∀ c ∈ digits, c.isDigit = true) ∧ value = decimalValue digits := by
  rw [parseDigits] at h
  split at h
  · nomatch h
  next hdigits =>
    rw [Bool.not_eq_true, Bool.or_eq_false_iff, Bool.not_eq_false'] at hdigits
    refine ⟨fun hnil ↦ ?_, List.all_eq_true.mp hdigits.2, (Option.some.inj h).symm⟩
    rw [hnil] at hdigits
    nomatch hdigits.1

/-- `str::parse::<u64>`. A plus sign is allowed. -/
def parseU64 (text : List Char) : Option UInt64 :=
  (parseDigits ((stripPrefix ['+'] text).getD text)).bind Word.tryFrom

/-- `str::parse::<i64>`. -/
def parseI64 (text : List Char) : Option ℤ := do
  let value ← match stripPrefix ['-'] text with
    | some digits => (parseDigits digits).map fun n ↦ -(n : ℤ)
    | none => (parseDigits ((stripPrefix ['+'] text).getD text)).map fun n ↦ (n : ℤ)
  if -2 ^ 63 ≤ value ∧ value < 2 ^ 63 then some value else none

/-! ## Byte offsets -/

/-- The text from a byte offset on, if the offset is a character boundary. -/
def byteDrop : List Char → ℕ → Option (List Char)
  | text, 0 => some text
  | [], _ + 1 => none
  | c :: rest, n + 1 => if c.utf8Size ≤ n + 1 then byteDrop rest (n + 1 - c.utf8Size) else none

/-- The text up to a byte offset, if the offset is a character boundary. -/
def byteTake : List Char → ℕ → Option (List Char)
  | _, 0 => some []
  | [], _ + 1 => none
  | c :: rest, n + 1 =>
    if c.utf8Size ≤ n + 1 then (byteTake rest (n + 1 - c.utf8Size)).map (c :: ·) else none

/-- `str::get(from..to)`. -/
def byteGet (text : List Char) (start stop : ℕ) : Option (List Char) :=
  (byteDrop text start).bind fun rest ↦ byteTake rest (stop - start)

end TokenStation
