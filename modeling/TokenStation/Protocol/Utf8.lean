import TokenStation.Library.Decoder
import TokenStation.Protocol.Text

/-!
# UTF-8

`str::from_utf8` tells bytes that can never be text from bytes that end in the middle of a
character. The characters themselves are decoded as Lean decodes them.
-/

namespace TokenStation

open Library

/-- The first character of some bytes, and its length. -/
def firstChar (bytes : List UInt8) : Option (Char × ℕ) :=
  (bytes.toByteArray.utf8DecodeChar? 0).map fun c ↦ (c, c.utf8Size)

def isContinuation (byte : UInt8) : Bool := 0x80 ≤ byte && byte ≤ 0xBF

/-- Whether a byte may be the second one of a longer character. -/
def isSecondOf (first second : UInt8) : Bool :=
  if first = 0xE0 then 0xA0 ≤ second && second ≤ 0xBF
  else if first = 0xED then 0x80 ≤ second && second ≤ 0x9F
  else if first = 0xF0 then 0x90 ≤ second && second ≤ 0xBF
  else if first = 0xF4 then 0x80 ≤ second && second ≤ 0x8F
  else isContinuation second

/-- `Utf8Error::error_len` is `None`: more bytes could complete the character. -/
def isUnfinished : List UInt8 → Bool
  | [a] => 0xC2 ≤ a && a ≤ 0xF4
  | [a, b] => 0xE0 ≤ a && a ≤ 0xF4 && isSecondOf a b
  | [a, b, c] => 0xF0 ≤ a && a ≤ 0xF4 && isSecondOf a b && isContinuation c
  | _ => false

/-! ## Characters and their bytes -/

theorem firstChar_eq_some {bytes : List UInt8} {c : Char} {n : ℕ} :
    firstChar bytes = some (c, n) ↔ n = c.utf8Size ∧ String.utf8EncodeChar c <+: bytes := by
  constructor
  · intro h
    obtain ⟨d, hd, heq⟩ := Option.map_eq_some_iff.mp h
    obtain ⟨rfl, rfl⟩ := Prod.mk.inj heq
    obtain ⟨rest, hrest⟩ := ByteArray.exists_of_utf8DecodeChar?_eq_some hd
    refine ⟨rfl, rest.data.toList, ?_⟩
    have hlist := congrArg (fun array : ByteArray ↦ array.data.toList) hrest
    simpa using hlist.symm
  · rintro ⟨rfl, rest, rfl⟩
    rw [firstChar, List.toByteArray_append, ByteArray.utf8DecodeChar?_utf8EncodeChar_append]
    rfl

/-- The bytes that one character can have. -/
inductive CharBytes : List UInt8 → Prop
  | one {a : UInt8} : a ≤ 0x7F → CharBytes [a]
  | two {a b : UInt8} : 0xC2 ≤ a → a ≤ 0xDF → isContinuation b → CharBytes [a, b]
  | three {a b c : UInt8} : 0xE0 ≤ a → a ≤ 0xEF → isSecondOf a b → isContinuation c →
      CharBytes [a, b, c]
  | four {a b c d : UInt8} : 0xF0 ≤ a → a ≤ 0xF4 → isSecondOf a b → isContinuation c →
      isContinuation d → CharBytes [a, b, c, d]

theorem between_ofNat {low high : UInt8} {n : ℕ} (hn : n < 256) (h : low.toNat ≤ n)
    (h' : n ≤ high.toNat) : (low ≤ UInt8.ofNat n && UInt8.ofNat n ≤ high) = true := by
  have hsame : (UInt8.ofNat n).toNat = n := by
    rw [UInt8.toNat_ofNat']
    omega
  rw [Bool.and_eq_true, decide_eq_true_eq, decide_eq_true_eq, UInt8.le_iff_toNat_le,
    UInt8.le_iff_toNat_le, hsame]
  exact ⟨h, h'⟩

theorem isContinuation_ofNat {n : ℕ} (h : 0x80 ≤ n) (h' : n ≤ 0xBF) :
    isContinuation (UInt8.ofNat n) = true :=
  between_ofNat (by omega) h h'

theorem isSecondOf_ofNat {m n : ℕ} (hm : m < 256) (hlow : 0x80 ≤ n) (hhigh : n ≤ 0xBF)
    (he0 : m = 0xE0 → 0xA0 ≤ n) (hed : m = 0xED → n ≤ 0x9F) (hf0 : m = 0xF0 → 0x90 ≤ n)
    (hf4 : m = 0xF4 → n ≤ 0x8F) : isSecondOf (UInt8.ofNat m) (UInt8.ofNat n) = true := by
  have hfirst : ∀ k : ℕ, k < 256 → UInt8.ofNat m = UInt8.ofNat k → m = k := by
    intro k hk heq
    have heq := congrArg UInt8.toNat heq
    rw [UInt8.toNat_ofNat', UInt8.toNat_ofNat'] at heq
    omega
  have hn : n < 256 := by omega
  rw [isSecondOf]
  split_ifs with h h h h
  · exact between_ofNat hn (he0 (hfirst 0xE0 (by decide) h)) hhigh
  · exact between_ofNat hn hlow (hed (hfirst 0xED (by decide) h))
  · exact between_ofNat hn (hf0 (hfirst 0xF0 (by decide) h)) hhigh
  · exact between_ofNat hn hlow (hf4 (hfirst 0xF4 (by decide) h))
  · exact isContinuation_ofNat hlow hhigh

/-- A byte that is known by its number is in a range when the number is. -/
theorem le_ofNat {low : UInt8} {n : ℕ} (hn : n < 256) (h : low.toNat ≤ n) :
    low ≤ UInt8.ofNat n := by
  rw [UInt8.le_iff_toNat_le, UInt8.toNat_ofNat']
  omega

theorem ofNat_le {high : UInt8} {n : ℕ} (hn : n < 256) (h : n ≤ high.toNat) :
    UInt8.ofNat n ≤ high := by
  rw [UInt8.le_iff_toNat_le, UInt8.toNat_ofNat']
  omega

/-- What the bytes of every character are like. -/
theorem charBytes_utf8EncodeChar (c : Char) : CharBytes (String.utf8EncodeChar c) := by
  have hvalid : c.val.toNat < 0xD800 ∨ 0xDFFF < c.val.toNat ∧ c.val.toNat < 0x110000 := c.valid
  rw [String.utf8EncodeChar]
  split_ifs with hone htwo hthree
  · exact .one (ofNat_le (by omega) hone)
  · refine .two (le_ofNat (by omega) ?_) (ofNat_le (by omega) ?_)
      (isContinuation_ofNat (by omega) (by omega))
    · change 0xC2 ≤ _
      omega
    · change _ ≤ 0xDF
      omega
  · refine .three (le_ofNat (by omega) ?_) (ofNat_le (by omega) ?_) ?_
      (isContinuation_ofNat (by omega) (by omega))
    · change 0xE0 ≤ _
      omega
    · change _ ≤ 0xEF
      omega
    · -- a surrogate is no character, and a small one has fewer bytes
      exact isSecondOf_ofNat (by omega) (by omega) (by omega) (by omega) (by omega) (by omega)
        (by omega)
  · refine .four (le_ofNat (by omega) ?_) (ofNat_le (by omega) ?_) ?_
      (isContinuation_ofNat (by omega) (by omega)) (isContinuation_ofNat (by omega) (by omega))
    · change 0xF0 ≤ _
      omega
    · change _ ≤ 0xF4
      omega
    · exact isSecondOf_ofNat (by omega) (by omega) (by omega) (by omega) (by omega) (by omega)
        (by omega)

theorem CharBytes.length_le {bytes : List UInt8} (h : CharBytes bytes) : bytes.length ≤ 4 := by
  cases h with
  | _ => simp

/-- A proper beginning of a character is unfinished. -/
theorem isUnfinished_of_append {bytes more : List UInt8} (h : CharBytes (bytes ++ more))
    (hbytes : bytes ≠ []) (hmore : more ≠ []) : isUnfinished bytes = true := by
  obtain ⟨m, more, rfl⟩ := List.exists_cons_of_ne_nil hmore
  match bytes, hbytes with
  | [a], _ =>
    have hrange : 0xC2 ≤ a ∧ a ≤ 0xF4 := by
      cases h with
      | two ha ha' _ => exact ⟨ha, UInt8.le_trans ha' (by decide : (0xDF : UInt8) ≤ 0xF4)⟩
      | three ha ha' _ _ =>
        exact ⟨UInt8.le_trans (by decide : (0xC2 : UInt8) ≤ 0xE0) ha,
          UInt8.le_trans ha' (by decide : (0xEF : UInt8) ≤ 0xF4)⟩
      | four ha ha' _ _ _ => exact ⟨UInt8.le_trans (by decide : (0xC2 : UInt8) ≤ 0xF0) ha, ha'⟩
    simp [isUnfinished, hrange]
  | [a, b], _ =>
    have hrange : 0xE0 ≤ a ∧ a ≤ 0xF4 ∧ isSecondOf a b = true := by
      cases h with
      | three ha ha' hb _ => exact ⟨ha, UInt8.le_trans ha' (by decide : (0xEF : UInt8) ≤ 0xF4), hb⟩
      | four ha ha' hb _ _ => exact ⟨UInt8.le_trans (by decide : (0xE0 : UInt8) ≤ 0xF0) ha, ha', hb⟩
    simp [isUnfinished, hrange]
  | [a, b, c], _ =>
    cases h with
    | four ha ha' hb hc _ => simp [isUnfinished, ha, ha', hb, hc]
  | a :: b :: c :: d :: rest, _ =>
    have hle := h.length_le
    simp only [List.cons_append, List.length_cons, List.length_append] at hle
    omega

/-- How many bytes the first one asks for, at least. -/
theorem firstByte_of_isUnfinished {a : UInt8} {rest : List UInt8}
    (h : isUnfinished (a :: rest) = true) :
    (rest.length = 0 ∧ 0xC2 ≤ a) ∨ (rest.length = 1 ∧ 0xE0 ≤ a) ∨
      (rest.length = 2 ∧ 0xF0 ≤ a) := by
  match rest with
  | [] =>
    rw [isUnfinished, Bool.and_eq_true, decide_eq_true_eq] at h
    exact Or.inl ⟨rfl, h.1⟩
  | [_] =>
    rw [isUnfinished, Bool.and_eq_true, Bool.and_eq_true, decide_eq_true_eq] at h
    exact Or.inr (Or.inl ⟨rfl, h.1.1⟩)
  | [_, _] =>
    rw [isUnfinished, Bool.and_eq_true, Bool.and_eq_true, Bool.and_eq_true,
      decide_eq_true_eq] at h
    exact Or.inr (Or.inr ⟨rfl, h.1.1.1⟩)
  | _ :: _ :: _ :: _ => nomatch h

theorem CharBytes.firstByte {whole : List UInt8} (h : CharBytes whole) :
    ∃ a rest, whole = a :: rest ∧ ((rest.length = 0 ∧ a ≤ 0x7F) ∨ (rest.length = 1 ∧ a ≤ 0xDF) ∨
      (rest.length = 2 ∧ a ≤ 0xEF) ∨ rest.length = 3) := by
  cases h with
  | one ha => exact ⟨_, _, rfl, Or.inl ⟨rfl, ha⟩⟩
  | two _ ha _ => exact ⟨_, _, rfl, Or.inr (Or.inl ⟨rfl, ha⟩)⟩
  | three _ ha _ _ => exact ⟨_, _, rfl, Or.inr (Or.inr (Or.inl ⟨rfl, ha⟩))⟩
  | four => exact ⟨_, _, rfl, Or.inr (Or.inr (Or.inr rfl))⟩

/-- What is unfinished does not start with a character. -/
theorem firstChar_of_isUnfinished {bytes : List UInt8} (h : isUnfinished bytes = true) :
    firstChar bytes = none := by
  rcases hfirst : firstChar bytes with _ | ⟨c, n⟩
  · rfl
  · obtain ⟨-, more, rfl⟩ := firstChar_eq_some.mp hfirst
    obtain ⟨a, rest, hbytes, hlast⟩ := (charBytes_utf8EncodeChar c).firstByte
    rw [hbytes, List.cons_append] at h
    have hasked := firstByte_of_isUnfinished h
    simp only [UInt8.le_iff_toNat_le, List.length_append] at hasked hlast
    simp only [UInt8.reduceToNat] at hasked hlast
    omega

/-- A beginning of what starts with a character starts with that character, or is a proper
beginning of it. -/
theorem firstChar_of_append {bytes more : List UInt8} {c : Char} {n : ℕ}
    (h : firstChar (bytes ++ more) = some (c, n)) (hbytes : bytes ≠ []) :
    firstChar bytes = some (c, n) ∨ isUnfinished bytes = true := by
  obtain ⟨hn, rest, hrest⟩ := firstChar_eq_some.mp h
  rcases List.append_eq_append_iff.mp hrest with ⟨tail, rfl, -⟩ | ⟨tail, hchar, -⟩
  · exact Or.inl (firstChar_eq_some.mpr ⟨hn, tail, rfl⟩)
  · by_cases htail : tail = []
    · rw [htail, List.append_nil] at hchar
      exact Or.inl (firstChar_eq_some.mpr ⟨hn, [], by rw [hchar, List.append_nil]⟩)
    · exact Or.inr (isUnfinished_of_append (hchar ▸ charBytes_utf8EncodeChar c) hbytes htail)

theorem isUnfinished_prefix_closed {bytes more : List UInt8} (hbytes : bytes ≠ [])
    (h : isUnfinished (bytes ++ more) = true) : isUnfinished bytes = true := by
  match bytes, more, hbytes with
  | bytes, [], _ => rwa [List.append_nil] at h
  | [a], [b], _ =>
    simp only [List.cons_append, List.nil_append, isUnfinished, Bool.and_eq_true,
      decide_eq_true_eq] at h ⊢
    exact ⟨UInt8.le_trans (by decide : (0xC2 : UInt8) ≤ 0xE0) h.1.1, h.1.2⟩
  | [a], [b, c], _ =>
    simp only [List.cons_append, List.nil_append, isUnfinished, Bool.and_eq_true,
      decide_eq_true_eq] at h ⊢
    exact ⟨UInt8.le_trans (by decide : (0xC2 : UInt8) ≤ 0xF0) h.1.1.1, h.1.1.2⟩
  | [a, b], [c], _ =>
    simp only [List.cons_append, List.nil_append, isUnfinished, Bool.and_eq_true,
      decide_eq_true_eq] at h ⊢
    exact ⟨⟨UInt8.le_trans (by decide : (0xE0 : UInt8) ≤ 0xF0) h.1.1.1, h.1.1.2⟩, h.1.2⟩
  | [_], _ :: _ :: _ :: _, _ => nomatch h
  | [_, _], _ :: _ :: _, _ => nomatch h
  | _ :: _ :: _ :: rest, d :: more, _ =>
    rcases rest with _ | ⟨_, _⟩
    · nomatch h
    · nomatch h

/-- The characters of UTF-8. -/
def utf8Decoder : Decoder UInt8 Char where
  first := firstChar
  unfinished := isUnfinished
  bounded h := by
    obtain ⟨rfl, hprefix⟩ := firstChar_eq_some.mp h
    rw [← String.length_utf8EncodeChar]
    exact ⟨String.length_utf8EncodeChar _ ▸ Char.utf8Size_pos _, hprefix.length_le⟩
  stable := fun {_ p} more h ↦ by
    obtain ⟨c, n⟩ := p
    obtain ⟨hn, hprefix⟩ := firstChar_eq_some.mp h
    exact firstChar_eq_some.mpr ⟨hn, hprefix.trans (List.prefix_append _ more)⟩
  prompt := fun {_ _ p} hne hnone h ↦ by
    obtain ⟨c, n⟩ := p
    rcases firstChar_of_append h hne with hsome | hunfinished
    · rw [hnone] at hsome
      nomatch hsome
    · exact hunfinished
  prefix_closed := isUnfinished_prefix_closed
  waiting := firstChar_of_isUnfinished

/-- The bytes are those of the characters, and what is left over. -/
theorem utf8Encode_decode (bytes : List UInt8) :
    (utf8Decoder.decode bytes).1.flatMap String.utf8EncodeChar ++ (utf8Decoder.decode bytes).2 =
      bytes := by
  induction bytes using utf8Decoder.decode_induction with
  | rest bytes h =>
    rw [Decoder.decode_of_none h]
    rfl
  | symbol bytes c n h ih =>
    obtain ⟨rfl, rest, rfl⟩ := firstChar_eq_some.mp h
    rw [← String.length_utf8EncodeChar, List.drop_left] at ih
    rw [Decoder.decode_of_some h, ← String.length_utf8EncodeChar, List.drop_left,
      List.flatMap_cons, List.append_assoc, ih]

end TokenStation
