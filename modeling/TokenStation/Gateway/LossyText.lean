import TokenStation.Gateway.NativeRelay
import TokenStation.Library.Lossy

/-!
# Text that is shown whatever it is

`String::from_utf8_lossy` never fails: each beginning of a character that is not continued, and each
byte that begins none, is shown as the replacement character. It keeps nothing for the next call, so
a character that is cut by the end of its bytes is replaced.
-/

namespace TokenStation

open Library

/-- `String::from_utf8_lossy`. -/
def fromUtf8Lossy (bytes : List UInt8) : List Char := utf8Decoder.lossy replacement bytes

/-- The pieces of some bytes, each with the character it is shown as. -/
def shownPieces (bytes : List UInt8) : List (List UInt8 × Char) :=
  utf8Decoder.pieces replacement bytes

/-- Every second byte of a longer character is a continuation, whatever the first one is. -/
theorem isContinuation_of_isSecondOf {first second : UInt8} (h : isSecondOf first second = true) :
    isContinuation second = true := by
  have hwiden : ∀ low high : UInt8, 0x80 ≤ low → high ≤ 0xBF →
      (low ≤ second && second ≤ high) = true → isContinuation second = true := by
    intro low high hlow hhigh hsecond
    rw [Bool.and_eq_true, decide_eq_true_eq, decide_eq_true_eq] at hsecond
    rw [isContinuation, Bool.and_eq_true, decide_eq_true_eq, decide_eq_true_eq]
    exact ⟨UInt8.le_trans hlow hsecond.1, UInt8.le_trans hsecond.2 hhigh⟩
  rw [isSecondOf] at h
  split_ifs at h
  · exact hwiden _ _ (by decide) (by decide) h
  · exact hwiden _ _ (by decide) (by decide) h
  · exact hwiden _ _ (by decide) (by decide) h
  · exact hwiden _ _ (by decide) (by decide) h
  · exact h

theorem CharBytes.tail {bytes : List UInt8} (h : CharBytes bytes) :
    ∀ byte ∈ bytes.tail, isContinuation byte = true := by
  cases h with
  | one => simp
  | two _ _ hb => simpa using hb
  | three _ _ hb hc => simpa using ⟨isContinuation_of_isSecondOf hb, hc⟩
  | four _ _ hb hc hd => simpa using ⟨isContinuation_of_isSecondOf hb, hc, hd⟩

theorem tail_of_isUnfinished {bytes : List UInt8} (h : isUnfinished bytes = true) :
    ∀ byte ∈ bytes.tail, isContinuation byte = true := by
  rcases bytes with - | ⟨a, - | ⟨b, - | ⟨c, - | ⟨d, rest⟩⟩⟩⟩
  · cases h
  · simp
  · simp only [isUnfinished, Bool.and_eq_true] at h
    simpa using isContinuation_of_isSecondOf h.2
  · simp only [isUnfinished, Bool.and_eq_true] at h
    simpa using ⟨isContinuation_of_isSecondOf h.1.2, h.2⟩
  · cases h

theorem CharBytes.head {byte : UInt8} {rest : List UInt8} (h : CharBytes (byte :: rest)) :
    byte ≤ 0x7F ∨ 0xC2 ≤ byte := by
  cases h with
  | one ha => exact Or.inl ha
  | two ha => exact Or.inr ha
  | three ha => exact Or.inr (UInt8.le_trans (by decide : (0xC2 : UInt8) ≤ 0xE0) ha)
  | four ha => exact Or.inr (UInt8.le_trans (by decide : (0xC2 : UInt8) ≤ 0xF0) ha)

/-- No character begins with a continuation. -/
theorem inner_of_isContinuation {byte : UInt8} (h : isContinuation byte = true) :
    utf8Decoder.Inner byte := by
  rw [isContinuation, Bool.and_eq_true, decide_eq_true_eq, decide_eq_true_eq,
    UInt8.le_iff_toNat_le, UInt8.le_iff_toNat_le] at h
  simp only [UInt8.reduceToNat] at h
  intro rest
  constructor
  · change firstChar (byte :: rest) = none
    rcases hfirst : firstChar (byte :: rest) with - | ⟨c, n⟩
    · rfl
    · obtain ⟨-, more, heq⟩ := firstChar_eq_some.mp hfirst
      have hbytes := charBytes_utf8EncodeChar c
      obtain ⟨first, tail, htail, -⟩ := hbytes.firstByte
      rw [htail, List.cons_append] at heq
      rw [htail, (List.cons.inj heq).1] at hbytes
      have hhead := hbytes.head
      simp only [UInt8.le_iff_toNat_le, UInt8.reduceToNat] at hhead
      omega
  · change isUnfinished (byte :: rest) = false
    rw [← Bool.not_eq_true]
    intro hunfinished
    have hfirst := firstByte_of_isUnfinished hunfinished
    simp only [UInt8.le_iff_toNat_le, UInt8.reduceToNat] at hfirst
    omega

/-- A byte tells whether a character begins with it. -/
theorem synchronized_utf8Decoder : utf8Decoder.Synchronized where
  narrow := fun {bytes c n} h ↦ by
    obtain ⟨rfl, rest, rfl⟩ := firstChar_eq_some.mp h
    refine firstChar_eq_some.mpr ⟨rfl, ?_⟩
    rw [List.take_left' (String.length_utf8EncodeChar c)]
  symbol := fun {bytes c n} h byte hbyte ↦ by
    obtain ⟨rfl, rest, rfl⟩ := firstChar_eq_some.mp h
    rw [List.take_left' (String.length_utf8EncodeChar c)] at hbyte
    exact inner_of_isContinuation ((charBytes_utf8EncodeChar c).tail byte hbyte)
  beginning h byte hbyte := inner_of_isContinuation (tail_of_isUnfinished h byte hbyte)

theorem utf8Size_replacement : replacement.utf8Size = 3 := rfl

/-- Nothing is shorter than the bytes it is shown for. -/
theorem length_le_utf8Length_fromUtf8Lossy (bytes : List UInt8) :
    bytes.length ≤ utf8Length (fromUtf8Lossy bytes) := by
  refine Decoder.length_le_weigh_lossy ?_ ?_ ?_ bytes
  · intro bytes c n h
    exact (firstChar_eq_some.mp h).1.le
  · intro bytes h
    have hfirst : ∃ a rest, bytes = a :: rest := by
      match bytes with
      | [] => nomatch h
      | a :: rest => exact ⟨a, rest, rfl⟩
    obtain ⟨a, rest, rfl⟩ := hfirst
    have hlength := firstByte_of_isUnfinished h
    rw [utf8Size_replacement, List.length_cons]
    omega
  · rw [utf8Size_replacement]
    decide

@[simp] theorem fromUtf8Lossy_nil : fromUtf8Lossy [] = [] := Decoder.lossy_nil

/-- Text is shown as it is. -/
theorem fromUtf8Lossy_encode (text : List Char) :
    fromUtf8Lossy (text.flatMap String.utf8EncodeChar) = text := by
  induction text with
  | nil => exact fromUtf8Lossy_nil
  | cons c text ih =>
    have hfirst : utf8Decoder.first
        (String.utf8EncodeChar c ++ text.flatMap String.utf8EncodeChar) = some (c, c.utf8Size) :=
      firstChar_eq_some.mpr ⟨rfl, List.prefix_append _ _⟩
    have hne : String.utf8EncodeChar c ++ text.flatMap String.utf8EncodeChar ≠ [] :=
      List.append_ne_nil_of_left_ne_nil (List.ne_nil_of_length_pos (by
        rw [String.length_utf8EncodeChar]
        exact Char.utf8Size_pos c)) _
    rw [List.flatMap_cons, fromUtf8Lossy, Decoder.lossy_of_ne_nil hne,
      Decoder.shown_of_some utf8Decoder replacement hfirst,
      List.drop_left' (String.length_utf8EncodeChar c)]
    exact congrArg (c :: ·) ih

end TokenStation
