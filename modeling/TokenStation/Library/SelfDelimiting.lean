import Mathlib.Data.Nat.Notation
import Mathlib.Tactic.Common

/-!
# Self-delimiting byte formats

A format writes a value so that a reader knows where it ends. Such formats are put together for
pairs and lists, and carried over to any type that can be taken apart into another.
-/

namespace Library

/-- A writer and a reader that stops where the writer stopped. -/
structure SelfDelimiting (α : Type) where
  write : α → List UInt8
  read : List UInt8 → Option (α × List UInt8)
  read_write_append : ∀ a rest, read (write a ++ rest) = some (a, rest)

namespace SelfDelimiting

variable {α β : Type}

def byte : SelfDelimiting UInt8 where
  write b := [b]
  read
    | [] => none
    | b :: rest => some (b, rest)
  read_write_append _ _ := rfl

/-- A format for a type of which every value can be taken apart and put together again. -/
def via (format : SelfDelimiting β) (split : α → β) (join : β → α)
    (h : ∀ a, join (split a) = a) : SelfDelimiting α where
  write a := format.write (split a)
  read bytes := (format.read bytes).map fun found ↦ (join found.1, found.2)
  read_write_append a rest := by
    rw [format.read_write_append, Option.map_some, h]

/-- One value after the other. -/
def pair (first : SelfDelimiting α) (second : SelfDelimiting β) : SelfDelimiting (α × β) where
  write ab := first.write ab.1 ++ second.write ab.2
  read bytes :=
    (first.read bytes).bind fun a ↦
      (second.read a.2).map fun b ↦ ((a.1, b.1), b.2)
  read_write_append ab rest := by
    rw [List.append_assoc, first.read_write_append, Option.bind_some, second.read_write_append,
      Option.map_some]

/-- As many ones as the number says, and a zero. -/
def writeNat : ℕ → List UInt8
  | 0 => [0]
  | n + 1 => 1 :: writeNat n

def readNat : List UInt8 → Option (ℕ × List UInt8)
  | [] => none
  | mark :: bytes =>
    if mark = 0 then some (0, bytes)
    else (readNat bytes).map fun found ↦ (found.1 + 1, found.2)

theorem readNat_writeNat_append (n : ℕ) (rest : List UInt8) :
    readNat (writeNat n ++ rest) = some (n, rest) := by
  induction n with
  | zero => rfl
  | succ n ih =>
    have hmark : (1 : UInt8) ≠ 0 := by decide
    rw [writeNat, List.cons_append, readNat, if_neg hmark, ih, Option.map_some]

def nat : SelfDelimiting ℕ := ⟨writeNat, readNat, readNat_writeNat_append⟩

/-- Read so many members. -/
def readMany (format : SelfDelimiting α) : ℕ → List UInt8 → Option (List α × List UInt8)
  | 0, bytes => some ([], bytes)
  | count + 1, bytes =>
    (format.read bytes).bind fun a ↦
      (readMany format count a.2).map fun found ↦ (a.1 :: found.1, found.2)

theorem readMany_flatMap_append (format : SelfDelimiting α) (list : List α)
    (rest : List UInt8) :
    readMany format list.length (list.flatMap format.write ++ rest) = some (list, rest) := by
  induction list with
  | nil => rfl
  | cons a list ih =>
    rw [List.length_cons, readMany, List.flatMap_cons, List.append_assoc,
      format.read_write_append, Option.bind_some, ih, Option.map_some]

/-- The number of members, and the members. -/
def list (format : SelfDelimiting α) : SelfDelimiting (List α) where
  write list := nat.write list.length ++ list.flatMap format.write
  read bytes := (nat.read bytes).bind fun count ↦ readMany format count.1 count.2
  read_write_append list rest := by
    rw [List.append_assoc, nat.read_write_append, Option.bind_some, readMany_flatMap_append]

def option (format : SelfDelimiting α) : SelfDelimiting (Option α) :=
  via (list format) Option.toList List.head? fun a ↦ by rcases a with _ | a <;> rfl

def bool : SelfDelimiting Bool :=
  via byte (fun b ↦ if b then 1 else 0) (· == 1) fun b ↦ by rcases b <;> rfl

def uint32 : SelfDelimiting UInt32 :=
  via nat UInt32.toNat UInt32.ofNat fun _ ↦ UInt32.ofNat_toNat

/-! ## Text -/

/-- Read a character of UTF-8, whose first byte says how many there are. -/
def readChar : List UInt8 → Option (Char × List UInt8)
  | [] => none
  | a :: rest =>
    if a.toNat < 0x80 then some (Char.ofNat a.toNat, rest)
    else
      match rest with
      | [] => none
      | b :: rest =>
        if a.toNat < 0xe0 then
          some (Char.ofNat ((a.toNat - 0xc0) * 64 + (b.toNat - 0x80)), rest)
        else
          match rest with
          | [] => none
          | c :: rest =>
            if a.toNat < 0xf0 then
              some (Char.ofNat ((a.toNat - 0xe0) * 4096 + (b.toNat - 0x80) * 64
                + (c.toNat - 0x80)), rest)
            else
              match rest with
              | [] => none
              | d :: rest =>
                some (Char.ofNat ((a.toNat - 0xf0) * 262144 + (b.toNat - 0x80) * 4096
                  + (c.toNat - 0x80) * 64 + (d.toNat - 0x80)), rest)

theorem readChar_utf8EncodeChar_append (c : Char) (rest : List UInt8) :
    readChar (String.utf8EncodeChar c ++ rest) = some (c, rest) := by
  have hvalid : c.toNat < 1114112 := by
    rcases c.valid with h | ⟨-, h⟩
    · exact Nat.lt_trans h (by decide)
    · exact h
  have hval : c.val.toNat = c.toNat := rfl
  have hchar : ∀ n, n = c.toNat → Char.ofNat n = c := fun n hn ↦ hn ▸ Char.ofNat_toNat c
  -- one case for each number of bytes
  rw [String.utf8EncodeChar]
  simp only [hval]
  split
  next h =>
    simp only [List.cons_append, List.nil_append, readChar, UInt8.toNat_ofNat']
    rw [if_pos (by omega), hchar _ (by omega)]
  split
  next h =>
    simp only [List.cons_append, List.nil_append, readChar, UInt8.toNat_ofNat']
    rw [if_neg (by omega), if_pos (by omega), hchar _ (by omega)]
  split
  next h =>
    simp only [List.cons_append, List.nil_append, readChar, UInt8.toNat_ofNat']
    rw [if_neg (by omega), if_neg (by omega), if_pos (by omega), hchar _ (by omega)]
  next h =>
    simp only [List.cons_append, List.nil_append, readChar, UInt8.toNat_ofNat']
    rw [if_neg (by omega), if_neg (by omega), if_neg (by omega), hchar _ (by omega)]

/-- The characters of some bytes, of which there are at most `fuel`. -/
def readChars : ℕ → List UInt8 → List Char
  | 0, _ => []
  | fuel + 1, bytes =>
    match readChar bytes with
    | none => []
    | some (c, rest) => c :: readChars fuel rest

theorem readChars_flatMap {chars : List Char} {fuel : ℕ} (h : chars.length ≤ fuel) :
    readChars fuel (chars.flatMap String.utf8EncodeChar) = chars := by
  induction chars generalizing fuel with
  | nil =>
    rcases fuel with _ | fuel
    · rfl
    · rfl
  | cons c chars ih =>
    obtain ⟨fuel, rfl⟩ := Nat.exists_eq_succ_of_ne_zero (Nat.ne_zero_of_lt h)
    rw [List.flatMap_cons, readChars, readChar_utf8EncodeChar_append]
    exact congrArg (c :: ·) (ih (Nat.le_of_succ_le_succ h))

theorem length_le_length_flatMap (chars : List Char) :
    chars.length ≤ (chars.flatMap String.utf8EncodeChar).length := by
  induction chars with
  | nil => exact Nat.le_refl 0
  | cons c chars ih =>
    have hpos : 0 < (String.utf8EncodeChar c).length :=
      List.length_pos_iff.mpr String.utf8EncodeChar_ne_nil
    rw [List.flatMap_cons, List.length_cons, List.length_append]
    omega

/-- The bytes of a text. -/
def utf8 (text : String) : List UInt8 := text.toByteArray.data.toList

theorem utf8_eq_flatMap (text : String) :
    utf8 text = text.toList.flatMap String.utf8EncodeChar := by
  rw [utf8, ← String.utf8Encode_toList, List.utf8Encode, List.data_toByteArray]

/-- The number of bytes, and the bytes. -/
def string : SelfDelimiting String where
  write text := nat.write (utf8 text).length ++ utf8 text
  read bytes := (nat.read bytes).map fun found ↦
    (String.ofList (readChars found.1 (found.2.take found.1)), found.2.drop found.1)
  read_write_append text rest := by
    have hchars : readChars (utf8 text).length (utf8 text) = text.toList := by
      rw [utf8_eq_flatMap]
      exact readChars_flatMap (length_le_length_flatMap _)
    rw [List.append_assoc, nat.read_write_append, Option.map_some, List.take_left, List.drop_left,
      hchars, String.ofList_toList]

end SelfDelimiting

end Library
