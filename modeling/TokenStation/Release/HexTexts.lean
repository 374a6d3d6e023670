import Mathlib.Algebra.GroupWithZero.Nat
import TokenStation.Library.Outcome
import TokenStation.Release.PluginPackage

/-!
# Keys and signatures as texts

Keys and signatures are handed over as hexadecimal texts, and whoever verifies a package reads texts
of somebody else. The text is cut every two bytes and each piece is given to the integer parser of
the standard library, so a cut inside a character panics, and a plus sign is taken for a digit.
-/

namespace TokenStation

namespace HexTexts

open Library PluginPackage

/-! ## Reading -/

/-- `char::to_digit(16)`. -/
def hexValue (c : Char) : Option ℕ :=
  if '0' ≤ c ∧ c ≤ '9' then some (c.toNat - '0'.toNat)
  else if 'a' ≤ c ∧ c ≤ 'f' then some (c.toNat - 'a'.toNat + 10)
  else if 'A' ≤ c ∧ c ≤ 'F' then some (c.toNat - 'A'.toNat + 10)
  else none

/-- The digits from the first on, as long as the number is one of a byte. -/
def parseDigits : ℕ → List Char → Option ℕ
  | acc, [] => some acc
  | acc, c :: digits =>
    match hexValue c with
    | none => none
    | some value => if acc * 16 + value < 256 then parseDigits (acc * 16 + value) digits else none

/-- `u8::from_str_radix(_, 16)`. -/
def fromStrRadix : List Char → Option UInt8
  | [] => none
  | ['+'] => none
  | '+' :: digits => (parseDigits 0 digits).map UInt8.ofNat
  | digits => (parseDigits 0 digits).map UInt8.ofNat

/-- The pieces of two bytes from the first on. The first one that is no number stops the rest. -/
def unhexPairs : ℕ → List Char → Outcome String (List UInt8)
  | 0, _ => .ok []
  | count + 1, text =>
    match byteTake text 2, byteDrop text 2 with
    | some piece, some rest =>
      match fromStrRadix piece with
      | none => .err "hex input has non-hex characters"
      | some byte => (unhexPairs count rest).bind fun bytes ↦ .ok (byte :: bytes)
    | _, _ => .panic

def unhex (text : String) : Outcome String (List UInt8) :=
  if text.utf8ByteSize % 2 ≠ 0 then .err "hex input has odd length"
  else unhexPairs (text.utf8ByteSize / 2) text.toList

def hex (bytes : List UInt8) : String := String.ofList (Hex.encode bytes)

/-- `str::trim`. -/
def trimmed (text : String) : String := String.ofList (trim text.toList)

/-- The bytes of a trimmed text, if they are as many as they should be. -/
def readArray (length : ℕ) (message text : String) : Outcome String (List UInt8) :=
  (unhex (trimmed text)).bind fun bytes ↦
    if bytes.length = length then .ok bytes else .err message

section Callers

variable {Key : Type}

/-- `load_signing_key`, of a file that reads as `text`. -/
def loadSigningKey (fromSeed : List UInt8 → Key) (path : String) (text : Except String String) :
    Outcome String Key :=
  match text with
  | .error error => .err s!"key `{path}`: {error}"
  | .ok text =>
    (readArray 32 s!"key `{path}` is not 32 bytes" text).bind fun seed ↦ .ok (fromSeed seed)

/-- `parse_public_key`, with the test for a point of the curve. -/
def parsePublicKey (fromBytes : List UInt8 → Except String Key) (hexKey : String) :
    Outcome String Key :=
  (readArray 32 "public key is not 32 bytes" hexKey).bind fun bytes ↦
    match fromBytes bytes with
    | .ok key => .ok key
    | .error error => .err s!"public key: {error}"

def verifyBytes (ed25519 : Ed25519) (message : List UInt8) (signatureHex : String) :
    Outcome String Unit :=
  (readArray 64 "signature is not 64 bytes" signatureHex).bind fun raw ↦
    if ed25519.verify message raw then .ok () else .err "signature does not verify"

def verifyPluginPackage (sha256 : List UInt8 → List UInt8) (ed25519 : Ed25519)
    (display : OsPath → String) (readSignature : Option DirEntry → Except String PluginSignature)
    (package : DirEntry) : Outcome String Unit :=
  match readSignature (package.at [pluginSignatureFile]) with
  | .error error => .err s!"signature.sig: {error}"
  | .ok parsed =>
    if parsed.formatVersion ≠ formatVersion then
      .err s!"signature.sig format version {parsed.formatVersion} is not {formatVersion}"
    else if parsed.algorithm ≠ "ed25519" then .err s!"unknown algorithm `{parsed.algorithm}`"
    else
      match pluginPackageDigest sha256 package with
      | .error error => .err (error.message display)
      | .ok digest => verifyBytes ed25519 (SelfDelimiting.utf8 digest) parsed.signature

end Callers

/-! ## What the texts should be -/

/-- An even number of hexadecimal digits and nothing else. -/
def IsHex (text : List Char) : Prop :=
  text.length % 2 = 0 ∧ ∀ c ∈ text, (hexValue c).isSome = true

/-- The value of a character, zero for what is no digit. -/
def digitOf (c : Char) : ℕ := (hexValue c).getD 0

/-- The bytes that digits denote. -/
def bytesOf : List Char → List UInt8
  | high :: low :: rest => UInt8.ofNat (digitOf high * 16 + digitOf low) :: bytesOf rest
  | _ => []

/-- The text is decoded exactly: without a panic, into the bytes of its digits, and not at all if it
is anything but digits. -/
def Exact (text : String) : Prop :=
  unhex text ≠ .panic ∧
    ∀ bytes, unhex text = .ok bytes ↔ IsHex text.toList ∧ bytes = bytesOf text.toList

/-! ## What they are -/

/-- Pairs of digits, with a plus sign for the first digit allowed. -/
def Accepted : List Char → Prop
  | [] => True
  | high :: low :: rest =>
    (high = '+' ∨ (hexValue high).isSome = true) ∧ (hexValue low).isSome = true ∧ Accepted rest
  | [_] => False

/-- The next two bytes do not end with a character. -/
def Straddles : List Char → Prop
  | [] => False
  | [c] => 3 ≤ c.utf8Size
  | c :: other :: _ => 3 ≤ c.utf8Size ∨ c.utf8Size = 1 ∧ other.utf8Size ≠ 1

/-- After pairs of digits there is a cut inside a character. -/
def Breaks (text : List Char) : Prop :=
  ∃ start rest, text = start ++ rest ∧ Accepted start ∧ Straddles rest

/-! ### Characters -/

theorem toNat_lt_of_hexValue {c : Char} (h : (hexValue c).isSome = true) : c.toNat < 103 := by
  have hle {last : Char} (hc : c ≤ last) : c.toNat ≤ last.toNat := hc
  rw [hexValue] at h
  split at h
  next hdigit => exact (hle hdigit.2).trans_lt (by decide)
  next =>
    split at h
    next hlower => exact (hle hlower.2).trans_lt (by decide)
    next =>
      split at h
      next hupper => exact (hle hupper.2).trans_lt (by decide)
      next => nomatch h

theorem utf8Size_of_hexValue {c : Char} (h : (hexValue c).isSome = true) : c.utf8Size = 1 := by
  rw [Char.utf8Size_eq_one_iff, UInt32.le_iff_toNat_le]
  exact (Nat.le_of_lt_succ (toNat_lt_of_hexValue h)).trans (by decide)

/-- The table of the digits: their values, and how they are written. -/
theorem hexValue_table : ∀ n < 103, ∀ value ∈ hexValue (Char.ofNat n),
    value < 16 ∧ (Char.ofNat n).toLower = Hex.digit value ∧
      isWhitespace (Char.ofNat n) = false := by
  decide

theorem hexValue_spec {c : Char} {value : ℕ} (h : hexValue c = some value) :
    value < 16 ∧ c.toLower = Hex.digit value ∧ isWhitespace c = false := by
  have hlt := toNat_lt_of_hexValue (Option.isSome_of_mem h)
  have htable := hexValue_table c.toNat hlt value
  rw [Char.ofNat_toNat] at htable
  exact htable h

theorem hexValue_lt {c : Char} {value : ℕ} (h : hexValue c = some value) : value < 16 :=
  (hexValue_spec h).1

theorem digitOf_plus : digitOf '+' = 0 := rfl

/-- What a pair has to be for the parser to take it. -/
def PairAccepted (high low : Char) : Prop :=
  (high = '+' ∨ (hexValue high).isSome = true) ∧ (hexValue low).isSome = true

theorem utf8Size_of_pairAccepted {high low : Char} (h : PairAccepted high low) :
    high.utf8Size = 1 ∧ low.utf8Size = 1 := by
  refine ⟨?_, utf8Size_of_hexValue h.2⟩
  rcases h.1 with rfl | hhigh
  · rfl
  · exact utf8Size_of_hexValue hhigh

theorem parseDigits_pair {high low : Char} (hhigh : (hexValue high).isSome = true)
    (hlow : (hexValue low).isSome = true) :
    parseDigits 0 [high, low] = some (digitOf high * 16 + digitOf low) := by
  obtain ⟨value, hvalue⟩ := Option.isSome_iff_exists.mp hhigh
  obtain ⟨value', hvalue'⟩ := Option.isSome_iff_exists.mp hlow
  have hlt := hexValue_lt hvalue
  have hlt' := hexValue_lt hvalue'
  simp only [parseDigits, hvalue, hvalue', digitOf, Option.getD_some]
  rw [if_pos (by omega), if_pos (by omega), Nat.zero_mul, Nat.zero_add]

theorem fromStrRadix_of_ne_plus {high low : Char} (h : high ≠ '+') :
    fromStrRadix [high, low] = (parseDigits 0 [high, low]).map UInt8.ofNat := by
  rw [fromStrRadix]
  · exact fun hnil ↦ nomatch hnil
  · exact fun hone ↦ nomatch (List.cons.inj hone).2
  · exact fun digits hplus ↦ h (List.cons.inj hplus).1

theorem fromStrRadix_plus (low : Char) :
    fromStrRadix ['+', low] = (parseDigits 0 [low]).map UInt8.ofNat := by
  rw [fromStrRadix]
  exact fun hnil ↦ nomatch hnil

/-- The parser takes the pair. -/
theorem fromStrRadix_of_accepted {high low : Char} (h : PairAccepted high low) :
    fromStrRadix [high, low] = some (UInt8.ofNat (digitOf high * 16 + digitOf low)) := by
  obtain ⟨hhigh, hlow⟩ := h
  by_cases hplus : high = '+'
  · subst hplus
    obtain ⟨value, hvalue⟩ := Option.isSome_iff_exists.mp hlow
    have hlt := hexValue_lt hvalue
    rw [fromStrRadix_plus, digitOf_plus]
    simp only [parseDigits, hvalue, digitOf, Option.getD_some]
    rw [if_pos (by omega)]
    rfl
  · rw [fromStrRadix_of_ne_plus hplus, parseDigits_pair (hhigh.resolve_left hplus) hlow]
    rfl

/-- The parser refuses the pair. -/
theorem fromStrRadix_of_not_accepted {high low : Char} (h : ¬ PairAccepted high low) :
    fromStrRadix [high, low] = none := by
  by_cases hplus : high = '+'
  · subst hplus
    have hlow : hexValue low = none := by
      by_contra hsome
      exact h ⟨.inl rfl, Option.isSome_iff_ne_none.mpr hsome⟩
    rw [fromStrRadix_plus, parseDigits, hlow]
    rfl
  · rw [fromStrRadix_of_ne_plus hplus, parseDigits]
    rcases hhigh : hexValue high with - | value
    · rfl
    · have hlow : hexValue low = none := by
        by_contra hsome
        refine h ⟨.inr ?_, Option.isSome_iff_ne_none.mpr hsome⟩
        rw [hhigh]
        rfl
      dsimp only
      split
      · rw [parseDigits, hlow]
        rfl
      · rfl

/-- A character of two bytes is no number. -/
theorem fromStrRadix_wide {c : Char} (h : c.utf8Size ≠ 1) : fromStrRadix [c] = none := by
  have hnone : hexValue c = none := by
    by_contra hsome
    exact h (utf8Size_of_hexValue (Option.isSome_iff_ne_none.mpr hsome))
  rw [fromStrRadix, parseDigits, hnone]
  · rfl
  · exact fun hnil ↦ nomatch hnil
  · rintro hplus
    obtain ⟨rfl, -⟩ := List.cons.inj hplus
    exact h rfl
  · rintro digits hplus
    obtain ⟨rfl, -⟩ := List.cons.inj hplus
    exact h rfl

/-! ### Pieces -/

/-- The number of bytes. -/
def byteSize (text : List Char) : ℕ := (text.map Char.utf8Size).sum

theorem utf8ByteSize_eq (text : String) : text.utf8ByteSize = byteSize text.toList := by
  have hlist (chars : List Char) : (String.ofList chars).utf8ByteSize = byteSize chars := by
    induction chars with
    | nil => rfl
    | cons c rest ih =>
      rw [String.ofList_cons, String.utf8ByteSize_append, String.utf8ByteSize_singleton, ih,
        byteSize, byteSize, List.map_cons, List.sum_cons]
  rw [← hlist, String.ofList_toList]

theorem byteSize_cons (c : Char) (rest : List Char) :
    byteSize (c :: rest) = c.utf8Size + byteSize rest := by
  rw [byteSize, List.map_cons, List.sum_cons, byteSize]

theorem unhexPairs_narrow {high low : Char} (hhigh : high.utf8Size = 1) (hlow : low.utf8Size = 1)
    (count : ℕ) (rest : List Char) :
    unhexPairs (count + 1) (high :: low :: rest) =
      match fromStrRadix [high, low] with
      | none => .err "hex input has non-hex characters"
      | some byte => (unhexPairs count rest).bind fun bytes ↦ .ok (byte :: bytes) := by
  have htake : byteTake (high :: low :: rest) 2 = some [high, low] := by
    rw [byteTake, hhigh, if_pos (by decide), byteTake, hlow, if_pos (by decide), byteTake]
    rfl
  have hdrop : byteDrop (high :: low :: rest) 2 = some rest := by
    rw [byteDrop, hhigh, if_pos (by decide), byteDrop, hlow, if_pos (by decide), byteDrop]
  rw [unhexPairs, htake, hdrop]

theorem unhexPairs_wide {c : Char} (hc : c.utf8Size = 2) (count : ℕ) (rest : List Char) :
    unhexPairs (count + 1) (c :: rest) = .err "hex input has non-hex characters" := by
  have htake : byteTake (c :: rest) 2 = some [c] := by
    rw [byteTake, hc, if_pos (by decide), byteTake]
    rfl
  have hdrop : byteDrop (c :: rest) 2 = some rest := by
    rw [byteDrop, hc, if_pos (by decide), byteDrop]
  rw [unhexPairs, htake, hdrop]
  dsimp only
  rw [fromStrRadix_wide (by rw [hc]; decide)]

theorem unhexPairs_straddles {text : List Char} (h : Straddles text) (count : ℕ) :
    unhexPairs (count + 1) text = .panic := by
  have htake : byteTake text 2 = none := by
    rcases text with - | ⟨c, - | ⟨other, rest⟩⟩
    · exact h.elim
    · rw [byteTake, if_neg (by rw [Straddles] at h; omega)]
    · rcases h with hc | ⟨hc, hother⟩
      · rw [byteTake, if_neg (by omega)]
      · have hpos := other.utf8Size_pos
        rw [byteTake, hc, if_pos (by decide), byteTake, if_neg (by omega)]
        rfl
  rw [unhexPairs, htake]

/-- The next piece: two characters, or one of two bytes, or part of one. -/
theorem piece_cases {text : List Char} {count : ℕ} (hsize : byteSize text = 2 * (count + 1)) :
    (∃ high low rest, text = high :: low :: rest ∧ high.utf8Size = 1 ∧ low.utf8Size = 1 ∧
        byteSize rest = 2 * count) ∨
      (∃ c rest, text = c :: rest ∧ c.utf8Size = 2) ∨ Straddles text := by
  rcases text with - | ⟨c, rest⟩
  · rw [byteSize] at hsize
    simp only [List.map_nil, List.sum_nil] at hsize
    omega
  · have hpos := c.utf8Size_pos
    rw [byteSize_cons] at hsize
    rcases rest with - | ⟨other, rest⟩
    · rw [byteSize] at hsize
      simp only [List.map_nil, List.sum_nil] at hsize
      by_cases hwide : c.utf8Size = 2
      · exact .inr (.inl ⟨c, [], rfl, hwide⟩)
      · exact .inr (.inr (by rw [Straddles]; omega))
    · rw [byteSize_cons] at hsize
      by_cases hwide : c.utf8Size = 2
      · exact .inr (.inl ⟨c, _, rfl, hwide⟩)
      · by_cases hboth : c.utf8Size = 1 ∧ other.utf8Size = 1
        · exact .inl ⟨c, other, rest, rfl, hboth.1, hboth.2, by omega⟩
        · exact .inr (.inr (by rw [Straddles]; omega))

theorem accepted_cons_cons {high low : Char} {rest : List Char} :
    Accepted (high :: low :: rest) ↔ PairAccepted high low ∧ Accepted rest := by
  rw [Accepted, PairAccepted, and_assoc]

theorem not_straddles_narrow {high low : Char} {rest : List Char} (hhigh : high.utf8Size = 1)
    (hlow : low.utf8Size = 1) : ¬ Straddles (high :: low :: rest) := by
  rw [Straddles]
  omega

theorem breaks_cons_cons {high low : Char} {rest : List Char} (hhigh : high.utf8Size = 1)
    (hlow : low.utf8Size = 1) :
    Breaks (high :: low :: rest) ↔ PairAccepted high low ∧ Breaks rest := by
  constructor
  · rintro ⟨start, tail, htext, haccepted, hstraddles⟩
    rcases start with - | ⟨first, - | ⟨second, start⟩⟩
    · rw [List.nil_append] at htext
      exact absurd (htext ▸ hstraddles) (not_straddles_narrow hhigh hlow)
    · exact haccepted.elim
    · rw [List.cons_append, List.cons_append, List.cons.injEq, List.cons.injEq] at htext
      obtain ⟨rfl, rfl, rfl⟩ := htext
      obtain ⟨hpair, hstart⟩ := accepted_cons_cons.mp haccepted
      exact ⟨hpair, start, tail, rfl, hstart, hstraddles⟩
  · rintro ⟨hpair, start, tail, rfl, hstart, hstraddles⟩
    exact ⟨high :: low :: start, tail, rfl, accepted_cons_cons.mpr ⟨hpair, hstart⟩, hstraddles⟩

theorem not_accepted_of_straddles {text : List Char} (h : Straddles text) : ¬ Accepted text := by
  rcases text with - | ⟨c, - | ⟨other, rest⟩⟩
  · exact h.elim
  · exact id
  · intro haccepted
    obtain ⟨hc, hother⟩ := utf8Size_of_pairAccepted (accepted_cons_cons.mp haccepted).1
    exact not_straddles_narrow hc hother h

/-- Nothing is accepted, and nothing breaks, at a character of two bytes. -/
theorem wide_stops {c : Char} {rest : List Char} (hc : c.utf8Size = 2) :
    ¬ Accepted (c :: rest) ∧ ¬ Breaks (c :: rest) := by
  have hnot (tail : List Char) : ¬ Accepted (c :: tail) := by
    rcases tail with - | ⟨other, tail⟩
    · exact id
    · intro haccepted
      have hnarrow := (utf8Size_of_pairAccepted (accepted_cons_cons.mp haccepted).1).1
      omega
  refine ⟨hnot rest, ?_⟩
  rintro ⟨start, tail, htext, haccepted, hstraddles⟩
  rcases start with - | ⟨first, start⟩
  · rw [List.nil_append] at htext
    rw [← htext] at hstraddles
    rcases rest with - | ⟨other, rest⟩ <;> rw [Straddles] at hstraddles <;> omega
  · obtain ⟨rfl, -⟩ := List.cons.inj htext
    exact hnot start haccepted

/-- **What the pieces come to.** -/
theorem unhexPairs_spec {text : List Char} {count : ℕ} (hsize : byteSize text = 2 * count) :
    (∀ bytes, unhexPairs count text = .ok bytes ↔ Accepted text ∧ bytes = bytesOf text) ∧
      (unhexPairs count text = .panic ↔ Breaks text) := by
  induction count generalizing text with
  | zero =>
    have hnil : text = [] := by
      rcases text with - | ⟨c, rest⟩
      · rfl
      · have hpos := c.utf8Size_pos
        rw [byteSize_cons] at hsize
        omega
    subst hnil
    refine ⟨fun bytes ↦ ?_, iff_of_false (fun h ↦ nomatch h) ?_⟩
    · rw [unhexPairs, bytesOf]
      exact ⟨fun h ↦ ⟨trivial, (Outcome.ok.inj h).symm⟩, fun h ↦ by rw [h.2]⟩
      exact fun high low rest hnil ↦ nomatch hnil
    · rintro ⟨start, rest, htext, -, hstraddles⟩
      obtain ⟨-, rfl⟩ := List.append_eq_nil_iff.mp htext.symm
      exact hstraddles
  | succ count ih =>
    rcases piece_cases hsize with ⟨high, low, rest, rfl, hhigh, hlow, hrest⟩ | ⟨c, rest, rfl, hc⟩ |
      hstraddles
    · obtain ⟨hok, hpanic⟩ := ih hrest
      rw [unhexPairs_narrow hhigh hlow, breaks_cons_cons hhigh hlow]
      simp only [accepted_cons_cons]
      by_cases hpair : PairAccepted high low
      · rw [fromStrRadix_of_accepted hpair, and_iff_right hpair, ← hpanic]
        simp only [and_iff_right hpair]
        refine ⟨fun bytes ↦ ?_, ?_⟩
        · rw [Outcome.bind_eq_ok, bytesOf]
          constructor
          · rintro ⟨tail, htail, hbytes⟩
            obtain ⟨haccepted, rfl⟩ := (hok tail).mp htail
            exact ⟨haccepted, (Outcome.ok.inj hbytes).symm⟩
          · rintro ⟨haccepted, rfl⟩
            exact ⟨_, (hok _).mpr ⟨haccepted, rfl⟩, rfl⟩
        · rcases unhexPairs count rest with tail | error | -
          · exact iff_of_false (fun h ↦ nomatch h) fun h ↦ nomatch h
          · exact iff_of_false (fun h ↦ nomatch h) fun h ↦ nomatch h
          · exact iff_of_true rfl rfl
      · rw [fromStrRadix_of_not_accepted hpair]
        exact ⟨fun bytes ↦ iff_of_false (fun h ↦ nomatch h) fun h ↦ hpair h.1.1,
          iff_of_false (fun h ↦ nomatch h) fun h ↦ hpair h.1⟩
    · obtain ⟨haccepted, hbreaks⟩ := @wide_stops c rest hc
      rw [unhexPairs_wide hc]
      exact ⟨fun bytes ↦ iff_of_false (fun h ↦ nomatch h) fun h ↦ haccepted h.1,
        iff_of_false (fun h ↦ nomatch h) hbreaks⟩
    · rw [unhexPairs_straddles hstraddles]
      exact ⟨fun bytes ↦ iff_of_false (fun h ↦ nomatch h) fun h ↦
        not_accepted_of_straddles hstraddles h.1,
        iff_of_true rfl ⟨[], text, rfl, trivial, hstraddles⟩⟩

/-- The text has an even number of bytes, and after its pairs it breaks, or one of them has a plus
sign. -/
def Misread (text : String) : Prop :=
  text.utf8ByteSize % 2 = 0 ∧
    (Breaks text.toList ∨ Accepted text.toList ∧ '+' ∈ text.toList)

theorem isHex_cons_cons {high low : Char} {rest : List Char} :
    IsHex (high :: low :: rest) ↔
      ((hexValue high).isSome = true ∧ (hexValue low).isSome = true) ∧ IsHex rest := by
  rw [IsHex, IsHex, List.forall_mem_cons, List.forall_mem_cons, List.length_cons, List.length_cons,
    Nat.add_mod_right (rest.length) 2]
  tauto

/-- Digits are pairs without a plus sign. -/
theorem isHex_iff {text : List Char} : IsHex text ↔ Accepted text ∧ '+' ∉ text := by
  induction text using bytesOf.induct with
  | case1 high low rest ih =>
    rw [isHex_cons_cons, accepted_cons_cons, ih, PairAccepted, List.mem_cons, List.mem_cons]
    have hplus {c : Char} (hc : (hexValue c).isSome = true) : '+' ≠ c := by
      rintro rfl
      nomatch hc
    constructor
    · rintro ⟨⟨hhigh, hlow⟩, hrest, hnot⟩
      refine ⟨⟨⟨.inr hhigh, hlow⟩, hrest⟩, ?_⟩
      rintro (heq | heq | hmem)
      · exact hplus hhigh heq
      · exact hplus hlow heq
      · exact hnot hmem
    · rintro ⟨⟨⟨hhigh, hlow⟩, hrest⟩, hnot⟩
      refine ⟨⟨hhigh.resolve_left ?_, hlow⟩, hrest, fun hmem ↦ hnot (.inr (.inr hmem))⟩
      rintro rfl
      exact hnot (.inl rfl)
  | case2 text htext =>
    rcases text with - | ⟨c, - | ⟨other, rest⟩⟩
    · exact iff_of_true ⟨rfl, fun _ hmem ↦ nomatch hmem⟩ ⟨trivial, List.not_mem_nil⟩
    · exact iff_of_false (fun h ↦ absurd h.1 (by simp)) fun h ↦ h.1
    · exact absurd rfl (htext c other rest)

theorem byteSize_of_accepted {text : List Char} (h : Accepted text) :
    byteSize text = 2 * (bytesOf text).length := by
  induction text using bytesOf.induct with
  | case1 high low rest ih =>
    obtain ⟨hpair, hrest⟩ := accepted_cons_cons.mp h
    obtain ⟨hhigh, hlow⟩ := utf8Size_of_pairAccepted hpair
    rw [byteSize_cons, byteSize_cons, hhigh, hlow, ih hrest, bytesOf, List.length_cons]
    omega
  | case2 text htext =>
    rcases text with - | ⟨c, - | ⟨other, rest⟩⟩
    · rfl
    · exact h.elim
    · exact absurd rfl (htext c other rest)

theorem length_of_accepted {text : List Char} (h : Accepted text) :
    text.length = 2 * (bytesOf text).length := by
  induction text using bytesOf.induct with
  | case1 high low rest ih =>
    rw [List.length_cons, List.length_cons, ih (accepted_cons_cons.mp h).2, bytesOf,
      List.length_cons]
    omega
  | case2 text htext =>
    rcases text with - | ⟨c, - | ⟨other, rest⟩⟩
    · rfl
    · exact h.elim
    · exact absurd rfl (htext c other rest)

theorem length_bytesOf {text : List Char} {length : ℕ} (h : Accepted text)
    (hsize : text.length = 2 * length) : (bytesOf text).length = length := by
  have hsame := (length_of_accepted h).symm.trans hsize
  exact Nat.eq_of_mul_eq_mul_left Nat.two_pos hsame

/-! ## Exactness -/

theorem unhex_eq_ok_iff {text : String} {bytes : List UInt8} :
    unhex text = .ok bytes ↔ Accepted text.toList ∧ bytes = bytesOf text.toList := by
  rw [unhex]
  split
  next hodd =>
    refine iff_of_false (fun h ↦ nomatch h) fun h ↦ hodd ?_
    rw [utf8ByteSize_eq, byteSize_of_accepted h.1, Nat.mul_mod_right]
  next heven =>
    have hsize := utf8ByteSize_eq text
    exact (unhexPairs_spec (by omega)).1 bytes

theorem unhex_eq_panic_iff {text : String} :
    unhex text = .panic ↔ text.utf8ByteSize % 2 = 0 ∧ Breaks text.toList := by
  rw [unhex]
  split
  next hodd => exact iff_of_false (fun h ↦ nomatch h) fun h ↦ hodd h.1
  next heven =>
    have hsize := utf8ByteSize_eq text
    rw [(unhexPairs_spec (by omega)).2]
    exact (and_iff_right (not_not.mp heven)).symm

theorem even_of_accepted {text : String} (h : Accepted text.toList) :
    text.utf8ByteSize % 2 = 0 := by
  rw [utf8ByteSize_eq, byteSize_of_accepted h, Nat.mul_mod_right]

/-- A text is decoded exactly unless it is misread. -/
theorem exact_iff (text : String) : Exact text ↔ ¬ Misread text := by
  constructor
  · rintro ⟨hpanic, hok⟩ ⟨hsize, hbreaks | ⟨haccepted, hplus⟩⟩
    · exact hpanic (unhex_eq_panic_iff.mpr ⟨hsize, hbreaks⟩)
    · have hhex := ((hok _).mp (unhex_eq_ok_iff.mpr ⟨haccepted, rfl⟩)).1
      exact (isHex_iff.mp hhex).2 hplus
  · intro h
    refine ⟨fun hpanic ↦ ?_, fun bytes ↦ ?_⟩
    · obtain ⟨hsize, hbreaks⟩ := unhex_eq_panic_iff.mp hpanic
      exact h ⟨hsize, .inl hbreaks⟩
    · rw [unhex_eq_ok_iff, isHex_iff]
      refine and_congr_left fun _ ↦ ⟨fun haccepted ↦ ⟨haccepted, fun hplus ↦ ?_⟩, And.left⟩
      exact h ⟨even_of_accepted haccepted, .inr ⟨haccepted, hplus⟩⟩

theorem hexValue_digit : ∀ n < 16, hexValue (Hex.digit n) = some n := by
  decide

/-- What is written is digits, and denotes what was written. -/
theorem bytesOf_encode (bytes : List UInt8) :
    IsHex (Hex.encode bytes) ∧ bytesOf (Hex.encode bytes) = bytes := by
  induction bytes with
  | nil => exact ⟨⟨rfl, fun _ hmem ↦ nomatch hmem⟩, rfl⟩
  | cons byte bytes ih =>
    have hbyte := byte.toNat_lt
    have hhigh := hexValue_digit (byte.toNat / 16) (by omega)
    have hlow := hexValue_digit (byte.toNat % 16) (by omega)
    have hstep : Hex.encode (byte :: bytes) =
        Hex.digit (byte.toNat / 16) :: Hex.digit (byte.toNat % 16) :: Hex.encode bytes := rfl
    rw [hstep, isHex_cons_cons, bytesOf, digitOf, digitOf, hhigh, hlow, ih.2]
    refine ⟨⟨⟨rfl, rfl⟩, ih.1⟩, ?_⟩
    rw [Option.getD_some, Option.getD_some, Nat.div_add_mod', UInt8.ofNat_toNat]

theorem unhex_hex (bytes : List UInt8) : unhex (hex bytes) = .ok bytes := by
  obtain ⟨hhex, hbytes⟩ := bytesOf_encode bytes
  rw [unhex_eq_ok_iff, hex, String.toList_ofList]
  exact ⟨(isHex_iff.mp hhex).1, hbytes.symm⟩

/-! ### Letter case -/

/-- The texts are the same up to letter case and the white space around them. -/
def SameText (text other : String) : Prop :=
  (trimmed text).toList.map Char.toLower = (trimmed other).toList.map Char.toLower

theorem map_toLower_of_isHex {text : List Char} (h : IsHex text) :
    text.map Char.toLower = Hex.encode (bytesOf text) := by
  induction text using bytesOf.induct with
  | case1 high low rest ih =>
    obtain ⟨⟨hhigh, hlow⟩, hrest⟩ := isHex_cons_cons.mp h
    obtain ⟨value, hvalue⟩ := Option.isSome_iff_exists.mp hhigh
    obtain ⟨value', hvalue'⟩ := Option.isSome_iff_exists.mp hlow
    obtain ⟨hlt, hlower, -⟩ := hexValue_spec hvalue
    obtain ⟨hlt', hlower', -⟩ := hexValue_spec hvalue'
    have hbyte : (UInt8.ofNat (value * 16 + value')).toNat = value * 16 + value' :=
      UInt8.toNat_ofNat_of_lt' (by rw [UInt8.size]; omega)
    have hdiv : (value * 16 + value') / 16 = value := by omega
    have hmod : (value * 16 + value') % 16 = value' := by omega
    rw [List.map_cons, List.map_cons, ih hrest, hlower, hlower', bytesOf, digitOf, digitOf, hvalue,
      hvalue', Option.getD_some, Option.getD_some, Hex.encode, Hex.encode, List.flatMap_cons,
      Hex.pair, hbyte, hdiv, hmod]
    rfl
  | case2 text htext =>
    rcases text with - | ⟨c, - | ⟨other, rest⟩⟩
    · rfl
    · exact absurd h.1 (by simp)
    · exact absurd rfl (htext c other rest)

theorem trimmed_eq_self {text : String} (h : ∀ c ∈ text.toList, isWhitespace c = false) :
    trimmed text = text := by
  have hdrop : text.toList.dropWhile isWhitespace = text.toList := by
    refine List.dropWhile_eq_self_iff.mpr fun hpos ↦ ?_
    rw [h _ (List.getElem_mem hpos)]
    exact Bool.false_ne_true
  rw [trimmed, trim, hdrop, trimEndMatches]
  refine (congrArg String.ofList (List.rdropWhile_eq_self_iff.mpr fun hne ↦ ?_)).trans
    String.ofList_toList
  rw [h _ (List.getLast_mem hne)]
  exact Bool.false_ne_true

theorem trimmed_hex (bytes : List UInt8) : trimmed (hex bytes) = hex bytes := by
  refine trimmed_eq_self fun c hc ↦ ?_
  rw [hex, String.toList_ofList] at hc
  obtain ⟨value, hvalue⟩ := Option.isSome_iff_exists.mp ((bytesOf_encode bytes).1.2 c hc)
  exact (hexValue_spec hvalue).2.2

theorem map_toLower_encode (bytes : List UInt8) :
    (Hex.encode bytes).map Char.toLower = Hex.encode bytes := by
  obtain ⟨hhex, hbytes⟩ := bytesOf_encode bytes
  rw [map_toLower_of_isHex hhex, hbytes]

theorem sameText_hex_iff {text : String} {bytes : List UInt8} :
    SameText text (hex bytes) ↔ (trimmed text).toList.map Char.toLower = Hex.encode bytes := by
  rw [SameText, trimmed_hex, hex, String.toList_ofList, map_toLower_encode]

/-- The plus sign of a text stays when its letters are made small. -/
theorem plus_mem_map_toLower {text : List Char} (h : '+' ∈ text) : '+' ∈ text.map Char.toLower :=
  List.mem_map.mpr ⟨'+', h, rfl⟩

/-- The text is decoded, with a plus sign taken for a digit. -/
def Signed (text : String) : Prop :=
  Accepted (trimmed text).toList ∧ '+' ∈ (trimmed text).toList

theorem map_toLower_iff_of_accepted {text : List Char} (h : Accepted text) :
    text.map Char.toLower = Hex.encode (bytesOf text) ↔ '+' ∉ text := by
  constructor
  · intro hsame hplus
    have hmem := plus_mem_map_toLower hplus
    rw [hsame] at hmem
    nomatch (bytesOf_encode _).1.2 _ hmem
  · intro hplus
    exact map_toLower_of_isHex (isHex_iff.mpr ⟨h, hplus⟩)

/-- What is decoded is written as it was, up to letter case, unless it has a plus sign. -/
theorem sameText_hex_iff_not_signed {text : String} {bytes : List UInt8}
    (h : unhex (trimmed text) = .ok bytes) : SameText text (hex bytes) ↔ ¬ Signed text := by
  rw [unhex_eq_ok_iff] at h
  rw [sameText_hex_iff, Signed]
  generalize (trimmed text).toList = list at h ⊢
  rw [and_iff_right h.1, h.2, map_toLower_iff_of_accepted h.1]

/-- Texts without a plus sign that are decoded to the same bytes are the same up to letter case. -/
theorem sameText_of_unhex {text other : String} {bytes : List UInt8}
    (h : unhex (trimmed text) = .ok bytes) (h' : unhex (trimmed other) = .ok bytes)
    (hsigned : ¬ Signed text) (hsigned' : ¬ Signed other) : SameText text other := by
  have hleft := sameText_hex_iff.mp ((sameText_hex_iff_not_signed h).mpr hsigned)
  have hright := sameText_hex_iff.mp ((sameText_hex_iff_not_signed h').mpr hsigned')
  exact hleft.trans hright.symm

/-! ## The callers -/

/-- The trimmed text is cut inside a character. -/
def Crashes (text : String) : Prop :=
  (trimmed text).utf8ByteSize % 2 = 0 ∧ Breaks (trimmed text).toList

/-- The trimmed text is as many bytes in digits. -/
def WellFormed (length : ℕ) (text : String) : Prop :=
  IsHex (trimmed text).toList ∧ (trimmed text).toList.length = 2 * length

/-- The trimmed text has a plus sign and passes for as many bytes in digits. -/
def Passes (length : ℕ) (text : String) : Prop :=
  Signed text ∧ (trimmed text).toList.length = 2 * length

/-- How a caller takes every text: it panics where the text is cut inside a character, it refuses
every other malformed text without a plus sign, and takes one that passes with a plus sign for the
digits of the bytes it is decoded to. -/
structure Guarded {α : Type} (length : ℕ) (call : String → Outcome String α) : Prop where
  panic_iff : ∀ text, call text = .panic ↔ Crashes text
  refuses : ∀ text, ¬ WellFormed length text → ¬ Crashes text → ¬ Passes length text →
    ∃ error, call text = .err error
  takes : ∀ text, Passes length text → ¬ WellFormed length text ∧
    ∃ other, WellFormed length other ∧ call text = call other

theorem readArray_eq_ok_iff {length : ℕ} {message text : String} {bytes : List UInt8} :
    readArray length message text = .ok bytes ↔ Accepted (trimmed text).toList ∧
      bytes = bytesOf (trimmed text).toList ∧ (trimmed text).toList.length = 2 * length := by
  rw [readArray, Outcome.bind_eq_ok]
  generalize trimmed text = text
  constructor
  · rintro ⟨found, hfound, h⟩
    obtain ⟨haccepted, rfl⟩ := unhex_eq_ok_iff.mp hfound
    split at h
    next hlength =>
      obtain rfl := Outcome.ok.inj h
      exact ⟨haccepted, rfl, by rw [length_of_accepted haccepted, hlength]⟩
    next => nomatch h
  · rintro ⟨haccepted, rfl, hsize⟩
    exact ⟨_, unhex_eq_ok_iff.mpr ⟨haccepted, rfl⟩, if_pos (length_bytesOf haccepted hsize)⟩

theorem readArray_eq_panic_iff {length : ℕ} {message text : String} :
    readArray length message text = .panic ↔ Crashes text := by
  rw [Crashes, ← unhex_eq_panic_iff, readArray]
  rcases unhex (trimmed text) with bytes | error | -
  · refine iff_of_false (fun h ↦ ?_) fun h ↦ nomatch h
    rw [Outcome.ok_bind] at h
    split at h <;> nomatch h
  · exact iff_of_false (fun h ↦ nomatch h) fun h ↦ nomatch h
  · exact iff_of_true rfl rfl

/-- An array is read from what is well formed or passes for it, and from nothing else. -/
theorem readArray_refuses {length : ℕ} {message text : String}
    (hmalformed : ¬ WellFormed length text) (hcrash : ¬ Crashes text)
    (hpasses : ¬ Passes length text) :
    ∃ error, readArray length message text = .err error := by
  rcases hfound : readArray length message text with bytes | error | -
  · rw [readArray_eq_ok_iff] at hfound
    rw [WellFormed] at hmalformed
    rw [Passes, Signed] at hpasses
    generalize (trimmed text).toList = list at hfound hmalformed hpasses
    obtain ⟨haccepted, -, hsize⟩ := hfound
    refine absurd ⟨isHex_iff.mpr ⟨haccepted, fun hplus ↦ ?_⟩, hsize⟩ hmalformed
    exact hpasses ⟨⟨haccepted, hplus⟩, hsize⟩
  · exact ⟨error, rfl⟩
  · exact absurd (readArray_eq_panic_iff.mp hfound) hcrash

/-- The digits of as many bytes are well formed, and read as them. -/
theorem readArray_hex (bytes : List UInt8) : WellFormed bytes.length (hex bytes) ∧
    ∀ message, readArray bytes.length message (hex bytes) = .ok bytes := by
  obtain ⟨hhex, hbytes⟩ := bytesOf_encode bytes
  have haccepted := (isHex_iff.mp hhex).1
  have hsize := length_of_accepted haccepted
  rw [hbytes] at hsize
  have hlist : (trimmed (hex bytes)).toList = Hex.encode bytes := by
    rw [trimmed_hex, hex, String.toList_ofList]
  rw [WellFormed, hlist]
  refine ⟨⟨hhex, hsize⟩, fun message ↦ ?_⟩
  rw [readArray_eq_ok_iff, hlist]
  exact ⟨haccepted, hbytes.symm, hsize⟩

theorem readArray_takes {length : ℕ} {text : String} (h : Passes length text) :
    ¬ WellFormed length text ∧ ∃ other, WellFormed length other ∧
      ∀ message, readArray length message text = readArray length message other := by
  have hread (message : String) :=
    @readArray_eq_ok_iff length message text (bytesOf (trimmed text).toList)
  rw [Passes, Signed] at h
  rw [WellFormed]
  generalize (trimmed text).toList = list at h hread ⊢
  obtain ⟨⟨haccepted, hplus⟩, hsize⟩ := h
  refine ⟨fun hformed ↦ (isHex_iff.mp hformed.1).2 hplus, ?_⟩
  -- the text a signer would have written for the same bytes
  obtain ⟨hformed, hsame⟩ := readArray_hex (bytesOf list)
  rw [length_bytesOf haccepted hsize] at hformed hsame
  refine ⟨hex (bytesOf list), hformed, fun message ↦ ?_⟩
  rw [(hread message).mpr ⟨haccepted, rfl, hsize⟩, hsame]

theorem bind_eq_panic_iff {α β : Type} {x : Outcome String α} {next : α → Outcome String β}
    (hnext : ∀ a, next a ≠ .panic) : x.bind next = .panic ↔ x = .panic := by
  rcases x with a | error | -
  · exact iff_of_false (hnext a) fun h ↦ nomatch h
  · exact iff_of_false (fun h ↦ nomatch h) fun h ↦ nomatch h
  · exact iff_of_true rfl rfl

/-- What reads an array and then does not panic is guarded. -/
theorem guarded_readArray {α : Type} {length : ℕ} {message : String}
    {next : List UInt8 → Outcome String α} (hnext : ∀ bytes, next bytes ≠ .panic) :
    Guarded length fun text ↦ (readArray length message text).bind next := by
  refine ⟨fun text ↦ ?_, fun text hmalformed hcrash hpasses ↦ ?_, fun text hpasses ↦ ?_⟩
  · rw [bind_eq_panic_iff hnext, readArray_eq_panic_iff]
  · obtain ⟨error, herror⟩ := @readArray_refuses length message text hmalformed hcrash hpasses
    refine ⟨error, ?_⟩
    rw [herror]
    rfl
  · obtain ⟨hmalformed, other, hformed, hsame⟩ := readArray_takes hpasses
    exact ⟨hmalformed, other, hformed, by rw [hsame]⟩

section Callers

variable {Key : Type}

theorem guarded_loadSigningKey (fromSeed : List UInt8 → Key) (path : String) :
    Guarded 32 fun text ↦ loadSigningKey fromSeed path (.ok text) :=
  guarded_readArray fun _ h ↦ nomatch h

theorem guarded_parsePublicKey (fromBytes : List UInt8 → Except String Key) :
    Guarded 32 (parsePublicKey fromBytes) := by
  refine guarded_readArray fun bytes h ↦ ?_
  split at h <;> nomatch h

theorem guarded_verifyBytes (ed25519 : Ed25519) (message : List UInt8) :
    Guarded 64 (verifyBytes ed25519 message) := by
  refine guarded_readArray fun bytes h ↦ ?_
  split at h <;> nomatch h

variable (sha256 : List UInt8 → List UInt8) (ed25519 : Ed25519) (display : OsPath → String)
variable (readSignature : Option DirEntry → Except String PluginSignature)

/-- The signature file is read, of the one format and the one algorithm, and the package has a
digest. -/
structure Reaches (package : DirEntry) (parsed : PluginSignature) (digest : String) : Prop where
  read : readSignature (package.at [pluginSignatureFile]) = .ok parsed
  format : parsed.formatVersion = formatVersion
  algorithm : parsed.algorithm = "ed25519"
  digested : pluginPackageDigest sha256 package = .ok digest

/-- The package is refused on the way, or it comes to the signature. -/
theorem verifyPluginPackage_cases (package : DirEntry) :
    (∃ error, verifyPluginPackage sha256 ed25519 display readSignature package = .err error ∧
        ∀ parsed digest, ¬ Reaches sha256 readSignature package parsed digest) ∨
      ∃ parsed digest, Reaches sha256 readSignature package parsed digest ∧
        verifyPluginPackage sha256 ed25519 display readSignature package =
          verifyBytes ed25519 (SelfDelimiting.utf8 digest) parsed.signature := by
  rw [verifyPluginPackage]
  rcases hread : readSignature (package.at [pluginSignatureFile]) with error | parsed
  · refine .inl ⟨_, rfl, fun parsed digest hreaches ↦ ?_⟩
    nomatch hread.symm.trans hreaches.read
  · have hsame {other : PluginSignature} {digest : String}
        (hreaches : Reaches sha256 readSignature package other digest) : other = parsed :=
      Except.ok.inj (hreaches.read.symm.trans hread)
    dsimp only
    split
    next hformat =>
      exact .inl ⟨_, rfl, fun other digest hreaches ↦ hformat (hsame hreaches ▸ hreaches.format)⟩
    next hformat =>
      split
      next halgorithm =>
        exact .inl ⟨_, rfl, fun other digest hreaches ↦
          halgorithm (hsame hreaches ▸ hreaches.algorithm)⟩
      next halgorithm =>
        rcases hdigest : pluginPackageDigest sha256 package with error | digest
        · refine .inl ⟨_, rfl, fun other digest hreaches ↦ ?_⟩
          nomatch hdigest.symm.trans hreaches.digested
        · exact .inr ⟨parsed, digest,
            ⟨hread, not_not.mp hformat, not_not.mp halgorithm, hdigest⟩, rfl⟩

/-- The verifier of a package crashes just where it comes to a text that is cut inside a character,
and refuses a package unless it comes to a text that is well formed or passes for it. -/
structure GuardedPackage (package : DirEntry) : Prop where
  panic_iff : verifyPluginPackage sha256 ed25519 display readSignature package = .panic ↔
    ∃ parsed digest, Reaches sha256 readSignature package parsed digest ∧ Crashes parsed.signature
  refuses : (∀ parsed digest, Reaches sha256 readSignature package parsed digest →
      ¬ WellFormed 64 parsed.signature ∧ ¬ Crashes parsed.signature ∧
        ¬ Passes 64 parsed.signature) →
    ∃ error, verifyPluginPackage sha256 ed25519 display readSignature package = .err error

theorem guardedPackage (package : DirEntry) :
    GuardedPackage sha256 ed25519 display readSignature package := by
  have hsame {parsed other : PluginSignature} {digest found : String}
      (h : Reaches sha256 readSignature package parsed digest)
      (h' : Reaches sha256 readSignature package other found) : parsed = other :=
    Except.ok.inj (h.read.symm.trans h'.read)
  rcases verifyPluginPackage_cases sha256 ed25519 display readSignature package with
    ⟨error, herror, hnone⟩ | ⟨parsed, digest, hreaches, hcall⟩
  · refine ⟨?_, fun _ ↦ ⟨error, herror⟩⟩
    rw [herror]
    exact iff_of_false (fun h ↦ nomatch h) fun ⟨parsed, digest, hreaches, _⟩ ↦
      hnone parsed digest hreaches
  · have hguarded := guarded_verifyBytes ed25519 (SelfDelimiting.utf8 digest)
    refine ⟨?_, fun h ↦ ?_⟩
    · rw [hcall, hguarded.panic_iff]
      refine ⟨fun hcrash ↦ ⟨parsed, digest, hreaches, hcrash⟩, ?_⟩
      rintro ⟨other, found, hother, hcrash⟩
      rwa [hsame hreaches hother]
    · obtain ⟨hmalformed, hcrash, hpasses⟩ := h parsed digest hreaches
      rw [hcall]
      exact hguarded.refuses _ hmalformed hcrash hpasses

end Callers

/-- **When texts are decoded exactly.** A text is unless it is misread; whoever reads a key or a
signature panics just at a cut inside a character, refuses every other malformed text without a plus
sign and takes one that passes with it; and bytes are written in one way up to letter case and the
white space around them, plus signs apart. -/
theorem exact_iff_not_misread (text : String) :
    (Exact text ↔ ¬ Misread text) ∧ (∀ bytes, unhex (hex bytes) = .ok bytes) ∧
      (∀ (Key : Type) (fromSeed : List UInt8 → Key) (path : String),
        Guarded 32 fun text ↦ loadSigningKey fromSeed path (.ok text)) ∧
      (∀ (Key : Type) (fromBytes : List UInt8 → Except String Key),
        Guarded 32 (parsePublicKey fromBytes)) ∧
      (∀ ed25519 message, Guarded 64 (verifyBytes ed25519 message)) ∧
      (∀ sha256 ed25519 display readSignature package,
        GuardedPackage sha256 ed25519 display readSignature package) ∧
      (∀ text bytes, unhex (trimmed text) = .ok bytes →
        (SameText text (hex bytes) ↔ ¬ Signed text)) ∧
      ∀ text other bytes, unhex (trimmed text) = .ok bytes → unhex (trimmed other) = .ok bytes →
        ¬ Signed text → ¬ Signed other → SameText text other :=
  ⟨exact_iff text, unhex_hex, @guarded_loadSigningKey, @guarded_parsePublicKey, guarded_verifyBytes,
    guardedPackage, fun _ _ h ↦ sameText_hex_iff_not_signed h,
    fun _ _ _ h h' hsigned hsigned' ↦ sameText_of_unhex h h' hsigned hsigned'⟩

/-- A euro sign before a letter is cut, and a plus sign is read as a digit. -/
theorem not_exact : (unhex "€a" = .panic ∧ ¬ Exact "€a") ∧
    unhex "+f" = .ok [15] ∧ unhex "0f" = .ok [15] ∧ ¬ Exact "+f" := by
  have hcut : unhex "€a" = .panic := by decide +kernel
  have hplus : unhex "+f" = .ok [15] := by decide +kernel
  refine ⟨⟨hcut, fun h ↦ h.1 hcut⟩, hplus, by decide +kernel, fun h ↦ ?_⟩
  nomatch ((h.2 _).mp hplus).1.2 '+' (by decide)

end HexTexts

end TokenStation
