import Mathlib.Data.List.Infix

/-!
# Readings of a URL path

A path is a list of bytes, rooted at a slash. Servers disagree on when percent escapes are decoded:
not at all, everything but an escaped slash inside each segment, or the whole path before it is cut
into segments. Each of these readings cuts the path at its slashes and then reads every piece on its
own (`Reading.segments`), so a property of all segments under a reading follows from a property of
each raw segment.
-/

namespace Library

/-- A path segment, as bytes. -/
abbrev Segment : Type := List UInt8

namespace UrlPath

/-- The byte `/`. -/
def slash : UInt8 := 47

/-- The byte `%`. -/
def percent : UInt8 := 37

def dot : Segment := [46]

def dotDot : Segment := [46, 46]

/-- The value of a hexadecimal digit. -/
def hexNibble (byte : UInt8) : Option UInt8 :=
  if 48 ≤ byte ∧ byte ≤ 57 then some (byte - 48)
  else if 97 ≤ byte ∧ byte ≤ 102 then some (byte - 97 + 10)
  else if 65 ≤ byte ∧ byte ≤ 70 then some (byte - 65 + 10)
  else none

/-- The byte that two hexadecimal digits spell. -/
def hexByte (high low : UInt8) : Option UInt8 :=
  match hexNibble high, hexNibble low with
  | some high, some low => some (high <<< 4 ||| low)
  | _, _ => none

theorem hexByte_slash_left (low : UInt8) : hexByte slash low = none := rfl

theorem hexByte_slash_right (high : UInt8) : hexByte high slash = none := by
  have hslash : hexNibble slash = none := rfl
  rw [hexByte, hslash]
  cases hexNibble high <;> rfl

/-- Decode the escapes of a list of bytes once. With `keepSlash`, an escape of a slash stays as it
is; text that is no escape always does. -/
def percentDecode (keepSlash : Bool) : List UInt8 → List UInt8
  | [] => []
  | byte :: high :: low :: rest =>
    if byte = percent then
      match hexByte high low with
      | some decoded =>
        if keepSlash && decoded == slash then byte :: high :: low :: percentDecode keepSlash rest
        else decoded :: percentDecode keepSlash rest
      | none => byte :: percentDecode keepSlash (high :: low :: rest)
    else byte :: percentDecode keepSlash (high :: low :: rest)
  | byte :: rest => byte :: percentDecode keepSlash rest

/-- The segments of a rooted path. -/
def segments : List UInt8 → List Segment
  | [] => []
  | byte :: rest => if byte = slash then rest.splitOn slash else []

/-- Remove the segments that stand for the current directory, and those that step back together with
the segment before them. A path that ends in one of them ends in an empty segment. -/
def removeDotSegments (out : List Segment) : List Segment → List Segment
  | [] => out
  | [segment] =>
    if segment = dot then out ++ [[]]
    else if segment = dotDot then out.dropLast ++ [[]]
    else out ++ [segment]
  | segment :: rest =>
    if segment = dot then removeDotSegments out rest
    else if segment = dotDot then removeDotSegments out.dropLast rest
    else removeDotSegments (out ++ [segment]) rest

theorem removeDotSegments_eq {out l : List Segment} (h : ∀ s ∈ l, s ≠ dot ∧ s ≠ dotDot) :
    removeDotSegments out l = out ++ l := by
  induction l generalizing out with
  | nil => rw [removeDotSegments, List.append_nil]
  | cons segment rest ih =>
    obtain ⟨hdot, hdotDot⟩ := h segment List.mem_cons_self
    have hrest : ∀ s ∈ rest, s ≠ dot ∧ s ≠ dotDot := fun s hs ↦ h s (List.mem_cons_of_mem _ hs)
    cases rest with
    | nil => rw [removeDotSegments, if_neg hdot, if_neg hdotDot]
    | cons next rest =>
      rw [removeDotSegments, if_neg hdot, if_neg hdotDot, ih hrest, List.append_assoc,
        List.singleton_append]
      exact List.cons_ne_nil next rest

/-! ## Readings -/

/-- When the escapes of a path are decoded. -/
inductive Reading where
  /-- Never. -/
  | raw
  /-- Inside the segments, except for escaped slashes. -/
  | keepEncodedSlash
  /-- Before the path is cut into segments. -/
  | decodeAll
  deriving DecidableEq

/-- The segments of a path under a reading. -/
def Reading.segments (reading : Reading) (path : List UInt8) : List Segment :=
  match reading with
  | raw => UrlPath.segments path
  | keepEncodedSlash => (UrlPath.segments path).map (percentDecode true)
  | decodeAll => UrlPath.segments (percentDecode false path)

/-- What a reading makes of one raw segment. -/
def Reading.pieces (reading : Reading) (segment : Segment) : List Segment :=
  match reading with
  | raw => [segment]
  | keepEncodedSlash => [percentDecode true segment]
  | decodeAll => (percentDecode false segment).splitOn slash

/-! ### Decoding and cutting -/

theorem percentDecode_slash (keepSlash : Bool) (rest : List UInt8) :
    percentDecode keepSlash (slash :: rest) = slash :: percentDecode keepSlash rest := by
  match rest with
  | [] => rfl
  | [_] => rfl
  | _ :: _ :: _ => rw [percentDecode, if_neg (by decide)]

/-- An escape never reaches across a slash. -/
theorem percentDecode_append_slash (keepSlash : Bool) (rest : List UInt8) : ∀ start : List UInt8,
    percentDecode keepSlash (start ++ slash :: rest) =
      percentDecode keepSlash start ++ slash :: percentDecode keepSlash rest
  | [] => percentDecode_slash keepSlash rest
  | [byte] => by
    match rest with
    | [] => rfl
    | next :: rest =>
      have hdecoded := percentDecode_slash keepSlash (next :: rest)
      rw [List.singleton_append, percentDecode, hexByte_slash_left]
      split <;> rw [hdecoded] <;> rfl
  | [byte, high] => by
    have ih : percentDecode keepSlash (high :: slash :: rest) =
        high :: slash :: percentDecode keepSlash rest :=
      percentDecode_append_slash keepSlash rest [high]
    simp only [List.cons_append, List.nil_append, percentDecode, hexByte_slash_right, ih]
    exact ite_self _
  | byte :: high :: low :: start => by
    have hshort := percentDecode_append_slash keepSlash rest start
    have hlong := percentDecode_append_slash keepSlash rest (high :: low :: start)
    simp only [List.cons_append] at hlong
    simp only [List.cons_append, percentDecode]
    split
    · split
      · split
        · rw [hshort]; rfl
        · rw [hshort]; rfl
      · rw [hlong]; rfl
    · rw [hlong]; rfl

theorem percentDecode_ne_nil (keepSlash : Bool) {s : List UInt8} (h : s ≠ []) :
    percentDecode keepSlash s ≠ [] := by
  fun_cases percentDecode keepSlash s with
  | case1 => exact absurd rfl h
  | _ => exact List.cons_ne_nil _ _

/-- An escape of a slash that stays leaves its three bytes behind. -/
theorem percentDecode_eq_or_length (s : List UInt8) :
    percentDecode true s = percentDecode false s ∨ 3 ≤ (percentDecode true s).length := by
  have hcons : ∀ {byte : UInt8} {kept all : List UInt8}, kept = all ∨ 3 ≤ kept.length →
      byte :: kept = byte :: all ∨ 3 ≤ (byte :: kept).length := by
    intro byte kept all h
    exact h.imp (congrArg (List.cons byte)) fun hlength ↦ hlength.trans (Nat.le_succ _)
  fun_induction percentDecode true s with
  | case1 => exact .inl rfl
  | case2 byte high low rest => exact .inr (by simp)
  | case3 high low rest decoded hhex hkept ih =>
    rw [percentDecode, if_pos rfl, hhex]
    exact hcons ih
  | case4 high low rest hhex ih =>
    rw [percentDecode, if_pos rfl, hhex]
    exact hcons ih
  | case5 byte high low rest hbyte ih =>
    rw [percentDecode, if_neg hbyte]
    exact hcons ih
  | case6 byte rest hshort ih =>
    rw [percentDecode.eq_3 _ _ _ hshort]
    exact hcons ih

theorem splitOn_percentDecode_intercalate : ∀ {l : List Segment}, l ≠ [] →
    (∀ s ∈ l, slash ∉ s) → (percentDecode false ([slash].intercalate l)).splitOn slash =
      l.flatMap Reading.decodeAll.pieces
  | [], h, _ => absurd rfl h
  | [s], _, _ => by simp [Reading.pieces]
  | s :: t :: l, _, h => by
    have ih := splitOn_percentDecode_intercalate (List.cons_ne_nil t l) fun u hu ↦
      h u (List.mem_cons_of_mem _ hu)
    rw [List.intercalate_cons_cons, List.append_assoc, List.singleton_append,
      percentDecode_append_slash, List.splitOn_append_cons_self, ih, List.flatMap_cons]
    rfl

theorem not_mem_of_mem_splitOn {path : List UInt8} {s : Segment} (h : s ∈ path.splitOn slash) :
    slash ∉ s := by
  induction path generalizing s with
  | nil =>
    obtain rfl := List.mem_singleton.mp h
    exact List.not_mem_nil
  | cons byte path ih =>
    rw [List.splitOn_cons_eq_if_modifyHead] at h
    split at h
    · rcases List.mem_cons.mp h with rfl | htail
      · exact List.not_mem_nil
      · exact ih htail
    next hbyte =>
      obtain ⟨first, rest, hsplit⟩ := List.exists_cons_of_ne_nil (List.splitOn_ne_nil slash path)
      rw [hsplit, List.modifyHead_cons] at h
      rcases List.mem_cons.mp h with rfl | htail
      · intro hmem
        rcases List.mem_cons.mp hmem with heq | hfirst
        · exact hbyte (by rw [heq, beq_self_eq_true])
        · exact ih (hsplit ▸ List.mem_cons_self) hfirst
      · exact ih (hsplit ▸ List.mem_cons_of_mem _ htail)

/-- A path that is empty or starts at a slash. -/
def Rooted (path : List UInt8) : Prop := path = [] ∨ ∃ rest, path = slash :: rest

theorem segments_slash (rest : List UInt8) : segments (slash :: rest) = rest.splitOn slash := by
  rw [segments, if_pos rfl]

/-- **Every reading works segment by segment.** -/
theorem Reading.segments_eq_flatMap (reading : Reading) {path : List UInt8} (h : Rooted path) :
    reading.segments path = (UrlPath.segments path).flatMap reading.pieces := by
  cases reading with
  | raw => exact (List.flatMap_singleton' _).symm
  | keepEncodedSlash => exact List.map_eq_flatMap
  | decodeAll =>
    rcases h with rfl | ⟨rest, rfl⟩
    · rfl
    · have hsplit := splitOn_percentDecode_intercalate (List.splitOn_ne_nil slash rest)
        fun _ ↦ not_mem_of_mem_splitOn
      rw [List.intercalate_splitOn] at hsplit
      rw [Reading.segments, percentDecode_slash, segments_slash, segments_slash, hsplit]

theorem Rooted.append {path tail : List UInt8} (h : Rooted path) (ht : Rooted tail) :
    Rooted (path ++ tail) := by
  rcases h with rfl | ⟨rest, rfl⟩
  · exact ht
  · exact .inr ⟨rest ++ tail, rfl⟩

theorem segments_append {path tail : List UInt8} (h : Rooted path) (ht : Rooted tail) :
    segments (path ++ tail) = segments path ++ segments tail := by
  rcases h with rfl | ⟨rest, rfl⟩
  · rfl
  · rcases ht with rfl | ⟨rest', rfl⟩
    · rw [List.append_nil, segments, List.append_nil]
    · rw [List.cons_append, segments_slash, segments_slash, segments_slash,
        List.splitOn_append_cons_self]

theorem mem_splitOn_of_mem_segments {path : List UInt8} {s : Segment} (h : s ∈ segments path) :
    s ∈ path.splitOn slash := by
  cases path with
  | nil => nomatch h
  | cons byte rest =>
    rw [segments] at h
    split at h
    next hbyte =>
      rw [List.splitOn_cons_eq_if_modifyHead, if_pos (beq_iff_eq.mpr hbyte)]
      exact List.mem_cons_of_mem _ h
    · nomatch h

/-! ### Interior segments -/

theorem pair_mem_append {a b : UInt8} {start rest : List UInt8} (h : [a, b] <:+: start ++ rest) :
    [a, b] <:+: start ∨ [a, b] <:+: rest ∨ start.getLast? = some a ∧ rest.head? = some b := by
  induction start with
  | nil => exact .inr (.inl h)
  | cons byte start ih =>
    rw [List.cons_append, List.infix_cons_iff] at h
    rcases h with hfront | hlater
    · obtain ⟨rfl, hnext⟩ := List.cons_prefix_cons.mp hfront
      cases start with
      | nil =>
        obtain ⟨tail, htail⟩ := hnext
        exact .inr (.inr ⟨rfl, by rw [List.nil_append] at htail; rw [← htail]; rfl⟩)
      | cons next start =>
        obtain ⟨rfl, -⟩ := List.cons_prefix_cons.mp hnext
        exact .inl ⟨[], start, rfl⟩
    · rcases ih hlater with hstart | hrest | ⟨hlast, hhead⟩
      · exact .inl (List.infix_cons hstart)
      · exact .inr (.inl hrest)
      · refine .inr (.inr ⟨?_, hhead⟩)
        rw [List.getLast?_cons, hlast]
        rfl

theorem splitOn_tail_dropLast_ne_nil {path : List UInt8} (h : ¬ [slash, slash] <:+: path) :
    ∀ s ∈ (path.splitOn slash).tail.dropLast, s ≠ [] := by
  induction path with
  | nil => exact fun s hs ↦ nomatch hs
  | cons byte path ih =>
    have hpath : ¬ [slash, slash] <:+: path := by
      intro hslashes
      exact h (hslashes.trans (List.suffix_cons byte path).isInfix)
    obtain ⟨first, rest, hsplit⟩ := List.exists_cons_of_ne_nil (List.splitOn_ne_nil slash path)
    rw [List.splitOn_cons_eq_if_modifyHead]
    split
    next hbyte =>
      -- the first piece of the rest is interior only if another slash follows it
      obtain rfl : byte = slash := by simpa using hbyte
      rw [List.tail_cons]
      intro s hs
      rw [hsplit] at hs ih
      match rest, hsplit with
      | [], _ => nomatch hs
      | next :: rest, hsplit =>
        rw [List.dropLast_cons_cons] at hs
        rcases List.mem_cons.mp hs with rfl | htail
        · rintro rfl
          match path, hsplit, h with
          | [], hsplit, _ => simp at hsplit
          | head :: path, hsplit, h =>
            rw [List.splitOn_cons_eq_if_modifyHead] at hsplit
            split at hsplit
            next hhead =>
              obtain rfl : head = slash := by simpa using hhead
              exact h ⟨[], path, rfl⟩
            next =>
              cases hmore : path.splitOn slash <;> rw [hmore] at hsplit <;> nomatch hsplit
        · exact ih hpath s htail
    · rw [hsplit, List.modifyHead_cons]
      rw [hsplit] at ih
      exact ih hpath

theorem dropLast_flatMap_ne_nil {f : Segment → List Segment} {l : List Segment}
    (hl : ∀ s ∈ l.dropLast, s ≠ []) (hf : ∀ s ∈ l, s ≠ [] → ∀ piece ∈ f s, piece ≠ [])
    (hnil : f [] = [[]]) : ∀ piece ∈ (l.flatMap f).dropLast, piece ≠ [] := by
  induction l with
  | nil => exact fun piece hpiece ↦ nomatch hpiece
  | cons s l ih =>
    intro piece hpiece
    have hlast : ∀ piece ∈ (f s).dropLast, piece ≠ [] := by
      intro piece hpiece
      by_cases hs : s = []
      · rw [hs, hnil] at hpiece
        nomatch hpiece
      · exact hf s List.mem_cons_self hs piece (List.mem_of_mem_dropLast hpiece)
    cases l with
    | nil => exact hlast piece (by simpa using hpiece)
    | cons t l =>
      have hs : s ≠ [] := hl s List.mem_cons_self
      have ih' := ih (fun u hu ↦ hl u (List.mem_cons_of_mem _ hu))
        (fun u hu ↦ hf u (List.mem_cons_of_mem _ hu))
      rw [List.flatMap_cons, List.dropLast_append] at hpiece
      split at hpiece
      · exact hlast piece hpiece
      · rcases List.mem_append.mp hpiece with hmem | hmem
        · exact hf s List.mem_cons_self hs piece hmem
        · exact ih' piece hmem

/-! ## Containment -/

/-- No reading of the segment steps out of its place: no piece of it is a dot segment, and only an
empty segment has an empty piece. -/
def SafeSegment (reading : Reading) (s : Segment) : Prop :=
  ∀ piece ∈ reading.pieces s, piece ≠ dot ∧ piece ≠ dotDot ∧ (s ≠ [] → piece ≠ [])

/-- Decoding less is as safe: an escape that stays is too long for a dot segment. -/
theorem SafeSegment.keepEncodedSlash {s : Segment} (h : SafeSegment .decodeAll s) :
    SafeSegment .keepEncodedSlash s := by
  intro piece hpiece
  obtain rfl : piece = percentDecode true s := List.mem_singleton.mp hpiece
  have hdot : percentDecode false s ≠ dot := by
    intro hdecoded
    have hmem : dot ∈ Reading.decodeAll.pieces s := by rw [Reading.pieces, hdecoded]; decide
    exact (h dot hmem).1 rfl
  have hdotDot : percentDecode false s ≠ dotDot := by
    intro hdecoded
    have hmem : dotDot ∈ Reading.decodeAll.pieces s := by rw [Reading.pieces, hdecoded]; decide
    exact (h dotDot hmem).2.1 rfl
  rcases percentDecode_eq_or_length s with heq | hlength
  · rw [heq]
    exact ⟨hdot, hdotDot, percentDecode_ne_nil false⟩
  · refine ⟨?_, ?_, percentDecode_ne_nil true⟩
    · rintro hkept
      rw [hkept] at hlength
      exact absurd hlength (by decide)
    · rintro hkept
      rw [hkept] at hlength
      exact absurd hlength (by decide)

/-- After the removal of dot segments, the path still lies at or below `base`, and no segment but
the last is empty. -/
def Contained (reading : Reading) (base path : List UInt8) : Prop :=
  reading.segments base <+: removeDotSegments [] (reading.segments path) ∧
    ∀ s ∈ (removeDotSegments [] (reading.segments path)).dropLast, s ≠ []

theorem contained_append {reading : Reading} {base tail : List UInt8} (hbase : Rooted base)
    (htail : Rooted tail) (hslash : ¬ [slash, slash] <:+: base ++ tail)
    (hsafe : ∀ s ∈ segments (base ++ tail), SafeSegment reading s) :
    Contained reading base (base ++ tail) := by
  have hpath := hbase.append htail
  have hremove : removeDotSegments [] (reading.segments (base ++ tail)) =
      reading.segments (base ++ tail) := by
    rw [removeDotSegments_eq, List.nil_append]
    intro piece hpiece
    rw [reading.segments_eq_flatMap hpath, List.mem_flatMap] at hpiece
    obtain ⟨s, hs, hpiece⟩ := hpiece
    obtain ⟨hdot, hdotDot, -⟩ := hsafe s hs piece hpiece
    exact ⟨hdot, hdotDot⟩
  rw [Contained, hremove, reading.segments_eq_flatMap hbase, reading.segments_eq_flatMap hpath]
  constructor
  · rw [segments_append hbase htail, List.flatMap_append]
    exact List.prefix_append _ _
  · have hpieces : ∀ s ∈ segments (base ++ tail), s ≠ [] → ∀ piece ∈ reading.pieces s,
        piece ≠ [] := by
      intro s hs hne piece hpiece
      exact (hsafe s hs piece hpiece).2.2 hne
    refine dropLast_flatMap_ne_nil ?_ hpieces (by cases reading <;> rfl)
    rcases hpath with hnil | ⟨rest, hrest⟩
    · rw [hnil]
      exact fun s hs ↦ nomatch hs
    · have hinterior := splitOn_tail_dropLast_ne_nil hslash
      have hsplit : (slash :: rest).splitOn slash = [] :: rest.splitOn slash := by
        rw [List.splitOn_cons_eq_if_modifyHead, if_pos (beq_self_eq_true slash)]
      rwa [hrest, hsplit, List.tail_cons, ← segments_slash, ← hrest] at hinterior

end UrlPath

end Library
