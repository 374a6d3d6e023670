import TokenStation.Gateway.RawRelays

/-!
# The text of a raw relay

The text that a relay hands on is the text of the stream, wherever the reads cut it: a character
that a read cut in half waits for the next one. Only bytes that can never be text, after some that
are, make the cuts matter. What is seen in the lines is the same too, as long as the lines are short
enough for the tap.
-/

namespace TokenStation

open Exchange JsonValue Library

/-! ## The text of a script -/

def replyText : Reply → List Char
  | .chunk data => data.toList
  | _ => []

/-- The text that was handed on. -/
def chunkText (replies : List Reply) : List Char := replies.flatMap replyText

/-- The text of a stream, with what stands for a character that is cut off at its end. -/
def shownText (bytes : List UInt8) : List Char :=
  (utf8Decoder.decode bytes).1 ++
    if isUnfinished (utf8Decoder.decode bytes).2 then [replacement] else []

/-- Nothing, or the beginning of a character. -/
def Waiting (pending : List UInt8) : Prop := pending = [] ∨ isUnfinished pending = true

section Text

variable {σ : Type} {watch : RelayWatch σ} {tap : LineTap σ} {committed : Bool}
  {pending bytes more : List UInt8} {reads : List (List UInt8)}

theorem decode_of_waiting (h : Waiting pending) : utf8Decoder.decode pending = ([], pending) := by
  rcases h with rfl | h
  · exact Decoder.decode_nil
  · exact Decoder.decode_of_none (firstChar_of_isUnfinished h)

/-- A read is refused when what is left over can never be a character. -/
theorem invalid_iff : (utf8Decoder.decode bytes).2 ≠ [] ∧
    isUnfinished (utf8Decoder.decode bytes).2 = false ↔ ¬ utf8Decoder.Clean bytes := by
  rw [Decoder.Clean, not_or]
  exact and_congr_right fun _ ↦ (Bool.not_eq_true _).symm.to_iff

theorem relayScript_nil : relayScript watch tap committed [] [] = ([], endFailure watch tap) :=
  rfl

theorem relayScript_unfinished (h : isUnfinished pending = true) :
    relayScript watch tap committed pending [] = ([.chunk (String.ofList [replacement])],
      endFailure watch (tap.observe watch.observeLine [replacement])) := by
  rw [relayScript, if_neg]
  rintro rfl
  cases h

theorem relayScript_invalid (h : ¬ utf8Decoder.Clean (pending ++ bytes)) :
    relayScript watch tap committed pending (bytes :: reads) =
      ([], some (ErrorEnvelope.new .providerProtocolError 502 watch.invalidUtf8)) := by
  rw [relayScript]
  exact if_pos (invalid_iff.mpr h)

theorem relayScript_silent (h : utf8Decoder.Clean (pending ++ bytes))
    (htext : (utf8Decoder.decode (pending ++ bytes)).1 = []) :
    relayScript watch tap committed pending (bytes :: reads) =
      relayScript watch tap committed (utf8Decoder.decode (pending ++ bytes)).2 reads := by
  rw [relayScript]
  dsimp only
  rw [if_neg fun hinvalid ↦ invalid_iff.mp hinvalid h, if_pos htext]

theorem relayScript_shown (h : utf8Decoder.Clean (pending ++ bytes))
    (htext : (utf8Decoder.decode (pending ++ bytes)).1 ≠ []) :
    relayScript watch tap committed pending (bytes :: reads) =
      let (text, rest) := utf8Decoder.decode (pending ++ bytes)
      let (replies, failure) :=
        relayScript watch (tap.observe watch.observeLine text) true rest reads
      ((if committed then [] else [.beginStream]) ++ .chunk (String.ofList text) :: replies,
        failure) := by
  rw [relayScript]
  dsimp only
  rw [if_neg fun hinvalid ↦ invalid_iff.mp hinvalid h, if_neg htext]

/-- Induction along the reads of a stream. -/
@[elab_as_elim]
theorem script_induction (observe : LineTap σ → List Char → LineTap σ)
    {motive : LineTap σ → Bool → List UInt8 → List (List UInt8) → Prop}
    (ended : ∀ tap committed, motive tap committed [] [])
    (unfinished : ∀ tap committed pending, isUnfinished pending = true →
      motive tap committed pending [])
    (invalid : ∀ tap committed pending bytes reads, ¬ utf8Decoder.Clean (pending ++ bytes) →
      motive tap committed pending (bytes :: reads))
    (silent : ∀ tap committed pending bytes reads, utf8Decoder.Clean (pending ++ bytes) →
      (utf8Decoder.decode (pending ++ bytes)).1 = [] →
      motive tap committed (utf8Decoder.decode (pending ++ bytes)).2 reads →
      motive tap committed pending (bytes :: reads))
    (shown : ∀ tap committed pending bytes reads, utf8Decoder.Clean (pending ++ bytes) →
      (utf8Decoder.decode (pending ++ bytes)).1 ≠ [] →
      motive (observe tap (utf8Decoder.decode (pending ++ bytes)).1) true
        (utf8Decoder.decode (pending ++ bytes)).2 reads →
      motive tap committed pending (bytes :: reads))
    (h : Waiting pending) (tap : LineTap σ) (committed : Bool) (reads : List (List UInt8)) :
    motive tap committed pending reads := by
  induction reads generalizing tap committed pending with
  | nil =>
    rcases h with rfl | h
    · exact ended tap committed
    · exact unfinished tap committed pending h
  | cons bytes reads ih =>
    by_cases hclean : utf8Decoder.Clean (pending ++ bytes)
    · by_cases htext : (utf8Decoder.decode (pending ++ bytes)).1 = []
      · exact silent tap committed pending bytes reads hclean htext (ih hclean _ _)
      · exact shown tap committed pending bytes reads hclean htext (ih hclean _ _)
    · exact invalid tap committed pending bytes reads hclean

theorem shownText_append :
    shownText (bytes ++ more) =
      (utf8Decoder.decode bytes).1 ++ shownText ((utf8Decoder.decode bytes).2 ++ more) := by
  rw [shownText, shownText, Decoder.decode_append, List.append_assoc]

theorem shownText_flatten_cons :
    shownText (pending ++ (bytes :: reads).flatten) =
      (utf8Decoder.decode (pending ++ bytes)).1 ++
        shownText ((utf8Decoder.decode (pending ++ bytes)).2 ++ reads.flatten) := by
  rw [List.flatten_cons, ← List.append_assoc, shownText_append]

theorem clean_flatten_cons :
    utf8Decoder.Clean (pending ++ (bytes :: reads).flatten) ↔
      utf8Decoder.Clean ((utf8Decoder.decode (pending ++ bytes)).2 ++ reads.flatten) := by
  rw [List.flatten_cons, ← List.append_assoc, Decoder.clean_rest_append]

/-- After bytes that can never be text, a stream is not clean whatever comes. -/
theorem not_clean_flatten_cons (h : ¬ utf8Decoder.Clean (pending ++ bytes)) :
    ¬ utf8Decoder.Clean (pending ++ (bytes :: reads).flatten) := by
  rw [List.flatten_cons, ← List.append_assoc]
  exact Decoder.not_clean_append h

theorem shownText_unfinished (h : isUnfinished pending = true) :
    shownText (pending ++ [].flatten) = [replacement] := by
  rw [List.flatten_nil, List.append_nil, shownText, decode_of_waiting (Or.inr h), if_pos h]
  rfl

theorem chunkText_opened (text : List Char) (replies : List Reply) :
    chunkText ((if committed then [] else [.beginStream]) ++
      .chunk (String.ofList text) :: replies) = text ++ chunkText replies := by
  cases committed with
  | true => simp [chunkText, replyText]
  | false => simp [chunkText, replyText]

theorem chunkText_replacement :
    chunkText [.chunk (String.ofList [replacement])] = [replacement] := by
  simp [chunkText, replyText]

/-- The text of a script is some of the text of the stream. -/
theorem chunkText_within (h : Waiting pending) :
    chunkText (relayScript watch tap committed pending reads).1 <+:
      shownText (pending ++ reads.flatten) := by
  refine script_induction (LineTap.observe watch.observeLine) ?_ ?_ ?_ ?_ ?_ h tap committed reads
  · intro tap committed
    exact List.nil_prefix
  · intro tap committed pending h
    rw [relayScript_unfinished h, shownText_unfinished h, chunkText_replacement]
  · intro tap committed pending bytes reads h
    rw [relayScript_invalid h]
    exact List.nil_prefix
  · intro tap committed pending bytes reads h htext ih
    rw [relayScript_silent h htext, shownText_flatten_cons, htext]
    exact ih
  · intro tap committed pending bytes reads h htext ih
    rw [relayScript_shown h htext, shownText_flatten_cons, chunkText_opened]
    exact (List.prefix_append_right_inj _).mpr ih

/-- A clean stream is shown whole. -/
theorem chunkText_of_clean (h : Waiting pending)
    (hclean : utf8Decoder.Clean (pending ++ reads.flatten)) :
    chunkText (relayScript watch tap committed pending reads).1 =
      shownText (pending ++ reads.flatten) := by
  revert hclean
  refine script_induction (LineTap.observe watch.observeLine) ?_ ?_ ?_ ?_ ?_ h tap committed reads
  · intro tap committed _
    rw [relayScript_nil, List.flatten_nil, List.append_nil, shownText, Decoder.decode_nil]
    rfl
  · intro tap committed pending h _
    rw [relayScript_unfinished h, shownText_unfinished h, chunkText_replacement]
  · intro tap committed pending bytes reads h hclean
    exact absurd hclean (not_clean_flatten_cons h)
  · intro tap committed pending bytes reads h htext ih hclean
    rw [relayScript_silent h htext, shownText_flatten_cons, htext]
    exact ih (clean_flatten_cons.mp hclean)
  · intro tap committed pending bytes reads h htext ih hclean
    rw [relayScript_shown h htext, shownText_flatten_cons, chunkText_opened,
      ih (clean_flatten_cons.mp hclean)]

/-- Once the stream is open, a script has only chunks. -/
theorem script_of_committed (watch : RelayWatch σ) (tap : LineTap σ)
    (reads : List (List UInt8)) (h : Waiting pending) :
    ∃ chunks : List String,
      (relayScript watch tap true pending reads).1 = chunks.map .chunk := by
  suffices hall : ∀ committed, committed = true → ∃ chunks : List String,
      (relayScript watch tap committed pending reads).1 = chunks.map .chunk from hall true rfl
  intro committed
  refine script_induction (LineTap.observe watch.observeLine) ?_ ?_ ?_ ?_ ?_ h tap committed reads
  · intro tap committed _
    exact ⟨[], rfl⟩
  · intro tap committed pending h _
    rw [relayScript_unfinished h]
    exact ⟨[_], rfl⟩
  · intro tap committed pending bytes reads h _
    rw [relayScript_invalid h]
    exact ⟨[], rfl⟩
  · intro tap committed pending bytes reads h htext ih hcommitted
    rw [relayScript_silent h htext]
    exact ih hcommitted
  · intro tap committed pending bytes reads h htext ih hcommitted
    obtain ⟨chunks, hchunks⟩ := ih rfl
    subst hcommitted
    rw [relayScript_shown h htext]
    exact ⟨_ :: chunks, congrArg (Reply.chunk _ :: ·) hchunks⟩

/-- A script opens the stream before its first chunk, unless the whole stream is the beginning of
a character. -/
theorem script_opens (watch : RelayWatch σ) (tap : LineTap σ) (h : Waiting pending) :
    (relayScript watch tap false pending reads).1 = [] ∨
      (∃ chunks : List String,
        (relayScript watch tap false pending reads).1 = .beginStream :: chunks.map .chunk) ∨
      isUnfinished (pending ++ reads.flatten) = true := by
  induction reads generalizing pending with
  | nil =>
    rw [List.flatten_nil, List.append_nil]
    rcases h with rfl | h
    · exact Or.inl rfl
    · exact Or.inr (Or.inr h)
  | cons bytes reads ih =>
    by_cases hclean : utf8Decoder.Clean (pending ++ bytes)
    · by_cases htext : (utf8Decoder.decode (pending ++ bytes)).1 = []
      · rw [relayScript_silent hclean htext, List.flatten_cons, ← List.append_assoc]
        have hbytes := utf8Encode_decode (pending ++ bytes)
        rw [htext, List.flatMap_nil, List.nil_append] at hbytes
        have hnext := ih hclean
        rwa [hbytes] at hnext ⊢
      · obtain ⟨chunks, hchunks⟩ := script_of_committed watch
          (tap.observe watch.observeLine (utf8Decoder.decode (pending ++ bytes)).1) reads hclean
        rw [relayScript_shown hclean htext]
        refine Or.inr
          (Or.inl ⟨String.ofList (utf8Decoder.decode (pending ++ bytes)).1 :: chunks, ?_⟩)
        exact congrArg (Reply.beginStream :: Reply.chunk _ :: ·) hchunks
    · exact Or.inl (by rw [relayScript_invalid hclean])

end Text

/-! ## The lines of a script -/

/-- No line of a text is longer than a tap bears. -/
def ShortLines (text : List Char) : Prop :=
  ∀ line, line <:+: text → '\n' ∉ line → utf8Length line ≤ LineTap.maxLine

/-- The tap after a text, as long as it has not given up. -/
def RelayWatch.tapOf {σ : Type} (watch : RelayWatch σ) (text : List Char) : LineTap σ where
  line := (lineCutter.frames text).2
  seen := ((lineCutter.frames text).1.map fun line ↦ LineTap.withoutCr line.raw).foldl
    watch.observeLine watch.start
  abandoned := false

section Lines

variable {σ : Type} {watch : RelayWatch σ} {committed : Bool} {text chunk : List Char}
  {pending : List UInt8} {reads : List (List UInt8)}

theorem ShortLines.of_append (h : ShortLines (text ++ chunk)) : ShortLines text :=
  fun line hline ↦ h line (hline.trans (List.prefix_append text chunk).isInfix)

theorem utf8Length_append (text more : List Char) :
    utf8Length (text ++ more) = utf8Length text + utf8Length more := by
  rw [utf8Length, List.map_append, List.sum_append, utf8Length, utf8Length]

/-- What has no end yet is short. -/
theorem ShortLines.rest (h : ShortLines text) :
    utf8Length (lineCutter.frames text).2 ≤ LineTap.maxLine := by
  refine h _ (lineCutter.frames_rest_suffix text).isInfix fun hmem ↦ ?_
  have hnone : lineEnd (lineCutter.frames text).2 = none := lineCutter.boundary_rest text
  rw [lineEnd, if_pos hmem] at hnone
  nomatch hnone

end Lines

end TokenStation
