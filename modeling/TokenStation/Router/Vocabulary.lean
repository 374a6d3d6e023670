import TokenStation.Router.Lexicon

/-!
# Which entries of the vocabulary can match

A phrase of one ASCII word is compared with the words of the text, and the text is split at
everything that is not alphanumeric. An entry that holds such a character itself is never one of
the words: `counted_iff_ne_zeroKnowledge`. There is one, and it counts for nothing.
-/

namespace TokenStation

open Library

/-! ## Words -/

section Words

variable {α : Type*} {separates : α → Bool} {word before after : List α}

/-- A word ends at both sides. -/
def Bounded (separates : α → Bool) (before after : List α) : Prop :=
  (∀ c ∈ before.getLast?, separates c = true) ∧ ∀ c ∈ after.head?, separates c = true

/-- A bounded word is one of the parts. -/
theorem mem_splitOnP (hword : ∀ c ∈ word, separates c = false)
    (hbounded : Bounded separates before after) :
    word ∈ (before ++ word ++ after).splitOnP separates := by
  obtain ⟨hbefore, hafter⟩ := hbounded
  have hhead : word ∈ (word ++ after).splitOnP separates := by
    cases after with
    | nil =>
      rw [List.append_nil, List.splitOnP_eq_singleton hword]
      exact List.mem_singleton_self word
    | cons c rest =>
      rw [List.splitOnP_append_cons_of_forall_mem hword c (hafter c rfl)]
      exact List.mem_cons_self
  induction before using List.reverseRecOn with
  | nil => exact hhead
  | append_singleton start c ih =>
    have hc : separates c = true := hbefore c List.getLast?_concat
    rw [List.append_assoc, List.append_assoc, List.singleton_append,
      List.splitOnP_append_cons _ _ hc]
    exact List.mem_append_right _ hhead

/-- No part holds a separator. -/
theorem forall_mem_splitOnP (text : List α) :
    ∀ word ∈ text.splitOnP separates, ∀ c ∈ word, separates c = false := by
  induction text with
  | nil =>
    intro word hword
    rw [List.mem_singleton.mp hword]
    exact fun c hc ↦ (nomatch hc)
  | cons first rest ih =>
    rw [List.splitOnP_cons_eq_if_modifyHead]
    by_cases hfirst : separates first = true
    · rw [if_pos hfirst]
      exact List.forall_mem_cons.mpr ⟨fun c hc ↦ (nomatch hc), ih⟩
    · rw [if_neg hfirst]
      -- the first part of the rest gets one more character
      generalize rest.splitOnP separates = parts at ih ⊢
      cases parts with
      | nil => exact ih
      | cons head tail =>
        obtain ⟨hhead, htail⟩ := List.forall_mem_cons.mp ih
        refine List.forall_mem_cons.mpr ⟨?_, htail⟩
        exact List.forall_mem_cons.mpr ⟨eq_false_of_ne_true hfirst, hhead⟩

end Words

/-! ## Entries -/

namespace Lexicon

/-- The lists of the vocabulary. -/
def lists : List (List String) :=
  [reasoningMarkers, codeKeywords, technicalTerms, simpleIndicators, mathTerms, creativeTerms,
    formatTerms]

/-- On ASCII, the alphanumeric characters are the letters and the digits. -/
def AsciiAlphanumeric (unicode : Unicode) : Prop :=
  ∀ c : Char, c.val < 128 → unicode.isAlphanumeric c = c.isAlphanum

/-- The phrase occurs with no alphanumeric character at either side. -/
def Occurs (unicode : Unicode) (text phrase : String) : Prop :=
  ∃ before after, text.toList = before ++ phrase.toList ++ after ∧
    Bounded (fun c ↦ !unicode.isAlphanumeric c) before after

/-- The phrase is found, and is one of those that are counted. -/
structure Counted (unicode : Unicode) (phrases : List String) (text phrase : String) : Prop where
  found : hasPhrase unicode text phrase = true
  counted : countMatches unicode text phrases =
    truncate ((phrases.erase phrase).countP (hasPhrase unicode text) + 1)

theorem counted_iff {unicode : Unicode} {phrases : List String} {text phrase : String}
    (h : phrase ∈ phrases) :
    Counted unicode phrases text phrase ↔ hasPhrase unicode text phrase = true := by
  refine ⟨Counted.found, fun hfound ↦ ⟨hfound, ?_⟩⟩
  rw [countMatches, (List.perm_cons_erase h).countP_eq, List.countP_cons_of_pos hfound]

/-- The phrases that the text is searched for as a whole. -/
def isSubstringPhrase (phrase : String) : Bool :=
  phrase.toList.contains ' ' || !(phrase.toList.all fun c ↦ decide (c.val < 128))

theorem hasPhrase_eq (unicode : Unicode) (text phrase : String) :
    hasPhrase unicode text phrase =
      if isSubstringPhrase phrase = true then containsText text phrase
      else (text.toList.splitOnP fun c ↦ !unicode.isAlphanumeric c).any (· == phrase.toList) :=
  rfl

/-- A word of letters and digits. -/
def isPlainWord (phrase : String) : Bool :=
  phrase.toList.all fun c ↦ decide (c.val < 128) && c.isAlphanum

/-- A substring is found wherever it occurs. -/
theorem hasPhrase_of_isSubstringPhrase {unicode : Unicode} {text phrase : String}
    (hphrase : isSubstringPhrase phrase = true) (hoccurs : Occurs unicode text phrase) :
    hasPhrase unicode text phrase = true := by
  obtain ⟨before, after, htext, -⟩ := hoccurs
  rw [hasPhrase_eq, if_pos hphrase, containsText, htext]
  exact decide_eq_true (List.infix_append before phrase.toList after)

/-- A plain word is found wherever it is bounded. -/
theorem hasPhrase_of_isPlainWord {unicode : Unicode} (hascii : AsciiAlphanumeric unicode)
    {text phrase : String} (hphrase : isPlainWord phrase = true)
    (hoccurs : Occurs unicode text phrase) : hasPhrase unicode text phrase = true := by
  by_cases hsubstring : isSubstringPhrase phrase = true
  · exact hasPhrase_of_isSubstringPhrase hsubstring hoccurs
  obtain ⟨before, after, htext, hbounded⟩ := hoccurs
  rw [hasPhrase_eq, if_neg hsubstring, htext, List.any_eq_true]
  refine ⟨phrase.toList, mem_splitOnP (fun c hc ↦ ?_) hbounded, beq_self_eq_true _⟩
  have hplain := List.all_eq_true.mp hphrase c hc
  rw [Bool.and_eq_true, decide_eq_true_iff] at hplain
  rw [hascii c hplain.1, hplain.2]
  rfl

/-- A single word that the text is split at is found nowhere. -/
theorem hasPhrase_eq_false {unicode : Unicode} {phrase : String} {c : Char}
    (hsubstring : isSubstringPhrase phrase = false) (hmem : c ∈ phrase.toList)
    (hc : unicode.isAlphanumeric c = false) (text : String) :
    hasPhrase unicode text phrase = false := by
  rw [hasPhrase_eq, if_neg (Bool.eq_false_iff.mp hsubstring), List.any_eq_false]
  intro word hword heq
  rw [beq_iff_eq] at heq
  have hkept := forall_mem_splitOnP text.toList word hword c (heq ▸ hmem)
  rw [hc] at hkept
  nomatch hkept

/-- The shapes of the entries. -/
theorem shape_of_mem_lists : ∀ phrases ∈ lists, ∀ phrase ∈ phrases,
    isSubstringPhrase phrase = true ∨ isPlainWord phrase = true ∨ phrase = "zero-knowledge" := by
  decide +kernel

/-- Every entry but one is counted wherever it occurs, and that one nowhere. -/
theorem counted_iff_ne_zeroKnowledge (unicode : Unicode) (hascii : AsciiAlphanumeric unicode)
    (phrases : List String) (hphrases : phrases ∈ lists) (phrase : String)
    (hphrase : phrase ∈ phrases) (text : String) (hoccurs : Occurs unicode text phrase) :
    Counted unicode phrases text phrase ↔ phrase ≠ "zero-knowledge" := by
  rw [counted_iff hphrase]
  constructor
  · rintro hfound rfl
    have hdash : unicode.isAlphanumeric '-' = false := hascii '-' (by decide)
    have hdead : hasPhrase unicode text "zero-knowledge" = false :=
      hasPhrase_eq_false (by decide +kernel) (by decide +kernel) hdash text
    rw [hdead] at hfound
    nomatch hfound
  · intro hne
    obtain hsubstring | hplain | heq := shape_of_mem_lists phrases hphrases phrase hphrase
    · exact hasPhrase_of_isSubstringPhrase hsubstring hoccurs
    · exact hasPhrase_of_isPlainWord hascii hplain hoccurs
    · exact absurd heq hne

theorem asciiAlphanumeric_ascii : AsciiAlphanumeric Unicode.ascii := fun _ _ ↦ rfl

theorem counted_iff_ne_zeroKnowledge_mutex :
    Counted Unicode.ascii technicalTerms "the mutex-guard" "mutex" ↔ "mutex" ≠ "zero-knowledge" :=
  counted_iff_ne_zeroKnowledge Unicode.ascii asciiAlphanumeric_ascii technicalTerms
    (by decide +kernel) "mutex" (by decide +kernel) "the mutex-guard"
    ⟨"the ".toList, "-guard".toList, by decide +kernel,
      fun c hc ↦ Option.some.inj (hc : some ' ' = some c) ▸ rfl,
      fun c hc ↦ Option.some.inj (hc : some '-' = some c) ▸ rfl⟩

/-- A lowercased text that is the entry itself. -/
theorem not_counted_zeroKnowledge : "zero-knowledge" ∈ technicalTerms ∧
    Unicode.ascii.toLowercase "zero-knowledge" = "zero-knowledge" ∧
    Occurs Unicode.ascii "zero-knowledge" "zero-knowledge" ∧
    hasPhrase Unicode.ascii "zero-knowledge" "zero-knowledge" = false ∧
    ¬ Counted Unicode.ascii technicalTerms "zero-knowledge" "zero-knowledge" := by
  have hdead : hasPhrase Unicode.ascii "zero-knowledge" "zero-knowledge" = false := by
    decide +kernel
  refine ⟨by decide +kernel, by decide +kernel, ⟨[], [], by decide +kernel, nofun, nofun⟩, hdead,
    fun hcounted ↦ ?_⟩
  nomatch hdead.symm.trans hcounted.found

end Lexicon

end TokenStation
