import TokenStation.Gateway.RelayText
import TokenStation.Gateway.UsageFold

/-!
# The chunks of a tap

A tap reads a text in chunks and looks only at its lines, so one would not expect it to matter where
the chunks end. It gives up, though, on a line that is too long, and it looks at the length only
when a chunk is over: a long line that has its end in the chunk it is noticed in is read like any
other, and so is what follows it. What the tap has seen is then independent of the chunks exactly
when no long line, nor anything after it, says something new.
-/

namespace TokenStation

open JsonValue Library

/-! ## Feeding a tap -/

section Feed

variable {σ β : Type} (observeLine : σ → List Char → σ) (start : σ)

/-- A tap that is fed the chunks one after the other. -/
def fedTap (chunks : List (List Char)) : LineTap σ :=
  chunks.foldl (fun tap chunk ↦ tap.observe observeLine chunk) { seen := start }

/-- What the tap is after `finish`. -/
def readTap (chunks : List (List Char)) : LineTap σ :=
  (fedTap observeLine start chunks).finish observeLine

/-- The lines of a text that have an end. -/
def completeLines (text : List Char) : List (List Char) := (lineCutter.frames text).1.map (·.raw)

/-- What follows the last line end. -/
def openLine (text : List Char) : List Char := (lineCutter.frames text).2

def TooLong (line : List Char) : Prop := LineTap.maxLine < utf8Length line

instance (line : List Char) : Decidable (TooLong line) :=
  inferInstanceAs (Decidable (LineTap.maxLine < utf8Length line))

/-- What is seen in some lines. -/
def seenIn (lines : List (List Char)) : σ :=
  (lines.map LineTap.withoutCr).foldl observeLine start

/-- All the lines a tap can read: the last one needs no end, but then it may not be too long. -/
def readableLines (text : List Char) : List (List Char) :=
  completeLines text ++
    if openLine text = [] ∨ TooLong (openLine text) then [] else [openLine text]

/-- A tap that has read a text and not given up. -/
def readingTap (text : List Char) : LineTap σ where
  line := openLine text
  seen := seenIn observeLine start (completeLines text)
  abandoned := false

/-- A tap that has given up after some lines. -/
def gaveUp (lines : List (List Char)) : LineTap σ where
  line := []
  seen := seenIn observeLine start lines
  abandoned := true

/-- A tap that has read all it can of a text. -/
def wholeTap (text : List Char) : LineTap σ where
  line := []
  seen := seenIn observeLine start (readableLines text)
  abandoned := decide (TooLong (openLine text))

/-- Two taps that were fed one text in different chunks are the same to an observer. -/
def ChunksAlike (view : LineTap σ → β) (text : List Char) : Prop :=
  ∀ chunks chunks' : List (List Char), chunks.flatten = text → chunks'.flatten = text →
    view (readTap observeLine start chunks) = view (readTap observeLine start chunks')

variable {observeLine start}

theorem completeLines_append (text more : List Char) :
    completeLines (text ++ more) =
      completeLines text ++ completeLines (openLine text ++ more) := by
  rw [completeLines, lineCutter.frames_append, List.map_append]
  rfl

theorem openLine_append (text more : List Char) :
    openLine (text ++ more) = openLine (openLine text ++ more) := by
  rw [openLine, lineCutter.frames_append]
  rfl

theorem seenIn_append (lines more : List (List Char)) :
    seenIn observeLine start (lines ++ more) =
      seenIn observeLine (seenIn observeLine start lines) more := by
  rw [seenIn, List.map_append, List.foldl_append]
  rfl

theorem fedTap_concat (chunks : List (List Char)) (chunk : List Char) :
    fedTap observeLine start (chunks ++ [chunk]) =
      (fedTap observeLine start chunks).observe observeLine chunk := by
  rw [fedTap, List.foldl_append]
  rfl

theorem readingTap_nil : readingTap observeLine start [] = { seen := start } := by
  rw [readingTap, completeLines, openLine, lineCutter.frames_of_none lineCutter.boundary_nil]
  rfl

/-- One chunk of a tap that has not given up. -/
theorem observe_readingTap (text chunk : List Char) :
    (readingTap observeLine start text).observe observeLine chunk =
      if TooLong (openLine (text ++ chunk)) then
        gaveUp observeLine start (completeLines (text ++ chunk))
      else readingTap observeLine start (text ++ chunk) := by
  have hseen : ((lineCutter.frames (openLine text ++ chunk)).1.map
      fun line ↦ LineTap.withoutCr line.raw).foldl observeLine
        (seenIn observeLine start (completeLines text)) =
      seenIn observeLine start (completeLines (text ++ chunk)) := by
    rw [completeLines_append, seenIn_append, completeLines, completeLines, seenIn, seenIn,
      List.map_map, List.map_map]
    rfl
  rw [LineTap.observe, readingTap, if_neg Bool.false_ne_true, readingTap, gaveUp, openLine_append]
  dsimp only
  rw [hseen]
  rfl

theorem observe_gaveUp (lines : List (List Char)) (chunk : List Char) :
    (gaveUp observeLine start lines).observe observeLine chunk =
      gaveUp observeLine start lines := by
  rw [LineTap.observe, gaveUp, if_pos rfl]

theorem fedTap_singleton (text : List Char) :
    fedTap observeLine start [text] =
      if TooLong (openLine text) then gaveUp observeLine start (completeLines text)
      else readingTap observeLine start text := by
  have hread := @observe_readingTap σ observeLine start [] text
  rw [List.nil_append, readingTap_nil] at hread
  exact hread

/-- A tap reads on, or it has given up after some part of the text, on a line that was too long
there. -/
theorem fedTap_cases (chunks : List (List Char)) :
    (¬ TooLong (openLine chunks.flatten) ∧
        fedTap observeLine start chunks = readingTap observeLine start chunks.flatten) ∨
      ∃ part, part <+: chunks.flatten ∧ TooLong (openLine part) ∧
        fedTap observeLine start chunks = gaveUp observeLine start (completeLines part) := by
  induction chunks using List.reverseRecOn with
  | nil =>
    refine Or.inl ⟨?_, readingTap_nil.symm⟩
    rw [List.flatten_nil, openLine, lineCutter.frames_of_none lineCutter.boundary_nil]
    exact Nat.not_lt_zero _
  | append_singleton chunks chunk ih =>
    rw [fedTap_concat, List.flatten_concat]
    obtain ⟨-, hread⟩ | ⟨part, hpart, hlong, hread⟩ := ih
    · rw [hread, observe_readingTap]
      by_cases hlong : TooLong (openLine (chunks.flatten ++ chunk))
      · exact Or.inr ⟨_, List.prefix_rfl, hlong, if_pos hlong⟩
      · exact Or.inl ⟨hlong, if_neg hlong⟩
    · rw [hread, observe_gaveUp]
      exact Or.inr ⟨part, hpart.trans (List.prefix_append _ _), hlong, rfl⟩

/-! ## Where a tap gives up -/

theorem notMem_openLine (text : List Char) : '\n' ∉ openLine text := by
  intro hmem
  have hnone : lineEnd (openLine text) = none := lineCutter.boundary_rest text
  rw [lineEnd, if_pos hmem] at hnone
  nomatch hnone

theorem frames_of_notMem {line : List Char} (h : '\n' ∉ line) :
    lineCutter.frames line = ([], line) :=
  lineCutter.frames_of_none (if_neg h)

theorem lineEnd_append_of_notMem {line : List Char} (h : '\n' ∉ line) (more : List Char) :
    lineEnd (line ++ '\n' :: more) = some (line.length, 1) := by
  rw [lineEnd, if_pos (by simp), List.idxOf_append_of_notMem h, List.idxOf_cons_self, Nat.add_zero]

theorem frames_line {line : List Char} (h : '\n' ∉ line) (more : List Char) :
    lineCutter.frames (line ++ '\n' :: more) =
      (⟨line, 1⟩ :: (lineCutter.frames more).1, (lineCutter.frames more).2) := by
  rw [lineCutter.frames_of_some (lineEnd_append_of_notMem h more), List.take_left,
    ← List.drop_drop, List.drop_left, List.drop_one, List.tail_cons]

theorem completeLines_of_notMem {line : List Char} (h : '\n' ∉ line) : completeLines line = [] := by
  rw [completeLines, frames_of_notMem h, List.map_nil]

theorem completeLines_line {line : List Char} (h : '\n' ∉ line) (more : List Char) :
    completeLines (line ++ '\n' :: more) = line :: completeLines more := by
  rw [completeLines, frames_line h, List.map_cons, completeLines]

theorem TooLong.grows {line : List Char} (h : TooLong line) (more : List Char) :
    TooLong (line ++ more) := by
  rw [TooLong, utf8Length_append]
  exact Nat.lt_add_right _ h

/-- A part of a text whose last line is too long there leaves the text with a line that is: one
of those that have an end, or the last. -/
theorem longLine_of_part {part text : List Char} (hpart : part <+: text)
    (hlong : TooLong (openLine part)) :
    (∃ line after, completeLines text = completeLines part ++ line :: after ∧ TooLong line) ∨
      completeLines text = completeLines part ∧ TooLong (openLine text) := by
  obtain ⟨more, rfl⟩ := hpart
  have hopen := notMem_openLine part
  by_cases hmem : '\n' ∈ more
  · obtain ⟨rest, after, rfl, hrest⟩ := List.eq_append_cons_of_mem hmem
    have hline : '\n' ∉ openLine part ++ rest := by simp [hopen, hrest]
    refine Or.inl ⟨openLine part ++ rest, completeLines after, ?_, hlong.grows rest⟩
    rw [completeLines_append, ← List.append_assoc, completeLines_line hline]
  · have hline : '\n' ∉ openLine part ++ more := by simp [hopen, hmem]
    refine Or.inr ⟨?_, ?_⟩
    · rw [completeLines_append, completeLines_of_notMem hline, List.append_nil]
    · rw [openLine_append, openLine, frames_of_notMem hline]
      exact hlong.grows more

/-- A text can be cut at the end of any of its lines, before the line feed. -/
theorem exists_part {text line : List Char} {before after : List (List Char)}
    (h : completeLines text = before ++ line :: after) :
    ∃ part, part <+: text ∧ completeLines part = before ∧ openLine part = line := by
  obtain ⟨fs, gs, hframes, rfl, hgs⟩ := List.map_eq_append_iff.mp h
  obtain ⟨f, gs, rfl, rfl, rfl⟩ := List.map_eq_cons_iff.mp hgs
  obtain ⟨c, d, rfl, hc, hd⟩ := lineCutter.exists_cut hframes
  obtain ⟨rest, after, rfl, hrest⟩ : ∃ rest after, d = rest ++ '\n' :: after ∧ '\n' ∉ rest := by
    by_cases hmem : '\n' ∈ d
    · exact List.eq_append_cons_of_mem hmem
    · rw [frames_of_notMem hmem] at hd
      nomatch hd
  rw [frames_line hrest] at hd
  obtain ⟨rfl, -⟩ := List.cons.inj hd
  have hopen : openLine c = [] := by rw [openLine, hc]
  refine ⟨c ++ rest, ?_, ?_, ?_⟩
  · exact (List.prefix_append_right_inj c).mpr (List.prefix_append rest _)
  · rw [completeLines_append, hopen, List.nil_append, completeLines_of_notMem hrest,
      List.append_nil, completeLines, hc]
  · rw [openLine_append, hopen, List.nil_append, openLine, frames_of_notMem hrest]

/-! ## What is seen of a text -/

theorem readableLines_of_tooLong {text : List Char} (h : TooLong (openLine text)) :
    readableLines text = completeLines text := by
  rw [readableLines, if_pos (Or.inr h), List.append_nil]

theorem wholeTap_of_tooLong {text : List Char} (h : TooLong (openLine text)) :
    wholeTap observeLine start text = gaveUp observeLine start (completeLines text) := by
  rw [wholeTap, gaveUp, readableLines_of_tooLong h, decide_eq_true h]

theorem finish_readingTap {text : List Char} (h : ¬ TooLong (openLine text)) :
    (readingTap observeLine start text).finish observeLine = wholeTap observeLine start text := by
  rw [wholeTap, readableLines, decide_eq_false h, LineTap.finish, readingTap]
  by_cases hopen : openLine text = []
  · rw [if_pos (Or.inr hopen), if_pos (Or.inl hopen), List.append_nil, hopen]
  · rw [if_neg (by simp [hopen]), if_neg (by simp [hopen, h]), seenIn_append]
    rfl

theorem finish_gaveUp (lines : List (List Char)) :
    (gaveUp observeLine start lines).finish observeLine = gaveUp observeLine start lines := by
  rw [LineTap.finish, gaveUp, if_pos (Or.inl rfl)]

/-- A tap reads all it can, or gives up before one of the long lines that have an end. -/
theorem readTap_cases (chunks : List (List Char)) :
    readTap observeLine start chunks = wholeTap observeLine start chunks.flatten ∨
      ∃ before line after, completeLines chunks.flatten = before ++ line :: after ∧
        TooLong line ∧ readTap observeLine start chunks = gaveUp observeLine start before := by
  obtain ⟨hshort, hread⟩ | ⟨part, hpart, hlong, hread⟩ :=
    @fedTap_cases σ observeLine start chunks
  · left
    rw [readTap, hread, finish_readingTap hshort]
  · have hgave : readTap observeLine start chunks =
        gaveUp observeLine start (completeLines part) := by
      rw [readTap, hread, finish_gaveUp]
    obtain ⟨line, after, hlines, hline⟩ | ⟨hlines, hopen⟩ := longLine_of_part hpart hlong
    · exact Or.inr ⟨_, line, after, hlines, hline, hgave⟩
    · left
      rw [hgave, wholeTap_of_tooLong hopen, hlines]

theorem readTap_of_part {part text : List Char} (hpart : part <+: text)
    (hlong : TooLong (openLine part)) :
    ∃ chunks : List (List Char), chunks.flatten = text ∧
      readTap observeLine start chunks = gaveUp observeLine start (completeLines part) := by
  obtain ⟨more, rfl⟩ := hpart
  refine ⟨[part, more], by simp, ?_⟩
  have hfirst : fedTap observeLine start [part] =
      gaveUp observeLine start (completeLines part) := by
    rw [fedTap_singleton, if_pos hlong]
  rw [readTap, ← List.singleton_append, fedTap_concat, hfirst, observe_gaveUp, finish_gaveUp]

theorem readTap_singleton (text : List Char) :
    readTap observeLine start [text] = wholeTap observeLine start text := by
  rw [readTap, fedTap_singleton]
  by_cases hlong : TooLong (openLine text)
  · rw [if_pos hlong, finish_gaveUp, wholeTap_of_tooLong hlong]
  · rw [if_neg hlong, finish_readingTap hlong]

/-- The chunks do not matter exactly when it does not matter whether the tap gives up on a long
line that has an end. -/
theorem chunksAlike_iff (view : LineTap σ → β) (text : List Char) :
    ChunksAlike observeLine start view text ↔
      ∀ before line after, completeLines text = before ++ line :: after → TooLong line →
        view (gaveUp observeLine start before) = view (wholeTap observeLine start text) := by
  constructor
  · intro halike before line after hlines hlong
    obtain ⟨part, hpart, rfl, rfl⟩ := exists_part hlines
    obtain ⟨chunks, hflat, hread⟩ :=
      @readTap_of_part σ observeLine start _ _ hpart hlong
    rw [← hread, ← readTap_singleton]
    exact halike chunks [text] hflat (by simp)
  · intro hlines chunks chunks' hflat hflat'
    have hwhole (chunks : List (List Char)) (hflat : chunks.flatten = text) :
        view (readTap observeLine start chunks) = view (wholeTap observeLine start text) := by
      obtain hread | ⟨before, line, after, hsplit, hlong, hread⟩ :=
        @readTap_cases σ observeLine start chunks
      · rw [hread, hflat]
      · rw [hread]
        exact hlines before line after (hflat ▸ hsplit) hlong
    rw [hwhole chunks hflat, hwhole chunks' hflat']

end Feed

/-! ## What the lines report -/

section Reports

variable (parseJson : String → Option JsonValue)

/-- The events of some lines. -/
def lineEvents (lines : List (List Char)) : List JsonValue :=
  lines.filterMap fun line ↦ lineEvent parseJson (LineTap.withoutCr line)

def eventKind (event : JsonValue) : Option String := (event.member "type").bind asStr

/-- The last count of each kind that is not zero, if there is a report at all. -/
def lastUsage (reports : List Usage) : Option Usage :=
  if reports = [] then none
  else some {
    inputTokens := lastNonzero (reports.map (·.inputTokens))
    outputTokens := lastNonzero (reports.map (·.outputTokens))
    cacheReadTokens := lastNonzero (reports.map (·.cacheReadTokens))
    explicitCacheReadTokens := lastNonzero (reports.map (·.explicitCacheReadTokens))
    cacheWriteTokens := lastNonzero (reports.map (·.cacheWriteTokens))
    cacheWrite5mTokens := lastNonzero (reports.map (·.cacheWrite5mTokens))
    cacheWrite1hTokens := lastNonzero (reports.map (·.cacheWrite1hTokens))
    reasoningTokens := lastNonzero (reports.map (·.reasoningTokens)) }

/-- What the lines of an Anthropic stream report. -/
def anthropicReport (lines : List (List Char)) : AnthropicSeen where
  usage := lastUsage <| (lineEvents parseJson lines).filterMap fun event ↦
    (nativeUsageObject event).bind anthropicWireUsage
  sawMessageStop := (lineEvents parseJson lines).any (eventKind · == some "message_stop")

def isTerminalEvent (event : JsonValue) : Bool :=
  (eventKind event).any (ResponsesSeen.terminalKinds.contains ·)

/-- What the last terminal event says. -/
def lastVerdict (events : List JsonValue) : Bool :=
  (events.filter isTerminalEvent).getLast?.any ResponsesSeen.reportsSuccess

/-- The response of the last completion on a line that is not too long. -/
def lastResponse (lines : List (List Char)) : Option JsonValue :=
  ((lineEvents parseJson (lines.filter fun line ↦ ¬ TooLong (LineTap.withoutCr line))).filter
    (eventKind · == some "response.completed")).getLast?.bind (·.member "response")

/-- What the lines of a Responses stream report. -/
def responsesReport (lines : List (List Char)) : ResponsesSeen where
  usage := lastUsage <| (lineEvents parseJson lines).filterMap fun event ↦
    (((event.member "response").bind (·.member "usage")).or (event.member "usage")).bind
      responsesWireUsage
  sawTerminal := (lineEvents parseJson lines).any isTerminalEvent
  successful := lastVerdict (lineEvents parseJson lines)
  terminalResponse := lastResponse parseJson lines

theorem foldl_absorb_eq (reports : List Usage) :
    reports.foldl (fun usage report ↦ some ((usage.getD {}).absorb report)) none =
      lastUsage reports := by
  induction reports using List.reverseRecOn with
  | nil => rfl
  | append_singleton reports report ih =>
    have hne : reports ++ [report] ≠ [] := List.concat_ne_nil report reports
    rw [List.foldl_append, ih, lastUsage, lastUsage, if_neg hne]
    simp only [List.map_append, List.map_cons, List.map_nil, lastNonzero_concat]
    by_cases hreports : reports = []
    · subst hreports
      rfl
    · rw [if_neg hreports]
      rfl

theorem lastUsage_concat (reports : List Usage) (report : Option Usage) :
    lastUsage (reports ++ report.toList) =
      match report with
      | none => lastUsage reports
      | some found => some (((lastUsage reports).getD {}).absorb found) := by
  cases report with
  | none => rw [Option.toList_none, List.append_nil]
  | some found =>
    rw [← foldl_absorb_eq, ← foldl_absorb_eq, Option.toList_some, List.foldl_append]
    rfl

theorem lineEvents_append (lines more : List (List Char)) :
    lineEvents parseJson (lines ++ more) =
      lineEvents parseJson lines ++ lineEvents parseJson more :=
  List.filterMap_append

theorem lineEvents_singleton (line : List Char) :
    lineEvents parseJson [line] = (lineEvent parseJson (LineTap.withoutCr line)).toList := by
  cases h : lineEvent parseJson (LineTap.withoutCr line) <;> simp [lineEvents, h]

theorem seenIn_concat {σ : Type} (observeLine : σ → List Char → σ) (start : σ)
    (lines : List (List Char)) (line : List Char) :
    seenIn observeLine start (lines ++ [line]) =
      observeLine (seenIn observeLine start lines) (LineTap.withoutCr line) := by
  rw [seenIn_append]
  rfl

theorem filterMap_concat {α β : Type} (f : α → Option β) (l : List α) (a : α) :
    (l ++ [a]).filterMap f = l.filterMap f ++ (f a).toList := by
  rw [List.filterMap_append]
  cases h : f a <;> simp [h]

theorem anthropicSeen_eq (lines : List (List Char)) :
    seenIn (AnthropicSeen.observeLine parseJson) {} lines = anthropicReport parseJson lines := by
  induction lines using List.reverseRecOn with
  | nil => rfl
  | append_singleton lines line ih =>
    rw [seenIn_concat, ih, AnthropicSeen.observeLine, anthropicReport, anthropicReport,
      lineEvents_append, lineEvents_singleton]
    cases lineEvent parseJson (LineTap.withoutCr line) with
    | none => rw [Option.toList_none, List.append_nil]
    | some event =>
      rw [Option.toList_some, filterMap_concat, lastUsage_concat]
      simp only [List.any_append, List.any_cons, List.any_nil, Bool.or_false]
      rfl

theorem lastVerdict_concat (events : List JsonValue) (event : JsonValue) :
    lastVerdict (events ++ [event]) =
      if isTerminalEvent event then ResponsesSeen.reportsSuccess event
      else lastVerdict events := by
  rw [lastVerdict, List.filter_append]
  by_cases h : isTerminalEvent event = true
  · simp [h]
  · simp [h, lastVerdict]

theorem lastResponse_concat (lines : List (List Char)) (line : List Char) :
    lastResponse parseJson (lines ++ [line]) =
      match lineEvent parseJson (LineTap.withoutCr line) with
      | none => lastResponse parseJson lines
      | some event =>
        if utf8Length (LineTap.withoutCr line) ≤ LineTap.maxLine ∧
            eventKind event = some "response.completed" then event.member "response"
        else lastResponse parseJson lines := by
  rw [lastResponse, List.filter_append, lineEvents_append, List.filter_append]
  by_cases hlong : TooLong (LineTap.withoutCr line)
  · have hnot : ¬ utf8Length (LineTap.withoutCr line) ≤ LineTap.maxLine := Nat.not_le.mpr hlong
    have hnone : [line].filter (fun line ↦ ¬ TooLong (LineTap.withoutCr line)) = [] := by
      simp [hlong]
    have hempty : lineEvents parseJson [] = [] := rfl
    rw [hnone, hempty, List.filter_nil, List.append_nil]
    cases lineEvent parseJson (LineTap.withoutCr line) with
    | none => rfl
    | some event => exact (if_neg fun h ↦ hnot h.1).symm
  · have hfits : utf8Length (LineTap.withoutCr line) ≤ LineTap.maxLine := Nat.not_lt.mp hlong
    have hsome : [line].filter (fun line ↦ ¬ TooLong (LineTap.withoutCr line)) = [line] := by
      simp [hlong]
    rw [hsome, lineEvents_singleton]
    cases lineEvent parseJson (LineTap.withoutCr line) with
    | none =>
      rw [Option.toList_none, List.filter_nil, List.append_nil]
      rfl
    | some event =>
      rw [Option.toList_some]
      by_cases hkind : eventKind event = some "response.completed"
      · simp [hkind, hfits]
      · simp [hkind, lastResponse]

theorem responsesSeen_eq (lines : List (List Char)) :
    seenIn (ResponsesSeen.observeLine parseJson) {} lines = responsesReport parseJson lines := by
  induction lines using List.reverseRecOn with
  | nil => rfl
  | append_singleton lines line ih =>
    rw [seenIn_concat, ih, ResponsesSeen.observeLine, responsesReport, responsesReport,
      lineEvents_append, lineEvents_singleton, lastResponse_concat]
    cases lineEvent parseJson (LineTap.withoutCr line) with
    | none => rw [Option.toList_none, List.append_nil]
    | some event =>
      rw [Option.toList_some, filterMap_concat, lastUsage_concat, lastVerdict_concat]
      simp only [List.any_append, List.any_cons, List.any_nil, Bool.or_false]
      rfl

end Reports

/-! ## The two taps -/

section Taps

variable (parseJson : String → Option JsonValue) (text : List Char)

/-- What the relay reads from the tap of an Anthropic stream: the usage, and whether the answer
came to its end. -/
def anthropicView (tap : LineTap AnthropicSeen) : Option Usage × Bool :=
  (tap.seen.usage, tap.seen.sawMessageStop)

/-- `completed_successfully` -/
def LineTap.completedSuccessfully (tap : LineTap ResponsesSeen) : Bool :=
  tap.seen.sawTerminal && tap.seen.successful && !tap.abandoned

/-- What is read from the tap of a Responses stream. -/
def responsesView (tap : LineTap ResponsesSeen) : Option Usage × (Bool × Bool) × Option JsonValue :=
  (tap.seen.usage, (tap.seen.sawTerminal, tap.completedSuccessfully), tap.seen.terminalResponse)

/-- A property of the lines before each long line that has an end. -/
def BeforeLongLines (p : List (List Char) → Prop) : Prop :=
  ∀ before line after, completeLines text = before ++ line :: after → TooLong line → p before

/-- An Anthropic text on which the chunks do not matter. -/
def AnthropicChunksAlike : Prop :=
  ChunksAlike (AnthropicSeen.observeLine parseJson) {} anthropicView text

/-- A Responses text on which the chunks do not matter. -/
def ResponsesChunksAlike : Prop :=
  ChunksAlike (ResponsesSeen.observeLine parseJson) {} responsesView text

/-- The lines before a long one report all that a Responses text reports, short of success. -/
structure ReportsAll (before : List (List Char)) : Prop where
  usage : (responsesReport parseJson before).usage =
    (responsesReport parseJson (readableLines text)).usage
  terminal : (responsesReport parseJson before).sawTerminal =
    (responsesReport parseJson (readableLines text)).sawTerminal
  response : (responsesReport parseJson before).terminalResponse =
    (responsesReport parseJson (readableLines text)).terminalResponse
  noSuccess : (responsesReport parseJson (readableLines text)).successful = true →
    TooLong (openLine text)

variable {parseJson text}

theorem anthropicView_eq_iff {before : List (List Char)} :
    anthropicView (gaveUp (AnthropicSeen.observeLine parseJson) {} before) =
        anthropicView (wholeTap (AnthropicSeen.observeLine parseJson) {} text) ↔
      anthropicReport parseJson before = anthropicReport parseJson (readableLines text) := by
  rw [anthropicView, anthropicView, gaveUp, wholeTap, Prod.mk.injEq]
  dsimp only
  rw [anthropicSeen_eq, anthropicSeen_eq]
  constructor
  · rintro ⟨husage, hstop⟩
    exact congrArg₂ AnthropicSeen.mk husage hstop
  · intro h
    exact ⟨congrArg AnthropicSeen.usage h, congrArg AnthropicSeen.sawMessageStop h⟩

/-- A success is a terminal event. -/
theorem sawTerminal_of_successful {lines : List (List Char)}
    (h : (responsesReport parseJson lines).successful = true) :
    (responsesReport parseJson lines).sawTerminal = true := by
  obtain ⟨event, hlast, -⟩ := (Option.any_eq_true _ _).mp h
  have hmem := List.mem_of_getLast? hlast
  obtain ⟨hevent, hterminal⟩ := List.mem_filter.mp hmem
  exact List.any_eq_true.mpr ⟨event, hevent, hterminal⟩

theorem completedSuccessfully_gaveUp (lines : List (List Char)) :
    (gaveUp (ResponsesSeen.observeLine parseJson) {} lines).completedSuccessfully = false := by
  rw [LineTap.completedSuccessfully, gaveUp, Bool.not_true, Bool.and_false]

theorem completedSuccessfully_wholeTap_iff :
    (wholeTap (ResponsesSeen.observeLine parseJson) {} text).completedSuccessfully = false ↔
      ((responsesReport parseJson (readableLines text)).successful = true →
        TooLong (openLine text)) := by
  rw [LineTap.completedSuccessfully, wholeTap, responsesSeen_eq]
  dsimp only
  by_cases hsuccess : (responsesReport parseJson (readableLines text)).successful = true
  · rw [sawTerminal_of_successful hsuccess, hsuccess]
    simp
  · simp [hsuccess]

theorem responsesView_eq_iff {before : List (List Char)} :
    responsesView (gaveUp (ResponsesSeen.observeLine parseJson) {} before) =
        responsesView (wholeTap (ResponsesSeen.observeLine parseJson) {} text) ↔
      ReportsAll parseJson text before := by
  rw [responsesView, responsesView, Prod.mk.injEq, Prod.mk.injEq, Prod.mk.injEq,
    completedSuccessfully_gaveUp, eq_comm (a := false), completedSuccessfully_wholeTap_iff,
    gaveUp, wholeTap]
  dsimp only
  rw [responsesSeen_eq, responsesSeen_eq]
  constructor
  · rintro ⟨husage, ⟨hterminal, hsuccess⟩, hresponse⟩
    exact ⟨husage, hterminal, hresponse, hsuccess⟩
  · rintro ⟨husage, hterminal, hresponse, hsuccess⟩
    exact ⟨husage, ⟨hterminal, hsuccess⟩, hresponse⟩

variable (parseJson text)

/-- A tap says the same of a text however it is cut exactly when the lines before each line that
is too long and has an end report all that the lines of the text do. -/
theorem chunks_alike_iff :
    (AnthropicChunksAlike parseJson text ↔ BeforeLongLines text fun before ↦
      anthropicReport parseJson before = anthropicReport parseJson (readableLines text)) ∧
    (ResponsesChunksAlike parseJson text ↔
      BeforeLongLines text (ReportsAll parseJson text)) := by
  constructor
  · rw [AnthropicChunksAlike, chunksAlike_iff]
    refine forall₃_congr fun before line after ↦ forall₂_congr fun _ _ ↦ ?_
    exact anthropicView_eq_iff
  · rw [ResponsesChunksAlike, chunksAlike_iff]
    refine forall₃_congr fun before line after ↦ forall₂_congr fun _ _ ↦ ?_
    exact responsesView_eq_iff

end Taps

/-- A comment, and an event on the next line. -/
def commented (n : ℕ) (event : List Char) : List Char :=
  (':' :: List.replicate n 'a') ++ '\n' :: (event ++ ['\n'])

/-- The payloads of the two events that end an answer. -/
def endPayload : String → Option JsonValue
  | "\x7b\"type\":\"message_stop\"\x7d" => some (.object [("type", .string "message_stop")])
  | "\x7b\"type\":\"response.completed\"\x7d" =>
    some (.object [("type", .string "response.completed")])
  | _ => none

def stopLine : List Char := "data:\x7b\"type\":\"message_stop\"\x7d".toList

def completedLine : List Char := "data:\x7b\"type\":\"response.completed\"\x7d".toList

theorem completeLines_commented (n : ℕ) {event : List Char} (h : '\n' ∉ event) :
    completeLines (commented n event) = [':' :: List.replicate n 'a', event] := by
  have hcomment : '\n' ∉ ':' :: List.replicate n 'a' := by simp
  rw [commented, completeLines_line hcomment, completeLines_line h,
    completeLines_of_notMem List.not_mem_nil]

theorem utf8Length_comment (n : ℕ) : utf8Length (':' :: List.replicate n 'a') = n + 1 := by
  have hsize : Char.utf8Size 'a' = 1 ∧ Char.utf8Size ':' = 1 := by decide
  rw [utf8Length, List.map_cons, List.map_replicate, List.sum_cons, List.sum_replicate_nat,
    hsize.1, hsize.2]
  omega

theorem tooLong_comment : TooLong (':' :: List.replicate LineTap.maxLine 'a') := by
  rw [TooLong, utf8Length_comment]
  exact Nat.lt_succ_self _

/-- A comment that is too long hides the end of the answer when a chunk ends inside it, and not
otherwise. -/
theorem not_chunks_alike_commented :
    ¬ AnthropicChunksAlike endPayload (commented LineTap.maxLine stopLine) ∧
      ¬ ResponsesChunksAlike endPayload (commented LineTap.maxLine completedLine) := by
  have hread (event : List Char) (h : '\n' ∉ event) :
      event ∈ readableLines (commented LineTap.maxLine event) := by
    rw [readableLines, completeLines_commented _ h]
    simp
  constructor
  · intro h
    rw [AnthropicChunksAlike, chunksAlike_iff] at h
    have hreport := anthropicView_eq_iff.mp
      (h [] _ [stopLine] (completeLines_commented _ (by decide)) tooLong_comment)
    have hstop := congrArg AnthropicSeen.sawMessageStop hreport
    have hseen : (anthropicReport endPayload
        (readableLines (commented LineTap.maxLine stopLine))).sawMessageStop = true :=
      List.any_eq_true.mpr ⟨_, List.mem_filterMap.mpr ⟨stopLine, hread _ (by decide), rfl⟩, rfl⟩
    rw [hseen] at hstop
    nomatch hstop
  · intro h
    rw [ResponsesChunksAlike, chunksAlike_iff] at h
    have hreport := responsesView_eq_iff.mp
      (h [] _ [completedLine] (completeLines_commented _ (by decide)) tooLong_comment)
    have hseen : (responsesReport endPayload
        (readableLines (commented LineTap.maxLine completedLine))).sawTerminal = true :=
      List.any_eq_true.mpr
        ⟨_, List.mem_filterMap.mpr ⟨completedLine, hread _ (by decide), rfl⟩, rfl⟩
    have hterminal := hreport.terminal
    rw [hseen] at hterminal
    nomatch hterminal

end TokenStation
