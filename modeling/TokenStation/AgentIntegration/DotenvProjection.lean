import TokenStation.AgentIntegration.DotenvLines

/-!
# Giving a dotenv file back

A connection writes the keys it owns, the operator goes on editing the rest, and a disconnect puts
the owned keys back to their lines in the baseline. Every step puts one line, so what the operator
wrote stays, with one exception: when the baseline ends in the assignment of an owned key without a
line end, that line is put back without one, and swallows the line that follows it by then.
`projectPaths_restores_iff` says when that does no harm.
-/

namespace TokenStation

namespace Dotenv

open Library

/-! ## A written key is read back -/

/-- The characters between the quotes of a written value. -/
def escapeValue (value : List Char) : List Char :=
  replaceChar '"' ['\\', '"'] (replaceChar '\\' ['\\', '\\'] value)

theorem escapeValue_cons (c : Char) (value : List Char) :
    escapeValue (c :: value) =
      (if c = '\\' then ['\\', '\\'] else if c = '"' then ['\\', '"'] else [c]) ++
        escapeValue value := by
  simp only [escapeValue, replaceChar, List.flatMap_cons, List.flatMap_append]
  by_cases hslash : c = '\\'
  · rw [if_pos hslash, if_pos hslash]
    rfl
  · rw [if_neg hslash, if_neg hslash]
    simp only [List.flatMap_cons, List.flatMap_nil, List.append_nil]

theorem parseDoubleQuoted_escapeValue (value : List Char) :
    parseDoubleQuoted false (escapeValue value ++ ['"']) = .ok value := by
  induction value with
  | nil => rfl
  | cons c value ih =>
    rw [escapeValue_cons, List.append_assoc]
    by_cases hslash : c = '\\'
    · subst hslash
      simp only [if_true, List.cons_append, List.nil_append, parseDoubleQuoted, ih]
      rfl
    · by_cases hquote : c = '"'
      · subst hquote
        simp only [if_neg hslash, if_true, List.cons_append, List.nil_append, parseDoubleQuoted, ih]
        rfl
      · simp only [if_neg hslash, if_neg hquote, List.cons_append, List.nil_append,
          parseDoubleQuoted, ih]
        rfl

/-- A key that a path can name. -/
structure IsKey (key : List Char) : Prop where
  chars : ∀ c ∈ key, isKeyChar c = true
  first : ∃ c rest, key = c :: rest ∧ (c.isAlpha = true ∨ c = '_')

theorem isKey_of_pathKey {path : ConfigPath} {key : List Char} (h : pathKey path = .ok key) :
    IsKey key ∧ path = ⟨[String.ofList key]⟩ := by
  rw [pathKey] at h
  split at h
  next name hname =>
    dsimp only at h
    split at h
    next => nomatch h
    next hvalid =>
      obtain rfl := Except.ok.inj h
      simp only [Bool.or_eq_true, not_or, Bool.not_eq_true, Bool.not_eq_false'] at hvalid
      obtain ⟨⟨⟨hne, -⟩, hchars⟩, hdigit⟩ := hvalid
      have hall : ∀ c ∈ name.toList, isKeyChar c = true := List.all_eq_true.mp hchars
      refine ⟨⟨hall, ?_⟩, ?_⟩
      · rcases hlist : name.toList with - | ⟨c, rest⟩
        · rw [hlist] at hne
          nomatch hne
        · refine ⟨c, rest, rfl, ?_⟩
          have hc := hall c (by rw [hlist]; exact List.mem_cons_self)
          rw [hlist] at hdigit
          have hnot : c.isDigit = false := hdigit
          simpa [isKeyChar, Char.isAlphanum, hnot] using hc
      · rcases path with ⟨segments⟩
        simp only at hname
        rw [hname, String.ofList_toList]
  next => nomatch h

theorem not_isBlank_of_isKeyChar {c : Char} (h : isKeyChar c = true) : isBlank c = false := by
  rw [isBlank, Bool.or_eq_false_iff]
  constructor
  · rw [beq_eq_false_iff_ne]
    rintro rfl
    exact absurd h (by decide)
  · rw [beq_eq_false_iff_ne]
    rintro rfl
    exact absurd h (by decide)

theorem afterExport_key {key more : List Char} (hchars : ∀ c ∈ key, isKeyChar c = true) :
    afterExport (key ++ '=' :: more) = key ++ '=' :: more := by
  rw [afterExport]
  rcases hstrip : stripPrefix "export".toList (key ++ '=' :: more) with - | rest
  · rfl
  · rcases rest with - | ⟨c, tail⟩
    · rfl
    · -- the word ends inside the key, or is the whole key: no blank follows it
      have heq := stripPrefix_eq_some hstrip
      have hc : isBlank c = false := by
        rcases List.append_eq_append_iff.mp heq.symm with ⟨mid, hmid, hrest⟩ | ⟨mid, hmid, hrest⟩
        · rcases mid with - | ⟨first, mid⟩
          · obtain ⟨rfl, -⟩ := List.cons.inj hrest
            decide
          · obtain ⟨rfl, -⟩ := List.cons.inj hrest
            apply not_isBlank_of_isKeyChar
            exact hchars c (by rw [hmid]; simp)
        · rcases mid with - | ⟨first, mid⟩
          · obtain ⟨rfl, -⟩ := List.cons.inj hrest
            decide
          · obtain ⟨rfl, -⟩ := List.cons.inj hrest
            have hin : '=' ∈ "export".toList := by rw [hmid]; simp
            exact absurd hin (by decide)
      simp only [hc]
      rfl

theorem parseAssignment_written {key : List Char} (hkey : IsKey key) (value : List Char) :
    parseAssignment (key ++ '=' :: '"' :: (escapeValue value ++ ['"'])) =
      .ok (some (key, value)) := by
  obtain ⟨c, rest, rfl, hfirst⟩ := hkey.first
  have hc := hkey.chars c List.mem_cons_self
  have hdrop : ((c :: rest) ++ '=' :: '"' :: (escapeValue value ++ ['"'])).dropWhile isBlank =
      (c :: rest) ++ '=' :: '"' :: (escapeValue value ++ ['"']) := by
    rw [List.cons_append, List.dropWhile_cons_of_neg (by rw [not_isBlank_of_isKeyChar hc]; simp)]
  have htake : ((c :: rest) ++ '=' :: '"' :: (escapeValue value ++ ['"'])).takeWhile isKeyChar =
      c :: rest := by
    rw [List.takeWhile_append_of_pos hkey.chars, List.takeWhile_cons_of_neg (by decide),
      List.append_nil]
  have hhash : c ≠ '#' := by
    rintro rfl
    exact absurd hc (by decide)
  have halpha : (!c.isAlpha && c != '_') = false := by
    rcases hfirst with h | h
    · simp [h]
    · simp [h]
  rw [parseAssignment, hdrop]
  split
  next heq => nomatch heq
  next heq => exact absurd (List.cons.inj heq).1 hhash
  next =>
    simp only [afterExport_key hkey.chars, htake, halpha]
    rw [List.drop_left' rfl, List.dropWhile_cons_of_neg (by decide)]
    simp only [List.dropWhile_cons_of_neg (show ¬ isBlank '"' = true by decide), parseValue,
      parseDoubleQuoted_escapeValue]
    rfl

theorem mem_escapeValue {c : Char} {value : List Char} (h : c ∈ escapeValue value) :
    c ∈ value ∨ c = '\\' ∨ c = '"' := by
  induction value with
  | nil => nomatch h
  | cons d value ih =>
    rw [escapeValue_cons, List.mem_append] at h
    rcases h with h | h
    · split at h
      · exact Or.inr (Or.inl (by simpa using h))
      · split at h
        · exact Or.inr (by simpa using h)
        · rw [List.mem_singleton.mp h]
          exact Or.inl List.mem_cons_self
    · rcases ih h with h | h
      · exact Or.inl (List.mem_cons_of_mem _ h)
      · exact Or.inr h

theorem quotedValue_eq_ok {value quoted : List Char} (h : quotedValue value = .ok quoted) :
    quoted = '"' :: (escapeValue value ++ ['"']) ∧ '\n' ∉ value := by
  rw [quotedValue] at h
  split at h
  next => nomatch h
  next hplain =>
    refine ⟨(Except.ok.inj h).symm, fun hmem ↦ hplain ?_⟩
    exact List.any_eq_true.mpr ⟨'\n', hmem, rfl⟩

/-- The line that a write puts in is an assignment of the key, with either line end. -/
theorem written_line {key value quoted newline : List Char} (hkey : IsKey key)
    (hquoted : quotedValue value = .ok quoted)
    (hnewline : newline = ['\n'] ∨ newline = ['\r', '\n']) :
    Terminated '\n' (key ++ ['='] ++ quoted ++ newline) ∧
      assignment (key ++ ['='] ++ quoted ++ newline) = .ok (some (key, value)) := by
  obtain ⟨rfl, hplain⟩ := quotedValue_eq_ok hquoted
  have hkeyPlain : '\n' ∉ key := fun hmem ↦ absurd (hkey.chars _ hmem) (by decide)
  have hescaped : '\n' ∉ escapeValue value := fun hmem ↦ by
    rcases mem_escapeValue hmem with h | h | h
    · exact hplain h
    · exact absurd h (by decide)
    · exact absurd h (by decide)
  constructor
  · rcases hnewline with rfl | rfl
    · exact ⟨key ++ ['='] ++ '"' :: (escapeValue value ++ ['"']), rfl,
        by simp [hkeyPlain, hescaped]⟩
    · exact ⟨key ++ ['='] ++ '"' :: (escapeValue value ++ ['"']) ++ ['\r'], by simp,
        by simp [hkeyPlain, hescaped]⟩
  · have htrim : trimEndMatches isNewline
        (key ++ ['='] ++ '"' :: (escapeValue value ++ ['"']) ++ newline) =
        key ++ '=' :: '"' :: (escapeValue value ++ ['"']) := by
      have hbody : key ++ ['='] ++ '"' :: (escapeValue value ++ ['"']) =
          (key ++ '=' :: '"' :: escapeValue value) ++ ['"'] := by simp
      have hstop : (key ++ '=' :: '"' :: escapeValue value ++ ['"']).rdropWhile isNewline =
          key ++ '=' :: '"' :: escapeValue value ++ ['"'] :=
        List.rdropWhile_concat_neg _ _ _ (by decide)
      rw [trimEndMatches, hbody]
      rcases hnewline with rfl | rfl
      · rw [List.rdropWhile_concat_pos _ _ _ rfl, hstop]
        simp
      · rw [show ∀ l : List Char, l ++ ['\r', '\n'] = l ++ ['\r'] ++ ['\n'] by simp,
          List.rdropWhile_concat_pos _ _ _ rfl, List.rdropWhile_concat_pos _ _ _ rfl, hstop]
        simp
    rw [assignment, htrim, parseAssignment_written hkey]

/-! ## A connection writes every key -/

/-- The lines of a document. -/
def lines (document : LosslessDotenvDocument) : List (List Char) :=
  splitInclusive '\n' document.rendered

/-- A terminated line is put for its key. -/
theorem replaceRaw_writes {lines : List (List Char)} {line key value : List Char}
    (hshape : IsLines '\n' lines) (hreads : Reads lines) (hterm : Terminated '\n' line)
    (hline : assignment line = .ok (some (key, value))) :
    ∃ lines', replaceRaw lines.flatten key (some line) = .ok lines'.flatten ∧
      Puts lines lines' key (some value) := by
  obtain ⟨lines', hput, hputs⟩ :=
    replaceRaw_puts hshape hreads fun raw (hraw : raw ∈ some line) ↦ by
      obtain rfl := Option.some.inj hraw
      exact ⟨keyOf_of_assignment hline, Or.inl hterm⟩
  rw [Option.bind_some, valueIn_singleton hline] at hputs
  exact ⟨lines', hput, hputs⟩

theorem applyWrite_puts {document document' : LosslessDotenvDocument} {key : List Char}
    {operation : PatchOperation} (hreads : Reads (lines document)) (hkey : IsKey key)
    (h : applyWrite document operation key = .ok document') :
    ∃ value, Puts (lines document) (lines document') key (some value) := by
  rw [applyWrite] at h
  split at h
  next => nomatch h
  next value _ =>
    dsimp only at h
    split at h
    next => nomatch h
    next quoted hquoted =>
      have hnewline : (if ['\r', '\n'] <:+: document.rendered then ['\r', '\n'] else ['\n']) =
          ['\n'] ∨ (if ['\r', '\n'] <:+: document.rendered then ['\r', '\n'] else ['\n']) =
          ['\r', '\n'] := by
        split
        · exact Or.inr rfl
        · exact Or.inl rfl
      obtain ⟨hterm, hline⟩ := written_line hkey hquoted hnewline
      obtain ⟨lines', hput, hputs⟩ :=
        replaceRaw_writes (isLines_splitInclusive _) hreads hterm hline
      rw [splitInclusive_flatten] at hput
      rw [hput] at h
      obtain rfl := Except.ok.inj h
      refine ⟨value, ?_⟩
      rw [lines, lines, splitInclusive_of_isLines hputs.isLines]
      exact hputs

theorem applyOperation_puts {document document' : LosslessDotenvDocument}
    {operation : PatchOperation} (hreads : Reads (lines document))
    (hwrite : operation.operation = .add ∨ operation.operation = .replace)
    (h : applyOperation document operation = .ok document') :
    ∃ key value, pathKey operation.path = .ok key ∧
      Puts (lines document) (lines document') key (some value) := by
  rw [applyOperation] at h
  rcases hpath : pathKey operation.path with error | key
  · rw [hpath] at h
    nomatch h
  · rw [hpath] at h
    have happly : applyWrite document operation key = .ok document' := by
      rcases hwrite with hkind | hkind
      · rw [hkind] at h
        exact h
      · rw [hkind] at h
        exact h
    obtain ⟨value, hputs⟩ := applyWrite_puts hreads (isKey_of_pathKey hpath).1 happly
    exact ⟨key, value, rfl, hputs⟩

/-- After a patch that only writes, every key it names has a value. -/
theorem applyPatch_writes {document document' : LosslessDotenvDocument}
    {operations : List PatchOperation} (hreads : Reads (lines document))
    (hwrites : ∀ operation ∈ operations, operation.operation = .add ∨
      operation.operation = .replace)
    (h : applyPatch document operations = .ok document') :
    Reads (lines document') ∧
      (∀ key, valueIn (lines document) key ≠ none → valueIn (lines document') key ≠ none) ∧
      ∀ operation ∈ operations, ∃ key, pathKey operation.path = .ok key ∧
        valueIn (lines document') key ≠ none := by
  induction operations generalizing document with
  | nil =>
    obtain rfl := Except.ok.inj h
    exact ⟨hreads, fun _ hkey ↦ hkey, fun _ hmem ↦ nomatch hmem⟩
  | cons operation operations ih =>
    rcases hop : applyOperation document operation with error | middle
    · simp only [applyPatch, Bind.bind, Except.bind, hop] at h
      nomatch h
    · simp only [applyPatch, Bind.bind, Except.bind, hop] at h
      obtain ⟨key, value, hpath, hputs⟩ :=
        applyOperation_puts hreads (hwrites _ List.mem_cons_self) hop
      obtain ⟨hreads', hkept, hall⟩ :=
        ih hputs.reads (fun o ho ↦ hwrites o (List.mem_cons_of_mem _ ho)) h
      have hhere : valueIn (lines middle) key ≠ none := by
        rw [hputs.value]
        exact Option.some_ne_none _
      refine ⟨hreads', fun other hother ↦ hkept other ?_, fun o ho ↦ ?_⟩
      · by_cases hsame : other = key
        · rwa [hsame]
        · rwa [hputs.others other hsame]
      · rcases List.mem_cons.mp ho with rfl | ho
        · exact ⟨key, hpath, hkept key hhere⟩
        · exact hall o ho

/-! ## Putting keys back one after the other -/

/-- The line of a key. -/
def rawIn (lines : List (List Char)) (key : List Char) : Option (List Char) :=
  lines.find? fun line ↦ keyOf line = some key

/-- The keys that the owned paths name. -/
def ownedKeys (ownedPaths : List ConfigPath) : List (List Char) :=
  ownedPaths.filterMap fun path ↦ (pathKey path).toOption

/-- `projectFrom` on keys, with the lines of the baseline. -/
def putBack (baseline : List (List Char)) (rendered : List Char) :
    List (List Char) → Except String (List Char)
  | [] => .ok rendered
  | key :: keys =>
    match replaceRaw rendered key (rawIn baseline key) with
    | .error error => .error error
    | .ok rendered => putBack baseline rendered keys

theorem rawIn_middle {before after : List (List Char)} {line key : List Char}
    (hbefore : key ∉ before.filterMap keyOf) (hline : keyOf line = some key) :
    rawIn (before ++ line :: after) key = some line := by
  have hnone : before.find? (fun line ↦ decide (keyOf line = some key)) = none := by
    rw [List.find?_eq_none]
    intro l hl hkey
    exact hbefore (List.mem_filterMap.mpr ⟨l, hl, of_decide_eq_true hkey⟩)
  rw [rawIn, List.find?_append, hnone, Option.none_or, List.find?_cons_of_pos (by simp [hline])]

theorem rawIn_eq_none_iff {lines : List (List Char)} {key : List Char} :
    rawIn lines key = none ↔ key ∉ lines.filterMap keyOf := by
  rw [rawIn, List.find?_eq_none, List.mem_filterMap]
  simp

theorem keyOf_of_rawIn {lines : List (List Char)} {line key : List Char}
    (h : rawIn lines key = some line) : keyOf line = some key := by
  rw [rawIn] at h
  simpa using List.find?_some h

/-- The raw line of a key gives it the value that the baseline gives it. -/
theorem bind_rawIn {lines : List (List Char)} (hreads : Reads lines) (key : List Char) :
    (rawIn lines key).bind (valueIn [·] key) = valueIn lines key := by
  by_cases hkey : key ∈ lines.filterMap keyOf
  · obtain ⟨line, hmem, hline⟩ := List.mem_filterMap.mp hkey
    obtain ⟨before, after, rfl⟩ := List.append_of_mem hmem
    obtain ⟨-, hbefore, -⟩ := (reads_middle_iff hline).mp hreads
    obtain ⟨value, hvalue⟩ := keyOf_eq_some.mp hline
    rw [rawIn_middle hbefore hline, Option.bind_some, valueIn_singleton hvalue,
      valueIn_middle hbefore hvalue]
  · rw [rawIn_eq_none_iff.mpr hkey, valueIn_eq_none_iff.mpr hkey]
    rfl

theorem projectFrom_eq {baseline : LosslessDotenvDocument} {found : List DotenvEntry}
    (hfound : entries baseline.rendered = .ok found) {ownedPaths : List ConfigPath}
    (hvalid : ∀ path ∈ ownedPaths, ∃ key, pathKey path = .ok key) (rendered : List Char) :
    projectFrom found rendered ownedPaths =
      putBack (lines baseline) rendered (ownedKeys ownedPaths) := by
  have hraw : ∀ key, (found.find? (·.key = key)).map (·.raw) = rawIn (lines baseline) key := by
    intro key
    have hreads : Reads (lines baseline) := exists_entries_iff.mp ⟨found, hfound⟩
    rcases find_entriesFrom hfound key with ⟨hnone, habsent⟩ | ⟨before, line, after, value, heq,
      hline, hfind⟩
    · rw [hnone]
      exact (rawIn_eq_none_iff.mpr habsent).symm
    · rw [hfind, lines, heq]
      rw [lines, heq] at hreads
      obtain ⟨-, hbefore, -⟩ := (reads_middle_iff (keyOf_of_assignment hline)).mp hreads
      exact (rawIn_middle hbefore (keyOf_of_assignment hline)).symm
  induction ownedPaths generalizing rendered with
  | nil => rfl
  | cons path paths ih =>
    obtain ⟨key, hkey⟩ := hvalid path List.mem_cons_self
    have hvalid' : ∀ path ∈ paths, ∃ key, pathKey path = .ok key :=
      fun p hp ↦ hvalid p (List.mem_cons_of_mem _ hp)
    have hkeys : ownedKeys (path :: paths) = key :: ownedKeys paths := by
      rw [ownedKeys, List.filterMap_cons, hkey]
      rfl
    rw [hkeys, putBack]
    simp only [projectFrom, Bind.bind, Except.bind, hkey, hraw]
    rcases replaceRaw rendered key (rawIn (lines baseline) key) with error | rendered'
    · rfl
    · exact ih hvalid' rendered'

/-- Keys whose lines in the baseline are terminated are put back, whatever they follow. -/
theorem putBack_safe {baseline current : List (List Char)} {keys : List (List Char)}
    (hbaseline : Reads baseline) (hshape : IsLines '\n' current) (hreads : Reads current)
    (hraw : ∀ key ∈ keys, ∀ line ∈ rawIn baseline key, Terminated '\n' line) :
    ∃ restored, putBack baseline current.flatten keys = .ok restored.flatten ∧
      IsLines '\n' restored ∧ Reads restored ∧
      (∀ key ∈ keys, valueIn restored key = valueIn baseline key) ∧
      (∀ key, key ∉ keys → valueIn restored key = valueIn current key) ∧
      ∀ owned, (∀ key ∈ keys, key ∈ owned) →
        userLines owned restored = userLines owned current := by
  induction keys generalizing current with
  | nil =>
    exact ⟨current, rfl, hshape, hreads, fun _ hkey ↦ (nomatch hkey), fun _ _ ↦ rfl,
      fun _ _ ↦ rfl⟩
  | cons key keys ih =>
    obtain ⟨middle, hput, hputs⟩ := replaceRaw_puts hshape hreads fun line hline ↦
      ⟨keyOf_of_rawIn hline, Or.inl (hraw key List.mem_cons_self line hline)⟩
    obtain ⟨restored, hback, hshape', hreads', howned, hothers, huser⟩ :=
      ih hputs.isLines hputs.reads fun k hk ↦ hraw k (List.mem_cons_of_mem _ hk)
    refine ⟨restored, ?_, hshape', hreads', fun k hk ↦ ?_, fun k hk ↦ ?_, fun owned hin ↦ ?_⟩
    · rw [putBack, hput]
      exact hback
    · by_cases hmem : k ∈ keys
      · exact howned k hmem
      · obtain rfl := (List.mem_cons.mp hk).resolve_right hmem
        rw [hothers k hmem, hputs.value, bind_rawIn hbaseline]
    · rw [List.mem_cons, not_or] at hk
      rw [hothers k hk.2, hputs.others k hk.1]
    · rw [huser owned fun k hk ↦ hin k (List.mem_cons_of_mem _ hk),
        hputs.user owned (hin key List.mem_cons_self)]

/-- What cannot be read is not made readable by putting keys back. -/
theorem reads_of_putBack {baseline : List (List Char)} {keys : List (List Char)}
    {current restored : List Char} (h : putBack baseline current keys = .ok restored)
    (hreads : Reads (splitInclusive '\n' restored)) : Reads (splitInclusive '\n' current) := by
  rcases keys with - | ⟨key, keys⟩
  · obtain rfl := Except.ok.inj h
    exact hreads
  · by_contra hnot
    rcases hentries : entries current with error | found
    · rw [putBack, replaceRaw, hentries] at h
      cases h
    · exact hnot (exists_entries_iff.mp ⟨found, hentries⟩)

/-! ## The lines that follow a key while others are put back -/

local instance lawfulLines : LawfulBEq (List Char) := inferInstance

/-- What a line becomes when `keys` are put back. -/
def putLine (baseline keys : List (List Char)) (line : List Char) : Option (List Char) :=
  match keyOf line with
  | some key => if key ∈ keys then rawIn baseline key else some line
  | none => some line

theorem putLine_of_not_mem {baseline keys : List (List Char)} {line : List Char}
    (h : ∀ key, keyOf line = some key → key ∉ keys) : putLine baseline keys line = some line := by
  rw [putLine]
  rcases hkey : keyOf line with - | key
  · rfl
  · exact if_neg (h key hkey)

theorem putLine_of_mem {baseline keys : List (List Char)} {line key : List Char}
    (hline : keyOf line = some key) (hkey : key ∈ keys) :
    putLine baseline keys line = rawIn baseline key := by
  rw [putLine, hline]
  exact if_pos hkey

theorem putLine_cons (baseline keys : List (List Char)) (key line : List Char) :
    (putLine baseline [key] line).bind (putLine baseline keys) =
      putLine baseline (key :: keys) line := by
  rcases hline : keyOf line with - | found
  · simp only [putLine, hline, Option.bind_some]
  · by_cases hfound : found = key
    · subst hfound
      rw [putLine_of_mem hline List.mem_cons_self, putLine_of_mem hline List.mem_cons_self]
      rcases hraw : rawIn baseline found with - | raw
      · rfl
      · have hrawKey := keyOf_of_rawIn hraw
        rw [Option.bind_some]
        by_cases hmem : found ∈ keys
        · rw [putLine_of_mem hrawKey hmem, hraw]
        · exact putLine_of_not_mem fun k hk ↦ by rwa [← Option.some.inj (hrawKey.symm.trans hk)]
    · have hskip : putLine baseline [key] line = some line := putLine_of_not_mem fun k hk ↦ by
        rw [← Option.some.inj (hline.symm.trans hk)]
        simpa using hfound
      rw [hskip, Option.bind_some]
      simp only [putLine, hline, List.mem_cons, hfound, false_or]

theorem filterMap_putLine_of_not_mem {baseline lines : List (List Char)} {key : List Char}
    (h : key ∉ lines.filterMap keyOf) : lines.filterMap (putLine baseline [key]) = lines := by
  induction lines with
  | nil => rfl
  | cons line lines ih =>
    have hline : putLine baseline [key] line = some line := putLine_of_not_mem fun k hk hin ↦ by
      rw [List.mem_singleton.mp hin] at hk
      exact h (List.mem_filterMap.mpr ⟨line, List.mem_cons_self, hk⟩)
    have hrest : key ∉ lines.filterMap keyOf := by
      intro hmem
      obtain ⟨l, hl, hkey⟩ := List.mem_filterMap.mp hmem
      exact h (List.mem_filterMap.mpr ⟨l, List.mem_cons_of_mem _ hl, hkey⟩)
    rw [List.filterMap_cons_some hline, ih hrest]

/-- Keys that are all there are put back line by line. -/
theorem putBack_eq {baseline current : List (List Char)} {keys : List (List Char)}
    (hshape : IsLines '\n' current) (hreads : Reads current)
    (hraw : ∀ key ∈ keys, ∀ line ∈ rawIn baseline key, Terminated '\n' line)
    (hpresent : ∀ key ∈ keys, key ∈ current.filterMap keyOf) (hnodup : keys.Nodup) :
    putBack baseline current.flatten keys =
        .ok (current.filterMap (putLine baseline keys)).flatten ∧
      IsLines '\n' (current.filterMap (putLine baseline keys)) := by
  induction keys generalizing current with
  | nil =>
    have hsame : current.filterMap (putLine baseline []) = current.filterMap some :=
      List.filterMap_congr fun line _ ↦ putLine_of_not_mem fun _ _ ↦ List.not_mem_nil
    rw [hsame, List.filterMap_some]
    exact ⟨rfl, hshape⟩
  | cons key keys ih =>
    obtain ⟨line, hmem, hline⟩ := List.mem_filterMap.mp (hpresent key List.mem_cons_self)
    obtain ⟨before, after, rfl⟩ := List.append_of_mem hmem
    obtain ⟨-, hbefore, hafter⟩ := (reads_middle_iff hline).mp hreads
    have hstep : (before ++ line :: after).filterMap (putLine baseline [key]) =
        before ++ (rawIn baseline key).toList ++ after := by
      rw [List.filterMap_append, List.filterMap_cons, putLine_of_mem hline List.mem_cons_self,
        filterMap_putLine_of_not_mem hbefore, filterMap_putLine_of_not_mem hafter]
      rcases rawIn baseline key with - | raw <;> simp
    obtain ⟨middle, hput, hputs⟩ := replaceRaw_puts hshape hreads fun raw hrawKey ↦
      ⟨keyOf_of_rawIn hrawKey, Or.inl (hraw key List.mem_cons_self raw hrawKey)⟩
    have hmiddle : middle = before ++ (rawIn baseline key).toList ++ after := by
      have hshape' : IsLines '\n' (before ++ (rawIn baseline key).toList ++ after) := by
        rcases hrawKey : rawIn baseline key with - | raw
        · simpa using hshape.remove
        · simpa using hshape.replace (hraw key List.mem_cons_self raw hrawKey)
      rw [replaceRaw_middle hshape hreads hline] at hput
      rw [← splitInclusive_of_isLines hputs.isLines, ← Except.ok.inj hput,
        ← splitInclusive_of_isLines hshape']
      rcases rawIn baseline key with - | raw <;> simp
    obtain ⟨hnot, hnodup'⟩ := List.nodup_cons.mp hnodup
    have hpresent' : ∀ k ∈ keys, k ∈ middle.filterMap keyOf := by
      intro k hk
      have hne : k ≠ key := fun he ↦ hnot (he ▸ hk)
      by_contra habsent
      rw [← valueIn_eq_none_iff, hputs.others k hne, valueIn_eq_none_iff] at habsent
      exact habsent (hpresent k (List.mem_cons_of_mem _ hk))
    have hcompose : (before ++ line :: after).filterMap (putLine baseline (key :: keys)) =
        middle.filterMap (putLine baseline keys) := by
      rw [hmiddle, ← hstep, List.filterMap_filterMap]
      exact List.filterMap_congr fun l _ ↦ (putLine_cons baseline keys key l).symm
    rw [putBack, hput, hcompose]
    exact ih hputs.isLines hputs.reads (fun k hk ↦ hraw k (List.mem_cons_of_mem _ hk)) hpresent'
      hnodup'

/-- The first line that is left of `lines` when `keys` are put back. -/
theorem head?_filterMap_putLine (baseline keys lines : List (List Char)) :
    (lines.filterMap (putLine baseline keys)).head? =
      (lines.filter fun line ↦ !(keyOf line).any fun key ↦
        keys.contains key && (rawIn baseline key).isNone).head?.bind (putLine baseline keys) := by
  induction lines with
  | nil => rfl
  | cons line lines ih =>
    rcases hline : keyOf line with - | key
    · have hput : putLine baseline keys line = some line :=
        putLine_of_not_mem fun k hk ↦ by rw [hline] at hk; nomatch hk
      rw [List.filterMap_cons_some hput, List.filter_cons, hline]
      simp [hput]
    · by_cases hkey : key ∈ keys
      · rcases hraw : rawIn baseline key with - | raw
        · have hput : putLine baseline keys line = none := by rw [putLine_of_mem hline hkey, hraw]
          rw [List.filterMap_cons_none hput, List.filter_cons, hline, ih]
          simp [hkey, hraw]
        · have hput : putLine baseline keys line = some raw := by
            rw [putLine_of_mem hline hkey, hraw]
          rw [List.filterMap_cons_some hput, List.filter_cons, hline]
          simp [hraw, hput]
      · have hput : putLine baseline keys line = some line :=
          putLine_of_not_mem fun k hk ↦ by rwa [← Option.some.inj (hline.symm.trans hk)]
        rw [List.filterMap_cons_some hput, List.filter_cons, hline]
        simp [hkey, hput]

end Dotenv

end TokenStation
