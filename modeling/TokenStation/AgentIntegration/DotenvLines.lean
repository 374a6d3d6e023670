import TokenStation.AgentIntegration.Dotenv

/-!
# A dotenv text as its lines

`entries` walks over the text, and `replaceRaw` splices a range of it. Here both are read off the
list of lines: what a text assigns is what its lines assign, and a splice replaces one line, unless
the line put in is open and another line follows it.
-/

namespace TokenStation

namespace Dotenv

open Library

/-- The key that a line assigns, if it assigns one. -/
def keyOf (line : List Char) : Option (List Char) :=
  match assignment line with
  | .ok (some (key, _)) => some key
  | _ => none

/-- The lines can be read, and no key is assigned twice. -/
def Reads (lines : List (List Char)) : Prop :=
  (∀ line ∈ lines, ∃ found, assignment line = .ok found) ∧ (lines.filterMap keyOf).Nodup

/-- The value that the lines give a key. -/
def valueIn (lines : List (List Char)) (key : List Char) : Option (List Char) :=
  lines.findSome? fun line ↦
    match assignment line with
    | .ok (some (found, value)) => if found = key then some value else none
    | _ => none

theorem keyOf_eq_some {line key : List Char} :
    keyOf line = some key ↔ ∃ value, assignment line = .ok (some (key, value)) := by
  rw [keyOf]
  rcases assignment line with error | - | ⟨found, value⟩
  · simp
  · simp
  · simp

theorem keyOf_of_assignment {line key value : List Char}
    (h : assignment line = .ok (some (key, value))) : keyOf line = some key :=
  keyOf_eq_some.mpr ⟨value, h⟩

/-! ## What the entries are -/

theorem exists_entriesFrom_iff {seen : List (List Char)} {offset : ℕ}
    {lines : List (List Char)} :
    (∃ found, entriesFrom seen offset lines = .ok found) ↔
      Reads lines ∧ ∀ key ∈ lines.filterMap keyOf, key ∉ seen := by
  induction lines generalizing seen offset with
  | nil => simp [entriesFrom, Reads]
  | cons line lines ih =>
    rw [entriesFrom, Reads, List.forall_mem_cons]
    rcases hline : assignment line with error | - | ⟨key, value⟩
    · simp
    · have hkey : keyOf line = none := by rw [keyOf, hline]
      simp only [ih, Reads, List.filterMap_cons, hkey, Except.ok.injEq, exists_eq', true_and]
    · have hkey := keyOf_of_assignment hline
      simp only [List.filterMap_cons, hkey, Except.ok.injEq, exists_eq', true_and,
        List.nodup_cons, List.forall_mem_cons]
      by_cases hseen : key ∈ seen
      · simp [hseen]
      · have hmap : (∃ found, (entriesFrom (key :: seen) (offset + line.length) lines).map
            (⟨key, value, offset, offset + line.length, line⟩ :: ·) = .ok found) ↔
            ∃ found, entriesFrom (key :: seen) (offset + line.length) lines = .ok found := by
          rcases entriesFrom (key :: seen) (offset + line.length) lines with error | found
          · simp [Except.map]
          · simp [Except.map]
        rw [if_neg hseen, hmap, ih, Reads]
        constructor
        · rintro ⟨⟨hread, hnodup⟩, hnot⟩
          have hfresh : key ∉ lines.filterMap keyOf := fun hmem ↦
            hnot key hmem List.mem_cons_self
          exact ⟨⟨hread, hfresh, hnodup⟩, hseen, fun k hk hin ↦
            hnot k hk (List.mem_cons_of_mem _ hin)⟩
        · rintro ⟨⟨hread, hfresh, hnodup⟩, -, hnot⟩
          refine ⟨⟨hread, hnodup⟩, fun k hk hin ↦ ?_⟩
          rcases List.mem_cons.mp hin with rfl | hin
          · exact hfresh hk
          · exact hnot k hk hin

theorem exists_entries_iff {rendered : List Char} :
    (∃ found, entries rendered = .ok found) ↔ Reads (splitInclusive '\n' rendered) := by
  rw [entries, exists_entriesFrom_iff]
  exact and_iff_left fun key _ ↦ List.not_mem_nil

/-- The entry of a key is the one line that assigns it, and its range is where that line stands. -/
theorem find_entriesFrom {seen : List (List Char)} {offset : ℕ} {lines : List (List Char)}
    {found : List DotenvEntry} (h : entriesFrom seen offset lines = .ok found) (key : List Char) :
    (found.find? (·.key = key) = none ∧ key ∉ lines.filterMap keyOf) ∨
      ∃ before line after value, lines = before ++ line :: after ∧
        assignment line = .ok (some (key, value)) ∧
        found.find? (·.key = key) = some ⟨key, value, offset + before.flatten.length,
          offset + before.flatten.length + line.length, line⟩ := by
  induction lines generalizing seen offset found with
  | nil =>
    obtain rfl : [] = found := Except.ok.inj h
    exact Or.inl ⟨rfl, List.not_mem_nil⟩
  | cons line lines ih =>
    rw [entriesFrom] at h
    rcases hline : assignment line with error | - | ⟨key', value⟩
    · rw [hline] at h
      nomatch h
    · rw [hline] at h
      have hkey : keyOf line = none := by rw [keyOf, hline]
      rcases ih h with ⟨hnone, hnot⟩ | ⟨before, l, after, value, rfl, hl, hfind⟩
      · exact Or.inl ⟨hnone, by rwa [List.filterMap_cons, hkey]⟩
      · refine Or.inr ⟨line :: before, l, after, value, rfl, hl, ?_⟩
        rw [hfind, List.flatten_cons, List.length_append, Nat.add_assoc, Nat.add_assoc,
          Nat.add_assoc]
    · rw [hline] at h
      by_cases hseen : key' ∈ seen
      · simp only [if_pos hseen] at h
        nomatch h
      · simp only [if_neg hseen] at h
        obtain ⟨more, hmore, rfl⟩ : ∃ more,
            entriesFrom (key' :: seen) (offset + line.length) lines = .ok more ∧
              ⟨key', value, offset, offset + line.length, line⟩ :: more = found := by
          rcases hentries : entriesFrom (key' :: seen) (offset + line.length) lines
            with error | more
          · rw [hentries] at h
            nomatch h
          · rw [hentries] at h
            exact ⟨more, rfl, Except.ok.inj h⟩
        by_cases hkey : key' = key
        · subst hkey
          refine Or.inr ⟨[], line, lines, value, rfl, hline, ?_⟩
          rw [List.find?_cons_of_pos (by simp)]
          rfl
        · rw [List.find?_cons_of_neg (by simpa using hkey), List.filterMap_cons,
            keyOf_of_assignment hline]
          rcases ih hmore with ⟨hnone, hnot⟩ | ⟨before, l, after, value, rfl, hl, hfind⟩
          · refine Or.inl ⟨hnone, fun hmem ↦ ?_⟩
            rcases List.mem_cons.mp hmem with heq | hmem
            · exact hkey heq.symm
            · exact hnot hmem
          · refine Or.inr ⟨line :: before, l, after, value, rfl, hl, ?_⟩
            rw [hfind, List.flatten_cons, List.length_append, Nat.add_assoc, Nat.add_assoc,
              Nat.add_assoc]

/-! ## What lines say depends on their contents -/

/-- The lines without their line ends. -/
def contents (lines : List (List Char)) : List (List Char) :=
  lines.map (trimEndMatches isNewline)

/-- The lines that are not assignments of an owned key. -/
def userLines (owned : List (List Char)) (lines : List (List Char)) : List (List Char) :=
  contents (lines.filter fun line ↦ !(keyOf line).any owned.contains)

/-- What the lines say is said of their contents, so a line end may be added or taken away. -/
theorem says_congr {lines lines' : List (List Char)} (h : contents lines = contents lines') :
    (Reads lines ↔ Reads lines') ∧ (∀ key, valueIn lines key = valueIn lines' key) ∧
      ∀ owned, userLines owned lines = userLines owned lines' := by
  have hkeys : ∀ l : List (List Char), l.filterMap keyOf = (contents l).filterMap fun content ↦
      match parseAssignment content with
      | .ok (some (key, _)) => some key
      | _ => none := by
    intro l
    rw [contents, List.filterMap_map]
    rfl
  have hreads : ∀ l : List (List Char), Reads l ↔
      (∀ content ∈ contents l, ∃ found, parseAssignment content = .ok found) ∧
        (l.filterMap keyOf).Nodup := by
    intro l
    rw [Reads, contents, List.forall_mem_map]
    exact Iff.rfl
  have hvalue : ∀ (l : List (List Char)) (key : List Char), valueIn l key =
      (contents l).findSome? fun content ↦
        match parseAssignment content with
        | .ok (some (found, value)) => if found = key then some value else none
        | _ => none := by
    intro l key
    rw [contents, List.findSome?_map]
    rfl
  have huser : ∀ (owned l : List (List Char)), userLines owned l =
      (contents l).filter fun content ↦
        !(match parseAssignment content with
          | .ok (some (key, _)) => some key
          | _ => none : Option (List Char)).any owned.contains := by
    intro owned l
    rw [userLines, contents, contents, List.filter_map]
    rfl
  refine ⟨?_, fun key ↦ ?_, fun owned ↦ ?_⟩
  · rw [hreads, hreads, hkeys, hkeys, h]
  · rw [hvalue, hvalue, h]
  · rw [huser, huser, h]

/-! ## Putting one line -/

theorem valueIn_append (before after : List (List Char)) (key : List Char) :
    valueIn (before ++ after) key = (valueIn before key).or (valueIn after key) := by
  rw [valueIn, List.findSome?_append]
  rfl

theorem valueIn_eq_none_iff {lines : List (List Char)} {key : List Char} :
    valueIn lines key = none ↔ key ∉ lines.filterMap keyOf := by
  rw [valueIn, List.findSome?_eq_none_iff, List.mem_filterMap]
  constructor
  · rintro hnone ⟨line, hline, hkey⟩
    obtain ⟨value, hvalue⟩ := keyOf_eq_some.mp hkey
    have hat := hnone line hline
    rw [hvalue] at hat
    simp at hat
  · intro hnot line hline
    rcases hvalue : assignment line with error | - | ⟨found, value⟩
    · rfl
    · rfl
    · refine if_neg fun hfound ↦ hnot ⟨line, hline, ?_⟩
      rw [keyOf_of_assignment hvalue, hfound]

theorem valueIn_singleton {line key value : List Char}
    (h : assignment line = .ok (some (key, value))) : valueIn [line] key = some value := by
  simp [valueIn, h]

theorem valueIn_singleton_other {line key other : List Char} (h : keyOf line = some key)
    (hne : other ≠ key) : valueIn [line] other = none := by
  rw [valueIn_eq_none_iff]
  simpa [h] using hne

/-- A key is found in the one line that assigns it. -/
theorem valueIn_middle {before after : List (List Char)} {line key value : List Char}
    (hbefore : key ∉ before.filterMap keyOf) (hline : assignment line = .ok (some (key, value))) :
    valueIn (before ++ line :: after) key = some value := by
  rw [valueIn_append, valueIn_eq_none_iff.mpr hbefore, ← List.singleton_append, valueIn_append,
    valueIn_singleton hline]
  rfl

theorem valueIn_middle_other {before after : List (List Char)} {line key other : List Char}
    (hline : keyOf line = some key) (hne : other ≠ key) :
    valueIn (before ++ line :: after) other = valueIn (before ++ after) other := by
  rw [valueIn_append, ← List.singleton_append, valueIn_append,
    valueIn_singleton_other hline hne, valueIn_append]
  rfl

/-- The keys of lines around one that assigns `key` are different from it and from each other. -/
theorem reads_middle_iff {before after : List (List Char)} {line key : List Char}
    (hline : keyOf line = some key) :
    Reads (before ++ line :: after) ↔ Reads (before ++ after) ∧
      key ∉ before.filterMap keyOf ∧ key ∉ after.filterMap keyOf := by
  obtain ⟨value, hvalue⟩ := keyOf_eq_some.mp hline
  have hread : (∀ l ∈ before ++ line :: after, ∃ found, assignment l = .ok found) ↔
      ∀ l ∈ before ++ after, ∃ found, assignment l = .ok found := by
    rw [List.forall_mem_append, List.forall_mem_cons, List.forall_mem_append]
    exact and_congr_right fun _ ↦ and_iff_right ⟨_, hvalue⟩
  rw [Reads, Reads, hread, List.filterMap_append, List.filterMap_append,
    List.filterMap_cons_some hline, List.nodup_middle, List.nodup_cons, List.mem_append, not_or]
  tauto

theorem userLines_middle {owned before after : List (List Char)} {line key : List Char}
    (hline : keyOf line = some key) (howned : key ∈ owned) :
    userLines owned (before ++ line :: after) = userLines owned (before ++ after) := by
  have hdrop : (!(keyOf line).any owned.contains) = false := by
    simpa [hline] using howned
  simp only [userLines, contents, List.filter_append, List.filter_cons, hdrop, List.map_append]
  rfl

/-- `lines'` is `lines` with the line of one key put anew or taken away. -/
structure Puts (lines lines' : List (List Char)) (key : List Char) (value : Option (List Char)) :
    Prop where
  isLines : IsLines '\n' lines'
  reads : Reads lines'
  value : valueIn lines' key = value
  others : ∀ other, other ≠ key → valueIn lines' other = valueIn lines other
  user : ∀ owned, key ∈ owned → userLines owned lines' = userLines owned lines

theorem puts_replace {before after : List (List Char)} {line line' key value : List Char}
    (hreads : Reads (before ++ line :: after)) (hline : keyOf line = some key)
    (hline' : assignment line' = .ok (some (key, value)))
    (hshape : IsLines '\n' (before ++ line' :: after)) :
    Puts (before ++ line :: after) (before ++ line' :: after) key (some value) := by
  have hkey' := keyOf_of_assignment hline'
  obtain ⟨hrest, hbefore, hafter⟩ := (reads_middle_iff hline).mp hreads
  exact {
    isLines := hshape
    reads := (reads_middle_iff hkey').mpr ⟨hrest, hbefore, hafter⟩
    value := valueIn_middle hbefore hline'
    others := fun other hne ↦ by
      rw [valueIn_middle_other hkey' hne, valueIn_middle_other hline hne]
    user := fun owned howned ↦ by
      rw [userLines_middle hkey' howned, userLines_middle hline howned] }

theorem puts_remove {before after : List (List Char)} {line key : List Char}
    (hreads : Reads (before ++ line :: after)) (hline : keyOf line = some key)
    (hshape : IsLines '\n' (before ++ line :: after)) :
    Puts (before ++ line :: after) (before ++ after) key none := by
  obtain ⟨hrest, hbefore, hafter⟩ := (reads_middle_iff hline).mp hreads
  exact {
    isLines := hshape.remove
    reads := hrest
    value := by
      rw [valueIn_append, valueIn_eq_none_iff.mpr hbefore, valueIn_eq_none_iff.mpr hafter]
      rfl
    others := fun other hne ↦ (valueIn_middle_other hline hne).symm
    user := fun owned howned ↦ (userLines_middle hline howned).symm }

theorem puts_append {lines lines' : List (List Char)} {line key value : List Char}
    (hcontents : contents lines' = contents lines) (hreads : Reads lines)
    (habsent : key ∉ lines.filterMap keyOf)
    (hline : assignment line = .ok (some (key, value))) (hshape : IsLines '\n' (lines' ++ [line])) :
    Puts lines (lines' ++ [line]) key (some value) := by
  have hkey := keyOf_of_assignment hline
  obtain ⟨hreads', hvalue', huser'⟩ := says_congr hcontents
  have habsent' : key ∉ lines'.filterMap keyOf := by
    rw [← valueIn_eq_none_iff, hvalue', valueIn_eq_none_iff]
    exact habsent
  exact {
    isLines := hshape
    reads := (reads_middle_iff hkey).mpr
      ⟨by rw [List.append_nil]; exact hreads'.mpr hreads, habsent', List.not_mem_nil⟩
    value := valueIn_middle habsent' hline
    others := fun other hne ↦ by
      rw [valueIn_middle_other hkey hne, List.append_nil, hvalue']
    user := fun owned howned ↦ by
      rw [userLines_middle hkey howned, List.append_nil, huser'] }

/-! ## The splice -/

theorem replaceRange_middle (before line after replacement : List Char) :
    replaceRange (before ++ (line ++ after)) before.length (before.length + line.length)
      replacement = before ++ replacement ++ after := by
  rw [replaceRange, List.take_left' rfl, ← List.drop_drop, List.drop_left' rfl, List.drop_left' rfl]

/-- Nothing follows the line of the key. -/
def NothingAfter (lines : List (List Char)) (key : List Char) : Prop :=
  ∀ before line after, lines = before ++ line :: after → keyOf line = some key → after = []

/-- What `replaceRaw` does to a text that has the key, before it is cut into lines again. -/
theorem replaceRaw_middle {before after : List (List Char)} {line key : List Char}
    {raw : Option (List Char)} (hshape : IsLines '\n' (before ++ line :: after))
    (hreads : Reads (before ++ line :: after)) (hline : keyOf line = some key) :
    replaceRaw (before ++ line :: after).flatten key raw =
      .ok (before.flatten ++ raw.getD [] ++ after.flatten) := by
  have hsplit := splitInclusive_of_isLines hshape
  obtain ⟨found, hfound⟩ := exists_entries_iff.mpr (by rw [hsplit]; exact hreads)
  rw [replaceRaw, hfound]
  have hfrom : entriesFrom [] 0 (before ++ line :: after) = .ok found := by
    rw [← hsplit]
    exact hfound
  rcases find_entriesFrom hfrom key with ⟨-, habsent⟩ | ⟨before', line', after', value, heq, hline',
    hfind⟩
  · exact absurd (by simp [hline]) habsent
  · -- the line that assigns the key is the same one, as no other does
    have hsame : before' = before ∧ line' = line ∧ after' = after := by
      obtain ⟨-, hb, ha⟩ := (reads_middle_iff hline).mp hreads
      rw [heq] at hreads
      obtain ⟨-, hb', ha'⟩ := (reads_middle_iff (keyOf_of_assignment hline')).mp hreads
      rcases List.append_eq_append_iff.mp heq with ⟨mid, hmid, hrest⟩ | ⟨mid, hmid, hrest⟩
      · rcases mid with - | ⟨first, mid⟩
        · rw [List.append_nil] at hmid
          obtain ⟨rfl, rfl⟩ := List.cons.inj hrest
          exact ⟨hmid, rfl, rfl⟩
        · obtain ⟨rfl, -⟩ := List.cons.inj hrest
          exact absurd (by simp [hmid, hline]) hb'
      · rcases mid with - | ⟨first, mid⟩
        · rw [List.append_nil] at hmid
          obtain ⟨rfl, rfl⟩ := List.cons.inj hrest
          exact ⟨hmid.symm, rfl, rfl⟩
        · obtain ⟨rfl, -⟩ := List.cons.inj hrest
          exact absurd (by simp [hmid, keyOf_of_assignment hline']) hb
    obtain ⟨rfl, rfl, rfl⟩ := hsame
    simp only [hfind, Nat.zero_add, List.flatten_append, List.flatten_cons]
    rcases raw with - | replacement
    · simp only [replaceRange_middle]
      rfl
    · simp only [replaceRange_middle]
      rfl

/-- Without the key, a line is put at the end, after a line end if one is lacking. -/
theorem replaceRaw_absent {lines : List (List Char)} {key : List Char} (replacement : List Char)
    (hshape : IsLines '\n' lines) (hreads : Reads lines) (habsent : key ∉ lines.filterMap keyOf) :
    replaceRaw lines.flatten key none = .ok lines.flatten ∧
      ∃ lines', contents lines' = contents lines ∧ (∀ line ∈ lines', Terminated '\n' line) ∧
        replaceRaw lines.flatten key (some replacement) = .ok (lines'.flatten ++ replacement) := by
  have hsplit := splitInclusive_of_isLines hshape
  obtain ⟨found, hfound⟩ := exists_entries_iff.mpr (by rw [hsplit]; exact hreads)
  have hfrom : entriesFrom [] 0 lines = .ok found := by
    rw [← hsplit]
    exact hfound
  have hnone : found.find? (·.key = key) = none := by
    rcases find_entriesFrom hfrom key with ⟨hnone, -⟩ | ⟨before, line, after, value, heq, hline, -⟩
    · exact hnone
    · exact absurd (by simp [heq, keyOf_of_assignment hline]) habsent
  simp only [replaceRaw, hfound, hnone, true_and]
  rcases hshape.cases_last with hall | ⟨before, line, rfl, hbefore, hopen⟩
  · refine ⟨lines, rfl, hall, ?_⟩
    by_cases hnil : lines = []
    · subst hnil
      rfl
    · rw [getLast?_flatten_of_terminated hall hnil]
      simp
  · refine ⟨before ++ [line ++ ['\n']], ?_, ?_, ?_⟩
    · have htrim : trimEndMatches isNewline (line ++ ['\n']) = trimEndMatches isNewline line :=
        List.rdropWhile_concat_pos _ _ _ rfl
      simp only [contents, List.map_append, List.map_cons, List.map_nil, htrim]
    · intro l hl
      rcases List.mem_append.mp hl with hl | hl
      · exact hbefore l hl
      · rw [List.mem_singleton.mp hl]
        exact hopen.terminate
    · have hlast : (before ++ [line]).flatten.getLast? ≠ some '\n' := by
        rw [List.flatten_append, List.flatten_cons, List.flatten_nil, List.append_nil]
        exact getLast?_append_of_open hopen
      have hne : (before ++ [line]).flatten ≠ [] := by
        rw [List.flatten_append, List.flatten_cons]
        exact List.append_ne_nil_of_right_ne_nil _
          (List.append_ne_nil_of_left_ne_nil hopen.1 _)
      have hcut : (!(before ++ [line]).flatten.isEmpty &&
          (before ++ [line]).flatten.getLast? != some '\n') = true := by
        rw [List.isEmpty_eq_false_iff.mpr hne, Bool.not_false, Bool.true_and, bne_iff_ne]
        exact hlast
      rw [if_pos hcut]
      simp

/-- A line that is terminated, or that nothing can follow, is put in its place. -/
theorem replaceRaw_puts {lines : List (List Char)} {key : List Char} {raw : Option (List Char)}
    (hshape : IsLines '\n' lines) (hreads : Reads lines)
    (hraw : ∀ line ∈ raw, keyOf line = some key ∧
      (Terminated '\n' line ∨ Open '\n' line ∧ NothingAfter lines key)) :
    ∃ lines', replaceRaw lines.flatten key raw = .ok lines'.flatten ∧
      Puts lines lines' key (raw.bind (valueIn [·] key)) := by
  by_cases hkey : key ∈ lines.filterMap keyOf
  · obtain ⟨line, hmem, hline⟩ := List.mem_filterMap.mp hkey
    obtain ⟨before, after, rfl⟩ := List.append_of_mem hmem
    rw [replaceRaw_middle hshape hreads hline]
    rcases raw with - | line'
    · exact ⟨before ++ after, by simp, puts_remove hreads hline hshape⟩
    · obtain ⟨hline', hkind⟩ := hraw line' rfl
      obtain ⟨value, hvalue⟩ := keyOf_eq_some.mp hline'
      refine ⟨before ++ line' :: after, by simp, ?_⟩
      have hshape' : IsLines '\n' (before ++ line' :: after) := by
        rcases hkind with hterm | ⟨hopen, hlast⟩
        · exact hshape.replace hterm
        · obtain rfl := hlast before line after rfl hline
          exact hshape.replace_last hopen
      have hput := puts_replace hreads hline hvalue hshape'
      rw [← valueIn_singleton hvalue] at hput
      exact hput
  · rcases raw with - | line'
    · obtain ⟨hnone, -⟩ := replaceRaw_absent [] hshape hreads hkey
      refine ⟨lines, hnone, hshape, hreads, valueIn_eq_none_iff.mpr hkey, fun _ _ ↦ rfl,
        fun _ _ ↦ rfl⟩
    · obtain ⟨hline', hkind⟩ := hraw line' rfl
      obtain ⟨value, hvalue⟩ := keyOf_eq_some.mp hline'
      obtain ⟨-, lines', hcontents, hterm, hput⟩ :=
        replaceRaw_absent line' hshape hreads hkey
      refine ⟨lines' ++ [line'], by simpa using hput, ?_⟩
      have hshape' : IsLines '\n' (lines' ++ [line']) := by
        apply IsLines.append_of hterm
        rcases hkind with hterm' | ⟨hopen, -⟩
        · exact Or.inl ⟨hterm', trivial⟩
        · exact Or.inr ⟨hopen, rfl⟩
      have hput' := puts_append hcontents hreads hkey hvalue hshape'
      rw [← valueIn_singleton hvalue] at hput'
      exact hput'

end Dotenv

end TokenStation
