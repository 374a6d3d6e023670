import TokenStation.AgentIntegration.DotenvProjection

/-!
# When a dotenv file is given back

The one line that can do harm is the baseline's last, when it assigns an owned key and has no line
end. `FinalLineFits` looks at the line that follows that key by the time its turn comes.
-/

namespace TokenStation

namespace Dotenv

open Library

/-! ## What a disconnect owes -/

/-- The value that a document gives a key. -/
def valueOf (document : LosslessDotenvDocument) (key : List Char) : Option (List Char) :=
  match entries document.rendered with
  | .ok found => (found.find? (·.key = key)).map (·.value)
  | .error _ => none

theorem valueOf_eq {document : LosslessDotenvDocument}
    (hreads : ∃ found, entries document.rendered = .ok found) (key : List Char) :
    valueOf document key = valueIn (lines document) key := by
  obtain ⟨found, hfound⟩ := hreads
  have hlines : Reads (lines document) := exists_entries_iff.mp ⟨found, hfound⟩
  rw [valueOf, hfound]
  rcases find_entriesFrom hfound key with ⟨hnone, habsent⟩ | ⟨before, line, after, value, heq,
    hline, hfind⟩
  · simp only [hnone]
    exact (valueIn_eq_none_iff.mpr habsent).symm
  · have hsame : lines document = before ++ line :: after := heq
    rw [hsame] at hlines ⊢
    obtain ⟨-, hbefore, -⟩ := (reads_middle_iff (keyOf_of_assignment hline)).mp hlines
    simp only [hfind, valueIn_middle hbefore hline]
    rfl

/-- The owned keys are as in the baseline, and all else is as in `current`. -/
structure Restored (keys : List (List Char)) (baseline current restored : LosslessDotenvDocument) :
    Prop where
  reads : ∃ found, entries restored.rendered = .ok found
  owned : ∀ key ∈ keys, valueOf restored key = valueOf baseline key
  others : ∀ key, key ∉ keys → valueOf restored key = valueOf current key
  user : userLines keys (lines restored) = userLines keys (lines current)

/-- The lines after the one that assigns a key. -/
def linesAfter (lines : List (List Char)) (key : List Char) : List (List Char) :=
  (lines.dropWhile fun line ↦ keyOf line ≠ some key).tail

/-- The first line after that of a key, once the keys of `pre` that the baseline lacks are gone. -/
def follower (baseline current : List (List Char)) (pre : List (List Char)) (key : List Char) :
    Option (List Char) :=
  ((linesAfter current key).filter fun line ↦ !(keyOf line).any fun other ↦
    pre.contains other && (rawIn baseline other).isNone).head?

/-- When the baseline ends in the open line of an owned key, the line that follows that key, if
any, assigns an owned key that is put back later, and the two glued together read like the one. -/
def FinalLineFits (owned baseline current : List (List Char)) : Prop :=
  ∀ pre key post before final value, owned = pre ++ key :: post → baseline = before ++ [final] →
    Open '\n' final → assignment final = .ok (some (key, value)) →
    ∀ next ∈ follower baseline current pre key,
      (∃ other ∈ post, keyOf next = some other) ∧
        assignment (final ++ next) = .ok (some (key, value))

/-! ## The turn of the last line -/

theorem putBack_append {baseline : List (List Char)} {pre post : List (List Char)}
    {rendered middle : List Char} (h : putBack baseline rendered pre = .ok middle) :
    putBack baseline rendered (pre ++ post) = putBack baseline middle post := by
  induction pre generalizing rendered with
  | nil =>
    obtain rfl := Except.ok.inj h
    rfl
  | cons key pre ih =>
    rw [putBack] at h
    rw [List.cons_append, putBack]
    split at h
    next => cases h
    next rendered' hput =>
      exact ih h

theorem linesAfter_middle {before after : List (List Char)} {line key : List Char}
    (hbefore : key ∉ before.filterMap keyOf) (hline : keyOf line = some key) :
    linesAfter (before ++ line :: after) key = after := by
  have hskip : ∀ l ∈ before, decide (keyOf l ≠ some key) = true := by
    intro l hl
    exact decide_eq_true fun hkey ↦ hbefore (List.mem_filterMap.mpr ⟨l, hl, hkey⟩)
  rw [linesAfter, List.dropWhile_append_of_pos hskip,
    List.dropWhile_cons_of_neg (by simpa using hline)]
  rfl

/-- Only the last line of the baseline can be open. -/
theorem rawIn_terminated {before : List (List Char)} {final key other line : List Char}
    (hshape : IsLines '\n' (before ++ [final]))
    (hfinal : keyOf final = some key) (hne : other ≠ key)
    (hline : rawIn (before ++ [final]) other = some line) : Terminated '\n' line := by
  have hkey := keyOf_of_rawIn hline
  have hmem : line ∈ before ++ [final] := List.mem_of_find?_eq_some hline
  rcases List.mem_append.mp hmem with hmem | hmem
  · exact hshape.before_line line hmem
  · rw [List.mem_singleton.mp hmem, hfinal] at hkey
    exact absurd (Option.some.inj hkey).symm hne

/-- `Restored`, read off the lines. -/
structure GivenBack (keys : List (List Char)) (baseline current restored : List (List Char)) :
    Prop where
  reads : Reads restored
  owned : ∀ key ∈ keys, valueIn restored key = valueIn baseline key
  others : ∀ key, key ∉ keys → valueIn restored key = valueIn current key
  user : userLines keys restored = userLines keys current

/-- Keys that are put back after some others, from a text in which those are back already. -/
theorem givenBack_of_safe {baseline current middle pre post : List (List Char)}
    (hbaseline : Reads baseline) (hshape : IsLines '\n' middle) (hreads : Reads middle)
    (hraw : ∀ key ∈ post, ∀ line ∈ rawIn baseline key, Terminated '\n' line)
    (hpre : ∀ key ∈ pre, key ∉ post → valueIn middle key = valueIn baseline key)
    (hothers : ∀ key, key ∉ pre ++ post → valueIn middle key = valueIn current key)
    (huser : userLines (pre ++ post) middle = userLines (pre ++ post) current) :
    ∃ restored, putBack baseline middle.flatten post = .ok restored ∧
      GivenBack (pre ++ post) baseline current (splitInclusive '\n' restored) := by
  obtain ⟨restored, hput, hshape', hreads', hpost, hrest, huser'⟩ :=
    putBack_safe hbaseline hshape hreads hraw
  refine ⟨restored.flatten, hput, ?_⟩
  rw [splitInclusive_of_isLines hshape']
  refine ⟨hreads', ?_, ?_, ?_⟩
  · intro key hkey
    by_cases hin : key ∈ post
    · exact hpost key hin
    · rw [hrest key hin]
      exact hpre key ((List.mem_append.mp hkey).resolve_right hin) hin
  · intro key hkey
    rw [hrest key fun hin ↦ hkey (List.mem_append_right _ hin)]
    exact hothers key hkey
  · rw [huser' (pre ++ post) fun key hkey ↦ List.mem_append_right _ hkey]
    exact huser

/-- Two lines that become the line of one of them: the other's key is gone. -/
theorem puts_glued {before rest : List (List Char)} {line next final key other value : List Char}
    (hshape : IsLines '\n' (before ++ line :: next :: rest))
    (hreads : Reads (before ++ line :: next :: rest)) (hline : keyOf line = some key)
    (hnext : keyOf next = some other) (hopen : Open '\n' final)
    (hglued : assignment (final ++ next) = .ok (some (key, value))) :
    ∃ middle, Puts (before ++ line :: next :: rest) middle other none ∧
      Puts middle (before ++ (final ++ next) :: rest) key (some value) := by
  have hregroup : before ++ line :: next :: rest = (before ++ [line]) ++ next :: rest := by simp
  have hregroup' : (before ++ [line]) ++ rest = before ++ line :: rest := by simp
  have hremove : Puts (before ++ line :: next :: rest) (before ++ line :: rest) other none := by
    rw [← hregroup', hregroup]
    rw [hregroup] at hshape hreads
    exact puts_remove hreads hnext hshape
  exact ⟨before ++ line :: rest, hremove,
    puts_replace hremove.reads hline hglued (hshape.replace_glued hopen)⟩

theorem assignment_of_valueIn {line key value : List Char} (h : valueIn [line] key = some value) :
    assignment line = .ok (some (key, value)) := by
  rcases hline : assignment line with error | - | ⟨found, value'⟩
  · simp [valueIn, hline] at h
  · simp [valueIn, hline] at h
  · by_cases hfound : found = key
    · subst hfound
      rw [valueIn_singleton hline] at h
      rw [Option.some.inj h]
    · rw [valueIn_singleton_other (keyOf_of_assignment hline) (Ne.symm hfound)] at h
      cases h

theorem length_userLines_middle {keys before rest : List (List Char)} {next : List Char}
    (hnext : ∀ key ∈ keys, keyOf next ≠ some key) :
    (userLines keys (before ++ next :: rest)).length =
      (userLines keys (before ++ rest)).length + 1 := by
  have hkeep : (!(keyOf next).any keys.contains) = true := by
    rcases hkey : keyOf next with - | key
    · rfl
    · simpa using fun hin ↦ hnext key hin hkey
  simp only [userLines, contents, List.filter_append, List.filter_cons, hkeep, List.length_map,
    List.length_append, if_true, List.length_cons]
  omega

/-- What the open line of `key` does to the line that follows it. -/
theorem turn_iff {baseline current before rest pre post : List (List Char)}
    {line next final key value : List Char} (hbaseline : Reads baseline)
    (hshape : IsLines '\n' (before ++ line :: next :: rest))
    (hreads : Reads (before ++ line :: next :: rest)) (hline : keyOf line = some key)
    (hopen : Open '\n' final) (hvalue : valueIn baseline key = some value)
    (hnodup : (pre ++ key :: post).Nodup)
    (hraw : ∀ k ∈ post, ∀ l ∈ rawIn baseline k, Terminated '\n' l)
    (hpre : ∀ k ∈ pre, valueIn (before ++ line :: next :: rest) k = valueIn baseline k)
    (hothers : ∀ k, k ∉ pre ++ key :: post →
      valueIn (before ++ line :: next :: rest) k = valueIn current k)
    (huser : userLines (pre ++ key :: post) (before ++ line :: next :: rest) =
      userLines (pre ++ key :: post) current) :
    (∃ restored, putBack baseline (before ++ (final ++ next) :: rest).flatten post = .ok restored ∧
        GivenBack (pre ++ key :: post) baseline current (splitInclusive '\n' restored)) ↔
      (∃ other ∈ post, keyOf next = some other) ∧
        assignment (final ++ next) = .ok (some (key, value)) := by
  obtain ⟨hkeyPost, hprePost⟩ : key ∉ post ∧ ∀ k ∈ pre, k ≠ key ∧ k ∉ post := by
    obtain ⟨-, htail, hdisjoint⟩ := List.nodup_append.mp hnodup
    refine ⟨(List.nodup_cons.mp htail).1, fun k hk ↦ ⟨?_, fun hin ↦ ?_⟩⟩
    · exact hdisjoint k hk key List.mem_cons_self
    · exact hdisjoint k hk k (List.mem_cons_of_mem _ hin) rfl
  have hshape' : IsLines '\n' (before ++ (final ++ next) :: rest) := hshape.replace_glued hopen
  obtain ⟨-, hkeyBefore, hkeyAfter⟩ := (reads_middle_iff hline).mp hreads
  constructor
  · rintro ⟨restored, hput, hback⟩
    -- the glued text could be read, since it was read for the next key or is the result
    have hreads' : Reads (before ++ (final ++ next) :: rest) := by
      have hcut := reads_of_putBack hput hback.reads
      rwa [splitInclusive_of_isLines hshape'] at hcut
    obtain ⟨restored', hput', hshape'', -, -, hrest, huser'⟩ :=
      putBack_safe hbaseline hshape' hreads' hraw
    obtain rfl : restored = restored'.flatten := Except.ok.inj (hput.symm.trans hput')
    rw [splitInclusive_of_isLines hshape''] at hback
    have hglued : assignment (final ++ next) = .ok (some (key, value)) := by
      have hget := hback.owned key (by simp)
      rw [hrest key hkeyPost, hvalue, valueIn_append, valueIn_eq_none_iff.mpr hkeyBefore,
        Option.none_or, ← List.singleton_append, valueIn_append] at hget
      have hkeyRest : key ∉ rest.filterMap keyOf := fun hmem ↦ hkeyAfter (by
        obtain ⟨l, hl, hlkey⟩ := List.mem_filterMap.mp hmem
        exact List.mem_filterMap.mpr ⟨l, List.mem_cons_of_mem _ hl, hlkey⟩)
      rw [valueIn_eq_none_iff.mpr hkeyRest, Option.or_none] at hget
      exact assignment_of_valueIn hget
    refine ⟨?_, hglued⟩
    by_contra hnot
    push Not at hnot
    have hkey' := keyOf_of_assignment hglued
    by_cases hpreNext : ∃ other ∈ pre, keyOf next = some other
    · -- a key that was put back before is swallowed
      obtain ⟨other, hin, hnext⟩ := hpreNext
      obtain ⟨hne, hnotPost⟩ := hprePost other hin
      have hget := hback.owned other (List.mem_append_left _ hin)
      rw [hrest other hnotPost, valueIn_middle_other hkey' hne, ← hpre other hin,
        valueIn_middle_other hline hne] at hget
      obtain ⟨v, hv⟩ := keyOf_eq_some.mp hnext
      have hreads'' : Reads (before ++ next :: rest) := ((reads_middle_iff hline).mp hreads).1
      obtain ⟨-, hb, ha⟩ := (reads_middle_iff hnext).mp hreads''
      rw [valueIn_middle hb hv, valueIn_append, valueIn_eq_none_iff.mpr hb,
        valueIn_eq_none_iff.mpr ha] at hget
      nomatch hget
    · -- a line of the operator is swallowed
      push Not at hpreNext
      have hforeign : ∀ k ∈ pre ++ key :: post, keyOf next ≠ some k := by
        intro k hk hnext
        rcases List.mem_append.mp hk with hk | hk
        · exact hpreNext k hk hnext
        · rcases List.mem_cons.mp hk with rfl | hk
          · exact hkeyAfter (List.mem_filterMap.mpr ⟨next, List.mem_cons_self, hnext⟩)
          · exact hnot k hk hnext
      have hlength := congrArg List.length hback.user
      have hpost : ∀ k ∈ post, k ∈ pre ++ key :: post := fun k hk ↦
        List.mem_append_right _ (List.mem_cons_of_mem _ hk)
      rw [huser' (pre ++ key :: post) hpost, ← huser, userLines_middle hkey' (by simp),
        userLines_middle hline (by simp), length_userLines_middle hforeign] at hlength
      omega
  · rintro ⟨⟨other, hother, hnext⟩, hglued⟩
    obtain ⟨middle, hgone, hputs⟩ := puts_glued hshape hreads hline hnext hopen hglued
    have hne : other ≠ key := fun h ↦ hkeyPost (h ▸ hother)
    have hregroup : pre ++ key :: post = (pre ++ [key]) ++ post := by simp
    rw [hregroup]
    refine givenBack_of_safe hbaseline hshape' hputs.reads hraw ?_ ?_ ?_
    · intro k hk hkPost
      rcases List.mem_append.mp hk with hk | hk
      · obtain ⟨hkKey, -⟩ := hprePost k hk
        rw [hputs.others k hkKey, hgone.others k fun h ↦ hkPost (h ▸ hother), hpre k hk]
      · rw [List.mem_singleton.mp hk, hputs.value, hvalue]
    · intro k hk
      rw [← hregroup] at hk
      have hkKey : k ≠ key := fun h ↦ hk (by simp [h])
      have hkOther : k ≠ other := fun h ↦ hk (by simp [h, hother])
      rw [hputs.others k hkKey, hgone.others k hkOther, hothers k hk]
    · rw [← hregroup, hputs.user _ (by simp), hgone.user _ (by simp [hother]), huser]

theorem follower_of_middle {baseline before after pre : List (List Char)} {line key : List Char}
    (hbefore : key ∉ before.filterMap keyOf) (hline : keyOf line = some key) :
    (after.filterMap (putLine baseline pre)).head? =
      (follower baseline (before ++ line :: after) pre key).bind (putLine baseline pre) := by
  rw [head?_filterMap_putLine, follower, linesAfter_middle hbefore hline]

/-- The follower is left when `pre` is put back, with the key it assigns. -/
theorem exists_putLine_of_follower {baseline current pre : List (List Char)}
    {key next : List Char} (h : next ∈ follower baseline current pre key) :
    ∃ next', putLine baseline pre next = some next' ∧ keyOf next' = keyOf next ∧
      ((∀ other, keyOf next = some other → other ∉ pre) → next' = next) := by
  have hkept := List.mem_filter.mp (List.mem_of_head? h)
  rcases hkey : keyOf next with - | other
  · refine ⟨next, putLine_of_not_mem fun k hk ↦ ?_, hkey, fun _ ↦ rfl⟩
    rw [hkey] at hk
    nomatch hk
  · by_cases hin : other ∈ pre
    · rcases hraw : rawIn baseline other with - | raw
      · simp [hkey, hin, hraw] at hkept
      · exact ⟨raw, by rw [putLine_of_mem hkey hin, hraw], keyOf_of_rawIn hraw,
          fun hnot ↦ absurd hin (hnot other rfl)⟩
    · refine ⟨next, putLine_of_not_mem fun k hk ↦ ?_, hkey, fun _ ↦ rfl⟩
      rwa [← Option.some.inj (hkey.symm.trans hk)]

/-- `FinalLineFits` once the baseline and its last line are known. -/
theorem finalLineFits_iff {before current pre post : List (List Char)}
    {final key value : List Char} (hpre : key ∉ pre) (hpost : key ∉ post)
    (hopen : Open '\n' final) (hfinal : assignment final = .ok (some (key, value))) :
    FinalLineFits (pre ++ key :: post) (before ++ [final]) current ↔
      ∀ next ∈ follower (before ++ [final]) current pre key,
        (∃ other ∈ post, keyOf next = some other) ∧
          assignment (final ++ next) = .ok (some (key, value)) := by
  constructor
  · intro h
    exact h pre key post before final value rfl rfl hopen hfinal
  · intro h pre' key' post' before' final' value' howned hbase hopen' hfinal'
    obtain ⟨-, hlast⟩ := List.append_inj' hbase rfl
    obtain rfl := (List.cons.inj hlast).1
    obtain ⟨rfl, rfl⟩ := Prod.mk.inj (Option.some.inj (Except.ok.inj (hfinal.symm.trans hfinal')))
    obtain ⟨rfl, -, rfl⟩ := (List.append_cons_inj_of_notMem hpre hpost).mp howned
    exact h

/-- The open line of `key` where nothing follows it. -/
theorem turn_last {baseline current before pre post : List (List Char)}
    {line final key value : List Char} (hbaseline : Reads baseline)
    (hshape : IsLines '\n' (before ++ [line])) (hreads : Reads (before ++ [line]))
    (hline : keyOf line = some key) (hopen : Open '\n' final)
    (hfinal : assignment final = .ok (some (key, value)))
    (hvalue : valueIn baseline key = some value)
    (hraw : ∀ k ∈ post, ∀ l ∈ rawIn baseline k, Terminated '\n' l)
    (hpre : ∀ k ∈ pre, valueIn (before ++ [line]) k = valueIn baseline k)
    (hothers : ∀ k, k ∉ pre ++ key :: post → valueIn (before ++ [line]) k = valueIn current k)
    (huser : userLines (pre ++ key :: post) (before ++ [line]) =
      userLines (pre ++ key :: post) current) :
    ∃ restored, putBack baseline (before ++ [final]).flatten post = .ok restored ∧
      GivenBack (pre ++ key :: post) baseline current (splitInclusive '\n' restored) := by
  have hput := puts_replace hreads hline hfinal (hshape.replace_last hopen)
  have hregroup : pre ++ key :: post = (pre ++ [key]) ++ post := by simp
  rw [hregroup]
  refine givenBack_of_safe hbaseline hput.isLines hput.reads hraw ?_ ?_ ?_
  · intro k hk _
    by_cases hsame : k = key
    · rw [hsame, hput.value, hvalue]
    · rw [hput.others k hsame]
      exact hpre k ((List.mem_append.mp hk).resolve_right (by simpa using hsame))
  · intro k hk
    rw [← hregroup] at hk
    rw [hput.others k fun h ↦ hk (by simp [h])]
    exact hothers k hk
  · rw [← hregroup, hput.user _ (by simp), huser]

/-- Putting keys back when the baseline ends in the open line of `key`. -/
theorem putBack_iff_of_open {before current pre post : List (List Char)}
    {final key value : List Char} (hbaseShape : IsLines '\n' (before ++ [final]))
    (hbaseline : Reads (before ++ [final])) (hshape : IsLines '\n' current)
    (hreads : Reads current) (hnodup : (pre ++ key :: post).Nodup)
    (hpresent : ∀ k ∈ pre ++ key :: post, k ∈ current.filterMap keyOf)
    (hopen : Open '\n' final) (hfinal : assignment final = .ok (some (key, value))) :
    (∃ restored, putBack (before ++ [final]) current.flatten (pre ++ key :: post) = .ok restored ∧
        GivenBack (pre ++ key :: post) (before ++ [final]) current
          (splitInclusive '\n' restored)) ↔
      ∀ next ∈ follower (before ++ [final]) current pre key,
        (∃ other ∈ post, keyOf next = some other) ∧
          assignment (final ++ next) = .ok (some (key, value)) := by
  have hkey := keyOf_of_assignment hfinal
  obtain ⟨-, hbaseBefore, -⟩ := (reads_middle_iff hkey).mp hbaseline
  have hrawKey : rawIn (before ++ [final]) key = some final := rawIn_middle hbaseBefore hkey
  have hvalue : valueIn (before ++ [final]) key = some value := valueIn_middle hbaseBefore hfinal
  obtain ⟨hpreNodup, htail, hdisjoint⟩ := List.nodup_append.mp hnodup
  have hkeyPre : key ∉ pre := fun hin ↦ hdisjoint key hin key List.mem_cons_self rfl
  have hkeyPost : key ∉ post := (List.nodup_cons.mp htail).1
  have hrawOf : ∀ keys : List (List Char), key ∉ keys →
      ∀ k ∈ keys, ∀ l ∈ rawIn (before ++ [final]) k, Terminated '\n' l :=
    fun keys hnot k hk l hl ↦ rawIn_terminated hbaseShape hkey (fun h ↦ hnot (h ▸ hk)) hl
  -- the keys before this one are put back line by line
  obtain ⟨hput, hmidShape⟩ := putBack_eq hshape hreads (hrawOf pre hkeyPre)
    (fun k hk ↦ hpresent k (List.mem_append_left _ hk)) hpreNodup
  obtain ⟨middle, hput', hmidShape', hmidReads, hmidPre, hmidRest, hmidUser⟩ :=
    putBack_safe hbaseline hshape hreads (hrawOf pre hkeyPre)
  obtain rfl : middle = current.filterMap (putLine (before ++ [final]) pre) := by
    rw [← splitInclusive_of_isLines hmidShape, Except.ok.inj (hput.symm.trans hput'),
      splitInclusive_of_isLines hmidShape']
  obtain ⟨old, hold, holdKey⟩ := List.mem_filterMap.mp
    (hpresent key (List.mem_append_right _ List.mem_cons_self))
  obtain ⟨cb, ca, rfl⟩ := List.append_of_mem hold
  obtain ⟨-, hcb, -⟩ := (reads_middle_iff holdKey).mp hreads
  have holdPut : putLine (before ++ [final]) pre old = some old := putLine_of_not_mem fun k hk ↦ by
    rwa [← Option.some.inj (holdKey.symm.trans hk)]
  have hhead : (ca.filterMap (putLine (before ++ [final]) pre)).head? =
      (follower (before ++ [final]) (cb ++ old :: ca) pre key).bind
        (putLine (before ++ [final]) pre) := follower_of_middle hcb holdKey
  have hcut : (cb ++ old :: ca).filterMap (putLine (before ++ [final]) pre) =
      cb.filterMap (putLine (before ++ [final]) pre) ++
        old :: ca.filterMap (putLine (before ++ [final]) pre) := by
    rw [List.filterMap_append, List.filterMap_cons_some holdPut]
  rw [hcut] at hput hmidShape hmidReads
  simp only [hcut] at hmidPre hmidRest hmidUser
  have hothers := fun k (hk : k ∉ pre ++ key :: post) ↦
    hmidRest k fun hin ↦ hk (List.mem_append_left _ hin)
  have huser := hmidUser (pre ++ key :: post) fun k hk ↦ List.mem_append_left _ hk
  rw [putBack_append hput, putBack, hrawKey, replaceRaw_middle hmidShape hmidReads holdKey]
  rcases hafter : ca.filterMap (putLine (before ++ [final]) pre) with - | ⟨next, rest⟩
  · rw [hafter] at hhead hmidShape hmidReads hmidPre hothers huser
    have hnone : follower (before ++ [final]) (cb ++ old :: ca) pre key = none := by
      rcases hfollower : follower (before ++ [final]) (cb ++ old :: ca) pre key with - | next
      · rfl
      · obtain ⟨next', hnext', -⟩ := exists_putLine_of_follower hfollower
        rw [hfollower, Option.bind_some, hnext'] at hhead
        cases hhead
    refine iff_of_true ?_ fun next hnext ↦ ?_
    · have hback := turn_last hbaseline hmidShape hmidReads holdKey hopen hfinal hvalue
        (hrawOf post hkeyPost) hmidPre hothers huser
      simpa using hback
    · rw [hnone] at hnext
      cases hnext
  · rw [hafter] at hhead hmidShape hmidReads hmidPre hothers huser
    obtain ⟨next₀, hfollower, hnext⟩ : ∃ next₀,
        follower (before ++ [final]) (cb ++ old :: ca) pre key = some next₀ ∧
          putLine (before ++ [final]) pre next₀ = some next :=
      Option.bind_eq_some_iff.mp hhead.symm
    have hturn := turn_iff hbaseline hmidShape hmidReads holdKey hopen hvalue hnodup
      (hrawOf post hkeyPost) hmidPre hothers huser
    obtain ⟨next', hnext', hsameKey, hsame⟩ := exists_putLine_of_follower hfollower
    obtain rfl : next = next' := Option.some.inj (hnext.symm.trans hnext')
    -- a key that is put back later was not changed before
    have hunchanged : (∃ other ∈ post, keyOf next₀ = some other) → next = next₀ := by
      rintro ⟨other, hother, hkey⟩
      apply hsame
      intro other' hkey' hin
      rw [Option.some.inj (hkey'.symm.trans hkey)] at hin
      exact hdisjoint other hin other (List.mem_cons_of_mem _ hother) rfl
    have hflatten : (cb.filterMap (putLine (before ++ [final]) pre)).flatten ++
        (some final).getD [] ++ (next :: rest).flatten =
          (cb.filterMap (putLine (before ++ [final]) pre) ++ (final ++ next) :: rest).flatten := by
      simp
    simp only [hflatten]
    rw [hturn, hfollower, hsameKey]
    constructor
    · rintro ⟨hkey, hglued⟩ l hl
      obtain rfl : next₀ = l := Option.some.inj hl
      rw [hunchanged hkey] at hglued
      exact ⟨hkey, hglued⟩
    · intro h
      obtain ⟨hkey, hglued⟩ := h next₀ rfl
      rw [hunchanged hkey]
      exact ⟨hkey, hglued⟩

/-- Putting the owned keys back restores them and nothing else exactly when the last line of the
baseline fits. -/
theorem putBack_iff {keys baseline current : List (List Char)}
    (hbaseShape : IsLines '\n' baseline) (hbaseline : Reads baseline)
    (hshape : IsLines '\n' current) (hreads : Reads current) (hnodup : keys.Nodup)
    (hpresent : ∀ key ∈ keys, key ∈ current.filterMap keyOf) :
    (∃ restored, putBack baseline current.flatten keys = .ok restored ∧
        GivenBack keys baseline current (splitInclusive '\n' restored)) ↔
      FinalLineFits keys baseline current := by
  by_cases hsafe : ∀ key ∈ keys, ∀ line ∈ rawIn baseline key, Terminated '\n' line
  · refine iff_of_true ?_ ?_
    · have hback := givenBack_of_safe hbaseline hshape hreads hsafe
        (fun k (hk : k ∈ []) ↦ (nomatch hk)) (fun _ _ ↦ rfl) rfl
      exact hback
    · rintro pre key post before final value rfl rfl hopen hfinal
      have hkey := keyOf_of_assignment hfinal
      obtain ⟨-, hbefore, -⟩ := (reads_middle_iff hkey).mp hbaseline
      exact absurd hopen (hsafe key (by simp) final (rawIn_middle hbefore hkey)).not_open
  · push Not at hsafe
    obtain ⟨key, hkeyIn, line, hraw, hnotTerm⟩ := hsafe
    obtain ⟨before, final, rfl, hbefore, hopen⟩ := hbaseShape.cases_last.resolve_left
      fun hall ↦ hnotTerm (hall line (List.mem_of_find?_eq_some hraw))
    obtain rfl : line = final := by
      rcases List.mem_append.mp (List.mem_of_find?_eq_some hraw) with hin | hin
      · exact absurd (hbefore line hin) hnotTerm
      · exact List.mem_singleton.mp hin
    obtain ⟨value, hassign⟩ := keyOf_eq_some.mp (keyOf_of_rawIn hraw)
    obtain ⟨pre, post, rfl⟩ := List.append_of_mem hkeyIn
    obtain ⟨-, htail, hdisjoint⟩ := List.nodup_append.mp hnodup
    rw [finalLineFits_iff (fun hin ↦ hdisjoint key hin key List.mem_cons_self rfl)
      (List.nodup_cons.mp htail).1 hopen hassign]
    exact putBack_iff_of_open hbaseShape hbaseline hshape hreads hnodup hpresent hopen hassign

theorem restored_iff {keys : List (List Char)} {baseline current restored : LosslessDotenvDocument}
    (hbaseline : ∃ found, entries baseline.rendered = .ok found)
    (hcurrent : ∃ found, entries current.rendered = .ok found) :
    Restored keys baseline current restored ↔
      GivenBack keys (lines baseline) (lines current) (lines restored) := by
  constructor
  · rintro ⟨hreads, howned, hothers, huser⟩
    refine ⟨exists_entries_iff.mp hreads, fun key hkey ↦ ?_, fun key hkey ↦ ?_, huser⟩
    · rw [← valueOf_eq hreads, ← valueOf_eq hbaseline, howned key hkey]
    · rw [← valueOf_eq hreads, ← valueOf_eq hcurrent, hothers key hkey]
  · rintro ⟨hreads, howned, hothers, huser⟩
    have hreads' := exists_entries_iff.mpr hreads
    refine ⟨hreads', fun key hkey ↦ ?_, fun key hkey ↦ ?_, huser⟩
    · rw [valueOf_eq hreads', valueOf_eq hbaseline, howned key hkey]
    · rw [valueOf_eq hreads', valueOf_eq hcurrent, hothers key hkey]

/-- A disconnect gives a dotenv file back exactly when the baseline's last line fits. The owned
paths are the ones that a plan accepts, which repeats none. -/
theorem projectPaths_restores_iff {baseline connected current : LosslessDotenvDocument}
    {ownedPaths : List ConfigPath} {operations : List PatchOperation}
    (hbaseline : ∃ found, entries baseline.rendered = .ok found) (hnodup : ownedPaths.Nodup)
    (hwrites : ∀ operation ∈ operations, operation.operation = .add ∨
      operation.operation = .replace)
    (hcovers : ∀ path ∈ ownedPaths, ∃ operation ∈ operations, operation.path = path)
    (hconnect : applyPatch baseline operations = .ok connected)
    (hcurrent : ∃ found, entries current.rendered = .ok found)
    (hkept : ∀ key ∈ ownedKeys ownedPaths, valueOf current key = valueOf connected key) :
    (∃ restored, projectPaths current baseline ownedPaths = .ok restored ∧
        Restored (ownedKeys ownedPaths) baseline current restored) ↔
      FinalLineFits (ownedKeys ownedPaths) (lines baseline) (lines current) := by
  have hbaseReads : Reads (lines baseline) := exists_entries_iff.mp hbaseline
  have hreads : Reads (lines current) := exists_entries_iff.mp hcurrent
  obtain ⟨hconnReads, -, hwritten⟩ := applyPatch_writes hbaseReads hwrites hconnect
  have hvalid : ∀ path ∈ ownedPaths, ∃ key, pathKey path = .ok key := by
    intro path hpath
    obtain ⟨operation, hin, rfl⟩ := hcovers path hpath
    obtain ⟨key, hkey, -⟩ := hwritten operation hin
    exact ⟨key, hkey⟩
  have hmem : ∀ key, key ∈ ownedKeys ownedPaths ↔ ∃ path ∈ ownedPaths, pathKey path = .ok key := by
    intro key
    rw [ownedKeys, List.mem_filterMap]
    apply exists_congr
    intro path
    rcases pathKey path with error | key'
    · simp [Except.toOption]
    · simp [Except.toOption]
  have hpresent : ∀ key ∈ ownedKeys ownedPaths, key ∈ (lines current).filterMap keyOf := by
    intro key hkey
    obtain ⟨path, hpath, hpathKey⟩ := (hmem key).mp hkey
    obtain ⟨operation, hin, rfl⟩ := hcovers path hpath
    obtain ⟨key', hkey', hvalue⟩ := hwritten operation hin
    obtain rfl : key = key' := Except.ok.inj (hpathKey.symm.trans hkey')
    have hconnected := exists_entries_iff.mpr hconnReads
    rw [← valueOf_eq hconnected, ← hkept key hkey, valueOf_eq hcurrent] at hvalue
    by_contra habsent
    exact hvalue (valueIn_eq_none_iff.mpr habsent)
  have hkeysNodup : (ownedKeys ownedPaths).Nodup := by
    apply List.Nodup.filterMap _ hnodup
    intro path path' key hkey hkey'
    have hpath : ∀ p, key ∈ (pathKey p).toOption → p = ⟨[String.ofList key]⟩ := by
      intro p hp
      rcases hpk : pathKey p with error | k
      · rw [hpk] at hp
        cases hp
      · rw [hpk] at hp
        obtain rfl : k = key := Option.some.inj hp
        exact (isKey_of_pathKey hpk).2
    rw [hpath path hkey, hpath path' hkey']
  obtain ⟨found, hfound⟩ := hbaseline
  have hproject : ∀ restored, projectPaths current baseline ownedPaths = .ok restored ↔
      putBack (lines baseline) (lines current).flatten (ownedKeys ownedPaths) =
        .ok restored.rendered := by
    intro restored
    have hflatten : (lines current).flatten = current.rendered := splitInclusive_flatten _
    simp only [projectPaths, Bind.bind, Except.bind, hfound, projectFrom_eq hfound hvalid, hflatten]
    rcases putBack (lines baseline) current.rendered (ownedKeys ownedPaths) with error | rendered
    · simp
    · rcases restored with ⟨restored⟩
      simp
  have hiff := putBack_iff (isLines_splitInclusive _) hbaseReads (isLines_splitInclusive _) hreads
    hkeysNodup hpresent
  refine Iff.trans ?_ hiff
  constructor
  · rintro ⟨restored, hput, hback⟩
    exact ⟨restored.rendered, (hproject restored).mp hput,
      (restored_iff ⟨found, hfound⟩ hcurrent).mp hback⟩
  · rintro ⟨rendered, hput, hback⟩
    exact ⟨⟨rendered⟩, (hproject ⟨rendered⟩).mpr hput,
      (restored_iff ⟨found, hfound⟩ hcurrent).mpr hback⟩

/-! ## A baseline without a final line end -/

/-- The configuration before the connection. -/
def openBaseline : LosslessDotenvDocument := ⟨"KEY=old".toList⟩

def keyPath : ConfigPath := ⟨["KEY"]⟩

/-- The connection writes its value, and with it a line end. -/
def writeKey : PatchOperation := ⟨.replace, keyPath, some (.string "new")⟩

def connectedText : LosslessDotenvDocument := ⟨"KEY=\"new\"\n".toList⟩

/-- The operator adds a line. -/
def userEdit : LosslessDotenvDocument := ⟨"KEY=\"new\"\nUSER=1\n".toList⟩

theorem projectPaths_restores_iff_userEdit :
    (∃ restored, projectPaths userEdit openBaseline [keyPath] = .ok restored ∧
        Restored (ownedKeys [keyPath]) openBaseline userEdit restored) ↔
      FinalLineFits (ownedKeys [keyPath]) (lines openBaseline) (lines userEdit) := by
  have hconnect : applyPatch openBaseline [writeKey] = .ok connectedText := by decide +kernel
  have hkeys : ownedKeys [keyPath] = ["KEY".toList] := by decide +kernel
  refine projectPaths_restores_iff (exists_entries_iff.mpr ?_) (List.nodup_singleton _) ?_ ?_
    hconnect (exists_entries_iff.mpr ?_) ?_
  · refine ⟨?_, by decide +kernel⟩
    have hlines : splitInclusive '\n' openBaseline.rendered = ["KEY=old".toList] := by
      decide +kernel
    rw [hlines]
    intro line hline
    rw [List.mem_singleton.mp hline]
    exact ⟨some ("KEY".toList, "old".toList), by decide +kernel⟩
  · intro operation hin
    rw [List.mem_singleton.mp hin]
    exact Or.inr rfl
  · intro path hin
    rw [List.mem_singleton.mp hin]
    exact ⟨writeKey, List.mem_singleton_self _, rfl⟩
  · refine ⟨?_, by decide +kernel⟩
    have hlines : splitInclusive '\n' userEdit.rendered =
        ["KEY=\"new\"\n".toList, "USER=1\n".toList] := by decide +kernel
    rw [hlines, List.forall_mem_cons, List.forall_mem_singleton]
    exact ⟨⟨some ("KEY".toList, "new".toList), by decide +kernel⟩,
      some ("USER".toList, "1".toList), by decide +kernel⟩
  · rw [hkeys, List.forall_mem_singleton]
    decide +kernel

theorem not_restored_userEdit :
    applyPatch openBaseline [writeKey] = .ok connectedText ∧
      (∀ key ∈ ownedKeys [keyPath], valueOf userEdit key = valueOf connectedText key) ∧
      ¬ ∃ restored, projectPaths userEdit openBaseline [keyPath] = .ok restored ∧
        Restored (ownedKeys [keyPath]) openBaseline userEdit restored := by
  have hkeys : ownedKeys [keyPath] = ["KEY".toList] := by decide +kernel
  refine ⟨by decide +kernel, ?_, ?_⟩
  · rw [hkeys, List.forall_mem_singleton]
    decide +kernel
  · rintro ⟨restored, hproject, hback⟩
    have hglued : projectPaths userEdit openBaseline [keyPath] =
        .ok ⟨"KEY=oldUSER=1\n".toList⟩ := by decide +kernel
    obtain rfl := Except.ok.inj (hproject.symm.trans hglued)
    -- the operator's key is now part of the owned key's value
    have hlost := hback.others "USER".toList (by rw [hkeys]; decide +kernel)
    exact absurd hlost (by decide +kernel)

end Dotenv

end TokenStation
