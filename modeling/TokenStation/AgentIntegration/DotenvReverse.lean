import TokenStation.AgentIntegration.ConfigDocument
import TokenStation.AgentIntegration.DotenvProjection

/-!
# Reverse patches of dotenv files

A key is undone by its value before, or by its removal. A value that was read may hold a line break
or a NUL, which no write takes, and then the key cannot be put back: `undo_iff`.
-/

namespace TokenStation

open Library

namespace Dotenv

/-! ## What a text means -/

theorem lookup_entriesObject (found : List DotenvEntry) (key : List Char) :
    (entriesObject found).lookup (String.ofList key) =
      (found.find? (·.key = key)).map fun entry ↦ .string (String.ofList entry.value) := by
  induction found with
  | nil => rfl
  | cons entry found ih =>
    rw [entriesObject, Json.lookup_insertMember, List.find?_cons, ih]
    by_cases hkey : entry.key = key
    · rw [decide_eq_true hkey, if_pos (congrArg String.ofList hkey.symm)]
      rfl
    · rw [decide_eq_false hkey, if_neg fun heq ↦ hkey (String.ofList_inj.mp heq).symm]

theorem inOrder_entriesObject (found : List DotenvEntry) :
    Json.InOrder (entriesObject found) := by
  induction found with
  | nil => exact List.Pairwise.nil
  | cons entry found ih => exact Json.inOrder_insertMember ih

/-- The entry of a key has the value that its line gives it. -/
theorem find_entries {document : LosslessDotenvDocument} {found : List DotenvEntry}
    (h : entries document.rendered = .ok found) (key : List Char) :
    (found.find? (·.key = key)).map (·.value) = valueIn (lines document) key := by
  have hreads : Reads (lines document) := exists_entries_iff.mp ⟨found, h⟩
  obtain ⟨hnone, habsent⟩ | ⟨before, line, after, value, hlines, hline, hfind⟩ :=
    find_entriesFrom h key
  · rw [hnone, lines, valueIn_eq_none_iff.mpr habsent]
    rfl
  · rw [lines, hlines] at hreads ⊢
    obtain ⟨-, hbefore, -⟩ := (reads_middle_iff (keyOf_of_assignment hline)).mp hreads
    rw [hfind, valueIn_middle hbefore hline]
    rfl

/-- A text that reads means an object with the values of its keys. -/
theorem exists_semantic {document : LosslessDotenvDocument} (h : Reads (lines document)) :
    ∃ members, semantic document.rendered = .ok (.object members) ∧ Json.InOrder members ∧
      ∀ key, members.lookup (String.ofList key) =
        (valueIn (lines document) key).map fun value ↦ .string (String.ofList value) := by
  obtain ⟨found, hfound⟩ := exists_entries_iff.mpr h
  refine ⟨entriesObject found, ?_, inOrder_entriesObject found, fun key ↦ ?_⟩
  · rw [semantic, hfound]
  · rw [lookup_entriesObject, ← find_entries hfound, Option.map_map]
    rfl

/-- Texts that give every key the same value mean the same. -/
theorem semantic_congr {document other : LosslessDotenvDocument} (h : Reads (lines document))
    (h' : Reads (lines other))
    (hsame : ∀ key, valueIn (lines other) key = valueIn (lines document) key) :
    semantic other.rendered = semantic document.rendered := by
  obtain ⟨members, hmembers, horder, hlookup⟩ := exists_semantic h
  obtain ⟨others, hothers, horder', hlookup'⟩ := exists_semantic h'
  have heq : others = members := by
    refine Json.eq_of_lookup horder' horder fun key ↦ ?_
    rw [← String.ofList_toList (s := key), hlookup, hlookup', hsame]
  rw [hmembers, hothers, heq]

/-! ## What an operation does to the values -/

/-- A value that a write takes. -/
def Writable (value : List Char) : Prop :=
  '\n' ∉ value ∧ '\r' ∉ value ∧ '\x00' ∉ value

theorem exists_quotedValue_iff {value : List Char} :
    (∃ quoted, quotedValue value = .ok quoted) ↔ Writable value := by
  have hany : (value.any fun c ↦ c == '\n' || c == '\r' || c == '\x00') = true ↔
      ¬Writable value := by
    rw [Writable, List.any_eq_true]
    constructor
    · rintro ⟨c, hc, hbad⟩ ⟨hnewline, hreturn, hnul⟩
      rw [Bool.or_eq_true, Bool.or_eq_true, beq_iff_eq, beq_iff_eq, beq_iff_eq] at hbad
      rcases hbad with (rfl | rfl) | rfl
      · exact hnewline hc
      · exact hreturn hc
      · exact hnul hc
    · intro hnot
      by_contra hall
      refine hnot ⟨fun hc ↦ hall ⟨_, hc, rfl⟩, fun hc ↦ hall ⟨_, hc, rfl⟩,
        fun hc ↦ hall ⟨_, hc, rfl⟩⟩
  rw [quotedValue]
  by_cases hbad : (value.any fun c ↦ c == '\n' || c == '\r' || c == '\x00') = true
  · rw [if_pos hbad]
    exact iff_of_false (by rintro ⟨_, ⟨⟩⟩) (hany.mp hbad)
  · rw [if_neg hbad]
    exact iff_of_true ⟨_, rfl⟩ (not_not.mp (mt hany.mpr hbad))

/-- The text reads, and gives the key the value, or none, and the others what they had. -/
structure Sets (document next : LosslessDotenvDocument) (key : List Char)
    (value : Option (List Char)) : Prop where
  reads : Reads (lines next)
  value : valueIn (lines next) key = value
  others : ∀ other, other ≠ key → valueIn (lines next) other = valueIn (lines document) other

theorem Sets.of_puts {document next : LosslessDotenvDocument} {key : List Char}
    {value : Option (List Char)} {lines' : List (List Char)}
    (hnext : next.rendered = lines'.flatten)
    (h : Puts (lines document) lines' key value) : Sets document next key value := by
  have hlines : lines next = lines' := by
    rw [lines, hnext, splitInclusive_of_isLines h.isLines]
  exact ⟨hlines ▸ h.reads, hlines ▸ h.value, hlines ▸ h.others⟩

/-- A value that can be written is set. -/
theorem applyWrite_sets {document : LosslessDotenvDocument} {operation : PatchOperation}
    {key value : List Char} (hreads : Reads (lines document)) (hkey : IsKey key)
    (hvalue : asStr operation.value = some value) (hwritable : Writable value) :
    ∃ next, applyWrite document operation key = .ok next ∧
      Sets document next key (some value) := by
  obtain ⟨quoted, hquoted⟩ := exists_quotedValue_iff.mpr hwritable
  have hall (newline : List Char) (hends : newline = ['\n'] ∨ newline = ['\r', '\n']) :
      ∃ next, (replaceRaw document.rendered key (some (key ++ ['='] ++ quoted ++ newline))).map
        LosslessDotenvDocument.mk = .ok next ∧ Sets document next key (some value) := by
    obtain ⟨hterm, hline⟩ := written_line hkey hquoted hends
    obtain ⟨lines', hput, hputs⟩ := replaceRaw_writes (isLines_splitInclusive _) hreads hterm hline
    rw [splitInclusive_flatten] at hput
    rw [hput]
    exact ⟨⟨lines'.flatten⟩, rfl, .of_puts rfl hputs⟩
  rw [applyWrite, hvalue]
  dsimp only
  rw [hquoted]
  refine hall _ ?_
  split
  · exact .inr rfl
  · exact .inl rfl

/-- Only a value that can be written is accepted. -/
theorem writable_of_applyWrite {document next : LosslessDotenvDocument}
    {operation : PatchOperation} {key : List Char}
    (h : applyWrite document operation key = .ok next) :
    ∃ value, asStr operation.value = some value ∧ Writable value := by
  rw [applyWrite] at h
  split at h
  next => cases h
  next value hvalue =>
    refine ⟨value, hvalue, exists_quotedValue_iff.mp ?_⟩
    dsimp only at h
    split at h
    next => cases h
    next quoted hquoted => exact ⟨quoted, hquoted⟩

/-- A removal takes the value of its key away. -/
theorem replaceRaw_none_sets {document : LosslessDotenvDocument} {key : List Char}
    (hreads : Reads (lines document)) :
    ∃ rendered, replaceRaw document.rendered key none = .ok rendered ∧
      Sets document ⟨rendered⟩ key none := by
  obtain ⟨lines', hput, hputs⟩ := replaceRaw_puts (isLines_splitInclusive document.rendered) hreads
    fun line (hnone : line ∈ none) ↦ (Option.not_mem_none line hnone).elim
  rw [splitInclusive_flatten] at hput
  exact ⟨lines'.flatten, hput, .of_puts rfl hputs⟩

/-- What an accepted operation does. -/
theorem applyOperation_cases {document next : LosslessDotenvDocument} {operation : PatchOperation}
    (hreads : Reads (lines document)) (h : applyOperation document operation = .ok next) :
    ∃ key, pathKey operation.path = .ok key ∧
      (operation.operation = .test ∧ next = document ∨
        operation.operation = .remove ∧ Sets document next key none ∨
        (operation.operation = .add ∨ operation.operation = .replace) ∧
          ∃ value, Writable value ∧ Sets document next key (some value)) := by
  rw [applyOperation] at h
  rcases hpath : pathKey operation.path with error | key
  · rw [hpath] at h
    cases h
  · rw [hpath] at h
    refine ⟨key, rfl, ?_⟩
    have hwrite (h : applyWrite document operation key = .ok next) :
        ∃ value, Writable value ∧ Sets document next key (some value) := by
      obtain ⟨value, hvalue, hwritable⟩ := writable_of_applyWrite h
      obtain ⟨written, hwritten, hsets⟩ :=
        applyWrite_sets hreads (isKey_of_pathKey hpath).1 hvalue hwritable
      obtain rfl := Except.ok.inj (hwritten.symm.trans h)
      exact ⟨value, hwritable, hsets⟩
    rcases hkind : operation.operation
    case test =>
      rw [hkind] at h
      refine .inl ⟨rfl, ?_⟩
      simp only [Bind.bind, Except.bind] at h
      split at h
      next => cases h
      next =>
        split at h
        next => cases h
        next =>
          split at h
          next => exact (Except.ok.inj h).symm
          next => cases h
    case remove =>
      rw [hkind] at h
      obtain ⟨rendered, hrendered, hsets⟩ := @replaceRaw_none_sets _ key hreads
      simp only [Bind.bind, Except.bind, hrendered] at h
      obtain rfl := Except.ok.inj h
      exact .inr (.inl ⟨rfl, hsets⟩)
    all_goals
      rw [hkind] at h
      exact .inr (.inr ⟨by decide, hwrite h⟩)

/-! ## Undoing -/

/-- What a document means. -/
def root (document : LosslessDotenvDocument) : JsonValue :=
  match semantic document.rendered with
  | .ok root => root
  | .error _ => .null

/-- What is recorded for an operation on a key is one operation: the key is put back. -/
theorem reverseOf_root {document : LosslessDotenvDocument} {operation : PatchOperation}
    {key : List Char} (hreads : Reads (lines document)) (hpath : pathKey operation.path = .ok key) :
    ConfigDocument.reverseOf (root document) operation =
      if operation.operation = .test then []
      else match valueIn (lines document) key with
        | some value => [⟨.replace, operation.path, some (.string (String.ofList value))⟩]
        | none => [⟨.remove, operation.path, none⟩] := by
  obtain ⟨members, hmembers, -, hlookup⟩ := exists_semantic hreads
  have hsegments : operation.path.segments = [String.ofList key] := by
    rw [(isKey_of_pathKey hpath).2]
  have hparent (root : JsonValue) : ConfigDocument.parentReverse root operation = none := by
    have hnone : Json.strictAncestors operation.path = [] := by
      rw [Json.strictAncestors, hsegments]
      rfl
    rw [ConfigDocument.parentReverse, hnone]
    rcases operation.operation <;> rfl
  have hvalue : Json.semanticValueAt (.object members) operation.path =
      (valueIn (lines document) key).map fun value ↦ .string (String.ofList value) := by
    have hnot : ¬Json.isArray (.object members) = true := fun harray ↦ nomatch harray
    rw [Json.semanticValueAt, if_neg fun hboth ↦ hnot hboth.1, hsegments,
      Json.valueAt_object_cons, hlookup]
    rcases valueIn (lines document) key with - | value <;> rfl
  have hleaf : ConfigDocument.leafReverse (.object members) operation.path =
      match valueIn (lines document) key with
      | some value => ⟨.replace, operation.path, some (.string (String.ofList value))⟩
      | none => ⟨.remove, operation.path, none⟩ := by
    rw [ConfigDocument.leafReverse, hvalue]
    rcases valueIn (lines document) key with - | value <;> rfl
  rw [root, hmembers, ConfigDocument.reverseOf]
  dsimp only
  rw [hparent, hleaf]
  rcases operation.operation <;> rcases valueIn (lines document) key with - | value <;> rfl

theorem applyOperation_replace {document : LosslessDotenvDocument} {path : ConfigPath}
    {key : List Char} {value : JsonValue} (hpath : pathKey path = .ok key) :
    applyOperation document ⟨.replace, path, some value⟩ =
      applyWrite document ⟨.replace, path, some value⟩ key := by
  rw [applyOperation, hpath]
  rfl

/-- The value that a key had is put back, if it can be written. -/
theorem exists_replace {document : LosslessDotenvDocument} {path : ConfigPath}
    {key value : List Char} (hreads : Reads (lines document)) (hpath : pathKey path = .ok key)
    (hwritable : Writable value) :
    ∃ next, applyOperation document ⟨.replace, path, some (.string (String.ofList value))⟩ =
      .ok next ∧ Sets document next key (some value) := by
  rw [applyOperation_replace hpath]
  refine applyWrite_sets hreads (isKey_of_pathKey hpath).1 ?_ hwritable
  rw [asStr, String.toList_ofList]

theorem exists_remove {document : LosslessDotenvDocument} {path : ConfigPath} {key : List Char}
    (hreads : Reads (lines document)) (hpath : pathKey path = .ok key) :
    ∃ next, applyOperation document ⟨.remove, path, none⟩ = .ok next ∧
      Sets document next key none := by
  obtain ⟨rendered, hrendered, hsets⟩ := @replaceRaw_none_sets document key hreads
  refine ⟨⟨rendered⟩, ?_, hsets⟩
  rw [applyOperation, hpath]
  simp only [Bind.bind, Except.bind, hrendered]

/-- Some operation other than a test names the key. -/
def Touched (operations : List PatchOperation) (key : List Char) : Prop :=
  ∃ operation ∈ operations, operation.operation ≠ .test ∧ pathKey operation.path = .ok key

/-- The text reads, and the values of the keys that are touched can be written. -/
def Fit (operations : List PatchOperation) (document : LosslessDotenvDocument) : Prop :=
  Reads (lines document) ∧ ∀ key, Touched operations key →
    ∀ value, valueIn (lines document) key = some value → Writable value

theorem Fit.of_sets {operations : List PatchOperation} {document next : LosslessDotenvDocument}
    {key : List Char} {value : Option (List Char)} (h : Fit operations document)
    (hsets : Sets document next key value) (hvalue : ∀ text ∈ value, Writable text) :
    Fit operations next := by
  refine ⟨hsets.reads, fun other htouched text htext ↦ ?_⟩
  by_cases hkey : other = key
  · rw [hkey, hsets.value] at htext
    exact hvalue text htext
  · rw [hsets.others other hkey] at htext
    exact h.2 other htouched text htext

/-- **An operation is undone** where the value of its key can be written. -/
theorem undo_operation {operations : List PatchOperation} {document next : LosslessDotenvDocument}
    {operation : PatchOperation} (hfit : Fit operations document) (hmem : operation ∈ operations)
    (h : applyOperation document operation = .ok next) :
    Fit operations next ∧ ∀ later, Fit operations later →
      (∀ key, valueIn (lines later) key = valueIn (lines next) key) →
      ∃ back, applyAll applyOperation later
          (ConfigDocument.reverseOf (root document) operation) = .ok back ∧
        Fit operations back ∧ ∀ key, valueIn (lines back) key = valueIn (lines document) key := by
  obtain ⟨key, hpath, hcases⟩ := applyOperation_cases hfit.1 h
  rw [reverseOf_root hfit.1 hpath]
  by_cases htest : operation.operation = .test
  · rw [if_pos htest]
    obtain ⟨-, rfl⟩ | ⟨hkind, -⟩ | ⟨hkind, -⟩ := hcases
    · exact ⟨hfit, fun later hlater hsame ↦ ⟨later, rfl, hlater, hsame⟩⟩
    · rw [htest] at hkind
      nomatch hkind
    · rw [htest] at hkind
      rcases hkind with hkind | hkind <;> nomatch hkind
  · rw [if_neg htest]
    -- the key was set, to a value that can be written
    obtain ⟨value, hwritable, hsets⟩ : ∃ value, (∀ text ∈ value, Writable text) ∧
        Sets document next key value := by
      obtain ⟨hkind, -⟩ | ⟨-, hsets⟩ | ⟨-, value, hwritable, hsets⟩ := hcases
      · exact absurd hkind htest
      · exact ⟨none, fun _ ↦ (Option.not_mem_none _).elim, hsets⟩
      · refine ⟨some value, fun text htext ↦ ?_, hsets⟩
        rwa [← Option.some.inj htext]
    refine ⟨hfit.of_sets hsets hwritable, fun later hlater hsame ↦ ?_⟩
    have hback {back : LosslessDotenvDocument} {old : Option (List Char)}
        (hold : valueIn (lines document) key = old) (hback : Sets later back key old)
        (other : List Char) : valueIn (lines back) other = valueIn (lines document) other := by
      by_cases hkey : other = key
      · rw [hkey, hback.value, hold]
      · rw [hback.others other hkey, hsame, hsets.others other hkey]
    rcases hold : valueIn (lines document) key with - | old
    · obtain ⟨back, hremove, hset⟩ := exists_remove hlater.1 hpath
      refine ⟨back, ?_, hlater.of_sets hset fun _ ↦ (Option.not_mem_none _).elim, hback hold hset⟩
      rw [applyAll_singleton, hremove]
    · have hold' := hfit.2 key ⟨operation, hmem, htest, hpath⟩ old hold
      obtain ⟨back, hreplace, hset⟩ := exists_replace hlater.1 hpath hold'
      refine ⟨back, ?_, hlater.of_sets hset fun text htext ↦ ?_, hback hold hset⟩
      · rw [applyAll_singleton, hreplace]
      · rwa [← Option.some.inj htext]

/-- A key that was touched and whose value cannot be written is to be put back. -/
theorem mem_undo_of_not_writable {operations undo : List PatchOperation}
    {document after : LosslessDotenvDocument} {key value : List Char}
    (hreads : Reads (lines document)) (htouched : Touched operations key)
    (hvalue : valueIn (lines document) key = some value)
    (h : undoing applyOperation (fun document ↦ ConfigDocument.reverseOf (root document))
      document operations = .ok (after, undo)) :
    ∃ path, ⟨.replace, path, some (.string (String.ofList value))⟩ ∈ undo := by
  induction operations generalizing document after undo with
  | nil =>
    obtain ⟨operation, hmem, -⟩ := htouched
    cases hmem
  | cons first operations ih =>
    rw [undoing] at h
    split at h
    · cases h
    next next hnext =>
      split at h
      · cases h
      next last undo' hundo =>
        obtain ⟨rfl, rfl⟩ := Prod.mk.inj (Except.ok.inj h)
        obtain ⟨key', hpath, hcases⟩ := applyOperation_cases hreads hnext
        by_cases hhere : first.operation ≠ .test ∧ key' = key
        · -- the first operation on the key records its value
          obtain ⟨htest, rfl⟩ := hhere
          refine ⟨first.path, List.mem_append_right _ ?_⟩
          rw [reverseOf_root hreads hpath, if_neg htest, hvalue]
          exact List.mem_cons_self
        · have hnext' : Reads (lines next) ∧ valueIn (lines next) key = some value := by
            rw [not_and_or, not_not] at hhere
            obtain ⟨-, rfl⟩ | ⟨hkind, hsets⟩ | ⟨hkind, written, -, hsets⟩ := hcases
            · exact ⟨hreads, hvalue⟩
            · have hne : key' ≠ key := hhere.resolve_left fun htest ↦ by
                rw [htest] at hkind
                cases hkind
              exact ⟨hsets.reads, (hsets.others key hne.symm).trans hvalue⟩
            · have hne : key' ≠ key := hhere.resolve_left fun htest ↦ by
                rw [htest] at hkind
                rcases hkind with hkind | hkind <;> cases hkind
              exact ⟨hsets.reads, (hsets.others key hne.symm).trans hvalue⟩
          have htouched' : Touched operations key := by
            obtain ⟨operation, hmem, htest, hkey⟩ := htouched
            rcases List.mem_cons.mp hmem with rfl | hmem
            · exact absurd ⟨htest, Except.ok.inj (hpath.symm.trans hkey)⟩ hhere
            · exact ⟨operation, hmem, htest, hkey⟩
          obtain ⟨path, hmem⟩ := ih hnext'.1 htouched' hnext'.2 hundo
          exact ⟨path, List.mem_append_left _ hmem⟩

/-- **A patch is undone just when the values of the keys it touched can be written.** -/
theorem undo_iff {operations undo : List PatchOperation} {document after : LosslessDotenvDocument}
    (hreads : Reads (lines document))
    (h : undoing applyOperation (fun document ↦ ConfigDocument.reverseOf (root document))
      document operations = .ok (after, undo)) :
    (∃ back, applyAll applyOperation after undo = .ok back ∧
      semantic back.rendered = semantic document.rendered) ↔
      ∀ key, Touched operations key →
        ∀ value, valueIn (lines document) key = some value → Writable value := by
  constructor
  · rintro ⟨back, hback, -⟩ key htouched value hvalue
    obtain ⟨path, hmem⟩ := mem_undo_of_not_writable hreads htouched hvalue h
    obtain ⟨before, next, haccepted⟩ := accepted_of_applyAll hback hmem
    rcases hpath : pathKey path with error | key'
    · rw [applyOperation, hpath] at haccepted
      cases haccepted
    · rw [applyOperation_replace hpath] at haccepted
      obtain ⟨text, htext, hwritable⟩ := writable_of_applyWrite haccepted
      rw [asStr, String.toList_ofList] at htext
      rwa [Option.some.inj htext]
  · intro hwritable
    have hfit : Fit operations document := ⟨hreads, hwritable⟩
    obtain ⟨-, back, hback, hgood, hsame⟩ :=
      exists_undo undo_operation (fun _ _ ↦ rfl) hfit (fun _ hmem ↦ hmem) h
    exact ⟨back, hback, semantic_congr hreads hgood.1 hsame⟩

end Dotenv

end TokenStation
