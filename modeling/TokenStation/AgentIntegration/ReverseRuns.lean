import TokenStation.AgentIntegration.DotenvReverse
import TokenStation.AgentIntegration.ReversePatches

/-!
# Reverse patches of a whole patch

The reverse operations of a patch lead back to a document that means what the patched one did, in
JSON and JSON5 always, and in a dotenv file just when no value that was overwritten or removed holds
a line break or a NUL.
-/

namespace TokenStation

open Library ConfigDocument

/-! ## Recording -/

/-- What is recorded for an operation on a document. -/
def ConfigDocument.recorded (document : ConfigDocument) : PatchOperation → List PatchOperation :=
  reverseOf document.meaning

theorem undoing_of_applyPatchWithReverse {document after : ConfigDocument}
    {operations reverse : List PatchOperation}
    (h : applyPatchWithReverse document operations = .ok (after, reverse)) :
    undoing applyOperation recorded document operations = .ok (after, reverse) := by
  induction operations generalizing document after reverse with
  | nil => exact h
  | cons operation operations ih =>
    rw [applyPatchWithReverse] at h
    split at h
    · nomatch h
    next before hbefore =>
      split at h
      · nomatch h
      next next hnext =>
        split at h
        · nomatch h
        next last reverse' hreverse =>
          have hmeaning : document.meaning = before := by rw [meaning, hbefore]
          rw [undoing, hnext]
          dsimp only
          rw [ih hreverse]
          dsimp only
          rw [recorded, hmeaning]
          exact h

/-- A patch of an embedded document is recorded as a patch of the document. -/
theorem undoing_of_wrap {δ : Type} {wrap : δ → ConfigDocument}
    {apply : δ → PatchOperation → Except String δ} {semantic : δ → JsonValue}
    (happly : ∀ document operation,
      (wrap document).applyOperation operation = (apply document operation).map wrap)
    (hmeaning : ∀ document, (wrap document).meaning = semantic document)
    {document : δ} {after : ConfigDocument} {operations reverse : List PatchOperation}
    (h : applyPatchWithReverse (wrap document) operations = .ok (after, reverse)) :
    ∃ last, after = wrap last ∧
      undoing apply (fun document ↦ reverseOf (semantic document)) document operations =
        .ok (last, reverse) := by
  have hrun := undoing_of_applyPatchWithReverse h
  rw [undoing_map happly fun document ↦ by rw [recorded, hmeaning]] at hrun
  rcases hundo : undoing apply (fun document ↦ reverseOf (semantic document)) document operations
    with error | ⟨last, recorded⟩
  · rw [hundo] at hrun
    nomatch hrun
  · rw [hundo] at hrun
    obtain ⟨rfl, rfl⟩ := Prod.mk.inj (Except.ok.inj hrun)
    exact ⟨last, rfl, rfl⟩

/-- The reverse of a patch of an embedded document is applied to the document. -/
theorem exists_back_wrap {δ : Type} {wrap : δ → ConfigDocument}
    {apply : δ → PatchOperation → Except String δ}
    (happly : ∀ document operation,
      (wrap document).applyOperation operation = (apply document operation).map wrap)
    {last : δ} {reverse : List PatchOperation} {good : ConfigDocument → Prop} :
    (∃ back, applyPatch (wrap last) reverse = .ok back ∧ good back) ↔
      ∃ back, applyAll apply last reverse = .ok back ∧ good (wrap back) := by
  rw [applyPatch, applyAll_map happly]
  rcases applyAll apply last reverse with error | back
  · exact iff_of_false (fun ⟨_, h, _⟩ ↦ nomatch h) fun ⟨_, h, _⟩ ↦ nomatch h
  · constructor
    · rintro ⟨_, hback, hgood⟩
      obtain rfl := Except.ok.inj hback
      exact ⟨back, rfl, hgood⟩
    · rintro ⟨_, hback, hgood⟩
      obtain rfl := Except.ok.inj hback
      exact ⟨wrap back, rfl, hgood⟩

/-! ## Runs -/

/-- A patch of a tree is undone. -/
theorem TreeDocument.undo_run {δ : Type} {format : TreeDocument δ} {document after : δ}
    {operations undo : List PatchOperation} (hgood : format.good document)
    (hfine : ∀ operation ∈ operations, ∀ value ∈ operation.value, format.fine value)
    (h : undoing format.apply (fun document ↦ reverseOf (format.semantic document)) document
      operations = .ok (after, undo)) :
    ∃ back, applyAll format.apply after undo = .ok back ∧ format.good back ∧
      format.tree back = format.tree document :=
  (exists_undo format.undo_step (fun _ ↦ rfl) hgood hfine h).2

theorem parentReverse_of_singleton (root : JsonValue) {operation : PatchOperation} {key : String}
    (h : operation.path.segments = [key]) : parentReverse root operation = none := by
  have hnone : Json.strictAncestors operation.path = [] := by
    rw [Json.strictAncestors, h]
    rfl
  rw [parentReverse, hnone]
  rcases operation.operation <;> rfl

theorem exists_items {root : JsonValue} (h : Json.isArray root = true) :
    ∃ items, root = .array items :=
  match root, h with
  | .array items, _ => ⟨items, rfl⟩

/-- An operation on a JSON array is undone: only `models` names something in it. -/
theorem undo_array {root next : JsonValue} {operation : PatchOperation}
    (hroot : Json.isArray root = true) (h : Json.applyOperation root operation = .ok next) :
    Json.isArray next = true ∧ ∀ later, Json.isArray later = true → later = next →
      ∃ back, applyAll Json.applyOperation later (reverseOf root operation) = .ok back ∧
        Json.isArray back = true ∧ back = root := by
  by_cases hmodels : operation.path.segments = ["models"]
  · rw [Json.applyOperation, if_pos ⟨hroot, hmodels⟩] at h
    have hback {later : JsonValue} (hlater : Json.isArray later = true) :
        Json.applyOperation later (leafReverse root operation.path) = .ok root := by
      rw [leafReverse, Json.semanticValueAt, if_pos ⟨hroot, hmodels⟩]
      dsimp only
      rw [Json.applyOperation, if_pos ⟨hlater, hmodels⟩]
      exact if_pos hroot
    have hnoParent : parentReverse root operation = none := parentReverse_of_singleton root hmodels
    rcases hkind : operation.operation
    case test =>
      rw [Json.applyModels, hkind] at h
      dsimp only at h
      split at h
      next =>
        obtain rfl := Except.ok.inj h
        refine ⟨hroot, fun later hlater hsame ↦ ⟨later, ?_, hlater, hsame⟩⟩
        rw [reverseOf, hkind]
        rfl
      next => cases h
    case remove =>
      rw [Json.applyModels, hkind] at h
      obtain rfl := Except.ok.inj h
      refine ⟨rfl, fun later hlater _ ↦ ⟨root, ?_, hroot, rfl⟩⟩
      rw [reverseOf, hkind]
      dsimp only
      rw [hnoParent, Option.toList_none, applyAll_singleton, hback hlater]
    all_goals
      rw [Json.applyModels, hkind] at h
      dsimp only at h
      split at h
      next => cases h
      next value _ =>
        split at h
        next harray =>
          obtain rfl := Except.ok.inj h
          refine ⟨harray, fun later hlater _ ↦ ⟨root, ?_, hroot, rfl⟩⟩
          rw [reverseOf, hkind]
          dsimp only
          rw [hnoParent, Option.toList_none, applyAll_singleton, hback hlater]
        next => cases h
  · rw [Json.applyOperation, if_neg fun hboth ↦ hmodels hboth.2] at h
    obtain ⟨items, rfl⟩ := exists_items hroot
    by_cases hignored : operation.path.segments = ["availableModels"]
    · rw [if_pos ⟨hroot, hignored⟩] at h
      obtain rfl := Except.ok.inj h
      refine ⟨hroot, fun later hlater hsame ↦ ⟨later, ?_, hlater, hsame⟩⟩
      have hleaf : leafReverse (.array items) operation.path = ⟨.remove, operation.path, none⟩ := by
        rw [leafReverse, Json.semanticValueAt, if_neg fun hboth ↦ hmodels hboth.2, hignored]
        rfl
      have hremove : Json.applyOperation later ⟨.remove, operation.path, none⟩ = .ok later := by
        rw [Json.applyOperation, if_neg fun hboth ↦ hmodels hboth.2]
        exact if_pos ⟨hlater, hignored⟩
      have hparent := parentReverse_of_singleton (.array items) hignored
      rcases hkind : operation.operation
      case test =>
        rw [reverseOf, hkind]
        rfl
      all_goals
        rw [reverseOf, hkind]
        dsimp only
        rw [hparent, hleaf, Option.toList_none, applyAll_singleton, hremove]
    · -- every other path leads into an object
      exfalso
      rw [if_neg fun hboth ↦ hignored hboth.2] at h
      rcases hsplit : Json.splitPath operation.path with error | ⟨last, parents⟩
      · rw [hsplit] at h
        cases h
      · rw [hsplit] at h
        simp only [Bind.bind, Except.bind] at h
        have hnot : Json.node (.array items) ≠ .branch := by rintro ⟨⟩
        rcases hkind : operation.operation
        case remove =>
          rw [hkind] at h
          dsimp only at h
          rw [Json.removeAt_of_not_branch hnot] at h
          cases h
        case test =>
          rw [hkind] at h
          rcases parents with - | ⟨parent, parents⟩
          · cases h
          · cases h
        all_goals
          rw [hkind] at h
          rcases Json.root_of_writeAt h with hbranch | hnone | hnull
          · exact hnot (Option.some.inj hbranch)
          · cases hnone
          · cases Option.some.inj hnull

/-! ## The patch is undone -/

/-- What a patch overwrites or removes can be written again: in a dotenv file these values hold no
line break and no NUL. -/
def Restorable : ConfigDocument → List PatchOperation → Prop
  | .json _, _ => True
  | .json5 _, _ => True
  | .dotenv document, operations =>
    ∀ found, Dotenv.entries document.rendered = .ok found →
      ∀ operation ∈ operations, operation.operation ≠ .test →
        ∀ key, Dotenv.pathKey operation.path = .ok key →
          ∀ entry, found.find? (·.key = key) = some entry → Dotenv.Writable entry.value

theorem restorable_dotenv {document : LosslessDotenvDocument} {operations : List PatchOperation}
    {found : List DotenvEntry} (hfound : Dotenv.entries document.rendered = .ok found) :
    Restorable (.dotenv document) operations ↔ ∀ key, Dotenv.Touched operations key →
      ∀ value, Dotenv.valueIn (Dotenv.lines document) key = some value → Dotenv.Writable value := by
  constructor
  · rintro h key ⟨operation, hmem, htest, hpath⟩ value hvalue
    rw [← Dotenv.find_entries hfound] at hvalue
    obtain ⟨entry, hentry, rfl⟩ := Option.map_eq_some_iff.mp hvalue
    exact h found hfound operation hmem htest key hpath entry hentry
  · intro h others hothers operation hmem htest key hpath entry hentry
    obtain rfl := Except.ok.inj (hfound.symm.trans hothers)
    refine h key ⟨operation, hmem, htest, hpath⟩ entry.value ?_
    rw [← Dotenv.find_entries hfound, hentry, Option.map_some]

/-- **The reverse of a patch undoes it just when what it overwrote can be written again.** Missing
and null parents are given back, and operations may repeat and touch what others made. -/
theorem reverse_iff {document after : ConfigDocument} {operations reverse : List PatchOperation}
    (hparsed : Parsed document)
    (hvalues : ∀ operation ∈ operations, ∀ value ∈ operation.value, Json5.Canonical value)
    (h : applyPatchWithReverse document operations = .ok (after, reverse)) :
    (∃ back, applyPatch after reverse = .ok back ∧ back.semanticJson = document.semanticJson) ↔
      Restorable document operations := by
  rcases document with root | value | document
  case json =>
    refine iff_of_true ?_ trivial
    obtain ⟨last, rfl, hundo⟩ := undoing_of_wrap (fun _ _ ↦ rfl) (fun _ ↦ rfl) h
    refine (exists_back_wrap fun _ _ ↦ rfl).mpr ?_
    obtain ⟨hcanonical, ⟨members, rfl⟩ | ⟨items, rfl⟩⟩ := hparsed
    · obtain ⟨back, hback, hgood, htree⟩ := jsonFormat.undo_run ⟨hcanonical.ordered, rfl⟩
        (fun operation hmem value hvalue ↦ (hvalues operation hmem value hvalue).ordered) hundo
      refine ⟨back, hback, ?_⟩
      rw [Json.eq_of_view hgood.1 hcanonical.ordered htree]
    · obtain ⟨-, back, hback, -, rfl⟩ := exists_undo
        (fun hgood (_ : True) hnext ↦ undo_array hgood hnext) (fun _ ↦ rfl) rfl
        (fun _ _ ↦ trivial) hundo
      exact ⟨_, hback, rfl⟩
  case json5 =>
    refine iff_of_true ?_ trivial
    obtain ⟨last, rfl, hundo⟩ := undoing_of_wrap (fun _ _ ↦ rfl) (fun _ ↦ rfl) h
    refine (exists_back_wrap fun _ _ ↦ rfl).mpr ?_
    obtain ⟨hdistinct, pairs, rfl⟩ := hparsed
    obtain ⟨back, hback, -, htree⟩ := json5Format.undo_run ⟨hdistinct, rfl⟩ hvalues hundo
    refine ⟨back, hback, congrArg Except.ok ?_⟩
    exact Json.eq_of_view (Json5.canonical_semantic back).ordered
      (Json5.canonical_semantic _).ordered htree
  case dotenv =>
    obtain ⟨found, hfound⟩ := hparsed
    obtain ⟨last, rfl, hundo⟩ := undoing_of_wrap (fun _ _ ↦ rfl) (fun _ ↦ rfl) h
    rw [restorable_dotenv hfound, exists_back_wrap fun _ _ ↦ rfl]
    exact Dotenv.undo_iff (Dotenv.exists_entries_iff.mp ⟨found, hfound⟩) hundo

/-- A write below a null parent is undone, and the null is given back. -/
theorem reverse_iff_nullParent :
    (∃ back, applyPatch (.json (.object [("env", .object [("key", .string "x")])]))
        [⟨.remove, ⟨["env", "key"]⟩, none⟩, ⟨.replace, ⟨["env"]⟩, some .null⟩] = .ok back ∧
      back.semanticJson = .ok (.object [("env", .null)])) ↔
      Restorable (.json (.object [("env", .null)]))
        [⟨.add, ⟨["env", "key"]⟩, some (.string "x")⟩] := by
  have hparsed : Parsed (.json (.object [("env", .null)])) := by
    refine ⟨.object (List.pairwise_singleton _ _) fun member hmember ↦ ?_, .inl ⟨_, rfl⟩⟩
    obtain rfl := List.mem_singleton.mp hmember
    exact .null
  refine reverse_iff hparsed (fun operation hmem value hvalue ↦ ?_) rfl
  obtain rfl := List.mem_singleton.mp hmem
  obtain rfl := Option.some.inj hvalue
  exact .string "x"

/-- A value with an escaped line break is read, and cannot be put back. -/
theorem not_reverse_escapedBreak :
    ∃ document operations after reverse, Parsed document ∧
      (∀ operation ∈ operations, ∀ value ∈ operation.value, Json5.Canonical value) ∧
      applyPatchWithReverse document operations = .ok (after, reverse) ∧
      ¬∃ back, applyPatch after reverse = .ok back ∧
        back.semanticJson = document.semanticJson := by
  have hparsed : Dotenv.entries ['A', '=', '"', '\\', 'n', '"'] =
      .ok [⟨['A'], ['\n'], 0, 6, ['A', '=', '"', '\\', 'n', '"']⟩] := by decide +kernel
  have hrun : ∃ after reverse, applyPatchWithReverse
      (.dotenv ⟨['A', '=', '"', '\\', 'n', '"']⟩) [⟨.replace, ⟨["A"]⟩, some (.string "z")⟩] =
        .ok (after, reverse) ∧ (applyPatch after reverse).isOk = false :=
    ⟨_, _, rfl, rfl⟩
  obtain ⟨after, reverse, hrun, herror⟩ := hrun
  refine ⟨.dotenv _, _, after, reverse, ⟨_, hparsed⟩, ?_, hrun, ?_⟩
  · intro operation hmem value hvalue
    obtain rfl := List.mem_singleton.mp hmem
    obtain rfl := Option.some.inj hvalue
    exact .string "z"
  · rintro ⟨back, hback, -⟩
    rw [hback] at herror
    nomatch herror

end TokenStation
