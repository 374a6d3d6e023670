import TokenStation.AgentIntegration.Json5View
import TokenStation.AgentIntegration.JsonDisconnect
import TokenStation.AgentIntegration.JsonReach
import TokenStation.AgentIntegration.Projection
import TokenStation.Library.TreeEditor

/-!
# JSON and JSON5 as editors of trees

The operations and the passes of a projection, on JSON and on JSON5 documents, are those of an
editor of trees. The null of a document is the leaf that a write takes for an empty object.
-/

namespace TokenStation

open Library

namespace Json

/-! ## JSON -/

/-- The operation that puts a value at a path, or takes it away. -/
def putOperation (edit : List String × Option JsonValue) : PatchOperation :=
  ⟨if edit.2.isSome then .replace else .remove, ⟨edit.1⟩, edit.2⟩

/-- JSON objects. -/
def editor : TreeEditor JsonValue JsonValue String String JsonValue where
  put root edit := applyOperation root (putOperation edit)
  bare root path := (valueAt root path).any isEmptyObject
  tree := view
  treeOf := view
  good root := node root = .branch
  fine _ := True
  valid segments := segments ≠ [] ∧ segments.all isValidSegment = true
  soft := .null
  rooted := rooted_view
  bare_iff := bare_iff.symm
  exists_put_iff := by
    rintro root ⟨segments, value⟩ hroot ⟨hne, hvalid⟩ -
    obtain ⟨last, parents, hsplit, hpath⟩ := splitPath_ok hne hvalid
    rw [applyOperation_of_branch hroot hsplit]
    rcases value with - | value
    · change (∃ next, removeAt _ last parents root = .ok next) ↔ _
      rw [exists_removeAt_iff, hpath]
      simp
    · change (∃ next, writeAt _ (some value) last parents root = .ok next) ↔ _
      rw [exists_writeAt_iff, hpath]
      simp [Lacks]
  tree_put := by
    rintro root ⟨segments, value⟩ next hroot - h
    obtain ⟨hpath, happlied⟩ := applied_of_applyOperation hroot h
    refine ⟨node_of_applied hpath happlied hroot, ?_⟩
    rcases value with - | value
    · exact (view_of_remove hroot h).2
    · exact (view_of_replace hroot h).2

theorem editor_put (root : JsonValue) (edit : List String × Option JsonValue) :
    editor.put root edit = applyOperation root (putOperation edit) :=
  rfl

theorem applyPatch_eq (root : JsonValue) (operations : List PatchOperation) :
    applyPatch root operations = applyAll applyOperation root operations := by
  induction operations generalizing root with
  | nil => rfl
  | cons operation operations ih =>
    rw [applyPatch, applyAll]
    simp only [Bind.bind, Except.bind]
    rcases applyOperation root operation with error | next
    · rfl
    · exact ih next

/-- The edits that put the owned paths back. -/
def ownedEdits (baseline : JsonValue) (ownedPaths : List ConfigPath) :
    List (List String × Option JsonValue) :=
  ownedPaths.map fun path ↦ (path.segments, valueAt baseline path.segments)

theorem applyPatch_ownedRestoration {baseline : JsonValue} (hbaseline : node baseline = .branch)
    (root : JsonValue) (ownedPaths : List ConfigPath) :
    applyPatch root (ownedPaths.map (ownedRestoration baseline)) =
      applyAll editor.put root (ownedEdits baseline ownedPaths) := by
  have hoperation (path : ConfigPath) : ownedRestoration baseline path =
      putOperation (path.segments, valueAt baseline path.segments) := by
    rw [ownedRestoration, semanticValueAt_of_branch hbaseline, putOperation]
    rcases valueAt baseline path.segments with - | value <;> rfl
  rw [applyPatch_eq, ownedEdits]
  induction ownedPaths generalizing root with
  | nil => rfl
  | cons path paths ih =>
    rw [List.map_cons, List.map_cons, applyAll, applyAll, hoperation, editor_put]
    rcases applyOperation root (putOperation (path.segments, valueAt baseline path.segments))
      with error | next
    · rfl
    · exact ih next

/-- The edit that a restoration makes. -/
def restoreEdit (operation : PatchOperation) : List String × Option JsonValue :=
  (operation.path.segments, operation.value)

theorem putOperation_restoreEdit {baseline : JsonValue} {operation : PatchOperation}
    (h : ancestorRestoration baseline operation.path = some operation) :
    putOperation (restoreEdit operation) = operation := by
  rw [ancestorRestoration] at h
  split at h
  · rw [← Option.some.inj h]
    rfl
  · rw [← Option.some.inj h]
    rfl
  · cases h

theorem collapseEmptyAncestors_eq {baseline : JsonValue} {operations : List PatchOperation}
    (h : ∀ operation ∈ operations,
      ancestorRestoration baseline operation.path = some operation) (root : JsonValue) :
    collapseEmptyAncestors root operations =
      editor.applyBare root (operations.map restoreEdit) := by
  induction operations generalizing root with
  | nil => rfl
  | cons operation operations ih =>
    obtain ⟨hhere, hrest⟩ := List.forall_mem_cons.mp h
    rw [collapseEmptyAncestors, List.map_cons]
    by_cases hbare : editor.bare root (restoreEdit operation).1 = true
    · rw [TreeEditor.applyBare_cons_of_bare hbare, editor_put, putOperation_restoreEdit hhere]
      refine (if_pos hbare).trans ?_
      simp only [Bind.bind, Except.bind]
      rcases applyOperation root operation with error | next
      · rfl
      · exact ih hrest next
    · rw [TreeEditor.applyBare_cons_of_not_bare hbare]
      exact (if_neg hbare).trans (ih hrest root)

/-- The edit that gives an ancestor under a null of the baseline back. -/
def nullEdit (baseline : JsonValue) (nullAncestors : List ConfigPath) (ancestor : ConfigPath) :
    Option (List String × Option JsonValue) :=
  if nullAncestors.any fun null ↦ null.segments.isPrefixOf ancestor.segments then
    match semanticValueAt baseline ancestor with
    | none => some (ancestor.segments, none)
    | some .null => some (ancestor.segments, some .null)
    | some _ => none
  else none

theorem restoreNullFrom_eq_applyBare {baseline : JsonValue} {nullAncestors : List ConfigPath}
    {root : JsonValue} (hroot : node root = .branch) (ancestors : List ConfigPath) :
    restoreNullFrom baseline nullAncestors root ancestors =
      editor.applyBare root (ancestors.filterMap (nullEdit baseline nullAncestors)) := by
  induction ancestors generalizing root with
  | nil => rfl
  | cons ancestor ancestors ih =>
    have hstep (edit : List String × Option JsonValue) (hpath : edit.1 = ancestor.segments) :
        (if (semanticValueAt root ancestor).any isEmptyObject = true then do
            let root ← applyOperation root (putOperation edit)
            restoreNullFrom baseline nullAncestors root ancestors
          else restoreNullFrom baseline nullAncestors root ancestors) =
        editor.applyBare root
          (edit :: ancestors.filterMap (nullEdit baseline nullAncestors)) := by
      rw [semanticValueAt_of_branch hroot, ← hpath]
      by_cases hbare : editor.bare root edit.1 = true
      · rw [TreeEditor.applyBare_cons_of_bare hbare, editor_put]
        refine (if_pos hbare).trans ?_
        simp only [Bind.bind, Except.bind]
        rcases hnext : applyOperation root (putOperation edit) with error | next
        · rfl
        · exact ih (editor.tree_put hroot (fun _ _ ↦ trivial) hnext).1
      · rw [TreeEditor.applyBare_cons_of_not_bare hbare]
        exact (if_neg hbare).trans (ih hroot)
    rw [restoreNullFrom]
    by_cases hnull : (nullAncestors.any fun null ↦
        null.segments.isPrefixOf ancestor.segments) = true
    · rw [if_pos hnull]
      rcases hvalue : semanticValueAt baseline ancestor with - | value
      · have hedit : nullEdit baseline nullAncestors ancestor =
            some (ancestor.segments, none) := by
          rw [nullEdit, if_pos hnull, hvalue]
        rw [List.filterMap_cons_some hedit]
        exact hstep (ancestor.segments, none) rfl
      · by_cases hisNull : value = .null
        · subst hisNull
          have hedit : nullEdit baseline nullAncestors ancestor =
              some (ancestor.segments, some .null) := by
            rw [nullEdit, if_pos hnull, hvalue]
          rw [List.filterMap_cons_some hedit]
          exact hstep (ancestor.segments, some .null) rfl
        · have hedit : nullEdit baseline nullAncestors ancestor = none := by
            rw [nullEdit, if_pos hnull, hvalue]
            rcases value <;> first | rfl | exact absurd rfl hisNull
          rw [List.filterMap_cons_none hedit, ← ih hroot]
          rcases value <;> first | exact ite_self _ | exact absurd rfl hisNull
    · have hedit : nullEdit baseline nullAncestors ancestor = none := by
        rw [nullEdit, if_neg hnull]
      rw [if_neg hnull, List.filterMap_cons_none hedit, ih hroot]

/-- The strict ancestors of the owned paths, deepest first. -/
def ownedAncestors (ownedPaths : List ConfigPath) : List ConfigPath :=
  (sortByKey depthKey (ownedPaths.flatMap strictAncestors)).destutter (· ≠ ·)

theorem mem_ownedAncestors {ownedPaths : List ConfigPath} {ancestor : ConfigPath}
    (h : ancestor ∈ ownedAncestors ownedPaths) :
    ancestor.segments ≠ [] ∧ Above ownedPaths ancestor.segments := by
  have hin := (List.destutter_sublist _ _).subset h
  rw [mem_sortByKey, List.mem_flatMap] at hin
  obtain ⟨owned, howned, hstrict⟩ := hin
  obtain ⟨hne, hbelow⟩ := mem_strictAncestors.mp hstrict
  exact ⟨hne, owned, howned, hbelow⟩

/-- The ancestors that the baseline has as null. -/
def nullAncestors (baseline : JsonValue) (ownedPaths : List ConfigPath) : List ConfigPath :=
  (ownedAncestors ownedPaths).filter fun ancestor ↦
    (semanticValueAt baseline ancestor).any isNull

/-- The edits that collapse ancestors. -/
def collapseEdits (baseline : JsonValue) (ownedPaths : List ConfigPath) :
    List (List String × Option JsonValue) :=
  (materializedAncestorRestorations baseline ownedPaths).map restoreEdit

/-- The edits of the pass over null ancestors. -/
def nullEdits (baseline : JsonValue) (ownedPaths : List ConfigPath) :
    List (List String × Option JsonValue) :=
  (ownedAncestors ownedPaths).filterMap (nullEdit baseline (nullAncestors baseline ownedPaths))

/-- The edits that give empty ancestors back. -/
def restoreEdits (baseline : JsonValue) (ownedPaths : List ConfigPath) :
    List (List String × Option JsonValue) :=
  collapseEdits baseline ownedPaths ++ nullEdits baseline ownedPaths

/-- An edit gives an ancestor back, which the baseline lacks or has as null. -/
theorem mem_restoreEdits {baseline : JsonValue} (hbaseline : node baseline = .branch)
    {ownedPaths : List ConfigPath} {edit : List String × Option JsonValue}
    (h : edit ∈ restoreEdits baseline ownedPaths) :
    edit.1 ≠ [] ∧ Above ownedPaths edit.1 ∧
      (edit.2 = none ∧ valueAt baseline edit.1 = none ∨
        edit.2 = some .null ∧ valueAt baseline edit.1 = some .null) := by
  rcases List.mem_append.mp h with hmem | hmem
  · obtain ⟨operation, hoperation, rfl⟩ := List.mem_map.mp hmem
    obtain ⟨hne, habove, hrestore⟩ := mem_restorations hoperation
    refine ⟨hne, habove, ?_⟩
    rw [ancestorRestoration] at hrestore
    rcases baselinePathState_cases baseline operation.path.segments with ⟨hstate, hvalue⟩ |
      ⟨hstate, hvalue⟩ | ⟨hstate, -⟩
    · rw [hstate] at hrestore
      refine .inl ⟨?_, hvalue⟩
      rw [restoreEdit, ← Option.some.inj hrestore]
    · rw [hstate] at hrestore
      refine .inr ⟨?_, hvalue⟩
      rw [restoreEdit, ← Option.some.inj hrestore]
    · rw [hstate] at hrestore
      cases hrestore
  · obtain ⟨ancestor, hancestor, hedit⟩ := List.mem_filterMap.mp hmem
    obtain ⟨hne, habove⟩ := mem_ownedAncestors hancestor
    rw [nullEdit, semanticValueAt_of_branch hbaseline] at hedit
    split at hedit
    next =>
      split at hedit
      next hvalue =>
        obtain rfl := Option.some.inj hedit
        exact ⟨hne, habove, .inl ⟨rfl, hvalue⟩⟩
      next hvalue =>
        obtain rfl := Option.some.inj hedit
        exact ⟨hne, habove, .inr ⟨rfl, hvalue⟩⟩
      next => cases hedit
    next => cases hedit

/-- **The passes of a projection** are those of the editor. -/
theorem projectOwnedPaths_eq {current baseline : JsonValue} (hcurrent : node current = .branch)
    (hbaseline : node baseline = .branch) (ownedPaths : List ConfigPath) :
    projectOwnedPaths current baseline ownedPaths =
      editor.project current (ownedEdits baseline ownedPaths)
        (restoreEdits baseline ownedPaths) := by
  rw [projectOwnedPaths, TreeEditor.project, applyPatch_ownedRestoration hbaseline]
  simp only [Bind.bind, Except.bind]
  rcases hrestore : applyAll editor.put current (ownedEdits baseline ownedPaths) with
    error | middle
  · rfl
  · have hmiddle : node middle = .branch :=
      TreeEditor.good_applyAll hcurrent (fun _ _ _ _ ↦ trivial) hrestore
    dsimp only
    rw [restoreEdits, TreeEditor.applyBare_append, collapseEdits,
      collapseEmptyAncestors_eq fun operation hmem ↦ (mem_restorations hmem).2.2]
    rcases hcollapse : editor.applyBare middle
        ((materializedAncestorRestorations baseline ownedPaths).map restoreEdit) with
      error | collapsed
    · rfl
    · have hcollapsed : node collapsed = .branch :=
        TreeEditor.good_applyBare hmiddle (fun _ _ _ _ ↦ trivial) hcollapse
      exact restoreNullFrom_eq_applyBare hcollapsed _

end Json

namespace Json5

/-! ## JSON5 -/

open Json

theorem passes_iff {replacement : Option Json5Value} {root : Json5Value} {upper : List String} :
    Passes replacement root upper ↔ view id root upper = some .branch ∨
      view id root upper = none ∨
      replacement.isSome = true ∧ view id root upper = some (.leaf .null) := by
  refine ⟨fun h ↦ @view_of_passes _ id _ _ _ h, fun h ↦ ?_⟩
  rcases h with hbranch | hnone | ⟨hsome, hnull⟩
  · exact passes_of_view (.inl hbranch)
  · exact passes_of_view (.inr hnone)
  · refine .inr (.inr ⟨hsome, ?_⟩)
    rw [view] at hnull
    obtain ⟨value, hvalue, hnode⟩ := Option.map_eq_some_iff.mp hnull
    rw [hvalue]
    rcases value <;> first | rfl | cases hnode

theorem bare_iff {root : Json5Value} {path : List String} :
    (Json.valueAt (semantic root) path).any isEmptyObject = true ↔
      (view (id : Json5Value → Json5Value) root).Bare path := by
  rw [← Json.bare_iff, ← view_semantic, PathTree.Bare, PathTree.Bare, view_eq_branch_iff]
  simp only [view_eq_none_iff]

/-- JSON5 objects. -/
def editor : TreeEditor Json5Value Json5Value String String Json5Value where
  put root edit := setValue edit.2 edit.1 root
  bare root path := (Json.valueAt (semantic root) path).any isEmptyObject
  tree := view id
  treeOf := view id
  good root := Distinct root ∧ ∃ pairs, root = .object pairs
  fine := Distinct
  valid segments := segments ≠ []
  soft := .null
  rooted := rooted_view
  bare_iff := bare_iff
  exists_put_iff := by
    rintro root ⟨segments, value⟩ hroot hne -
    rw [exists_setValue_iff hroot.1 hne]
    simp only [passes_iff]
  tree_put := by
    rintro root ⟨segments, value⟩ next hroot hfine h
    have hobject : ∃ pairs, next = .object pairs := by
      rcases segments with - | ⟨segment, remaining⟩
      · nomatch h
      · obtain ⟨-, pairs, -, rfl, -⟩ := stepped_of_setValue hroot.1 h
        exact ⟨pairs, rfl⟩
    refine ⟨⟨distinct_setValue hroot.1 hfine h, hobject⟩, ?_⟩
    rcases value with - | value
    · exact view_setValue_none hroot.1 h
    · exact view_setValue_some hroot.1 h

theorem editor_put (root : Json5Value) (edit : List String × Option Json5Value) :
    editor.put root edit = setValue edit.2 edit.1 root :=
  rfl

theorem valueAt_eq {root : Json5Value} (h : Distinct root) (path : List String) :
    valueAt path root = .ok (find root path) := by
  induction path generalizing root with
  | nil => rw [valueAt, find_nil]
  | cons segment path ih =>
    by_cases hroot : ∃ pairs, root = .object pairs
    · obtain ⟨pairs, rfl⟩ := hroot
      rw [valueAt, property_eq (distinct_object h).1, find_object_cons]
      rcases hchild : pairs.lookup segment with - | child
      · rfl
      · exact ih (distinct_of_lookup h hchild)
    · rcases root <;> first | rfl | exact absurd ⟨_, rfl⟩ hroot

/-- The edits that put the owned paths back. -/
def ownedEdits (baseline : Json5Value) (ownedPaths : List ConfigPath) :
    List (List String × Option Json5Value) :=
  ownedPaths.map fun path ↦ (path.segments, find baseline path.segments)

theorem restoreOwned_eq {baseline : Json5Value} (hbaseline : Distinct baseline)
    (root : Json5Value) (ownedPaths : List ConfigPath) :
    restoreOwned baseline root ownedPaths =
      applyAll editor.put root (ownedEdits baseline ownedPaths) := by
  rw [ownedEdits]
  induction ownedPaths generalizing root with
  | nil => rfl
  | cons path paths ih =>
    rw [restoreOwned, valueAt_eq hbaseline, List.map_cons, applyAll, editor_put]
    dsimp only
    rcases setValue (find baseline path.segments) path.segments root with error | next
    · rfl
    · exact ih next

/-- An edit with the value as it is written into a JSON5 document. -/
def ofJson (edit : List String × Option JsonValue) : List String × Option Json5Value :=
  (edit.1, edit.2.map fromSerde)

/-- The operations of a restoration are edits. -/
theorem applyOperation_putOperation (root : Json5Value)
    (edit : List String × Option JsonValue) :
    applyOperation root (putOperation edit) = editor.put root (ofJson edit) := by
  obtain ⟨segments, value⟩ := edit
  rcases value with - | value <;> rfl

theorem collapseEmptyAncestors_eq {baseline : JsonValue} {operations : List PatchOperation}
    (h : ∀ operation ∈ operations,
      ancestorRestoration baseline operation.path = some operation) (root : Json5Value) :
    collapseEmptyAncestors root operations =
      editor.applyBare root ((operations.map restoreEdit).map ofJson) := by
  induction operations generalizing root with
  | nil => rfl
  | cons operation operations ih =>
    obtain ⟨hhere, hrest⟩ := List.forall_mem_cons.mp h
    rw [collapseEmptyAncestors, List.map_cons, List.map_cons]
    by_cases hbare : editor.bare root (ofJson (restoreEdit operation)).1 = true
    · rw [TreeEditor.applyBare_cons_of_bare hbare, ← applyOperation_putOperation,
        putOperation_restoreEdit hhere]
      refine (if_pos hbare).trans ?_
      rcases applyOperation root operation with error | next
      · rfl
      · exact ih hrest next
    · rw [TreeEditor.applyBare_cons_of_not_bare hbare]
      exact (if_neg hbare).trans (ih hrest root)

theorem semanticValueAt_of_object {root : Json5Value} (hroot : ∃ pairs, root = .object pairs)
    (path : ConfigPath) :
    semanticValueAt (semantic root) path = Json.valueAt (semantic root) path.segments := by
  obtain ⟨pairs, rfl⟩ := hroot
  exact semanticValueAt_of_branch rfl path

/-- One step of the last pass, given what the steps after it do. -/
theorem applyBare_nullStep {baseline : JsonValue} {nullAncestors ancestors : List ConfigPath}
    {root : Json5Value} (hroot : editor.good root)
    (hrest : ∀ {root}, editor.good root → restoreNullFrom baseline nullAncestors root ancestors =
      editor.applyBare root ((ancestors.filterMap (nullEdit baseline nullAncestors)).map ofJson))
    {ancestor : ConfigPath} (edit : List String × Option JsonValue)
    (hpath : edit.1 = ancestor.segments) (hnull : ∀ value ∈ edit.2, value = .null) :
    (if (semanticValueAt (semantic root) ancestor).any isEmptyObject = true then
        match applyOperation root (putOperation edit) with
        | .error error => .error error
        | .ok root => restoreNullFrom baseline nullAncestors root ancestors
      else restoreNullFrom baseline nullAncestors root ancestors) =
    editor.applyBare root
      ((edit :: ancestors.filterMap (nullEdit baseline nullAncestors)).map ofJson) := by
  have hfine : ∀ value ∈ (ofJson edit).2, editor.fine value := by
    intro value hvalue
    obtain ⟨old, hold, rfl⟩ := Option.map_eq_some_iff.mp hvalue
    rw [hnull old hold]
    exact .null
  rw [semanticValueAt_of_object hroot.2, ← hpath, List.map_cons]
  by_cases hbare : editor.bare root (ofJson edit).1 = true
  · rw [TreeEditor.applyBare_cons_of_bare hbare, ← applyOperation_putOperation]
    refine (if_pos hbare).trans ?_
    rcases hnext : applyOperation root (putOperation edit) with error | next
    · rfl
    · rw [applyOperation_putOperation] at hnext
      exact hrest (editor.tree_put hroot hfine hnext).1
  · rw [TreeEditor.applyBare_cons_of_not_bare hbare]
    exact (if_neg hbare).trans (hrest hroot)

theorem restoreNullFrom_eq_applyBare {baseline : JsonValue} {nullAncestors : List ConfigPath}
    {root : Json5Value} (hroot : editor.good root) (ancestors : List ConfigPath) :
    restoreNullFrom baseline nullAncestors root ancestors =
      editor.applyBare root
        ((ancestors.filterMap (nullEdit baseline nullAncestors)).map ofJson) := by
  induction ancestors generalizing root with
  | nil => rfl
  | cons ancestor ancestors ih =>
    rw [restoreNullFrom]
    by_cases hunder : (nullAncestors.any fun null ↦
        null.segments.isPrefixOf ancestor.segments) = true
    · rw [if_pos hunder]
      rcases hvalue : semanticValueAt baseline ancestor with - | value
      · have hedit : nullEdit baseline nullAncestors ancestor =
            some (ancestor.segments, none) := by
          rw [nullEdit, if_pos hunder, hvalue]
        rw [List.filterMap_cons_some hedit]
        exact applyBare_nullStep hroot ih (ancestor.segments, none) rfl
          fun _ ↦ (Option.not_mem_none _).elim
      · by_cases hisNull : value = .null
        · subst hisNull
          have hedit : nullEdit baseline nullAncestors ancestor =
              some (ancestor.segments, some .null) := by
            rw [nullEdit, if_pos hunder, hvalue]
          rw [List.filterMap_cons_some hedit]
          exact applyBare_nullStep hroot ih (ancestor.segments, some .null) rfl
            fun _ h ↦ (Option.some.inj h).symm
        · have hedit : nullEdit baseline nullAncestors ancestor = none := by
            rw [nullEdit, if_pos hunder, hvalue]
            rcases value <;> first | rfl | exact absurd rfl hisNull
          rw [List.filterMap_cons_none hedit, ← ih hroot]
          rcases value <;> first | exact ite_self _ | exact absurd rfl hisNull
    · have hedit : nullEdit baseline nullAncestors ancestor = none := by
        rw [nullEdit, if_neg hunder]
      rw [if_neg hunder, List.filterMap_cons_none hedit, ih hroot]

/-- The edits that give empty ancestors back: a text with comments is spared the last pass. -/
def restoreEdits (commented : Bool) (baseline : Json5Value) (ownedPaths : List ConfigPath) :
    List (List String × Option Json5Value) :=
  (collapseEdits (semantic baseline) ownedPaths).map ofJson ++
    if commented then [] else (nullEdits (semantic baseline) ownedPaths).map ofJson

/-- Every such edit is one of those on JSON. -/
theorem mem_restoreEdits {commented : Bool} {baseline : Json5Value}
    {ownedPaths : List ConfigPath} {edit : List String × Option Json5Value}
    (h : edit ∈ restoreEdits commented baseline ownedPaths) :
    ∃ source ∈ Json.restoreEdits (semantic baseline) ownedPaths, edit = ofJson source := by
  rcases List.mem_append.mp h with hmem | hmem
  · obtain ⟨source, hsource, rfl⟩ := List.mem_map.mp hmem
    exact ⟨source, List.mem_append_left _ hsource, rfl⟩
  · split at hmem
    · nomatch hmem
    · obtain ⟨source, hsource, rfl⟩ := List.mem_map.mp hmem
      exact ⟨source, List.mem_append_right _ hsource, rfl⟩

theorem fine_restoreEdits {commented : Bool} {baseline : Json5Value}
    (hbaseline : editor.good baseline) {ownedPaths : List ConfigPath}
    {edit : List String × Option Json5Value}
    (h : edit ∈ restoreEdits commented baseline ownedPaths) :
    ∀ value ∈ edit.2, editor.fine value := by
  obtain ⟨source, hsource, rfl⟩ := mem_restoreEdits h
  obtain ⟨pairs, rfl⟩ := hbaseline.2
  intro value hvalue
  obtain ⟨old, hold, rfl⟩ := Option.map_eq_some_iff.mp hvalue
  obtain ⟨-, -, ⟨hnone, -⟩ | ⟨hnull, -⟩⟩ := Json.mem_restoreEdits rfl hsource
  · rw [hnone] at hold
    nomatch hold
  · rw [hnull] at hold
    rw [← Option.some.inj hold]
    exact .null

theorem distinct_find {root value : Json5Value} {path : List String} (hroot : Distinct root)
    (h : find root path = some value) : Distinct value := by
  induction path generalizing root with
  | nil =>
    rw [find_nil] at h
    rwa [← Option.some.inj h]
  | cons segment path ih =>
    by_cases hobject : ∃ pairs, root = .object pairs
    · obtain ⟨pairs, rfl⟩ := hobject
      rw [find_object_cons] at h
      obtain ⟨child, hchild, hvalue⟩ := Option.bind_eq_some_iff.mp h
      exact ih (distinct_of_lookup hroot hchild) hvalue
    · rcases root <;> first | exact absurd ⟨_, rfl⟩ hobject | nomatch h

/-- **The passes of a projection** are those of the editor. -/
theorem projectOwnedPaths_eq {commented : Bool} {current baseline : Json5Value}
    (hcurrent : editor.good current) (hbaseline : editor.good baseline)
    (ownedPaths : List ConfigPath) :
    projectOwnedPaths commented current baseline ownedPaths =
      editor.project current (ownedEdits baseline ownedPaths)
        (restoreEdits commented baseline ownedPaths) := by
  have hfine : ∀ edit ∈ ownedEdits baseline ownedPaths, ∀ value ∈ edit.2, editor.fine value := by
    intro edit hedit value hvalue
    obtain ⟨path, -, rfl⟩ := List.mem_map.mp hedit
    exact distinct_find hbaseline.1 hvalue
  rw [projectOwnedPaths, TreeEditor.project, restoreOwned_eq hbaseline.1]
  rcases hrestore : applyAll editor.put current (ownedEdits baseline ownedPaths) with
    error | middle
  · rfl
  · have hmiddle := TreeEditor.good_applyAll hcurrent hfine hrestore
    dsimp only
    rw [restoreEdits, TreeEditor.applyBare_append, collapseEdits,
      collapseEmptyAncestors_eq fun operation hmem ↦ (mem_restorations hmem).2.2]
    rcases hcollapse : editor.applyBare middle
        (((materializedAncestorRestorations (semantic baseline) ownedPaths).map restoreEdit).map
          ofJson) with error | collapsed
    · rfl
    · have hcollapsed : editor.good collapsed := by
        refine TreeEditor.good_applyBare hmiddle (fun edit hedit ↦ ?_) hcollapse
        exact @fine_restoreEdits commented _ hbaseline _ _ (List.mem_append_left _ hedit)
      dsimp only
      rw [restoreNullOwnedAncestors]
      rcases commented
      · exact restoreNullFrom_eq_applyBare hcollapsed _
      · rfl

end Json5

end TokenStation
