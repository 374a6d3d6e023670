import TokenStation.AgentIntegration.ClearedParents
import TokenStation.AgentIntegration.Drift
import TokenStation.AgentIntegration.PlainCodec
import TokenStation.Library.Outcome

/-!
# What a report leaves out, and what it lists too much

The report compares everything outside of the owned paths with the baseline, ancestors of owned
paths included. A disconnect gives some of these ancestors back by itself: those that a connection
made, and those that its own writes make. So the report lists containers as changes of the operator
that a disconnect would take back, and it is silent where the disconnect is refused.
-/

namespace TokenStation

open Library Json

namespace Json

/-! ## Which documents are given back -/

/-- The baseline has a value at an owned path below. -/
def WrittenBelow (baseline : PathTree String JsonValue) (ownedPaths : List ConfigPath)
    (path : List String) : Prop :=
  ∃ owned ∈ ownedPaths, Below path owned.segments ∧ baseline owned.segments ≠ none

/-- An ancestor of owned paths that a disconnect brings to what it is in the baseline: an object
stays or is collapsed, a missing one stays or is made by a write, and null is filled by a write. -/
inductive Mends (baseline current : PathTree String JsonValue) (ownedPaths : List ConfigPath)
    (path : List String) : Prop where
  | stays (hcurrent : current path = some .branch) (hbaseline : baseline path = some .branch)
  | collapses (hcurrent : current path = some .branch) (hpath : path ≠ [])
      (hbaseline : Lacks baseline path)
  | missing (hcurrent : current path = none) (hbaseline : baseline path = none)
  | made (hcurrent : Lacks current path) (hbaseline : baseline path = some .branch)
      (hwritten : WrittenBelow baseline ownedPaths path)

theorem Mends.congr {baseline current current' : PathTree String JsonValue}
    {ownedPaths : List ConfigPath} {path : List String}
    (h : Mends baseline current ownedPaths path) (hsame : current path = current' path) :
    Mends baseline current' ownedPaths path := by
  rcases h with ⟨hbranch, hbase⟩ | ⟨hbranch, hpath, hlacks⟩ | ⟨hnone, hbase⟩ |
    ⟨hlacks, hbase, hwritten⟩
  · exact .stays (hsame ▸ hbranch) hbase
  · exact .collapses (hsame ▸ hbranch) hpath hlacks
  · exact .missing (hsame ▸ hnone) hbase
  · rw [Lacks, hsame] at hlacks
    exact .made hlacks hbase hwritten

/-- The documents agree away from the owned paths and their ancestors, and a disconnect brings the
ancestors to what they are in the baseline. -/
structure Restorable (baseline current : JsonValue) (ownedPaths : List ConfigPath) : Prop where
  beside : ∀ path, ¬ Inside ownedPaths path → ¬ Above ownedPaths path →
    view current path = view baseline path
  above : ∀ path, Above ownedPaths path → Mends (view baseline) (view current) ownedPaths path
  filled : (ConfigDocument.json current).NullsFilled (.json baseline) ownedPaths

theorem WrittenBelow.branch {baseline : JsonValue} {ownedPaths : List ConfigPath}
    {path : List String} (h : WrittenBelow (view baseline) ownedPaths path) :
    view baseline path = some .branch := by
  obtain ⟨owned, -, hbelow, hsome⟩ := h
  exact rooted_view baseline path owned.segments hbelow hsome

theorem WrittenBelow.above {baseline : PathTree String JsonValue} {ownedPaths : List ConfigPath}
    {path : List String} (h : WrittenBelow baseline ownedPaths path) : Above ownedPaths path := by
  obtain ⟨owned, howned, hbelow, -⟩ := h
  exact ⟨owned, howned, hbelow⟩

theorem view_eq_none_iff {root : JsonValue} {path : List String} :
    view root path = none ↔ valueAt root path = none := by
  rw [view, Option.map_eq_none_iff]

theorem mem_ownedEdits {baseline : JsonValue} {ownedPaths : List ConfigPath}
    {edit : List String × Option JsonValue} (h : edit ∈ ownedEdits baseline ownedPaths) :
    ∃ owned ∈ ownedPaths, edit = (owned.segments, valueAt baseline owned.segments) := by
  obtain ⟨owned, howned, rfl⟩ := List.mem_map.mp h
  exact ⟨owned, howned, rfl⟩

theorem isSome_valueAt_iff {root : JsonValue} {path : List String} :
    (valueAt root path).isSome = true ↔ view root path ≠ none := by
  rw [Option.isSome_iff_ne_none, Ne, Ne, view_eq_none_iff]

theorem unblocked_ownedEdits_iff {baseline current : JsonValue} {ownedPaths : List ConfigPath} :
    editor.Unblocked (view current) (ownedEdits baseline ownedPaths) ↔
      (ConfigDocument.json current).NullsFilled (.json baseline) ownedPaths :=
  unblocked_iff_nullsFilled (fun _ ↦ view_eq_null_iff) (fun _ ↦ Iff.rfl) ownedPaths

section Objects

variable {baseline current middle : JsonValue} {ownedPaths : List ConfigPath}

/-- What the first pass leaves: the owned paths as in the baseline, objects above the writes. -/
structure FirstPass (baseline current middle : JsonValue) (ownedPaths : List ConfigPath) :
    Prop where
  object : node middle = .branch
  inside : ∀ path, Inside ownedPaths path → view middle path = view baseline path
  written : ∀ path, WrittenBelow (view baseline) ownedPaths path → view middle path = some .branch
  kept : ∀ path, ¬ Inside ownedPaths path → ¬ WrittenBelow (view baseline) ownedPaths path →
    view middle path = view current path

theorem firstPass_of_applyPatch (hbaseline : node baseline = .branch)
    (hcurrent : node current = .branch) (hpaths : Declared ownedPaths)
    (h : applyPatch current (ownedPaths.map (ownedRestoration baseline)) = .ok middle) :
    FirstPass baseline current middle ownedPaths := by
  rw [applyPatch_ownedRestoration hbaseline] at h
  obtain ⟨hobject, hinside, houtside⟩ := TreeEditor.tree_applyAll hcurrent
    (separate_map hpaths.apart _) (fun _ _ _ _ ↦ trivial) h
  have hin (path : List String) (hpath : Inside ownedPaths path) :
      view middle path = view baseline path := by
    obtain ⟨owned, howned, lower, rfl⟩ := hpath
    have hwritten := hinside _ (List.mem_map_of_mem howned) lower
    refine hwritten.trans ?_
    rw [TreeEditor.written]
    rcases hvalue : valueAt baseline owned.segments with - | value
    · exact (view_eq_none_of_append hvalue lower).symm
    · exact (view_append hvalue lower).symm
  refine ⟨hobject, hin, fun path hwritten ↦ ?_, fun path hpath hnot ↦ ?_⟩
  · obtain ⟨owned, howned, hbelow, hsome⟩ := hwritten
    refine rooted_view middle path owned.segments hbelow ?_
    rwa [hin _ ⟨owned, howned, List.prefix_refl _⟩]
  · refine (houtside path (not_inside_map hpath)).resolve_right ?_
    rintro ⟨⟨edit, hedit, hsome, hbelow⟩, -⟩
    obtain ⟨owned, howned, rfl⟩ := mem_ownedEdits hedit
    exact hnot ⟨owned, howned, hbelow, isSome_valueAt_iff.mp hsome⟩

/-- A document that is given back could be. -/
theorem restorable_of_project (hbaseline : node baseline = .branch)
    (hcurrent : node current = .branch) (hpaths : Declared ownedPaths)
    (h : projectOwnedPaths current baseline ownedPaths = .ok baseline) :
    Restorable baseline current ownedPaths := by
  obtain ⟨middle, made, hrestore, hmade, hview, -⟩ := view_of_collapse hbaseline
    (fun middle hrestore ↦
      (firstPass_of_applyPatch hbaseline hcurrent hpaths hrestore).object) h
  have hfirst := firstPass_of_applyPatch hbaseline hcurrent hpaths hrestore
  rw [applyPatch_ownedRestoration hbaseline] at hrestore
  have hvalid : ∀ edit ∈ ownedEdits baseline ownedPaths,
      editor.valid edit.1 ∧ ∀ value ∈ edit.2, editor.fine value :=
    List.forall_mem_map.mpr fun path hpath ↦ ⟨hpaths.valid path hpath, fun _ _ ↦ trivial⟩
  have hpass : editor.Passable (view current) (ownedEdits baseline ownedPaths) :=
    TreeEditor.passable_of_applyAll hcurrent (separate_map hpaths.apart _) hvalid hrestore
  have hfilled : (ConfigDocument.json current).NullsFilled (.json baseline) ownedPaths :=
    unblocked_ownedEdits_iff.mp ((TreeEditor.exists_applyAll_iff hcurrent
      (separate_map hpaths.apart _) hvalid hpass).mp ⟨middle, hrestore⟩)
  refine ⟨fun path hpath hnot ↦ ?_, fun path habove ↦ ?_, hfilled⟩
  · have hsame := hview path
    rw [if_neg fun hboth ↦ hnot ((hmade path).mp hboth.1).1,
      hfirst.kept path hpath fun hwritten ↦ hnot hwritten.above] at hsame
    exact hsame.symm
  · have hout := not_inside_of_above hpaths.apart habove
    have hfound : view current path = some .branch ∨ view current path = none ∨
        view current path = some (.leaf .null) := by
      obtain ⟨owned, howned, hbelow⟩ := habove
      exact hpass _ (List.mem_map_of_mem howned) path hbelow
    by_cases hwritten : WrittenBelow (view baseline) ownedPaths path
    · rcases hfound with hbranch | hlacks
      · exact .stays hbranch hwritten.branch
      · exact .made hlacks hwritten.branch hwritten
    · have hkept := hfirst.kept path hout hwritten
      have hsame := hview path
      by_cases hback : path ∈ made ∧ (view middle).Emptied made path
      · -- the ancestor was an object with nothing but made ancestors in it
        have hin := (hmade path).mp hback.1
        exact .collapses (hkept.symm.trans hback.2.1) (Made.ne_nil hbaseline hin)
          (lacks_of_state hin.2)
      · rw [if_neg hback, hkept] at hsame
        rcases hfound with hbranch | hnone | hnull
        · exact .stays hbranch (hsame.trans hbranch)
        · exact .missing hnone (hsame.trans hnone)
        · -- null would have blocked the removal of the owned path below it
          obtain ⟨owned, howned, hbelow⟩ := habove
          obtain ⟨before, after, rfl⟩ := List.append_of_mem howned
          have hlacks := view_below_lacks (.inr (hsame.trans hnull)) hbelow
          obtain ⟨earlier, hearlier, hhas, hbelow'⟩ := hfilled before owned after rfl
            (view_eq_none_iff.mp hlacks) path hbelow (view_eq_null_iff.mp hnull)
          exact absurd ⟨earlier, List.mem_append_left _ hearlier, hbelow',
            mt view_eq_none_iff.mp hhas⟩ hwritten

theorem passable_of_restorable (h : Restorable baseline current ownedPaths) :
    editor.Passable (view current) (ownedEdits baseline ownedPaths) := by
  intro edit hedit upper hupper
  obtain ⟨owned, howned, rfl⟩ := mem_ownedEdits hedit
  rcases h.above upper ⟨owned, howned, hupper⟩ with ⟨hbranch, -⟩ | ⟨hbranch, -, -⟩ | ⟨hnone, -⟩ |
    ⟨hlacks, -, -⟩
  · exact .inl hbranch
  · exact .inl hbranch
  · exact .inr (.inl hnone)
  · exact .inr hlacks

/-- No value of the baseline stands in the way of an ancestor that it lacks. -/
theorem Restorable.made (h : Restorable baseline current ownedPaths) {path : List String}
    (habove : Above ownedPaths path) (hlacks : Lacks (view baseline) path) :
    Made baseline ownedPaths path := by
  refine ⟨habove, state_of_lacks hlacks fun upper hupper value hvalue hne ↦ ?_⟩
  have hview : view baseline upper = some (node value) := by
    rw [view, hvalue]
    rfl
  obtain ⟨owned, howned, hbelow⟩ := habove
  rcases h.above upper ⟨owned, howned, hupper.trans hbelow⟩ with ⟨-, hbase⟩ |
    ⟨-, -, hnone | hnull⟩ | ⟨-, hnone⟩ | ⟨-, hbase, -⟩
  · exact Option.some.inj (hview.symm.trans hbase)
  · rw [hview] at hnone
    cases hnone
  · exact absurd (node_eq_null (Option.some.inj (hview.symm.trans hnull))) hne
  · rw [hview] at hnone
    cases hnone
  · exact Option.some.inj (hview.symm.trans hbase)

/-- Below an ancestor that the baseline lacks, the first pass leaves made ancestors alone. -/
theorem emptied_of_restorable {made : List (List String)}
    (h : Restorable baseline current ownedPaths)
    (hfirst : FirstPass baseline current middle ownedPaths)
    (hmade : ∀ p, p ∈ made ↔ Made baseline ownedPaths p) {path : List String}
    (hlacks : Lacks (view baseline) path) (hbranch : view middle path = some .branch) :
    (view middle).Emptied made path := by
  refine ⟨hbranch, fun lower hbelow hsome ↦ ?_⟩
  have hnone : view baseline lower = none := view_below_lacks hlacks hbelow
  by_cases hin : Inside ownedPaths lower
  · exact absurd ((hfirst.inside lower hin).trans hnone) hsome
  · have hwritten : ¬ WrittenBelow (view baseline) ownedPaths lower := fun hwritten ↦ by
      rw [hwritten.branch] at hnone
      nomatch hnone
    have hkept := hfirst.kept lower hin hwritten
    by_cases habove : Above ownedPaths lower
    · rcases h.above lower habove with ⟨-, hbase⟩ | ⟨hcurrent, -, hlower⟩ | ⟨hcurrent, -⟩ |
        ⟨-, hbase, -⟩
      · rw [hbase] at hnone
        nomatch hnone
      · exact ⟨(hmade lower).mpr (h.made habove hlower), hkept.trans hcurrent⟩
      · exact absurd (hkept.trans hcurrent) hsome
      · rw [hbase] at hnone
        nomatch hnone
    · exact absurd (hkept.trans ((h.beside lower hin habove).trans hnone)) hsome

/-- What is not collapsed is as in the baseline after the first pass. -/
theorem view_middle_eq {made : List (List String)}
    (h : Restorable baseline current ownedPaths)
    (hfirst : FirstPass baseline current middle ownedPaths)
    (hmade : ∀ p, p ∈ made ↔ Made baseline ownedPaths p) {path : List String}
    (hnot : ¬ (path ∈ made ∧ (view middle).Emptied made path)) :
    view middle path = view baseline path := by
  by_cases hin : Inside ownedPaths path
  · exact hfirst.inside path hin
  · by_cases hwritten : WrittenBelow (view baseline) ownedPaths path
    · rw [hfirst.written path hwritten, hwritten.branch]
    · have hkept := hfirst.kept path hin hwritten
      by_cases habove : Above ownedPaths path
      · rcases h.above path habove with ⟨hcurrent, hbase⟩ | ⟨hcurrent, hpath, hlacks⟩ |
          ⟨hcurrent, hbase⟩ | ⟨-, -, hbelow⟩
        · rw [hkept, hcurrent, hbase]
        · exact absurd ⟨(hmade path).mpr (h.made habove hlacks),
            emptied_of_restorable h hfirst hmade hlacks (hkept.trans hcurrent)⟩ hnot
        · rw [hkept, hcurrent, hbase]
        · exact absurd hbelow hwritten
      · exact hkept.trans (h.beside path hin habove)

/-- **An object is given back just when it can be.** -/
theorem project_eq_iff_of_object (hbaseline : node baseline = .branch)
    (hcurrent : node current = .branch) (horder : Ordered baseline) (horder' : Ordered current)
    (hpaths : Declared ownedPaths) :
    projectOwnedPaths current baseline ownedPaths = .ok baseline ↔
      Restorable baseline current ownedPaths := by
  refine ⟨restorable_of_project hbaseline hcurrent hpaths, fun h ↦ ?_⟩
  obtain ⟨next, hnext, -⟩ := (exists_putBack_iff hcurrent hbaseline hpaths
    (passable_of_restorable h)).mpr (unblocked_ownedEdits_iff.mpr h.filled)
  obtain ⟨middle, made, hrestore, hmade, hview, hordered⟩ := view_of_collapse hbaseline
    (fun middle hrestore ↦
      (firstPass_of_applyPatch hbaseline hcurrent hpaths hrestore).object) hnext
  have hfirst := firstPass_of_applyPatch hbaseline hcurrent hpaths hrestore
  have hsame : next = baseline := by
    refine eq_of_view (hordered (ordered_restoreOwned hbaseline horder horder' hrestore)) horder
      (funext fun path ↦ ?_)
    rw [hview]
    split
    next => rfl
    next hnot => exact view_middle_eq h hfirst hmade hnot
  rw [hnext, hsame]

end Objects

/-! ## Other roots -/

section Roots

variable {baseline current restored : JsonValue} {ownedPaths : List ConfigPath}

section Keeps

variable {P : JsonValue → Prop} {root root' : JsonValue}
  (hstep : ∀ {root operation root'}, P root → applyOperation root operation = .ok root' → P root')

include hstep

theorem applyPatch_keeps {operations : List PatchOperation} (hroot : P root)
    (h : applyPatch root operations = .ok root') : P root' := by
  induction operations generalizing root with
  | nil => rwa [← Except.ok.inj h]
  | cons operation operations ih =>
    obtain ⟨next, hnext, hrest⟩ := except_bind_eq_ok.mp h
    exact ih (hstep hroot hnext) hrest

theorem collapseEmptyAncestors_keeps {operations : List PatchOperation} (hroot : P root)
    (h : collapseEmptyAncestors root operations = .ok root') : P root' := by
  induction operations generalizing root with
  | nil => rwa [← Except.ok.inj h]
  | cons operation operations ih =>
    rw [collapseEmptyAncestors] at h
    split at h
    · obtain ⟨next, hnext, hrest⟩ := except_bind_eq_ok.mp h
      exact ih (hstep hroot hnext) hrest
    · exact ih hroot h

theorem restoreNullFrom_keeps {nullAncestors ancestors : List ConfigPath} (hroot : P root)
    (h : restoreNullFrom baseline nullAncestors root ancestors = .ok root') : P root' := by
  induction ancestors generalizing root with
  | nil => rwa [← Except.ok.inj h]
  | cons ancestor ancestors ih =>
    rw [restoreNullFrom] at h
    split at h
    · split at h
      · split at h
        · obtain ⟨next, hnext, hrest⟩ := except_bind_eq_ok.mp h
          exact ih (hstep hroot hnext) hrest
        · obtain ⟨next, hnext, hrest⟩ := except_bind_eq_ok.mp h
          exact ih (hstep hroot hnext) hrest
        · exact ih hroot h
      · exact ih hroot h
    · exact ih hroot h

/-- What every operation keeps, the passes after the first keep. -/
theorem laterPasses_keep (hroot : P root)
    (h : (collapseEmptyAncestors root (materializedAncestorRestorations baseline ownedPaths) >>=
      fun current ↦ restoreNullOwnedAncestors current baseline ownedPaths) = .ok root') :
    P root' := by
  obtain ⟨next, hnext, hrest⟩ := except_bind_eq_ok.mp h
  exact restoreNullFrom_keeps hstep (collapseEmptyAncestors_keeps hstep hroot hnext) hrest

end Keeps

theorem node_of_writeAt {path : ConfigPath} {written : Option JsonValue} {last : String}
    {parents : List String} {root root' : JsonValue}
    (h : writeAt path written last parents root = .ok root') : node root' = .branch := by
  obtain ⟨value, -, hview⟩ := view_writeAt h
  have hnil := congrFun hview []
  have hbelow : Below [] (parents ++ [last]) :=
    ⟨List.nil_prefix, List.append_ne_nil_of_right_ne_nil _ (List.cons_ne_nil _ _)⟩
  rw [view_nil, PathTree.graft_above hbelow] at hnil
  exact Option.some.inj hnil

theorem object_or_null_of_writeAt {path : ConfigPath} {written : Option JsonValue} {last : String}
    {parents : List String} {root root' : JsonValue}
    (h : writeAt path written last parents root = .ok root') :
    node root = .branch ∨ root = .null := by
  rcases root_of_writeAt h with hbranch | hnone | hnull
  · exact .inl (Option.some.inj ((view_nil root).symm.trans hbranch))
  · rw [view_nil] at hnone
    nomatch hnone
  · exact .inr (node_eq_null (Option.some.inj ((view_nil root).symm.trans hnull)))

theorem node_of_removeAt {path : ConfigPath} {last : String} {parents : List String}
    {root root' : JsonValue} (h : removeAt path last parents root = .ok root') :
    node root = .branch ∧ node root' = .branch := by
  have hroot : node root = .branch := by
    by_contra hnot
    rw [removeAt_of_not_branch hnot] at h
    nomatch h
  refine ⟨hroot, node_of_view_nil ?_ hroot⟩
  rw [view_removeAt h]
  exact PathTree.prune_beside fun hle ↦ List.append_ne_nil_of_right_ne_nil _
    (List.cons_ne_nil _ _) (List.prefix_nil.mp hle)

/-- An operation on what is not an array leaves an object, or what it has found. -/
theorem root_of_applyOperation {root root' : JsonValue} {operation : PatchOperation}
    (hroot : ¬ isArray root = true) (h : applyOperation root operation = .ok root') :
    node root' = .branch ∨ root' = root := by
  rw [applyOperation, if_neg fun hor ↦ hroot hor.1, if_neg fun hor ↦ hroot hor.1] at h
  obtain ⟨⟨last, parents⟩, -, h⟩ := except_bind_eq_ok.mp h
  dsimp only at h
  split at h
  · exact .inl (node_of_writeAt h)
  · exact .inl (node_of_writeAt h)
  · exact .inl (node_of_removeAt h).2
  · obtain ⟨-, -, h⟩ := except_bind_eq_ok.mp h
    exact .inr (Except.ok.inj h).symm

theorem not_isArray_of_node {root : JsonValue} (h : node root = .branch) :
    ¬ isArray root = true := by
  obtain ⟨members, rfl⟩ := node_eq_branch.mp h
  exact fun harray ↦ nomatch harray

theorem node_applyOperation {root root' : JsonValue} {operation : PatchOperation}
    (hroot : node root = .branch) (h : applyOperation root operation = .ok root') :
    node root' = .branch := by
  rcases root_of_applyOperation (not_isArray_of_node hroot) h with hnode | rfl
  · exact hnode
  · exact hroot

/-- An operation on an array leaves an array. -/
theorem isArray_applyOperation {root root' : JsonValue} {operation : PatchOperation}
    (hroot : isArray root = true) (h : applyOperation root operation = .ok root') :
    isArray root' = true := by
  have hnode : node root ≠ .branch := fun hbranch ↦ not_isArray_of_node hbranch hroot
  have hnull : root ≠ .null := by
    rintro rfl
    cases hroot
  rw [applyOperation] at h
  split at h
  · rw [applyModels] at h
    split at h
    · split at h
      · cases h
      · split at h
        next harray => rwa [← Except.ok.inj h]
        next => cases h
    · split at h
      · cases h
      · split at h
        next harray => rwa [← Except.ok.inj h]
        next => cases h
    · rw [← Except.ok.inj h]
      rfl
    · split at h
      · rwa [← Except.ok.inj h]
      · cases h
  · split at h
    · rwa [← Except.ok.inj h]
    · obtain ⟨⟨last, parents⟩, -, h⟩ := except_bind_eq_ok.mp h
      have hwrite {written : Option JsonValue} :
          ¬ writeAt operation.path written last parents root = .ok root' := by
        exact fun hwrite ↦ (object_or_null_of_writeAt hwrite).elim hnode hnull
      dsimp only at h
      split at h
      · exact absurd h hwrite
      · exact absurd h hwrite
      · exact absurd (node_of_removeAt h).1 hnode
      · obtain ⟨-, -, h⟩ := except_bind_eq_ok.mp h
        rwa [← Except.ok.inj h]

/-- The operation that puts a path back is accepted by an object, and by null where the baseline has
a value. -/
theorem root_of_ownedRestoration {path : ConfigPath} (hcurrent : ¬ isArray current = true)
    {next : JsonValue} (h : applyOperation current (ownedRestoration baseline path) = .ok next) :
    node next = .branch ∧
      (node current = .branch ∨ current = .null ∧ semanticValueAt baseline path ≠ none) := by
  rw [applyOperation, if_neg fun hor ↦ hcurrent hor.1, if_neg fun hor ↦ hcurrent hor.1] at h
  obtain ⟨⟨last, parents⟩, -, h⟩ := except_bind_eq_ok.mp h
  rw [ownedRestoration] at h
  rcases hvalue : semanticValueAt baseline path with - | value
  · rw [hvalue] at h
    obtain ⟨hnode, hnext⟩ := node_of_removeAt h
    exact ⟨hnext, .inl hnode⟩
  · rw [hvalue] at h
    exact ⟨node_of_writeAt h, (object_or_null_of_writeAt h).imp_right fun hnull ↦
      ⟨hnull, Option.some_ne_none _⟩⟩

/-- A disconnect of an array leaves an array. -/
theorem isArray_projectOwnedPaths (hcurrent : isArray current = true)
    (h : projectOwnedPaths current baseline ownedPaths = .ok restored) :
    isArray restored = true := by
  obtain ⟨middle, hmiddle, hrest⟩ := except_bind_eq_ok.mp h
  exact laterPasses_keep isArray_applyOperation
    (applyPatch_keeps isArray_applyOperation hcurrent hmiddle) hrest

/-- Another disconnect leaves an object, and starts from one or from null. -/
theorem root_of_project {owned : ConfigPath} (hcurrent : ¬ isArray current = true)
    (h : projectOwnedPaths current baseline (owned :: ownedPaths) = .ok restored) :
    node restored = .branch ∧
      (node current = .branch ∨ current = .null ∧ semanticValueAt baseline owned ≠ none) := by
  obtain ⟨middle, hmiddle, hrest⟩ := except_bind_eq_ok.mp h
  rw [List.map_cons] at hmiddle
  obtain ⟨next, hnext, hmiddle⟩ := except_bind_eq_ok.mp hmiddle
  obtain ⟨hnode, hroot⟩ := root_of_ownedRestoration hcurrent hnext
  exact ⟨laterPasses_keep node_applyOperation (applyPatch_keeps node_applyOperation hnode hmiddle)
    hrest, hroot⟩

theorem writeAt_null (path : ConfigPath) (written : Option JsonValue) (last : String)
    (parents : List String) :
    writeAt path written last parents .null = writeAt path written last parents (.object []) := by
  rcases parents with - | ⟨parent, parents⟩ <;> rfl

/-- A write takes null for an empty object. -/
theorem project_null {owned : ConfigPath} (h : semanticValueAt baseline owned ≠ none) :
    projectOwnedPaths .null baseline (owned :: ownedPaths) =
      projectOwnedPaths (.object []) baseline (owned :: ownedPaths) := by
  have hfirst : applyOperation .null (ownedRestoration baseline owned) =
      applyOperation (.object []) (ownedRestoration baseline owned) := by
    obtain ⟨value, hvalue⟩ := Option.ne_none_iff_exists'.mp h
    rw [ownedRestoration, hvalue, applyOperation, applyOperation,
      if_neg (by rintro ⟨⟨⟩, _⟩), if_neg (by rintro ⟨⟨⟩, _⟩),
      if_neg (by rintro ⟨⟨⟩, _⟩), if_neg (by rintro ⟨⟨⟩, _⟩)]
    simp only [writeAt_null]
  rw [projectOwnedPaths, projectOwnedPaths, List.map_cons, applyPatch, applyPatch, hfirst]

theorem view_null_eq {path : List String} (h : path ≠ []) :
    view .null path = view (.object []) path := by
  rcases path with - | ⟨segment, path⟩
  · exact absurd rfl h
  · rfl

theorem not_hasNull_empty (path : List String) :
    ¬ (ConfigDocument.json (.object [])).HasNull path := by
  intro hnull
  rcases path with - | ⟨segment, path⟩ <;> nomatch hnull

theorem eq_nil_of_hasNull {path : List String} (h : (ConfigDocument.json .null).HasNull path) :
    path = [] := by
  rcases path with - | ⟨segment, path⟩
  · rfl
  · nomatch h

theorem restorable_null_iff {owned : ConfigPath} (hpaths : Declared (owned :: ownedPaths)) :
    Restorable baseline .null (owned :: ownedPaths) ↔ valueAt baseline owned.segments ≠ none ∧
      Restorable baseline (.object []) (owned :: ownedPaths) := by
  have hne : owned.segments ≠ [] := (hpaths.valid owned List.mem_cons_self).1
  have hbelow : Below [] owned.segments := ⟨List.nil_prefix, hne⟩
  have ne_of_not_above {path : List String} (hnot : ¬ Above (owned :: ownedPaths) path) :
      path ≠ [] := by
    rintro rfl
    exact hnot ⟨owned, List.mem_cons_self, hbelow⟩
  constructor
  · intro h
    have hhas : valueAt baseline owned.segments ≠ none := fun hlacks ↦ by
      obtain ⟨_, hmem, -⟩ := h.filled [] owned ownedPaths rfl hlacks [] hbelow rfl
      nomatch hmem
    refine ⟨hhas, fun path hin habove ↦ ?_, fun path habove ↦ ?_, fun _ _ _ _ _ upper _ hnull ↦ ?_⟩
    · rw [← view_null_eq (ne_of_not_above habove)]
      exact h.beside path hin habove
    · by_cases hnil : path = []
      · subst hnil
        exact .stays rfl (rooted_view baseline [] _ hbelow (mt view_eq_none_iff.mp hhas))
      · exact (h.above path habove).congr (view_null_eq hnil)
    · exact absurd hnull (not_hasNull_empty upper)
  · rintro ⟨hhas, h⟩
    have hsome : view baseline owned.segments ≠ none := mt view_eq_none_iff.mp hhas
    refine ⟨fun path hin habove ↦ ?_, fun path habove ↦ ?_, ?_⟩
    · rw [view_null_eq (ne_of_not_above habove)]
      exact h.beside path hin habove
    · by_cases hnil : path = []
      · subst hnil
        exact .made (.inr rfl) (rooted_view baseline [] _ hbelow hsome)
          ⟨owned, List.mem_cons_self, hbelow, hsome⟩
      · exact (h.above path habove).congr (view_null_eq hnil).symm
    · intro before path after hsplit hlacks upper hupper hnull
      obtain rfl := eq_nil_of_hasNull hnull
      rcases before with - | ⟨first, before⟩
      · obtain ⟨rfl, -⟩ := List.cons.inj hsplit
        exact absurd hlacks hhas
      · obtain ⟨rfl, -⟩ := List.cons.inj hsplit
        exact ⟨owned, List.mem_cons_self, hhas, hbelow⟩

/-! ## Arrays -/

/-- Nothing is owned but the lists of models that an array document stands for. -/
def ModelLists (ownedPaths : List ConfigPath) : Prop :=
  ∀ path ∈ ownedPaths, path.segments = ["models"] ∨ path.segments = ["availableModels"]

theorem semanticValueAt_array (hbaseline : isArray baseline = true) (path : ConfigPath)
    (hne : path.segments ≠ []) :
    semanticValueAt baseline path = if path.segments = ["models"] then some baseline else none := by
  rw [semanticValueAt]
  by_cases hmodels : path.segments = ["models"]
  · rw [if_pos ⟨hbaseline, hmodels⟩, if_pos hmodels]
  · rw [if_neg fun hboth ↦ hmodels hboth.2, if_neg hmodels]
    obtain ⟨segment, rest, hsegments⟩ := List.exists_cons_of_ne_nil hne
    rw [hsegments]
    exact valueAt_cons_of_not_object (fun members hmembers ↦ by
      rw [hmembers] at hbaseline
      nomatch hbaseline) segment rest

/-- One owned path is put back in an array. -/
theorem applyOperation_array {root next : JsonValue} (hroot : isArray root = true)
    (hbaseline : isArray baseline = true) {path : ConfigPath} (hne : path.segments ≠ []) :
    applyOperation root (ownedRestoration baseline path) = .ok next ↔
      path.segments = ["models"] ∧ next = baseline ∨
        path.segments = ["availableModels"] ∧ next = root := by
  rw [ownedRestoration, semanticValueAt_array hbaseline path hne]
  by_cases hmodels : path.segments = ["models"]
  · have hother : path.segments ≠ ["availableModels"] := by
      rw [hmodels]
      decide
    rw [if_pos hmodels, applyOperation, if_pos ⟨hroot, hmodels⟩, applyModels]
    dsimp only
    rw [if_pos hbaseline]
    constructor
    · intro h
      exact .inl ⟨hmodels, (Except.ok.inj h).symm⟩
    · rintro (⟨-, rfl⟩ | ⟨havailable, -⟩)
      · rfl
      · exact absurd havailable hother
  · rw [if_neg hmodels, applyOperation, if_neg fun hboth ↦ hmodels hboth.2]
    by_cases havailable : path.segments = ["availableModels"]
    · rw [if_pos ⟨hroot, havailable⟩]
      constructor
      · intro h
        exact .inr ⟨havailable, (Except.ok.inj h).symm⟩
      · rintro (⟨hboth, -⟩ | ⟨-, rfl⟩)
        · exact absurd hboth hmodels
        · rfl
    · rw [if_neg fun hboth ↦ havailable hboth.2]
      refine iff_of_false (fun h ↦ ?_) ?_
      · obtain ⟨⟨last, parents⟩, -, h⟩ := except_bind_eq_ok.mp h
        exact not_isArray_of_node (node_of_removeAt h).1 hroot
      · rintro (⟨hboth, -⟩ | ⟨hboth, -⟩)
        · exact hmodels hboth
        · exact havailable hboth

open Classical in
theorem applyPatch_array {root next : JsonValue} (hroot : isArray root = true)
    (hbaseline : isArray baseline = true) (hne : ∀ path ∈ ownedPaths, path.segments ≠ []) :
    applyPatch root (ownedPaths.map (ownedRestoration baseline)) = .ok next ↔
      ModelLists ownedPaths ∧
        next = if ⟨["models"]⟩ ∈ ownedPaths then baseline else root := by
  induction ownedPaths generalizing root with
  | nil =>
    refine Iff.trans ⟨fun h ↦ (Except.ok.inj h).symm, fun h ↦ h ▸ rfl⟩ ?_
    rw [if_neg List.not_mem_nil]
    exact ⟨fun h ↦ ⟨fun _ hmem ↦ (nomatch hmem), h⟩, And.right⟩
  | cons path paths ih =>
    obtain ⟨hhere, hrest⟩ := List.forall_mem_cons.mp hne
    have hmem : (⟨["models"]⟩ : ConfigPath) ∈ path :: paths ↔
        path.segments = ["models"] ∨ ⟨["models"]⟩ ∈ paths := by
      rw [List.mem_cons]
      refine or_congr_left ⟨fun heq ↦ heq ▸ rfl, fun heq ↦ ?_⟩
      obtain ⟨segments⟩ := path
      rw [← heq]
    have hlists : ModelLists (path :: paths) ↔
        (path.segments = ["models"] ∨ path.segments = ["availableModels"]) ∧ ModelLists paths :=
      List.forall_mem_cons
    rw [List.map_cons, applyPatch, except_bind_eq_ok, hlists]
    simp only [hmem]
    constructor
    · rintro ⟨middle, hmiddle, h⟩
      rcases (applyOperation_array hroot hbaseline hhere).mp hmiddle with ⟨hpath, rfl⟩ |
        ⟨hpath, rfl⟩
      · obtain ⟨hall, hnext⟩ := (ih hbaseline hrest).mp h
        rw [ite_self] at hnext
        exact ⟨⟨.inl hpath, hall⟩, by rw [if_pos (.inl hpath), hnext]⟩
      · obtain ⟨hall, hnext⟩ := (ih hroot hrest).mp h
        have hother : path.segments ≠ ["models"] := by
          rw [hpath]
          decide
        exact ⟨⟨.inr hpath, hall⟩, by rw [hnext]; simp only [hother, false_or]⟩
    · rintro ⟨⟨hpath, hall⟩, hnext⟩
      rcases hpath with hpath | hpath
      · refine ⟨baseline, (applyOperation_array hroot hbaseline hhere).mpr (.inl ⟨hpath, rfl⟩),
          (ih hbaseline hrest).mpr ⟨hall, ?_⟩⟩
        rw [hnext, if_pos (.inl hpath), ite_self]
      · have hother : path.segments ≠ ["models"] := by
          rw [hpath]
          decide
        refine ⟨root, (applyOperation_array hroot hbaseline hhere).mpr (.inr ⟨hpath, rfl⟩),
          (ih hroot hrest).mpr ⟨hall, ?_⟩⟩
        rw [hnext]
        simp only [hother, false_or]

/-- Paths of one segment have no ancestors to give back. -/
theorem laterPasses_modelLists (h : ModelLists ownedPaths) (root : JsonValue) :
    (collapseEmptyAncestors root (materializedAncestorRestorations baseline ownedPaths) >>=
      fun current ↦ restoreNullOwnedAncestors current baseline ownedPaths) = .ok root := by
  have hnone : ∀ path ∈ ownedPaths, strictAncestors path = [] := by
    intro path hpath
    rw [strictAncestors]
    rcases h path hpath with hsegments | hsegments
    · rw [hsegments]
      rfl
    · rw [hsegments]
      rfl
  have hoperations : materializedAncestorRestorations baseline ownedPaths = [] := by
    rw [materializedAncestorRestorations, List.flatMap_eq_nil_iff.mpr fun path hpath ↦ by
      rw [hnone path hpath, List.filterMap_nil]]
    rfl
  have hancestors : ownedPaths.flatMap strictAncestors = [] := List.flatMap_eq_nil_iff.mpr hnone
  rw [hoperations]
  change restoreNullOwnedAncestors root baseline ownedPaths = .ok root
  rw [restoreNullOwnedAncestors, hancestors]
  rfl

open Classical in
theorem project_array (hcurrent : isArray current = true) (hbaseline : isArray baseline = true)
    (hne : ∀ path ∈ ownedPaths, path.segments ≠ []) :
    projectOwnedPaths current baseline ownedPaths = .ok restored ↔
      ModelLists ownedPaths ∧
        restored = if ⟨["models"]⟩ ∈ ownedPaths then baseline else current := by
  rw [projectOwnedPaths, except_bind_eq_ok, ← applyPatch_array hcurrent hbaseline hne]
  constructor
  · rintro ⟨middle, hmiddle, hrest⟩
    have hlists := ((applyPatch_array hcurrent hbaseline hne).mp hmiddle).1
    rw [laterPasses_modelLists hlists] at hrest
    rwa [← Except.ok.inj hrest]
  · intro h
    have hlists := ((applyPatch_array hcurrent hbaseline hne).mp h).1
    exact ⟨restored, h, laterPasses_modelLists hlists restored⟩

/-! ## All documents -/

/-- Both documents are arrays, and nothing but their lists of models is owned. -/
structure ArrayBack (baseline current : JsonValue) (ownedPaths : List ConfigPath) : Prop where
  baselineArray : isArray baseline = true
  currentArray : isArray current = true
  lists : ModelLists ownedPaths
  back : ⟨["models"]⟩ ∈ ownedPaths ∨ current = baseline

/-- Above an owned path there is the root, an object in what is given back, and an object or null
before. -/
theorem Restorable.root (h : Restorable baseline current ownedPaths) (hroot : Above ownedPaths []) :
    node baseline = .branch ∧ (node current = .branch ∨ current = .null) := by
  have hview (root : JsonValue) {found : Node JsonValue} (hfound : view root [] = some found) :
      node root = found := Option.some.inj ((view_nil root).symm.trans hfound)
  rcases h.above [] hroot with ⟨hcurrent, hbase⟩ | ⟨-, hne, -⟩ | ⟨hnone, -⟩ |
    ⟨hnone | hnull, hbase, -⟩
  · exact ⟨hview _ hbase, .inl (hview _ hcurrent)⟩
  · exact absurd rfl hne
  · rw [view_nil] at hnone
    nomatch hnone
  · rw [view_nil] at hnone
    nomatch hnone
  · exact ⟨hview _ hbase, .inr (node_eq_null (hview _ hnull))⟩

theorem restorable_nil_iff (horder : Ordered baseline) (horder' : Ordered current) :
    Restorable baseline current [] ↔ current = baseline := by
  have hnothing (path : List String) : ¬ Inside [] path ∧ ¬ Above [] path :=
    ⟨fun ⟨_, hmem, _⟩ ↦ (nomatch hmem), fun ⟨_, hmem, _⟩ ↦ nomatch hmem⟩
  constructor
  · intro h
    exact eq_of_view horder' horder (funext fun path ↦
      h.beside path (hnothing path).1 (hnothing path).2)
  · rintro rfl
    refine ⟨fun _ _ _ ↦ rfl, fun path habove ↦ absurd habove (hnothing path).2, ?_⟩
    intro before path after hsplit
    exact absurd hsplit.symm (List.append_ne_nil_of_right_ne_nil _ (List.cons_ne_nil _ _))

theorem project_nil : projectOwnedPaths current baseline [] = .ok current := rfl

/-- **A document is given back just when it can be.** -/
theorem project_eq_iff (horder : Ordered baseline) (horder' : Ordered current)
    (hpaths : Declared ownedPaths) :
    projectOwnedPaths current baseline ownedPaths = .ok baseline ↔
      Restorable baseline current ownedPaths ∨ ArrayBack baseline current ownedPaths := by
  rcases ownedPaths with - | ⟨owned, ownedPaths⟩
  · rw [project_nil, restorable_nil_iff horder horder']
    constructor
    · exact fun h ↦ .inl (Except.ok.inj h)
    · rintro (h | ⟨-, -, -, hmem | h⟩)
      · rw [h]
      · nomatch hmem
      · rw [h]
  have hne : ∀ path ∈ owned :: ownedPaths, path.segments ≠ [] := fun path hpath ↦
    (hpaths.valid path hpath).1
  have hroot : Above (owned :: ownedPaths) [] :=
    ⟨owned, List.mem_cons_self, List.nil_prefix, hne owned List.mem_cons_self⟩
  by_cases hcurrent : isArray current = true
  · have hnot : ¬ Restorable baseline current (owned :: ownedPaths) := by
      intro h
      rcases (h.root hroot).2 with hnode | rfl
      · exact not_isArray_of_node hnode hcurrent
      · nomatch hcurrent
    rw [or_iff_right hnot]
    by_cases hbaseline : isArray baseline = true
    · rw [project_array hcurrent hbaseline hne]
      constructor
      · rintro ⟨hlists, hback⟩
        refine ⟨hbaseline, hcurrent, hlists, ?_⟩
        split at hback
        next hmem => exact .inl hmem
        next => exact .inr hback.symm
      · rintro ⟨-, -, hlists, hback⟩
        refine ⟨hlists, ?_⟩
        split
        next => rfl
        next hmem => exact (hback.resolve_left hmem).symm
    · exact iff_of_false (fun h ↦ hbaseline (isArray_projectOwnedPaths hcurrent h))
        fun h ↦ hbaseline h.baselineArray
  · rw [or_iff_left fun h ↦ hcurrent h.currentArray]
    by_cases hbaseline : node baseline = .branch
    · by_cases hobject : node current = .branch
      · exact project_eq_iff_of_object hbaseline hobject horder horder' hpaths
      · have hlook : semanticValueAt baseline owned = valueAt baseline owned.segments :=
          semanticValueAt_of_branch hbaseline owned
        by_cases hnull : current = .null
        · subst hnull
          rw [restorable_null_iff hpaths, ← hlook]
          by_cases hhas : semanticValueAt baseline owned ≠ none
          · rw [project_null hhas, and_iff_right hhas]
            exact project_eq_iff_of_object hbaseline rfl horder ordered_empty hpaths
          · refine iff_of_false (fun h ↦ ?_) fun h ↦ hhas h.1
            exact ((root_of_project hcurrent h).2).elim hobject fun hboth ↦ hhas hboth.2
        · refine iff_of_false (fun h ↦ ?_) fun h ↦ ?_
          · exact ((root_of_project hcurrent h).2).elim hobject fun hboth ↦ hnull hboth.1
          · exact ((h.root hroot).2).elim hobject hnull
    · exact iff_of_false (fun h ↦ hbaseline (root_of_project hcurrent h).1)
        fun h ↦ hbaseline (h.root hroot).1

end Roots

end Json

/-! ## What the report says -/

namespace Drift

/-- Silent where the disconnect is refused: nothing is changed outside of the owned paths, and one
of them lies below a value that is no object. -/
structure Hidden (baseline current : JsonValue) (ownedPaths : List ConfigPath) : Prop where
  same : SameOutside ownedPaths (Json.view baseline) (Json.view current) []
  blocked : ∃ path value, Above ownedPaths path ∧ Json.view baseline path = some (.leaf value)
  lists : ¬ (isArray baseline = true ∧ ModelLists ownedPaths)

/-- Loud where the disconnect gives the baseline back: only ancestors of owned paths are changed,
and the disconnect mends them, or the document is an array that it replaces. -/
structure Containers (baseline current : JsonValue) (ownedPaths : List ConfigPath) : Prop where
  changed : ¬ SameOutside ownedPaths (Json.view baseline) (Json.view current) []
  mended : Restorable baseline current ownedPaths ∨ isArray baseline = true ∧
    isArray current = true ∧ ModelLists ownedPaths ∧ ⟨["models"]⟩ ∈ ownedPaths

section

variable {baseline current : JsonValue} {ownedPaths : List ConfigPath}

theorem not_inside_nil (hpaths : Declared ownedPaths) : ¬ Inside ownedPaths [] := by
  rintro ⟨owned, howned, hle⟩
  exact (hpaths.valid owned howned).1 (List.prefix_nil.mp hle)

/-- Where nothing is changed outside, what is given back is what is not hidden. -/
theorem back_iff_not_hidden (hpaths : Declared ownedPaths)
    (h : SameOutside ownedPaths (Json.view baseline) (Json.view current) []) :
    Restorable baseline current ownedPaths ∨ ArrayBack baseline current ownedPaths ↔
      ¬ Hidden baseline current ownedPaths := by
  have hsame (path : List String) (hpath : ¬ Inside ownedPaths path) :
      Json.view current path = Json.view baseline path := h path hpath
  have habove (path : List String) (hup : Above ownedPaths path) :=
    hsame path (not_inside_of_above hpaths.apart hup)
  constructor
  · rintro (hback | hback) ⟨-, ⟨path, value, hup, hleaf⟩, hlists⟩
    · have hcurrent := (habove path hup).trans hleaf
      rcases hback.above path hup with ⟨-, hbase⟩ | ⟨hbranch, -, -⟩ | ⟨-, hbase⟩ | ⟨-, hbase, -⟩
      · rw [hleaf] at hbase
        nomatch hbase
      · rw [hcurrent] at hbranch
        nomatch hbranch
      · rw [hleaf] at hbase
        nomatch hbase
      · rw [hleaf] at hbase
        nomatch hbase
    · exact hlists ⟨hback.baselineArray, hback.lists⟩
  · intro hnot
    by_cases hlists : isArray baseline = true ∧ ModelLists ownedPaths
    · obtain ⟨harray, hlists⟩ := hlists
      have hroot := hsame [] (not_inside_nil hpaths)
      rw [view_nil, view_nil] at hroot
      have hnode : node current ≠ .branch := fun hbranch ↦
        not_isArray_of_node ((Option.some.inj hroot).symm.trans hbranch) harray
      obtain rfl := eq_of_node_eq (Option.some.inj hroot) hnode
      exact .inr ⟨harray, harray, hlists, .inr rfl⟩
    · left
      have hleaf (path : List String) (hup : Above ownedPaths path) (value : JsonValue) :
          Json.view baseline path ≠ some (.leaf value) := fun hfound ↦
        hnot ⟨h, ⟨path, value, hup, hfound⟩, hlists⟩
      refine ⟨fun path hpath _ ↦ hsame path hpath, fun path hup ↦ ?_, ?_⟩
      · rcases hfound : Json.view baseline path with - | - | value
        · exact .missing ((habove path hup).trans hfound) hfound
        · exact .stays ((habove path hup).trans hfound) hfound
        · exact absurd hfound (hleaf path hup value)
      · rintro before path after rfl - upper hupper hnull
        have hup : Above (before ++ path :: after) upper :=
          ⟨path, List.mem_append_right _ List.mem_cons_self, hupper⟩
        exact absurd ((habove upper hup).symm.trans (view_eq_null_iff.mpr hnull))
          (hleaf upper hup .null)

/-- **Silence and restoration are the same outside of two kinds of documents.** -/
theorem sameOutside_iff_project_iff (horder : Ordered baseline) (horder' : Ordered current)
    (hpaths : Declared ownedPaths) :
    (SameOutside ownedPaths (Json.view baseline) (Json.view current) [] ↔
        Json.projectOwnedPaths current baseline ownedPaths = .ok baseline) ↔
      ¬ Hidden baseline current ownedPaths ∧ ¬ Containers baseline current ownedPaths := by
  rw [project_eq_iff horder horder' hpaths]
  by_cases h : SameOutside ownedPaths (Json.view baseline) (Json.view current) []
  · have hcontainers : ¬ Containers baseline current ownedPaths := fun hc ↦ hc.changed h
    rw [iff_true_left h, and_iff_left hcontainers]
    exact back_iff_not_hidden hpaths h
  · have hhidden : ¬ Hidden baseline current ownedPaths := fun hh ↦ h hh.same
    rw [iff_false_left h, and_iff_right hhidden]
    refine not_congr ⟨fun hback ↦ ⟨h, hback.imp_right fun harray ↦ ?_⟩, fun hc ↦ ?_⟩
    · refine ⟨harray.baselineArray, harray.currentArray, harray.lists, ?_⟩
      refine harray.back.resolve_right ?_
      rintro rfl
      exact h fun _ _ ↦ rfl
    · exact hc.mended.imp_right fun ⟨hbaseline, hcurrent, hlists, hmem⟩ ↦
        ⟨hbaseline, hcurrent, hlists, .inl hmem⟩

end

/-! ## The report as a whole -/

/-- The paths that are reported as changed by somebody else. -/
def managedPaths (view : AgentDriftView) : List ConfigPath :=
  (view.changes.filter fun change ↦ change.scope = .managed).map DriftChange.path

def ListsNoUnowned (view : AgentDriftView) : Prop :=
  ∀ change ∈ view.changes, change.scope ≠ .unowned

open Classical in
/-- The owned paths with another value than the last managed one. -/
noncomputable def changedPaths (ownedPaths : List ConfigPath) (managed current : JsonValue) :
    List ConfigPath :=
  ownedPaths.filter fun path ↦ semanticValueForMac current path ≠ semanticValueForMac managed path

/-- Digests tell two values of a path apart. -/
def Tells {Document : Type} (documents : Documents Document) (key : MasterKey)
    (canonical canonical' : JsonValue) (path : ConfigPath) : Prop :=
  ownedValueMac documents key canonical path = ownedValueMac documents key canonical' path →
    semanticValueForMac canonical path = semanticValueForMac canonical' path

/-- What reading a document comes to, around a serializer and a keyed digest. -/
def documentsOf (parse : Option Bytes → DocumentFormat → String → Except String ConfigDocument)
    (jsonBytes : JsonValue → Except String Bytes) (hmacSha256 : MasterKey → Bytes → String) :
    Documents ConfigDocument :=
  ⟨parse, ConfigDocument.semanticJson, jsonBytes, hmacSha256⟩

section Analyze

variable {Document : Type} {documents : Documents Document} {key : MasterKey}
  {ownership : OwnershipRecord} {managed current : JsonValue}

theorem ownedValueMac_congr {canonical canonical' : JsonValue} {path : ConfigPath}
    (h : semanticValueForMac canonical path = semanticValueForMac canonical' path) :
    ownedValueMac documents key canonical path = ownedValueMac documents key canonical' path := by
  rw [ownedValueMac, ownedValueMac, h]

/-- A path is reported just when its value is not the last managed one. -/
theorem managedChange_eq {macs : ValueMacs} (hpaths : Declared ownership.ownedPaths)
    (htells : ∀ path ∈ ownership.ownedPaths, Tells documents key current managed path)
    (hrecord : addOwnedValueMacs documents key managed [] ownership.ownedPaths =
      .ok ownership.ownedValueMacs)
    (hcurrent : addOwnedValueMacs documents key current [] ownership.ownedPaths = .ok macs)
    {path : ConfigPath} (hpath : path ∈ ownership.ownedPaths) :
    managedChange ownership current macs path = none ↔
      semanticValueForMac current path = semanticValueForMac managed path := by
  have hdistinct : ownership.ownedPaths.Pairwise fun path other ↦
      path.toText ≠ other.toText := by
    refine hpaths.apart.imp_of_mem fun {path other} hmem hmem' hapart heq ↦ ?_
    obtain ⟨hne, hvalid⟩ := hpaths.valid path hmem
    obtain ⟨hne', hvalid'⟩ := hpaths.valid other hmem'
    rw [toText_injective hne hne' hvalid hvalid' heq] at hapart
    exact hapart.1 (List.prefix_refl _)
  obtain ⟨mac, hmac, hlookup⟩ := (lookup_addOwnedValueMacs hdistinct hrecord).1 path hpath
  obtain ⟨mac', hmac', hlookup'⟩ := (lookup_addOwnedValueMacs hdistinct hcurrent).1 path hpath
  rw [managedChange, hlookup, hlookup']
  constructor
  · intro h
    split at h
    next heq =>
      refine htells path hpath ?_
      rw [hmac, hmac', Option.some.inj (beq_iff_eq.mp heq)]
    next => nomatch h
  · intro h
    have hsame := hmac'.symm.trans ((ownedValueMac_congr h).trans hmac)
    rw [Except.ok.inj hsame]
    exact if_pos (beq_self_eq_true _)

theorem managedChange_eq_some {macs : ValueMacs} {path : ConfigPath} {change : DriftChange}
    (h : managedChange ownership current macs path = some change) :
    change.path = sanitizedPath path ∧ change.scope = .managed := by
  rw [managedChange] at h
  split at h
  · nomatch h
  · rw [← Option.some.inj h]
    exact ⟨rfl, rfl⟩

open Classical in
/-- The owned part of the list. -/
theorem map_path_filterMap {macs : ValueMacs} {paths : List ConfigPath}
    (h : ∀ path ∈ paths, managedChange ownership current macs path = none ↔
      semanticValueForMac current path = semanticValueForMac managed path) :
    (paths.filterMap (managedChange ownership current macs)).map DriftChange.path =
      (changedPaths paths managed current).map sanitizedPath := by
  induction paths with
  | nil => rfl
  | cons path paths ih =>
    obtain ⟨hhere, hrest⟩ := List.forall_mem_cons.mp h
    rw [changedPaths] at ih ⊢
    rcases hchange : managedChange ownership current macs path with - | change
    · rw [List.filterMap_cons_none hchange, List.filter_cons_of_neg, ih hrest]
      rw [decide_eq_true_eq, not_not]
      exact hhere.mp hchange
    · rw [List.filterMap_cons_some hchange, List.filter_cons_of_pos, List.map_cons, List.map_cons,
        ih hrest, (managedChange_eq_some hchange).1]
      rw [decide_eq_true_eq]
      intro hsame
      rw [hhere.mpr hsame] at hchange
      nomatch hchange

end Analyze

/-- **The report means what it says outside of two kinds of documents.** The owned paths that it
lists are those with another value, and it lists nothing else just when a disconnect gives the
baseline back, unless it is silent about a disconnect that is refused or loud about containers that
a disconnect mends. -/
theorem analyzeDrift_iff
    {parse : Option Bytes → DocumentFormat → String → Except String ConfigDocument}
    {jsonBytes : JsonValue → Except String Bytes} {hmacSha256 : MasterKey → Bytes → String}
    {key : MasterKey} {ownership : OwnershipRecord} {managed baseline current : JsonValue}
    {currentHash : String} (hjson : ∀ value, ∃ bytes, jsonBytes value = .ok bytes)
    (htells : ∀ path ∈ ownership.ownedPaths,
      Tells (documentsOf parse jsonBytes hmacSha256) key current managed path)
    (hpaths : Declared ownership.ownedPaths)
    (hrecord : computeOwnedValueMacs (documentsOf parse jsonBytes hmacSha256) (.json managed)
      ownership.ownedPaths key = .ok ownership.ownedValueMacs)
    (horder : Ordered baseline) (horder' : Ordered current)
    (hlength : currentHash.utf8ByteSize = 64) (hchanged : currentHash ≠ ownership.managedAfterHash)
    (checkedAtMs : ℕ) :
    ∃ view, analyzeDrift (documentsOf parse jsonBytes hmacSha256) ownership (.json baseline)
        (.json current) currentHash key checkedAtMs = .ok view ∧
      managedPaths view =
        (changedPaths ownership.ownedPaths managed current).map sanitizedPath ∧
      (view.truncated = false →
        ((ListsNoUnowned view ↔
          ConfigDocument.projectOwnedPaths false (.json current) (.json baseline)
            ownership.ownedPaths = .ok (.json baseline)) ↔
          ¬ Hidden baseline current ownership.ownedPaths ∧
            ¬ Containers baseline current ownership.ownedPaths)) := by
  obtain ⟨macs, hmacs⟩ := exists_addOwnedValueMacs (documentsOf parse jsonBytes hmacSha256) hjson
    key current ownership.ownedPaths []
  have hmanaged : addOwnedValueMacs (documentsOf parse jsonBytes hmacSha256) key managed []
    ownership.ownedPaths = .ok ownership.ownedValueMacs := hrecord
  have hpath (path : ConfigPath) (hmem : path ∈ ownership.ownedPaths) :=
    managedChange_eq hpaths htells hmanaged hmacs hmem
  let owned := ownership.ownedPaths.filterMap (managedChange ownership current macs)
  let found := collectUnownedChanges ownership.ownedPaths baseline current [] ⟨owned, false⟩
  have hscope : ∀ change ∈ owned, change.scope = .managed := by
    intro change hmem
    obtain ⟨path, -, hchange⟩ := List.mem_filterMap.mp hmem
    exact (managedChange_eq_some hchange).2
  obtain ⟨new, hnew, hunowned, hquiet⟩ :=
    (reports_collectUnownedChanges horder horder' [] ⟨owned, false⟩).added
  have hrun : ∃ status message, analyzeDrift (documentsOf parse jsonBytes hmacSha256) ownership
      (.json baseline) (.json current) currentHash key checkedAtMs =
        .ok (view ownership status currentHash checkedAtMs found message) := by
    have hcompute : computeOwnedValueMacs (documentsOf parse jsonBytes hmacSha256) (.json current)
        ownership.ownedPaths key = .ok macs := hmacs
    rw [analyzeDrift, if_neg (not_not.mpr hlength), if_neg hchanged, hcompute]
    exact ⟨_, _, rfl⟩
  obtain ⟨status, message, hrun⟩ := hrun
  refine ⟨_, hrun, ?_, fun hfull ↦ ?_⟩
  · have hmanagedOnly : found.changes.filter (fun change ↦ change.scope = .managed) = owned := by
      rw [hnew, List.filter_append, List.filter_eq_self.mpr, List.filter_eq_nil_iff.mpr,
        List.append_nil]
      · intro change hmem
        rw [hunowned change hmem]
        decide
      · intro change hmem
        rw [hscope change hmem]
        rfl
    change (found.changes.filter fun change ↦ change.scope = .managed).map DriftChange.path = _
    rw [hmanagedOnly]
    exact map_path_filterMap hpath
  · have hlists : ListsNoUnowned (view ownership status currentHash checkedAtMs found message) ↔
        SameOutside ownership.ownedPaths (Json.view baseline) (Json.view current) [] := by
      rw [← hquiet hfull]
      change (∀ change ∈ found.changes, change.scope ≠ .unowned) ↔ _
      rw [hnew]
      constructor
      · intro hall
        rw [List.eq_nil_iff_forall_not_mem]
        exact fun change hmem ↦ hall change (List.mem_append_right _ hmem) (hunowned change hmem)
      · rintro rfl change hmem
        rw [List.append_nil] at hmem
        rw [hscope change hmem]
        decide
    have hback : ConfigDocument.projectOwnedPaths false (.json current) (.json baseline)
        ownership.ownedPaths = .ok (.json baseline) ↔
        Json.projectOwnedPaths current baseline ownership.ownedPaths = .ok baseline := by
      rw [ConfigDocument.projectOwnedPaths]
      rcases Json.projectOwnedPaths current baseline ownership.ownedPaths with error | next
      · exact iff_of_false (by rintro ⟨⟩) (by rintro ⟨⟩)
      · constructor
        · intro h
          rw [ConfigDocument.json.inj (Except.ok.inj h)]
        · intro h
          rw [Except.ok.inj h]
          rfl
    rw [hlists, hback]
    exact sameOutside_iff_project_iff horder horder' hpaths

/-! ### A fresh connection -/

def driftKey : MasterKey := Vector.replicate 32 7

/-- Documents with a serializer of texts and a checksum for a digest. -/
def driftDocuments : Documents ConfigDocument :=
  documentsOf (fun _ _ label ↦ .error label)
    (fun value ↦
      match value with
      | .string text => .ok (textBytes ("\"" ++ text ++ "\""))
      | _ => .ok (textBytes "null"))
    fun key bytes ↦ checksum (key.toList ++ bytes)

def envKeyPath : ConfigPath := ⟨["env", "KEY"]⟩

/-- What a connection writes into a file without a container. -/
def freshlyConnected : JsonValue := .object [("env", .object [("KEY", .string "secret")])]

def writtenMac : String :=
  match ownedValueMac driftDocuments driftKey freshlyConnected envKeyPath with
  | .ok mac => mac
  | .error error => error

/-- The record of that connection. -/
def freshRecord : OwnershipRecord where
  schemaVersion := 1
  revision := 1
  agentId := "claude-code"
  installationPath := "/opt/claude"
  targetConfigPath := "/tmp/settings.json"
  connectorId := "claude-code-v1"
  baselineSnapshotId := "01010101010101010101010101010101"
  lastTransactionSnapshotId := "02020202020202020202020202020202"
  beforeHash := String.ofList (List.replicate 64 'a')
  managedAfterHash := String.ofList (List.replicate 64 'b')
  ownedPaths := [envKeyPath]
  ownedValueMacs := [(envKeyPath.toText, writtenMac)]
  companionFiles := []
  acquiredAtMs := 1
  updatedAtMs := 2

/-- The digest of the reformatted file. -/
def reformattedHash : String := String.ofList (List.replicate 64 'c')

theorem freshRecord_macs : computeOwnedValueMacs driftDocuments (.json freshlyConnected)
    freshRecord.ownedPaths driftKey = .ok freshRecord.ownedValueMacs :=
  rfl

theorem ordered_singleton {key : String} {value : JsonValue} (h : Ordered value) :
    Ordered (.object [(key, value)]) :=
  ordered_insertMember ordered_empty h

theorem ordered_freshlyConnected : Ordered freshlyConnected :=
  ordered_singleton (ordered_singleton (ordered_of_not_branch fun hbranch ↦ nomatch hbranch))

/-- The file of that connection, against a baseline that has the container. -/
theorem analyzeDrift_iff_fresh :
    ∃ view, analyzeDrift driftDocuments freshRecord (.json (.object [("env", .object [])]))
        (.json freshlyConnected) reformattedHash driftKey 3 = .ok view ∧
      managedPaths view =
        (changedPaths freshRecord.ownedPaths freshlyConnected freshlyConnected).map
          sanitizedPath := by
  have hjson : ∀ value, ∃ bytes, driftDocuments.jsonBytes value = .ok bytes := by
    intro value
    rcases value <;> exact ⟨_, rfl⟩
  have hlength : reformattedHash.utf8ByteSize = 64 := by decide +kernel
  have hchanged : reformattedHash ≠ freshRecord.managedAfterHash := by decide +kernel
  obtain ⟨view, hview, hmanaged, -⟩ := analyzeDrift_iff hjson (fun _ _ _ ↦ rfl)
    declared_keyInEnv freshRecord_macs (ordered_singleton ordered_empty) ordered_freshlyConnected
    hlength hchanged 3
  exact ⟨view, hview, hmanaged⟩

/-- A baseline without the container: the report lists it, and the disconnect takes it back. -/
theorem not_analyzeDrift_reformatted :
    ∃ view, analyzeDrift driftDocuments freshRecord (.json (.object []))
        (.json freshlyConnected) reformattedHash driftKey 3 = .ok view ∧
      view.truncated = false ∧ ¬ ListsNoUnowned view ∧
      ConfigDocument.projectOwnedPaths false (.json freshlyConnected) (.json (.object []))
        freshRecord.ownedPaths = .ok (.json (.object [])) := by
  have hkeys : unionKeys [] [("env", JsonValue.object [("KEY", .string "secret")])] = ["env"] := rfl
  have howned : pathIsOwned ["env"] [envKeyPath] = false := by decide +kernel
  have hfound : collectUnownedChanges [envKeyPath] (.object []) freshlyConnected [] ⟨[], false⟩ =
      ⟨[⟨sanitizedPath ⟨["env"]⟩, .unowned, .added, none⟩], false⟩ := by
    rw [freshlyConnected, collectUnownedChanges, if_neg (by decide +kernel),
      if_neg (by decide +kernel), hkeys, collectMembers, if_neg (by decide +kernel),
      List.nil_append, if_neg (by rw [howned]; exact Bool.false_ne_true)]
    change collectMembers _ _ _ _ _ [] = _
    rw [collectMembers]
    rfl
  have hmanaged : freshRecord.ownedPaths.filterMap
      (managedChange freshRecord freshlyConnected freshRecord.ownedValueMacs) = [] :=
    List.filterMap_cons_none (if_pos (beq_self_eq_true _))
  have hlength : reformattedHash.utf8ByteSize = 64 := by decide +kernel
  have hchanged : reformattedHash ≠ freshRecord.managedAfterHash := by decide +kernel
  have hrun : ∃ status message, analyzeDrift driftDocuments freshRecord (.json (.object []))
      (.json freshlyConnected) reformattedHash driftKey 3 =
        .ok (view freshRecord status reformattedHash 3
          ⟨[⟨sanitizedPath ⟨["env"]⟩, .unowned, .added, none⟩], false⟩ message) := by
    rw [analyzeDrift, if_neg (not_not.mpr hlength), if_neg hchanged, freshRecord_macs, ← hfound]
    change ∃ status message, Except.ok (view freshRecord _ _ _ (collectUnownedChanges _ _ _ _
      ⟨freshRecord.ownedPaths.filterMap _, false⟩) _) = _
    rw [hmanaged]
    exact ⟨_, _, rfl⟩
  obtain ⟨status, message, hrun⟩ := hrun
  exact ⟨_, hrun, rfl, fun hnone ↦ hnone _ List.mem_cons_self rfl, rfl⟩

end Drift

end TokenStation
