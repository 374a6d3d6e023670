import TokenStation.AgentIntegration.JsonRestore

/-!
# Disconnect gives JSON configurations back

A connection patches inside the owned paths, the operator edits outside of them, and a disconnect
leaves every owned path as in the baseline and everything else as the operator has it, up to the
ancestors that the connection had to make and that hold nothing any more.
-/

namespace TokenStation

open Library

namespace Json

/-! ## The collapse -/

theorem bare_iff {root : JsonValue} {path : List String} :
    (view root).Bare path ↔ (valueAt root path).any isEmptyObject = true := by
  rcases hvalue : valueAt root path with - | value
  · refine iff_of_false ?_ (by simp)
    rintro ⟨hbranch, -⟩
    rw [view, hvalue] at hbranch
    cases hbranch
  · rw [Option.any_some]
    constructor
    · rintro ⟨hbranch, hbelow⟩
      rw [view, hvalue] at hbranch
      obtain ⟨members, rfl⟩ := node_eq_branch.mp (Option.some.inj hbranch)
      rcases members with - | ⟨⟨key, child⟩, members⟩
      · rfl
      · have hchild := hbelow (path ++ [key]) ⟨List.prefix_append _ _, by simp⟩
        rw [view_append hvalue, view_object_cons, List.lookup_cons_self, Option.bind_some,
          view_nil] at hchild
        cases hchild
    · intro hempty
      obtain rfl : value = .object [] := by
        rw [isEmptyObject.eq_def] at hempty
        split at hempty
        · rfl
        · cases hempty
      refine ⟨by rw [view, hvalue]; rfl, ?_⟩
      rintro lower ⟨⟨rest, rfl⟩, hne⟩
      rw [view_append hvalue]
      rcases rest with - | ⟨segment, rest⟩
      · exact absurd (List.append_nil path) hne
      · rfl

/-- A restoration gives its ancestor back to the baseline. -/
theorem view_ancestorRestoration {baseline current current' : JsonValue}
    {operation : PatchOperation} (hcurrent : node current = .branch)
    (hrestore : ancestorRestoration baseline operation.path = some operation)
    (hbare : (view current).Bare operation.path.segments)
    (h : applyOperation current operation = .ok current') :
    view current' = PathTree.giveBack (view baseline) operation.path.segments (view current) := by
  have hupper : ∀ p, Below p operation.path.segments → view current p = some .branch := by
    intro p hp
    refine rooted_view current p _ hp ?_
    rw [hbare.1]
    exact Option.some_ne_none _
  rcases operation with ⟨kind, path, value⟩
  rw [ancestorRestoration] at hrestore
  rcases baselinePathState_cases baseline path.segments with ⟨hstate, hvalue⟩ | ⟨hstate, hvalue⟩ |
    ⟨hstate, -⟩
  · rw [hstate] at hrestore
    obtain ⟨rfl, -, rfl⟩ := PatchOperation.mk.inj (Option.some.inj hrestore)
    obtain ⟨-, hview⟩ := view_of_remove hcurrent h
    funext p
    rw [hview]
    by_cases hp : p = path.segments
    · rw [hp, PathTree.prune_of_prefix (List.prefix_refl _), PathTree.giveBack_self, view, hvalue]
      rfl
    · rw [PathTree.giveBack_of_ne _ _ hp]
      by_cases hbelow : path.segments <+: p
      · rw [PathTree.prune_of_prefix hbelow, hbare.2 p ⟨hbelow, hp⟩]
      · rw [PathTree.prune_beside hbelow]
  · rw [hstate] at hrestore
    obtain ⟨rfl, -, rfl⟩ := PatchOperation.mk.inj (Option.some.inj hrestore)
    obtain ⟨-, hview⟩ := view_of_replace hcurrent h
    funext p
    rw [hview]
    by_cases hp : p = path.segments
    · have hbase : view baseline path.segments = some (.leaf .null) := by
        rw [view, hvalue]
        rfl
      rw [hp, PathTree.graft_of_prefix (List.prefix_refl _), List.drop_length,
        PathTree.giveBack_self]
      exact hbase.symm
    · rw [PathTree.giveBack_of_ne _ _ hp]
      by_cases hbelow : path.segments <+: p
      · obtain ⟨rest, rfl⟩ := hbelow
        rw [PathTree.graft_of_prefix (List.prefix_append _ _), List.drop_left' rfl,
          hbare.2 _ ⟨List.prefix_append _ _, hp⟩]
        rcases rest with - | ⟨segment, rest⟩
        · exact absurd (List.append_nil _) hp
        · rfl
      · by_cases habove : p <+: path.segments
        · have hup : Below p path.segments := ⟨habove, Ne.symm hp⟩
          rw [PathTree.graft_above hup, hupper p hup]
        · rw [PathTree.graft_beside hbelow habove]
  · rw [hstate] at hrestore
    cases hrestore

theorem view_collapseEmptyAncestors {baseline current current' : JsonValue}
    {operations : List PatchOperation} (hcurrent : node current = .branch)
    (hrestore : ∀ operation ∈ operations, operation.path.segments ≠ [] ∧
      ancestorRestoration baseline operation.path = some operation)
    (h : collapseEmptyAncestors current operations = .ok current') :
    node current' = .branch ∧
      view current' = PathTree.collapse (view baseline)
        (operations.map (·.path.segments)) (view current) := by
  induction operations generalizing current with
  | nil =>
    obtain rfl := Except.ok.inj h
    exact ⟨hcurrent, rfl⟩
  | cons operation operations ih =>
    obtain ⟨⟨hpath, hop⟩, hrest⟩ := List.forall_mem_cons.mp hrestore
    rw [collapseEmptyAncestors] at h
    rw [List.map_cons, PathTree.collapse]
    by_cases hempty : (valueAt current operation.path.segments).any isEmptyObject = true
    · rw [if_pos hempty] at h
      have hbare := bare_iff.mpr hempty
      rw [if_pos hbare]
      rcases happly : applyOperation current operation with error | middle
      · rw [happly] at h
        cases h
      · rw [happly] at h
        have hview := view_ancestorRestoration hcurrent hop hbare happly
        have hnode : node middle = .branch := by
          refine node_of_view_nil ?_ hcurrent
          rw [hview, PathTree.giveBack_of_ne _ _ (Ne.symm hpath)]
        rw [← hview]
        exact ih hnode hrest h
    · rw [if_neg hempty] at h
      rw [if_neg fun hbare ↦ hempty (bare_iff.mp hbare)]
      exact ih hcurrent hrest h

theorem ordered_collapseEmptyAncestors {baseline current current' : JsonValue}
    {operations : List PatchOperation} (hcurrent : Ordered current)
    (hrestore : ∀ operation ∈ operations,
      ancestorRestoration baseline operation.path = some operation)
    (h : collapseEmptyAncestors current operations = .ok current') : Ordered current' := by
  induction operations generalizing current with
  | nil =>
    obtain rfl := Except.ok.inj h
    exact hcurrent
  | cons operation operations ih =>
    obtain ⟨hop, hrest⟩ := List.forall_mem_cons.mp hrestore
    rw [collapseEmptyAncestors] at h
    split at h
    · rcases happly : applyOperation current operation with error | middle
      · rw [happly] at h
        cases h
      · rw [happly] at h
        refine ih (ordered_applyOperation hcurrent ?_ happly) hrest h
        intro value hvalue
        apply ordered_of_not_branch
        rw [ancestorRestoration] at hop
        split at hop
        · rw [← Option.some.inj hop] at hvalue
          cases hvalue
        · rw [← Option.some.inj hop] at hvalue
          rw [← Option.some.inj hvalue]
          rintro ⟨⟩
        · cases hop
    · exact ih hcurrent hrest h

/-! ## The pass over null ancestors -/

/-- Where no ancestor under a null of the baseline is an empty object, nothing is done. -/
theorem restoreNullFrom_eq {baseline current : JsonValue}
    {nullAncestors ancestors : List ConfigPath}
    (h : ∀ ancestor ∈ ancestors, (∃ null ∈ nullAncestors, null.segments <+: ancestor.segments) →
      ¬ (semanticValueAt current ancestor).any isEmptyObject = true) :
    restoreNullFrom baseline nullAncestors current ancestors = .ok current := by
  induction ancestors with
  | nil => rw [restoreNullFrom]
  | cons ancestor ancestors ih =>
    obtain ⟨hhere, hrest⟩ := List.forall_mem_cons.mp h
    rw [restoreNullFrom]
    by_cases hnull : (nullAncestors.any fun null ↦
        null.segments.isPrefixOf ancestor.segments) = true
    · rw [if_pos hnull]
      obtain ⟨null, hmem, hleads⟩ := List.any_eq_true.mp hnull
      rw [if_neg (hhere ⟨null, hmem, List.isPrefixOf_iff_prefix.mp hleads⟩)]
      exact ih hrest
    · rw [if_neg hnull]
      exact ih hrest

theorem restoreNullOwnedAncestors_eq {baseline current : JsonValue} {ownedPaths : List ConfigPath}
    (hbaseline : node baseline = .branch) (hcurrent : node current = .branch)
    (hbare : ∀ path, path ≠ [] → Made baseline ownedPaths path → ¬ (view current).Bare path) :
    restoreNullOwnedAncestors current baseline ownedPaths = .ok current := by
  have hancestor : ∀ ancestor ∈
      (sortByKey depthKey (ownedPaths.flatMap strictAncestors)).destutter (· ≠ ·),
      ancestor.segments ≠ [] ∧ Above ownedPaths ancestor.segments := by
    intro ancestor hmem
    have hin := (List.destutter_sublist _ _).subset hmem
    rw [mem_sortByKey, List.mem_flatMap] at hin
    obtain ⟨owned, howned, hstrict⟩ := hin
    obtain ⟨hne, hbelow⟩ := mem_strictAncestors.mp hstrict
    exact ⟨hne, owned, howned, hbelow⟩
  refine restoreNullFrom_eq fun ancestor hmem hnull ↦ ?_
  obtain ⟨hne, habove⟩ := hancestor ancestor hmem
  obtain ⟨null, hnullMem, hleads⟩ := hnull
  rw [semanticValueAt_of_branch hcurrent, ← bare_iff]
  obtain ⟨-, hisNull⟩ := List.mem_filter.mp hnullMem
  rw [semanticValueAt_of_branch hbaseline] at hisNull
  obtain ⟨value, hvalue, hvalueNull⟩ := (Option.any_eq_true _ _).mp hisNull
  rw [isNull_iff.mp hvalueNull] at hvalue
  exact hbare _ hne ⟨habove, state_below (state_of_null hvalue) hleads⟩

/-! ## A connection and the operator's edits -/

/-- `edited` is `document` with edits at paths that are neither inside nor an ancestor of an owned
path. An edit may have made objects on its way. -/
structure EditedOutside (ownedPaths : List ConfigPath) (document edited : JsonValue) : Prop where
  inside : ∀ path, Inside ownedPaths path → view edited path = view document path
  above : ∀ path, Above ownedPaths path → view edited path = view document path ∨
    view edited path = some .branch ∧ Lacks (view document) path

/-- Owned paths that do not overlap. -/
def Apart (ownedPaths : List ConfigPath) : Prop :=
  ownedPaths.Pairwise fun path other ↦
    ¬ path.segments <+: other.segments ∧ ¬ other.segments <+: path.segments

theorem not_inside_of_above {ownedPaths : List ConfigPath} (h : Apart ownedPaths)
    {path : List String} (habove : Above ownedPaths path) : ¬ Inside ownedPaths path := by
  rintro ⟨owned, howned, hleads⟩
  obtain ⟨other, hother, hbelow⟩ := habove
  have hlt := hbelow.length_lt
  have hle := hleads.length_le
  have hne : owned ≠ other := by
    rintro rfl
    omega
  have : Std.Symm fun p q : ConfigPath ↦ ¬ p.segments <+: q.segments ∧
      ¬ q.segments <+: p.segments := ⟨fun _ _ hpq ↦ hpq.symm⟩
  have hapart := List.Pairwise.forall h howned hother hne
  exact hapart.1 (hleads.trans hbelow.1)

theorem prefix_of_inside_of_above {ownedPaths : List ConfigPath} {path upper : List String}
    (hpath : Inside ownedPaths path) (hupper : upper <+: path)
    (hnot : ¬ Inside ownedPaths upper) : Above ownedPaths upper := by
  obtain ⟨owned, howned, hleads⟩ := hpath
  rcases prefix_or_below hleads hupper with hle | hbelow
  · exact absurd ⟨owned, howned, hle⟩ hnot
  · exact ⟨owned, howned, hbelow⟩

/-- An operation inside the owned paths changes nothing beside them, and an ancestor only into an
object where it found nothing. -/
theorem outside_of_applied {ownedPaths : List ConfigPath} {root root' : JsonValue}
    {operation : PatchOperation} (hinside : Inside ownedPaths operation.path.segments)
    (h : Applied root root' operation) {path : List String} (hpath : ¬ Inside ownedPaths path) :
    view root' path = view root path ∨
      Above ownedPaths path ∧ view root' path = some .branch ∧ Lacks (view root) path := by
  have hnot : ¬ operation.path.segments <+: path := by
    intro hleads
    obtain ⟨owned, howned, hle⟩ := hinside
    exact hpath ⟨owned, howned, hle.trans hleads⟩
  rcases h with ⟨value, -, -, hview, habove⟩ | ⟨-, hview⟩ | ⟨-, rfl⟩
  · rw [hview]
    by_cases hup : path <+: operation.path.segments
    · have hbelow : Below path operation.path.segments :=
        ⟨hup, fun heq ↦ hnot (heq ▸ List.prefix_refl _)⟩
      rw [PathTree.graft_above hbelow]
      rcases habove path hbelow with hbranch | hlacks
      · exact Or.inl hbranch.symm
      · exact Or.inr ⟨prefix_of_inside_of_above hinside hup hpath, rfl, hlacks⟩
    · rw [PathTree.graft_beside hnot hup]
      exact Or.inl rfl
  · rw [hview, PathTree.prune_beside hnot]
    exact Or.inl rfl
  · exact Or.inl rfl

theorem node_of_applied {root root' : JsonValue} {operation : PatchOperation}
    (hpath : operation.path.segments ≠ []) (h : Applied root root' operation)
    (hroot : node root = .branch) : node root' = .branch := by
  rcases h with ⟨value, -, -, hview, -⟩ | ⟨-, hview⟩ | ⟨-, rfl⟩
  · have hnil := congrFun hview []
    rw [PathTree.graft_above ⟨List.nil_prefix, hpath⟩, view_nil] at hnil
    exact Option.some.inj hnil
  · have hnil := congrFun hview []
    rw [PathTree.prune_beside fun hp ↦ hpath (List.prefix_nil.mp hp)] at hnil
    exact node_of_view_nil hnil hroot
  · exact hroot

theorem outside_of_applyPatch {ownedPaths : List ConfigPath} {root root' : JsonValue}
    {operations : List PatchOperation} (hroot : node root = .branch)
    (hinside : ∀ operation ∈ operations, Inside ownedPaths operation.path.segments)
    (h : applyPatch root operations = .ok root') :
    node root' = .branch ∧ ∀ path, ¬ Inside ownedPaths path →
      view root' path = view root path ∨
        Above ownedPaths path ∧ view root' path = some .branch ∧ Lacks (view root) path := by
  induction operations generalizing root with
  | nil =>
    obtain rfl := Except.ok.inj h
    exact ⟨hroot, fun path _ ↦ Or.inl rfl⟩
  | cons operation operations ih =>
    obtain ⟨hhere, hrest⟩ := List.forall_mem_cons.mp hinside
    rcases hop : applyOperation root operation with error | middle
    · simp only [applyPatch, Bind.bind, Except.bind, hop] at h
      cases h
    · simp only [applyPatch, Bind.bind, Except.bind, hop] at h
      obtain ⟨hpath, happlied⟩ := applied_of_applyOperation hroot hop
      obtain ⟨hnode, hlater⟩ := ih (node_of_applied hpath happlied hroot) hrest h
      refine ⟨hnode, fun path hout ↦ ?_⟩
      rcases outside_of_applied hhere happlied hout with hsame | ⟨habove, hbranch, hlacks⟩
      · have hlast := hlater path hout
        rw [Lacks, hsame] at hlast
        exact hlast
      · rcases hlater path hout with hsame | ⟨-, hbranch', -⟩
        · exact Or.inr ⟨habove, hsame.trans hbranch, hlacks⟩
        · exact Or.inr ⟨habove, hbranch', hlacks⟩

/-- The operator's own operations are such edits. -/
theorem editedOutside_applyOperation {ownedPaths : List ConfigPath}
    {document edited edited' : JsonValue} {operation : PatchOperation}
    (hedit : EditedOutside ownedPaths document edited) (hroot : node edited = .branch)
    (hinside : ¬ Inside ownedPaths operation.path.segments)
    (habove : ¬ Above ownedPaths operation.path.segments)
    (h : applyOperation edited operation = .ok edited') :
    EditedOutside ownedPaths document edited' := by
  have hbeside : ∀ path, Inside ownedPaths path ∨ Above ownedPaths path →
      ¬ operation.path.segments <+: path := by
    rintro path (hpath | ⟨owned, howned, hbelow⟩) hleads
    · exact habove (prefix_of_inside_of_above hpath hleads hinside)
    · refine habove ⟨owned, howned, hleads.trans hbelow.1, fun heq ↦ ?_⟩
      have hle := hleads.length_le
      have hlt := hbelow.length_lt
      rw [← heq] at hle
      omega
  obtain ⟨-, happlied⟩ := applied_of_applyOperation hroot h
  rcases happlied with ⟨value, -, -, hview, hupper⟩ | ⟨-, hview⟩ | ⟨-, rfl⟩
  · refine ⟨fun path hpath ↦ ?_, fun path hpath ↦ ?_⟩
    · have hnot : ¬ path <+: operation.path.segments := by
        rintro hleads
        obtain ⟨owned, howned, hle⟩ := hpath
        exact hinside ⟨owned, howned, hle.trans hleads⟩
      rw [hview, PathTree.graft_beside (hbeside path (Or.inl hpath)) hnot]
      exact hedit.inside path hpath
    · rw [hview]
      by_cases hup : path <+: operation.path.segments
      · have hbelow : Below path operation.path.segments :=
          ⟨hup, fun heq ↦ hbeside path (Or.inr hpath) (heq ▸ List.prefix_refl _)⟩
        rw [PathTree.graft_above hbelow]
        rcases hupper path hbelow with hbranch | hlacks
        · have hold := hedit.above path hpath
          rwa [hbranch] at hold
        · rcases hedit.above path hpath with hsame | ⟨hbranch, hlacks'⟩
          · rw [Lacks, hsame] at hlacks
            exact Or.inr ⟨rfl, hlacks⟩
          · exact Or.inr ⟨rfl, hlacks'⟩
      · rw [PathTree.graft_beside (hbeside path (Or.inr hpath)) hup]
        exact hedit.above path hpath
  · refine ⟨fun path hpath ↦ ?_, fun path hpath ↦ ?_⟩
    · rw [hview, PathTree.prune_beside (hbeside path (Or.inl hpath))]
      exact hedit.inside path hpath
    · rw [hview, PathTree.prune_beside (hbeside path (Or.inr hpath))]
      exact hedit.above path hpath
  · exact hedit

/-- What stands at an ancestor of an owned path after a connection and edits. -/
theorem above_of_edited {baseline connected edited : JsonValue} {ownedPaths : List ConfigPath}
    (hdisjoint : Apart ownedPaths)
    (hpatch : ∀ path, ¬ Inside ownedPaths path → view connected path = view baseline path ∨
      Above ownedPaths path ∧ view connected path = some .branch ∧ Lacks (view baseline) path)
    (hedit : EditedOutside ownedPaths connected edited) {path : List String}
    (habove : Above ownedPaths path) :
    view edited path = view baseline path ∨
      view edited path = some .branch ∧ Lacks (view baseline) path := by
  rcases hpatch path (not_inside_of_above hdisjoint habove) with hsame | ⟨-, hbranch, hlacks⟩
  · have hold := hedit.above path habove
    rwa [Lacks, hsame] at hold
  · rcases hedit.above path habove with hsame | ⟨hbranch', -⟩
    · exact Or.inr ⟨hsame.trans hbranch, hlacks⟩
    · exact Or.inr ⟨hbranch', hlacks⟩

/-! ## A disconnect -/

/-- An object in which nothing is left but owned paths and their ancestors. -/
def Hollow (ownedPaths : List ConfigPath) (document : JsonValue) (path : List String) : Prop :=
  view document path = some .branch ∧ ∀ lower, Below path lower → view document lower ≠ none →
    Inside ownedPaths lower ∨ Above ownedPaths lower

/-- The owned paths are as in the baseline and the others as the operator has them, but for the
ancestors that the baseline lacks or has as null and that hold nothing else. -/
structure GivenBack (ownedPaths : List ConfigPath) (baseline edited restored : JsonValue) :
    Prop where
  owned : ∀ path, Inside ownedPaths path → view restored path = view baseline path
  kept : ∀ path, ¬ Inside ownedPaths path →
    ¬ (Above ownedPaths path ∧ Lacks (view baseline) path ∧ Hollow ownedPaths edited path) →
    view restored path = view edited path
  collapsed : ∀ path, Above ownedPaths path → Lacks (view baseline) path →
    Hollow ownedPaths edited path → view restored path = view baseline path

open Classical in
/-- The collapse of what the first pass has left, by the paths of the document. -/
theorem view_of_collapse {baseline edited restored : JsonValue} {ownedPaths : List ConfigPath}
    (hbaseline : node baseline = .branch)
    (hobject : ∀ middle, applyPatch edited (ownedPaths.map (ownedRestoration baseline)) =
      .ok middle → node middle = .branch)
    (h : projectOwnedPaths edited baseline ownedPaths = .ok restored) :
    ∃ (middle : JsonValue) (made : List (List String)),
      applyPatch edited (ownedPaths.map (ownedRestoration baseline)) = .ok middle ∧
      (∀ p, p ∈ made ↔ Made baseline ownedPaths p) ∧
      (∀ p, view restored p =
        if p ∈ made ∧ (view middle).Emptied made p then view baseline p else view middle p) ∧
      (Ordered middle → Ordered restored) := by
  rw [projectOwnedPaths] at h
  rcases hrestore : applyPatch edited (ownedPaths.map (ownedRestoration baseline))
    with error | middle
  · simp only [Bind.bind, Except.bind, hrestore] at h
    nomatch h
  rcases hcollapse : collapseEmptyAncestors middle
    (materializedAncestorRestorations baseline ownedPaths) with error | collapsed
  · simp only [Bind.bind, Except.bind, hrestore, hcollapse] at h
    nomatch h
  simp only [Bind.bind, Except.bind, hrestore, hcollapse] at h
  have hnode : node middle = .branch := hobject middle hrestore
  have hrestorations : ∀ operation ∈ materializedAncestorRestorations baseline ownedPaths,
      operation.path.segments ≠ [] ∧
        ancestorRestoration baseline operation.path = some operation := by
    intro operation hmem
    obtain ⟨hne, -, hop⟩ := mem_restorations hmem
    exact ⟨hne, hop⟩
  obtain ⟨hcollapsed, hview⟩ := view_collapseEmptyAncestors hnode hrestorations hcollapse
  have hdeepest : PathTree.DeepestFirst
      ((materializedAncestorRestorations baseline ownedPaths).map (·.path.segments)) :=
    deepestFirst_of_sorted PatchOperation.path _
  have hmade : ∀ p, p ∈ (materializedAncestorRestorations baseline ownedPaths).map
      (·.path.segments) ↔ Made baseline ownedPaths p := fun p ↦ mem_map_restorations hbaseline
  have hbelow : ∀ path ∈
      (materializedAncestorRestorations baseline ownedPaths).map (·.path.segments),
      ∀ lower, Below path lower → view baseline lower = none := fun path hmem lower ↦
    view_below_lacks (lacks_of_state ((hmade path).mp hmem).2)
  -- the last pass finds nothing, since the collapse left nothing bare
  have hlast : restoreNullOwnedAncestors collapsed baseline ownedPaths = .ok collapsed := by
    refine restoreNullOwnedAncestors_eq hbaseline hcollapsed fun path _ hpath ↦ ?_
    rw [hview]
    have hleaf : ∀ p ∈ (materializedAncestorRestorations baseline ownedPaths).map
        (·.path.segments), view baseline p ≠ some .branch := fun p hp hbranch ↦ ?_
    · exact PathTree.not_bare_collapse hdeepest hbelow hleaf ((hmade path).mpr hpath)
    rcases lacks_of_state ((hmade p).mp hp).2 with hnone | hnull
    · rw [hbranch] at hnone
      nomatch hnone
    · rw [hbranch] at hnull
      nomatch hnull
  rw [hlast] at h
  obtain rfl := Except.ok.inj h
  refine ⟨middle, _, rfl, hmade, fun p ↦ ?_, fun hordered ↦ ?_⟩
  · rw [hview, PathTree.collapse_eq hdeepest hbelow]
    split_ifs <;> rfl
  · exact ordered_collapseEmptyAncestors hordered
      (fun operation hmem ↦ (hrestorations operation hmem).2) hcollapse

/-- The first pass keeps the order of the documents. -/
theorem ordered_restoreOwned {baseline edited middle : JsonValue} {ownedPaths : List ConfigPath}
    (hbaseline : node baseline = .branch) (horder : Ordered baseline) (hedited : Ordered edited)
    (h : applyPatch edited (ownedPaths.map (ownedRestoration baseline)) = .ok middle) :
    Ordered middle := by
  refine ordered_applyPatch hedited (fun operation hmem value hvalue ↦ ?_) h
  obtain ⟨path, -, rfl⟩ := List.mem_map.mp hmem
  rw [ownedRestoration, semanticValueAt_of_branch hbaseline] at hvalue
  rcases hfound : valueAt baseline path.segments with - | found
  · rw [hfound] at hvalue
    cases hvalue
  · rw [hfound] at hvalue
    rw [← Option.some.inj hvalue]
    exact ordered_valueAt horder hfound

open Classical in
/-- The passes of a disconnect, by the paths of the document. -/
theorem view_projectOwnedPaths {baseline edited restored : JsonValue}
    {ownedPaths : List ConfigPath} (hbaseline : node baseline = .branch)
    (hedited : node edited = .branch)
    (habove : ∀ upper, Above ownedPaths upper → view baseline upper = some .branch →
      view edited upper = some .branch)
    (h : projectOwnedPaths edited baseline ownedPaths = .ok restored) :
    ∃ (middle : JsonValue) (made : List (List String)),
      (∀ p, view middle p = if Inside ownedPaths p then view baseline p else view edited p) ∧
      (∀ p, p ∈ made ↔ Made baseline ownedPaths p) ∧
      (∀ p, view restored p =
        if p ∈ made ∧ (view middle).Emptied made p then view baseline p else view middle p) ∧
      (Ordered baseline → Ordered edited → Ordered restored) := by
  have hobject : ∀ middle, applyPatch edited (ownedPaths.map (ownedRestoration baseline)) =
      .ok middle → node middle = .branch := by
    intro middle hrestore
    obtain ⟨hpaths, hmiddle⟩ := view_restoreOwned hbaseline hedited habove hrestore
    refine node_of_view_nil ?_ hedited
    rw [hmiddle, if_neg]
    rintro ⟨owned, howned, hnil⟩
    exact hpaths owned howned (List.prefix_nil.mp hnil)
  obtain ⟨middle, made, hrestore, hmade, hview, hordered⟩ := view_of_collapse hbaseline hobject h
  obtain ⟨-, hmiddle⟩ := view_restoreOwned hbaseline hedited habove hrestore
  exact ⟨middle, made, hmiddle, hmade, hview, fun horder hedited ↦
    hordered (ordered_restoreOwned hbaseline horder hedited hrestore)⟩

/-- `GivenBack`, for a disconnect with owned paths. -/
theorem givenBack_of_project {baseline connected edited restored : JsonValue}
    {ownedPaths : List ConfigPath} (hbaseline : node baseline = .branch)
    (hedited : node edited = .branch) (hdisjoint : Apart ownedPaths)
    (hpatch : ∀ path, ¬ Inside ownedPaths path → view connected path = view baseline path ∨
      Above ownedPaths path ∧ view connected path = some .branch ∧ Lacks (view baseline) path)
    (hedit : EditedOutside ownedPaths connected edited)
    (h : projectOwnedPaths edited baseline ownedPaths = .ok restored) :
    GivenBack ownedPaths baseline edited restored ∧
      (Ordered baseline → Ordered edited → Ordered restored) := by
  have hstands := fun path (habove : Above ownedPaths path) ↦
    above_of_edited hdisjoint hpatch hedit habove
  have habove : ∀ upper, Above ownedPaths upper → view baseline upper = some .branch →
      view edited upper = some .branch := by
    intro upper hupper hbranch
    rcases hstands upper hupper with hsame | ⟨hedited, -⟩
    · exact hsame.trans hbranch
    · exact hedited
  obtain ⟨middle, made, hmiddle, hmade, hview, hordered⟩ :=
    view_projectOwnedPaths hbaseline hedited habove h
  have houtside : ∀ p, ¬ Inside ownedPaths p → view middle p = view edited p := fun p hp ↦ by
    rw [hmiddle, if_neg hp]
  have hinside : ∀ p, Inside ownedPaths p → view middle p = view baseline p := fun p hp ↦ by
    rw [hmiddle, if_pos hp]
  -- a made ancestor is emptied by the first pass exactly if it is hollow
  have hemptied : ∀ p, Made baseline ownedPaths p →
      ((view middle).Emptied made p ↔ Hollow ownedPaths edited p) := by
    intro p hp
    have hpOut := not_inside_of_above hdisjoint hp.1
    rw [PathTree.Emptied, Hollow, houtside p hpOut]
    apply and_congr_right
    intro hbranch
    apply forall_congr'
    intro lower
    apply imp_congr_right
    intro hbelow
    have hnone : view baseline lower = none := view_below_lacks (lacks_of_state hp.2) hbelow
    by_cases hlower : Inside ownedPaths lower
    · rw [hinside lower hlower, hnone]
      exact iff_of_true (fun hne ↦ absurd rfl hne) fun _ ↦ Or.inl hlower
    · rw [houtside lower hlower, or_iff_right hlower]
      constructor
      · intro hall hne
        exact ((hmade lower).mp (hall hne).1).1
      · intro hall hne
        have hup := hall hne
        refine ⟨(hmade lower).mpr ⟨hup, state_below hp.2 hbelow.1⟩, ?_⟩
        rcases hstands lower hup with hsame | ⟨hbranch, -⟩
        · exact absurd (hsame.trans hnone) hne
        · exact hbranch
  refine ⟨⟨?_, ?_, ?_⟩, hordered⟩
  · intro path hpath
    rw [hview, if_neg, hinside path hpath]
    rintro ⟨hmem, -⟩
    exact not_inside_of_above hdisjoint ((hmade path).mp hmem).1 hpath
  · intro path hpath hnot
    rw [hview, if_neg, houtside path hpath]
    rintro ⟨hmem, hempty⟩
    have hin := (hmade path).mp hmem
    exact hnot ⟨hin.1, lacks_of_state hin.2, (hemptied path hin).mp hempty⟩
  · intro path hup hlacks hhollow
    -- no value of the baseline stands in the way, since the operator's document has an object here
    have hstate : baselinePathState baseline path ≠ .other := by
      refine state_of_lacks hlacks fun upper hbelow value hvalue hne ↦ ?_
      have hbranch : view edited upper = some .branch := by
        refine rooted_view edited upper path hbelow ?_
        rw [hhollow.1]
        exact Option.some_ne_none _
      have hat : view baseline upper = some (node value) := by rw [view, hvalue, Option.map_some]
      obtain ⟨owned, howned, hpath⟩ := hup
      rcases hstands upper ⟨owned, howned, hbelow.trans hpath⟩ with hsame | ⟨-, hmissing⟩
      · rw [hbranch, hat] at hsame
        exact (Option.some.inj hsame).symm
      · rcases hmissing with hnone | hnull
        · rw [hat] at hnone
          cases hnone
        · rw [hat] at hnull
          exact absurd (node_eq_null (Option.some.inj hnull)) hne
    have hin : Made baseline ownedPaths path := ⟨hup, hstate⟩
    rw [hview, if_pos ⟨(hmade path).mpr hin, (hemptied path hin).mpr hhollow⟩]

/-- **A disconnect gives a JSON configuration back.** -/
theorem projectOwnedPaths_givesBack {baseline connected edited restored : JsonValue}
    {ownedPaths : List ConfigPath} {operations : List PatchOperation}
    (hbaseline : node baseline = .branch) (hordered : Ordered baseline)
    (hdisjoint : Apart ownedPaths)
    (hinside : ∀ operation ∈ operations, Inside ownedPaths operation.path.segments)
    (hvalues : ∀ operation ∈ operations, ∀ value ∈ operation.value, Ordered value)
    (hconnect : applyPatch baseline operations = .ok connected)
    (hedit : EditedOutside ownedPaths connected edited)
    (hproject : projectOwnedPaths edited baseline ownedPaths = .ok restored) :
    GivenBack ownedPaths baseline edited restored ∧ (edited = connected → restored = baseline) := by
  obtain ⟨hnode, hpatch⟩ := outside_of_applyPatch hbaseline hinside hconnect
  rcases ownedPaths with - | ⟨owned, ownedPaths⟩
  · -- nothing is owned: nothing was written, and nothing is put back
    obtain rfl : edited = restored := Except.ok.inj hproject
    have hnothing : operations = [] := by
      rcases operations with - | ⟨operation, operations⟩
      · rfl
      · obtain ⟨owned, howned, -⟩ := hinside operation List.mem_cons_self
        nomatch howned
    subst hnothing
    obtain rfl : baseline = connected := Except.ok.inj hconnect
    refine ⟨⟨?_, fun path _ _ ↦ rfl, ?_⟩, fun hsame ↦ hsame⟩
    · rintro path ⟨owned, howned, -⟩
      nomatch howned
    · rintro path ⟨owned, howned, -⟩
      nomatch howned
  · have hedited : node edited = .branch := by
      have hroot : view connected [] = some .branch := by rw [view_nil, hnode]
      have hnil : view edited [] = some .branch := by
        by_cases hpath : owned.segments = []
        · rw [hedit.inside [] ⟨owned, List.mem_cons_self, by rw [hpath]⟩, hroot]
        · rcases hedit.above [] ⟨owned, List.mem_cons_self, List.nil_prefix, hpath⟩ with hsame | h
          · rw [hsame, hroot]
          · exact h.1
      rw [view_nil] at hnil
      exact Option.some.inj hnil
    obtain ⟨hback, horder⟩ :=
      givenBack_of_project hbaseline hedited hdisjoint hpatch hedit hproject
    refine ⟨hback, ?_⟩
    rintro rfl
    have hconnected : Ordered edited := ordered_applyPatch hordered hvalues hconnect
    refine eq_of_view (horder hordered hconnected) hordered (funext fun path ↦ ?_)
    by_cases hin : Inside (owned :: ownedPaths) path
    · exact hback.owned path hin
    · rcases hpatch path hin with hsame | ⟨habove, hbranch, hlacks⟩
      · by_cases hmade : Above (owned :: ownedPaths) path ∧ Lacks (view baseline) path ∧
          Hollow (owned :: ownedPaths) edited path
        · exact hback.collapsed path hmade.1 hmade.2.1 hmade.2.2
        · exact (hback.kept path hin hmade).trans hsame
      · -- what the connection made holds nothing but what it wrote
        refine hback.collapsed path habove hlacks ⟨hbranch, fun lower hbelow hne ↦ ?_⟩
        by_cases hlower : Inside (owned :: ownedPaths) lower
        · exact Or.inl hlower
        · rcases hpatch lower hlower with hsame | ⟨hup, -⟩
          · exact absurd (hsame.trans (view_below_lacks hlacks hbelow)) hne
          · exact Or.inr hup

/-! ## A connection below a null -/

def authPath : ConfigPath := ⟨["security", "auth", "selectedType"]⟩

def nullSecurity : JsonValue := .object [("keep", .bool true), ("security", .null)]

/-- The document with the two ancestors that a connection makes in it. -/
def connectedSecurity (keep : Bool) : JsonValue :=
  .object [("keep", .bool keep),
    ("security", .object [("auth", .object [("selectedType", .string "api-key")])])]

theorem projectOwnedPaths_givesBack_nullSecurity :
    GivenBack [authPath] nullSecurity (connectedSecurity false)
        (.object [("keep", .bool false), ("security", .null)]) ∧
      (connectedSecurity false = connectedSecurity true →
        .object [("keep", .bool false), ("security", .null)] = nullSecurity) := by
  have hconnect : applyPatch nullSecurity
      [⟨.replace, authPath, some (.string "api-key")⟩] = .ok (connectedSecurity true) := rfl
  have hkeep : applyOperation (connectedSecurity true)
      ⟨.replace, ⟨["keep"]⟩, some (.bool false)⟩ = .ok (connectedSecurity false) := rfl
  have hordered : Ordered nullSecurity := by
    have hlt : "keep" < "security" := by decide +kernel
    refine ordered_object_iff.mpr ⟨List.pairwise_pair.mpr hlt, fun segment child hchild ↦ ?_⟩
    apply ordered_of_not_branch
    obtain ⟨before, after, hmembers, -⟩ := List.lookup_eq_some_iff.mp hchild
    have hmem : (segment, child) ∈ [("keep", JsonValue.bool true), ("security", .null)] := by
      rw [hmembers]
      simp
    simp only [List.mem_cons, Prod.mk.injEq, List.not_mem_nil, or_false] at hmem
    rcases hmem with ⟨-, rfl⟩ | ⟨-, rfl⟩
    · exact fun hbranch ↦ nomatch hbranch
    · exact fun hbranch ↦ nomatch hbranch
  refine projectOwnedPaths_givesBack rfl hordered (List.pairwise_singleton _ _) ?_ ?_ hconnect ?_
    rfl
  · intro operation hmem
    rw [List.mem_singleton.mp hmem]
    exact ⟨authPath, List.mem_singleton_self _, List.prefix_refl _⟩
  · intro operation hmem value hvalue
    rw [List.mem_singleton.mp hmem] at hvalue
    rw [← Option.some.inj hvalue]
    exact ordered_of_not_branch fun hbranch ↦ nomatch hbranch
  · refine editedOutside_applyOperation
      ⟨fun _ _ ↦ rfl, fun _ _ ↦ Or.inl rfl⟩ rfl ?_ ?_ hkeep
    · rintro ⟨owned, howned, hleads⟩
      rw [List.mem_singleton.mp howned] at hleads
      exact absurd hleads (by decide)
    · rintro ⟨owned, howned, hleads, -⟩
      rw [List.mem_singleton.mp howned] at hleads
      exact absurd hleads (by decide)

end Json

end TokenStation
