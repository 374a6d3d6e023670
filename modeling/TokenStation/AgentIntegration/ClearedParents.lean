import TokenStation.AgentIntegration.DocumentEditors

/-!
# Cleared parents

An operator may clear a container by hand, and leave null where a connection had made an object.
Writes take that null for an empty object, removals do not: an owned path below it cannot be
removed, and so neither be given back to a baseline that lacks it nor be stripped by force, until a
write comes by.
-/

namespace TokenStation

open Library Json

/-! ## What a removal and a projection are to leave -/

/-- The paths are gone, and nothing else has changed. -/
structure Removed (ownedPaths : List ConfigPath) (document next : PathTree String JsonValue) :
    Prop where
  absent : ∀ path, Inside ownedPaths path → next path = none
  kept : ∀ path, ¬ Inside ownedPaths path → next path = document path

/-- The paths are as in the baseline, and nothing else has changed but ancestors of theirs into
what they are there. -/
structure PutBack (ownedPaths : List ConfigPath)
    (baseline document next : PathTree String JsonValue) : Prop where
  owned : ∀ path, Inside ownedPaths path → next path = baseline path
  above : ∀ path, Above ownedPaths path → next path = document path ∨ next path = baseline path
  kept : ∀ path, ¬ Inside ownedPaths path → ¬ Above ownedPaths path → next path = document path

/-- Owned paths as a connection has checked them: they can be named and do not overlap. -/
structure Declared (ownedPaths : List ConfigPath) : Prop where
  apart : Apart ownedPaths
  valid : ∀ path ∈ ownedPaths, path.segments ≠ [] ∧ path.segments.all isValidSegment = true

/-! ## On an editor -/

section Editor

variable {δ ν α : Type} {editor : TreeEditor δ ν String String α} {read : α → JsonValue}
  {document : δ} {ownedPaths : List ConfigPath}

/-- A tree with its leaves as JSON values. -/
def reading (read : α → JsonValue) (tree : PathTree String α) : PathTree String JsonValue :=
  fun path ↦ (tree path).map (Node.map read)

theorem separate_map (hapart : Apart ownedPaths) (value : ConfigPath → Option ν) :
    Separate (ownedPaths.map fun path ↦ (path.segments, value path)) := by
  rw [Separate, List.pairwise_map]
  exact hapart

theorem not_inside_map {value : ConfigPath → Option ν} {path : List String}
    (h : ¬ Inside ownedPaths path) :
    ∀ edit ∈ ownedPaths.map fun path ↦ (path.segments, value path), ¬ edit.1 <+: path := by
  intro edit hedit hle
  obtain ⟨owned, howned, rfl⟩ := List.mem_map.mp hedit
  exact h ⟨owned, howned, hle⟩

/-- The edits that remove the paths. -/
def removals (ν : Type) (ownedPaths : List ConfigPath) : List (List String × Option ν) :=
  ownedPaths.map fun path ↦ (path.segments, none)

theorem eq_none_of_mem_removals {edit : List String × Option ν}
    (h : edit ∈ removals ν ownedPaths) : edit.2 = none := by
  obtain ⟨path, -, rfl⟩ := List.mem_map.mp h
  rfl

theorem fine_of_mem_removals {edit : List String × Option ν} (h : edit ∈ removals ν ownedPaths) :
    ∀ value ∈ edit.2, editor.fine value := by
  intro value hvalue
  rw [eq_none_of_mem_removals h] at hvalue
  exact absurd hvalue (Option.not_mem_none value)

/-- Removals leave a document without the paths. -/
theorem removed_of_applyAll {next : δ} (hgood : editor.good document) (hapart : Apart ownedPaths)
    (h : applyAll editor.put document (removals ν ownedPaths) = .ok next) :
    Removed ownedPaths (reading read (editor.tree document)) (reading read (editor.tree next)) := by
  obtain ⟨-, hinside, houtside⟩ := TreeEditor.tree_applyAll hgood (separate_map hapart _)
    (fun _ hedit ↦ fine_of_mem_removals hedit) h
  refine ⟨?_, fun path hpath ↦ ?_⟩
  · rintro path ⟨owned, howned, lower, rfl⟩
    rw [reading, hinside _ (List.mem_map_of_mem howned)]
    rfl
  · rcases houtside path (not_inside_map hpath) with hsame | ⟨⟨edit, hedit, hsome, -⟩, -⟩
    · rw [reading, reading, hsame]
    · rw [eq_none_of_mem_removals hedit] at hsome
      nomatch hsome

theorem exists_removed_iff (hgood : editor.good document) (hapart : Apart ownedPaths)
    (hvalid : ∀ path ∈ ownedPaths, editor.valid path.segments)
    (hpass : editor.Passable (editor.tree document) (removals ν ownedPaths)) :
    (∃ next, applyAll editor.put document (removals ν ownedPaths) = .ok next ∧
        Removed ownedPaths (reading read (editor.tree document))
          (reading read (editor.tree next))) ↔
      ∀ path ∈ ownedPaths, ∀ upper, Below upper path.segments →
        editor.tree document upper ≠ some (.leaf editor.soft) := by
  have hvalidEdits : ∀ edit ∈ removals ν ownedPaths, editor.valid edit.1 :=
    List.forall_mem_map.mpr hvalid
  have hseparate : Separate (removals ν ownedPaths) := separate_map hapart _
  have hruns := TreeEditor.exists_applyAll_iff hgood hseparate
    (fun edit hedit ↦ ⟨hvalidEdits edit hedit, fine_of_mem_removals hedit⟩) hpass
  rw [TreeEditor.unblocked_iff_of_removals fun _ hedit ↦ eq_none_of_mem_removals hedit] at hruns
  have hforall : (∀ edit ∈ removals ν ownedPaths, ∀ upper, Below upper edit.1 →
        editor.tree document upper ≠ some (.leaf editor.soft)) ↔
      ∀ path ∈ ownedPaths, ∀ upper, Below upper path.segments →
        editor.tree document upper ≠ some (.leaf editor.soft) := List.forall_mem_map
  rw [← hforall, ← hruns]
  exact ⟨fun ⟨next, hnext, _⟩ ↦ ⟨next, hnext⟩,
    fun ⟨next, hnext⟩ ↦ ⟨next, hnext, removed_of_applyAll hgood hapart hnext⟩⟩

theorem exists_putBack_iff {baseline : PathTree String JsonValue} {base : PathTree String α}
    {value : ConfigPath → Option ν} {restores : List (List String × Option ν)}
    (hgood : editor.good document) (hapart : Apart ownedPaths)
    (hvalid : ∀ path ∈ ownedPaths, editor.valid path.segments ∧
      ∀ written ∈ value path, editor.fine written)
    (hpass : editor.Passable (editor.tree document)
      (ownedPaths.map fun path ↦ (path.segments, value path)))
    (hwritten : ∀ path ∈ ownedPaths, ∀ lower,
      (editor.written (path.segments, value path) lower).map (Node.map read) =
        baseline (path.segments ++ lower))
    (hrooted : ∀ path ∈ ownedPaths, (value path).isSome = true →
      ∀ upper, Below upper path.segments → baseline upper = some .branch)
    (hrestores : ∀ edit ∈ restores, editor.valid edit.1 ∧ ∀ written ∈ edit.2, editor.fine written)
    (hback : ∀ edit ∈ restores, editor.GivesBack base edit ∧ Above ownedPaths edit.1 ∧
      (base edit.1).map (Node.map read) = baseline edit.1) :
    (∃ next, editor.project document
          (ownedPaths.map fun path ↦ (path.segments, value path)) restores = .ok next ∧
        PutBack ownedPaths baseline (reading read (editor.tree document))
          (reading read (editor.tree next))) ↔
      editor.Unblocked (editor.tree document)
        (ownedPaths.map fun path ↦ (path.segments, value path)) := by
  have houtside : ∀ edit ∈ restores, ∀ other ∈ ownedPaths.map fun path ↦
      (path.segments, value path), ¬ other.1 <+: edit.1 := fun edit hedit ↦
    not_inside_map (not_inside_of_above hapart (hback edit hedit).2.1)
  have hvalidEdits : ∀ edit ∈ ownedPaths.map fun path ↦ (path.segments, value path),
      editor.valid edit.1 ∧ ∀ written ∈ edit.2, editor.fine written :=
    List.forall_mem_map.mpr hvalid
  have hbase := fun edit hedit ↦ (hback edit hedit).1
  rw [← TreeEditor.exists_project_iff hgood (separate_map hapart value) hvalidEdits hpass
    hrestores hbase]
  refine ⟨fun ⟨next, hnext, _⟩ ↦ ⟨next, hnext⟩, fun ⟨next, hnext⟩ ↦ ⟨next, hnext, ?_⟩⟩
  have hprojected := TreeEditor.projected_of_project hgood (separate_map hapart value)
    (fun edit hedit ↦ (hvalidEdits edit hedit).2) hrestores hbase houtside hnext
  -- outside of the owned paths only ancestors move, into what they are in the baseline
  have hmoved (path : List String) (hpath : ¬ Inside ownedPaths path) :
      reading read (editor.tree next) path = reading read (editor.tree document) path ∨
        Above ownedPaths path ∧ reading read (editor.tree next) path = baseline path := by
    rw [reading, reading]
    rcases hprojected.outside path (not_inside_map hpath) with hsame |
      ⟨⟨edit, hedit, hsome, hbelow⟩, hbranch⟩ | ⟨⟨edit, hedit, rfl⟩, hgiven⟩
    · exact .inl (by rw [hsame])
    · obtain ⟨owned, howned, rfl⟩ := List.mem_map.mp hedit
      refine .inr ⟨⟨owned, howned, hbelow⟩, ?_⟩
      rw [hbranch, hrooted owned howned hsome path hbelow]
      rfl
    · refine .inr ⟨(hback edit hedit).2.1, ?_⟩
      rw [hgiven, (hback edit hedit).2.2]
  refine ⟨?_, fun path habove ↦ ?_, fun path hpath hnot ↦ ?_⟩
  · rintro path ⟨owned, howned, lower, rfl⟩
    rw [reading, hprojected.inside _ (List.mem_map_of_mem howned)]
    exact hwritten owned howned lower
  · exact (hmoved path (not_inside_of_above hapart habove)).imp_right And.right
  · exact (hmoved path hpath).resolve_right fun hboth ↦ hnot hboth.1

end Editor

/-! ## On JSON -/

namespace Json

theorem reading_id (tree : PathTree String JsonValue) : reading id tree = tree := by
  funext path
  rw [reading]
  rcases tree path with - | - | value <;> rfl

theorem view_eq_null_iff {root : JsonValue} {path : List String} :
    view root path = some (.leaf .null) ↔ valueAt root path = some .null := by
  rw [view]
  constructor
  · intro h
    obtain ⟨value, hvalue, hnode⟩ := Option.map_eq_some_iff.mp h
    rw [hvalue, node_eq_null hnode]
  · intro h
    rw [h]
    rfl

theorem applyAll_removals (root : JsonValue) (ownedPaths : List ConfigPath) :
    applyAll applyOperation root (ownedPaths.map fun path ↦ ⟨.remove, path, none⟩) =
      applyAll editor.put root (removals JsonValue ownedPaths) := by
  have hput : (fun (root : JsonValue) (path : ConfigPath) ↦
        applyOperation root ⟨.remove, path, none⟩) =
      fun root path ↦ editor.put root (path.segments, none) := rfl
  rw [applyAll_comp, hput, removals, applyAll_comp]

/-- An ancestor of a path that can be named can be named. -/
theorem valid_of_above {ownedPaths : List ConfigPath} (hpaths : Declared ownedPaths)
    {path : List String} (hne : path ≠ []) (h : Above ownedPaths path) :
    path ≠ [] ∧ path.all isValidSegment = true := by
  obtain ⟨owned, howned, ⟨rest, hrest⟩, -⟩ := h
  obtain ⟨-, hvalid⟩ := hpaths.valid owned howned
  rw [← hrest, List.all_append, Bool.and_eq_true] at hvalid
  exact ⟨hne, hvalid.1⟩

theorem givesBack_of_mem {baseline : JsonValue} {edit : List String × Option JsonValue}
    (h : edit.2 = none ∧ valueAt baseline edit.1 = none ∨
      edit.2 = some .null ∧ valueAt baseline edit.1 = some .null) :
    editor.GivesBack (view baseline) edit := by
  intro lower
  rw [TreeEditor.written, view]
  rcases h with ⟨hvalue, hbase⟩ | ⟨hvalue, hbase⟩
  · rw [hvalue, hbase]
    exact (ite_self none).symm
  · rw [hvalue, hbase]
    rcases lower with - | ⟨segment, lower⟩ <;> rfl

theorem exists_putBack_iff {document baseline : JsonValue} {ownedPaths : List ConfigPath}
    (hdocument : node document = .branch) (hbaseline : node baseline = .branch)
    (hpaths : Declared ownedPaths)
    (hpass : editor.Passable (view document) (ownedEdits baseline ownedPaths)) :
    (∃ next, projectOwnedPaths document baseline ownedPaths = .ok next ∧
        PutBack ownedPaths (view baseline) (view document) (view next)) ↔
      editor.Unblocked (view document) (ownedEdits baseline ownedPaths) := by
  have hrestores : ∀ edit ∈ restoreEdits baseline ownedPaths,
      editor.valid edit.1 ∧ ∀ written ∈ edit.2, editor.fine written := by
    intro edit hedit
    obtain ⟨hne, habove, -⟩ := mem_restoreEdits hbaseline hedit
    exact ⟨valid_of_above hpaths hne habove, fun _ _ ↦ trivial⟩
  have hback : ∀ edit ∈ restoreEdits baseline ownedPaths,
      editor.GivesBack (view baseline) edit ∧ Above ownedPaths edit.1 ∧
        (view baseline edit.1).map (Node.map id) = view baseline edit.1 := by
    intro edit hedit
    obtain ⟨-, habove, hstate⟩ := mem_restoreEdits hbaseline hedit
    exact ⟨givesBack_of_mem hstate, habove, congrFun (reading_id (view baseline)) edit.1⟩
  have hiff := TokenStation.exists_putBack_iff hdocument hpaths.apart
    (fun path hpath ↦ ⟨hpaths.valid path hpath, fun _ _ ↦ trivial⟩) hpass ?_ ?_ hrestores hback
  · rw [projectOwnedPaths_eq hdocument hbaseline]
    simp only [reading_id] at hiff
    exact hiff
  · intro path _ lower
    rw [TreeEditor.written]
    rcases hvalue : valueAt baseline path.segments with - | value
    · rw [view_eq_none_of_append hvalue]
      rfl
    · rw [view_append hvalue]
      exact congrFun (reading_id (view value)) lower
  · intro path _ hsome upper hupper
    refine rooted_view baseline upper path.segments hupper ?_
    obtain ⟨value, hvalue⟩ := Option.isSome_iff_exists.mp hsome
    rw [view, hvalue]
    exact Option.some_ne_none _

end Json

/-! ## On JSON5 -/

namespace Json5

theorem reading_semantic (root : Json5Value) :
    reading semantic (view id root) = Json.view (semantic root) := by
  funext path
  rw [← view_semantic, reading, ← view_map]

theorem view_eq_null_iff {root : Json5Value} {path : List String} :
    view id root path = some (.leaf .null) ↔ find root path = some .null := by
  rw [view]
  constructor
  · intro h
    obtain ⟨value, hvalue, hnode⟩ := Option.map_eq_some_iff.mp h
    rw [hvalue]
    rcases value <;> first | rfl | cases hnode
  · intro h
    rw [h]
    rfl

theorem applyAll_removals (root : Json5Value) (ownedPaths : List ConfigPath) :
    applyAll applyOperation root (ownedPaths.map fun path ↦ ⟨.remove, path, none⟩) =
      applyAll editor.put root (removals Json5Value ownedPaths) := by
  have hput : (fun (root : Json5Value) (path : ConfigPath) ↦
        applyOperation root ⟨.remove, path, none⟩) =
      fun root path ↦ editor.put root (path.segments, none) := by
    funext root path
    exact applyOperation_putOperation root (path.segments, none)
  rw [applyAll_comp, hput, removals, applyAll_comp]

/-- What an ancestor is given back to. -/
def ancestorBase (baseline : Json5Value) : PathTree String Json5Value := fun path ↦
  match Json.valueAt (semantic baseline) path with
  | some .null => some (.leaf .null)
  | _ => none

theorem exists_putBack_iff {commented : Bool} {document baseline : Json5Value}
    {ownedPaths : List ConfigPath} (hdocument : editor.good document)
    (hbaseline : editor.good baseline) (hpaths : Declared ownedPaths)
    (hpass : editor.Passable (view id document) (ownedEdits baseline ownedPaths)) :
    (∃ next, projectOwnedPaths commented document baseline ownedPaths = .ok next ∧
        PutBack ownedPaths (Json.view (semantic baseline)) (Json.view (semantic document))
          (Json.view (semantic next))) ↔
      editor.Unblocked (view id document) (ownedEdits baseline ownedPaths) := by
  have hobject : node (semantic baseline) = .branch := by
    obtain ⟨pairs, rfl⟩ := hbaseline.2
    rfl
  have hrestores : ∀ edit ∈ restoreEdits commented baseline ownedPaths,
      editor.valid edit.1 ∧ ∀ written ∈ edit.2, editor.fine written := by
    intro edit hedit
    obtain ⟨source, hsource, rfl⟩ := mem_restoreEdits hedit
    exact ⟨(Json.mem_restoreEdits hobject hsource).1, fine_restoreEdits hbaseline hedit⟩
  have hback : ∀ edit ∈ restoreEdits commented baseline ownedPaths,
      editor.GivesBack (ancestorBase baseline) edit ∧ Above ownedPaths edit.1 ∧
        (ancestorBase baseline edit.1).map (Node.map semantic) =
          Json.view (semantic baseline) edit.1 := by
    intro edit hedit
    obtain ⟨source, hsource, rfl⟩ := mem_restoreEdits hedit
    obtain ⟨-, habove, hstate⟩ := Json.mem_restoreEdits hobject hsource
    obtain ⟨segments, value⟩ := source
    refine ⟨fun lower ↦ ?_, habove, ?_⟩
    · rw [TreeEditor.written, ancestorBase]
      rcases hstate with ⟨hvalue, hbase⟩ | ⟨hvalue, hbase⟩
      · obtain rfl : value = none := hvalue
        rw [ofJson, hbase]
        exact (ite_self none).symm
      · obtain rfl : value = some .null := hvalue
        rw [ofJson, hbase]
        rcases lower with - | ⟨segment, lower⟩ <;> rfl
    · rw [ancestorBase, ofJson, Json.view]
      rcases hstate with ⟨-, hbase⟩ | ⟨-, hbase⟩
      · rw [hbase]
        rfl
      · rw [hbase]
        rfl
  have hvalue (path : ConfigPath) :
      Json.valueAt (semantic baseline) path.segments = (find baseline path.segments).map semantic :=
    valueAt_semantic baseline path.segments
  have hiff := TokenStation.exists_putBack_iff hdocument hpaths.apart
    (fun path hpath ↦ ⟨(hpaths.valid path hpath).1, fun value hfound ↦
      distinct_find hbaseline.1 hfound⟩) hpass ?_ ?_ hrestores hback
  · rw [projectOwnedPaths_eq hdocument hbaseline]
    simp only [← reading_semantic] at hiff ⊢
    exact hiff
  · intro path _ lower
    rw [TreeEditor.written]
    rcases hfound : find baseline path.segments with - | value
    · rw [view_eq_none_of_append (by rw [hvalue, hfound]; rfl)]
      rfl
    · have hsome : Json.valueAt (semantic baseline) path.segments = some (semantic value) := by
        rw [hvalue, hfound]
        rfl
      rw [view_append hsome]
      exact congrFun (reading_semantic value) lower
  · intro path _ hsome upper hupper
    refine Json.rooted_view (semantic baseline) upper path.segments hupper ?_
    obtain ⟨value, hfound⟩ := Option.isSome_iff_exists.mp hsome
    rw [Json.view, hvalue, hfound]
    exact Option.some_ne_none _

end Json5

/-! ## On documents -/

namespace ConfigDocument

def format : ConfigDocument → DocumentFormat
  | json _ => .json
  | json5 _ => .json5
  | dotenv _ => .dotenv

/-- A JSON object, or a JSON5 object without a property that stands twice. -/
def IsObject : ConfigDocument → Prop
  | json root => ∃ members, root = .object members
  | json5 root => Json5.Distinct root ∧ ∃ pairs, root = .object pairs
  | dotenv _ => False

/-- The path is missing. -/
def HasNothing : ConfigDocument → List String → Prop
  | json root, path => valueAt root path = none
  | json5 root, path => Json5.find root path = none
  | dotenv _, _ => False

def HasNull : ConfigDocument → List String → Prop
  | json root, path => valueAt root path = some .null
  | json5 root, path => Json5.find root path = some .null
  | dotenv _, _ => False

def HasObject : ConfigDocument → List String → Prop
  | json root, path => ∃ members, valueAt root path = some (.object members)
  | json5 root, path => ∃ pairs, Json5.find root path = some (.object pairs)
  | dotenv _, _ => False

/-- What stands at each path. -/
def view (document : ConfigDocument) : PathTree String JsonValue := Json.view document.meaning

/-- Above the paths there is nothing but objects and null. -/
def Cleared (document : ConfigDocument) (ownedPaths : List ConfigPath) : Prop :=
  ∀ path ∈ ownedPaths, ∀ upper, Below upper path.segments →
    document.HasNothing upper ∨ document.HasNull upper ∨ document.HasObject upper

/-- No null stands above the paths. -/
def NoNullAbove (document : ConfigDocument) (ownedPaths : List ConfigPath) : Prop :=
  ∀ path ∈ ownedPaths, ∀ upper, Below upper path.segments → ¬ document.HasNull upper

/-- Where null stands above a path that the baseline lacks, an earlier path below that null is given
its value first. -/
def NullsFilled (document baseline : ConfigDocument) (ownedPaths : List ConfigPath) : Prop :=
  ∀ before path after, ownedPaths = before ++ path :: after → baseline.HasNothing path.segments →
    ∀ upper, Below upper path.segments → document.HasNull upper →
      ∃ earlier ∈ before, ¬ baseline.HasNothing earlier.segments ∧ Below upper earlier.segments

end ConfigDocument

/-- The removals of a forced disconnect. -/
def removalsOf (ownedPaths : List ConfigPath) : List PatchOperation :=
  ownedPaths.map fun path ↦ ⟨.remove, path, none⟩

/-- The edits of owned paths are blocked as the document and the baseline say. -/
theorem unblocked_iff_nullsFilled {δ ν α : Type} {editor : TreeEditor δ ν String String α}
    {tree : PathTree String α} {value : ConfigPath → Option ν} {document baseline : ConfigDocument}
    (hnull : ∀ upper, tree upper = some (.leaf editor.soft) ↔ document.HasNull upper)
    (hnothing : ∀ path, value path = none ↔ baseline.HasNothing path.segments)
    (ownedPaths : List ConfigPath) :
    editor.Unblocked tree (ownedPaths.map fun path ↦ (path.segments, value path)) ↔
      document.NullsFilled baseline ownedPaths := by
  have hsome (path : ConfigPath) :
      (value path).isSome = true ↔ ¬ baseline.HasNothing path.segments := by
    rw [← hnothing, Option.isSome_iff_ne_none]
  constructor
  · rintro hfree before path after rfl hlacks upper hupper hhas
    obtain ⟨edit, hedit, hvalue, hbelow⟩ := hfree
      (before.map fun path ↦ (path.segments, value path)) path.segments
      (after.map fun path ↦ (path.segments, value path))
      (by rw [List.map_append, List.map_cons, (hnothing path).mpr hlacks]) upper hupper
      ((hnull upper).mpr hhas)
    obtain ⟨earlier, hearlier, rfl⟩ := List.mem_map.mp hedit
    exact ⟨earlier, hearlier, (hsome earlier).mp hvalue, hbelow⟩
  · intro hfilled before segments after hedits upper hupper hsoft
    obtain ⟨firsts, rest, rfl, rfl, hrest⟩ := List.map_eq_append_iff.mp hedits
    obtain ⟨path, lasts, rfl, hpath, -⟩ := List.map_eq_cons_iff.mp hrest
    obtain ⟨rfl, hvalue⟩ := Prod.mk.inj hpath
    obtain ⟨earlier, hearlier, hhas, hbelow⟩ := hfilled firsts path lasts rfl
      ((hnothing path).mp hvalue) upper hupper ((hnull upper).mp hsoft)
    exact ⟨_, List.mem_map_of_mem hearlier, (hsome earlier).mpr hhas, hbelow⟩

/-- What a cleared document has above its paths is passable. -/
theorem passable_of_cleared {δ ν α : Type} {editor : TreeEditor δ ν String String α}
    {tree : PathTree String α} {document : ConfigDocument} {ownedPaths : List ConfigPath}
    (hstands : ∀ upper,
      document.HasNothing upper ∨ document.HasNull upper ∨ document.HasObject upper →
        tree upper = some .branch ∨ tree upper = none ∨ tree upper = some (.leaf editor.soft))
    (hcleared : document.Cleared ownedPaths) (value : ConfigPath → Option ν) :
    editor.Passable tree (ownedPaths.map fun path ↦ (path.segments, value path)) := by
  intro edit hedit upper hupper
  obtain ⟨path, hpath, rfl⟩ := List.mem_map.mp hedit
  exact hstands upper (hcleared path hpath upper hupper)

theorem json_stands {root : JsonValue} {upper : List String}
    (h : (ConfigDocument.json root).HasNothing upper ∨ (ConfigDocument.json root).HasNull upper ∨
      (ConfigDocument.json root).HasObject upper) :
    Json.view root upper = some .branch ∨ Json.view root upper = none ∨
      Json.view root upper = some (.leaf .null) := by
  rw [Json.view]
  obtain hnone | hnull | ⟨members, hmembers⟩ := h
  · exact .inr (.inl (congrArg (Option.map node) hnone))
  · exact .inr (.inr (congrArg (Option.map node) hnull))
  · exact .inl (congrArg (Option.map node) hmembers)

theorem json5_stands {root : Json5Value} {upper : List String}
    (h : (ConfigDocument.json5 root).HasNothing upper ∨
      (ConfigDocument.json5 root).HasNull upper ∨ (ConfigDocument.json5 root).HasObject upper) :
    Json5.view id root upper = some .branch ∨ Json5.view id root upper = none ∨
      Json5.view id root upper = some (.leaf .null) := by
  rw [Json5.view]
  obtain hnone | hnull | ⟨pairs, hpairs⟩ := h
  · exact .inr (.inl (congrArg (Option.map (Json5.nodeBy id)) hnone))
  · exact .inr (.inr (congrArg (Option.map (Json5.nodeBy id)) hnull))
  · exact .inl (congrArg (Option.map (Json5.nodeBy id)) hpairs)

/-- What a patch of an embedded document leaves. -/
theorem exists_map_iff {δ : Type} {wrap : δ → ConfigDocument} {result : Except String δ}
    {good : ConfigDocument → Prop} :
    (∃ next, result.map wrap = .ok next ∧ good next) ↔
      ∃ next, result = .ok next ∧ good (wrap next) := by
  rcases result with error | next
  · exact iff_of_false (fun ⟨_, h, _⟩ ↦ nomatch h) fun ⟨_, h, _⟩ ↦ nomatch h
  · constructor
    · rintro ⟨_, hnext, hgood⟩
      obtain rfl := Except.ok.inj hnext
      exact ⟨next, rfl, hgood⟩
    · rintro ⟨_, hnext, hgood⟩
      obtain rfl := Except.ok.inj hnext
      exact ⟨wrap next, rfl, hgood⟩

/-- Removals go through just when no null stands above their paths. -/
theorem removed_iff {document : ConfigDocument} {ownedPaths : List ConfigPath}
    (hdocument : document.IsObject) (hpaths : Declared ownedPaths)
    (hcleared : document.Cleared ownedPaths) :
    (∃ next, document.applyPatch (removalsOf ownedPaths) = .ok next ∧
        Removed ownedPaths document.view next.view) ↔
      document.NoNullAbove ownedPaths := by
  rcases document with root | root | document
  case json =>
    obtain ⟨members, rfl⟩ := hdocument
    have hpass : Json.editor.Passable (Json.view (.object members))
        (removals JsonValue ownedPaths) :=
      passable_of_cleared (fun _ ↦ json_stands) hcleared _
    have hiff : (∃ next, applyAll Json.editor.put (.object members)
          (removals JsonValue ownedPaths) = .ok next ∧
        Removed ownedPaths (reading id (Json.view (.object members)))
          (reading id (Json.view next))) ↔ _ :=
      exists_removed_iff rfl hpaths.apart hpaths.valid hpass
    simp only [Json.reading_id] at hiff
    rw [ConfigDocument.applyPatch, applyAll_map fun _ _ ↦ rfl, exists_map_iff, removalsOf,
      Json.applyAll_removals]
    refine hiff.trans ?_
    exact forall₂_congr fun _ _ ↦ forall₂_congr fun _ _ ↦ not_congr Json.view_eq_null_iff
  case json5 =>
    have hpass : Json5.editor.Passable (Json5.view id root) (removals Json5Value ownedPaths) :=
      passable_of_cleared (fun _ ↦ json5_stands) hcleared _
    have hiff : (∃ next, applyAll Json5.editor.put root (removals Json5Value ownedPaths) =
          .ok next ∧ Removed ownedPaths (reading Json5.semantic (Json5.view id root))
          (reading Json5.semantic (Json5.view id next))) ↔ _ :=
      exists_removed_iff hdocument hpaths.apart (fun path hpath ↦ (hpaths.valid path hpath).1)
        hpass
    rw [ConfigDocument.applyPatch, applyAll_map fun _ _ ↦ rfl, exists_map_iff, removalsOf,
      Json5.applyAll_removals]
    change (∃ next, _ ∧ Removed ownedPaths (Json.view (Json5.semantic root))
      (Json.view (Json5.semantic next))) ↔ _
    simp only [← Json5.reading_semantic]
    refine hiff.trans ?_
    exact forall₂_congr fun _ _ ↦ forall₂_congr fun _ _ ↦ not_congr Json5.view_eq_null_iff
  case dotenv => exact hdocument.elim

/-- A projection goes through just when the nulls above removed paths are filled. -/
theorem putBack_iff {document baseline : ConfigDocument} {ownedPaths : List ConfigPath}
    (commented : Bool) (hdocument : document.IsObject) (hbaseline : baseline.IsObject)
    (hformat : document.format = baseline.format) (hpaths : Declared ownedPaths)
    (hcleared : document.Cleared ownedPaths) :
    (∃ next, document.projectOwnedPaths commented baseline ownedPaths = .ok next ∧
        PutBack ownedPaths baseline.view document.view next.view) ↔
      document.NullsFilled baseline ownedPaths := by
  rcases document with root | root | document
  case json =>
    rcases baseline with base | base | base
    case json =>
      obtain ⟨members, rfl⟩ := hdocument
      obtain ⟨baseMembers, rfl⟩ := hbaseline
      have hpass : Json.editor.Passable (Json.view (.object members))
          (Json.ownedEdits (.object baseMembers) ownedPaths) :=
        passable_of_cleared (fun _ ↦ json_stands) hcleared _
      rw [ConfigDocument.projectOwnedPaths, exists_map_iff]
      refine (Json.exists_putBack_iff rfl rfl hpaths hpass).trans ?_
      exact unblocked_iff_nullsFilled (fun _ ↦ Json.view_eq_null_iff) (fun _ ↦ Iff.rfl) ownedPaths
    all_goals nomatch hformat
  case json5 =>
    rcases baseline with base | base | base
    case json5 =>
      have hpass : Json5.editor.Passable (Json5.view id root)
          (Json5.ownedEdits base ownedPaths) :=
        passable_of_cleared (fun _ ↦ json5_stands) hcleared _
      rw [ConfigDocument.projectOwnedPaths, exists_map_iff]
      refine (Json5.exists_putBack_iff hdocument hbaseline hpaths hpass).trans ?_
      exact unblocked_iff_nullsFilled (fun _ ↦ Json5.view_eq_null_iff) (fun _ ↦ Iff.rfl) ownedPaths
    all_goals nomatch hformat
  case dotenv => exact hdocument.elim

theorem removed_of_applyPatch {document next : ConfigDocument} {ownedPaths : List ConfigPath}
    (hdocument : document.IsObject) (hapart : Apart ownedPaths)
    (h : document.applyPatch (removalsOf ownedPaths) = .ok next) :
    Removed ownedPaths document.view next.view := by
  rcases document with root | root | document
  case json =>
    obtain ⟨members, rfl⟩ := hdocument
    rw [ConfigDocument.applyPatch, applyAll_map fun _ _ ↦ rfl, removalsOf,
      Json.applyAll_removals] at h
    rcases hrun : applyAll Json.editor.put (.object members) (removals JsonValue ownedPaths)
      with error | last
    · rw [hrun] at h
      nomatch h
    · rw [hrun] at h
      obtain rfl := Except.ok.inj h
      have hremoved := @removed_of_applyAll _ _ _ _ id _ _ _ rfl hapart hrun
      rwa [Json.reading_id, Json.reading_id] at hremoved
  case json5 =>
    rw [ConfigDocument.applyPatch, applyAll_map fun _ _ ↦ rfl, removalsOf,
      Json5.applyAll_removals] at h
    rcases hrun : applyAll Json5.editor.put root (removals Json5Value ownedPaths)
      with error | last
    · rw [hrun] at h
      nomatch h
    · rw [hrun] at h
      obtain rfl := Except.ok.inj h
      have hremoved := @removed_of_applyAll _ _ _ _ Json5.semantic _ _ _ hdocument hapart hrun
      have htree (value : Json5Value) : Json5.editor.tree value = Json5.view id value := rfl
      rwa [htree, htree, Json5.reading_semantic, Json5.reading_semantic] at hremoved
  case dotenv => exact hdocument.elim

/-- The forced projection gets past its removals just when no null stands above their paths. -/
theorem forceStrip_iff {document : ConfigDocument} {ownedPaths : List ConfigPath}
    (hdocument : document.IsObject) (hpaths : Declared ownedPaths)
    (hcleared : document.Cleared ownedPaths) (target : String) (source : ConfigSource)
    (format : DocumentFormat) (label : String) :
    (∀ env : ForceStripEnv, ∃ next, Removed ownedPaths document.view next.view ∧
        env.prepareForceStripProjection target source document format label
          (removalsOf ownedPaths) = env.prepare target source format label next) ↔
      document.NoNullAbove ownedPaths := by
  rw [← removed_iff hdocument hpaths hcleared]
  constructor
  · intro hall
    -- an environment that accepts every document
    obtain ⟨next, -, hsame⟩ := hall ⟨fun _ _ ↦ .ok "", fun _ ↦ "", none⟩
    rcases hpatch : document.applyPatch (removalsOf ownedPaths) with error | stripped
    · rw [ForceStripEnv.prepareForceStripProjection, hpatch] at hsame
      nomatch hsame
    · exact ⟨stripped, rfl, removed_of_applyPatch hdocument hpaths.apart hpatch⟩
  · rintro ⟨next, hnext, hremoved⟩ env
    refine ⟨next, hremoved, ?_⟩
    rw [ForceStripEnv.prepareForceStripProjection, hnext]

/-- **A cleared parent blocks the removal of an owned path just when it is null.** A projection is
blocked where the baseline lacks the path, and no earlier path puts an object in place of the
null. -/
theorem clearedParents_iff {document baseline : ConfigDocument} {ownedPaths : List ConfigPath}
    (hdocument : document.IsObject) (hbaseline : baseline.IsObject)
    (hformat : document.format = baseline.format) (hpaths : Declared ownedPaths)
    (hcleared : document.Cleared ownedPaths) :
    ((∃ next, document.applyPatch (removalsOf ownedPaths) = .ok next ∧
        Removed ownedPaths document.view next.view) ↔ document.NoNullAbove ownedPaths) ∧
    (∀ commented,
      (∃ next, document.projectOwnedPaths commented baseline ownedPaths = .ok next ∧
        PutBack ownedPaths baseline.view document.view next.view) ↔
        document.NullsFilled baseline ownedPaths) ∧
    ∀ target source format label,
      (∀ env : ForceStripEnv, ∃ next, Removed ownedPaths document.view next.view ∧
        env.prepareForceStripProjection target source document format label
          (removalsOf ownedPaths) = env.prepare target source format label next) ↔
        document.NoNullAbove ownedPaths :=
  ⟨removed_iff hdocument hpaths hcleared,
    fun commented ↦ putBack_iff commented hdocument hbaseline hformat hpaths hcleared,
    fun target source format label ↦
      forceStrip_iff hdocument hpaths hcleared target source format label⟩

theorem below_pair {first second : String} {upper : List String}
    (h : Below upper [first, second]) : upper = [] ∨ upper = [first] := by
  rcases upper with _ | ⟨segment, upper⟩
  · exact .inl rfl
  · obtain ⟨rfl, hupper⟩ := List.cons_prefix_cons.mp h.1
    rcases upper with _ | ⟨segment', upper⟩
    · exact .inr rfl
    · obtain ⟨rfl, hnil⟩ := List.cons_prefix_cons.mp hupper
      obtain rfl := List.prefix_nil.mp hnil
      exact absurd rfl h.2

theorem declared_keyInEnv : Declared [⟨["env", "KEY"]⟩] := by
  refine ⟨List.pairwise_singleton _ _, fun path hpath ↦ ?_⟩
  obtain rfl := List.mem_singleton.mp hpath
  exact ⟨List.cons_ne_nil _ _, by decide +kernel⟩

/-- A path below a container that is there is removed. -/
theorem clearedParents_iff_emptyContainer :
    ((∃ next, (ConfigDocument.json (.object [("env", .object [])])).applyPatch
          (removalsOf [⟨["env", "KEY"]⟩]) = .ok next ∧
        Removed [⟨["env", "KEY"]⟩] (ConfigDocument.json (.object [("env", .object [])])).view
          next.view) ↔
      (ConfigDocument.json (.object [("env", .object [])])).NoNullAbove [⟨["env", "KEY"]⟩]) := by
  have hdocument : (ConfigDocument.json (.object [("env", .object [])])).IsObject := ⟨_, rfl⟩
  have hbaseline : (ConfigDocument.json (.object [])).IsObject := ⟨[], rfl⟩
  have hcleared : (ConfigDocument.json (.object [("env", .object [])])).Cleared
      [⟨["env", "KEY"]⟩] := by
    intro path hpath upper hupper
    obtain rfl := List.mem_singleton.mp hpath
    obtain rfl | rfl := below_pair hupper
    · exact .inr (.inr ⟨_, rfl⟩)
    · exact .inr (.inr ⟨[], rfl⟩)
  exact (clearedParents_iff hdocument hbaseline rfl declared_keyInEnv hcleared).1

/-- Null above a path that the baseline lacks blocks all three. -/
theorem not_clearedParents_null :
    ∃ (document baseline : ConfigDocument) (ownedPaths : List ConfigPath),
      document.IsObject ∧ baseline.IsObject ∧ document.format = baseline.format ∧
        Declared ownedPaths ∧ document.Cleared ownedPaths ∧
        (∀ path ∈ ownedPaths, baseline.HasNothing path.segments) ∧
        (∀ next, document.applyPatch (removalsOf ownedPaths) ≠ .ok next) ∧
        (∀ commented next, document.projectOwnedPaths commented baseline ownedPaths ≠ .ok next) ∧
        ∀ (env : ForceStripEnv) target source format label next,
          env.prepareForceStripProjection target source document format label
            (removalsOf ownedPaths) ≠ .ok next := by
  refine ⟨.json (.object [("env", .null)]), .json (.object []), [⟨["env", "KEY"]⟩], ⟨_, rfl⟩,
    ⟨_, rfl⟩, rfl, declared_keyInEnv, ?_, ?_, ?_, ?_, ?_⟩
  · intro path hpath upper hupper
    obtain rfl := List.mem_singleton.mp hpath
    obtain rfl | rfl := below_pair hupper
    · exact .inr (.inr ⟨_, rfl⟩)
    · exact .inr (.inl rfl)
  · intro path hpath
    obtain rfl := List.mem_singleton.mp hpath
    rfl
  · intro next h
    have herror : Except.error (parentNotObject ⟨["env", "KEY"]⟩) = Except.ok next := h
    nomatch herror
  · intro _ next h
    have herror : Except.error (parentNotObject ⟨["env", "KEY"]⟩) = Except.ok next := h
    nomatch herror
  · intro _ _ _ _ _ next h
    have herror : Except.error (parentNotObject ⟨["env", "KEY"]⟩) = Except.ok next := h
    nomatch herror

end TokenStation
