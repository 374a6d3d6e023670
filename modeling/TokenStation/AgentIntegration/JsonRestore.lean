import TokenStation.AgentIntegration.JsonOrder

/-!
# The two passes of a disconnect

The owned paths are put back one after the other, and by the paths of the document nothing else
moves. Then the ancestors that the baseline lacks or has as null are collapsed, deepest first. The
last pass of the source, over null ancestors alone, finds nothing left to do.
-/

namespace TokenStation

open Library

namespace Json

/-- At an owned path or below one. -/
def Inside (ownedPaths : List ConfigPath) (path : List String) : Prop :=
  ∃ owned ∈ ownedPaths, owned.segments <+: path

/-- An ancestor of an owned path. -/
def Above (ownedPaths : List ConfigPath) (path : List String) : Prop :=
  ∃ owned ∈ ownedPaths, Below path owned.segments

/-! ## Putting the owned paths back -/

theorem semanticValueAt_of_branch {root : JsonValue} (h : node root = .branch) (path : ConfigPath) :
    semanticValueAt root path = valueAt root path.segments := by
  obtain ⟨members, rfl⟩ := node_eq_branch.mp h
  exact if_neg fun harray ↦ nomatch harray.1

theorem node_of_view_nil {root root' : JsonValue} (h : view root' [] = view root [])
    (hroot : node root = .branch) : node root' = .branch := by
  rw [view_nil, view_nil] at h
  rw [Option.some.inj h, hroot]

open Classical in
/-- One owned path is put back, and nothing else moves. -/
theorem view_ownedRestoration {baseline current current' : JsonValue} {path : ConfigPath}
    (hbaseline : node baseline = .branch) (hcurrent : node current = .branch)
    (habove : ∀ upper, Below upper path.segments → view baseline upper = some .branch →
      view current upper = some .branch)
    (h : applyOperation current (ownedRestoration baseline path) = .ok current') :
    path.segments ≠ [] ∧
      ∀ p, view current' p = if path.segments <+: p then view baseline p else view current p := by
  rw [ownedRestoration, semanticValueAt_of_branch hbaseline] at h
  rcases hvalue : valueAt baseline path.segments with - | value
  · rw [hvalue] at h
    obtain ⟨hpath, hview⟩ := view_of_remove hcurrent h
    refine ⟨hpath, fun p ↦ ?_⟩
    rw [hview]
    by_cases hp : path.segments <+: p
    · obtain ⟨rest, rfl⟩ := hp
      rw [PathTree.prune_of_prefix (List.prefix_append _ _), if_pos (List.prefix_append _ _),
        view_eq_none_of_append hvalue]
    · rw [PathTree.prune_beside hp, if_neg hp]
  · rw [hvalue] at h
    obtain ⟨hpath, hview⟩ := view_of_replace hcurrent h
    refine ⟨hpath, fun p ↦ ?_⟩
    rw [hview]
    by_cases hp : path.segments <+: p
    · obtain ⟨rest, rfl⟩ := hp
      rw [PathTree.graft_of_prefix (List.prefix_append _ _), if_pos (List.prefix_append _ _),
        List.drop_left' rfl, view_append hvalue]
    · rw [if_neg hp]
      by_cases hup : p <+: path.segments
      · have hbelow : Below p path.segments := ⟨hup, fun heq ↦ hp (heq ▸ List.prefix_refl _)⟩
        have hsome : view baseline path.segments ≠ none := by
          rw [view, hvalue]
          exact Option.some_ne_none _
        rw [PathTree.graft_above hbelow, habove p hbelow (rooted_view baseline p _ hbelow hsome)]
      · rw [PathTree.graft_beside hp hup]

open Classical in
theorem view_restoreOwned {baseline current current' : JsonValue} {ownedPaths : List ConfigPath}
    (hbaseline : node baseline = .branch) (hcurrent : node current = .branch)
    (habove : ∀ upper, Above ownedPaths upper → view baseline upper = some .branch →
      view current upper = some .branch)
    (h : applyPatch current (ownedPaths.map (ownedRestoration baseline)) = .ok current') :
    (∀ path ∈ ownedPaths, path.segments ≠ []) ∧
      ∀ p, view current' p = if Inside ownedPaths p then view baseline p else view current p := by
  induction ownedPaths generalizing current with
  | nil =>
    obtain rfl := Except.ok.inj h
    refine ⟨by rintro _ ⟨⟩, fun p ↦ ?_⟩
    rw [if_neg]
    rintro ⟨owned, howned, -⟩
    cases howned
  | cons path paths ih =>
    rcases hop : applyOperation current (ownedRestoration baseline path) with error | middle
    · simp only [List.map_cons, applyPatch, Bind.bind, Except.bind, hop] at h
      cases h
    · simp only [List.map_cons, applyPatch, Bind.bind, Except.bind, hop] at h
      obtain ⟨hpath, hmiddle⟩ := view_ownedRestoration hbaseline hcurrent
        (fun upper hupper ↦ habove upper ⟨path, List.mem_cons_self, hupper⟩) hop
      have hnode : node middle = .branch := by
        refine node_of_view_nil ?_ hcurrent
        rw [hmiddle, if_neg fun hp ↦ hpath (List.prefix_nil.mp hp)]
      have habove' : ∀ upper, Above paths upper → view baseline upper = some .branch →
          view middle upper = some .branch := by
        rintro upper ⟨owned, howned, hbelow⟩ hbranch
        rw [hmiddle]
        split
        · exact hbranch
        · exact habove upper ⟨owned, List.mem_cons_of_mem _ howned, hbelow⟩ hbranch
      obtain ⟨hpaths, hview⟩ := ih hnode habove' h
      refine ⟨List.forall_mem_cons.mpr ⟨hpath, hpaths⟩, fun p ↦ ?_⟩
      rw [hview, hmiddle]
      have hinside : Inside (path :: paths) p ↔ path.segments <+: p ∨ Inside paths p := by
        simp only [Inside, List.mem_cons, exists_eq_or_imp]
      by_cases hrest : Inside paths p
      · rw [if_pos hrest, if_pos (hinside.mpr (Or.inr hrest))]
      · rw [if_neg hrest]
        by_cases hp : path.segments <+: p
        · rw [if_pos hp, if_pos (hinside.mpr (Or.inl hp))]
        · rw [if_neg hp, if_neg fun hor ↦ (hinside.mp hor).elim hp hrest]

/-! ## What the baseline says of an ancestor -/

theorem isNull_iff {value : JsonValue} : isNull value = true ↔ value = .null := by
  rcases value <;> simp [isNull]

theorem state_of_leaf {root : JsonValue} (hroot : node root ≠ .branch) (hnull : root ≠ .null)
    (segment : String) (path : List String) :
    baselinePathState root (segment :: path) = .other := by
  rw [baselinePathState.eq_def]
  rcases root <;> first | rfl | exact absurd rfl hroot | exact absurd rfl hnull

/-- Missing where nothing is found, null where null is, and otherwise a value stands in the way. -/
theorem baselinePathState_cases (root : JsonValue) (path : List String) :
    (baselinePathState root path = .missing ∧ valueAt root path = none) ∨
      (baselinePathState root path = .null ∧ valueAt root path = some .null) ∨
      (baselinePathState root path = .other ∧
        ∃ upper value, upper <+: path ∧ valueAt root upper = some value ∧ value ≠ .null ∧
          (upper = path ∨ node value ≠ .branch)) := by
  induction path generalizing root with
  | nil =>
    rw [baselinePathState, valueAt_nil]
    by_cases hnull : isNull root = true
    · rw [if_pos hnull, isNull_iff.mp hnull]
      exact Or.inr (Or.inl ⟨rfl, rfl⟩)
    · rw [if_neg hnull]
      refine Or.inr (Or.inr ⟨rfl, [], root, List.nil_prefix, valueAt_nil root, ?_, Or.inl rfl⟩)
      exact fun heq ↦ hnull (isNull_iff.mpr heq)
  | cons segment path ih =>
    by_cases hroot : node root = .branch
    · obtain ⟨members, rfl⟩ := node_eq_branch.mp hroot
      rw [baselinePathState, valueAt_object_cons]
      rcases hchild : members.lookup segment with - | child
      · exact Or.inl ⟨rfl, rfl⟩
      · rcases ih child with hcase | hcase | ⟨hstate, upper, value, hleads, hvalue, hne, hwhere⟩
        · exact Or.inl hcase
        · exact Or.inr (Or.inl hcase)
        · refine Or.inr (Or.inr ⟨hstate, segment :: upper, value, ?_, ?_, hne, ?_⟩)
          · exact List.cons_prefix_cons.mpr ⟨rfl, hleads⟩
          · rw [valueAt_object_cons, hchild, Option.bind_some, hvalue]
          · exact hwhere.imp_left fun heq ↦ by rw [heq]
    · have hnone : valueAt root (segment :: path) = none :=
        valueAt_cons_of_not_object (fun m hm ↦ hroot (node_eq_branch.mpr ⟨m, hm⟩)) _ _
      by_cases hnull : root = .null
      · subst hnull
        exact Or.inl ⟨rfl, hnone⟩
      · refine Or.inr (Or.inr ⟨?_, [], root, List.nil_prefix, valueAt_nil root, hnull,
          Or.inr hroot⟩)
        exact state_of_leaf hroot hnull segment path

/-- The ancestors of owned paths that the baseline lacks or has as null. -/
def Made (baseline : JsonValue) (ownedPaths : List ConfigPath) (path : List String) : Prop :=
  Above ownedPaths path ∧ baselinePathState baseline path ≠ .other

theorem Made.ne_nil {baseline : JsonValue} {ownedPaths : List ConfigPath} {path : List String}
    (hbaseline : node baseline = .branch) (h : Made baseline ownedPaths path) : path ≠ [] := by
  rintro rfl
  obtain ⟨members, rfl⟩ := node_eq_branch.mp hbaseline
  exact h.2 rfl

theorem lacks_of_state {root : JsonValue} {path : List String}
    (h : baselinePathState root path ≠ .other) : Lacks (view root) path := by
  rcases baselinePathState_cases root path with ⟨-, hvalue⟩ | ⟨-, hvalue⟩ | ⟨hstate, -⟩
  · exact Or.inl (by rw [view, hvalue, Option.map_none])
  · exact Or.inr (by rw [view, hvalue]; rfl)
  · exact absurd hstate h

theorem node_eq_null {value : JsonValue} (h : node value = .leaf .null) : value = .null := by
  rcases value <;> simp_all [node]

/-- What is lacking was made by a connection, unless a value stands in the way. -/
theorem state_of_lacks {root : JsonValue} {path : List String} (h : Lacks (view root) path)
    (hway : ∀ upper, Below upper path → ∀ value, valueAt root upper = some value →
      value ≠ .null → node value = .branch) : baselinePathState root path ≠ .other := by
  rcases baselinePathState_cases root path with ⟨hstate, -⟩ | ⟨hstate, -⟩ |
    ⟨-, upper, value, hupper, hvalue, hne, hwhere⟩
  · rw [hstate]
    rintro ⟨⟩
  · rw [hstate]
    rintro ⟨⟩
  · exfalso
    by_cases hsame : upper = path
    · rw [Lacks, view, ← hsame, hvalue] at h
      rcases h with hnone | hnull
      · cases hnone
      · exact hne (node_eq_null (Option.some.inj hnull))
    · exact (hwhere.resolve_left hsame) (hway upper ⟨hupper, Ne.symm hsame⟩ value hvalue hne)

theorem state_of_null {root : JsonValue} {path : List String}
    (h : valueAt root path = some .null) : baselinePathState root path ≠ .other := by
  have hview : view root path = some (.leaf .null) := by
    rw [view, h]
    rfl
  refine state_of_lacks (Or.inr hview) fun upper hbelow value hvalue _ ↦ ?_
  have hbranch := rooted_view root upper path hbelow (by rw [hview]; exact Option.some_ne_none _)
  rw [view, hvalue] at hbranch
  exact Option.some.inj hbranch

theorem view_below_lacks {root : JsonValue} {path lower : List String}
    (h : Lacks (view root) path) (hbelow : Below path lower) : view root lower = none := by
  by_contra hsome
  have hbranch := rooted_view root path lower hbelow hsome
  rcases h with hnone | hnull
  · rw [hbranch] at hnone
    nomatch hnone
  · rw [hbranch] at hnull
    nomatch hnull

theorem state_below {root : JsonValue} {path lower : List String}
    (h : baselinePathState root path ≠ .other) (hlower : path <+: lower) :
    baselinePathState root lower ≠ .other := by
  induction path generalizing root lower with
  | nil =>
    rw [baselinePathState] at h
    by_cases hnull : isNull root = true
    · rw [isNull_iff.mp hnull]
      rcases lower with - | ⟨segment, lower⟩
      · exact fun hother ↦ nomatch hother
      · exact fun hother ↦ nomatch hother
    · rw [if_neg hnull] at h
      exact absurd rfl h
  | cons segment path ih =>
    obtain ⟨rest, rfl⟩ := hlower
    by_cases hroot : node root = .branch
    · obtain ⟨members, rfl⟩ := node_eq_branch.mp hroot
      rw [List.cons_append, baselinePathState]
      rw [baselinePathState] at h
      rcases hchild : members.lookup segment with - | child
      · exact fun hother ↦ nomatch hother
      · rw [hchild] at h
        exact ih h (List.prefix_append _ _)
    · by_cases hnull : root = .null
      · rw [hnull]
        exact fun hother ↦ nomatch hother
      · exact absurd (state_of_leaf hroot hnull segment path) h

/-! ## The list of restorations -/

theorem mem_strictAncestors {path ancestor : ConfigPath} :
    ancestor ∈ strictAncestors path ↔
      ancestor.segments ≠ [] ∧ Below ancestor.segments path.segments := by
  rw [strictAncestors, List.mem_map]
  constructor
  · rintro ⟨length, hlength, rfl⟩
    rw [List.mem_range'_1] at hlength
    refine ⟨fun hnil ↦ ?_, List.take_prefix _ _, fun heq ↦ ?_⟩
    · have hzero := congrArg List.length hnil
      rw [List.length_take, List.length_nil] at hzero
      omega
    · have hall := congrArg List.length heq
      rw [List.length_take] at hall
      omega
  · rintro ⟨hne, hbelow⟩
    have hlt := hbelow.length_lt
    have hpos := List.length_pos_iff.mpr hne
    refine ⟨ancestor.segments.length, ?_, ?_⟩
    · rw [List.mem_range'_1]
      omega
    · rw [← List.prefix_iff_eq_take.mp hbelow.1]

theorem mem_destutter' {α β : Type*} [DecidableEq β] (key : α → β) {a : α} {l : List α} :
    ∀ {b : α}, (key b = key a ∨ a ∈ l) →
      ∃ c ∈ l.destutter' (fun x y ↦ key x ≠ key y) b, key c = key a := by
  induction l with
  | nil =>
    rintro b (heq | hmem)
    · exact ⟨b, by simp, heq⟩
    · nomatch hmem
  | cons first l ih =>
    intro b hor
    rw [List.destutter'_cons]
    by_cases hkey : key b ≠ key first
    · rw [if_pos hkey]
      rcases hor with heq | hmem
      · exact ⟨b, List.mem_cons_self, heq⟩
      · have hor : key first = key a ∨ a ∈ l :=
          (List.mem_cons.mp hmem).imp_left fun heq ↦ by rw [heq]
        obtain ⟨c, hc, heq⟩ := ih hor
        exact ⟨c, List.mem_cons_of_mem _ hc, heq⟩
    · rw [if_neg hkey]
      rw [not_not] at hkey
      apply ih
      rcases hor with heq | hmem
      · exact Or.inl heq
      · exact (List.mem_cons.mp hmem).imp_left fun heq ↦ by rw [hkey, heq]

/-- Dropping repetitions keeps every key. -/
theorem exists_mem_destutter {α β : Type*} [DecidableEq β] (key : α → β) {a : α} {l : List α}
    (h : a ∈ l) : ∃ c ∈ l.destutter fun x y ↦ key x ≠ key y, key c = key a := by
  rcases l with - | ⟨first, l⟩
  · nomatch h
  · exact mem_destutter' key ((List.mem_cons.mp h).imp_left fun heq ↦ by rw [heq])

theorem deepestFirst_of_sorted {α : Type*} (path : α → ConfigPath) (l : List α) :
    PathTree.DeepestFirst
      (((sortByKey (fun a ↦ depthKey (path a)) l).destutter
        fun x y ↦ path x ≠ path y).map fun a ↦ (path a).segments) := by
  have hsorted := (sortByKey_pairwise (fun a ↦ depthKey (path a)) l).sublist
    (List.destutter_sublist (fun x y ↦ path x ≠ path y) _)
  rw [PathTree.DeepestFirst, List.pairwise_map]
  refine hsorted.imp fun hle ↦ ?_
  rcases (Prod.Lex.le_iff.mp hle) with hlt | ⟨heq, -⟩
  · exact (OrderDual.toDual_lt_toDual.mp hlt).le
  · exact (OrderDual.toDual_inj.mp heq).symm.le

/-- The restorations: one for each made ancestor, deepest first. -/
theorem mem_restorations {baseline : JsonValue} {ownedPaths : List ConfigPath}
    {operation : PatchOperation}
    (h : operation ∈ materializedAncestorRestorations baseline ownedPaths) :
    operation.path.segments ≠ [] ∧ Above ownedPaths operation.path.segments ∧
      ancestorRestoration baseline operation.path = some operation := by
  have hmem := (List.destutter_sublist _ _).subset h
  rw [mem_sortByKey, List.mem_flatMap] at hmem
  obtain ⟨owned, howned, hin⟩ := hmem
  obtain ⟨ancestor, hancestor, hrestore⟩ := List.mem_filterMap.mp hin
  have hpath : operation.path = ancestor := by
    rw [ancestorRestoration] at hrestore
    split at hrestore
    · rw [← Option.some.inj hrestore]
    · rw [← Option.some.inj hrestore]
    · nomatch hrestore
  obtain ⟨hne, hbelow⟩ := mem_strictAncestors.mp hancestor
  rw [hpath]
  exact ⟨hne, ⟨owned, howned, hbelow⟩, hrestore⟩

theorem exists_restoration {baseline : JsonValue} {ownedPaths : List ConfigPath}
    {path : List String} (hpath : path ≠ []) (h : Made baseline ownedPaths path) :
    ∃ operation ∈ materializedAncestorRestorations baseline ownedPaths,
      operation.path.segments = path := by
  obtain ⟨⟨owned, howned, hbelow⟩, hstate⟩ := h
  obtain ⟨operation, hrestore, hpath'⟩ : ∃ operation,
      ancestorRestoration baseline ⟨path⟩ = some operation ∧ operation.path = ⟨path⟩ := by
    rw [ancestorRestoration]
    rcases hcase : baselinePathState baseline path
    · exact ⟨_, rfl, rfl⟩
    · exact ⟨_, rfl, rfl⟩
    · exact absurd hcase hstate
  have hmem : operation ∈ ownedPaths.flatMap fun path ↦
      (strictAncestors path).filterMap (ancestorRestoration baseline) := by
    rw [List.mem_flatMap]
    refine ⟨owned, howned, List.mem_filterMap.mpr ⟨⟨path⟩, ?_, hrestore⟩⟩
    exact mem_strictAncestors.mpr ⟨hpath, hbelow⟩
  have hsorted : operation ∈ sortByKey (fun operation : PatchOperation ↦ depthKey operation.path)
      (ownedPaths.flatMap fun path ↦
        (strictAncestors path).filterMap (ancestorRestoration baseline)) := mem_sortByKey.mpr hmem
  obtain ⟨found, hfound, heq⟩ := exists_mem_destutter (·.path) hsorted
  exact ⟨found, hfound, by rw [heq, hpath']⟩

theorem mem_map_restorations {baseline : JsonValue} {ownedPaths : List ConfigPath}
    (hbaseline : node baseline = .branch) {path : List String} :
    path ∈ (materializedAncestorRestorations baseline ownedPaths).map (·.path.segments) ↔
      Made baseline ownedPaths path := by
  rw [List.mem_map]
  constructor
  · rintro ⟨operation, hmem, rfl⟩
    obtain ⟨-, habove, hrestore⟩ := mem_restorations hmem
    refine ⟨habove, fun hother ↦ ?_⟩
    rw [ancestorRestoration, hother] at hrestore
    nomatch hrestore
  · intro hmade
    exact exists_restoration (hmade.ne_nil hbaseline) hmade

end Json

end TokenStation
