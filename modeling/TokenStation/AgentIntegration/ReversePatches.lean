import TokenStation.AgentIntegration.ConfigDocument
import TokenStation.AgentIntegration.DotenvProjection
import TokenStation.AgentIntegration.Json5View
import TokenStation.AgentIntegration.JsonReach
import TokenStation.AgentIntegration.JsonRestore

/-!
# Reverse patches undo forward patches

Every operation is undone by what was recorded before it, on any document that means what the
patched one does, and so is a whole patch. For the formats that are trees the argument is one,
`TreeDocument.undo_step`. A dotenv value that was read may hold a line break, which no write takes:
such a key cannot be put back.
-/

namespace TokenStation

open Library Json ConfigDocument

/-! ## Documents that are trees -/

/-- A format whose operations are grafts and prunes of what a document means. -/
structure TreeDocument (δ : Type) where
  apply : δ → PatchOperation → Except String δ
  semantic : δ → JsonValue
  good : δ → Prop
  /-- The values that a document can hold. -/
  fine : JsonValue → Prop
  /-- The paths that an operation can name. -/
  valid : List String → Prop
  branch : ∀ {document}, good document → node (semantic document) = .branch
  fine_valueAt : ∀ {document path value}, good document →
    valueAt (semantic document) path = some value → fine value
  fine_null : fine .null
  valid_of_prefix : ∀ {path upper}, valid path → upper ≠ [] → upper <+: path → valid upper
  tested : ∀ {document operation next}, good document → operation.operation = .test →
    apply document operation = .ok next → next = document
  wrote : ∀ {document operation next}, good document →
    (operation.operation = .add ∨ operation.operation = .replace) →
    (∀ value ∈ operation.value, fine value) → apply document operation = .ok next →
    good next ∧ valid operation.path.segments ∧ ∃ value, operation.value = some value ∧
      view (semantic next) =
        (view (semantic document)).graft operation.path.segments (view value) ∧
      ∀ upper, Below upper operation.path.segments →
        view (semantic document) upper = some .branch ∨ Lacks (view (semantic document)) upper
  removed : ∀ {document operation next}, good document → operation.operation = .remove →
    apply document operation = .ok next →
    good next ∧ valid operation.path.segments ∧
      view (semantic next) = (view (semantic document)).prune operation.path.segments ∧
      ∀ upper, Below upper operation.path.segments →
        view (semantic document) upper = some .branch ∨ view (semantic document) upper = none
  write_ok : ∀ {document} (path : ConfigPath) {value}, good document → valid path.segments →
    fine value →
    (∀ upper, Below upper path.segments → view (semantic document) upper = some .branch) →
    ∃ next, apply document ⟨.replace, path, some value⟩ = .ok next
  remove_ok : ∀ {document} (path : ConfigPath), good document → valid path.segments →
    (∀ upper, Below upper path.segments →
      view (semantic document) upper = some .branch ∨ view (semantic document) upper = none) →
    ∃ next, apply document ⟨.remove, path, none⟩ = .ok next

namespace TreeDocument

variable {δ : Type} (format : TreeDocument δ)

/-- The tree of a document. -/
def tree (document : δ) : PathTree String JsonValue := view (format.semantic document)

variable {format} {document later next : δ}

theorem semanticValueAt_eq (hgood : format.good document) (path : ConfigPath) :
    semanticValueAt (format.semantic document) path =
      valueAt (format.semantic document) path.segments := by
  obtain ⟨members, hmembers⟩ := node_eq_branch.mp (format.branch hgood)
  rw [semanticValueAt, hmembers, if_neg]
  exact fun hboth ↦ nomatch hboth.1

theorem sub_view {root value : JsonValue} {path : List String}
    (h : valueAt root path = some value) :
    (view root).sub path = view value :=
  funext fun lower ↦ view_append h lower

theorem view_eq_none {root : JsonValue} {path : List String} (h : valueAt root path = none)
    {lower : List String} (hlower : path <+: lower) : view root lower = none := by
  obtain ⟨rest, rfl⟩ := hlower
  exact view_eq_none_of_append h rest

theorem tree_replace (hgood : format.good document) {path : ConfigPath} {value : JsonValue}
    (hfine : format.fine value)
    (h : format.apply document ⟨.replace, path, some value⟩ = .ok next) :
    format.good next ∧
      format.tree next = (format.tree document).graft path.segments (view value) := by
  have hvalue : ∀ other ∈ some value, format.fine other := by
    intro other hother
    rwa [← Option.some.inj hother]
  obtain ⟨hnext, -, written, hwritten, hview, -⟩ := format.wrote hgood (.inr rfl) hvalue h
  obtain rfl := Option.some.inj hwritten
  exact ⟨hnext, hview⟩

theorem tree_remove (hgood : format.good document) {path : ConfigPath}
    (h : format.apply document ⟨.remove, path, none⟩ = .ok next) :
    format.good next ∧ format.tree next = (format.tree document).prune path.segments := by
  obtain ⟨hnext, -, hview, -⟩ := format.removed hgood rfl h
  exact ⟨hnext, hview⟩

/-- A path is put back where nothing outside of it was touched. -/
theorem undo_leaf (hgood : format.good document) (hlater : format.good later) {path : ConfigPath}
    (hvalid : format.valid path.segments)
    (hagree : PathTree.AgreeOutside path.segments (format.tree later) (format.tree document))
    (habove : ∀ upper, Below upper path.segments →
      format.tree document upper = some .branch ∨ format.tree document upper = none) :
    ∃ back, format.apply later (leafReverse (format.semantic document) path) = .ok back ∧
      format.good back ∧ format.tree back = format.tree document := by
  have hupper {upper : List String} (h : Below upper path.segments) :
      format.tree later upper = format.tree document upper :=
    hagree upper fun hle ↦ h.2 (h.1.eq_of_length_le hle.length_le).symm
  rw [leafReverse, semanticValueAt_eq hgood]
  rcases hvalue : valueAt (format.semantic document) path.segments with - | value
  · obtain ⟨back, hback⟩ := format.remove_ok _ hlater hvalid fun upper h ↦ by
      have hall := habove upper h
      rwa [← hupper h] at hall
    obtain ⟨hgoodBack, htree⟩ := tree_remove hlater hback
    refine ⟨back, hback, hgoodBack, ?_⟩
    rw [htree]
    exact PathTree.prune_of_agreeOutside hagree fun p hp ↦ view_eq_none hvalue hp
  · -- above something there are only objects
    have hbranch (upper : List String) (h : Below upper path.segments) :
        format.tree document upper = some .branch := by
      refine rooted_view _ upper path.segments h ?_
      rw [Json.view, hvalue]
      exact Option.some_ne_none _
    have hfine := format.fine_valueAt hgood hvalue
    obtain ⟨back, hback⟩ := format.write_ok _ hlater hvalid hfine fun upper h ↦
      (hupper h).trans (hbranch upper h)
    obtain ⟨hgoodBack, htree⟩ := tree_replace hlater hfine hback
    refine ⟨back, hback, hgoodBack, ?_⟩
    rw [htree, ← sub_view hvalue]
    exact PathTree.graft_sub_of_agreeOutside hagree hbranch

/-- The strict ancestors grow. -/
theorem pairwise_strictAncestors (path : ConfigPath) :
    (strictAncestors path).Pairwise fun upper lower ↦
      upper.segments.length < lower.segments.length := by
  rw [strictAncestors, List.pairwise_map]
  refine (List.pairwise_lt_range' (s := 1)).imp_of_mem ?_
  intro m n hm hn hlt
  obtain ⟨-, hm⟩ := List.mem_range'_1.mp hm
  obtain ⟨-, hn⟩ := List.mem_range'_1.mp hn
  rw [List.length_take, List.length_take]
  omega

/-- An ancestor that is neither missing nor null does not need to be undone. -/
theorem not_lacks_of_ancestorReverse (hgood : format.good document) {upper : List String}
    (h : ancestorReverse (format.semantic document) ⟨upper⟩ = none) :
    ¬Lacks (format.tree document) upper := by
  rw [ancestorReverse, semanticValueAt_eq hgood] at h
  rcases hvalue : valueAt (format.semantic document) upper with - | value
  · rw [hvalue] at h
    cases h
  · rintro (hnone | hnull)
    · rw [tree, Json.view, hvalue] at hnone
      cases hnone
    · rw [tree, Json.view, hvalue] at hnull
      rcases value with - | _ | _ | _ | _ | _
      · rw [hvalue] at h
        cases h
      all_goals cases Option.some.inj hnull

/-- The first ancestor that a write makes, if it makes one: objects stand above it. -/
theorem parentReverse_cases (hgood : format.good document) {operation : PatchOperation}
    (hkind : operation.operation = .add ∨ operation.operation = .replace)
    (habove : ∀ upper, Below upper operation.path.segments →
      format.tree document upper = some .branch ∨ Lacks (format.tree document) upper) :
    (parentReverse (format.semantic document) operation = none ∧
      ∀ upper, Below upper operation.path.segments → format.tree document upper = some .branch) ∨
    ∃ upper, upper ≠ [] ∧ Below upper operation.path.segments ∧
      (∀ p, Below p upper → format.tree document p = some .branch) ∧
      (valueAt (format.semantic document) upper = none ∧
          parentReverse (format.semantic document) operation = some ⟨.remove, ⟨upper⟩, none⟩ ∨
        valueAt (format.semantic document) upper = some .null ∧
          parentReverse (format.semantic document) operation =
            some ⟨.replace, ⟨upper⟩, some .null⟩) := by
  have hparent : parentReverse (format.semantic document) operation =
      (strictAncestors operation.path).findSome? (ancestorReverse (format.semantic document)) := by
    rw [parentReverse]
    rcases hkind with hkind | hkind <;> rw [hkind]
  have hroot : format.tree document [] = some .branch := by
    rw [tree, view_nil, format.branch hgood]
  have hbranch {p : List String} (hp : Below p operation.path.segments)
      (hnone : p ≠ [] → ancestorReverse (format.semantic document) ⟨p⟩ = none) :
      format.tree document p = some .branch := by
    by_cases hnil : p = []
    · rw [hnil]
      exact hroot
    · exact (habove p hp).resolve_right (not_lacks_of_ancestorReverse hgood (hnone hnil))
  rw [hparent]
  rcases hfound : (strictAncestors operation.path).findSome?
      (ancestorReverse (format.semantic document)) with - | reverse
  · refine .inl ⟨rfl, fun upper hupper ↦ hbranch hupper fun hnil ↦ ?_⟩
    exact List.findSome?_eq_none_iff.mp hfound ⟨upper⟩ (mem_strictAncestors.mpr ⟨hnil, hupper⟩)
  · obtain ⟨before, upper, after, hlist, hreverse, hbefore⟩ := List.findSome?_eq_some_iff.mp hfound
    have hmem : upper ∈ strictAncestors operation.path := by
      rw [hlist]
      exact List.mem_append_right _ List.mem_cons_self
    obtain ⟨hnil, hbelow⟩ := mem_strictAncestors.mp hmem
    refine .inr ⟨upper.segments, hnil, hbelow, fun p hp ↦ ?_, ?_⟩
    · refine hbranch (hp.trans hbelow) fun hpnil ↦ ?_
      -- a shorter ancestor stands before the first one that is lacking
      have hpmem : (⟨p⟩ : ConfigPath) ∈ strictAncestors operation.path :=
        mem_strictAncestors.mpr ⟨hpnil, hp.trans hbelow⟩
      have horder := pairwise_strictAncestors operation.path
      rw [hlist] at hpmem horder
      rcases List.mem_append.mp hpmem with hpmem | hpmem
      · exact hbefore _ hpmem
      · have hlength := hp.length_lt
        rcases List.mem_cons.mp hpmem with hpeq | hpmem
        · rw [← hpeq] at hlength
          exact absurd hlength (lt_irrefl _)
        · have hlater := (List.pairwise_cons.mp (List.pairwise_append.mp horder).2.1).1 _ hpmem
          exact absurd hlength (not_lt.mpr hlater.le)
    · rw [ancestorReverse, semanticValueAt_eq hgood] at hreverse
      rcases hvalue : valueAt (format.semantic document) upper.segments with - | value
      · rw [hvalue] at hreverse
        exact .inl ⟨rfl, hreverse.symm⟩
      · rw [hvalue] at hreverse
        rcases value with - | _ | _ | _ | _ | _
        · exact .inr ⟨rfl, hreverse.symm⟩
        all_goals nomatch hreverse

/-- What a write recorded undoes it. -/
theorem undo_write (hgood : format.good document) {operation : PatchOperation}
    (hkind : operation.operation = .add ∨ operation.operation = .replace) {value : JsonValue}
    (hvalid : format.valid operation.path.segments)
    (hnext : format.tree next =
      (format.tree document).graft operation.path.segments (view value))
    (habove : ∀ upper, Below upper operation.path.segments →
      format.tree document upper = some .branch ∨ Lacks (format.tree document) upper)
    (hlater : format.good later) (hsame : format.tree later = format.tree next) :
    ∃ back, applyAll format.apply later
        (leafReverse (format.semantic document) operation.path ::
          (parentReverse (format.semantic document) operation).toList) = .ok back ∧
      format.good back ∧ format.tree back = format.tree document := by
  rw [hnext] at hsame
  obtain ⟨hnone, hbranch⟩ | ⟨upper, hnil, hupper, hbranch, hparent⟩ :=
    parentReverse_cases hgood hkind habove
  · obtain ⟨back, hback, hgoodBack, htree⟩ := undo_leaf hgood hlater hvalid
      (by rw [hsame]; exact PathTree.agreeOutside_graft (List.prefix_refl _) hbranch)
      fun upper h ↦ .inl (hbranch upper h)
    refine ⟨back, ?_, hgoodBack, htree⟩
    rw [hnone, Option.toList_none, applyAll_singleton, hback]
  · -- nothing stood below the ancestor that was made: the leaf goes first, and then the ancestor
    have hlacks : Lacks (format.tree document) upper := by
      rcases hparent with ⟨hvalue, -⟩ | ⟨hvalue, -⟩
      · exact .inl (by rw [tree, Json.view, hvalue]; rfl)
      · exact .inr (by rw [tree, Json.view, hvalue]; rfl)
    have hleaf : leafReverse (format.semantic document) operation.path =
        ⟨.remove, operation.path, none⟩ := by
      rw [leafReverse, semanticValueAt_eq hgood]
      rcases hvalue : valueAt (format.semantic document) operation.path.segments with - | old
      · rfl
      · have hbranch' := rooted_view (format.semantic document) upper _ hupper (by
          rw [Json.view, hvalue]
          exact Option.some_ne_none _)
        rcases hlacks with hlacks | hlacks
        · rw [tree, hbranch'] at hlacks
          cases hlacks
        · rw [tree, hbranch'] at hlacks
          cases Option.some.inj hlacks
    obtain ⟨middle, hmiddle⟩ := format.remove_ok _ hlater hvalid fun p hp ↦ .inl (by
      change format.tree later p = some .branch
      rw [hsame, PathTree.graft_above hp])
    obtain ⟨hgoodMiddle, htreeMiddle⟩ := tree_remove hlater hmiddle
    have hagree : PathTree.AgreeOutside upper (format.tree middle) (format.tree document) := by
      rw [htreeMiddle, hsame]
      exact (PathTree.agreeOutside_prune hupper.1).trans
        (PathTree.agreeOutside_graft hupper.1 hbranch)
    have hvalidUpper := format.valid_of_prefix hvalid hnil hupper.1
    have hbranchMiddle (p : List String) (hp : Below p upper) :
        format.tree middle p = some .branch := by
      rw [hagree p fun hle ↦ hp.2 (hp.1.eq_of_length_le hle.length_le).symm]
      exact hbranch p hp
    have hfirst (reverse : PatchOperation) :
        applyAll format.apply later [⟨.remove, operation.path, none⟩, reverse] =
          format.apply middle reverse := by
      rw [applyAll, hmiddle]
      exact applyAll_singleton format.apply middle reverse
    rw [hleaf]
    rcases hparent with ⟨hvalue, hreverse⟩ | ⟨hvalue, hreverse⟩
    · obtain ⟨back, hback⟩ := format.remove_ok ⟨upper⟩ hgoodMiddle hvalidUpper
        fun p hp ↦ .inl (hbranchMiddle p hp)
      obtain ⟨hgoodBack, htree⟩ := tree_remove hgoodMiddle hback
      refine ⟨back, ?_, hgoodBack, ?_⟩
      · rw [hreverse]
        exact (hfirst _).trans hback
      · rw [htree]
        exact PathTree.prune_of_agreeOutside hagree fun p hp ↦ view_eq_none hvalue hp
    · obtain ⟨back, hback⟩ := format.write_ok ⟨upper⟩ hgoodMiddle hvalidUpper
        format.fine_null hbranchMiddle
      obtain ⟨hgoodBack, htree⟩ := tree_replace hgoodMiddle format.fine_null hback
      refine ⟨back, ?_, hgoodBack, ?_⟩
      · rw [hreverse]
        exact (hfirst _).trans hback
      · rw [htree, ← sub_view hvalue]
        exact PathTree.graft_sub_of_agreeOutside hagree hbranch

/-- **What an operation recorded undoes it**, on any document with the same tree. -/
theorem undo_step {document : δ} {operation : PatchOperation} {next : δ}
    (hgood : format.good document)
    (hfine : ∀ value ∈ operation.value, format.fine value)
    (h : format.apply document operation = .ok next) :
    format.good next ∧ ∀ later, format.good later → format.tree later = format.tree next →
      ∃ back, applyAll format.apply later (reverseOf (format.semantic document) operation) =
          .ok back ∧ format.good back ∧ format.tree back = format.tree document := by
  rcases hkind : operation.operation
  case test =>
    obtain rfl := format.tested hgood hkind h
    refine ⟨hgood, fun later hlater hsame ↦ ⟨later, ?_, hlater, hsame⟩⟩
    rw [reverseOf, hkind]
    rfl
  case remove =>
    obtain ⟨hnext, hvalid, hview, habove⟩ := format.removed hgood hkind h
    refine ⟨hnext, fun later hlater hsame ↦ ?_⟩
    have hagree : PathTree.AgreeOutside operation.path.segments (format.tree later)
        (format.tree document) := by
      rw [hsame, tree, hview]
      exact PathTree.agreeOutside_prune (List.prefix_refl _)
    obtain ⟨back, hback, hgoodBack, htree⟩ := undo_leaf hgood hlater hvalid hagree habove
    refine ⟨back, ?_, hgoodBack, htree⟩
    have hnoParent : parentReverse (format.semantic document) operation = none := by
      rw [parentReverse, hkind]
    rw [reverseOf, hkind]
    dsimp only
    rw [hnoParent, Option.toList_none, applyAll_singleton, hback]
  all_goals
    have hwrite : operation.operation = .add ∨ operation.operation = .replace := by
      rw [hkind]
      decide
    obtain ⟨hnext, hvalid, value, -, hview, habove⟩ := format.wrote hgood hwrite hfine h
    refine ⟨hnext, fun later hlater hsame ↦ ?_⟩
    have hundo := undo_write hgood hwrite hvalid hview habove hlater hsame
    rw [reverseOf, hkind]
    exact hundo

end TreeDocument

/-! ## The two formats -/

theorem valid_of_splitPath {path : ConfigPath} {last : String} {parents : List String}
    (h : splitPath path = .ok (last, parents)) :
    path.segments ≠ [] ∧ path.segments.all isValidSegment = true := by
  rw [splitPath] at h
  split at h
  next => nomatch h
  next found hlast =>
    split at h
    next hvalid =>
      refine ⟨fun hnil ↦ ?_, hvalid⟩
      rw [hnil] at hlast
      nomatch hlast
    next => nomatch h

theorem splitPath_of_applyOperation {root root' : JsonValue} (hroot : node root = .branch)
    {operation : PatchOperation} (h : Json.applyOperation root operation = .ok root') :
    ∃ last parents, splitPath operation.path = .ok (last, parents) := by
  obtain ⟨members, rfl⟩ := node_eq_branch.mp hroot
  have harray : ¬isArray (.object members) = true := by rintro ⟨⟩
  rw [Json.applyOperation, if_neg fun hor ↦ harray hor.1, if_neg fun hor ↦ harray hor.1] at h
  rcases hsplit : splitPath operation.path with error | ⟨last, parents⟩
  · rw [hsplit] at h
    cases h
  · exact ⟨last, parents, rfl⟩

theorem node_of_view_nil {root : JsonValue} (h : view root [] = some .branch) :
    node root = .branch := by
  rw [view_nil] at h
  exact Option.some.inj h

theorem graft_nil_of_ne {tree subtree : PathTree String JsonValue} {path : List String}
    (h : path ≠ []) : tree.graft path subtree [] = some .branch :=
  PathTree.graft_above ⟨List.nil_prefix, h⟩

theorem prune_nil_of_ne {tree : PathTree String JsonValue} {path : List String} (h : path ≠ []) :
    tree.prune path [] = tree [] :=
  PathTree.prune_beside fun hle ↦ h (List.prefix_nil.mp hle)

/-- An accepted operation on an object names a path that may be named. -/
theorem valid_of_applyOperation {root root' : JsonValue} (hroot : node root = .branch)
    {operation : PatchOperation} (h : Json.applyOperation root operation = .ok root') :
    operation.path.segments ≠ [] ∧ operation.path.segments.all isValidSegment = true := by
  obtain ⟨last, parents, hsplit⟩ := splitPath_of_applyOperation hroot h
  exact valid_of_splitPath hsplit

/-- JSON documents that are objects. -/
def jsonFormat : TreeDocument JsonValue where
  apply := Json.applyOperation
  semantic := id
  good root := Ordered root ∧ node root = .branch
  fine := Ordered
  valid segments := segments ≠ [] ∧ segments.all isValidSegment = true
  branch hgood := hgood.2
  fine_valueAt hgood hvalue := ordered_valueAt hgood.1 hvalue
  fine_null := ordered_of_not_branch fun h ↦ nomatch h
  valid_of_prefix := by
    rintro path upper ⟨-, hvalid⟩ hne ⟨rest, rfl⟩
    rw [List.all_append, Bool.and_eq_true] at hvalid
    exact ⟨hne, hvalid.1⟩
  tested := by
    intro document operation next hgood hkind h
    obtain ⟨-, happlied⟩ := applied_of_applyOperation hgood.2 h
    rcases happlied with ⟨-, hwrite, -⟩ | ⟨hremove, -⟩ | ⟨-, hsame⟩
    · rw [hkind] at hwrite
      rcases hwrite with hwrite | hwrite <;> nomatch hwrite
    · rw [hkind] at hremove
      nomatch hremove
    · exact hsame
  wrote := by
    intro document operation next hgood hkind hfine h
    have hvalid := valid_of_applyOperation hgood.2 h
    obtain ⟨-, happlied⟩ := applied_of_applyOperation hgood.2 h
    rcases happlied with ⟨value, -, hvalue, hview, habove⟩ | ⟨hremove, -⟩ | ⟨htest, -⟩
    · refine ⟨⟨ordered_applyOperation hgood.1 hfine h, TokenStation.node_of_view_nil ?_⟩, hvalid,
        value, hvalue, hview, habove⟩
      rw [hview, graft_nil_of_ne hvalid.1]
    · rw [hremove] at hkind
      rcases hkind with hkind | hkind <;> nomatch hkind
    · rw [htest] at hkind
      rcases hkind with hkind | hkind <;> nomatch hkind
  removed := by
    intro document operation next hgood hkind h
    have hvalid := valid_of_applyOperation hgood.2 h
    obtain ⟨last, parents, hsplit⟩ := splitPath_of_applyOperation hgood.2 h
    rw [applyOperation_of_branch hgood.2 hsplit, hkind] at h
    have hpath := splitPath_eq_ok hsplit
    have hview := view_removeAt h
    rw [hpath] at hview
    refine ⟨⟨ordered_removeAt hgood.1 h, TokenStation.node_of_view_nil ?_⟩, hvalid, hview, ?_⟩
    · rw [hview, prune_nil_of_ne hvalid.1, view_nil, hgood.2]
    · rw [← hpath]
      exact exists_removeAt_iff.mp ⟨next, h⟩
  write_ok := by
    intro document path value hgood hvalid _ habove
    obtain ⟨last, parents, hsplit, hpath⟩ := splitPath_ok hvalid.1 hvalid.2
    obtain ⟨next, hnext⟩ := (@exists_writeAt_iff path last parents document value).mpr
      fun upper hupper ↦ .inl (habove upper (hpath ▸ hupper))
    refine ⟨next, ?_⟩
    rw [applyOperation_of_branch hgood.2 hsplit]
    exact hnext
  remove_ok := by
    intro document path hgood hvalid habove
    obtain ⟨last, parents, hsplit, hpath⟩ := splitPath_ok hvalid.1 hvalid.2
    obtain ⟨next, hnext⟩ :=
      (@exists_removeAt_iff path last parents document).mpr (by rwa [hpath])
    refine ⟨next, ?_⟩
    rw [applyOperation_of_branch hgood.2 hsplit]
    exact hnext

theorem valid_of_setValue {replacement : Option Json5Value} {segments : List String}
    {root root' : Json5Value} (h : Json5.setValue replacement segments root = .ok root') :
    segments ≠ [] := by
  rintro rfl
  nomatch h

/-- JSON5 documents that are objects. -/
def json5Format : TreeDocument Json5Value where
  apply := Json5.applyOperation
  semantic := Json5.semantic
  good root := Json5.Distinct root ∧ node (Json5.semantic root) = .branch
  fine := Json5.Canonical
  valid segments := segments ≠ []
  branch hgood := hgood.2
  fine_valueAt _ hvalue := Json5.canonical_valueAt (Json5.canonical_semantic _) hvalue
  fine_null := .null
  valid_of_prefix _ hne _ := hne
  tested := by
    intro document operation next _ hkind h
    rw [Json5.applyOperation, hkind] at h
    dsimp only at h
    split at h
    next => nomatch h
    next =>
      split at h
      next => exact (Except.ok.inj h).symm
      next => nomatch h
  wrote := by
    intro document operation next hgood hkind hfine h
    obtain ⟨value, hvalue, hset⟩ : ∃ value, operation.value = some value ∧
        Json5.setValue (some (Json5.fromSerde value)) operation.path.segments document =
          .ok next := by
      rw [Json5.applyOperation] at h
      rcases hkind with hkind | hkind
      all_goals
        rw [hkind] at h
        dsimp only at h
        split at h
        next => nomatch h
        next value hvalue => exact ⟨value, hvalue, h⟩
    have hcanonical := hfine value hvalue
    have hvalid := valid_of_setValue hset
    have hview : Json5.view Json5.semantic next = _ := Json5.view_setValue_some hgood.1 hset
    rw [Json5.view_semantic, Json5.view_semantic, Json5.view_semantic,
      Json5.semantic_fromSerde hcanonical] at hview
    refine ⟨⟨Json5.distinct_setValue hgood.1 ?_ hset, TokenStation.node_of_view_nil ?_⟩, hvalid,
      value, hvalue, hview, fun upper hupper ↦ ?_⟩
    · intro other hother
      rw [← Option.some.inj hother]
      exact Json5.distinct_fromSerde hcanonical
    · rw [hview, graft_nil_of_ne hvalid]
    · have hpasses := (Json5.exists_setValue_iff hgood.1 hvalid).mp ⟨next, hset⟩ upper hupper
      have habove := @Json5.view_of_passes _ Json5.semantic _ _ _ hpasses
      rw [Json5.view_semantic] at habove
      exact habove.imp_right fun hlacks ↦ hlacks.imp_right fun hnull ↦ hnull.2
  removed := by
    intro document operation next hgood hkind h
    rw [Json5.applyOperation, hkind] at h
    have hvalid := valid_of_setValue h
    have hview : Json5.view Json5.semantic next = _ := Json5.view_setValue_none hgood.1 h
    rw [Json5.view_semantic, Json5.view_semantic] at hview
    refine ⟨⟨Json5.distinct_setValue hgood.1 (fun _ ↦ (Option.not_mem_none _).elim) h,
      TokenStation.node_of_view_nil ?_⟩, hvalid, hview, fun upper hupper ↦ ?_⟩
    · rw [hview, prune_nil_of_ne hvalid, view_nil, hgood.2]
    · have hpasses := (Json5.exists_setValue_iff hgood.1 hvalid).mp ⟨next, h⟩ upper hupper
      have habove := @Json5.view_of_passes _ Json5.semantic _ _ _ hpasses
      rw [Json5.view_semantic] at habove
      exact habove.imp_right fun hnone ↦ hnone.resolve_right fun hsome ↦
        Bool.false_ne_true hsome.1
  write_ok := by
    intro document path value hgood hvalid hfine habove
    refine (Json5.exists_setValue_iff hgood.1 hvalid).mpr fun upper hupper ↦
      @Json5.passes_of_view _ Json5.semantic _ _ _ (.inl ?_)
    rw [Json5.view_semantic]
    exact habove upper hupper
  remove_ok := by
    intro document path hgood hvalid habove
    refine (Json5.exists_setValue_iff hgood.1 hvalid).mpr fun upper hupper ↦
      @Json5.passes_of_view _ Json5.semantic _ _ _ ?_
    rw [Json5.view_semantic]
    exact habove upper hupper

end TokenStation
