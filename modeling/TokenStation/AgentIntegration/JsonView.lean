import TokenStation.AgentIntegration.JsonDocument
import TokenStation.Library.PathTree

/-!
# A JSON document by its paths

The operations of a patch walk down a document and rebuild it on the way back. By its paths, a
write is a graft and a removal a prune. A document in which the members of every object are in the
order of their keys is given by its paths.
-/

namespace TokenStation

open Library

namespace Json

/-- What stands at a path: an object is a branch, anything else a leaf. -/
def node : JsonValue → Node JsonValue
  | .object _ => .branch
  | value => .leaf value

/-- A document by its paths. -/
def view (root : JsonValue) : PathTree String JsonValue :=
  fun path ↦ (valueAt root path).map node

/-! ## Members -/

theorem lookup_insertMember (key : String) (value : JsonValue)
    (members : List (String × JsonValue)) (other : String) :
    (insertMember key value members).lookup other =
      if other = key then some value else members.lookup other := by
  induction members with
  | nil =>
    simp only [insertMember, List.lookup_cons, List.lookup_nil]
    by_cases h : other = key
    · simp [h]
    · simp [h, beq_eq_false_iff_ne.mpr h]
  | cons member members ih =>
    obtain ⟨found, old⟩ := member
    rw [insertMember]
    by_cases hlt : key < found
    · rw [if_pos hlt, List.lookup_cons]
      by_cases h : other = key
      · simp [h]
      · simp [h, beq_eq_false_iff_ne.mpr h]
    · rw [if_neg hlt]
      by_cases heq : key = found
      · subst heq
        rw [if_pos rfl, List.lookup_cons, List.lookup_cons]
        by_cases h : other = key
        · simp [h]
        · simp [h, beq_eq_false_iff_ne.mpr h]
      · rw [if_neg heq, List.lookup_cons, List.lookup_cons, ih]
        by_cases h : other = found
        · subst h
          simp [Ne.symm heq]
        · simp [beq_eq_false_iff_ne.mpr h]

theorem lookup_removeMember (key : String) (members : List (String × JsonValue))
    (other : String) :
    (removeMember key members).lookup other =
      if other = key then none else members.lookup other := by
  induction members with
  | nil => simp [removeMember]
  | cons member members ih =>
    obtain ⟨found, old⟩ := member
    rw [removeMember] at ih
    rw [removeMember, List.filter_cons]
    by_cases heq : found = key
    · subst heq
      simp only [ne_eq, not_true_eq_false, decide_false, Bool.false_eq_true, if_false, ih,
        List.lookup_cons]
      by_cases h : other = found
      · simp [h]
      · simp [h, beq_eq_false_iff_ne.mpr h]
    · simp only [ne_eq, heq, not_false_eq_true, decide_true, if_true, List.lookup_cons, ih]
      by_cases h : other = found
      · subst h
        simp [heq]
      · simp [beq_eq_false_iff_ne.mpr h]

/-! ## Looking at paths -/

@[simp] theorem valueAt_nil (root : JsonValue) : valueAt root [] = some root := by
  rw [valueAt]

theorem valueAt_object_cons (members : List (String × JsonValue)) (segment : String)
    (path : List String) :
    valueAt (.object members) (segment :: path) =
      (members.lookup segment).bind (valueAt · path) := by
  rw [valueAt]

theorem valueAt_cons_of_not_object {root : JsonValue} (h : ∀ members, root ≠ .object members)
    (segment : String) (path : List String) : valueAt root (segment :: path) = none := by
  rw [valueAt]
  exact fun members hroot ↦ h members hroot

@[simp] theorem view_nil (root : JsonValue) : view root [] = some (node root) := by
  rw [view, valueAt_nil, Option.map_some]

theorem view_object_cons (members : List (String × JsonValue)) (segment : String)
    (path : List String) :
    view (.object members) (segment :: path) =
      (members.lookup segment).bind fun child ↦ view child path := by
  rw [view, valueAt_object_cons, Option.map_bind]
  rfl

theorem node_eq_branch {value : JsonValue} :
    node value = .branch ↔ ∃ members, value = .object members := by
  rcases value <;> simp [node]

theorem node_of_not_branch {value : JsonValue} (h : node value ≠ .branch) :
    node value = .leaf value := by
  rcases value <;> first | rfl | exact absurd rfl h

theorem eq_of_node_eq {value value' : JsonValue} (h : node value = node value')
    (hnot : node value ≠ .branch) : value = value' := by
  have hnot' : node value' ≠ .branch := h ▸ hnot
  rw [node_of_not_branch hnot, node_of_not_branch hnot'] at h
  exact Node.leaf.inj h

theorem view_cons_of_not_branch {root : JsonValue} (h : node root ≠ .branch) (segment : String)
    (path : List String) : view root (segment :: path) = none := by
  rw [view, valueAt_cons_of_not_object fun members hroot ↦ h (node_eq_branch.mpr ⟨members, hroot⟩),
    Option.map_none]

/-- Below a path, a document is the value at that path. -/
theorem view_append {root value : JsonValue} {path : List String}
    (h : valueAt root path = some value) (lower : List String) :
    view root (path ++ lower) = view value lower := by
  induction path generalizing root with
  | nil =>
    obtain rfl := Option.some.inj h
    rfl
  | cons segment path ih =>
    by_cases hroot : node root = .branch
    · obtain ⟨members, rfl⟩ := node_eq_branch.mp hroot
      rw [valueAt_object_cons] at h
      obtain ⟨child, hchild, hvalue⟩ := Option.bind_eq_some_iff.mp h
      rw [List.cons_append, view_object_cons, hchild, Option.bind_some]
      exact ih hvalue
    · rw [valueAt_cons_of_not_object fun m hm ↦ hroot (node_eq_branch.mpr ⟨m, hm⟩)] at h
      nomatch h

theorem view_eq_none_of_append {root : JsonValue} {path : List String}
    (h : valueAt root path = none) (lower : List String) : view root (path ++ lower) = none := by
  induction path generalizing root with
  | nil =>
    rw [valueAt_nil] at h
    nomatch h
  | cons segment path ih =>
    by_cases hroot : node root = .branch
    · obtain ⟨members, rfl⟩ := node_eq_branch.mp hroot
      rw [valueAt_object_cons] at h
      rw [List.cons_append, view_object_cons]
      rcases hchild : members.lookup segment with - | child
      · rfl
      · rw [hchild] at h
        exact ih h
    · rw [List.cons_append, view_cons_of_not_branch hroot]

theorem rooted_view (root : JsonValue) : (view root).Rooted := by
  rintro path lower ⟨⟨rest, rfl⟩, hne⟩ hsome
  rcases hvalue : valueAt root path with - | value
  · exact absurd (view_eq_none_of_append hvalue rest) hsome
  · rw [view_append hvalue] at hsome
    rcases rest with - | ⟨segment, rest⟩
    · exact absurd (List.append_nil path) hne
    · by_contra hnot
      rw [view, hvalue, Option.map_some] at hnot
      exact hsome (view_cons_of_not_branch (fun h ↦ hnot (by rw [h])) segment rest)

/-- Nothing or null stands at the path. -/
def Lacks (tree : PathTree String JsonValue) (path : List String) : Prop :=
  tree path = none ∨ tree path = some (.leaf .null)

/-! ## The operations, by paths -/

theorem orObject_of_ne_null {root : JsonValue} (h : root ≠ .null) : orObject root = root := by
  rw [orObject]
  exact h

/-- Reading null as an empty object changes nothing below it. -/
theorem view_orObject {root : JsonValue} {members : List (String × JsonValue)}
    (h : orObject root = .object members) (segment : String) (path : List String) :
    view root (segment :: path) = (members.lookup segment).bind fun child ↦ view child path := by
  by_cases hnull : root = .null
  · subst hnull
    obtain rfl : [] = members := JsonValue.object.inj h
    rfl
  · rw [orObject_of_ne_null hnull] at h
    rw [h, view_object_cons]

/-- A new object where a child is missing changes nothing below it. -/
theorem view_getD {members : List (String × JsonValue)} {segment : String} {path : List String}
    (hpath : path ≠ []) :
    view ((members.lookup segment).getD (.object [])) path =
      (members.lookup segment).bind fun child ↦ view child path := by
  rcases members.lookup segment with - | child
  · rcases path with - | ⟨first, path⟩
    · exact absurd rfl hpath
    · rfl
  · rfl

theorem view_writeAt {path : ConfigPath} {written : Option JsonValue} {last : String}
    {parents : List String} {root root' : JsonValue}
    (h : writeAt path written last parents root = .ok root') :
    ∃ value, written = some value ∧
      view root' = (view root).graft (parents ++ [last]) (view value) := by
  induction parents generalizing root root' with
  | nil =>
    rw [writeAt] at h
    split at h
    next members hmembers =>
      split at h
      next value =>
        obtain rfl := Except.ok.inj h
        refine ⟨value, rfl, funext fun p ↦ ?_⟩
        rcases p with - | ⟨segment, p⟩
        · exact (PathTree.graft_cons_nil _ _ _ _).symm
        · rw [List.nil_append, PathTree.graft_cons_cons, view_object_cons, lookup_insertMember]
          by_cases hsegment : segment = last
          · rw [if_pos hsegment, if_pos hsegment, Option.bind_some,
              PathTree.graft_of_prefix List.nil_prefix]
            rfl
          · rw [if_neg hsegment, if_neg hsegment, view_orObject hmembers]
      next => nomatch h
    next => nomatch h
  | cons parent parents ih =>
    rw [writeAt] at h
    split at h
    next members hmembers =>
      rcases hchild : writeAt path written last parents
        ((members.lookup parent).getD (.object [])) with error | child
      · rw [hchild] at h
        nomatch h
      · rw [hchild] at h
        obtain rfl := Except.ok.inj h
        obtain ⟨value, hvalue, hview⟩ := ih hchild
        refine ⟨value, hvalue, funext fun p ↦ ?_⟩
        rcases p with - | ⟨segment, p⟩
        · exact (PathTree.graft_cons_nil _ _ _ _).symm
        · rw [List.cons_append, PathTree.graft_cons_cons, view_object_cons, lookup_insertMember]
          by_cases hsegment : segment = parent
          · subst hsegment
            rw [if_pos rfl, if_pos rfl, Option.bind_some, hview, PathTree.graft, PathTree.graft]
            -- where neither path leads on, the child is what it was
            by_cases hinside : parents ++ [last] <+: p
            · rw [if_pos hinside, if_pos hinside]
            · rw [if_neg hinside, if_neg hinside]
              by_cases habove : p <+: parents ++ [last]
              · rw [if_pos habove, if_pos habove]
              · rw [if_neg habove, if_neg habove, view_orObject hmembers]
                apply view_getD
                rintro rfl
                exact habove List.nil_prefix
          · rw [if_neg hsegment, if_neg hsegment, view_orObject hmembers]
    next => nomatch h

theorem removeAt_of_not_branch {path : ConfigPath} {last : String} {parents : List String}
    {root : JsonValue} (h : node root ≠ .branch) :
    removeAt path last parents root = .error (parentNotObject path) := by
  have hnot : ∀ members, root ≠ .object members := fun members hroot ↦
    h (node_eq_branch.mpr ⟨members, hroot⟩)
  rw [removeAt.eq_def]
  split
  next members => exact absurd rfl (hnot members)
  next members => exact absurd rfl (hnot members)
  next => rfl

theorem view_removeAt {path : ConfigPath} {last : String} {parents : List String}
    {root root' : JsonValue} (h : removeAt path last parents root = .ok root') :
    view root' = (view root).prune (parents ++ [last]) := by
  induction parents generalizing root root' with
  | nil =>
    by_cases hroot : node root = .branch
    · obtain ⟨members, rfl⟩ := node_eq_branch.mp hroot
      obtain rfl := Except.ok.inj h
      funext p
      rcases p with - | ⟨segment, p⟩
      · rw [List.nil_append, PathTree.prune_cons_nil]
        rfl
      · rw [List.nil_append, PathTree.prune_cons_cons, view_object_cons, lookup_removeMember,
          view_object_cons]
        by_cases hsegment : segment = last
        · rw [if_pos hsegment, if_pos hsegment, PathTree.prune_of_prefix List.nil_prefix]
          rfl
        · rw [if_neg hsegment, if_neg hsegment]
    · rw [removeAt_of_not_branch hroot] at h
      cases h
  | cons parent parents ih =>
    by_cases hroot : node root = .branch
    · obtain ⟨members, rfl⟩ := node_eq_branch.mp hroot
      rw [List.cons_append]
      rw [removeAt] at h
      split at h
      next hnone =>
        obtain rfl := Except.ok.inj h
        funext p
        rcases p with - | ⟨segment, p⟩
        · rw [PathTree.prune_cons_nil]
        · rw [PathTree.prune_cons_cons]
          by_cases hsegment : segment = parent
          · subst hsegment
            have hempty : ∀ q, view (.object members) (segment :: q) = none := by
              intro q
              rw [view_object_cons, hnone, Option.bind_none]
            rw [if_pos rfl, hempty, PathTree.prune, hempty, ite_self]
          · rw [if_neg hsegment]
      next child hchild =>
        rcases hremove : removeAt path last parents child with error | child'
        · rw [hremove] at h
          cases h
        · rw [hremove] at h
          obtain rfl := Except.ok.inj h
          have hview := ih hremove
          funext p
          rcases p with - | ⟨segment, p⟩
          · rw [PathTree.prune_cons_nil]
            rfl
          · rw [PathTree.prune_cons_cons, view_object_cons, lookup_insertMember]
            by_cases hsegment : segment = parent
            · subst hsegment
              have hbelow : (fun q ↦ view (.object members) (segment :: q)) = view child := by
                funext q
                rw [view_object_cons, hchild, Option.bind_some]
              rw [if_pos rfl, if_pos rfl, Option.bind_some, hview, hbelow]
            · rw [if_neg hsegment, if_neg hsegment, view_object_cons]
    · rw [removeAt_of_not_branch hroot] at h
      cases h

theorem root_of_writeAt {path : ConfigPath} {written : Option JsonValue} {last : String}
    {parents : List String} {root root' : JsonValue}
    (h : writeAt path written last parents root = .ok root') :
    view root [] = some .branch ∨ Lacks (view root) [] := by
  by_cases hnull : root = .null
  · rw [hnull]
    exact Or.inr (Or.inr rfl)
  · have hobject : ∃ members, orObject root = .object members := by
      rcases parents with - | ⟨parent, parents⟩
      · rw [writeAt] at h
        split at h
        next members hmembers => exact ⟨members, hmembers⟩
        next => nomatch h
      · rw [writeAt] at h
        split at h
        next members hmembers => exact ⟨members, hmembers⟩
        next => nomatch h
    obtain ⟨members, hmembers⟩ := hobject
    rw [orObject_of_ne_null hnull] at hmembers
    rw [hmembers]
    exact Or.inl rfl

/-- A write goes through objects, and through what it takes for one. -/
theorem above_of_writeAt {path : ConfigPath} {written : Option JsonValue} {last : String}
    {parents : List String} {root root' : JsonValue}
    (h : writeAt path written last parents root = .ok root') {upper : List String}
    (hupper : Below upper (parents ++ [last])) :
    view root upper = some .branch ∨ Lacks (view root) upper := by
  induction upper generalizing parents root root' with
  | nil => exact root_of_writeAt h
  | cons segment upper ih =>
    obtain ⟨hleads, hne⟩ := hupper
    rcases parents with - | ⟨parent, parents⟩
    · obtain ⟨rfl, hnil⟩ := List.cons_prefix_cons.mp hleads
      rw [List.prefix_nil.mp hnil] at hne
      exact absurd rfl hne
    · obtain ⟨rfl, htail⟩ := List.cons_prefix_cons.mp hleads
      have hbelow : Below upper (parents ++ [last]) :=
        ⟨htail, fun heq ↦ hne (by rw [List.cons_append, heq])⟩
      rw [writeAt] at h
      split at h
      next members hmembers =>
        rcases hchild : writeAt path written last parents
          ((members.lookup segment).getD (.object [])) with error | child
        · rw [hchild] at h
          nomatch h
        · rw [Lacks, view_orObject hmembers]
          rcases hlookup : members.lookup segment with - | old
          · exact Or.inr (Or.inl rfl)
          · rw [hlookup, Option.getD_some] at hchild
            exact ih hchild hbelow
      next => nomatch h

theorem splitPath_eq_ok {path : ConfigPath} {last : String} {parents : List String}
    (h : splitPath path = .ok (last, parents)) : parents ++ [last] = path.segments := by
  rw [splitPath] at h
  split at h
  next => nomatch h
  next found hlast =>
    split at h
    · obtain ⟨rfl, rfl⟩ := Prod.mk.inj (Except.ok.inj h)
      exact List.dropLast_append_getLast? found hlast
    · nomatch h

/-- What an accepted operation does to a document that is an object. -/
inductive Applied (root root' : JsonValue) (operation : PatchOperation) : Prop where
  | wrote (value : JsonValue) (hkind : operation.operation = .add ∨ operation.operation = .replace)
      (hvalue : operation.value = some value)
      (hview : view root' = (view root).graft operation.path.segments (view value))
      (habove : ∀ upper, Below upper operation.path.segments →
        view root upper = some .branch ∨ Lacks (view root) upper)
  | removed (hkind : operation.operation = .remove)
      (hview : view root' = (view root).prune operation.path.segments)
  | tested (hkind : operation.operation = .test) (hsame : root' = root)

theorem applied_of_writeAt {root root' : JsonValue} {operation : PatchOperation} {last : String}
    {parents : List String} (hpath : parents ++ [last] = operation.path.segments)
    (hkind : operation.operation = .add ∨ operation.operation = .replace)
    (h : writeAt operation.path operation.value last parents root = .ok root') :
    Applied root root' operation := by
  obtain ⟨value, hvalue, hview⟩ := view_writeAt h
  rw [hpath] at hview
  refine Applied.wrote value hkind hvalue hview fun upper hupper ↦ ?_
  rw [← hpath] at hupper
  exact above_of_writeAt h hupper

theorem applied_of_applyOperation {root root' : JsonValue} {operation : PatchOperation}
    (hroot : node root = .branch) (h : applyOperation root operation = .ok root') :
    operation.path.segments ≠ [] ∧ Applied root root' operation := by
  obtain ⟨members, rfl⟩ := node_eq_branch.mp hroot
  have harray : ¬ isArray (.object members) = true := fun harray ↦ nomatch harray
  rw [applyOperation, if_neg fun hor ↦ harray hor.1, if_neg fun hor ↦ harray hor.1] at h
  rcases hsplit : splitPath operation.path with error | ⟨last, parents⟩
  · rw [hsplit] at h
    nomatch h
  · have hpath := splitPath_eq_ok hsplit
    rw [hsplit] at h
    simp only [Bind.bind, Except.bind] at h
    refine ⟨by rw [← hpath]; simp, ?_⟩
    split at h
    next hkind => exact applied_of_writeAt hpath (Or.inl hkind) h
    next hkind => exact applied_of_writeAt hpath (Or.inr hkind) h
    next hkind =>
      have hview := view_removeAt h
      rw [hpath] at hview
      exact Applied.removed hkind hview
    next hkind =>
      split at h
      · nomatch h
      · exact Applied.tested hkind (Except.ok.inj h).symm

/-- The two operations that a disconnect makes. -/
theorem view_of_replace {root root' value : JsonValue} {path : ConfigPath}
    (hroot : node root = .branch)
    (h : applyOperation root ⟨.replace, path, some value⟩ = .ok root') :
    path.segments ≠ [] ∧ view root' = (view root).graft path.segments (view value) := by
  obtain ⟨hpath, happlied⟩ := applied_of_applyOperation hroot h
  refine ⟨hpath, ?_⟩
  rcases happlied with ⟨written, -, hvalue, hview, -⟩ | ⟨hkind, -⟩ | ⟨hkind, -⟩
  · rw [Option.some.inj hvalue]
    exact hview
  · nomatch hkind
  · nomatch hkind

theorem view_of_remove {root root' : JsonValue} {path : ConfigPath} (hroot : node root = .branch)
    (h : applyOperation root ⟨.remove, path, none⟩ = .ok root') :
    path.segments ≠ [] ∧ view root' = (view root).prune path.segments := by
  obtain ⟨hpath, happlied⟩ := applied_of_applyOperation hroot h
  refine ⟨hpath, ?_⟩
  rcases happlied with ⟨written, hkind, -, -, -⟩ | ⟨-, hview⟩ | ⟨hkind, -⟩
  · rcases hkind with hkind | hkind
    · nomatch hkind
    · nomatch hkind
  · exact hview
  · nomatch hkind

end Json

end TokenStation
