import TokenStation.AgentIntegration.JsonRestore

/-!
# How far a path reaches

A removal stops where its path ends, and is refused just where something other than an object stands
on its way, null included. A write takes null for an empty object.
-/

namespace TokenStation

open Library

namespace Json

theorem object_of_view_nil {root : JsonValue} (h : view root [] = some .branch) :
    ∃ members, root = .object members := by
  rw [view_nil] at h
  exact node_eq_branch.mp (Option.some.inj h)

/-- A removal is accepted just when objects, or nothing, stand above its path. -/
theorem exists_removeAt_iff {path : ConfigPath} {last : String} {parents : List String}
    {root : JsonValue} :
    (∃ root', removeAt path last parents root = .ok root') ↔
      ∀ upper, Below upper (parents ++ [last]) →
        view root upper = some .branch ∨ view root upper = none := by
  induction parents generalizing root with
  | nil =>
    constructor
    · rintro ⟨root', h⟩ upper hupper
      have hnil : upper = [] := by
        have hlength := hupper.length_lt
        rw [List.nil_append, List.length_singleton] at hlength
        exact List.eq_nil_of_length_eq_zero (by omega)
      by_cases hroot : node root = .branch
      · rw [hnil, view_nil, hroot]
        exact .inl rfl
      · rw [removeAt_of_not_branch hroot] at h
        cases h
    · intro habove
      rcases habove [] ⟨List.nil_prefix, List.cons_ne_nil _ _⟩ with hbranch | hnone
      · obtain ⟨members, rfl⟩ := object_of_view_nil hbranch
        exact ⟨_, rfl⟩
      · rw [view_nil] at hnone
        cases hnone
  | cons parent parents ih =>
    by_cases hroot : node root = .branch
    · obtain ⟨members, rfl⟩ := node_eq_branch.mp hroot
      have hroot' : view (.object members) [] = some .branch := rfl
      have hsplit : (∀ upper, Below upper (parent :: parents ++ [last]) →
          view (.object members) upper = some .branch ∨ view (.object members) upper = none) ↔
          ∀ child, members.lookup parent = some child → ∀ upper, Below upper (parents ++ [last]) →
            view child upper = some .branch ∨ view child upper = none := by
        constructor
        · intro habove child hchild upper hupper
          have hall := habove (parent :: upper)
            ⟨List.cons_prefix_cons.mpr ⟨rfl, hupper.1⟩, fun heq ↦ hupper.2 (List.cons.inj heq).2⟩
          rwa [view_object_cons, hchild, Option.bind_some] at hall
        · intro hbelow upper hupper
          rcases upper with - | ⟨first, upper⟩
          · exact .inl hroot'
          · obtain ⟨rfl, htail⟩ := List.cons_prefix_cons.mp hupper.1
            rw [view_object_cons]
            rcases hchild : members.lookup first with - | child
            · exact .inr rfl
            · exact hbelow child hchild upper
                ⟨htail, fun heq ↦ hupper.2 (by rw [List.cons_append, heq])⟩
      rw [hsplit, removeAt]
      split
      next hnone =>
        refine iff_of_true ⟨_, rfl⟩ fun child hchild ↦ ?_
        rw [hnone] at hchild
        cases hchild
      next child hchild =>
        have hmap : (∃ root', (removeAt path last parents child).map (fun child ↦
            JsonValue.object (insertMember parent child members)) = .ok root') ↔
            ∃ child', removeAt path last parents child = .ok child' := by
          rcases removeAt path last parents child with error | child'
          · exact iff_of_false (by rintro ⟨_, ⟨⟩⟩) (by rintro ⟨_, ⟨⟩⟩)
          · exact iff_of_true ⟨_, rfl⟩ ⟨_, rfl⟩
        rw [hmap, ih]
        constructor
        · intro hbelow found hfound
          rw [hchild] at hfound
          obtain rfl := Option.some.inj hfound
          exact hbelow
        · exact fun hbelow ↦ hbelow child hchild
    · refine iff_of_false ?_ ?_
      · rintro ⟨root', h⟩
        rw [removeAt_of_not_branch hroot] at h
        cases h
      · intro habove
        rcases habove [] ⟨List.nil_prefix, List.cons_ne_nil _ _⟩ with hbranch | hnone
        · rw [view_nil] at hbranch
          exact hroot (Option.some.inj hbranch)
        · rw [view_nil] at hnone
          cases hnone

/-- Null and an object are read as an object by a write. -/
theorem exists_orObject {root : JsonValue}
    (h : view root [] = some .branch ∨ Lacks (view root) []) :
    ∃ members, orObject root = .object members := by
  rcases h with hbranch | hnone | hnull
  · obtain ⟨members, rfl⟩ := object_of_view_nil hbranch
    exact ⟨members, rfl⟩
  · rw [view_nil] at hnone
    nomatch hnone
  · rw [view_nil] at hnull
    rw [node_eq_null (Option.some.inj hnull)]
    exact ⟨[], rfl⟩

/-- A write is accepted just when objects, null or nothing stand above its path. -/
theorem exists_writeAt_iff {path : ConfigPath} {last : String} {parents : List String}
    {root value : JsonValue} :
    (∃ root', writeAt path (some value) last parents root = .ok root') ↔
      ∀ upper, Below upper (parents ++ [last]) →
        view root upper = some .branch ∨ Lacks (view root) upper := by
  refine ⟨fun ⟨_, h⟩ upper hupper ↦ above_of_writeAt h hupper, fun habove ↦ ?_⟩
  induction parents generalizing root with
  | nil =>
    obtain ⟨members, hmembers⟩ := exists_orObject
      (habove [] ⟨List.nil_prefix, List.cons_ne_nil _ _⟩)
    rw [writeAt, hmembers]
    exact ⟨_, rfl⟩
  | cons parent parents ih =>
    obtain ⟨members, hmembers⟩ := exists_orObject
      (habove [] ⟨List.nil_prefix, List.cons_ne_nil _ _⟩)
    obtain ⟨child, hchild⟩ := @ih ((members.lookup parent).getD (.object [])) fun upper hupper ↦ by
      by_cases hnil : upper = []
      · subst hnil
        rcases hlookup : members.lookup parent with - | child
        · exact .inl rfl
        · have hhere := habove [parent] ⟨List.cons_prefix_cons.mpr ⟨rfl, List.nil_prefix⟩,
            fun heq ↦ hupper.2 (List.cons.inj heq).2⟩
          rwa [Lacks, view_orObject hmembers, hlookup, Option.bind_some] at hhere
      · have hbelow := habove (parent :: upper) ⟨List.cons_prefix_cons.mpr ⟨rfl, hupper.1⟩,
          fun heq ↦ hupper.2 (List.cons.inj heq).2⟩
        rwa [Lacks, view_orObject hmembers, ← view_getD hnil] at hbelow
    rw [writeAt, hmembers]
    dsimp only
    rw [hchild]
    exact ⟨_, rfl⟩

theorem splitPath_ok {segments : List String} (hne : segments ≠ [])
    (hvalid : segments.all isValidSegment = true) :
    ∃ last parents, splitPath ⟨segments⟩ = .ok (last, parents) ∧ parents ++ [last] = segments := by
  have hlast := List.getLast?_eq_some_getLast hne
  refine ⟨segments.getLast hne, segments.dropLast, ?_, List.dropLast_append_getLast hne⟩
  rw [splitPath, hlast]
  exact if_pos hvalid

/-- An operation on an object walks down from its root. -/
theorem applyOperation_of_branch {root : JsonValue} (hroot : node root = .branch)
    {operation : PatchOperation} {last : String} {parents : List String}
    (hsplit : splitPath operation.path = .ok (last, parents)) :
    applyOperation root operation =
      match operation.operation with
      | .add | .replace => writeAt operation.path operation.value last parents root
      | .remove => removeAt operation.path last parents root
      | .test => (testAt operation.path operation.value last parents root).map fun _ ↦ root := by
  obtain ⟨members, rfl⟩ := node_eq_branch.mp hroot
  have harray : ¬isArray (.object members) = true := fun harray ↦ nomatch harray
  rw [applyOperation, if_neg fun hor ↦ harray hor.1, if_neg fun hor ↦ harray hor.1, hsplit]
  rcases operation.operation with - | - | - | -
  case test =>
    simp only [Bind.bind, Except.bind]
    rcases testAt operation.path operation.value last parents (.object members) with error | -
    · rfl
    · rfl
  all_goals rfl

end Json

end TokenStation
