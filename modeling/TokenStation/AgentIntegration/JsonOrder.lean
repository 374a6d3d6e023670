import TokenStation.AgentIntegration.JsonView

/-!
# Objects in the order of their keys

The members of every object are kept in the order of their keys. The operations keep that order,
and under it two documents with the same view are equal.
-/

namespace TokenStation

namespace Json

/-- Members in the order of their keys, no key twice. -/
def InOrder (members : List (String × JsonValue)) : Prop :=
  members.Pairwise fun member other ↦ member.1 < other.1

/-- The members of every object are in order. -/
def Ordered (root : JsonValue) : Prop :=
  ∀ path members, valueAt root path = some (.object members) → InOrder members

theorem ordered_of_not_branch {root : JsonValue} (h : node root ≠ .branch) : Ordered root := by
  intro path members hvalue
  have hnot : ∀ m, root ≠ .object m := fun m hm ↦ h (node_eq_branch.mpr ⟨m, hm⟩)
  rcases path with - | ⟨segment, path⟩
  · exact absurd (Option.some.inj hvalue) (hnot members)
  · rw [valueAt_cons_of_not_object hnot] at hvalue
    nomatch hvalue

theorem ordered_object_iff {members : List (String × JsonValue)} :
    Ordered (.object members) ↔
      InOrder members ∧ ∀ segment child, members.lookup segment = some child → Ordered child := by
  constructor
  · intro h
    refine ⟨h [] members rfl, fun segment child hchild path inner hinner ↦ ?_⟩
    apply h (segment :: path)
    rw [valueAt_object_cons, hchild, Option.bind_some, hinner]
  · rintro ⟨horder, hchildren⟩ path inner hinner
    rcases path with - | ⟨segment, path⟩
    · rw [← JsonValue.object.inj (Option.some.inj hinner)]
      exact horder
    · rw [valueAt_object_cons] at hinner
      obtain ⟨child, hchild, hvalue⟩ := Option.bind_eq_some_iff.mp hinner
      exact hchildren segment child hchild path inner hvalue

theorem ordered_valueAt {root value : JsonValue} {path : List String} (h : Ordered root)
    (hvalue : valueAt root path = some value) : Ordered value := by
  induction path generalizing root with
  | nil =>
    obtain rfl := Option.some.inj hvalue
    exact h
  | cons segment path ih =>
    by_cases hroot : node root = .branch
    · obtain ⟨members, rfl⟩ := node_eq_branch.mp hroot
      rw [valueAt_object_cons] at hvalue
      obtain ⟨child, hchild, hvalue⟩ := Option.bind_eq_some_iff.mp hvalue
      exact ih ((ordered_object_iff.mp h).2 segment child hchild) hvalue
    · rw [valueAt_cons_of_not_object fun m hm ↦ hroot (node_eq_branch.mpr ⟨m, hm⟩)] at hvalue
      nomatch hvalue

/-! ## The operations keep the order -/

theorem mem_insertMember {key : String} {value : JsonValue} {members : List (String × JsonValue)}
    {member : String × JsonValue} (h : member ∈ insertMember key value members) :
    member = (key, value) ∨ member ∈ members := by
  induction members with
  | nil => exact Or.inl (List.mem_singleton.mp h)
  | cons first members ih =>
    obtain ⟨found, old⟩ := first
    rw [insertMember] at h
    split at h
    · exact List.mem_cons.mp h
    · split at h
      · exact (List.mem_cons.mp h).imp_right (List.mem_cons_of_mem _)
      · rcases List.mem_cons.mp h with rfl | h
        · exact Or.inr List.mem_cons_self
        · exact (ih h).imp_right (List.mem_cons_of_mem _)

theorem inOrder_insertMember {key : String} {value : JsonValue}
    {members : List (String × JsonValue)} (h : InOrder members) :
    InOrder (insertMember key value members) := by
  induction members with
  | nil => exact List.pairwise_singleton _ _
  | cons first members ih =>
    obtain ⟨found, old⟩ := first
    obtain ⟨hfirst, hrest⟩ := List.pairwise_cons.mp h
    rw [insertMember]
    by_cases hlt : key < found
    · rw [if_pos hlt]
      refine List.pairwise_cons.mpr ⟨fun member hmember ↦ ?_, h⟩
      rcases List.mem_cons.mp hmember with rfl | hmember
      · exact hlt
      · exact hlt.trans (hfirst member hmember)
    · rw [if_neg hlt]
      by_cases heq : key = found
      · subst heq
        rw [if_pos rfl]
        exact List.pairwise_cons.mpr ⟨hfirst, hrest⟩
      · rw [if_neg heq]
        refine List.pairwise_cons.mpr ⟨fun member hmember ↦ ?_, ih hrest⟩
        rcases mem_insertMember hmember with rfl | hmember
        · exact lt_of_le_of_ne (not_lt.mp hlt) (Ne.symm heq)
        · exact hfirst member hmember

/-- Putting a child keeps the order when the child has it. -/
theorem ordered_insertMember {key : String} {value : JsonValue}
    {members : List (String × JsonValue)} (h : Ordered (.object members)) (hvalue : Ordered value) :
    Ordered (.object (insertMember key value members)) := by
  obtain ⟨horder, hchildren⟩ := ordered_object_iff.mp h
  refine ordered_object_iff.mpr ⟨inOrder_insertMember horder, fun segment child hchild ↦ ?_⟩
  rw [lookup_insertMember] at hchild
  by_cases hkey : segment = key
  · rw [if_pos hkey] at hchild
    rwa [← Option.some.inj hchild]
  · rw [if_neg hkey] at hchild
    exact hchildren segment child hchild

theorem ordered_removeMember {key : String} {members : List (String × JsonValue)}
    (h : Ordered (.object members)) : Ordered (.object (removeMember key members)) := by
  obtain ⟨horder, hchildren⟩ := ordered_object_iff.mp h
  refine ordered_object_iff.mpr ⟨horder.filter _, fun segment child hchild ↦ ?_⟩
  rw [lookup_removeMember] at hchild
  by_cases hkey : segment = key
  · rw [if_pos hkey] at hchild
    nomatch hchild
  · rw [if_neg hkey] at hchild
    exact hchildren segment child hchild

theorem ordered_empty : Ordered (.object []) :=
  ordered_object_iff.mpr ⟨List.Pairwise.nil, fun _ _ h ↦ nomatch h⟩

theorem ordered_orObject {root : JsonValue} (h : Ordered root) : Ordered (orObject root) := by
  by_cases hnull : root = .null
  · rw [hnull]
    exact ordered_empty
  · rwa [orObject_of_ne_null hnull]

theorem ordered_getD {members : List (String × JsonValue)} {segment : String}
    (h : Ordered (.object members)) : Ordered ((members.lookup segment).getD (.object [])) := by
  rcases hchild : members.lookup segment with - | child
  · exact ordered_empty
  · exact (ordered_object_iff.mp h).2 segment child hchild

theorem ordered_writeAt {path : ConfigPath} {written : Option JsonValue} {last : String}
    {parents : List String} {root root' : JsonValue} (hroot : Ordered root)
    (hwritten : ∀ value ∈ written, Ordered value)
    (h : writeAt path written last parents root = .ok root') : Ordered root' := by
  induction parents generalizing root root' with
  | nil =>
    have hobject := ordered_orObject hroot
    rw [writeAt] at h
    split at h
    next members hmembers =>
      rw [hmembers] at hobject
      split at h
      next value =>
        obtain rfl := Except.ok.inj h
        exact ordered_insertMember hobject (hwritten value rfl)
      next => cases h
    next => cases h
  | cons parent parents ih =>
    have hobject := ordered_orObject hroot
    rw [writeAt] at h
    split at h
    next members hmembers =>
      rw [hmembers] at hobject
      rcases hchild : writeAt path written last parents
        ((members.lookup parent).getD (.object [])) with error | child
      · rw [hchild] at h
        cases h
      · rw [hchild] at h
        obtain rfl := Except.ok.inj h
        exact ordered_insertMember hobject (ih (ordered_getD hobject) hchild)
    next => cases h

theorem ordered_removeAt {path : ConfigPath} {last : String} {parents : List String}
    {root root' : JsonValue} (hroot : Ordered root)
    (h : removeAt path last parents root = .ok root') : Ordered root' := by
  induction parents generalizing root root' with
  | nil =>
    by_cases hbranch : node root = .branch
    · obtain ⟨members, rfl⟩ := node_eq_branch.mp hbranch
      obtain rfl := Except.ok.inj h
      exact ordered_removeMember hroot
    · rw [removeAt_of_not_branch hbranch] at h
      cases h
  | cons parent parents ih =>
    by_cases hbranch : node root = .branch
    · obtain ⟨members, rfl⟩ := node_eq_branch.mp hbranch
      rw [removeAt] at h
      split at h
      next =>
        obtain rfl := Except.ok.inj h
        exact hroot
      next child hchild =>
        rcases hremove : removeAt path last parents child with error | child'
        · rw [hremove] at h
          cases h
        · rw [hremove] at h
          obtain rfl := Except.ok.inj h
          have hordered := ih ((ordered_object_iff.mp hroot).2 parent child hchild) hremove
          exact ordered_insertMember hroot hordered
    · rw [removeAt_of_not_branch hbranch] at h
      cases h

theorem ordered_applyModels {root root' : JsonValue} {operation : PatchOperation}
    (hroot : Ordered root) (h : applyModels root operation = .ok root') : Ordered root' := by
  have harray : ∀ value, isArray value = true → Ordered value := by
    intro value hvalue
    apply ordered_of_not_branch
    intro hbranch
    obtain ⟨members, rfl⟩ := node_eq_branch.mp hbranch
    nomatch hvalue
  have hwrite : ∀ value, (if isArray value then Except.ok value
      else .error ("配置路径 '" ++ operation.path.toText ++ "' 只允许数组")) = .ok root' →
        Ordered root' := by
    intro value hvalue
    by_cases hisArray : isArray value = true
    · rw [if_pos hisArray] at hvalue
      rw [← Except.ok.inj hvalue]
      exact harray value hisArray
    · rw [if_neg hisArray] at hvalue
      nomatch hvalue
  rw [applyModels] at h
  split at h
  · split at h
    · nomatch h
    · exact hwrite _ h
  · split at h
    · nomatch h
    · exact hwrite _ h
  · rw [← Except.ok.inj h]
    exact harray _ rfl
  · split at h
    · rwa [← Except.ok.inj h]
    · nomatch h

theorem ordered_applyOperation {root root' : JsonValue} {operation : PatchOperation}
    (hroot : Ordered root) (hwritten : ∀ value ∈ operation.value, Ordered value)
    (h : applyOperation root operation = .ok root') : Ordered root' := by
  rw [applyOperation] at h
  split at h
  · exact ordered_applyModels hroot h
  · split at h
    · rwa [← Except.ok.inj h]
    · rcases hsplit : splitPath operation.path with error | ⟨last, parents⟩
      · rw [hsplit] at h
        cases h
      · rw [hsplit] at h
        simp only [Bind.bind, Except.bind] at h
        split at h
        · exact ordered_writeAt hroot hwritten h
        · exact ordered_writeAt hroot hwritten h
        · exact ordered_removeAt hroot h
        · split at h
          · cases h
          · rwa [← Except.ok.inj h]

theorem ordered_applyPatch {root root' : JsonValue} {operations : List PatchOperation}
    (hroot : Ordered root)
    (hwritten : ∀ operation ∈ operations, ∀ value ∈ operation.value, Ordered value)
    (h : applyPatch root operations = .ok root') : Ordered root' := by
  induction operations generalizing root with
  | nil => rwa [← Except.ok.inj h]
  | cons operation operations ih =>
    rcases hop : applyOperation root operation with error | middle
    · simp only [applyPatch, Bind.bind, Except.bind, hop] at h
      nomatch h
    · simp only [applyPatch, Bind.bind, Except.bind, hop] at h
      exact ih (ordered_applyOperation hroot (hwritten _ List.mem_cons_self) hop)
        (fun o ho ↦ hwritten o (List.mem_cons_of_mem _ ho)) h

/-! ## The view determines the document -/

theorem lookup_eq_none_of_lt {key : String} {members : List (String × JsonValue)}
    (h : ∀ member ∈ members, key < member.1) : members.lookup key = none := by
  rw [List.lookup_eq_none_iff]
  intro member hmember
  exact bne_iff_ne.mpr (h member hmember).ne

theorem eq_of_lookup {members others : List (String × JsonValue)} (h : InOrder members)
    (h' : InOrder others) (hlookup : ∀ key, members.lookup key = others.lookup key) :
    members = others := by
  induction members generalizing others with
  | nil =>
    rcases others with - | ⟨⟨key, value⟩, others⟩
    · rfl
    · have hkey := hlookup key
      rw [List.lookup_cons_self] at hkey
      nomatch hkey
  | cons member members ih =>
    obtain ⟨key, value⟩ := member
    obtain ⟨hfirst, hrest⟩ := List.pairwise_cons.mp h
    rcases others with - | ⟨⟨key', value'⟩, others⟩
    · have hkey := hlookup key
      rw [List.lookup_cons_self] at hkey
      nomatch hkey
    · obtain ⟨hfirst', hrest'⟩ := List.pairwise_cons.mp h'
      -- each first key is found on the other side, so neither is the smaller one
      have hle : ¬ key < key' := fun hlt ↦ by
        have hkey := hlookup key
        rw [List.lookup_cons_self, lookup_eq_none_of_lt fun member hmember ↦ ?_] at hkey
        · nomatch hkey
        · rcases List.mem_cons.mp hmember with rfl | hmember
          · exact hlt
          · exact hlt.trans (hfirst' member hmember)
      have hge : ¬ key' < key := fun hlt ↦ by
        have hkey := hlookup key'
        rw [List.lookup_cons_self, lookup_eq_none_of_lt fun member hmember ↦ ?_] at hkey
        · nomatch hkey
        · rcases List.mem_cons.mp hmember with rfl | hmember
          · exact hlt
          · exact hlt.trans (hfirst member hmember)
      obtain rfl : key = key' := le_antisymm (not_lt.mp hge) (not_lt.mp hle)
      have hvalue := hlookup key
      rw [List.lookup_cons_self, List.lookup_cons_self] at hvalue
      rw [Option.some.inj hvalue, ih hrest hrest' fun other ↦ ?_]
      by_cases hother : other = key
      · rw [hother, lookup_eq_none_of_lt hfirst, lookup_eq_none_of_lt hfirst']
      · have hsame := hlookup other
        rwa [List.lookup_cons, List.lookup_cons, beq_eq_false_iff_ne.mpr hother] at hsame

theorem sizeOf_lookup_lt {members : List (String × JsonValue)} {key : String} {child : JsonValue}
    (h : members.lookup key = some child) : sizeOf child < sizeOf (JsonValue.object members) := by
  have hmem : (key, child) ∈ members := by
    obtain ⟨before, after, rfl, -⟩ := List.lookup_eq_some_iff.mp h
    simp
  have hlt := List.sizeOf_lt_of_mem hmem
  simp only [Prod.mk.sizeOf_spec, JsonValue.object.sizeOf_spec] at hlt ⊢
  omega

/-- Documents in order with the same view are equal. -/
theorem eq_of_view {root other : JsonValue} (h : Ordered root) (h' : Ordered other)
    (hview : view root = view other) : root = other := by
  induction hsize : sizeOf root using Nat.strong_induction_on generalizing root other with
  | _ size ih =>
    have hnode : node root = node other := by
      have hnil := congrFun hview []
      rw [view_nil, view_nil] at hnil
      exact Option.some.inj hnil
    by_cases hbranch : node root = .branch
    · obtain ⟨members, rfl⟩ := node_eq_branch.mp hbranch
      obtain ⟨others, rfl⟩ := node_eq_branch.mp (hnode ▸ hbranch)
      obtain ⟨horder, hchildren⟩ := ordered_object_iff.mp h
      obtain ⟨horder', hchildren'⟩ := ordered_object_iff.mp h'
      refine congrArg JsonValue.object (eq_of_lookup horder horder' fun key ↦ ?_)
      have hbelow : ∀ path, ((members.lookup key).bind fun child ↦ view child path) =
          (others.lookup key).bind fun child ↦ view child path := by
        intro path
        rw [← view_object_cons, ← view_object_cons, hview]
      rcases hchild : members.lookup key with - | child
      · rcases hchild' : others.lookup key with - | child'
        · rfl
        · have hnil := hbelow []
          rw [hchild, hchild', Option.bind_some, view_nil] at hnil
          nomatch hnil
      · rcases hchild' : others.lookup key with - | child'
        · have hnil := hbelow []
          rw [hchild, hchild', Option.bind_some, view_nil] at hnil
          nomatch hnil
        · have hsame : view child = view child' := by
            funext path
            have hpath := hbelow path
            rwa [hchild, hchild', Option.bind_some, Option.bind_some] at hpath
          rw [ih _ (hsize ▸ sizeOf_lookup_lt hchild) (hchildren key child hchild)
            (hchildren' key child' hchild') hsame rfl]
    · exact eq_of_node_eq hnode hbranch

end Json

end TokenStation
