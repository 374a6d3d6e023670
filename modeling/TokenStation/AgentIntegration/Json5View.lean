import TokenStation.AgentIntegration.Json5Document

/-!
# A JSON5 document by its paths

By its paths, a write into a JSON5 document is a graft and a removal a prune, as for JSON. Both walk
down the properties one at a time; `Stepped` says what one level of the walk does.
-/

namespace TokenStation

open Library

namespace Json5

open Json

/-! ## A tree by its paths -/

/-- The value at a path. -/
def find : Json5Value → List String → Option Json5Value
  | root, [] => some root
  | .object pairs, segment :: path => (pairs.lookup segment).bind (find · path)
  | _, _ :: _ => none

/-- A value as a node, its leaves as they are read. -/
def nodeBy {β : Type} (leaf : Json5Value → β) : Json5Value → Node β
  | .object _ => .branch
  | value => .leaf (leaf value)

/-- What stands at each path. -/
def view {β : Type} (leaf : Json5Value → β) (root : Json5Value) : PathTree String β :=
  fun path ↦ (find root path).map (nodeBy leaf)

variable {β : Type} {leaf : Json5Value → β}

theorem find_nil (root : Json5Value) : find root [] = some root := by
  rw [find]

theorem find_object_cons (pairs : List (String × Json5Value)) (segment : String)
    (path : List String) :
    find (.object pairs) (segment :: path) = (pairs.lookup segment).bind (find · path) := by
  rw [find]

theorem node_eq {root : Json5Value} :
    nodeBy leaf root = .branch ↔ ∃ pairs, root = .object pairs := by
  rcases root <;> simp [nodeBy]

theorem view_nil (root : Json5Value) : view leaf root [] = some (nodeBy leaf root) := by
  rw [view, find_nil, Option.map_some]

theorem view_object_cons (pairs : List (String × Json5Value)) (segment : String)
    (path : List String) :
    view leaf (.object pairs) (segment :: path) =
      (pairs.lookup segment).bind fun child ↦ view leaf child path := by
  rw [view, find_object_cons, Option.map_bind]
  rfl

/-- A value at a path of what a tree means is what the value there means. -/
theorem valueAt_semantic (root : Json5Value) (path : List String) :
    Json.valueAt (semantic root) path = (find root path).map semantic := by
  induction path generalizing root with
  | nil => rw [Json.valueAt_nil, find_nil, Option.map_some]
  | cons segment path ih =>
    by_cases hroot : ∃ pairs, root = .object pairs
    · obtain ⟨pairs, rfl⟩ := hroot
      rw [find_object_cons, semantic, Json.valueAt_object_cons, lookup_semanticPairs]
      rcases pairs.lookup segment with - | child
      · rfl
      · exact ih child
    · rcases root <;> first | rfl | exact absurd ⟨_, rfl⟩ hroot

/-- By its paths, a tree means what its value means. -/
theorem view_semantic (root : Json5Value) : view semantic root = Json.view (semantic root) := by
  funext path
  rw [view, Json.view, valueAt_semantic, Option.map_map]
  congr 1
  funext value
  rcases value <;> rfl

/-- How leaves are read does not matter for what stands where. -/
theorem view_map (root : Json5Value) (path : List String) :
    view leaf root path = (view id root path).map (Node.map leaf) := by
  rw [view, view, Option.map_map]
  congr 1
  funext value
  rcases value <;> rfl

theorem view_eq_branch_iff {root : Json5Value} {path : List String} :
    view leaf root path = some .branch ↔ view id root path = some .branch := by
  rw [view_map]
  rcases view id root path with - | - | value
  · exact iff_of_false (fun h ↦ nomatch h) fun h ↦ nomatch h
  · exact iff_of_true rfl rfl
  · exact iff_of_false (fun h ↦ nomatch Option.some.inj h) fun h ↦ nomatch Option.some.inj h

theorem view_eq_none_iff {root : Json5Value} {path : List String} :
    view leaf root path = none ↔ view id root path = none := by
  rw [view_map, Option.map_eq_none_iff]

theorem rooted_view (root : Json5Value) : (view (id : Json5Value → Json5Value) root).Rooted := by
  intro path lower hbelow hne
  rw [← @view_eq_branch_iff _ semantic, view_semantic]
  refine Json.rooted_view (semantic root) path lower hbelow ?_
  rwa [← view_semantic, Ne, view_eq_none_iff]

theorem property_eq {pairs : List (String × Json5Value)} (h : (pairs.map Prod.fst).Nodup)
    (segment : String) : property pairs segment = .ok (pairs.lookup segment) := by
  rw [property, filter_eq_of_lookup h]
  rcases pairs.lookup segment with - | child <;> rfl

/-- Null is read as an empty object by a write, which changes nothing below it. -/
theorem view_orObject {replacement : Option Json5Value} {root : Json5Value}
    {pairs : List (String × Json5Value)} (h : orObject replacement root = .object pairs)
    (segment : String) (path : List String) :
    view leaf root (segment :: path) =
      (pairs.lookup segment).bind fun child ↦ view leaf child path := by
  rcases root with - | _ | _ | - | _ | _ | others
  · rw [orObject] at h
    split at h
    · obtain rfl := Json5Value.object.inj h
      rfl
    · nomatch h
  case object =>
    obtain rfl := Json5Value.object.inj h
    exact view_object_cons _ segment path
  all_goals nomatch h

theorem distinct_orObject {replacement : Option Json5Value} {root : Json5Value}
    (h : Distinct root) : Distinct (orObject replacement root) := by
  rcases root with - | _ | _ | - | _ | _ | _
  · rw [orObject]
    split
    · exact .object List.nodup_nil fun pair hpair ↦ nomatch hpair
    · exact h
  all_goals exact h

theorem distinct_object {pairs : List (String × Json5Value)} (h : Distinct (.object pairs)) :
    (pairs.map Prod.fst).Nodup ∧ ∀ pair ∈ pairs, Distinct pair.2 := by
  rcases h with - | - | - | - | - | - | ⟨hkeys, hpairs⟩
  exact ⟨hkeys, hpairs⟩

theorem Distinct.replaceValue {pairs : List (String × Json5Value)} (h : Distinct (.object pairs))
    {value : Json5Value} (hvalue : Distinct value) (segment : String) :
    Distinct (.object (replaceValue segment value pairs)) := by
  obtain ⟨hkeys, hpairs⟩ := distinct_object h
  refine .object ?_ fun pair hpair ↦ ?_
  · rwa [map_fst_replaceValue]
  · obtain ⟨old, hold, rfl⟩ := List.mem_map.mp hpair
    split
    · exact hvalue
    · exact hpairs old hold

theorem Distinct.filter {pairs : List (String × Json5Value)} (h : Distinct (.object pairs))
    (keep : String × Json5Value → Bool) : Distinct (.object (pairs.filter keep)) := by
  obtain ⟨hkeys, hpairs⟩ := distinct_object h
  exact .object (hkeys.sublist (List.filter_sublist.map _))
    fun pair hpair ↦ hpairs pair (List.mem_filter.mp hpair).1

theorem Distinct.append {pairs : List (String × Json5Value)} (h : Distinct (.object pairs))
    {segment : String} (hnew : pairs.lookup segment = none) {value : Json5Value}
    (hvalue : Distinct value) : Distinct (.object (pairs ++ [(segment, value)])) := by
  obtain ⟨hkeys, hpairs⟩ := distinct_object h
  refine .object ?_ fun pair hpair ↦ ?_
  · rw [List.map_append, List.nodup_append]
    refine ⟨hkeys, List.nodup_singleton _, ?_⟩
    intro key hkey other hother
    obtain rfl := List.mem_singleton.mp hother
    obtain ⟨pair, hpair, rfl⟩ := List.mem_map.mp hkey
    intro heq
    have hnot := List.lookup_eq_none_iff.mp hnew pair hpair
    simp [heq] at hnot
  · rcases List.mem_append.mp hpair with hpair | hpair
    · exact hpairs pair hpair
    · obtain rfl := List.mem_singleton.mp hpair
      exact hvalue

/-! ## What a patch does to the paths -/

/-- One level of `setValue` on an object: where the path ends, the property is replaced, dropped or
appended, and otherwise the child is set, if there is one or a write makes it. -/
inductive Stepped (replacement : Option Json5Value) (segment : String) (remaining : List String)
    (pairs : List (String × Json5Value)) : List (String × Json5Value) → Prop
  | replaced {old value : Json5Value} (hlast : remaining = [])
    (hold : pairs.lookup segment = some old) (hvalue : replacement = some value) :
    Stepped replacement segment remaining pairs (replaceValue segment value pairs)
  | appended {value : Json5Value} (hlast : remaining = []) (hold : pairs.lookup segment = none)
    (hvalue : replacement = some value) :
    Stepped replacement segment remaining pairs (pairs ++ [(segment, value)])
  | dropped (hlast : remaining = []) (hnone : replacement = none) :
    Stepped replacement segment remaining pairs (pairs.filter (·.1 ≠ segment))
  | within {old child : Json5Value} (hmore : remaining ≠ [])
    (hold : pairs.lookup segment = some old)
    (hchild : setValue replacement remaining old = .ok child) :
    Stepped replacement segment remaining pairs (replaceValue segment child pairs)
  | made {child : Json5Value} (hmore : remaining ≠ []) (hold : pairs.lookup segment = none)
    (hsome : replacement.isSome = true)
    (hchild : setValue replacement remaining (.object []) = .ok child) :
    Stepped replacement segment remaining pairs (pairs ++ [(segment, child)])
  | missing (hmore : remaining ≠ []) (hold : pairs.lookup segment = none)
    (hnone : replacement = none) : Stepped replacement segment remaining pairs pairs

theorem filter_ne_of_lookup_eq_none {pairs : List (String × Json5Value)} {segment : String}
    (h : pairs.lookup segment = none) : pairs.filter (·.1 ≠ segment) = pairs := by
  rw [List.filter_eq_self]
  intro pair hpair
  have hnot := List.lookup_eq_none_iff.mp h pair hpair
  refine decide_eq_true fun heq ↦ ?_
  rw [heq, bne_self_eq_false] at hnot
  nomatch hnot

/-- What `setValue` did when it succeeded. -/
theorem stepped_of_setValue {replacement : Option Json5Value} {segment : String}
    {remaining : List String} {root root' : Json5Value} (hroot : Distinct root)
    (h : setValue replacement (segment :: remaining) root = .ok root') :
    ∃ pairs pairs', orObject replacement root = .object pairs ∧ root' = .object pairs' ∧
      Stepped replacement segment remaining pairs pairs' := by
  have hdistinct : Distinct (orObject replacement root) := distinct_orObject hroot
  rw [setValue] at h
  split at h
  next pairs hpairs =>
    rw [hpairs] at hdistinct
    rw [property_eq (distinct_object hdistinct).1] at h
    dsimp only at h
    split at h
    next old value hold =>
      exact ⟨pairs, _, hpairs, (Except.ok.inj h).symm, .replaced rfl hold rfl⟩
    next old hold =>
      exact ⟨pairs, _, hpairs, (Except.ok.inj h).symm, .dropped rfl rfl⟩
    next value hold =>
      exact ⟨pairs, _, hpairs, (Except.ok.inj h).symm, .appended rfl hold rfl⟩
    next hold =>
      refine ⟨pairs, _, hpairs, (Except.ok.inj h).symm, ?_⟩
      have hdropped : Stepped none segment [] pairs _ := .dropped rfl rfl
      rwa [filter_ne_of_lookup_eq_none hold] at hdropped
    next hold =>
      obtain ⟨child, hchild, hroot'⟩ := except_map_eq_ok.mp h
      exact ⟨pairs, _, hpairs, hroot'.symm, .within (List.cons_ne_nil _ _) hold hchild⟩
    next second rest hold =>
      exact ⟨pairs, _, hpairs, (Except.ok.inj h).symm, .missing (List.cons_ne_nil _ _) hold rfl⟩
    next hold =>
      obtain ⟨child, hchild, hroot'⟩ := except_map_eq_ok.mp h
      exact ⟨pairs, _, hpairs, hroot'.symm, .made (List.cons_ne_nil _ _) hold rfl hchild⟩
  next => nomatch h

theorem distinct_empty : Distinct (.object []) :=
  .object List.nodup_nil fun _ hpair ↦ nomatch hpair

theorem distinct_of_lookup {pairs : List (String × Json5Value)} (h : Distinct (.object pairs))
    {segment : String} {child : Json5Value} (hchild : pairs.lookup segment = some child) :
    Distinct child :=
  (distinct_object h).2 _ (mem_of_lookup hchild)

/-- The properties stay distinct. -/
theorem distinct_setValue {replacement : Option Json5Value} {segments : List String}
    {root root' : Json5Value} (hroot : Distinct root)
    (hreplacement : ∀ value ∈ replacement, Distinct value)
    (h : setValue replacement segments root = .ok root') : Distinct root' := by
  induction segments generalizing root root' with
  | nil => nomatch h
  | cons segment remaining ih =>
    obtain ⟨pairs, pairs', hpairs, rfl, hstep⟩ := stepped_of_setValue hroot h
    have hdistinct : Distinct (.object pairs) := hpairs ▸ distinct_orObject hroot
    rcases hstep with ⟨-, -, hvalue⟩ | ⟨-, hold, hvalue⟩ | - | ⟨-, hold, hchild⟩ |
      ⟨-, hold, -, hchild⟩ | -
    · exact hdistinct.replaceValue (hreplacement _ hvalue) segment
    · exact hdistinct.append hold (hreplacement _ hvalue)
    · exact hdistinct.filter _
    · exact hdistinct.replaceValue (ih (distinct_of_lookup hdistinct hold) hchild) segment
    · exact hdistinct.append hold (ih distinct_empty hchild)
    · exact hdistinct

/-- The child that a step leaves at its segment. -/
def childOf (leaf : Json5Value → β) (pairs : List (String × Json5Value)) (segment : String) :
    PathTree String β :=
  fun path ↦ (pairs.lookup segment).bind fun child ↦ view leaf child path

theorem childOf_eq {pairs : List (String × Json5Value)} {segment : String} {child : Json5Value}
    (h : pairs.lookup segment = some child) : childOf leaf pairs segment = view leaf child := by
  funext path
  rw [childOf, h, Option.bind_some]

theorem lookup_append_singleton {pairs : List (String × Json5Value)} {segment : String}
    (h : pairs.lookup segment = none) (child : Json5Value) (key : String) :
    (pairs ++ [(segment, child)]).lookup key =
      if key = segment then some child else pairs.lookup key := by
  rw [List.lookup_append, lookup_cons_eq, List.lookup_nil]
  by_cases hkey : key = segment
  · rw [if_pos hkey, if_pos hkey, hkey, h, Option.none_or]
  · rw [if_neg hkey, if_neg hkey, Option.or_none]

theorem lookup_replaceValue_of_some {pairs : List (String × Json5Value)} {segment : String}
    {old : Json5Value} (h : pairs.lookup segment = some old) (child : Json5Value) (key : String) :
    (replaceValue segment child pairs).lookup key =
      if key = segment then some child else pairs.lookup key := by
  rw [lookup_replaceValue, h, Option.map_some]

/-- An object in which one child was grafted. -/
theorem view_graft {replacement : Option Json5Value} {root : Json5Value}
    {pairs pairs' : List (String × Json5Value)} (hpairs : orObject replacement root = .object pairs)
    {segment : String} {remaining : List String} {child : Json5Value}
    (hlookup : ∀ key, pairs'.lookup key = if key = segment then some child else pairs.lookup key)
    {subtree : PathTree String β}
    (hchild : view leaf child = (childOf leaf pairs segment).graft remaining subtree) :
    view leaf (.object pairs') = (view leaf root).graft (segment :: remaining) subtree := by
  funext path
  rcases path with - | ⟨first, path⟩
  · exact (PathTree.graft_cons_nil _ _ _ _).symm
  · rw [PathTree.graft_cons_cons, view_object_cons, hlookup]
    by_cases hfirst : first = segment
    · subst hfirst
      have hbelow : (fun q ↦ view leaf root (first :: q)) = childOf leaf pairs first :=
        funext fun q ↦ view_orObject hpairs first q
      rw [if_pos rfl, if_pos rfl, Option.bind_some, hchild, hbelow]
    · rw [if_neg hfirst, if_neg hfirst, view_orObject hpairs]

/-- A write grafts what it writes. -/
theorem view_setValue_some {value : Json5Value} {segments : List String}
    {root root' : Json5Value} (hroot : Distinct root)
    (h : setValue (some value) segments root = .ok root') :
    view leaf root' = (view leaf root).graft segments (view leaf value) := by
  induction segments generalizing root root' with
  | nil => nomatch h
  | cons segment remaining ih =>
    obtain ⟨pairs, pairs', hpairs, rfl, hstep⟩ := stepped_of_setValue hroot h
    have hdistinct : Distinct (.object pairs) := hpairs ▸ distinct_orObject hroot
    have hlast (tree : PathTree String β) : view leaf value = tree.graft [] (view leaf value) := by
      funext path
      exact (PathTree.graft_of_prefix List.nil_prefix).symm
    rcases hstep with ⟨rfl, hold, hvalue⟩ | ⟨rfl, hold, hvalue⟩ | ⟨-, hnone⟩ | ⟨-, hold, hchild⟩ |
      ⟨hmore, hold, -, hchild⟩ | ⟨-, -, hnone⟩
    · obtain rfl := Option.some.inj hvalue
      exact view_graft hpairs (lookup_replaceValue_of_some hold _) (hlast _)
    · obtain rfl := Option.some.inj hvalue
      exact view_graft hpairs (lookup_append_singleton hold _) (hlast _)
    · nomatch hnone
    · refine view_graft hpairs (lookup_replaceValue_of_some hold _) ?_
      rw [ih (distinct_of_lookup hdistinct hold) hchild]
      rw [childOf_eq hold]
    · refine view_graft hpairs (lookup_append_singleton hold _) ?_
      rw [ih distinct_empty hchild]
      -- below its root a new object holds as little as a missing one
      apply PathTree.graft_congr
      intro path hpath
      rcases path with - | ⟨first, path⟩
      · exact absurd List.nil_prefix hpath
      · rw [view_object_cons, childOf, hold]
        rfl
    · nomatch hnone

theorem orObject_none (root : Json5Value) : orObject none root = root := by
  rcases root <;> rfl

/-- A removal prunes. -/
theorem view_setValue_none {segments : List String} {root root' : Json5Value}
    (hroot : Distinct root) (h : setValue none segments root = .ok root') :
    view leaf root' = (view leaf root).prune segments := by
  induction segments generalizing root root' with
  | nil => nomatch h
  | cons segment remaining ih =>
    obtain ⟨pairs, pairs', hpairs, rfl, hstep⟩ := stepped_of_setValue hroot h
    rw [orObject_none] at hpairs
    subst hpairs
    funext path
    rcases path with - | ⟨first, path⟩
    · rw [PathTree.prune_cons_nil]
      rfl
    · rw [PathTree.prune_cons_cons, view_object_cons, view_object_cons]
      have hbelow : (fun q ↦ view leaf (.object pairs) (segment :: q)) =
          childOf leaf pairs segment :=
        funext fun q ↦ view_object_cons pairs segment q
      rw [hbelow]
      rcases hstep with ⟨-, -, hvalue⟩ | ⟨-, -, hvalue⟩ | ⟨rfl, -⟩ | ⟨-, hold, hchild⟩ |
        ⟨-, -, hsome, -⟩ | ⟨-, hold, -⟩
      · nomatch hvalue
      · nomatch hvalue
      · rw [lookup_filter_ne]
        by_cases hfirst : first = segment
        · rw [if_pos hfirst, if_pos hfirst, PathTree.prune_of_prefix List.nil_prefix]
          rfl
        · rw [if_neg hfirst, if_neg hfirst]
      · rw [lookup_replaceValue_of_some hold]
        by_cases hfirst : first = segment
        · have hchildOf : childOf leaf pairs segment = view leaf _ := childOf_eq hold
          rw [if_pos hfirst, if_pos hfirst, Option.bind_some,
            ih (distinct_of_lookup hroot hold) hchild, hchildOf]
        · rw [if_neg hfirst, if_neg hfirst]
      · nomatch hsome
      · by_cases hfirst : first = segment
        · have hnone : ∀ q, childOf leaf pairs segment q = none := by
            intro q
            rw [childOf, hold, Option.bind_none]
          rw [if_pos hfirst, hfirst, hold, Option.bind_none, PathTree.prune, hnone, ite_self]
        · rw [if_neg hfirst]

/-- A write goes through objects, null and missing values, a removal only through the first and the
last. -/
def Passes (replacement : Option Json5Value) (root : Json5Value) (upper : List String) : Prop :=
  (∃ pairs, find root upper = some (.object pairs)) ∨ find root upper = none ∨
    replacement.isSome = true ∧ find root upper = some .null

theorem view_of_passes {replacement : Option Json5Value} {root : Json5Value} {upper : List String}
    (h : Passes replacement root upper) :
    view leaf root upper = some .branch ∨ view leaf root upper = none ∨
      replacement.isSome = true ∧ view leaf root upper = some (.leaf (leaf .null)) := by
  rw [view]
  rcases h with ⟨pairs, hpairs⟩ | hnone | ⟨hsome, hnull⟩
  · rw [hpairs]
    exact .inl rfl
  · rw [hnone]
    exact .inr (.inl rfl)
  · rw [hnull]
    exact .inr (.inr ⟨hsome, rfl⟩)

/-- Branches pass, and so does what is missing. -/
theorem passes_of_view {replacement : Option Json5Value} {root : Json5Value} {upper : List String}
    (h : view leaf root upper = some .branch ∨ view leaf root upper = none) :
    Passes replacement root upper := by
  rw [view] at h
  rcases hvalue : find root upper with - | value
  · exact .inr (.inl hvalue)
  · rw [hvalue] at h
    obtain ⟨pairs, rfl⟩ := node_eq.mp (Option.some.inj (h.resolve_right (Option.some_ne_none _)))
    exact .inl ⟨pairs, hvalue⟩

theorem find_orObject {replacement : Option Json5Value} {root : Json5Value}
    {pairs : List (String × Json5Value)} (h : orObject replacement root = .object pairs)
    (segment : String) (path : List String) :
    find root (segment :: path) = (pairs.lookup segment).bind (find · path) := by
  rcases root with - | _ | _ | - | _ | _ | others
  · rw [orObject] at h
    split at h
    · obtain rfl := Json5Value.object.inj h
      rfl
    · nomatch h
  case object =>
    obtain rfl := Json5Value.object.inj h
    exact find_object_cons _ segment path
  all_goals nomatch h

theorem exists_orObject_iff {replacement : Option Json5Value} {root : Json5Value} :
    (∃ pairs, orObject replacement root = .object pairs) ↔ Passes replacement root [] := by
  rw [Passes, find_nil]
  rcases root with - | _ | _ | - | _ | _ | pairs
  · rcases replacement with - | value
    · simp [orObject]
    · simp [orObject]
  all_goals simp [orObject]

/-- **A path is set or removed** just when its way passes. -/
theorem exists_setValue_iff {replacement : Option Json5Value} {segments : List String}
    {root : Json5Value} (hroot : Distinct root) (hne : segments ≠ []) :
    (∃ root', setValue replacement segments root = .ok root') ↔
      ∀ upper, Below upper segments → Passes replacement root upper := by
  induction segments generalizing root with
  | nil => exact absurd rfl hne
  | cons segment remaining ih =>
    by_cases hobject : ∃ pairs, orObject replacement root = .object pairs
    · obtain ⟨pairs, hpairs⟩ := hobject
      have hhere : Passes replacement root [] := exists_orObject_iff.mp ⟨pairs, hpairs⟩
      have hdistinct : Distinct (.object pairs) := hpairs ▸ distinct_orObject hroot
      have hcons (upper : List String) : Below (segment :: upper) (segment :: remaining) ↔
          Below upper remaining := by
        rw [Below, Below, List.cons_prefix_cons]
        simp
      have hway : (∀ upper, Below upper (segment :: remaining) → Passes replacement root upper) ↔
          ∀ upper, Below upper remaining → Passes replacement root (segment :: upper) := by
        constructor
        · exact fun hall upper hupper ↦ hall _ ((hcons upper).mpr hupper)
        · intro hall upper hupper
          rcases upper with - | ⟨first, upper⟩
          · exact hhere
          · obtain ⟨rfl, -⟩ := List.cons_prefix_cons.mp hupper.1
            exact hall upper ((hcons upper).mp hupper)
      rw [hway, setValue, hpairs]
      dsimp only
      rw [property_eq (distinct_object hdistinct).1]
      dsimp only
      rcases remaining with - | ⟨second, rest⟩
      · refine iff_of_true ?_ fun upper hupper ↦ absurd hupper.length_lt (Nat.not_lt_zero _)
        rcases pairs.lookup segment with - | old <;> rcases replacement with - | value <;>
          exact ⟨_, rfl⟩
      · have hpasses (upper : List String) : Passes replacement root (segment :: upper) ↔
            (∃ inner, (pairs.lookup segment).bind (find · upper) = some (.object inner)) ∨
              (pairs.lookup segment).bind (find · upper) = none ∨
              replacement.isSome = true ∧
                (pairs.lookup segment).bind (find · upper) = some .null := by
          rw [Passes, find_orObject hpairs]
        have hmap {child : Json5Value} {rebuild : Json5Value → Json5Value} :
            (∃ root', (setValue replacement (second :: rest) child).map rebuild = .ok root') ↔
              ∃ child', setValue replacement (second :: rest) child = .ok child' := by
          rcases setValue replacement (second :: rest) child with error | child'
          · exact iff_of_false (fun ⟨_, h⟩ ↦ nomatch h) fun ⟨_, h⟩ ↦ nomatch h
          · exact iff_of_true ⟨_, rfl⟩ ⟨_, rfl⟩
        simp only [hpasses]
        rcases hold : pairs.lookup segment with - | old
        · rcases replacement with - | value
          · exact iff_of_true ⟨_, rfl⟩ fun upper _ ↦ .inr (.inl rfl)
          · -- the write goes on in a new object
            refine iff_of_true (hmap.mpr ((ih distinct_empty (List.cons_ne_nil _ _)).mpr ?_))
              fun upper _ ↦ .inr (.inl rfl)
            intro upper _
            rcases upper with - | ⟨first, upper⟩
            · exact .inl ⟨[], rfl⟩
            · exact .inr (.inl rfl)
        · dsimp only
          rw [hmap, ih (distinct_of_lookup hdistinct hold) (List.cons_ne_nil _ _)]
          rfl
    · refine iff_of_false ?_ fun hall ↦ ?_
      · rintro ⟨root', h⟩
        obtain ⟨pairs, -, hpairs, -, -⟩ := stepped_of_setValue hroot h
        exact hobject ⟨pairs, hpairs⟩
      · exact hobject (exists_orObject_iff.mpr
          (hall [] ⟨List.nil_prefix, List.cons_ne_nil _ _⟩))

end Json5

end TokenStation
