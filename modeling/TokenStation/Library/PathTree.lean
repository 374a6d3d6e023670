import Mathlib.Data.List.Infix

/-!
# Trees seen by paths

A document of nested maps is known by what stands at each path: nothing, a branch, or a leaf.
`graft` writes a subtree and makes the branches above it, `prune` takes one away, and `collapse`
goes over a list of paths and gives every bare branch that it finds back to what another tree has
there. Deepest first, it reaches all the branches that hold nothing but each other.
-/

namespace Library

variable {κ α : Type*}

/-- What stands at a path. -/
inductive Node (α : Type*) where
  | branch
  | leaf (value : α)

/-- The leaf is read by a function. -/
def Node.map {β : Type*} (f : α → β) : Node α → Node β
  | .branch => .branch
  | .leaf value => .leaf (f value)

/-- A tree, by its paths. -/
abbrev PathTree (κ α : Type*) := List κ → Option (Node α)

/-- The second path lies strictly below the first. -/
def Below (path lower : List κ) : Prop := path <+: lower ∧ lower ≠ path

instance [DecidableEq κ] (path lower : List κ) : Decidable (Below path lower) :=
  inferInstanceAs (Decidable (_ ∧ _))

theorem Below.trans_prefix {path middle lower : List κ} (h : Below path middle)
    (hlower : middle <+: lower) : Below path lower := by
  refine ⟨h.1.trans hlower, ?_⟩
  rintro rfl
  exact h.2 (h.1.eq_of_length_le hlower.length_le).symm

theorem Below.trans {path middle lower : List κ} (h : Below path middle) (h' : Below middle lower) :
    Below path lower :=
  h.trans_prefix h'.1

theorem Below.length_lt {path lower : List κ} (h : Below path lower) :
    path.length < lower.length := by
  by_contra hle
  exact h.2 (h.1.eq_of_length_le (by omega)).symm

/-- Two paths that lead to a third are comparable. -/
theorem prefix_or_below {path other lower : List κ} (h : path <+: lower) (h' : other <+: lower) :
    path <+: other ∨ Below other path := by
  rcases List.prefix_or_prefix_of_prefix h h' with hle | hle
  · exact Or.inl hle
  · by_cases heq : path = other
    · exact Or.inl (heq ▸ List.prefix_refl _)
    · exact Or.inr ⟨hle, heq⟩

namespace PathTree

/-- Nothing stands below what is not a branch. -/
def Rooted (tree : PathTree κ α) : Prop :=
  ∀ path lower, Below path lower → tree lower ≠ none → tree path = some .branch

/-- A branch with nothing below it. -/
def Bare (tree : PathTree κ α) (path : List κ) : Prop :=
  tree path = some .branch ∧ ∀ lower, Below path lower → tree lower = none

section Edits

variable [DecidableEq κ]

/-- Put `subtree` at `path`, and branches above it. -/
def graft (tree : PathTree κ α) (path : List κ) (subtree : PathTree κ α) : PathTree κ α :=
  fun p ↦ if path <+: p then subtree (p.drop path.length)
    else if p <+: path then some .branch else tree p

/-- Take away what stands at `path` and below. -/
def prune (tree : PathTree κ α) (path : List κ) : PathTree κ α :=
  fun p ↦ if path <+: p then none else tree p

theorem graft_of_prefix {tree subtree : PathTree κ α} {path p : List κ} (h : path <+: p) :
    tree.graft path subtree p = subtree (p.drop path.length) :=
  if_pos h

theorem graft_above {tree subtree : PathTree κ α} {path p : List κ} (h : Below p path) :
    tree.graft path subtree p = some .branch := by
  have hnot : ¬ path <+: p := fun hle ↦ h.2 (hle.eq_of_length_le h.1.length_le)
  rw [graft, if_neg hnot, if_pos h.1]

theorem graft_beside {tree subtree : PathTree κ α} {path p : List κ} (h : ¬ path <+: p)
    (h' : ¬ p <+: path) : tree.graft path subtree p = tree p := by
  rw [graft, if_neg h, if_neg h']

/-- A graft does not depend on what stood above and at its path. -/
theorem graft_congr {tree other subtree : PathTree κ α} {path : List κ}
    (h : ∀ p, ¬ p <+: path → tree p = other p) :
    tree.graft path subtree = other.graft path subtree := by
  funext p
  rw [graft, graft]
  by_cases hle : p <+: path
  · rw [if_pos hle, if_pos hle]
  · rw [if_neg hle, if_neg hle, h p hle]

theorem graft_cons_nil (tree subtree : PathTree κ α) (k : κ) (path : List κ) :
    tree.graft (k :: path) subtree [] = some .branch :=
  graft_above ⟨List.nil_prefix, List.cons_ne_nil _ _⟩

/-- A graft goes down one step into the child it is about, and leaves the others. -/
theorem graft_cons_cons (tree subtree : PathTree κ α) (k k' : κ) (path p : List κ) :
    tree.graft (k :: path) subtree (k' :: p) =
      if k' = k then graft (fun q ↦ tree (k :: q)) path subtree p else tree (k' :: p) := by
  by_cases hk : k' = k
  · subst hk
    rw [if_pos rfl, graft, graft]
    simp only [List.cons_prefix_cons, true_and, List.length_cons, List.drop_succ_cons]
  · rw [if_neg hk]
    refine graft_beside ?_ ?_
    · rw [List.cons_prefix_cons]
      exact fun h ↦ hk h.1.symm
    · rw [List.cons_prefix_cons]
      exact fun h ↦ hk h.1

theorem prune_of_prefix {tree : PathTree κ α} {path p : List κ} (h : path <+: p) :
    tree.prune path p = none :=
  if_pos h

theorem prune_beside {tree : PathTree κ α} {path p : List κ} (h : ¬ path <+: p) :
    tree.prune path p = tree p :=
  if_neg h

theorem prune_cons_nil (tree : PathTree κ α) (k : κ) (path : List κ) :
    tree.prune (k :: path) [] = tree [] :=
  prune_beside fun h ↦ absurd (List.prefix_nil.mp h) (List.cons_ne_nil _ _)

theorem prune_cons_cons (tree : PathTree κ α) (k k' : κ) (path p : List κ) :
    tree.prune (k :: path) (k' :: p) =
      if k' = k then prune (fun q ↦ tree (k :: q)) path p else tree (k' :: p) := by
  by_cases hk : k' = k
  · subst hk
    rw [if_pos rfl, prune, prune]
    simp only [List.cons_prefix_cons, true_and]
  · rw [if_neg hk]
    refine prune_beside ?_
    rw [List.cons_prefix_cons]
    exact fun h ↦ hk h.1.symm

end Edits

/-! ## Collapsing bare branches -/

section Collapse

open Classical in
/-- Give one path back to `base`. -/
noncomputable def giveBack (base : PathTree κ α) (path : List κ) (tree : PathTree κ α) :
    PathTree κ α :=
  fun p ↦ if p = path then base path else tree p

open Classical in
/-- Give the paths back to `base` in turn, each if it is a bare branch by then. -/
noncomputable def collapse (base : PathTree κ α) : List (List κ) → PathTree κ α → PathTree κ α
  | [], tree => tree
  | path :: paths, tree =>
    collapse base paths (if Bare tree path then giveBack base path tree else tree)

/-- A branch that holds nothing but branches of `paths`. -/
def Emptied (tree : PathTree κ α) (paths : List (List κ)) (path : List κ) : Prop :=
  tree path = some .branch ∧
    ∀ lower, Below path lower → tree lower ≠ none → lower ∈ paths ∧ tree lower = some .branch

/-- Deepest first. -/
def DeepestFirst (paths : List (List κ)) : Prop :=
  paths.Pairwise fun p q ↦ q.length ≤ p.length

theorem giveBack_self (base tree : PathTree κ α) (path : List κ) :
    giveBack base path tree path = base path :=
  if_pos rfl

theorem giveBack_of_ne (base tree : PathTree κ α) {path p : List κ} (h : p ≠ path) :
    giveBack base path tree p = tree p :=
  if_neg h

theorem not_below_of_deepestFirst {path lower : List κ} {paths : List (List κ)}
    (h : DeepestFirst (path :: paths)) (hlower : lower ∈ path :: paths) : ¬ Below path lower := by
  intro hbelow
  have hlt := hbelow.length_lt
  rcases List.mem_cons.mp hlower with rfl | hmem
  · exact absurd hlt (lt_irrefl _)
  · have hle := (List.pairwise_cons.mp h).1 lower hmem
    omega

/-- A path with no other path of the list below it. -/
theorem emptied_iff_bare {tree : PathTree κ α} {path : List κ} {paths : List (List κ)}
    (h : ∀ lower ∈ paths, ¬ Below path lower) : Emptied tree paths path ↔ Bare tree path := by
  apply and_congr_right
  intro _
  apply forall_congr'
  intro lower
  apply imp_congr_right
  intro hbelow
  constructor
  · intro hall
    by_contra hne
    exact h lower (hall hne).1 hbelow
  · intro hnone hne
    exact absurd hnone hne

/-- The branch just given back was allowed below `p` before, and is gone now. -/
theorem emptied_giveBack_iff {base tree : PathTree κ α} {path p : List κ} {paths : List (List κ)}
    (hbare : Bare tree path) (hbase : Below p path → base path = none) (hp : p ≠ path) :
    Emptied (giveBack base path tree) paths p ↔ Emptied tree (path :: paths) p := by
  rw [Emptied, Emptied, giveBack_of_ne base tree hp]
  apply and_congr_right
  intro _
  apply forall_congr'
  intro lower
  apply imp_congr_right
  intro hbelow
  by_cases hlower : lower = path
  · subst hlower
    rw [giveBack_self, hbase hbelow]
    exact iff_of_true (fun hne ↦ absurd rfl hne) fun _ ↦ ⟨List.mem_cons_self, hbare.1⟩
  · rw [giveBack_of_ne base tree hlower, List.mem_cons, or_iff_right hlower]

/-- A path that is not bare does not help to empty another. -/
theorem emptied_cons_iff {tree : PathTree κ α} {path p : List κ} {paths : List (List κ)}
    (h : DeepestFirst (path :: paths)) (hbare : ¬ Bare tree path) :
    Emptied tree (path :: paths) p ↔ Emptied tree paths p := by
  constructor
  · rintro ⟨hbranch, hall⟩
    refine ⟨hbranch, fun lower hbelow hne ↦ ?_⟩
    obtain ⟨hmem, hlower⟩ := hall lower hbelow hne
    refine ⟨(List.mem_cons.mp hmem).resolve_left ?_, hlower⟩
    rintro rfl
    -- all that is below it is in the list, and the list has nothing deeper
    refine hbare ⟨hlower, fun lowest hlowest ↦ ?_⟩
    by_contra hsome
    exact not_below_of_deepestFirst h (hall lowest (hbelow.trans hlowest) hsome).1 hlowest
  · rintro ⟨hbranch, hall⟩
    refine ⟨hbranch, fun lower hbelow hne ↦ ?_⟩
    obtain ⟨hmem, hlower⟩ := hall lower hbelow hne
    exact ⟨List.mem_cons_of_mem _ hmem, hlower⟩

open Classical in
/-- Every branch that holds nothing but branches of the list is given back, and nothing else. -/
theorem collapse_eq {base tree : PathTree κ α} {paths : List (List κ)} (h : DeepestFirst paths)
    (hbase : ∀ path ∈ paths, ∀ lower, Below path lower → base lower = none) (p : List κ) :
    collapse base paths tree p =
      if p ∈ paths ∧ Emptied tree paths p then base p else tree p := by
  induction paths generalizing tree with
  | nil => rw [collapse, if_neg fun hp ↦ List.not_mem_nil hp.1]
  | cons path paths ih =>
    have hhead : Emptied tree (path :: paths) path ↔ Bare tree path :=
      emptied_iff_bare fun lower hlower ↦ not_below_of_deepestFirst h hlower
    rw [collapse, ih (List.pairwise_cons.mp h).2 fun q hq ↦ hbase q (List.mem_cons_of_mem _ hq)]
    by_cases hbare : Bare tree path
    · rw [if_pos hbare]
      by_cases hp : p = path
      · subst hp
        rw [giveBack_self, ite_self, if_pos ⟨List.mem_cons_self, hhead.mpr hbare⟩]
      · simp only [giveBack_of_ne base tree hp, List.mem_cons, hp, false_or]
        by_cases hmem : p ∈ paths
        · rw [emptied_giveBack_iff hbare (hbase p (List.mem_cons_of_mem _ hmem) path) hp]
        · rw [if_neg fun h ↦ hmem h.1, if_neg fun h ↦ hmem h.1]
    · rw [if_neg hbare]
      by_cases hp : p = path
      · subst hp
        have hempty : ¬ Emptied tree (p :: paths) p := fun he ↦ hbare (hhead.mp he)
        rw [if_neg fun he ↦ hempty ((emptied_cons_iff h hbare).mpr he.2),
          if_neg fun he ↦ hempty he.2]
      · simp only [List.mem_cons, hp, false_or, emptied_cons_iff h hbare]

/-- Nothing bare is left of the list. -/
theorem not_bare_collapse {base tree : PathTree κ α} {paths : List (List κ)} {path : List κ}
    (h : DeepestFirst paths)
    (hbase : ∀ path ∈ paths, ∀ lower, Below path lower → base lower = none)
    (hleaf : ∀ path ∈ paths, base path ≠ some .branch) (hpath : path ∈ paths) :
    ¬ Bare (collapse base paths tree) path := by
  rintro ⟨hbranch, hall⟩
  rw [collapse_eq h hbase] at hbranch
  by_cases hempty : Emptied tree paths path
  · rw [if_pos ⟨hpath, hempty⟩] at hbranch
    exact hleaf path hpath hbranch
  · rw [if_neg fun he ↦ hempty he.2] at hbranch
    refine hempty ⟨hbranch, fun lower hbelow hne ↦ ?_⟩
    have hgone := hall lower hbelow
    rw [collapse_eq h hbase] at hgone
    by_contra hnot
    rw [if_neg fun he ↦ hnot ⟨he.1, he.2.1⟩] at hgone
    exact hne hgone

end Collapse

end PathTree

end Library
