import TokenStation.Library.Undo

/-!
# Editors of trees

An editor puts a value at a path of a document, or takes away what stands there. A write makes
branches on its way, also out of the one leaf that it takes for an empty branch; a removal does not
get past that leaf. So a list of edits of paths that lie apart is blocked exactly where a removal
comes to such a leaf before a write has made a branch of it: `exists_applyAll_iff`.
-/

namespace Library

/-- The paths of the edits do not overlap. -/
def Separate {κ ν : Type*} (edits : List (List κ × ν)) : Prop :=
  edits.Pairwise fun edit other ↦ ¬ edit.1 <+: other.1 ∧ ¬ other.1 <+: edit.1

/-- What stands above a path that lies apart is outside. -/
theorem not_prefix_of_below {κ : Type*} {path upper other : List κ} (hupper : Below upper other)
    (hapart : ¬ path <+: other) : ¬ path <+: upper :=
  fun hle ↦ hapart (hle.trans hupper.1)

/-- Documents that are trees, and an operation on them. -/
structure TreeEditor (δ ν ε κ α : Type*) [DecidableEq κ] where
  /-- Put a value at a path, or take away what stands there. -/
  put : δ → List κ × Option ν → Except ε δ
  /-- An empty branch stands there. -/
  bare : δ → List κ → Bool
  tree : δ → PathTree κ α
  treeOf : ν → PathTree κ α
  good : δ → Prop
  fine : ν → Prop
  valid : List κ → Prop
  /-- The leaf that a write takes for an empty branch. -/
  soft : α
  rooted : ∀ document, (tree document).Rooted
  bare_iff : ∀ {document path}, bare document path = true ↔ (tree document).Bare path
  exists_put_iff : ∀ {document edit}, good document → valid edit.1 →
    (∀ value ∈ edit.2, fine value) →
    ((∃ next, put document edit = .ok next) ↔ ∀ upper, Below upper edit.1 →
      tree document upper = some .branch ∨ tree document upper = none ∨
        edit.2.isSome = true ∧ tree document upper = some (.leaf soft))
  tree_put : ∀ {document edit next}, good document → (∀ value ∈ edit.2, fine value) →
    put document edit = .ok next → good next ∧ tree next = match edit.2 with
      | some value => (tree document).graft edit.1 (treeOf value)
      | none => (tree document).prune edit.1

namespace TreeEditor

variable {δ ν ε κ α : Type*} [DecidableEq κ] {editor : TreeEditor δ ν ε κ α}
  {document next : δ} {edit : List κ × Option ν} {edits : List (List κ × Option ν)}
  {base : PathTree κ α} {path : List κ}

/-- What an edit puts at its path and below. -/
def written (editor : TreeEditor δ ν ε κ α) (edit : List κ × Option ν) : PathTree κ α :=
  match edit.2 with
  | some value => editor.treeOf value
  | none => fun _ ↦ none

/-! ## One edit -/

theorem tree_put_inside (hgood : editor.good document) (hfine : ∀ value ∈ edit.2, editor.fine value)
    (h : editor.put document edit = .ok next) (lower : List κ) :
    editor.tree next (edit.1 ++ lower) = editor.written edit lower := by
  obtain ⟨-, htree⟩ := editor.tree_put hgood hfine h
  rw [htree, written]
  rcases edit.2 with - | value
  · exact PathTree.prune_of_prefix (List.prefix_append _ _)
  · dsimp only
    rw [PathTree.graft_of_prefix (List.prefix_append _ _), List.drop_left]

/-- A write makes branches of what stands above its path, and nothing else is changed. -/
theorem tree_put_outside (hgood : editor.good document)
    (hfine : ∀ value ∈ edit.2, editor.fine value) (h : editor.put document edit = .ok next)
    (hpath : ¬ edit.1 <+: path) :
    editor.tree next path = if edit.2.isSome = true ∧ Below path edit.1 then some .branch
      else editor.tree document path := by
  obtain ⟨-, htree⟩ := editor.tree_put hgood hfine h
  rw [htree]
  rcases edit.2 with - | value
  · rw [if_neg fun hboth ↦ Bool.false_ne_true hboth.1]
    exact PathTree.prune_beside hpath
  · by_cases habove : path <+: edit.1
    · have hbelow : Below path edit.1 := ⟨habove, fun heq ↦ hpath (heq ▸ List.prefix_refl _)⟩
      rw [if_pos ⟨rfl, hbelow⟩]
      exact PathTree.graft_above hbelow
    · rw [if_neg fun hboth ↦ habove hboth.2.1]
      exact PathTree.graft_beside hpath habove

/-! ## A list of edits -/

/-- No removal comes to a soft leaf of which no earlier write made a branch. -/
def Unblocked (editor : TreeEditor δ ν ε κ α) (tree : PathTree κ α)
    (edits : List (List κ × Option ν)) : Prop :=
  ∀ before path after, edits = before ++ (path, none) :: after →
    ∀ upper, Below upper path → tree upper = some (.leaf editor.soft) →
      ∃ edit ∈ before, edit.2.isSome = true ∧ Below upper edit.1

/-- Removals are blocked by soft leaves alone. -/
theorem unblocked_iff_of_removals {tree : PathTree κ α} (h : ∀ edit ∈ edits, edit.2 = none) :
    editor.Unblocked tree edits ↔ ∀ edit ∈ edits, ∀ upper, Below upper edit.1 →
      tree upper ≠ some (.leaf editor.soft) := by
  constructor
  · rintro hfree ⟨path, value⟩ hmem upper hupper hsoft
    obtain rfl : value = none := h _ hmem
    obtain ⟨before, after, hedits⟩ := List.append_of_mem hmem
    obtain ⟨other, hother, hsome, -⟩ := hfree before path after hedits upper hupper hsoft
    rw [h other (hedits ▸ List.mem_append_left _ hother)] at hsome
    nomatch hsome
  · intro hfree before path after hedits upper hupper hsoft
    have hmem : (path, none) ∈ edits := by
      rw [hedits]
      exact List.mem_append_right _ List.mem_cons_self
    exact absurd hsoft (hfree _ hmem upper hupper)

/-- Only branches and soft leaves stand above the paths of the edits. -/
def Passable (editor : TreeEditor δ ν ε κ α) (tree : PathTree κ α)
    (edits : List (List κ × Option ν)) : Prop :=
  ∀ edit ∈ edits, ∀ upper, Below upper edit.1 →
    tree upper = some .branch ∨ tree upper = none ∨ tree upper = some (.leaf editor.soft)

theorem Passable.of_put (hgood : editor.good document)
    (hfine : ∀ value ∈ edit.2, editor.fine value) (h : editor.put document edit = .ok next)
    (hseparate : Separate (edit :: edits))
    (hpass : editor.Passable (editor.tree document) edits) :
    editor.Passable (editor.tree next) edits := by
  intro other hother upper hupper
  have hapart := (List.pairwise_cons.mp hseparate).1 other hother
  rw [tree_put_outside hgood hfine h (not_prefix_of_below hupper hapart.1)]
  split
  · exact .inl rfl
  · exact hpass other hother upper hupper

/-- Edits that were made have found nothing else above their paths. -/
theorem passable_of_applyAll (hgood : editor.good document) (hseparate : Separate edits)
    (hvalid : ∀ edit ∈ edits, editor.valid edit.1 ∧ ∀ value ∈ edit.2, editor.fine value)
    (h : applyAll editor.put document edits = .ok next) :
    editor.Passable (editor.tree document) edits := by
  induction edits generalizing document with
  | nil => rintro _ ⟨⟩
  | cons edit edits ih =>
    obtain ⟨hhere, hrest⟩ := List.forall_mem_cons.mp hvalid
    obtain ⟨hapart, hseparate'⟩ := List.pairwise_cons.mp hseparate
    rw [applyAll] at h
    split at h
    · cases h
    next middle hmiddle =>
      have hpassed (upper : List κ) (hupper : Below upper edit.1) :=
        (editor.exists_put_iff hgood hhere.1 hhere.2).mp ⟨middle, hmiddle⟩ upper hupper
      have hpass := ih (editor.tree_put hgood hhere.2 hmiddle).1 hseparate' hrest h
      refine List.forall_mem_cons.mpr ⟨fun upper hupper ↦ ?_, fun other hother upper hupper ↦ ?_⟩
      · exact (hpassed upper hupper).imp_right fun h ↦ h.imp_right And.right
      · have hafter := hpass other hother upper hupper
        rw [tree_put_outside hgood hhere.2 hmiddle
          (not_prefix_of_below hupper (hapart other hother).1)] at hafter
        split at hafter
        next hmade => exact (hpassed upper hmade.2).imp_right fun h ↦ h.imp_right And.right
        next => exact hafter

/-- The edits that are left are blocked after an edit if they were before it and it did not make the
branch that they need. -/
theorem unblocked_cons_iff (hgood : editor.good document)
    (hfine : ∀ value ∈ edit.2, editor.fine value) (h : editor.put document edit = .ok next)
    (hseparate : Separate (edit :: edits))
    (haccepted : edit.2 = none → ∀ upper, Below upper edit.1 →
      editor.tree document upper ≠ some (.leaf editor.soft)) :
    editor.Unblocked (editor.tree document) (edit :: edits) ↔
      editor.Unblocked (editor.tree next) edits := by
  have houtside {other : List κ × Option ν} (hother : other ∈ edits) {upper : List κ}
      (hupper : Below upper other.1) :=
    tree_put_outside hgood hfine h
      (not_prefix_of_below hupper ((List.pairwise_cons.mp hseparate).1 other hother).1)
  constructor
  · intro hfree before path after hedits upper hupper hsoft
    have hmem : (path, none) ∈ edits := by
      rw [hedits]
      exact List.mem_append_right _ List.mem_cons_self
    rw [houtside hmem hupper] at hsoft
    split at hsoft
    next => nomatch Option.some.inj hsoft
    next hnot =>
      obtain ⟨other, hother, hsome, hbelow⟩ := hfree (edit :: before) path after
        (by rw [hedits, List.cons_append]) upper hupper hsoft
      rcases List.mem_cons.mp hother with rfl | hother
      · exact absurd ⟨hsome, hbelow⟩ hnot
      · exact ⟨other, hother, hsome, hbelow⟩
  · intro hfree before path after hedits upper hupper hsoft
    rcases before with - | ⟨first, before⟩
    · obtain ⟨rfl, -⟩ := List.cons.inj hedits
      exact absurd hsoft (haccepted rfl upper hupper)
    · obtain ⟨rfl, hrest⟩ := List.cons.inj hedits
      by_cases hmade : edit.2.isSome = true ∧ Below upper edit.1
      · exact ⟨edit, List.mem_cons_self, hmade⟩
      · have hmem : (path, none) ∈ edits := by
          rw [hrest]
          exact List.mem_append_right _ List.mem_cons_self
        obtain ⟨other, hother, hboth⟩ := hfree before path after hrest upper hupper
          (by rw [houtside hmem hupper, if_neg hmade, hsoft])
        exact ⟨other, List.mem_cons_of_mem _ hother, hboth⟩

/-- **The edits are accepted just when they are not blocked.** -/
theorem exists_applyAll_iff (hgood : editor.good document) (hseparate : Separate edits)
    (hvalid : ∀ edit ∈ edits, editor.valid edit.1 ∧ ∀ value ∈ edit.2, editor.fine value)
    (hpass : editor.Passable (editor.tree document) edits) :
    (∃ next, applyAll editor.put document edits = .ok next) ↔
      editor.Unblocked (editor.tree document) edits := by
  induction edits generalizing document with
  | nil =>
    refine iff_of_true ⟨document, rfl⟩ fun before path after hedits ↦ ?_
    exact absurd hedits.symm (List.append_ne_nil_of_right_ne_nil _ (List.cons_ne_nil _ _))
  | cons edit edits ih =>
    obtain ⟨hhere, hrest⟩ := List.forall_mem_cons.mp hvalid
    obtain ⟨hpassHere, hpassRest⟩ := List.forall_mem_cons.mp hpass
    have hput := editor.exists_put_iff hgood hhere.1 hhere.2
    rw [applyAll]
    rcases happly : editor.put document edit with error | next
    · refine iff_of_false (by rintro ⟨_, ⟨⟩⟩) fun hfree ↦ ?_
      -- a removal that is refused has come to a soft leaf
      have hrefused : ¬∃ next, editor.put document edit = .ok next := by
        rw [happly]
        rintro ⟨_, ⟨⟩⟩
      refine hrefused (hput.mpr fun upper hupper ↦ ?_)
      rcases hpassHere upper hupper with hbranch | hnone | hsoft
      · exact .inl hbranch
      · exact .inr (.inl hnone)
      · refine .inr (.inr ⟨?_, hsoft⟩)
        obtain ⟨path, value⟩ := edit
        rcases value with - | value
        · obtain ⟨_, hmem, -⟩ := hfree [] path edits rfl upper hupper hsoft
          cases hmem
        · rfl
    · have haccepted : edit.2 = none → ∀ upper, Below upper edit.1 →
          editor.tree document upper ≠ some (.leaf editor.soft) := by
        intro hnone upper hupper hsoft
        rcases hput.mp ⟨next, happly⟩ upper hupper with hbranch | hmissing | ⟨hsome, -⟩
        · rw [hsoft] at hbranch
          cases Option.some.inj hbranch
        · rw [hsoft] at hmissing
          cases hmissing
        · rw [hnone] at hsome
          cases hsome
      obtain ⟨hgoodNext, -⟩ := editor.tree_put hgood hhere.2 happly
      rw [unblocked_cons_iff hgood hhere.2 happly hseparate haccepted]
      exact ih hgoodNext (List.pairwise_cons.mp hseparate).2 hrest
        (Passable.of_put hgood hhere.2 happly hseparate hpassRest)

/-- What a list of edits leaves: each path as it was written, and branches above the writes. -/
theorem tree_applyAll (hgood : editor.good document) (hseparate : Separate edits)
    (hfine : ∀ edit ∈ edits, ∀ value ∈ edit.2, editor.fine value)
    (h : applyAll editor.put document edits = .ok next) :
    editor.good next ∧
      (∀ edit ∈ edits, ∀ lower,
        editor.tree next (edit.1 ++ lower) = editor.written edit lower) ∧
      ∀ path, (∀ edit ∈ edits, ¬ edit.1 <+: path) →
        editor.tree next path = editor.tree document path ∨
          (∃ edit ∈ edits, edit.2.isSome = true ∧ Below path edit.1) ∧
            editor.tree next path = some .branch := by
  induction edits generalizing document with
  | nil =>
    obtain rfl := Except.ok.inj h
    exact ⟨hgood, (by rintro _ ⟨⟩), fun _ _ ↦ .inl rfl⟩
  | cons edit edits ih =>
    obtain ⟨hhere, hrest⟩ := List.forall_mem_cons.mp hfine
    obtain ⟨hapart, hseparate'⟩ := List.pairwise_cons.mp hseparate
    rw [applyAll] at h
    split at h
    · cases h
    next middle hmiddle =>
      obtain ⟨hgoodMiddle, -⟩ := editor.tree_put hgood hhere hmiddle
      obtain ⟨hgoodNext, hinside, houtside⟩ := ih hgoodMiddle hseparate' hrest h
      refine ⟨hgoodNext, fun other hother lower ↦ ?_, fun path hpath ↦ ?_⟩
      · rcases List.mem_cons.mp hother with rfl | hother
        · -- the later edits lie apart, and what is below this path is not above them
          rcases houtside (other.1 ++ lower) fun later hlater hle ↦ by
              rcases List.prefix_or_prefix_of_prefix hle (List.prefix_append other.1 lower)
                with hle | hle
              · exact (hapart later hlater).2 hle
              · exact (hapart later hlater).1 hle
            with hsame | ⟨⟨later, hlater, -, hbelow⟩, -⟩
          · rw [hsame, tree_put_inside hgood hhere hmiddle]
          · exact absurd ((List.prefix_append _ _).trans hbelow.1) (hapart later hlater).1
        · exact hinside other hother lower
      · obtain ⟨hnot, hnotRest⟩ := List.forall_mem_cons.mp hpath
        rcases houtside path hnotRest with hsame | ⟨⟨later, hlater, hmade⟩, hbranch⟩
        · rw [hsame, tree_put_outside hgood hhere hmiddle hnot]
          split
          next hmade => exact .inr ⟨⟨edit, List.mem_cons_self, hmade⟩, rfl⟩
          next => exact .inl rfl
        · exact .inr ⟨⟨later, List.mem_cons_of_mem _ hlater, hmade⟩, hbranch⟩

theorem good_applyAll (hgood : editor.good document)
    (hfine : ∀ edit ∈ edits, ∀ value ∈ edit.2, editor.fine value)
    (h : applyAll editor.put document edits = .ok next) : editor.good next := by
  induction edits generalizing document with
  | nil => rwa [← Except.ok.inj h]
  | cons edit edits ih =>
    obtain ⟨hhere, hrest⟩ := List.forall_mem_cons.mp hfine
    rw [applyAll] at h
    split at h
    · cases h
    next middle hmiddle => exact ih (editor.tree_put hgood hhere hmiddle).1 hrest h

/-! ## Giving empty branches back -/

/-- Make each edit whose path is an empty branch by then. -/
def applyBare (editor : TreeEditor δ ν ε κ α) : δ → List (List κ × Option ν) → Except ε δ
  | document, [] => .ok document
  | document, edit :: edits =>
    if editor.bare document edit.1 then
      match editor.put document edit with
      | .error error => .error error
      | .ok next => applyBare editor next edits
    else applyBare editor document edits

theorem applyBare_cons_of_bare (h : editor.bare document edit.1 = true) :
    editor.applyBare document (edit :: edits) =
      match editor.put document edit with
      | .error error => .error error
      | .ok next => editor.applyBare next edits := by
  rw [applyBare, if_pos h]

theorem applyBare_cons_of_not_bare (h : ¬editor.bare document edit.1 = true) :
    editor.applyBare document (edit :: edits) = editor.applyBare document edits := by
  rw [applyBare, if_neg h]

theorem good_applyBare (hgood : editor.good document)
    (hfine : ∀ edit ∈ edits, ∀ value ∈ edit.2, editor.fine value)
    (h : editor.applyBare document edits = .ok next) : editor.good next := by
  induction edits generalizing document with
  | nil => rwa [← Except.ok.inj h]
  | cons edit edits ih =>
    obtain ⟨hhere, hrest⟩ := List.forall_mem_cons.mp hfine
    rw [applyBare] at h
    split at h
    · split at h
      · nomatch h
      next middle hmiddle => exact ih (editor.tree_put hgood hhere hmiddle).1 hrest h
    · exact ih hgood hrest h

/-- The edit puts at its path what the base has there, and nothing below. -/
def GivesBack (editor : TreeEditor δ ν ε κ α) (base : PathTree κ α) (edit : List κ × Option ν) :
    Prop :=
  ∀ lower, editor.written edit lower = if lower = [] then base edit.1 else none

/-- Empty branches are given back, and nothing else moves. -/
theorem exists_applyBare (hgood : editor.good document)
    (hvalid : ∀ edit ∈ edits, editor.valid edit.1 ∧ ∀ value ∈ edit.2, editor.fine value)
    (hbase : ∀ edit ∈ edits, editor.GivesBack base edit) :
    ∃ next, editor.applyBare document edits = .ok next ∧ editor.good next ∧
      ∀ path, editor.tree next path = editor.tree document path ∨
        (∃ edit ∈ edits, edit.1 = path) ∧ editor.tree next path = base path := by
  induction edits generalizing document with
  | nil => exact ⟨document, rfl, hgood, fun _ ↦ .inl rfl⟩
  | cons edit edits ih =>
    obtain ⟨hhere, hrest⟩ := List.forall_mem_cons.mp hvalid
    obtain ⟨hback, hbackRest⟩ := List.forall_mem_cons.mp hbase
    rw [applyBare]
    by_cases hbare : editor.bare document edit.1 = true
    · rw [if_pos hbare]
      obtain ⟨hbranch, hbelow⟩ := editor.bare_iff.mp hbare
      have hupper (upper : List κ) (h : Below upper edit.1) :
          editor.tree document upper = some .branch := by
        refine editor.rooted document upper edit.1 h ?_
        rw [hbranch]
        exact Option.some_ne_none _
      obtain ⟨middle, hmiddle⟩ := (editor.exists_put_iff hgood hhere.1 hhere.2).mpr
        fun upper h ↦ .inl (hupper upper h)
      obtain ⟨hgoodMiddle, -⟩ := editor.tree_put hgood hhere.2 hmiddle
      obtain ⟨next, hnext, hgoodNext, htree⟩ := ih hgoodMiddle hrest hbackRest
      have hstep (path : List κ) : editor.tree middle path =
          if path = edit.1 then base path else editor.tree document path := by
        by_cases hle : edit.1 <+: path
        · obtain ⟨lower, rfl⟩ := hle
          rw [tree_put_inside hgood hhere.2 hmiddle, hback]
          by_cases hnil : lower = []
          · rw [hnil, List.append_nil, if_pos rfl, if_pos rfl]
          · have hne : edit.1 ++ lower ≠ edit.1 := fun heq ↦ hnil (List.append_right_eq_self.mp heq)
            rw [if_neg hnil, if_neg hne, hbelow _ ⟨List.prefix_append _ _, hne⟩]
        · have hne : path ≠ edit.1 := fun heq ↦ hle (heq ▸ List.prefix_refl _)
          rw [tree_put_outside hgood hhere.2 hmiddle hle, if_neg hne]
          split
          next hmade => exact (hupper path hmade.2).symm
          next => rfl
      refine ⟨next, ?_, hgoodNext, fun path ↦ ?_⟩
      · rw [hmiddle]
        exact hnext
      · rcases htree path with hsame | ⟨⟨later, hlater, heq⟩, hbase⟩
        · rw [hsame, hstep]
          split
          next heq => exact .inr ⟨⟨edit, List.mem_cons_self, heq.symm⟩, rfl⟩
          next => exact .inl rfl
        · exact .inr ⟨⟨later, List.mem_cons_of_mem _ hlater, heq⟩, hbase⟩
    · rw [if_neg hbare]
      obtain ⟨next, hnext, hgoodNext, htree⟩ := ih hgood hrest hbackRest
      refine ⟨next, hnext, hgoodNext, fun path ↦ (htree path).imp_right fun hmoved ↦ ?_⟩
      obtain ⟨⟨later, hlater, heq⟩, hbase⟩ := hmoved
      exact ⟨⟨later, List.mem_cons_of_mem _ hlater, heq⟩, hbase⟩

theorem applyBare_append (document : δ) (edits others : List (List κ × Option ν)) :
    editor.applyBare document (edits ++ others) =
      match editor.applyBare document edits with
      | .error error => .error error
      | .ok next => editor.applyBare next others := by
  induction edits generalizing document with
  | nil => rfl
  | cons edit edits ih =>
    rw [List.cons_append, applyBare, applyBare]
    split
    · rcases editor.put document edit with error | next
      · rfl
      · exact ih next
    · exact ih document

/-! ## Putting paths back -/

/-- Make the edits, and then those of the others whose path is an empty branch by then. -/
def project (editor : TreeEditor δ ν ε κ α) (document : δ)
    (edits restores : List (List κ × Option ν)) : Except ε δ :=
  match applyAll editor.put document edits with
  | .error error => .error error
  | .ok next => editor.applyBare next restores

/-- The paths of the edits are as they were written, and outside of them only branches above writes
and empty branches that were given back have changed. -/
structure Projected (editor : TreeEditor δ ν ε κ α) (base tree next : PathTree κ α)
    (edits restores : List (List κ × Option ν)) : Prop where
  inside : ∀ edit ∈ edits, ∀ lower, next (edit.1 ++ lower) = editor.written edit lower
  outside : ∀ path, (∀ edit ∈ edits, ¬ edit.1 <+: path) →
    next path = tree path ∨
      (∃ edit ∈ edits, edit.2.isSome = true ∧ Below path edit.1) ∧ next path = some .branch ∨
      (∃ edit ∈ restores, edit.1 = path) ∧ next path = base path

variable {restores : List (List κ × Option ν)}

/-- What a projection leaves. -/
theorem projected_of_project (hgood : editor.good document) (hseparate : Separate edits)
    (hfine : ∀ edit ∈ edits, ∀ value ∈ edit.2, editor.fine value)
    (hrestores : ∀ edit ∈ restores, editor.valid edit.1 ∧ ∀ value ∈ edit.2, editor.fine value)
    (hbase : ∀ edit ∈ restores, editor.GivesBack base edit)
    (houtside : ∀ edit ∈ restores, ∀ other ∈ edits, ¬ other.1 <+: edit.1)
    (h : editor.project document edits restores = .ok next) :
    editor.Projected base (editor.tree document) (editor.tree next) edits restores := by
  rw [project] at h
  split at h
  · nomatch h
  next middle hrun =>
    obtain ⟨hgoodMiddle, hinside, hmiddle⟩ := tree_applyAll hgood hseparate hfine hrun
    obtain ⟨last, hlast, -, htree⟩ := exists_applyBare hgoodMiddle hrestores hbase
    obtain rfl := Except.ok.inj (hlast.symm.trans h)
    refine ⟨fun edit hmem lower ↦ ?_, fun path hpath ↦ ?_⟩
    · rcases htree (edit.1 ++ lower) with hsame | ⟨⟨restore, hrestore, heq⟩, -⟩
      · rw [hsame, hinside edit hmem]
      · exact absurd (heq ▸ List.prefix_append edit.1 lower) (houtside restore hrestore edit hmem)
    · rcases htree path with hsame | hback
      · rw [hsame]
        exact (hmiddle path hpath).imp_right .inl
      · exact .inr (.inr hback)

/-- **A projection goes through just when its edits are not blocked.** -/
theorem exists_project_iff (hgood : editor.good document) (hseparate : Separate edits)
    (hvalid : ∀ edit ∈ edits, editor.valid edit.1 ∧ ∀ value ∈ edit.2, editor.fine value)
    (hpass : editor.Passable (editor.tree document) edits)
    (hrestores : ∀ edit ∈ restores, editor.valid edit.1 ∧ ∀ value ∈ edit.2, editor.fine value)
    (hbase : ∀ edit ∈ restores, editor.GivesBack base edit) :
    (∃ next, editor.project document edits restores = .ok next) ↔
      editor.Unblocked (editor.tree document) edits := by
  rw [← exists_applyAll_iff hgood hseparate hvalid hpass, project]
  rcases hrun : applyAll editor.put document edits with error | middle
  · exact iff_of_false (fun ⟨_, h⟩ ↦ nomatch h) fun ⟨_, h⟩ ↦ nomatch h
  · have hgoodMiddle := good_applyAll hgood (fun edit hmem ↦ (hvalid edit hmem).2) hrun
    obtain ⟨next, hnext, -, -⟩ := exists_applyBare hgoodMiddle hrestores hbase
    exact iff_of_true ⟨next, hnext⟩ ⟨middle, rfl⟩

end TreeEditor

end Library
