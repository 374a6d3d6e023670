import TokenStation.Library.PathTree

/-!
# Undoing edits

A run of fallible edits can be undone when each edit records, before it is made, the edits that undo
it: `exists_undo`, whose invariant and whose notion of equal documents are parameters. For trees
that are seen by paths, an edit at a path is undone by one edit at that path or above it, as long as
it changed nothing outside.
-/

namespace Library

/-! ## Runs and their inverses -/

section Runs

variable {δ ω ε : Type*} (apply : δ → ω → Except ε δ)

/-- Make the edits one after the other. -/
def applyAll : δ → List ω → Except ε δ
  | document, [] => .ok document
  | document, edit :: edits =>
    match apply document edit with
    | .error error => .error error
    | .ok document => applyAll document edits

theorem applyAll_append {document : δ} {edits others : List ω} {after : δ}
    (h : applyAll apply document edits = .ok after) :
    applyAll apply document (edits ++ others) = applyAll apply after others := by
  induction edits generalizing document with
  | nil =>
    obtain rfl := Except.ok.inj h
    rfl
  | cons edit edits ih =>
    rw [applyAll] at h
    rw [List.cons_append, applyAll]
    split at h
    · nomatch h
    · exact ih h

theorem applyAll_singleton (document : δ) (edit : ω) :
    applyAll apply document [edit] = apply document edit := by
  rw [applyAll]
  split
  next hnext => exact hnext.symm
  next hnext => exact hnext.symm

/-- The edits of a run, each with what undoes it at its time; the last one is undone first. -/
def undoing (undoOf : δ → ω → List ω) : δ → List ω → Except ε (δ × List ω)
  | document, [] => .ok (document, [])
  | document, edit :: edits =>
    match apply document edit with
    | .error error => .error error
    | .ok next =>
      match undoing undoOf next edits with
      | .error error => .error error
      | .ok (after, undo) => .ok (after, undo ++ undoOf document edit)

variable {apply} {undoOf : δ → ω → List ω}

/-- Where what undoes one edit also does so on a document that is as good as the edited one, the
whole run is undone. -/
theorem exists_undo {good : δ → Prop} {same : δ → δ → Prop} {allowed : ω → Prop}
    (hstep : ∀ {document edit next}, good document → allowed edit →
      apply document edit = .ok next → good next ∧ ∀ later, good later → same later next →
        ∃ back, applyAll apply later (undoOf document edit) = .ok back ∧ good back ∧
          same back document)
    (hrefl : ∀ document, same document document)
    {document after : δ} {edits undo : List ω} (hgood : good document)
    (hallowed : ∀ edit ∈ edits, allowed edit)
    (h : undoing apply undoOf document edits = .ok (after, undo)) :
    good after ∧ ∃ back, applyAll apply after undo = .ok back ∧ good back ∧ same back document := by
  induction edits generalizing document after undo with
  | nil =>
    obtain ⟨rfl, rfl⟩ := Prod.mk.inj (Except.ok.inj h)
    exact ⟨hgood, document, rfl, hgood, hrefl document⟩
  | cons edit edits ih =>
    rw [undoing] at h
    split at h
    · nomatch h
    next next hnext =>
      split at h
      · nomatch h
      next last undo' hundo =>
        obtain ⟨rfl, rfl⟩ := Prod.mk.inj (Except.ok.inj h)
        obtain ⟨hnextGood, hback⟩ := hstep hgood (hallowed edit List.mem_cons_self) hnext
        -- the later edits lead back to a document like the one after this edit
        obtain ⟨hafter, later, hlater, hlaterGood, hsame⟩ := ih hnextGood
          (fun other hother ↦ hallowed other (List.mem_cons_of_mem edit hother)) hundo
        obtain ⟨back, hundone, hbackGood, hbackSame⟩ := hback later hlaterGood hsame
        refine ⟨hafter, back, ?_, hbackGood, hbackSame⟩
        rw [applyAll_append apply hlater]
        exact hundone

theorem applyAll_comp {ω' : Type*} (edit : ω' → ω) (document : δ) (edits : List ω') :
    applyAll apply document (edits.map edit) =
      applyAll (fun document other ↦ apply document (edit other)) document edits := by
  induction edits generalizing document with
  | nil => rfl
  | cons first edits ih =>
    rw [List.map_cons, applyAll, applyAll]
    rcases apply document (edit first) with error | next
    · rfl
    · exact ih next

section Embedded

variable {δ' : Type*} {wrap : δ → δ'} {apply' : δ' → ω → Except ε δ'}

/-- Edits of an embedded document are the edits of the document. -/
theorem applyAll_map (happly : ∀ document edit,
    apply' (wrap document) edit = (apply document edit).map wrap) (document : δ) (edits : List ω) :
    applyAll apply' (wrap document) edits = (applyAll apply document edits).map wrap := by
  induction edits generalizing document with
  | nil => rfl
  | cons edit edits ih =>
    rw [applyAll, applyAll, happly]
    rcases apply document edit with error | next
    · rfl
    · exact ih next

theorem undoing_map {undoOf' : δ' → ω → List ω} (happly : ∀ document edit,
    apply' (wrap document) edit = (apply document edit).map wrap)
    (hundo : ∀ document, undoOf' (wrap document) = undoOf document) (document : δ)
    (edits : List ω) :
    undoing apply' undoOf' (wrap document) edits =
      (undoing apply undoOf document edits).map (Prod.map wrap id) := by
  induction edits generalizing document with
  | nil => rfl
  | cons edit edits ih =>
    rw [undoing, undoing, happly]
    rcases apply document edit with error | next
    · rfl
    · dsimp only [Except.map]
      rw [ih]
      rcases undoing apply undoOf next edits with error | ⟨after, undo⟩
      · rfl
      · rw [hundo]
        rfl

end Embedded

/-- Every edit of a run that succeeds was accepted by some document. -/
theorem accepted_of_applyAll {document after : δ} {edits : List ω}
    (h : applyAll apply document edits = .ok after) {edit : ω} (hedit : edit ∈ edits) :
    ∃ before next, apply before edit = .ok next := by
  induction edits generalizing document with
  | nil => nomatch hedit
  | cons first edits ih =>
    rw [applyAll] at h
    split at h
    · nomatch h
    next next hnext =>
      rcases List.mem_cons.mp hedit with rfl | hedit
      · exact ⟨document, next, hnext⟩
      · exact ih h hedit

end Runs

/-! ## Edits of trees -/

namespace PathTree

variable {κ α : Type*}

/-- The tree at a path. -/
def sub (tree : PathTree κ α) (path : List κ) : PathTree κ α := fun p ↦ tree (path ++ p)

/-- The trees differ at most at the path and below. -/
def AgreeOutside (path : List κ) (tree other : PathTree κ α) : Prop :=
  ∀ p, ¬ path <+: p → tree p = other p

variable {tree other subtree : PathTree κ α} {path upper : List κ}

theorem AgreeOutside.trans {third : PathTree κ α} (h : AgreeOutside path tree other)
    (h' : AgreeOutside path other third) : AgreeOutside path tree third :=
  fun p hp ↦ (h p hp).trans (h' p hp)

section Edits

variable [DecidableEq κ]

/-- A graft that makes no branch above a path changes nothing outside of it. -/
theorem agreeOutside_graft (hupper : upper <+: path)
    (habove : ∀ p, Below p upper → tree p = some .branch) :
    AgreeOutside upper (tree.graft path subtree) tree := by
  intro p hp
  have hnot : ¬ path <+: p := fun hle ↦ hp (hupper.trans hle)
  by_cases hle : p <+: path
  · rw [graft, if_neg hnot, if_pos hle]
    rcases List.prefix_or_prefix_of_prefix hle hupper with hbelow | hbelow
    · exact (habove p ⟨hbelow, fun heq ↦ hp (heq ▸ List.prefix_refl _)⟩).symm
    · exact absurd hbelow hp
  · exact graft_beside hnot hle

theorem agreeOutside_prune (hupper : upper <+: path) :
    AgreeOutside upper (tree.prune path) tree :=
  fun _ hp ↦ prune_beside fun hle ↦ hp (hupper.trans hle)

/-- What stood at a path is put back. -/
theorem graft_sub_of_agreeOutside (h : AgreeOutside path other tree)
    (habove : ∀ p, Below p path → tree p = some .branch) :
    other.graft path (tree.sub path) = tree := by
  funext p
  by_cases hle : path <+: p
  · obtain ⟨lower, rfl⟩ := hle
    rw [PathTree.graft_of_prefix (List.prefix_append path lower), List.drop_left, sub]
  · have hother : ∀ q, Below q path → other q = some .branch := by
      intro q hq
      rw [h q fun hle ↦ hq.2 (hq.1.eq_of_length_le hle.length_le).symm]
      exact habove q hq
    exact (agreeOutside_graft (List.prefix_refl path) hother p hle).trans (h p hle)

/-- Where nothing stood, what is there now is taken away. -/
theorem prune_of_agreeOutside (h : AgreeOutside path other tree)
    (hnone : ∀ p, path <+: p → tree p = none) : other.prune path = tree := by
  funext p
  by_cases hle : path <+: p
  · rw [PathTree.prune_of_prefix hle, hnone p hle]
  · rw [prune_beside hle, h p hle]

end Edits

end PathTree

end Library
