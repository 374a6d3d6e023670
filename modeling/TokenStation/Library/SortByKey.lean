import Mathlib.Data.List.Sort

/-!
# Stable sorting by a key

`sortByKey key l` lists the members of `l` with non-decreasing keys and keeps the given order
among members with equal keys. It is insertion sort, so that it evaluates by structural recursion;
the specification below determines the result uniquely, hence it is the result of any stable sort.

Stability is stated twice. `filter_sortByKey` says that each key class is left exactly as it was.
`sortByKey_pairwise_of_pairwise` says that any order the input respected survives as the tie-break
of the key order, which is the form a two-level ranking needs.
-/

namespace Library

variable {α κ : Type*} [LinearOrder κ]

/-- The stable sort of `l` by `key`, smallest key first. -/
def sortByKey (key : α → κ) (l : List α) : List α :=
  l.insertionSort fun a b ↦ key a ≤ key b

/-- Strictly smaller key, or the same key and the given relation. -/
def KeyThen (key : α → κ) (R : α → α → Prop) (a b : α) : Prop :=
  key a < key b ∨ key a = key b ∧ R a b

theorem KeyThen.le {key : α → κ} {R : α → α → Prop} {a b : α} (h : KeyThen key R a b) :
    key a ≤ key b := by
  rcases h with h | ⟨h, -⟩
  · exact h.le
  · exact h.le

theorem sortByKey_perm (key : α → κ) (l : List α) : (sortByKey key l).Perm l :=
  l.perm_insertionSort _

@[simp] theorem mem_sortByKey {key : α → κ} {l : List α} {a : α} :
    a ∈ sortByKey key l ↔ a ∈ l :=
  (sortByKey_perm key l).mem_iff

@[simp] theorem sortByKey_eq_nil {key : α → κ} {l : List α} : sortByKey key l = [] ↔ l = [] := by
  constructor
  · intro h
    have hperm := sortByKey_perm key l
    rw [h] at hperm
    exact hperm.nil_eq.symm
  · rintro rfl
    rfl

theorem sortByKey_pairwise (key : α → κ) (l : List α) :
    (sortByKey key l).Pairwise fun a b ↦ key a ≤ key b := by
  have : Std.Total fun a b : α ↦ key a ≤ key b := ⟨fun a b ↦ le_total (key a) (key b)⟩
  have : IsTrans α fun a b ↦ key a ≤ key b := ⟨fun _ _ _ hab hbc ↦ le_trans hab hbc⟩
  exact l.pairwise_insertionSort _

/-- Sorting commutes with a relabelling that keeps the keys. -/
theorem sortByKey_map {β : Type*} (key : β → κ) (f : α → β) (l : List α) :
    sortByKey key (l.map f) = (sortByKey (fun a ↦ key (f a)) l).map f :=
  (List.map_insertionSort _ _ f l fun _ _ _ _ ↦ Iff.rfl).symm

/-! ## Stability -/

private theorem filter_orderedInsert (key : α → κ) (k : κ) (a : α) (l : List α) :
    (l.orderedInsert (fun a b ↦ key a ≤ key b) a).filter (fun x ↦ key x = k)
      = (a :: l).filter fun x ↦ key x = k := by
  induction l with
  | nil => rfl
  | cons b l ih =>
    rw [List.orderedInsert_cons]
    by_cases hab : key a ≤ key b
    · rw [if_pos hab]
    · rw [if_neg hab, List.filter_cons, ih]
      by_cases hb : key b = k
      · -- `a` passed `b`, so its key is larger and `a` is not in the class of `k`
        have ha : key a ≠ k := fun ha ↦ hab (ha.trans hb.symm).le
        simp [ha, hb]
      · simp [List.filter_cons, hb]

/-- **Stability, by key class.** Sorting leaves the members of one key in their order. -/
theorem filter_sortByKey (key : α → κ) (k : κ) (l : List α) :
    (sortByKey key l).filter (fun x ↦ key x = k) = l.filter fun x ↦ key x = k := by
  induction l with
  | nil => rfl
  | cons a l ih =>
    rw [sortByKey, List.insertionSort_cons, filter_orderedInsert, List.filter_cons,
      List.filter_cons, ← sortByKey, ih]

/-- Members of one key come out in a sublist of the order they went in. -/
theorem filter_sortByKey_sublist (key : α → κ) (k : κ) (l : List α) :
    ((sortByKey key l).filter fun x ↦ key x = k).Sublist l := by
  rw [filter_sortByKey]
  exact List.filter_sublist

/-- Equal key classes have equal members. -/
private theorem mem_iff_of_filter_eq {key : α → κ} {l l' : List α}
    (h : ∀ k, l.filter (fun x ↦ key x = k) = l'.filter fun x ↦ key x = k) (a : α) :
    a ∈ l ↔ a ∈ l' := by
  have hclass := congrArg (a ∈ ·) (h (key a))
  simpa using hclass

/-- A list in the order of its keys is determined by its key classes. -/
theorem eq_of_filter_eq {key : α → κ} {l l' : List α} (hl : l.Pairwise fun a b ↦ key a ≤ key b)
    (hl' : l'.Pairwise fun a b ↦ key a ≤ key b)
    (h : ∀ k, l.filter (fun x ↦ key x = k) = l'.filter fun x ↦ key x = k) : l = l' := by
  have hmem := mem_iff_of_filter_eq h
  induction l generalizing l' with
  | nil => exact (List.eq_nil_iff_forall_not_mem.mpr fun a ha ↦ by simpa using (hmem a).mpr ha).symm
  | cons a l ih =>
    rcases l' with - | ⟨b, l'⟩
    · exact absurd ((hmem a).mp List.mem_cons_self) List.not_mem_nil
    · obtain ⟨ha, hrest⟩ := List.pairwise_cons.mp hl
      obtain ⟨hb, hrest'⟩ := List.pairwise_cons.mp hl'
      -- each head has the smallest key, so both are in one class
      have hkey : key b = key a := by
        refine le_antisymm ?_ ?_
        · rcases List.mem_cons.mp ((hmem a).mp List.mem_cons_self) with rfl | hin
          · exact le_rfl
          · exact hb a hin
        · rcases List.mem_cons.mp ((hmem b).mpr List.mem_cons_self) with rfl | hin
          · exact le_rfl
          · exact ha b hin
      have hhead := h (key a)
      simp only [List.filter_cons, hkey, decide_true, if_true] at hhead
      obtain ⟨heq, -⟩ := List.cons.inj hhead
      have htail : ∀ k, l.filter (fun x ↦ key x = k) = l'.filter fun x ↦ key x = k := by
        intro k
        have hk := h k
        rw [List.filter_cons, List.filter_cons, hkey] at hk
        split at hk
        · exact (List.cons.inj hk).2
        · exact hk
      rw [heq, ih hrest hrest' htail (mem_iff_of_filter_eq htail)]

private theorem pairwise_orderedInsert (key : α → κ) (R : α → α → Prop) (a : α) (l : List α)
    (ha : ∀ b ∈ l, R a b) (hl : l.Pairwise (KeyThen key R)) :
    (l.orderedInsert (fun a b ↦ key a ≤ key b) a).Pairwise (KeyThen key R) := by
  induction l with
  | nil => exact List.pairwise_singleton _ _
  | cons b l ih =>
    obtain ⟨hb, htail⟩ := List.pairwise_cons.mp hl
    rw [List.orderedInsert_cons]
    by_cases hab : key a ≤ key b
    · rw [if_pos hab]
      refine List.pairwise_cons.mpr ⟨fun c hc ↦ ?_, hl⟩
      have hac : key a ≤ key c := by
        rcases List.mem_cons.mp hc with rfl | hc
        · exact hab
        · exact hab.trans (hb c hc).le
      rcases hac.lt_or_eq with hlt | heq
      · exact Or.inl hlt
      · exact Or.inr ⟨heq, ha c hc⟩
    · rw [if_neg hab]
      refine List.pairwise_cons.mpr
        ⟨fun c hc ↦ ?_, ih (fun c hc ↦ ha c (List.mem_cons_of_mem b hc)) htail⟩
      rcases (List.mem_orderedInsert _).mp hc with rfl | hc
      · exact Or.inl (not_le.mp hab)
      · exact hb c hc

/-- **Stability, by relation.** An order that the input respects decides among equal keys. -/
theorem sortByKey_pairwise_of_pairwise (key : α → κ) {R : α → α → Prop} {l : List α}
    (hl : l.Pairwise R) : (sortByKey key l).Pairwise (KeyThen key R) := by
  induction l with
  | nil => exact List.Pairwise.nil
  | cons a l ih =>
    obtain ⟨ha, htail⟩ := List.pairwise_cons.mp hl
    rw [sortByKey, List.insertionSort_cons]
    refine pairwise_orderedInsert key R a _ (fun b hb ↦ ha b ?_) (ih htail)
    exact (l.perm_insertionSort _).mem_iff.mp hb

/-! ## Positions -/

/-- With distinct keys, a member stands behind those with a smaller key and in front of the
others. -/
theorem exists_sortByKey_eq {key : α → κ} {l : List α} {a : α} (hmem : a ∈ l)
    (hkey : (l.map key).Nodup) :
    ∃ before after, sortByKey key l = before ++ a :: after ∧
      before.length = (l.filter fun b ↦ key b < key a).length ∧ a ∉ after := by
  have hperm := sortByKey_perm key l
  obtain ⟨before, after, heq⟩ := List.append_of_mem (hperm.mem_iff.mpr hmem)
  have hsorted := sortByKey_pairwise key l
  have hnodup : ((before ++ a :: after).map key).Nodup := by
    rw [← heq]
    exact ((hperm.map key).nodup_iff).mpr hkey
  rw [heq, List.pairwise_append, List.pairwise_cons] at hsorted
  obtain ⟨-, ⟨hafter, -⟩, hbefore⟩ := hsorted
  rw [List.map_append, List.map_cons, List.nodup_append, List.nodup_cons] at hnodup
  obtain ⟨-, ⟨hnotAfter, -⟩, hapart⟩ := hnodup
  have hsmaller : ∀ b ∈ before, key b < key a := fun b hb ↦
    lt_of_le_of_ne (hbefore b hb a List.mem_cons_self)
      (hapart (key b) (List.mem_map_of_mem hb) (key a) List.mem_cons_self)
  refine ⟨before, after, heq, ?_, fun hin ↦ hnotAfter (List.mem_map_of_mem hin)⟩
  have hcount := (hperm.filter fun b ↦ decide (key b < key a)).length_eq
  rw [heq, List.filter_append, List.filter_cons] at hcount
  have hall : before.filter (fun b ↦ decide (key b < key a)) = before :=
    List.filter_eq_self.mpr fun b hb ↦ decide_eq_true (hsmaller b hb)
  have hnone : after.filter (fun b ↦ decide (key b < key a)) = [] :=
    List.filter_eq_nil_iff.mpr fun b hb ↦ by simpa using hafter b hb
  rw [hall, hnone] at hcount
  simpa using hcount

/-- Who is left out when only the first `n` are kept. -/
theorem mem_drop_sortByKey {key : α → κ} {l : List α} {a : α} (hmem : a ∈ l)
    (hkey : (l.map key).Nodup) (n : ℕ) :
    a ∈ (sortByKey key l).drop n ↔ n ≤ (l.filter fun b ↦ key b < key a).length := by
  obtain ⟨before, after, heq, hlength, hafter⟩ := exists_sortByKey_eq hmem hkey
  rw [heq, ← hlength, List.drop_append, List.mem_append]
  constructor
  · intro hin
    by_contra hlt
    have hpos : n - before.length = (n - before.length - 1) + 1 := by omega
    rw [List.drop_eq_nil_of_le (by omega), hpos, List.drop_succ_cons] at hin
    exact hin.elim List.not_mem_nil fun h ↦ hafter (List.mem_of_mem_drop h)
  · intro hle
    rw [Nat.sub_eq_zero_of_le hle]
    exact Or.inr List.mem_cons_self

end Library
