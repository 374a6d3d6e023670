import Mathlib.Algebra.BigOperators.Group.Finset.Basic
import Mathlib.Algebra.Order.BigOperators.Group.Finset

/-!
# The last value that was reported

A value that is reported again and again is folded to the last report of it. There are two notions
of a report: `lastSome` takes whatever was said last, `lastNonzero` whatever was said last that was
not zero. If every report has several counts, then to keep the last sum of them is not the same as
to sum the last of each: `lastNonzero_sum_iff` says when it is.
-/

namespace Library

/-! ## The last of a list -/

section Last

variable {α M : Type*}

/-- The last value that was given. -/
def lastSome (l : List (Option α)) : Option α := l.foldl (fun slot later ↦ later.or slot) none

theorem lastSome_concat (l : List (Option α)) (a : Option α) :
    lastSome (l ++ [a]) = a.or (lastSome l) := by
  rw [lastSome, List.foldl_append]
  rfl

theorem lastSome_eq_none_iff {l : List (Option α)} : lastSome l = none ↔ ∀ a ∈ l, a = none := by
  induction l using List.reverseRecOn with
  | nil => exact iff_of_true rfl fun _ hmem ↦ nomatch hmem
  | append_singleton l a ih =>
    rw [lastSome_concat, Option.or_eq_none_iff, ih]
    simp [or_imp, forall_and, and_comm]

theorem mem_of_lastSome {l : List (Option α)} {a : α} (h : lastSome l = some a) :
    some a ∈ l := by
  induction l using List.reverseRecOn with
  | nil => nomatch h
  | append_singleton l b ih =>
    rw [lastSome_concat] at h
    obtain _ | b := b
    · exact List.mem_append_left _ (ih h)
    · rw [← h]
      exact List.mem_append_right _ List.mem_cons_self

variable [Zero M] [DecidableEq M]

/-- The last value that is not zero, or zero. -/
def lastNonzero (l : List M) : M := l.foldl (fun slot later ↦ if later ≠ 0 then later else slot) 0

theorem lastNonzero_concat (l : List M) (a : M) :
    lastNonzero (l ++ [a]) = if a ≠ 0 then a else lastNonzero l := by
  rw [lastNonzero, List.foldl_append]
  rfl

theorem lastNonzero_eq_zero_iff {l : List M} : lastNonzero l = 0 ↔ ∀ a ∈ l, a = 0 := by
  induction l using List.reverseRecOn with
  | nil => exact iff_of_true rfl fun _ hmem ↦ nomatch hmem
  | append_singleton l a ih =>
    rw [lastNonzero_concat]
    by_cases ha : a = 0
    · rw [if_neg (not_not.mpr ha), ih]
      simp [ha, or_imp]
    · rw [if_pos ha]
      exact iff_of_false ha fun h ↦ ha (h a (by simp))

/-- A map that only takes zero to zero may be applied before or after. -/
theorem lastNonzero_map {N : Type*} [Zero N] [DecidableEq N] {f : M → N}
    (hf : ∀ a, f a = 0 ↔ a = 0) (l : List M) : lastNonzero (l.map f) = f (lastNonzero l) := by
  induction l using List.reverseRecOn with
  | nil => exact ((hf 0).mpr rfl).symm
  | append_singleton l a ih =>
    rw [List.map_append, List.map_singleton, lastNonzero_concat, lastNonzero_concat, ih]
    simp only [ne_eq, hf]
    split <;> rfl

end Last

/-! ## Sums of counts -/

section Sums

variable {α ι M : Type*} [AddCommMonoid M]

/-- The last member with a count has every count that a member before it has. -/
def LastCovers (kinds : Finset ι) (count : ι → α → M) (l : List α) : Prop :=
  ∀ before a after, l = before ++ a :: after → (∃ i ∈ kinds, count i a ≠ 0) →
    (∀ b ∈ after, ∀ i ∈ kinds, count i b = 0) →
      ∀ i ∈ kinds, count i a = 0 → ∀ b ∈ before, count i b = 0

theorem lastCovers_concat_of_zero {kinds : Finset ι} {count : ι → α → M} {l : List α} {a : α}
    (ha : ∀ i ∈ kinds, count i a = 0) :
    LastCovers kinds count (l ++ [a]) ↔ LastCovers kinds count l := by
  constructor
  · intro h before b after heq hb hafter
    refine h before b (after ++ [a]) (by rw [heq, List.append_assoc, List.cons_append]) hb ?_
    intro c hc
    rcases List.mem_append.mp hc with hc | hc
    · exact hafter c hc
    · rw [List.mem_singleton.mp hc]
      exact ha
  · intro h before b after heq hb hafter
    induction after using List.reverseRecOn with
    | nil =>
      obtain ⟨-, rfl⟩ := List.append_inj' heq rfl |>.imp_right List.singleton_inj.mp
      obtain ⟨i, hi, hne⟩ := hb
      exact absurd (ha i hi) hne
    | append_singleton after c _ =>
      rw [← List.cons_append, ← List.append_assoc] at heq
      have hinit := (List.append_inj' heq rfl).1
      exact h before b after hinit hb fun d hd ↦ hafter d (List.mem_append_left _ hd)

theorem lastCovers_concat_of_ne {kinds : Finset ι} {count : ι → α → M} {l : List α} {a : α}
    (ha : ∃ i ∈ kinds, count i a ≠ 0) :
    LastCovers kinds count (l ++ [a]) ↔
      ∀ i ∈ kinds, count i a = 0 → ∀ b ∈ l, count i b = 0 := by
  constructor
  · exact fun h ↦ h l a [] rfl ha fun _ hmem ↦ nomatch hmem
  · intro h before b after heq hb hafter
    induction after using List.reverseRecOn with
    | nil =>
      obtain ⟨rfl, hsingle⟩ := List.append_inj' heq rfl
      obtain rfl := List.singleton_inj.mp hsingle
      exact h
    | append_singleton after c _ =>
      -- a member after the last one with a count has none
      rw [← List.cons_append, ← List.append_assoc] at heq
      obtain rfl := List.singleton_inj.mp (List.append_inj' heq rfl).2
      obtain ⟨i, hi, hne⟩ := ha
      exact absurd (hafter a (List.mem_append_right _ List.mem_cons_self) i hi) hne

variable [PartialOrder M] [IsOrderedCancelAddMonoid M] [CanonicallyOrderedAdd M] [DecidableEq M]

/-- The last sum is the sum of the last counts if and only if the last member with a count leaves
none out. -/
theorem lastNonzero_sum_iff (kinds : Finset ι) (count : ι → α → M) (l : List α) :
    lastNonzero (l.map fun a ↦ ∑ i ∈ kinds, count i a) =
        ∑ i ∈ kinds, lastNonzero (l.map (count i)) ↔ LastCovers kinds count l := by
  induction l using List.reverseRecOn with
  | nil =>
    refine iff_of_true (Finset.sum_eq_zero fun _ _ ↦ rfl).symm fun before a after heq ↦ ?_
    exact absurd heq (by simp)
  | append_singleton l a ih =>
    simp only [List.map_append, List.map_singleton, lastNonzero_concat]
    by_cases ha : ∀ i ∈ kinds, count i a = 0
    · rw [if_neg (not_not.mpr (Finset.sum_eq_zero ha)), lastCovers_concat_of_zero ha, ← ih]
      have hsame : ∀ i ∈ kinds, (if count i a ≠ 0 then count i a else
          lastNonzero (l.map (count i))) = lastNonzero (l.map (count i)) :=
        fun i hi ↦ if_neg (not_not.mpr (ha i hi))
      rw [Finset.sum_congr rfl hsame]
    · push Not at ha
      obtain ⟨i, hi, hne⟩ := ha
      have htotal : ∑ i ∈ kinds, count i a ≠ 0 := fun hzero ↦
        hne (Finset.sum_eq_zero_iff.mp hzero i hi)
      rw [if_pos htotal, lastCovers_concat_of_ne ⟨i, hi, hne⟩]
      have hle : ∀ j ∈ kinds, count j a ≤
          if count j a ≠ 0 then count j a else lastNonzero (l.map (count j)) := by
        intro j _
        split
        · exact le_rfl
        next hzero => rw [not_not.mp hzero]; exact zero_le
      rw [Finset.sum_eq_sum_iff_of_le hle]
      refine forall₂_congr fun j _ ↦ ?_
      by_cases hzero : count j a = 0
      · rw [if_neg (not_not.mpr hzero), hzero, eq_comm, lastNonzero_eq_zero_iff]
        simp
      · rw [if_pos hzero]
        exact iff_of_true rfl fun h ↦ absurd h hzero

end Sums

end Library
