import Mathlib.Data.List.Basic
import Mathlib.Tactic.Common

/-!
# Survivors of a partial map, with their positions

A loop that drops some members of a list and numbers the rest gives every survivor two numbers: its
position in the original list and its rank among the survivors. `survivors f l` keeps both, so that
a statement about the operator's order and one about the code's running index can be compared.
-/

namespace Library

variable {α β : Type*}

/-- The survivors of `f` with their position (from `position` on) and their rank (from `rank`
on). -/
def survivors (f : α → Option β) : List α → ℕ → ℕ → List (β × ℕ × ℕ)
  | [], _, _ => []
  | a :: l, position, rank => match f a with
    | some b => (b, position, rank) :: survivors f l (position + 1) (rank + 1)
    | none => survivors f l (position + 1) rank

/-- Forgetting the positions leaves the numbered survivors. -/
theorem survivors_zipIdx (f : α → Option β) (l : List α) (position rank : ℕ) :
    (survivors f l position rank).map (fun s ↦ (s.1, s.2.2)) = (l.filterMap f).zipIdx rank := by
  induction l generalizing position rank with
  | nil => rfl
  | cons a l ih =>
    rcases h : f a with - | b
    · simp [survivors, h, ih]
    · simp [survivors, h, ih]

/-- A survivor is a member that survives, ranked by how many survive before it. -/
theorem mem_survivors {f : α → Option β} {l : List α} {position rank : ℕ} {s : β × ℕ × ℕ} :
    s ∈ survivors f l position rank ↔ ∃ n a, l[n]? = some a ∧ f a = some s.1 ∧
      s.2.1 = position + n ∧ s.2.2 = rank + ((l.take n).filterMap f).length := by
  obtain ⟨b, p, q⟩ := s
  induction l generalizing position rank with
  | nil => simp [survivors]
  | cons a l ih =>
    constructor
    · intro h
      rcases ha : f a with - | c
      · rw [survivors, ha, ih] at h
        obtain ⟨n, a', hget, hf, hp, hq⟩ := h
        refine ⟨n + 1, a', by simpa using hget, hf, ?_, by simpa [ha] using hq⟩
        simp only at hp ⊢
        omega
      · rw [survivors, ha, List.mem_cons, ih] at h
        rcases h with h | ⟨n, a', hget, hf, hp, hq⟩
        · obtain ⟨rfl, rfl, rfl⟩ := by simpa using h
          exact ⟨0, a, rfl, ha, rfl, by simp⟩
        · refine ⟨n + 1, a', by simpa using hget, hf, by simp only at hp ⊢; omega, ?_⟩
          simp only [List.take_succ_cons, List.filterMap_cons, ha, List.length_cons] at hq ⊢
          omega
    · rintro ⟨n, a', hget, hf, hp, hq⟩
      rcases n with - | n
      · obtain rfl : a = a' := by simpa using hget
        rw [survivors, hf]
        simp only [List.take_zero, List.filterMap_nil, List.length_nil, Nat.add_zero] at hp hq
        rw [hp, hq]
        exact List.mem_cons_self
      · rcases ha : f a with - | c
        · rw [survivors, ha, ih]
          exact ⟨n, a', by simpa using hget, hf, by simp only at hp ⊢; omega,
            by simpa [ha] using hq⟩
        · rw [survivors, ha]
          refine List.mem_cons_of_mem _ (ih.mpr ⟨n, a', by simpa using hget, hf,
            by simp only at hp ⊢; omega, ?_⟩)
          simp only [List.take_succ_cons, List.filterMap_cons, ha, List.length_cons] at hq ⊢
          omega

/-- Survivors come in the order of their positions. -/
theorem survivors_pairwise (f : α → Option β) (l : List α) (position rank : ℕ) :
    (survivors f l position rank).Pairwise fun s t ↦ s.2.1 < t.2.1 := by
  induction l generalizing position rank with
  | nil => exact List.Pairwise.nil
  | cons a l ih =>
    rw [survivors]
    split
    · refine List.pairwise_cons.mpr ⟨fun s hs ↦ ?_, ih _ _⟩
      obtain ⟨n, -, -, -, hp, -⟩ := mem_survivors.mp hs
      simp only [hp]
      omega
    · exact ih _ _

end Library
