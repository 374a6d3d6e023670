import Mathlib.Data.List.Basic
import Mathlib.Tactic.Common

/-!
# De-duplication through a bounded window

A receiver that must act once for each key, but remembers only the last `n` keys it acted on, acts
on the first occurrence of every key as long as no key returns after `n` newer keys. `firsts` is
what an unbounded memory would act on, `keepLast` is the bounded memory, and
`mem_keepLast_firsts` says that the bounded memory still holds every key that can return.
-/

namespace Library

variable {α κ : Type*}

section Firsts

variable [DecidableEq κ] (key : α → κ)

/-- The first members with each key that is not `seen` yet, in their order. -/
def firsts : List κ → List α → List α
  | _, [] => []
  | seen, a :: l => if key a ∈ seen then firsts seen l else a :: firsts (key a :: seen) l

theorem firsts_congr {seen seen' : List κ} (h : ∀ k, k ∈ seen ↔ k ∈ seen') (l : List α) :
    firsts key seen l = firsts key seen' l := by
  induction l generalizing seen seen' with
  | nil => rfl
  | cons a l ih =>
    have hcons : ∀ k, k ∈ key a :: seen ↔ k ∈ key a :: seen' := fun k ↦ by
      rw [List.mem_cons, List.mem_cons, h]
    rw [firsts, firsts, ih h, ih hcons]
    simp only [h]

theorem firsts_sublist (seen : List κ) (l : List α) : (firsts key seen l).Sublist l := by
  induction l generalizing seen with
  | nil => exact List.Sublist.refl []
  | cons a l ih =>
    rw [firsts]
    split
    · exact (ih seen).cons a
    · exact (ih _).cons_cons a

theorem firsts_append (seen : List κ) (l m : List α) :
    firsts key seen (l ++ m) = firsts key seen l ++ firsts key (l.map key ++ seen) m := by
  induction l generalizing seen with
  | nil => rfl
  | cons a l ih =>
    rw [List.cons_append, firsts, firsts, List.map_cons]
    by_cases hseen : key a ∈ seen
    · rw [if_pos hseen, if_pos hseen, ih]
      congr 1
      refine firsts_congr key (fun k ↦ ?_) m
      rw [List.cons_append, List.mem_cons, List.mem_append]
      exact ⟨Or.inr, fun h ↦ h.elim (fun hk ↦ Or.inr (hk ▸ hseen)) id⟩
    · rw [if_neg hseen, if_neg hseen, ih, List.cons_append]
      congr 2
      refine firsts_congr key (fun k ↦ ?_) m
      simp only [List.mem_append, List.mem_cons, List.cons_append]
      tauto

/-- One more member counts exactly when its key is new. -/
theorem firsts_concat (l : List α) (a : α) :
    firsts key [] (l ++ [a]) =
      if key a ∈ l.map key then firsts key [] l else firsts key [] l ++ [a] := by
  rw [firsts_append, firsts, List.append_nil]
  split
  · rw [firsts, List.append_nil]
  · rfl

end Firsts

/-- The last `n` members. -/
def keepLast (n : ℕ) (l : List κ) : List κ := l.drop (l.length - n)

/-- Remembering one more key in a trimmed memory trims the whole history. -/
theorem keepLast_concat (n : ℕ) (l : List κ) (k : κ) :
    keepLast n (keepLast n l ++ [k]) = keepLast n (l ++ [k]) := by
  simp only [keepLast, List.length_append, List.length_drop, List.length_singleton]
  rcases Nat.lt_or_ge l.length n with hlt | hge
  · have hzero : l.length - n = 0 := by omega
    rw [hzero, List.drop_zero, Nat.sub_zero]
  · rcases Nat.eq_zero_or_pos n with rfl | hpos
    · rw [List.drop_of_length_le (by simp), List.drop_of_length_le (by simp)]
    · have hdrop : l.length + 1 - n = l.length - n + 1 := by omega
      have hone : l.length - (l.length - n) + 1 - n = 1 := by omega
      rw [hone, hdrop, List.drop_append_of_le_length (by rw [List.length_drop]; omega),
        List.drop_drop, List.drop_append_of_le_length (by omega), Nat.add_comm]

theorem mem_keepLast {n : ℕ} {before after : List κ} {k : κ} (h : after.length < n) :
    k ∈ keepLast n (before ++ k :: after) := by
  rw [keepLast, List.drop_append, List.mem_append]
  right
  have hle : (before ++ k :: after).length - n - before.length = 0 := by
    rw [List.length_append, List.length_cons]
    omega
  rw [hle, List.drop_zero]
  exact List.mem_cons_self

variable [DecidableEq κ] (key : α → κ)

/-- Between two members with one key, fewer than `n` new keys appear. -/
def WithinWindow (n : ℕ) (l : List α) : Prop :=
  ∀ before a middle b after, l = before ++ a :: (middle ++ b :: after) → key a = key b →
    (firsts key ((before ++ [a]).map key) middle).length < n

theorem WithinWindow.of_append {n : ℕ} {l m : List α} (h : WithinWindow key n (l ++ m)) :
    WithinWindow key n l := by
  rintro before a middle b after rfl hkey
  exact h before a middle b (after ++ m) (by simp) hkey

/-- A list no longer than the memory never forgets. -/
theorem WithinWindow.of_length_le {n : ℕ} {l : List α} (h : l.length ≤ n) :
    WithinWindow key n l := by
  rintro before a middle b after rfl -
  have hlength := (firsts_sublist key ((before ++ [a]).map key) middle).length_le
  simp only [List.length_append, List.length_cons] at h
  omega

/-- **The bounded memory is enough.** A key that appeared is still remembered when it returns. -/
theorem mem_keepLast_firsts {n : ℕ} {l : List α} {b : α} (h : WithinWindow key n (l ++ [b]))
    (hmem : key b ∈ l.map key) : key b ∈ keepLast n ((firsts key [] l).map key) := by
  obtain ⟨a, ha, hkey⟩ := List.mem_map.mp hmem
  -- the first member with the key is the one the memory holds
  have hsome : (l.find? fun c ↦ decide (key c = key b)).isSome = true :=
    List.find?_isSome.mpr ⟨a, ha, by simpa using hkey⟩
  obtain ⟨first, hfind⟩ := Option.isSome_iff_exists.mp hsome
  obtain ⟨hfirst, before, middle, rfl, hbefore⟩ := List.find?_eq_some_iff_append.mp hfind
  have hfirst : key first = key b := of_decide_eq_true hfirst
  have hnew : key first ∉ before.map key ++ [] := by
    rw [List.append_nil, List.mem_map]
    rintro ⟨c, hc, hc'⟩
    have := hbefore c hc
    simp [hc', hfirst] at this
  have hlt := h before first middle b [] (by simp) hfirst
  rw [firsts_append, firsts, if_neg hnew, List.map_append, List.map_cons, ← hfirst]
  refine mem_keepLast ?_
  rw [List.length_map]
  convert hlt using 2
  refine firsts_congr key (fun k ↦ ?_) middle
  simp [or_comm]

end Library
