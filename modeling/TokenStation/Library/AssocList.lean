import Mathlib.Data.List.Nodup
import Mathlib.Data.List.Pairwise

/-!
# Lists of pairs

What `lookup` finds after a pair is dropped, replaced where it stands or appended. Where the keys
are distinct, the pairs of one key are what `lookup` finds.
-/

namespace Library

variable {κ β : Type*} [DecidableEq κ]

theorem lookup_cons_eq (pair : κ × β) (l : List (κ × β)) (key : κ) :
    (pair :: l).lookup key = if key = pair.1 then some pair.2 else l.lookup key := by
  rw [List.lookup_cons]
  by_cases h : key = pair.1
  · rw [if_pos h, h, beq_self_eq_true]
  · rw [if_neg h, beq_eq_false_iff_ne.mpr h]

theorem mem_of_lookup {l : List (κ × β)} {key : κ} {value : β} (h : l.lookup key = some value) :
    (key, value) ∈ l := by
  obtain ⟨before, after, rfl, -⟩ := List.lookup_eq_some_iff.mp h
  exact List.mem_append_right _ List.mem_cons_self

/-- Drop the pairs of a key. -/
theorem lookup_filter_ne (l : List (κ × β)) (key other : κ) :
    (l.filter (·.1 ≠ key)).lookup other = if other = key then none else l.lookup other := by
  induction l with
  | nil => exact (ite_self _).symm
  | cons pair l ih =>
    by_cases hkey : pair.1 = key
    · rw [List.filter_cons_of_neg (by simpa using hkey), ih, lookup_cons_eq, hkey]
      by_cases h : other = key
      · rw [if_pos h, if_pos h]
      · rw [if_neg h, if_neg h, if_neg h]
    · rw [List.filter_cons_of_pos (by simpa using hkey), lookup_cons_eq, ih, lookup_cons_eq]
      by_cases h : other = key
      · rw [if_pos h, if_pos h, h, if_neg (Ne.symm hkey)]
      · rw [if_neg h, if_neg h]

/-- Replace the value of a key, where the key is there. -/
def replaceValue (key : κ) (value : β) (l : List (κ × β)) : List (κ × β) :=
  l.map fun pair ↦ if pair.1 = key then (pair.1, value) else pair

theorem map_fst_replaceValue (key : κ) (value : β) (l : List (κ × β)) :
    (replaceValue key value l).map Prod.fst = l.map Prod.fst := by
  rw [replaceValue, List.map_map]
  refine List.map_congr_left fun pair _ ↦ ?_
  rw [Function.comp_apply]
  split <;> rfl

theorem lookup_replaceValue (key : κ) (value : β) (l : List (κ × β)) (other : κ) :
    (replaceValue key value l).lookup other =
      if other = key then (l.lookup key).map fun _ ↦ value else l.lookup other := by
  induction l with
  | nil => exact (ite_self _).symm
  | cons pair l ih =>
    rw [replaceValue, List.map_cons, lookup_cons_eq, ← replaceValue, ih, lookup_cons_eq,
      lookup_cons_eq]
    by_cases hkey : pair.1 = key
    · rw [if_pos hkey, hkey]
      by_cases h : other = key
      · rw [if_pos h, if_pos h, if_pos rfl]
        rfl
      · rw [if_neg h, if_neg h, if_neg h, if_neg h]
    · rw [if_neg hkey, if_neg (Ne.symm hkey)]
      by_cases h : other = key
      · rw [if_pos h, h, if_neg (Ne.symm hkey), if_pos rfl]
      · rw [if_neg h, if_neg h]

/-- The pairs of a key, where no key stands twice. -/
theorem filter_eq_of_lookup {l : List (κ × β)} (h : (l.map Prod.fst).Nodup) (key : κ) :
    l.filter (·.1 = key) = ((l.lookup key).map fun value ↦ (key, value)).toList := by
  induction l with
  | nil => rfl
  | cons pair l ih =>
    rw [List.map_cons, List.nodup_cons] at h
    rw [lookup_cons_eq]
    by_cases hkey : pair.1 = key
    · have hrest : l.filter (·.1 = key) = [] := by
        rw [List.filter_eq_nil_iff]
        intro other hother heq
        apply h.1
        rw [hkey, ← of_decide_eq_true heq]
        exact List.mem_map_of_mem hother
      rw [List.filter_cons_of_pos (by simpa using hkey), hrest, if_pos hkey.symm, ← hkey]
      rfl
    · rw [List.filter_cons_of_neg (by simpa using hkey), ih h.2, if_neg (Ne.symm hkey)]

end Library
