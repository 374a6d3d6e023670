import TokenStation.Library.SortByKey
import Mathlib.Data.List.Nodup

/-!
# Lists whose members have distinct keys

A list of records that are told apart by a key is a finite map from keys to records. Under
`DistinctKeys` a lookup by key is a membership, an erasure by key leaves every other record, and a
record with a new key can be put anywhere.
-/

namespace Library

variable {α κ : Type*} {key : α → κ} {l : List α} {a b : α} {k : κ}

/-- No key twice. -/
def DistinctKeys (key : α → κ) (l : List α) : Prop := (l.map key).Nodup

namespace DistinctKeys

theorem eq_of_key (h : DistinctKeys key l) (ha : a ∈ l) (hb : b ∈ l) (hkey : key a = key b) :
    a = b :=
  List.inj_on_of_nodup_map h ha hb hkey

theorem filter (h : DistinctKeys key l) (p : α → Bool) : DistinctKeys key (l.filter p) :=
  h.sublist (List.filter_sublist.map _)

theorem of_perm {l' : List α} (h : DistinctKeys key l) (hperm : l'.Perm l) :
    DistinctKeys key l' :=
  (hperm.map key).nodup_iff.mpr h

/-- A record with a new key. -/
theorem append_singleton (h : DistinctKeys key l) (hnew : ∀ b ∈ l, key b ≠ key a) :
    DistinctKeys key (l ++ [a]) := by
  rw [DistinctKeys, List.map_append, List.map_singleton, List.nodup_append]
  refine ⟨h, List.nodup_singleton _, fun k hk other hother ↦ ?_⟩
  obtain ⟨b, hb, rfl⟩ := List.mem_map.mp hk
  rw [List.mem_singleton.mp hother]
  exact hnew b hb

variable [DecidableEq κ]

/-- A lookup finds the member with the key. -/
theorem find?_eq_some_iff (h : DistinctKeys key l) :
    l.find? (fun b ↦ key b = k) = some a ↔ a ∈ l ∧ key a = k := by
  constructor
  · intro hfind
    exact ⟨List.mem_of_find?_eq_some hfind, by simpa using List.find?_some hfind⟩
  · rintro ⟨ha, hk⟩
    rcases hfind : l.find? (fun b ↦ key b = k) with _ | b
    · exact absurd (decide_eq_true hk) (List.find?_eq_none.mp hfind a ha)
    · have hb : key b = k := by simpa using List.find?_some hfind
      rw [h.eq_of_key (List.mem_of_find?_eq_some hfind) ha (hb.trans hk.symm)]

omit [DecidableEq κ] in
theorem cons_iff : DistinctKeys key (a :: l) ↔ (∀ b ∈ l, key b ≠ key a) ∧ DistinctKeys key l := by
  rw [DistinctKeys, List.map_cons, List.nodup_cons, List.mem_map]
  simp only [not_exists, not_and, DistinctKeys]

/-- Erasing the first member with a key erases the only one. -/
theorem eraseP_eq_filter (h : DistinctKeys key l) :
    l.eraseP (fun b ↦ key b = k) = l.filter fun b ↦ key b ≠ k := by
  induction l with
  | nil => rfl
  | cons a l ih =>
    obtain ⟨hne, hl⟩ := cons_iff.mp h
    by_cases ha : key a = k
    · have hrest : l.filter (fun b ↦ key b ≠ k) = l :=
        List.filter_eq_self.mpr fun b hb ↦ decide_eq_true (ha ▸ hne b hb)
      simp only [List.eraseP_cons, List.filter_cons, ha, decide_true, ne_eq, not_true_eq_false,
        decide_false, Bool.false_eq_true, if_false]
      exact hrest.symm
    · simp only [List.eraseP_cons, List.filter_cons, ha, decide_false, ne_eq, not_false_eq_true,
        decide_true, if_true]
      exact congrArg (a :: ·) (ih hl)

theorem mem_eraseP_iff (h : DistinctKeys key l) :
    a ∈ l.eraseP (fun b ↦ key b = k) ↔ a ∈ l ∧ key a ≠ k := by
  rw [h.eraseP_eq_filter, List.mem_filter, decide_eq_true_iff]

theorem eraseP (h : DistinctKeys key l) : DistinctKeys key (l.eraseP fun b ↦ key b = k) := by
  rw [h.eraseP_eq_filter]
  exact h.filter _

end DistinctKeys

theorem find?_eq_none_iff [DecidableEq κ] :
    l.find? (fun b ↦ key b = k) = none ↔ ∀ b ∈ l, key b ≠ k := by
  rw [List.find?_eq_none]
  simp only [decide_eq_true_iff, ne_eq]

end Library
