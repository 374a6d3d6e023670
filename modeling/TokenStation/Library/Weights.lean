import Mathlib.Algebra.BigOperators.Group.List.Basic
import Mathlib.Algebra.GroupWithZero.Nat
import Mathlib.Algebra.Order.BigOperators.Group.List
import Mathlib.Data.List.AList

/-!
# The weight of a finite map

A bounded store keeps a running total of what its entries weigh. The weight of a map is the sum over
its entries, and changes with an entry by what the entry weighs.
-/

namespace Library

variable {κ : Type*} [DecidableEq κ] {β : κ → Type*} (weigh : Sigma β → ℕ)

/-- The sum of the weights of the entries. -/
def weight (map : AList β) : ℕ := (map.entries.map weigh).sum

theorem entries_erase_of_lookup {map : AList β} {key : κ} {b : β key}
    (h : map.lookup key = some b) : ∃ before after, map.entries = before ++ ⟨key, b⟩ :: after ∧
      (map.erase key).entries = before ++ after := by
  have hmem : key ∈ map.keys := AList.mem_keys.mp (AList.lookup_isSome.mp (h ▸ rfl))
  obtain ⟨other, before, after, -, hentries, herase⟩ := List.exists_of_kerase hmem
  have hother : (⟨key, other⟩ : Sigma β) ∈ map.entries := by
    rw [hentries]
    exact List.mem_append_right _ List.mem_cons_self
  have hlookup : map.lookup key = some other := AList.mem_lookup_iff.mpr hother
  obtain rfl := Option.some.inj (h.symm.trans hlookup)
  exact ⟨before, after, hentries, herase⟩

theorem weight_erase {map : AList β} {key : κ} {b : β key} (h : map.lookup key = some b) :
    weight weigh map = weigh ⟨key, b⟩ + weight weigh (map.erase key) := by
  obtain ⟨before, after, hentries, herase⟩ := entries_erase_of_lookup h
  rw [weight, weight, hentries, herase, List.map_append, List.map_append, List.map_cons,
    List.sum_append, List.sum_append, List.sum_cons]
  omega

theorem weight_insert {map : AList β} {key : κ} {b : β key} (h : map.lookup key = none) :
    weight weigh (map.insert key b) = weigh ⟨key, b⟩ + weight weigh map := by
  rw [weight, weight, AList.entries_insert_of_notMem (AList.lookup_eq_none.mp h), List.map_cons,
    List.sum_cons]

theorem le_weight {map : AList β} {key : κ} {b : β key} (h : map.lookup key = some b) :
    weigh ⟨key, b⟩ ≤ weight weigh map := by
  rw [weight_erase weigh h]
  exact Nat.le_add_right _ _

theorem length_erase_of_lookup {map : AList β} {key : κ} {b : β key}
    (h : map.lookup key = some b) :
    map.entries.length = (map.erase key).entries.length + 1 := by
  obtain ⟨before, after, hentries, herase⟩ := entries_erase_of_lookup h
  rw [hentries, herase, List.length_append, List.length_append, List.length_cons]
  omega

theorem length_insert_of_lookup {map : AList β} {key : κ} {b : β key}
    (h : map.lookup key = none) :
    (map.insert key b).entries.length = map.entries.length + 1 := by
  rw [AList.entries_insert_of_notMem (AList.lookup_eq_none.mp h), List.length_cons]

end Library
