import Mathlib.Data.List.AList
import Mathlib.Data.List.Nodup
import Mathlib.Data.List.Perm.Subperm

/-!
# Tables of tables

A table with a row for each owner, each row a table of its own, is a map from pairs. `cell` reads
it as that map, and each operation on rows is stated by what it does to the cells. A row can be
pruned of the values that a test refuses.
-/

namespace Library

variable {α β γ : Type*} [DecidableEq α] [DecidableEq β]

/-- Keep the entries of a table that pass a test, as `HashMap::retain` does. -/
def retain (table : AList fun _ : β ↦ γ) (p : γ → Bool) : AList fun _ : β ↦ γ :=
  ⟨table.entries.filter fun entry ↦ p entry.2, table.nodupKeys.sublist List.filter_sublist⟩

theorem lookup_retain (table : AList fun _ : β ↦ γ) (p : γ → Bool) (b : β) :
    (retain table p).lookup b = (table.lookup b).filter p := by
  refine Option.ext fun v ↦ ?_
  have hretain : v ∈ (retain table p).lookup b ↔ ⟨b, v⟩ ∈ (retain table p).entries :=
    AList.mem_lookup_iff
  have htable : v ∈ table.lookup b ↔ ⟨b, v⟩ ∈ table.entries := AList.mem_lookup_iff
  rw [Option.mem_def] at hretain htable
  rw [hretain, Option.filter_eq_some_iff, htable, retain, List.mem_filter]

/-- The values that pass a test, counted, are as many as the keys that have one. -/
theorem countP_entries_eq {table : AList fun _ : β ↦ γ} {p : γ → Bool} {keys : List β}
    (hkeys : keys.Nodup) (hmem : ∀ b, b ∈ keys ↔ ∃ v, table.lookup b = some v ∧ p v = true) :
    table.entries.countP (fun entry ↦ p entry.2) = keys.length := by
  have hnodup : ((retain table p).entries.map Sigma.fst).Nodup := (retain table p).nodupKeys
  have hperm : ((retain table p).entries.map Sigma.fst).Perm keys := by
    rw [List.perm_ext_iff_of_nodup hnodup hkeys]
    intro b
    rw [hmem, List.mem_map]
    constructor
    · rintro ⟨⟨_, v⟩, hentry, rfl⟩
      obtain ⟨hentry, hp⟩ := List.mem_filter.mp hentry
      exact ⟨v, AList.mem_lookup_iff.mpr hentry, hp⟩
    · rintro ⟨v, hlookup, hp⟩
      exact ⟨⟨b, v⟩, List.mem_filter.mpr ⟨AList.mem_lookup_iff.mp hlookup, hp⟩, rfl⟩
  rw [← hperm.length_eq, List.length_map, retain, List.countP_eq_length_filter]

/-! ## Cells -/

/-- A table of rows. -/
abbrev NestedTable (α β γ : Type*) [DecidableEq α] [DecidableEq β] : Type _ :=
  AList fun _ : α ↦ AList fun _ : β ↦ γ

namespace NestedTable

variable (table : NestedTable α β γ)

/-- The row of an owner, empty if there is none. -/
def row (a : α) : AList fun _ : β ↦ γ := (table.lookup a).getD ∅

def cell (a : α) (b : β) : Option γ := (table.row a).lookup b

theorem cell_insert_self (a : α) (r : AList fun _ : β ↦ γ) (b : β) :
    cell (table.insert a r) a b = r.lookup b := by
  rw [cell, row, AList.lookup_insert, Option.getD_some]

theorem cell_insert_ne {a a' : α} (h : a' ≠ a) (r : AList fun _ : β ↦ γ) (b : β) :
    cell (table.insert a r) a' b = cell table a' b := by
  rw [cell, cell, row, row, AList.lookup_insert_ne h]

theorem cell_erase_self (a : α) (b : β) : cell (table.erase a) a b = none := by
  rw [cell, row, AList.lookup_erase]
  rfl

theorem cell_erase_ne {a a' : α} (h : a' ≠ a) (b : β) :
    cell (table.erase a) a' b = cell table a' b := by
  rw [cell, cell, row, row, AList.lookup_erase_ne h]

end NestedTable

end Library
