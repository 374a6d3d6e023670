import Mathlib.Data.Finmap

/-!
# Cells of a flat map

A flat map can serve as a map from pairs, an owner and a slot, once the pairs are coded as keys. A
code separates a set of owners when the key of a cell determines its owner and its slot. Then a
write through the code changes the cell it names and no other one.
-/

namespace Library

variable {Owner Slot Key Value : Type*} {code : Owner → Slot → Key} {owners : Set Owner}

/-- The keys of these owners' cells determine the cells. -/
def Separates (code : Owner → Slot → Key) (owners : Set Owner) : Prop :=
  ∀ owner ∈ owners, ∀ other ∈ owners, ∀ slot slot', code owner slot = code other slot' →
    owner = other ∧ slot = slot'

namespace Separates

variable {owner other : Owner} {slot slot' : Slot}

theorem ne (h : Separates code owners) (howner : owner ∈ owners) (hother : other ∈ owners)
    (hne : owner ≠ other) : code owner slot ≠ code other slot' :=
  fun heq ↦ hne (h owner howner other hother slot slot' heq).1

variable [DecidableEq Key] {map : Finmap fun _ : Key ↦ Value} {value : Value}

/-- A write leaves the cells of another owner. -/
theorem lookup_insert (h : Separates code owners) (howner : owner ∈ owners)
    (hother : other ∈ owners) (hne : owner ≠ other) :
    (map.insert (code owner slot) value).lookup (code other slot') =
      map.lookup (code other slot') :=
  Finmap.lookup_insert_of_ne _ (h.ne hother howner hne.symm)

/-- A removal leaves the cells of another owner. -/
theorem lookup_erase (h : Separates code owners) (howner : owner ∈ owners)
    (hother : other ∈ owners) (hne : owner ≠ other) :
    (map.erase (code owner slot)).lookup (code other slot') = map.lookup (code other slot') :=
  Finmap.lookup_erase_ne (h.ne hother howner hne.symm)

end Separates

/-! ## Filling a map from a list -/

section InsertAll

variable [DecidableEq Key]

/-- The entries of a list, written one after the other. -/
def insertAll (map : Finmap fun _ : Key ↦ Value) (entries : List (Key × Value)) :
    Finmap fun _ : Key ↦ Value :=
  entries.foldl (fun map entry ↦ map.insert entry.1 entry.2) map

variable {map : Finmap fun _ : Key ↦ Value} {entries : List (Key × Value)} {key : Key}
  {value : Value}

theorem lookup_insertAll_of_notMem (h : key ∉ entries.map Prod.fst) :
    (insertAll map entries).lookup key = map.lookup key := by
  induction entries generalizing map with
  | nil => rfl
  | cons entry rest ih =>
    rw [List.map_cons, List.mem_cons, not_or] at h
    rw [insertAll, List.foldl_cons, ← insertAll, ih h.2]
    exact Finmap.lookup_insert_of_ne _ h.1

/-- An entry whose key has no other value in the list can be looked up. -/
theorem lookup_insertAll (hmem : (key, value) ∈ entries)
    (h : ∀ other, (key, other) ∈ entries → other = value) :
    (insertAll map entries).lookup key = some value := by
  induction entries generalizing map with
  | nil => exact absurd hmem List.not_mem_nil
  | cons entry rest ih =>
    rw [insertAll, List.foldl_cons, ← insertAll]
    by_cases hrest : (key, value) ∈ rest
    · exact ih hrest fun other hother ↦ h other (List.mem_cons_of_mem _ hother)
    · -- the first entry is the only one with this key
      obtain rfl := (List.mem_cons.mp hmem).resolve_right hrest
      rw [lookup_insertAll_of_notMem, Finmap.lookup_insert]
      intro hkey
      obtain ⟨⟨key, other⟩, hother, rfl⟩ := List.mem_map.mp hkey
      obtain rfl := h other (List.mem_cons_of_mem _ hother)
      exact hrest hother

end InsertAll

end Library
