import Mathlib.Data.List.Nodup
import Mathlib.Data.List.Range

/-!
# Numbered blocks

Fragments come in any order, each with the key of what it is a piece of. The pieces of a key are put
into one block. Blocks are numbered in the order in which their keys first appear, and a block is
opened just before its first piece.
-/

namespace Library

/-- What is written: a block is opened by its first fragment, and fragments are put into it. -/
inductive BlockMark (K D : Type*) where
  | opened (index : ℕ) (first : K × D)
  | put (index : ℕ) (piece : D)

variable {K D : Type*}

namespace BlockMark

/-- The block that a mark opens. -/
def openedIndex? : BlockMark K D → Option ℕ
  | opened index _ => some index
  | put _ _ => none

/-- The piece that a mark puts into a block. -/
def pieceOf? (index : ℕ) : BlockMark K D → Option D
  | opened _ _ => none
  | put block piece => if block = index then some piece else none

end BlockMark

/-- The keys that have a block, and what was written. -/
structure Blocks (K D : Type*) where
  keys : List K := []
  marks : List (BlockMark K D) := []

namespace Blocks

variable [DecidableEq K]

/-- Put a fragment into the block of its key. -/
def place (blocks : Blocks K D) (fragment : K × D) : Blocks K D :=
  if fragment.1 ∈ blocks.keys then
    { blocks with
      marks := blocks.marks ++ [.put (blocks.keys.idxOf fragment.1) fragment.2] }
  else
    { keys := blocks.keys ++ [fragment.1]
      marks := blocks.marks ++
        [.opened blocks.keys.length fragment, .put blocks.keys.length fragment.2] }

/-- Put fragments into blocks, one after another. -/
def placeAll (fragments : List (K × D)) : Blocks K D := fragments.foldl place {}

theorem placeAll_concat (fragments : List (K × D)) (fragment : K × D) :
    placeAll (fragments ++ [fragment]) = (placeAll fragments).place fragment := by
  rw [placeAll, List.foldl_append]
  rfl

variable {fragments : List (K × D)} {fragment : K × D} {k : K}

theorem place_of_mem {blocks : Blocks K D} (h : fragment.1 ∈ blocks.keys) :
    blocks.place fragment = { blocks with
      marks := blocks.marks ++ [.put (blocks.keys.idxOf fragment.1) fragment.2] } :=
  if_pos h

theorem place_of_notMem {blocks : Blocks K D} (h : fragment.1 ∉ blocks.keys) :
    blocks.place fragment =
      { keys := blocks.keys ++ [fragment.1]
        marks := blocks.marks ++
          [.opened blocks.keys.length fragment, .put blocks.keys.length fragment.2] } :=
  if_neg h

/-! ### The keys -/

theorem nodup_keys (fragments : List (K × D)) : (placeAll fragments).keys.Nodup := by
  induction fragments using List.reverseRecOn with
  | nil => exact List.nodup_nil
  | append_singleton fragments fragment ih =>
    rw [placeAll_concat]
    by_cases h : fragment.1 ∈ (placeAll fragments).keys
    · rw [place_of_mem h]
      exact ih
    · rw [place_of_notMem h]
      exact ih.append (List.nodup_singleton _) (List.disjoint_singleton.mpr h)

theorem mem_keys_iff (fragments : List (K × D)) :
    k ∈ (placeAll fragments).keys ↔ ∃ d, (k, d) ∈ fragments := by
  induction fragments using List.reverseRecOn with
  | nil => exact iff_of_false List.not_mem_nil fun ⟨_, hmem⟩ ↦ List.not_mem_nil hmem
  | append_singleton fragments fragment ih =>
    have hlast : (∃ d, (k, d) ∈ fragments ++ [fragment]) ↔
        (∃ d, (k, d) ∈ fragments) ∨ k = fragment.1 := by
      constructor
      · rintro ⟨d, hmem⟩
        rcases List.mem_append.mp hmem with hmem | hmem
        · exact Or.inl ⟨d, hmem⟩
        · exact Or.inr (congrArg Prod.fst (List.mem_singleton.mp hmem))
      · rintro (⟨d, hmem⟩ | rfl)
        · exact ⟨d, List.mem_append_left _ hmem⟩
        · exact ⟨fragment.2, List.mem_append_right _ List.mem_cons_self⟩
    rw [placeAll_concat, hlast, ← ih]
    by_cases h : fragment.1 ∈ (placeAll fragments).keys
    · rw [place_of_mem h]
      exact ⟨Or.inl, fun hor ↦ hor.elim id fun heq ↦ heq ▸ h⟩
    · rw [place_of_notMem h]
      exact List.mem_append.trans (or_congr_right List.mem_singleton)

/-! ### The blocks -/

/-- Blocks are opened once each, in the order of their numbers. -/
theorem filterMap_openedIndex (fragments : List (K × D)) :
    (placeAll fragments).marks.filterMap BlockMark.openedIndex? =
      List.range (placeAll fragments).keys.length := by
  induction fragments using List.reverseRecOn with
  | nil => rfl
  | append_singleton fragments fragment ih =>
    rw [placeAll_concat]
    by_cases h : fragment.1 ∈ (placeAll fragments).keys
    · rw [place_of_mem h, List.filterMap_append, ih]
      exact List.append_nil _
    · rw [place_of_notMem h, List.filterMap_append, ih, List.length_append, List.length_singleton,
        List.range_succ]
      rfl

theorem index_lt_of_put {index : ℕ} {piece : D}
    (h : .put index piece ∈ (placeAll fragments).marks) :
    index < (placeAll fragments).keys.length := by
  induction fragments using List.reverseRecOn with
  | nil => exact absurd h List.not_mem_nil
  | append_singleton fragments fragment ih =>
    rw [placeAll_concat] at h ⊢
    by_cases hkey : fragment.1 ∈ (placeAll fragments).keys
    · rw [place_of_mem hkey] at h ⊢
      rcases List.mem_append.mp h with h | h
      · exact ih h
      · obtain ⟨rfl, -⟩ := BlockMark.put.inj (List.mem_singleton.mp h)
        exact List.idxOf_lt_length_iff.mpr hkey
    · rw [place_of_notMem hkey] at h ⊢
      rw [List.length_append, List.length_singleton]
      rcases List.mem_append.mp h with h | h
      · exact Nat.lt_succ_of_lt (ih h)
      · rcases List.mem_cons.mp h with h | h
        · nomatch h
        · obtain ⟨rfl, -⟩ := BlockMark.put.inj (List.mem_singleton.mp h)
          exact Nat.lt_succ_self _

/-- The place of a key is the place of that key alone. -/
theorem idxOf_eq_iff {keys : List K} {index : ℕ} {a : K} (hnodup : keys.Nodup)
    (hkey : keys[index]? = some k) (hmem : a ∈ keys) : keys.idxOf a = index ↔ a = k := by
  obtain ⟨hlt, rfl⟩ := List.getElem?_eq_some_iff.mp hkey
  constructor
  · rintro rfl
    exact (List.getElem_idxOf (List.idxOf_lt_length_iff.mpr hmem)).symm
  · rintro rfl
    exact hnodup.idxOf_getElem index hlt

omit [DecidableEq K] in
/-- A place in a longer list is an old one, or the last one. -/
theorem getElem?_concat_eq_some {keys : List K} {index : ℕ} {a : K}
    (h : (keys ++ [a])[index]? = some k) : keys[index]? = some k ∨ index = keys.length ∧ k = a := by
  rcases Nat.lt_or_ge index keys.length with hlt | hge
  · rw [List.getElem?_append_left hlt] at h
    exact Or.inl h
  · rw [List.getElem?_append_right hge, List.getElem?_singleton] at h
    obtain ⟨hzero, heq⟩ := Option.ite_none_right_eq_some.mp h
    exact Or.inr ⟨by omega, (Option.some.inj heq).symm⟩

omit [DecidableEq K] in
theorem pieceOf_put {index block : ℕ} {piece : D} :
    ([.put block piece] : List (BlockMark K D)).filterMap (BlockMark.pieceOf? index) =
      if block = index then [piece] else [] := by
  rw [List.filterMap_cons, List.filterMap_nil, BlockMark.pieceOf?]
  split_ifs <;> rfl

/-- The pieces in a block are those of its key, in order. -/
theorem filterMap_pieceOf {index : ℕ} (hkey : (placeAll fragments).keys[index]? = some k) :
    (placeAll fragments).marks.filterMap (BlockMark.pieceOf? index) =
      (fragments.filter (·.1 = k)).map Prod.snd := by
  induction fragments using List.reverseRecOn with
  | nil => nomatch hkey
  | append_singleton fragments fragment ih =>
    have hlast : (([fragment].filter (·.1 = k)).map Prod.snd : List D) =
        if fragment.1 = k then [fragment.2] else [] := by
      by_cases heq : fragment.1 = k <;> simp [heq]
    rw [List.filter_append, List.map_append, hlast]
    rw [placeAll_concat] at hkey ⊢
    by_cases hmem : fragment.1 ∈ (placeAll fragments).keys
    · rw [place_of_mem hmem] at hkey ⊢
      rw [List.filterMap_append, ih hkey, pieceOf_put]
      simp only [idxOf_eq_iff (nodup_keys fragments) hkey hmem]
    · rw [place_of_notMem hmem] at hkey ⊢
      have hput : ([.opened (placeAll fragments).keys.length fragment,
          .put (placeAll fragments).keys.length fragment.2] :
            List (BlockMark K D)).filterMap (BlockMark.pieceOf? index) =
          if (placeAll fragments).keys.length = index then [fragment.2] else [] := pieceOf_put
      rw [List.filterMap_append, hput]
      rcases getElem?_concat_eq_some hkey with hold | ⟨rfl, rfl⟩
      · -- an old block: the fragment is of another key
        have hlt := (List.getElem?_eq_some_iff.mp hold).1
        have hne : fragment.1 ≠ k := fun heq ↦ hmem (heq ▸ List.mem_of_getElem? hold)
        rw [ih hold, if_neg hne, if_neg (by omega)]
      · -- the new block: there was nothing of its key
        have hnone : (placeAll fragments).marks.filterMap
            (BlockMark.pieceOf? (placeAll fragments).keys.length) = [] := by
          refine List.filterMap_eq_nil_iff.mpr fun mark hmark ↦ ?_
          cases mark with
          | opened => rfl
          | put block piece => exact if_neg (index_lt_of_put hmark).ne
        have hfilter : fragments.filter (·.1 = fragment.1) = [] := by
          refine List.filter_eq_nil_iff.mpr fun other hother heq ↦ hmem ?_
          exact (mem_keys_iff fragments).mpr ⟨other.2, of_decide_eq_true heq ▸ hother⟩
        rw [hnone, hfilter, if_pos rfl, if_pos rfl]
        rfl

/-- A block is opened with the first fragment of its key. -/
theorem opened_first {index : ℕ} (hkey : (placeAll fragments).keys[index]? = some k) :
    ∃ first, fragments.find? (·.1 = k) = some first ∧
      .opened index first ∈ (placeAll fragments).marks := by
  induction fragments using List.reverseRecOn with
  | nil => nomatch hkey
  | append_singleton fragments fragment ih =>
    rw [placeAll_concat] at hkey ⊢
    rw [List.find?_append]
    by_cases hmem : fragment.1 ∈ (placeAll fragments).keys
    · rw [place_of_mem hmem] at hkey ⊢
      obtain ⟨first, hfirst, hopened⟩ := ih hkey
      exact ⟨first, by rw [hfirst, Option.some_or], List.mem_append_left _ hopened⟩
    · rw [place_of_notMem hmem] at hkey ⊢
      rcases getElem?_concat_eq_some hkey with hold | ⟨rfl, rfl⟩
      · obtain ⟨first, hfirst, hopened⟩ := ih hold
        exact ⟨first, by rw [hfirst, Option.some_or], List.mem_append_left _ hopened⟩
      · have hnone : fragments.find? (·.1 = fragment.1) = none := by
          refine List.find?_eq_none.mpr fun other hother heq ↦ hmem ?_
          exact (mem_keys_iff fragments).mpr ⟨other.2, of_decide_eq_true heq ▸ hother⟩
        refine ⟨fragment, ?_, List.mem_append_right _ List.mem_cons_self⟩
        rw [hnone, Option.none_or, List.find?_cons_of_pos (by simp)]

/-- A piece is put into a block that was opened before. -/
theorem opened_before {place index : ℕ} {piece : D}
    (h : (placeAll fragments).marks[place]? = some (.put index piece)) :
    ∃ earlier < place, ∃ first,
      (placeAll fragments).marks[earlier]? = some (.opened index first) := by
  induction fragments using List.reverseRecOn with
  | nil => nomatch h
  | append_singleton fragments fragment ih =>
    rw [placeAll_concat] at h ⊢
    have hold : ∀ {earlier : ℕ} {mark : BlockMark K D} (rest : List (BlockMark K D)),
        (placeAll fragments).marks[earlier]? = some mark →
          ((placeAll fragments).marks ++ rest)[earlier]? = some mark := fun rest hmark ↦ by
      rw [List.getElem?_append_left (List.getElem?_eq_some_iff.mp hmark).1, hmark]
    by_cases hmem : fragment.1 ∈ (placeAll fragments).keys
    · rw [place_of_mem hmem] at h ⊢
      rcases getElem?_concat_eq_some h with h | ⟨rfl, hput⟩
      · obtain ⟨earlier, hlt, first, hopened⟩ := ih h
        exact ⟨earlier, hlt, first, hold _ hopened⟩
      · -- the block of a known key is open
        obtain ⟨rfl, -⟩ := BlockMark.put.inj hput
        have hindex := List.idxOf_lt_length_iff.mpr hmem
        obtain ⟨first, -, hopened⟩ := opened_first
          (List.getElem?_eq_getElem hindex : (placeAll fragments).keys[_]? = _)
        obtain ⟨earlier, hearlier⟩ := List.getElem?_of_mem hopened
        exact ⟨earlier, (List.getElem?_eq_some_iff.mp hearlier).1, first, hold _ hearlier⟩
    · rw [place_of_notMem hmem] at h ⊢
      dsimp only at h ⊢
      rw [List.append_cons (placeAll fragments).marks] at h ⊢
      rcases getElem?_concat_eq_some h with h | ⟨rfl, hput⟩
      · rcases getElem?_concat_eq_some h with h | ⟨-, hput⟩
        · obtain ⟨earlier, hlt, first, hopened⟩ := ih h
          refine ⟨earlier, hlt, first, ?_⟩
          rw [List.append_assoc]
          exact hold _ hopened
        · nomatch hput
      · obtain ⟨rfl, -⟩ := BlockMark.put.inj hput
        refine ⟨(placeAll fragments).marks.length, by simp, fragment, ?_⟩
        rw [List.append_assoc, List.getElem?_append_right le_rfl, Nat.sub_self]
        rfl

end Blocks

end Library
