import Mathlib.Data.List.Basic
import Mathlib.Data.List.Count
import Mathlib.Order.Lattice
import Mathlib.Tactic.Common

/-!
# Reading a table page by page

A query that continues after the last key it has seen, over rows in the order of their keys. Each
page takes up where the one before it stopped, so the pages together are the rows that the query
selects, and none of them is read twice.
-/

namespace Library

variable {α κ : Type*} {key : α → κ} {after : κ}

/-- Where the next page starts. -/
def lastKey (key : α → κ) (page : List α) (after : κ) : κ := (page.getLast?.map key).getD after

theorem lastKey_cons (a : α) (page : List α) :
    lastKey key (a :: page) after = lastKey key page (key a) := by
  rw [lastKey, lastKey, List.getLast?_cons]
  cases page.getLast? <;> rfl

/-- The last key of a page with rows is the key of one of its rows. -/
theorem exists_lastKey {page : List α} (h : page ≠ []) :
    ∃ a ∈ page, lastKey key page after = key a := by
  refine ⟨page.getLast h, List.getLast_mem h, ?_⟩
  rw [lastKey, List.getLast?_eq_some_getLast h]
  rfl

variable [LinearOrder κ] {keeps : α → Bool} {size : ℕ} {l : List α}

/-- The rows after a key that a query selects. -/
def selectedAfter (key : α → κ) (keeps : α → Bool) (l : List α) (after : κ) : List α :=
  l.filter fun a ↦ decide (after < key a) && keeps a

/-- One page of them. -/
def pageAfter (key : α → κ) (keeps : α → Bool) (size : ℕ) (l : List α) (after : κ) : List α :=
  (selectedAfter key keeps l after).take size

theorem mem_selectedAfter {a : α} :
    a ∈ selectedAfter key keeps l after ↔ a ∈ l ∧ after < key a ∧ keeps a = true := by
  rw [selectedAfter, List.mem_filter, Bool.and_eq_true, decide_eq_true_iff]

theorem mem_of_mem_pageAfter {a : α} (h : a ∈ pageAfter key keeps size l after) :
    a ∈ l ∧ after < key a ∧ keeps a = true :=
  mem_selectedAfter.mp (List.mem_of_mem_take h)

/-- A short page is the last one. -/
theorem pageAfter_of_short (h : (pageAfter key keeps size l after).length < size) :
    pageAfter key keeps size l after = selectedAfter key keeps l after := by
  rw [pageAfter, List.length_take] at h
  exact List.take_of_length_le (by omega)

theorem le_lastKey_pageAfter : after ≤ lastKey key (pageAfter key keeps size l after) after := by
  by_cases hempty : pageAfter key keeps size l after = []
  · rw [hempty]
    exact le_rfl
  · obtain ⟨a, ha, hkey⟩ := @exists_lastKey _ _ key after _ hempty
    exact hkey ▸ (mem_of_mem_pageAfter ha).2.1.le

theorem lt_lastKey (h : pageAfter key keeps size l after ≠ []) :
    after < lastKey key (pageAfter key keeps size l after) after := by
  obtain ⟨a, ha, hkey⟩ := @exists_lastKey _ _ key after _ h
  rw [hkey]
  exact (mem_of_mem_pageAfter ha).2.1

theorem le_lastKey {page : List α} (hsorted : page.Pairwise fun a b ↦ key a < key b) {a : α}
    (ha : a ∈ page) : key a ≤ lastKey key page after := by
  obtain ⟨front, last, rfl⟩ := (List.eq_nil_or_concat' page).resolve_left
    (List.ne_nil_of_mem ha)
  rw [lastKey, List.getLast?_append]
  obtain hfront | hlast := List.mem_append.mp ha
  · exact ((List.pairwise_append.mp hsorted).2.2 a hfront last List.mem_cons_self).le
  · rw [List.mem_singleton.mp hlast]
    exact le_rfl

/-- The rows that are selected are the page and what is selected after it. -/
theorem selectedAfter_eq_append (hsorted : l.Pairwise fun a b ↦ key a < key b) :
    selectedAfter key keeps l after = pageAfter key keeps size l after ++
      selectedAfter key keeps l (lastKey key (pageAfter key keeps size l after) after) := by
  have hselected : (selectedAfter key keeps l after).Pairwise fun a b ↦ key a < key b :=
    hsorted.filter _
  have hsplit : pageAfter key keeps size l after ++ (selectedAfter key keeps l after).drop size =
    selectedAfter key keeps l after := List.take_append_drop size _
  rw [← hsplit] at hselected
  obtain ⟨hpage, -, hacross⟩ := List.pairwise_append.mp hselected
  generalize hlast : lastKey key (pageAfter key keeps size l after) after = last
  -- the rows up to the last key are those of the page
  have hbefore : ∀ a ∈ pageAfter key keeps size l after, ¬ last < key a := fun a ha ↦
    not_lt.mpr (hlast ▸ le_lastKey hpage ha)
  have hafter : ∀ a ∈ (selectedAfter key keeps l after).drop size, last < key a := by
    intro a ha
    by_cases hempty : pageAfter key keeps size l after = []
    · rw [← hlast, hempty]
      exact (mem_selectedAfter.mp (List.mem_of_mem_drop ha)).2.1
    · obtain ⟨b, hb, hkey⟩ := @exists_lastKey _ _ key after _ hempty
      rw [← hlast, hkey]
      exact hacross b hb a ha
  have hle : after ≤ last := hlast ▸ le_lastKey_pageAfter
  have hrest : selectedAfter key keeps l last = (selectedAfter key keeps l after).drop size := by
    calc selectedAfter key keeps l last
        = (selectedAfter key keeps l after).filter fun a ↦ decide (last < key a) := by
          rw [selectedAfter, selectedAfter, List.filter_filter]
          refine List.filter_congr fun a _ ↦ ?_
          by_cases hkey : last < key a
          · rw [decide_eq_true hkey, decide_eq_true (hle.trans_lt hkey)]
            simp only [Bool.true_and]
          · rw [decide_eq_false hkey]
            simp only [Bool.false_and]
      _ = (selectedAfter key keeps l after).drop size := by
          rw [← hsplit, List.filter_append,
            List.filter_eq_nil_iff.mpr fun a ha ↦ by rw [decide_eq_true_iff]; exact hbefore a ha,
            List.filter_eq_self.mpr fun a ha ↦ decide_eq_true (hafter a ha),
            List.nil_append, hsplit]
  rw [hrest, hsplit]

/-- The rows of a page are those up to its last key. -/
theorem mem_pageAfter_iff (hsorted : l.Pairwise fun a b ↦ key a < key b) {a : α} :
    a ∈ pageAfter key keeps size l after ↔ (a ∈ l ∧ after < key a ∧ keeps a = true) ∧
      key a ≤ lastKey key (pageAfter key keeps size l after) after := by
  constructor
  · intro h
    have hpage : (pageAfter key keeps size l after).Pairwise fun a b ↦ key a < key b :=
      (hsorted.filter _).sublist (List.take_sublist _ _)
    exact ⟨mem_of_mem_pageAfter h, le_lastKey hpage h⟩
  · rintro ⟨hselected, hle⟩
    have hmem := mem_selectedAfter.mpr hselected
    rw [@selectedAfter_eq_append _ _ _ _ _ _ size _ hsorted, List.mem_append] at hmem
    obtain hpage | hlater := hmem
    · exact hpage
    · exact absurd (mem_selectedAfter.mp hlater).2.1 (not_lt.mpr hle)

/-- Fewer rows are left after a later key of the table. -/
theorem length_after_lt {l : List κ} {last : κ} (h : after < last) (hmem : last ∈ l) :
    (l.filter fun k ↦ last < k).length < (l.filter fun k ↦ after < k).length := by
  have hsub : (l.filter fun k ↦ last < k).Sublist (l.filter fun k ↦ after < k) :=
    List.monotone_filter_right l fun k hk ↦
      decide_eq_true (h.trans (of_decide_eq_true hk))
  refine Nat.lt_of_le_of_ne hsub.length_le fun heq ↦ ?_
  have hlast : last ∈ l.filter fun k ↦ last < k := by
    rw [hsub.eq_of_length heq, List.mem_filter]
    exact ⟨hmem, decide_eq_true h⟩
  exact lt_irrefl last (of_decide_eq_true (List.mem_filter.mp hlast).2)

end Library
