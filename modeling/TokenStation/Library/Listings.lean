import Mathlib.Data.List.Infix
import Mathlib.Tactic.Common

/-!
# Listings of names and tags

A listing is written as its names and tags, each followed by a separator. The tags are free of the
separator and the names need not be, so a text may be the text of several listings. Two listings
with one text agree up to an entry whose name, tag included, begins the other one's name.
-/

namespace Library

variable {α : Type*}

/-- A name with its tag. -/
abbrev Tagged (α : Type*) := List α × List α

namespace Listing

variable (sep : α)

/-- The text of an entry, less its last separator. -/
def spelling (entry : Tagged α) : List α := entry.1 ++ sep :: entry.2

def text (entries : List (Tagged α)) : List α :=
  entries.flatMap fun entry ↦ spelling sep entry ++ [sep]

/-- The name of the second entry begins with the whole first one. -/
def Swallows (entry other : Tagged α) : Prop := spelling sep entry <+: other.1

variable {sep}

theorem Swallows.name_ne {entry other : Tagged α} (h : Swallows sep entry other) :
    entry.1 ≠ other.1 := by
  intro heq
  have hle := h.length_le
  rw [← heq, spelling, List.length_append, List.length_cons] at hle
  omega

/-- Where two texts go on with a separator, the one without separators is the shorter one. -/
theorem prefix_of_append_eq {tag rest rest' : List α} {text : List α} (hfree : sep ∉ tag)
    (h : tag ++ sep :: rest = text ++ sep :: rest') : tag <+: text := by
  rcases List.append_eq_append_iff.mp h with ⟨more, rfl, -⟩ | ⟨more, rfl, hmore⟩
  · exact List.prefix_append tag more
  · rcases more with - | ⟨first, more⟩
    · rw [List.append_nil]
    · obtain rfl : sep = first := List.head_eq_of_cons_eq hmore
      exact absurd (List.mem_append_right text List.mem_cons_self) hfree

/-- One entry ends where the other does, or its spelling begins the other's name. -/
theorem eq_or_swallows {entry other : Tagged α} {rest rest' : List α} (hfree : sep ∉ entry.2)
    (hfree' : sep ∉ other.2)
    (h : spelling sep entry ++ sep :: rest = spelling sep other ++ sep :: rest') :
    entry = other ∨ Swallows sep entry other ∨ Swallows sep other entry := by
  obtain ⟨name, tag⟩ := entry
  obtain ⟨name', tag'⟩ := other
  -- what the longer name has beyond the shorter one starts with a separator
  have hbeyond : ∀ {name tag more tag' rest rest' : List α}, sep ∉ tag →
      sep :: tag ++ sep :: rest = more ++ (sep :: tag' ++ sep :: rest') →
        more = [] ∨ spelling sep (name, tag) <+: name ++ more := by
    intro name tag more tag' rest rest' hfree h
    rcases more with - | ⟨first, more⟩
    · exact Or.inl rfl
    · obtain ⟨rfl, hrest⟩ := List.cons.inj h
      exact Or.inr ((List.prefix_append_right_inj name).mpr
        (List.cons_prefix_cons.mpr ⟨rfl, prefix_of_append_eq hfree hrest⟩))
  have hsame : ∀ {tag tag' rest rest' : List α}, sep ∉ tag → sep ∉ tag' →
      tag ++ sep :: rest = tag' ++ sep :: rest' → tag = tag' := by
    intro tag tag' rest rest' hfree hfree' h
    exact (prefix_of_append_eq hfree h).eq_of_length_le
      (prefix_of_append_eq hfree' h.symm).length_le
  simp only [spelling, List.append_assoc] at h
  rcases List.append_eq_append_iff.mp h with ⟨more, rfl, hmore⟩ | ⟨more, rfl, hmore⟩
  · rcases hbeyond hfree hmore with rfl | hswallows
    · refine Or.inl (Prod.ext (List.append_nil name).symm ?_)
      exact hsame hfree hfree' (List.cons.inj hmore).2
    · exact Or.inr (Or.inl hswallows)
  · rcases hbeyond hfree' hmore with rfl | hswallows
    · refine Or.inl (Prod.ext (List.append_nil name') ?_)
      exact (hsame hfree' hfree (List.cons.inj hmore).2).symm
    · exact Or.inr (Or.inr hswallows)

theorem text_cons (entry : Tagged α) (entries : List (Tagged α)) :
    text sep (entry :: entries) = spelling sep entry ++ sep :: text sep entries := by
  rw [text, List.flatMap_cons, List.append_assoc, List.singleton_append, ← text]

theorem text_cons_ne_nil (entry : Tagged α) (entries : List (Tagged α)) :
    text sep (entry :: entries) ≠ [] := by
  rw [text_cons, spelling, List.append_assoc, List.cons_append]
  exact List.append_ne_nil_of_right_ne_nil _ (List.cons_ne_nil _ _)

/-- **The first difference.** Two listings with one text are the same, or at the first entries that
differ one is swallowed by the other's name. -/
theorem eq_or_first_difference {entries entries' : List (Tagged α)}
    (hfree : ∀ entry ∈ entries, sep ∉ entry.2) (hfree' : ∀ entry ∈ entries', sep ∉ entry.2)
    (h : text sep entries = text sep entries') :
    entries = entries' ∨ ∃ common entry rest other rest',
      entries = common ++ entry :: rest ∧ entries' = common ++ other :: rest' ∧
        (Swallows sep entry other ∨ Swallows sep other entry) := by
  induction entries generalizing entries' with
  | nil =>
    rcases entries' with - | ⟨other, rest'⟩
    · exact Or.inl rfl
    · exact absurd h.symm (text_cons_ne_nil other rest')
  | cons entry rest ih =>
    rcases entries' with - | ⟨other, rest'⟩
    · exact absurd h (text_cons_ne_nil entry rest)
    obtain ⟨hentry, hrest⟩ := List.forall_mem_cons.mp hfree
    obtain ⟨hother, hrest'⟩ := List.forall_mem_cons.mp hfree'
    rw [text_cons, text_cons] at h
    rcases eq_or_swallows hentry hother h with rfl | hswallows
    · have htail := (List.cons.inj (List.append_cancel_left h)).2
      rcases ih hrest hrest' htail with rfl | ⟨common, first, more, first', more', rfl, rfl, hmore⟩
      · exact Or.inl rfl
      · exact Or.inr ⟨entry :: common, first, more, first', more', rfl, rfl, hmore⟩
    · exact Or.inr ⟨[], entry, rest, other, rest', rfl, rfl, hswallows⟩

end Listing

end Library
