import Mathlib.Data.List.Basic
import Mathlib.Tactic.Common

/-!
# Texts as lists of lines

A text cut after every occurrence of a symbol `stop` is a list of lines, of which only the last may
lack its terminator. `IsLines` is that shape. Editing a text line by line is editing such a list as
long as the shape is kept, and the one way to leave it is to put an unterminated line in front of
another: the two become one line.
-/

namespace Library

variable {α : Type*} (stop : α)

/-- A line with its terminator. -/
def Terminated (line : List α) : Prop := ∃ body, line = body ++ [stop] ∧ stop ∉ body

/-- A line that the text ends in before its terminator. -/
def Open (line : List α) : Prop := line ≠ [] ∧ stop ∉ line

/-- Terminated lines, and possibly an open one at the end. -/
def IsLines : List (List α) → Prop
  | [] => True
  | line :: lines => (Terminated stop line ∧ IsLines lines) ∨ (Open stop line ∧ lines = [])

/-- Cut a text after every `stop`. -/
def splitInclusive [DecidableEq α] : List α → List (List α)
  | [] => []
  | a :: text =>
    if a = stop then [a] :: splitInclusive text
    else
      match splitInclusive text with
      | [] => [[a]]
      | line :: lines => (a :: line) :: lines

variable {stop}

theorem Terminated.ne_nil {line : List α} (h : Terminated stop line) : line ≠ [] := by
  obtain ⟨body, rfl, -⟩ := h
  exact List.append_ne_nil_of_right_ne_nil _ (List.cons_ne_nil _ _)

theorem Terminated.not_open {line : List α} (h : Terminated stop line) : ¬ Open stop line := by
  rintro ⟨-, hnot⟩
  obtain ⟨body, rfl, -⟩ := h
  exact hnot (List.mem_append_right _ List.mem_cons_self)

theorem Terminated.cons {line : List α} {a : α} (ha : a ≠ stop) (h : Terminated stop line) :
    Terminated stop (a :: line) := by
  obtain ⟨body, rfl, hbody⟩ := h
  refine ⟨a :: body, rfl, fun hmem ↦ ?_⟩
  rcases List.mem_cons.mp hmem with rfl | hmem
  · exact ha rfl
  · exact hbody hmem

/-- An unterminated piece takes the kind of the line it is put in front of. -/
theorem Terminated.prepend {piece line : List α} (hpiece : stop ∉ piece)
    (h : Terminated stop line) : Terminated stop (piece ++ line) := by
  obtain ⟨body, rfl, hbody⟩ := h
  refine ⟨piece ++ body, by rw [List.append_assoc], fun hmem ↦ ?_⟩
  exact (List.mem_append.mp hmem).elim hpiece hbody

theorem Open.prepend {piece line : List α} (hpiece : stop ∉ piece) (h : Open stop line) :
    Open stop (piece ++ line) := by
  refine ⟨List.append_ne_nil_of_right_ne_nil _ h.1, fun hmem ↦ ?_⟩
  exact (List.mem_append.mp hmem).elim hpiece h.2

theorem Open.terminate {line : List α} (h : Open stop line) : Terminated stop (line ++ [stop]) :=
  ⟨line, rfl, h.2⟩

namespace IsLines

theorem ne_nil {lines : List (List α)} (h : IsLines stop lines) : ∀ line ∈ lines, line ≠ [] := by
  induction lines with
  | nil => exact fun line hline ↦ nomatch hline
  | cons first lines ih =>
    intro line hline
    rcases h with ⟨hfirst, hrest⟩ | ⟨hfirst, rfl⟩
    · rcases List.mem_cons.mp hline with rfl | hline
      · exact hfirst.ne_nil
      · exact ih hrest line hline
    · rw [List.mem_singleton.mp hline]
      exact hfirst.1

theorem append_iff {before after : List (List α)} (hafter : after ≠ []) :
    IsLines stop (before ++ after) ↔
      (∀ line ∈ before, Terminated stop line) ∧ IsLines stop after := by
  induction before with
  | nil => exact ⟨fun h ↦ ⟨fun line hline ↦ (nomatch hline), h⟩, fun h ↦ h.2⟩
  | cons first before ih =>
    rw [List.cons_append, IsLines, List.forall_mem_cons, ih]
    have hne : before ++ after ≠ [] := List.append_ne_nil_of_right_ne_nil _ hafter
    constructor
    · rintro (⟨hfirst, hbefore, h⟩ | ⟨-, hnil⟩)
      · exact ⟨⟨hfirst, hbefore⟩, h⟩
      · exact absurd hnil hne
    · rintro ⟨⟨hfirst, hbefore⟩, h⟩
      exact Or.inl ⟨hfirst, hbefore, h⟩

theorem of_terminated {lines : List (List α)} (h : ∀ line ∈ lines, Terminated stop line) :
    IsLines stop lines := by
  induction lines with
  | nil => trivial
  | cons line lines ih =>
    exact Or.inl ⟨h line List.mem_cons_self, ih fun l hl ↦ h l (List.mem_cons_of_mem _ hl)⟩

/-- A line that another follows is terminated. -/
theorem before_line {before after : List (List α)} {line : List α}
    (h : IsLines stop (before ++ line :: after)) : ∀ l ∈ before, Terminated stop l :=
  ((append_iff (List.cons_ne_nil _ _)).mp h).1

theorem tail {lines : List (List α)} {line : List α} (h : IsLines stop (line :: lines)) :
    IsLines stop lines := by
  rcases h with ⟨-, hrest⟩ | ⟨-, rfl⟩
  · exact hrest
  · trivial

theorem after_line {before after : List (List α)} {line : List α}
    (h : IsLines stop (before ++ line :: after)) : IsLines stop after :=
  ((append_iff (List.cons_ne_nil _ _)).mp h).2.tail

theorem append_of {before after : List (List α)} (hbefore : ∀ line ∈ before, Terminated stop line)
    (hafter : IsLines stop after) : IsLines stop (before ++ after) := by
  by_cases hnil : after = []
  · rw [hnil, List.append_nil]
    exact of_terminated hbefore
  · exact (append_iff hnil).mpr ⟨hbefore, hafter⟩

theorem remove {before after : List (List α)} {line : List α}
    (h : IsLines stop (before ++ line :: after)) : IsLines stop (before ++ after) :=
  append_of h.before_line h.after_line

theorem replace {before after : List (List α)} {line line' : List α}
    (h : IsLines stop (before ++ line :: after)) (hline : Terminated stop line') :
    IsLines stop (before ++ line' :: after) :=
  append_of h.before_line (Or.inl ⟨hline, h.after_line⟩)

theorem replace_last {before : List (List α)} {line line' : List α}
    (h : IsLines stop (before ++ [line])) (hline : Open stop line') :
    IsLines stop (before ++ [line']) :=
  append_of h.before_line (Or.inr ⟨hline, rfl⟩)

/-- An open line swallows the line that comes after it. -/
theorem replace_glued {before after : List (List α)} {line next line' : List α}
    (h : IsLines stop (before ++ line :: next :: after)) (hline : Open stop line') :
    IsLines stop (before ++ (line' ++ next) :: after) := by
  apply append_of h.before_line
  rcases h.after_line with ⟨hnext, hrest⟩ | ⟨hnext, rfl⟩
  · exact Or.inl ⟨hnext.prepend hline.2, hrest⟩
  · exact Or.inr ⟨hnext.prepend hline.2, rfl⟩

/-- Either every line is terminated, or the last one is open. -/
theorem cases_last {lines : List (List α)} (h : IsLines stop lines) :
    (∀ line ∈ lines, Terminated stop line) ∨
      ∃ before line, lines = before ++ [line] ∧ (∀ l ∈ before, Terminated stop l) ∧
        Open stop line := by
  induction lines with
  | nil => exact Or.inl fun line hline ↦ nomatch hline
  | cons first lines ih =>
    rcases h with ⟨hfirst, hrest⟩ | ⟨hfirst, rfl⟩
    · rcases ih hrest with hall | ⟨before, line, rfl, hbefore, hline⟩
      · exact Or.inl (List.forall_mem_cons.mpr ⟨hfirst, hall⟩)
      · exact Or.inr ⟨first :: before, line, rfl, List.forall_mem_cons.mpr ⟨hfirst, hbefore⟩, hline⟩
    · exact Or.inr ⟨[], first, rfl, fun l hl ↦ (nomatch hl), hfirst⟩

end IsLines

theorem getLast?_flatten_of_terminated {lines : List (List α)}
    (h : ∀ line ∈ lines, Terminated stop line) (hne : lines ≠ []) :
    lines.flatten.getLast? = some stop := by
  obtain ⟨before, line, rfl⟩ := List.eq_nil_or_concat lines |>.resolve_left hne
  obtain ⟨body, rfl, -⟩ := h line (by simp)
  simp

theorem getLast?_append_of_open {text line : List α} (h : Open stop line) :
    (text ++ line).getLast? ≠ some stop := by
  rw [List.getLast?_append_of_ne_nil text h.1]
  intro hlast
  exact h.2 (List.mem_of_getLast? hlast)

/-! ## Cutting a text -/

section Split

variable [DecidableEq α]

@[simp] theorem splitInclusive_flatten (text : List α) :
    (splitInclusive stop text).flatten = text := by
  induction text with
  | nil => rfl
  | cons a text ih =>
    rw [splitInclusive]
    by_cases ha : a = stop
    · rw [if_pos ha, List.flatten_cons, ih]
      rfl
    · rw [if_neg ha]
      rcases hsplit : splitInclusive stop text with - | ⟨line, lines⟩
      · rw [hsplit] at ih
        rw [← ih]
        rfl
      · rw [hsplit] at ih
        simp only [List.flatten_cons, List.cons_append, ← ih]

theorem isLines_splitInclusive (text : List α) : IsLines stop (splitInclusive stop text) := by
  induction text with
  | nil => trivial
  | cons a text ih =>
    rw [splitInclusive]
    by_cases ha : a = stop
    · rw [if_pos ha]
      exact Or.inl ⟨⟨[], by rw [ha]; rfl, List.not_mem_nil⟩, ih⟩
    · rw [if_neg ha]
      rcases hsplit : splitInclusive stop text with - | ⟨line, lines⟩
      · refine Or.inr ⟨⟨List.cons_ne_nil _ _, fun hmem ↦ ?_⟩, rfl⟩
        exact ha (List.mem_singleton.mp hmem).symm
      · rw [hsplit] at ih
        rcases ih with ⟨hline, hlines⟩ | ⟨hline, hlines⟩
        · exact Or.inl ⟨hline.cons ha, hlines⟩
        · refine Or.inr ⟨⟨List.cons_ne_nil _ _, fun hmem ↦ ?_⟩, hlines⟩
          rcases List.mem_cons.mp hmem with rfl | hmem
          · exact ha rfl
          · exact hline.2 hmem

theorem splitInclusive_append {piece : List α} (hpiece : stop ∉ piece) (text : List α) :
    splitInclusive stop (piece ++ text) =
      match splitInclusive stop text with
      | [] => if piece = [] then [] else [piece]
      | line :: lines => (piece ++ line) :: lines := by
  induction piece with
  | nil =>
    rw [List.nil_append]
    rcases splitInclusive stop text with - | ⟨line, lines⟩ <;> rfl
  | cons a piece ih =>
    have ha : a ≠ stop := fun h ↦ hpiece (h ▸ List.mem_cons_self)
    rw [List.cons_append, splitInclusive, if_neg ha,
      ih fun hmem ↦ hpiece (List.mem_cons_of_mem _ hmem)]
    rcases splitInclusive stop text with - | ⟨line, lines⟩
    · by_cases hnil : piece = []
      · rw [hnil]
        rfl
      · simp only [if_neg hnil, if_neg (List.cons_ne_nil a piece)]
    · rfl

/-- A list of lines is cut from the text it makes. -/
theorem splitInclusive_of_isLines {lines : List (List α)} (h : IsLines stop lines) :
    splitInclusive stop lines.flatten = lines := by
  induction lines with
  | nil => rfl
  | cons line lines ih =>
    rw [List.flatten_cons]
    rcases h with ⟨⟨body, rfl, hbody⟩, hlines⟩ | ⟨hline, rfl⟩
    · rw [List.append_assoc, splitInclusive_append hbody, List.singleton_append, splitInclusive,
        if_pos rfl, ih hlines]
    · rw [List.flatten_nil, splitInclusive_append hline.2, splitInclusive]
      simp only [if_neg hline.1]

end Split

end Library
