import Mathlib.Algebra.BigOperators.Group.List.Basic
import Mathlib.Algebra.GroupWithZero.Nat
import Mathlib.Data.List.Basic
import Mathlib.Tactic.Common

/-!
# What fits into an allowance

Symbols have sizes, and a copy takes them in order while they fit into what is allowed. The copy is
the longest beginning of the text that fits, so a text that arrives in parts is copied like the
whole: what the first part leaves of the allowance is the allowance of the next, unless something
was left out already (`fit_append`).

A filler is a symbol that stands for what cannot be shown. A text is filled when nothing but fillers
fits of it, as many as the allowance has room for. One more filler in front of it cannot be seen
then, and can be seen otherwise (`fit_fillers_ne`).
-/

namespace Library

variable {β : Type*} (size : β → ℕ)

/-- The size of a text. -/
def weigh (text : List β) : ℕ := (text.map size).sum

/-- The longest beginning of a text that fits. -/
def fit : ℕ → List β → List β
  | _, [] => []
  | allowed, x :: text => if size x ≤ allowed then x :: fit (allowed - size x) text else []

section Fit

variable {size} {allowed : ℕ} {text more : List β} {x : β}

@[simp] theorem weigh_nil : weigh size [] = 0 := rfl

@[simp] theorem weigh_cons : weigh size (x :: text) = size x + weigh size text := by
  rw [weigh, List.map_cons, List.sum_cons, weigh]

@[simp] theorem weigh_append :
    weigh size (text ++ more) = weigh size text + weigh size more := by
  rw [weigh, List.map_append, List.sum_append, weigh, weigh]

@[simp] theorem fit_nil : fit size allowed [] = [] := by rw [fit]

theorem fit_cons_of_le (h : size x ≤ allowed) :
    fit size allowed (x :: text) = x :: fit size (allowed - size x) text := by
  rw [fit, if_pos h]

theorem fit_cons_of_lt (h : allowed < size x) : fit size allowed (x :: text) = [] := by
  rw [fit, if_neg (by omega)]

theorem weigh_fit_le (allowed : ℕ) (text : List β) :
    weigh size (fit size allowed text) ≤ allowed := by
  induction text generalizing allowed with
  | nil => simp
  | cons x text ih =>
    by_cases h : size x ≤ allowed
    · have hrest := ih (allowed - size x)
      rw [fit_cons_of_le h, weigh_cons]
      omega
    · rw [fit_cons_of_lt (by omega), weigh_nil]
      exact Nat.zero_le _

/-- A text that fits is copied whole. -/
theorem fit_of_le (h : weigh size text ≤ allowed) : fit size allowed text = text := by
  induction text generalizing allowed with
  | nil => simp
  | cons x text ih =>
    rw [weigh_cons] at h
    rw [fit_cons_of_le (by omega), ih (by omega)]

/-- Something is left out exactly when not all of it fits. -/
theorem weigh_fit_lt_iff :
    weigh size (fit size allowed text) < weigh size text ↔ allowed < weigh size text := by
  constructor
  · intro hlt
    by_contra hle
    rw [fit_of_le (Nat.le_of_not_lt hle)] at hlt
    exact Nat.lt_irrefl _ hlt
  · exact Nat.lt_of_le_of_lt (weigh_fit_le allowed text)

/-- An allowance that is not used up may be smaller. -/
theorem fit_of_weigh_fit_le {less : ℕ} (h : weigh size (fit size allowed text) ≤ less)
    (hless : less ≤ allowed) : fit size less text = fit size allowed text := by
  induction text generalizing allowed less with
  | nil => simp
  | cons x text ih =>
    by_cases hx : size x ≤ allowed
    · rw [fit_cons_of_le hx, weigh_cons] at h
      have hfits : size x ≤ less := by omega
      have hrest : weigh size (fit size (allowed - size x) text) ≤ less - size x := by omega
      rw [fit_cons_of_le hx, fit_cons_of_le hfits, ih hrest (Nat.sub_le_sub_right hless _)]
    · have hx : allowed < size x := Nat.lt_of_not_le hx
      rw [fit_cons_of_lt hx, fit_cons_of_lt (Nat.lt_of_le_of_lt hless hx)]

/-- The parts of a text are copied like the whole. -/
theorem fit_append : fit size allowed (text ++ more) =
    if weigh size text ≤ allowed then text ++ fit size (allowed - weigh size text) more
    else fit size allowed text := by
  induction text generalizing allowed with
  | nil => simp
  | cons x text ih =>
    by_cases h : size x ≤ allowed
    · rw [List.cons_append, fit_cons_of_le h, fit_cons_of_le h, ih, weigh_cons]
      by_cases hrest : weigh size text ≤ allowed - size x
      · rw [if_pos hrest, if_pos (by omega), List.cons_append, Nat.sub_sub]
      · rw [if_neg hrest, if_neg (by omega)]
    · rw [List.cons_append, fit_cons_of_lt (by omega), fit_cons_of_lt (by omega), if_neg]
      rw [weigh_cons]
      omega

end Fit

/-! ## Fillers -/

variable (filler : β)

/-- Nothing but fillers fits, and as many as there is room for. -/
def Filled : ℕ → List β → Prop
  | allowed, [] => allowed < size filler
  | allowed, x :: text =>
    allowed < size filler ∧ allowed < size x ∨
      x = filler ∧ Filled (allowed - size filler) text

instance decidableFilled [DecidableEq β] :
    ∀ allowed text, Decidable (Filled size filler allowed text)
  | allowed, [] => inferInstanceAs (Decidable (allowed < size filler))
  | allowed, x :: text =>
    have := decidableFilled (allowed - size filler) text
    inferInstanceAs (Decidable (allowed < size filler ∧ allowed < size x ∨
      x = filler ∧ Filled size filler (allowed - size filler) text))

section Fillers

variable {size filler} {allowed less : ℕ} {text other : List β} {x : β}

/-- Where there is no room for a filler, nothing else fits either. -/
theorem filled_iff_of_lt (h : allowed < size filler) :
    Filled size filler allowed text ↔ fit size allowed text = [] := by
  match text with
  | [] => simpa [Filled] using h
  | x :: text =>
    rw [Filled]
    by_cases hx : allowed < size x
    · simp [h, hx, fit_cons_of_lt hx]
    · have hne : x ≠ filler := fun heq ↦ hx (heq ▸ h)
      simp [hx, hne, fit_cons_of_le (Nat.le_of_not_lt hx)]

theorem filled_cons_of_le (h : size filler ≤ allowed) :
    Filled size filler allowed (x :: text) ↔
      x = filler ∧ Filled size filler (allowed - size filler) text := by
  rw [Filled, or_iff_right]
  exact fun hlt ↦ Nat.not_lt_of_le h hlt.1

theorem Filled.mono (h : Filled size filler allowed text) (hless : less ≤ allowed) :
    Filled size filler less text := by
  induction text generalizing allowed less with
  | nil => exact Nat.lt_of_le_of_lt hless h
  | cons x text ih =>
    rcases h with ⟨hfiller, hx⟩ | ⟨rfl, hrest⟩
    · exact Or.inl ⟨Nat.lt_of_le_of_lt hless hfiller, Nat.lt_of_le_of_lt hless hx⟩
    · exact Or.inr ⟨rfl, ih hrest (Nat.sub_le_sub_right hless _)⟩

theorem Filled.fillers (h : Filled size filler allowed text) (n : ℕ) :
    Filled size filler allowed (List.replicate n filler ++ text) := by
  induction n with
  | zero => exact h
  | succ n ih => exact Or.inr ⟨rfl, ih.mono (Nat.sub_le _ _)⟩

/-- All filled texts are copied alike. -/
theorem fit_eq_of_filled (h : Filled size filler allowed text)
    (hother : Filled size filler allowed other) :
    fit size allowed text = fit size allowed other := by
  induction text generalizing allowed other with
  | nil => rw [(filled_iff_of_lt h).mp hother, fit_nil]
  | cons x text ih =>
    by_cases hroom : size filler ≤ allowed
    · match other with
      | [] => exact absurd hother (Nat.not_lt_of_le hroom)
      | y :: other =>
        obtain ⟨rfl, htext⟩ := (filled_cons_of_le hroom).mp h
        obtain ⟨rfl, hrest⟩ := (filled_cons_of_le hroom).mp hother
        rw [fit_cons_of_le hroom, fit_cons_of_le hroom, ih htext hrest]
    · have hroom : allowed < size filler := Nat.lt_of_not_le hroom
      rw [(filled_iff_of_lt hroom).mp h, (filled_iff_of_lt hroom).mp hother]

/-- In front of anything else, fillers that stand for a symbol that is no filler are seen. -/
theorem fit_filler_ne (hx : x ≠ filler) (h : ¬ (allowed < size filler ∧ allowed < size x)) :
    fit size allowed (filler :: other) ≠ fit size allowed (x :: text) := by
  intro heq
  by_cases hroom : size filler ≤ allowed
  · rw [fit_cons_of_le hroom] at heq
    by_cases hfits : size x ≤ allowed
    · rw [fit_cons_of_le hfits] at heq
      exact hx (List.cons.inj heq).1.symm
    · rw [fit_cons_of_lt (Nat.lt_of_not_le hfits)] at heq
      nomatch heq
  · have hfits : size x ≤ allowed :=
      Nat.le_of_not_lt fun hlt ↦ h ⟨Nat.lt_of_not_le hroom, hlt⟩
    rw [fit_cons_of_lt (Nat.lt_of_not_le hroom), fit_cons_of_le hfits] at heq
    nomatch heq

/-- Fillers in front of a text that is not filled are seen. -/
theorem fit_fillers_ne (h : ¬ Filled size filler allowed text) (n : ℕ) :
    fit size allowed (List.replicate (n + 1) filler ++ text) ≠ fit size allowed text := by
  induction text generalizing allowed with
  | nil =>
    rw [List.replicate_succ, List.cons_append, fit_cons_of_le (Nat.le_of_not_lt h), fit_nil]
    exact List.cons_ne_nil _ _
  | cons x text ih =>
    rw [Filled, not_or] at h
    by_cases hx : x = filler
    · obtain rfl := hx
      have hroom : size x ≤ allowed := Nat.le_of_not_lt fun hlt ↦ h.1 ⟨hlt, hlt⟩
      have hrest := ih fun hfilled ↦ h.2 ⟨rfl, hfilled⟩
      have hshift : List.replicate (n + 1) x ++ x :: text =
          x :: (List.replicate (n + 1) x ++ text) := by
        rw [List.append_cons, ← List.replicate_succ', List.replicate_succ, List.cons_append]
      rw [hshift, fit_cons_of_le hroom, fit_cons_of_le hroom]
      exact fun heq ↦ hrest (List.cons.inj heq).2
    · rw [List.replicate_succ, List.cons_append]
      exact fit_filler_ne hx h.1

end Fillers

end Library
