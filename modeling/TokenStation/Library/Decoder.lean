import Mathlib.Data.List.Basic
import Mathlib.Tactic.Common

/-!
# Incremental decoding

A reader turns a stream into symbols while the stream still arrives. What follows the last complete
symbol is either the beginning of one, and kept for the next piece, or the beginning of none, and
then no further piece can make it one: the longest prefix that decodes is known.
-/

namespace Library

variable {α β : Type*}

/-- How a symbol is read off the front of a stream, and what may still become one. -/
structure Decoder (α β : Type*) where
  /-- The first symbol, and its length. -/
  first : List α → Option (β × ℕ)
  /-- Whether a stream is a proper beginning of a symbol. -/
  unfinished : List α → Bool
  bounded : ∀ {b x n}, first b = some (x, n) → 0 < n ∧ n ≤ b.length
  stable : ∀ {b p} c, first b = some p → first (b ++ c) = some p
  /-- What is no symbol and becomes one is unfinished. -/
  prompt : ∀ {b c p}, b ≠ [] → first b = none → first (b ++ c) = some p → unfinished b = true
  /-- A beginning of a beginning is one. -/
  prefix_closed : ∀ {b c}, b ≠ [] → unfinished (b ++ c) = true → unfinished b = true
  waiting : ∀ {b}, unfinished b = true → first b = none

namespace Decoder

variable (D : Decoder α β)

/-- The symbols of a stream, and what follows the last of them. -/
def decode (b : List α) : List β × List α :=
  match _h : D.first b with
  | none => ([], b)
  | some (x, n) =>
    let (more, rest) := decode (b.drop n)
    (x :: more, rest)
termination_by b.length
decreasing_by
  obtain ⟨hpos, hle⟩ := D.bounded _h
  rw [List.length_drop]
  omega

/-- Whether a stream is all symbols, but for a beginning of one at its end. -/
def Clean (b : List α) : Prop := (D.decode b).2 = [] ∨ D.unfinished (D.decode b).2 = true

instance (b : List α) [DecidableEq α] : Decidable (D.Clean b) :=
  inferInstanceAs (Decidable (_ ∨ _))

variable {D} {b c : List α}

@[simp] theorem first_nil : D.first [] = none := by
  rcases h : D.first [] with - | ⟨x, n⟩
  · rfl
  · have hle := D.bounded h
    rw [List.length_nil] at hle
    omega

theorem decode_of_none (h : D.first b = none) : D.decode b = ([], b) := by
  rw [decode]
  split
  next => rfl
  next h' => rw [h] at h'; nomatch h'

theorem decode_of_some {x : β} {n : ℕ} (h : D.first b = some (x, n)) :
    D.decode b = (x :: (D.decode (b.drop n)).1, (D.decode (b.drop n)).2) := by
  rw [decode]
  split
  next h' => rw [h] at h'; nomatch h'
  next x' n' h' =>
    obtain ⟨rfl, rfl⟩ := Prod.mk.inj (Option.some.inj (h.symm.trans h'))
    rfl

@[simp] theorem decode_nil : D.decode [] = ([], []) := decode_of_none first_nil

/-- Induction along the symbols of a stream. -/
theorem decode_induction {motive : List α → Prop} (rest : ∀ b, D.first b = none → motive b)
    (symbol : ∀ b x n, D.first b = some (x, n) → motive (b.drop n) → motive b) (b : List α) :
    motive b := by
  induction hlen : b.length using Nat.strongRecOn generalizing b with
  | _ m ih =>
    rcases hb : D.first b with - | ⟨x, n⟩
    · exact rest b hb
    · obtain ⟨hpos, hle⟩ := D.bounded hb
      refine symbol b x n hb (ih _ ?_ _ rfl)
      rw [List.length_drop]
      omega

@[simp] theorem first_rest (b : List α) : D.first (D.decode b).2 = none := by
  induction b using D.decode_induction with
  | rest b hb => rw [decode_of_none hb]; exact hb
  | symbol b x n hb ih => rw [decode_of_some hb]; exact ih

/-- What was left over is read on with the next piece. -/
theorem decode_append (b c : List α) :
    D.decode (b ++ c) = ((D.decode b).1 ++ (D.decode ((D.decode b).2 ++ c)).1,
      (D.decode ((D.decode b).2 ++ c)).2) := by
  induction b using D.decode_induction with
  | rest b hb => rw [decode_of_none hb, List.nil_append]
  | symbol b x n hb ih =>
    rw [decode_of_some (D.stable c hb), List.drop_append_of_le_length (D.bounded hb).2,
      decode_of_some hb, ih, List.cons_append]

/-- A stream is not clean when what is left over can never become a symbol. -/
theorem decode_append_of_not_clean (h : ¬ D.Clean b) :
    D.decode (b ++ c) = ((D.decode b).1, (D.decode b).2 ++ c) := by
  rw [Clean, not_or] at h
  have hnone : D.first ((D.decode b).2 ++ c) = none := by
    rcases hfirst : D.first ((D.decode b).2 ++ c) with - | p
    · rfl
    · exact absurd (D.prompt h.1 (first_rest b) hfirst) h.2
  rw [decode_append, decode_of_none hnone, List.append_nil]

theorem not_clean_append (h : ¬ D.Clean b) : ¬ D.Clean (b ++ c) := by
  have hdecode := decode_append_of_not_clean (c := c) h
  rw [Clean, not_or] at h ⊢
  rw [hdecode]
  exact ⟨List.append_ne_nil_of_left_ne_nil h.1 c, mt (D.prefix_closed h.1) h.2⟩

/-- What comes before the end of a clean stream is clean. -/
theorem Clean.of_append (h : D.Clean (b ++ c)) : D.Clean b :=
  not_imp_not.mp not_clean_append h

/-- With what was left over in front, the next piece is as clean as the whole stream. -/
theorem clean_rest_append : D.Clean ((D.decode b).2 ++ c) ↔ D.Clean (b ++ c) := by
  rw [Clean, Clean, decode_append b c]

end Decoder

end Library
