import Mathlib.Tactic.Common

/-!
# Calls that return, fail, or panic

`Outcome ε α` is what a call of a partial, fallible function can come to: a value, an error the
caller may handle, or a panic that unwinds through every caller. Keeping the panic apart from the
error is what lets "this assertion never fires" be a theorem about a definition.

Validation code is a chain of `Except` steps that stop at the first error, so the inversion lemmas
for such chains are here as well.
-/

namespace Library

/-- The outcome of a call. -/
inductive Outcome (ε α : Type*) where
  | ok (value : α)
  | err (error : ε)
  | panic
  deriving DecidableEq, Repr

namespace Outcome

variable {ε α β : Type*}

/-- Sequencing: errors and panics stop the caller too. -/
def bind (x : Outcome ε α) (f : α → Outcome ε β) : Outcome ε β :=
  match x with
  | ok value => f value
  | err error => err error
  | panic => panic

/-- The value of a call that neither fails nor panics. -/
def get (x : Outcome Empty α) (h : x ≠ panic) : α :=
  match x with
  | ok value => value
  | panic => absurd rfl h

@[simp] theorem ok_bind (a : α) (f : α → Outcome ε β) : (ok a).bind f = f a := rfl

theorem bind_eq_ok {x : Outcome ε α} {f : α → Outcome ε β} {value : β} :
    x.bind f = ok value ↔ ∃ a, x = ok a ∧ f a = ok value := by
  cases x <;> simp [bind]

end Outcome

/-! ## Chains of checks -/

section Checks

variable {ε α β : Type}

/-- A check that refuses with `error` unless `condition` holds. -/
def ensure (condition : Prop) [Decidable condition] (error : ε) : Except ε Unit :=
  if condition then .ok () else .error error

@[simp] theorem ensure_eq_ok {condition : Prop} [Decidable condition] {error : ε} :
    ensure condition error = .ok () ↔ condition := by
  rw [ensure]
  split <;> simp_all

/-- A chain returns a value when every step of it does. -/
theorem except_bind_eq_ok {x : Except ε α} {f : α → Except ε β} {value : β} :
    x >>= f = .ok value ↔ ∃ a, x = .ok a ∧ f a = .ok value := by
  cases x <;> simp [Bind.bind, Except.bind]

/-- A chain fails where its first step fails, or after it. -/
theorem except_bind_eq_error {x : Except ε α} {f : α → Except ε β} {error : ε} :
    x >>= f = .error error ↔ x = .error error ∨ ∃ a, x = .ok a ∧ f a = .error error := by
  cases x <;> simp [Bind.bind, Except.bind]

/-- A fold fails at the first step that fails. -/
theorem foldlM_eq_error {step : β → α → Except ε β} {start : β} {l : List α} {error : ε} :
    l.foldlM step start = .error error ↔ ∃ before a after, l = before ++ a :: after ∧
      ∃ state, before.foldlM step start = .ok state ∧ step state a = .error error := by
  induction l generalizing start with
  | nil =>
    constructor
    · exact nofun
    · rintro ⟨before, a, after, hl, -⟩
      exact absurd hl.symm (List.append_ne_nil_of_right_ne_nil before (List.cons_ne_nil a after))
  | cons first l ih =>
    rw [List.foldlM_cons, except_bind_eq_error]
    constructor
    · rintro (hfirst | ⟨state, hfirst, hrest⟩)
      · exact ⟨[], first, l, rfl, start, rfl, hfirst⟩
      · obtain ⟨before, a, after, rfl, last, hbefore, ha⟩ := ih.mp hrest
        refine ⟨first :: before, a, after, rfl, last, ?_, ha⟩
        rw [List.foldlM_cons, hfirst]
        exact hbefore
    · rintro ⟨before, a, after, hl, last, hbefore, ha⟩
      cases before with
      | nil =>
        obtain ⟨rfl, -⟩ := List.cons.inj hl
        cases hbefore
        exact Or.inl ha
      | cons other before =>
        obtain ⟨rfl, rfl⟩ := List.cons.inj hl
        rw [List.foldlM_cons, except_bind_eq_ok] at hbefore
        obtain ⟨state, hfirst, hrest⟩ := hbefore
        exact Or.inr ⟨state, hfirst, ih.mpr ⟨before, a, after, rfl, last, hrest, ha⟩⟩

theorem except_map_eq_ok {x : Except ε α} {f : α → β} {value : β} :
    f <$> x = .ok value ↔ ∃ a, x = .ok a ∧ f a = value := by
  cases x <;> simp [Functor.map, Except.map]

theorem except_map_eq_error {x : Except ε α} {f : α → β} {error : ε} :
    f <$> x = .error error ↔ x = .error error := by
  cases x <;> simp [Functor.map, Except.map]

/-- A check followed by the rest of the chain passes when both do. -/
@[simp] theorem except_seq_eq_ok {x : Except ε Unit} {y : Except ε β} {value : β} :
    (do x; y) = .ok value ↔ x = .ok () ∧ y = .ok value := by
  cases x <;> simp [Bind.bind, Except.bind]

/-- Run a check on every member, in order, stopping at the first error. -/
def forEach (check : α → Except ε Unit) : List α → Except ε Unit
  | [] => .ok ()
  | a :: rest => do
    check a
    forEach check rest

theorem forEach_eq_ok {check : α → Except ε Unit} {l : List α} :
    forEach check l = .ok () ↔ ∀ a ∈ l, check a = .ok () := by
  induction l with
  | nil => simp [forEach]
  | cons a rest ih => simp [forEach, ih]

end Checks

end Library
