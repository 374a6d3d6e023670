import Mathlib.Data.List.Infix
import Mathlib.Tactic.Common

/-!
# Runs of a machine whose steps may be impossible

A machine refuses a step that cannot be taken where it is. `Reaches` is a run of possible steps.
`Along` states a property of every step that a list of steps takes, with the states before and after
it; what is kept by every step with the property holds at the end of a run along which the property
holds.
-/

namespace Library

variable {σ ε : Type*}

/-- The machine gets from the start to the state by the steps, each possible where it is taken. -/
inductive Reaches (next : σ → ε → Option σ) (start : σ) : List ε → σ → Prop where
  | nil : Reaches next start [] start
  | snoc {steps : List ε} {s s' : σ} {step : ε} (h : Reaches next start steps s)
      (hstep : next s step = some s') : Reaches next start (steps ++ [step]) s'

/-- Every step that a run by the list takes has the property. -/
def Along (next : σ → ε → Option σ) (start : σ) (P : σ → ε → σ → Prop) (steps : List ε) : Prop :=
  ∀ before step s s', before ++ [step] <+: steps → Reaches next start before s →
    next s step = some s' → P s step s'

variable {next : σ → ε → Option σ} {start s : σ} {steps : List ε} {P : σ → ε → σ → Prop}

theorem Along.along_before {before : List ε} (h : Along next start P steps)
    (hbefore : before <+: steps) : Along next start P before :=
  fun earlier step s s' hearlier ↦ h earlier step s s' (hearlier.trans hbefore)

/-- A run that can be computed. -/
theorem reaches_of_foldlM (h : steps.foldlM next start = some s) : Reaches next start steps s := by
  induction steps using List.reverseRecOn generalizing s with
  | nil =>
    obtain rfl := Option.some.inj h
    exact .nil
  | append_singleton steps step ih =>
    rw [List.foldlM_append, Option.bind_eq_bind, Option.bind_eq_some_iff] at h
    obtain ⟨before, hbefore, hstep⟩ := h
    exact (ih hbefore).snoc (by simpa using hstep)

/-- What holds at the start, and is kept by every step with a property, holds at the end of a run
along which the property holds. -/
theorem Reaches.invariant_along {I : σ → Prop} (h : Reaches next start steps s) (hstart : I start)
    (halong : Along next start P steps)
    (hstep : ∀ s step s', I s → P s step s' → next s step = some s' → I s') : I s := by
  induction h with
  | nil => exact hstart
  | snoc h hnext ih =>
    refine hstep _ _ _ (ih (halong.along_before (List.prefix_append _ _))) ?_ hnext
    exact halong _ _ _ _ (List.prefix_refl _) h hnext

/-- What holds at the start, and is kept by every step, holds at the end of a run. -/
theorem Reaches.invariant {I : σ → Prop} (h : Reaches next start steps s) (hstart : I start)
    (hstep : ∀ s step s', I s → next s step = some s' → I s') : I s :=
  h.invariant_along (P := fun _ _ _ ↦ True) hstart (fun _ _ _ _ _ _ _ ↦ trivial)
    fun s step s' hs _ hnext ↦ hstep s step s' hs hnext

end Library
