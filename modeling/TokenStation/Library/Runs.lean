import Mathlib.Data.List.DropRight

/-!
# Runs of a machine

A machine reads a list of steps. What holds after every step is proved along the prefixes of the
list, where the last step of a prefix is one of the list's own.
-/

namespace Library

variable {σ ε : Type*} (next : σ → ε → σ) (start : σ)

/-- The state after a list of steps. -/
def runSteps (steps : List ε) : σ := steps.foldl next start

@[simp] theorem runSteps_nil : runSteps next start [] = start := rfl

theorem runSteps_concat (steps : List ε) (step : ε) :
    runSteps next start (steps ++ [step]) = next (runSteps next start steps) step := by
  rw [runSteps, List.foldl_append]
  rfl

/-- What holds at the start, and is kept by every step of a list, holds after every prefix of it. -/
theorem prefix_induction {steps : List ε} {motive : List ε → Prop} (nil : motive [])
    (snoc : ∀ before step, before ++ [step] <+: steps → motive before →
      motive (before ++ [step])) {before : List ε} (h : before <+: steps) : motive before := by
  induction before using List.reverseRecOn with
  | nil => exact nil
  | append_singleton before step ih =>
    exact snoc before step h (ih ((List.prefix_append _ _).trans h))

end Library
