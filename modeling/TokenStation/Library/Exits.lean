import TokenStation.Library.Triple

/-!
# Postconditions of code that may stop early

`Exits P m Q E`: run from a state where `P` holds, the computation `m` either returns a value and a
state with `Q`, or stops with an error and a state with `E`. A sequence is proved with one `E` for
all of its steps, so that a postcondition of every way out is stated once.
-/

namespace Library

variable {σ ε α β : Type}

/-- The postcondition of a computation that returns or stops. -/
def Ends (Q : α → σ → Prop) (E : ε → σ → Prop) : Except ε α → σ → Prop
  | .ok a, s => Q a s
  | .error e, s => E e s

/-- `m` takes every state in `P` to a value with `Q`, or to an error with `E`. -/
def Exits (P : σ → Prop) (m : ExceptT ε (StateM σ) α) (Q : α → σ → Prop)
    (E : ε → σ → Prop) : Prop :=
  Triple P m.run (Ends Q E)

namespace Exits

variable {P P' : σ → Prop} {Q Q' : α → σ → Prop} {E E' : ε → σ → Prop}

theorem pure {a : α} (h : ∀ s, P s → Q a s) :
    Exits P (Pure.pure a : ExceptT ε (StateM σ) α) Q E := h

theorem throw {e : ε} (h : ∀ s, P s → E e s) :
    Exits P (throw e : ExceptT ε (StateM σ) α) Q E := h

theorem bind {m : ExceptT ε (StateM σ) α} {f : α → ExceptT ε (StateM σ) β}
    {R : α → σ → Prop} {Q : β → σ → Prop} (hm : Exits P m R E)
    (hf : ∀ a, Exits (R a) (f a) Q E) : Exits P (m >>= f) Q E := by
  intro s hs
  have hfirst := hm s hs
  change Ends Q E (ExceptT.bindCont f (m.run s).1 (m.run s).2).1
    (ExceptT.bindCont f (m.run s).1 (m.run s).2).2
  rcases hresult : (m.run s).1 with e | a
  · rw [hresult] at hfirst
    exact hfirst
  · rw [hresult] at hfirst
    exact hf a _ hfirst

/-- A computation that does not stop. -/
theorem lift {m : StateM σ α} (h : Triple P m Q) :
    Exits P (liftM m : ExceptT ε (StateM σ) α) Q E := h

/-- A result that does not depend on the state. -/
theorem ofExcept {x : Except ε α} (h : ∀ e s, P s → E e s) :
    Exits P (liftM x : ExceptT ε (StateM σ) α) (fun a s ↦ x = .ok a ∧ P s) E := by
  intro s hs
  change Ends _ E x s
  rcases x with e | a
  · exact h e s hs
  · exact ⟨rfl, hs⟩

/-- The rule of consequence. -/
theorem weaken {m : ExceptT ε (StateM σ) α} (h : Exits P m Q E) (hpre : ∀ s, P' s → P s)
    (hpost : ∀ a s, Q a s → Q' a s) (herror : ∀ e s, E e s → E' e s) : Exits P' m Q' E' := by
  refine Triple.weaken h hpre fun result s hresult ↦ ?_
  rcases result with e | a
  · exact herror e s hresult
  · exact hpost a s hresult

/-- What holds of a run that returned. -/
theorem of_ok {m : ExceptT ε (StateM σ) α} (h : Exits P m Q E) {s s' : σ} {a : α} (hs : P s)
    (hrun : m s = (.ok a, s')) : Q a s' := by
  have hends := h s hs
  change Ends Q E (m s).1 (m s).2 at hends
  rwa [hrun] at hends

/-- What holds of a run that stopped. -/
theorem of_error {m : ExceptT ε (StateM σ) α} (h : Exits P m Q E) {s s' : σ} {e : ε} (hs : P s)
    (hrun : m s = (.error e, s')) : E e s' := by
  have hends := h s hs
  change Ends Q E (m s).1 (m s).2 at hends
  rwa [hrun] at hends

/-- A precondition may carry a fact about values alone. -/
theorem ofAnd {p : Prop} {m : ExceptT ε (StateM σ) α} (h : p → Exits P m Q E) :
    Exits (fun s ↦ p ∧ P s) m Q E :=
  Triple.ofAnd h

theorem ite {c : Prop} [Decidable c] {m n : ExceptT ε (StateM σ) α} (hm : c → Exits P m Q E)
    (hn : ¬ c → Exits P n Q E) : Exits P (if c then m else n) Q E := by
  split
  next hc => exact hm hc
  next hc => exact hn hc

end Exits

/-! ## Runs -/

/-- Whether a run returned, with a value and a state that pass a test. -/
def returned (test : α → σ → Bool) : Except ε α × σ → Bool
  | (.ok a, s) => test a s
  | (.error _, _) => false

/-- Whether a run stopped, with an error and a state that pass a test. -/
def stopped (test : ε → σ → Bool) : Except ε α × σ → Bool
  | (.error e, s) => test e s
  | (.ok _, _) => false

theorem exists_of_returned {test : α → σ → Bool} :
    ∀ {run : Except ε α × σ}, returned test run = true →
      ∃ a s, run = (.ok a, s) ∧ test a s = true
  | (.ok a, s), h => ⟨a, s, rfl, h⟩

theorem exists_of_stopped {test : ε → σ → Bool} :
    ∀ {run : Except ε α × σ}, stopped test run = true →
      ∃ e s, run = (.error e, s) ∧ test e s = true
  | (.error e, s), h => ⟨e, s, rfl, h⟩

/-- A run returns when both of its halves do. -/
theorem run_bind_eq_ok {m : ExceptT ε (StateM σ) α} {f : α → ExceptT ε (StateM σ) β} {s : σ}
    {b : β} : ((m >>= f) s).1 = .ok b ↔ ∃ a, (m s).1 = .ok a ∧ (f a (m s).2).1 = .ok b := by
  change (ExceptT.bindCont f (m s).1 (m s).2).1 = .ok b ↔ _
  rcases hm : (m s).1 with e | a
  · constructor
    · rintro ⟨⟩
    · rintro ⟨_, ⟨⟩, _⟩
  · simp [ExceptT.bindCont]

/-- The same, with the states on the way. -/
theorem run_bind_eq {m : ExceptT ε (StateM σ) α} {f : α → ExceptT ε (StateM σ) β} {s s' : σ}
    {b : β} : (m >>= f) s = (.ok b, s') ↔ ∃ a t, m s = (.ok a, t) ∧ f a t = (.ok b, s') := by
  change ExceptT.bindCont f (m s).1 (m s).2 = (.ok b, s') ↔ _
  obtain ⟨e | a, t⟩ := m s
  · constructor
    · intro h
      nomatch h
    · rintro ⟨a, t', hstop, -⟩
      nomatch hstop
  · constructor
    · intro h
      exact ⟨a, t, rfl, h⟩
    · rintro ⟨a', t', hfirst, h⟩
      obtain ⟨ha, rfl⟩ := Prod.mk.inj hfirst
      obtain rfl := Except.ok.inj ha
      exact h

theorem run_pure_eq {a b : α} {s s' : σ} :
    (Pure.pure a : ExceptT ε (StateM σ) α) s = (.ok b, s') ↔ b = a ∧ s' = s := by
  constructor
  · intro h
    obtain ⟨hvalue, hstate⟩ := Prod.mk.inj h
    exact ⟨(Except.ok.inj hvalue).symm, hstate.symm⟩
  · rintro ⟨rfl, rfl⟩
    rfl

theorem run_get_bind {f : σ → ExceptT ε (StateM σ) β} {s : σ} : (get >>= f) s = f s s := rfl

theorem run_bind_of_ok {m : ExceptT ε (StateM σ) α} {f : α → ExceptT ε (StateM σ) β} {s t : σ}
    {a : α} (h : m s = (.ok a, t)) : (m >>= f) s = f a t := by
  change ExceptT.bindCont f (m s).1 (m s).2 = f a t
  rw [h]
  rfl

/-- A run stops when one of its halves does. -/
theorem run_bind_stops_iff {m : ExceptT ε (StateM σ) α} {f : α → ExceptT ε (StateM σ) β} {s : σ} :
    (∃ e, ((m >>= f) s).1 = .error e) ↔
      (∃ e, (m s).1 = .error e) ∨ ∃ a t, m s = (.ok a, t) ∧ ∃ e, (f a t).1 = .error e := by
  rcases hm : m s with ⟨e | a, t⟩
  · have hrun : (m >>= f) s = (.error e, t) := by
      change ExceptT.bindCont f (m s).1 (m s).2 = _
      rw [hm]
      rfl
    rw [hrun]
    exact iff_of_true ⟨e, rfl⟩ (.inl ⟨e, rfl⟩)
  · rw [run_bind_of_ok hm]
    constructor
    · exact fun h ↦ .inr ⟨a, t, rfl, h⟩
    · rintro (⟨e, h⟩ | ⟨a', t', hsame, h⟩)
      · nomatch h
      · obtain ⟨ha, rfl⟩ := Prod.mk.inj hsame
        obtain rfl := Except.ok.inj ha
        exact h

end Library
