import TokenStation.Library.Exits

/-!
# Programs whose steps can fail

A program reads and changes a state. Each of its calls to the outside takes a fate: it succeeds, it
fails, or it succeeds and is the last one before a crash. Past the end of the list of fates every
call succeeds. A program can handle an error; a crash stops it.

`Runs allowed p m q e`: where only allowed fates occur, `m` takes a state with `p` to a value and a
state with `q`, or stops in a state with `e`.
-/

namespace Library

/-- What becomes of a call. -/
inductive Fate where
  | succeeds
  | fails (error : String)
  | crashes
  deriving DecidableEq

/-- The error the call reports, if any. -/
def Fate.error : Fate → Option String
  | fails error => some error
  | succeeds | crashes => none

/-- Why a program stopped. -/
inductive Stop (ε : Type) where
  | failed (error : ε)
  | crashed
  deriving DecidableEq

structure Scheduled (σ : Type) where
  state : σ
  fates : List Fate := []

abbrev Program (σ ε α : Type) : Type := ExceptT (Stop ε) (StateM (Scheduled σ)) α

variable {σ ε α β : Type}

namespace Program

def read : Program σ ε σ := fun s ↦ (.ok s.state, s)

def update (change : σ → σ) : Program σ ε Unit :=
  fun s ↦ (.ok (), { s with state := change s.state })

def fail (error : ε) : Program σ ε α := throw (.failed error)

/-- A result that the program has computed. -/
def ofResult : Except ε α → Program σ ε α
  | .ok a => pure a
  | .error error => fail error

/-- The fate of the next call. -/
def fate : Program σ ε Fate := fun s ↦
  match s.fates with
  | [] => (.ok .succeeds, s)
  | fate :: rest => (.ok fate, { s with fates := rest })

/-- A call: what it does is given by the error it reports. -/
def call (run : Option String → σ → Except ε α × σ) : Program σ ε α := do
  let fate ← fate
  let state ← read
  update fun _ ↦ (run fate.error state).2
  if fate = .crashes then throw .crashed else ofResult (run fate.error state).1

/-- A program whose error is handled by the caller. -/
def attempt (m : Program σ ε α) : Program σ ε (Except ε α) := fun s ↦
  match m s with
  | (.ok a, s) => (.ok (.ok a), s)
  | (.error (.failed error), s) => (.ok (.error error), s)
  | (.error .crashed, s) => (.error .crashed, s)

end Program

/-! ## Rules -/

/-- Only allowed fates are left. -/
def Under (allowed : Fate → Prop) (p : σ → Prop) (s : Scheduled σ) : Prop :=
  (∀ fate ∈ s.fates, allowed fate) ∧ p s.state

def Runs (allowed : Fate → Prop) (p : σ → Prop) (m : Program σ ε α) (q : α → σ → Prop)
    (e : Stop ε → σ → Prop) : Prop :=
  Exits (Under allowed p) m (fun a ↦ Under allowed (q a)) fun stop ↦ Under allowed (e stop)

/-- What a handled program leaves. -/
def Handled (q : α → σ → Prop) (e : Stop ε → σ → Prop) : Except ε α → σ → Prop
  | .ok a => q a
  | .error error => e (.failed error)

namespace Runs

open Program

variable {allowed : Fate → Prop} {p p' : σ → Prop} {q q' : α → σ → Prop}
  {e e' : Stop ε → σ → Prop}

theorem pure {a : α} (h : ∀ s, p s → q a s) : Runs allowed p (Pure.pure a) q e :=
  Exits.pure fun s hs ↦ ⟨hs.1, h s.state hs.2⟩

theorem bind {m : Program σ ε α} {f : α → Program σ ε β} {r : α → σ → Prop} {q : β → σ → Prop}
    (hm : Runs allowed p m r e) (hf : ∀ a, Runs allowed (r a) (f a) q e) :
    Runs allowed p (m >>= f) q e :=
  Exits.bind hm hf

/-- The rule of consequence. -/
theorem weaken {m : Program σ ε α} (h : Runs allowed p m q e) (hpre : ∀ s, p' s → p s)
    (hpost : ∀ a s, q a s → q' a s) (hstop : ∀ stop s, e stop s → e' stop s) :
    Runs allowed p' m q' e' :=
  Exits.weaken h (fun s hs ↦ ⟨hs.1, hpre s.state hs.2⟩) (fun a s hs ↦ ⟨hs.1, hpost a s.state hs.2⟩)
    fun stop s hs ↦ ⟨hs.1, hstop stop s.state hs.2⟩

/-- A precondition may carry a fact about values alone. -/
theorem ofAnd {r : Prop} {m : Program σ ε α} (h : r → Runs allowed p m q e) :
    Runs allowed (fun s ↦ r ∧ p s) m q e :=
  fun s hs ↦ h hs.2.1 s ⟨hs.1, hs.2.2⟩

/-- A program is proved from each state of its precondition. -/
theorem each {m : Program σ ε α} (h : ∀ s, p s → Runs allowed (fun now ↦ now = s) m q e) :
    Runs allowed p m q e :=
  fun s hs ↦ h s.state hs.2 s ⟨hs.1, rfl⟩

theorem ite {c : Prop} [Decidable c] {m n : Program σ ε α} (hm : c → Runs allowed p m q e)
    (hn : ¬ c → Runs allowed p n q e) : Runs allowed p (if c then m else n) q e :=
  Exits.ite hm hn

/-- Reading the state; what follows may depend on it. -/
theorem read_bind {f : σ → Program σ ε β} {q : β → σ → Prop}
    (h : ∀ s, p s → Runs allowed (fun now ↦ now = s) (f s) q e) :
    Runs allowed p (read >>= f) q e :=
  fun s hs ↦ h s.state hs.2 s ⟨hs.1, rfl⟩

theorem update {change : σ → σ} {q : Unit → σ → Prop} (h : ∀ s, p s → q () (change s)) :
    Runs allowed p (Program.update change) q e :=
  fun s hs ↦ ⟨hs.1, h s.state hs.2⟩

theorem fail {error : ε} (h : ∀ s, p s → e (.failed error) s) :
    Runs allowed p (Program.fail error) q e :=
  Exits.throw fun s hs ↦ ⟨hs.1, h s.state hs.2⟩

theorem crash (h : ∀ s, p s → e .crashed s) :
    Runs allowed p (throw .crashed) q e :=
  Exits.throw fun s hs ↦ ⟨hs.1, h s.state hs.2⟩

theorem ofResult {result : Except ε α} (hok : ∀ a, result = .ok a → ∀ s, p s → q a s)
    (herror : ∀ error, result = .error error → ∀ s, p s → e (.failed error) s) :
    Runs allowed p (Program.ofResult result) q e := by
  rcases result with error | a
  · exact fail (herror error rfl)
  · exact pure (hok a rfl)

/-- What is left of the fates is still allowed. -/
theorem fate : Runs allowed p (fate (ε := ε)) (fun next s ↦ (next = .succeeds ∨ allowed next) ∧ p s)
    e := by
  intro s hs
  obtain ⟨state, fates⟩ := s
  rcases fates with - | ⟨next, rest⟩
  · exact ⟨hs.1, .inl rfl, hs.2⟩
  · exact ⟨fun other hother ↦ hs.1 other (List.mem_cons_of_mem _ hother),
      .inr (hs.1 next List.mem_cons_self), hs.2⟩

/-- A call ends as its effect says; a crash loses its result. -/
theorem call {run : Option String → σ → Except ε α × σ}
    (hends : ∀ s fault, p s → (∀ error, fault = some error → allowed (.fails error)) →
      Ends q (fun error ↦ e (.failed error)) (run fault s).1 (run fault s).2)
    (hcrash : allowed .crashes → ∀ s, p s → e .crashed (run none s).2) :
    Runs allowed p (call run) q e := by
  refine bind fate fun next ↦ ?_
  refine ofAnd fun hnext ↦ read_bind fun s hs ↦ ?_
  refine bind (r := fun _ now ↦ now = (run next.error s).2) (update fun _ _ ↦ rfl) fun _ ↦ ?_
  refine ite (fun hlast ↦ crash fun now hnow ↦ ?_) fun hnot ↦ ?_
  · -- the call was the last one
    subst hlast
    rw [hnow]
    exact hcrash (hnext.resolve_left (by decide)) s hs
  · have hrun := hends s next.error hs fun error herror ↦ by
      rcases next with _ | error' | _
      · nomatch herror
      · obtain rfl := Option.some.inj herror
        exact hnext.resolve_left (by simp)
      · nomatch herror
    refine ofResult (fun a ha now hnow ↦ ?_) fun error herror now hnow ↦ ?_
    · rw [ha] at hrun
      rw [hnow]
      exact hrun
    · rw [herror] at hrun
      rw [hnow]
      exact hrun

/-- A handled program does not fail. -/
theorem attempt {m : Program σ ε α} (h : Runs allowed p m q e) :
    Runs allowed p (attempt m) (Handled q e) fun stop s ↦ stop = .crashed ∧ e stop s := by
  intro s hs
  have hends := h s hs
  change Ends _ _ (m s).1 (m s).2 at hends
  change Ends _ _ (Program.attempt m s).1 (Program.attempt m s).2
  unfold Program.attempt
  rcases hrun : m s with ⟨(error | -) | a, after⟩
  · rw [hrun] at hends
    exact hends
  · rw [hrun] at hends
    exact ⟨hends.1, rfl, hends.2⟩
  · rw [hrun] at hends
    exact hends

/-- A handled program, with what follows it. -/
theorem attempt_bind {m : Program σ ε α} {f : Except ε α → Program σ ε β} {Q : β → σ → Prop}
    {E : Stop ε → σ → Prop} (hm : Runs allowed p m q e)
    (hok : ∀ a, Runs allowed (q a) (f (.ok a)) Q E)
    (herror : ∀ error, Runs allowed (e (.failed error)) (f (.error error)) Q E)
    (hcrash : ∀ s, e .crashed s → E .crashed s) :
    Runs allowed p (Program.attempt m >>= f) Q E := by
  refine bind (hm.attempt.weaken (fun _ h ↦ h) (fun _ _ h ↦ h) ?_) fun result ↦ ?_
  · rintro stop s ⟨rfl, h⟩
    exact hcrash s h
  · rcases result with error | a
    · exact herror error
    · exact hok a

/-- What the precondition says to exist may be named. -/
theorem ofExists {ι : Sort*} {r : ι → σ → Prop} {m : Program σ ε α}
    (h : ∀ i, Runs allowed (r i) m q e) : Runs allowed (fun s ↦ ∃ i, r i s) m q e := by
  rintro s ⟨hfates, i, hs⟩
  exact h i s ⟨hfates, hs⟩

/-- How a run ends. -/
theorem ends {m : Program σ ε α} (h : Runs allowed p m q e) {s : σ} {fates : List Fate} (hs : p s)
    (hfates : ∀ fate ∈ fates, allowed fate) :
    Ends (fun a now ↦ q a now.state) (fun stop now ↦ e stop now.state) (m ⟨s, fates⟩).1
      (m ⟨s, fates⟩).2 := by
  have hends := h ⟨s, fates⟩ ⟨hfates, hs⟩
  change Ends _ _ (m ⟨s, fates⟩).1 (m ⟨s, fates⟩).2 at hends
  rcases hresult : (m ⟨s, fates⟩).1 with stop | a
  · rw [hresult] at hends
    exact hends.2
  · rw [hresult] at hends
    exact hends.2

/-- What is known of a run that returned is known of its result. -/
theorem of_ok {m : Program σ ε α} (h : Runs allowed p m q e) {s : σ} {fates : List Fate}
    (hs : p s) (hfates : ∀ fate ∈ fates, allowed fate) {a : α} (hrun : (m ⟨s, fates⟩).1 = .ok a) :
    q a (m ⟨s, fates⟩).2.state :=
  (Exits.of_ok (s := ⟨s, fates⟩) h ⟨hfates, hs⟩ (Prod.ext hrun rfl)).2

end Runs

/-! ## Invariants -/

/-- Every way out of the program keeps the invariant. -/
def Maintains (allowed : Fate → Prop) (I : σ → Prop) (m : Program σ ε α) : Prop :=
  Runs allowed I m (fun _ ↦ I) fun _ ↦ I

namespace Maintains

open Program

variable {allowed : Fate → Prop} {I : σ → Prop}

theorem pure {a : α} : Maintains (ε := ε) allowed I (Pure.pure a) := Runs.pure fun _ h ↦ h

theorem fail {error : ε} : Maintains (α := α) allowed I (Program.fail error) :=
  Runs.fail fun _ h ↦ h

theorem ofResult {result : Except ε α} : Maintains allowed I (Program.ofResult result) :=
  Runs.ofResult (fun _ _ _ h ↦ h) fun _ _ _ h ↦ h

theorem bind {m : Program σ ε α} {f : α → Program σ ε β} (hm : Maintains allowed I m)
    (hf : ∀ a, Maintains allowed I (f a)) : Maintains allowed I (m >>= f) :=
  Runs.bind hm hf

theorem ite {c : Prop} [Decidable c] {m n : Program σ ε α} (hm : Maintains allowed I m)
    (hn : Maintains allowed I n) : Maintains allowed I (if c then m else n) :=
  Runs.ite (fun _ ↦ hm) fun _ ↦ hn

theorem read_bind {f : σ → Program σ ε β} (h : ∀ s, I s → Maintains allowed I (f s)) :
    Maintains allowed I (read >>= f) :=
  Runs.read_bind fun s hs ↦
    Runs.weaken (h s hs) (fun _ hnow ↦ hnow ▸ hs) (fun _ _ h ↦ h) fun _ _ h ↦ h

theorem update {change : σ → σ} (h : ∀ s, I s → I (change s)) :
    Maintains (ε := ε) allowed I (Program.update change) :=
  Runs.update h

theorem call {run : Option String → σ → Except ε α × σ}
    (h : ∀ fault s, I s → I (run fault s).2) : Maintains allowed I (Program.call run) := by
  refine Runs.call (fun s fault hs _ ↦ ?_) fun _ s hs ↦ h none s hs
  have hafter := h fault s hs
  rcases (run fault s).1 with error | a
  · exact hafter
  · exact hafter

theorem attempt {m : Program σ ε α} (hm : Maintains allowed I m) :
    Maintains allowed I (Program.attempt m) := by
  refine Runs.weaken (Runs.attempt hm) (fun _ h ↦ h) (fun result s h ↦ ?_) fun _ _ h ↦ h.2
  rcases result with error | a
  · exact h
  · exact h

end Maintains

/-! ## Runs in which no call fails -/

/-- No call fails. -/
abbrev Calm : Fate → Prop := fun _ ↦ False

/-- What holds of a program that returns, if no call fails. -/
abbrev Yields (p : σ → Prop) (m : Program σ ε α) (q : α → σ → Prop) : Prop :=
  Runs Calm p m q fun _ _ ↦ True

/-- The state a program leaves when no call fails. -/
def calmState (m : Program σ ε α) (s : σ) : σ := (m ⟨s, []⟩).2.state

namespace Yields

open Program

variable {p : σ → Prop} {q q' : α → σ → Prop}

theorem call {run : Option String → σ → Except ε α × σ}
    (h : ∀ s a, p s → (run none s).1 = .ok a → q a (run none s).2) :
    Yields p (Program.call run) q := by
  refine Runs.call (fun s fault hs hfault ↦ ?_) fun h ↦ h.elim
  rcases fault with - | error
  · rcases hresult : (run none s).1 with error | a
    · trivial
    · exact h s a hs hresult
  · exact (hfault error rfl).elim

theorem of_maintains {I : σ → Prop} {m : Program σ ε α} (h : Maintains Calm I m) :
    Yields I m fun _ ↦ I :=
  Runs.weaken h (fun _ h ↦ h) (fun _ _ h ↦ h) fun _ _ _ ↦ trivial

/-- A program whose last step fails does not return. -/
theorem fails {m : Program σ ε α} {error : ε} (h : Maintains Calm (fun _ ↦ True) m) :
    Yields (fun _ ↦ True) (m >>= fun _ ↦ Program.fail (α := β) error) fun _ _ ↦ False :=
  Runs.bind (of_maintains h) fun _ ↦ Runs.fail fun _ _ ↦ trivial

/-- A handled program whose handler does not return. -/
theorem attempt_bind {m : Program σ ε α} {f : Except ε α → Program σ ε β} {Q : β → σ → Prop}
    (hm : Yields p m q) (hok : ∀ a, Yields (q a) (f (.ok a)) Q)
    (herror : ∀ error, Yields (fun _ ↦ True) (f (.error error)) fun _ _ ↦ False) :
    Yields p (Program.attempt m >>= f) Q :=
  Runs.attempt_bind hm hok
    (fun error ↦ Runs.weaken (herror error) (fun _ h ↦ h) (fun _ _ h ↦ h.elim) fun _ _ h ↦ h)
    fun _ h ↦ h

/-- What another proof has shown of the same program holds as well. -/
theorem and {allowed : Fate → Prop} {e : Stop ε → σ → Prop} {m : Program σ ε α}
    (h : Yields p m q) (h' : Runs allowed p m q' e) : Yields p m fun a s ↦ q a s ∧ q' a s := by
  intro s hs
  have hends := h s hs
  have hends' := h' s ⟨fun fate hfate ↦ (hs.1 fate hfate).elim, hs.2⟩
  rcases hrun : m.run s with ⟨stop | a, after⟩
  · rw [hrun] at hends
    exact hends
  · rw [hrun] at hends hends'
    exact ⟨hends.1, hends.2, hends'.2⟩

/-- The state a program leaves is the one it leaves from the same state. -/
theorem leaves {m : Program σ ε α} {before : σ} (h : Yields (fun s ↦ s = before) m q) :
    Yields (fun s ↦ s = before) m fun a s ↦ q a s ∧ s = calmState m before := by
  rintro ⟨s, fates⟩ hs
  have hends := h ⟨s, fates⟩ hs
  obtain ⟨hfates, rfl⟩ := hs
  obtain rfl := List.eq_nil_iff_forall_not_mem.mpr hfates
  rcases hrun : m.run ⟨s, []⟩ with ⟨stop | a, after⟩
  · rw [hrun] at hends
    exact hends
  · rw [hrun] at hends
    refine ⟨hends.1, hends.2, ?_⟩
    rw [calmState]
    exact (congrArg (fun result ↦ result.2.state) hrun).symm

end Yields

-- a triple is used through its rules; unfolding it would run the program
attribute [irreducible] Runs

end Library
