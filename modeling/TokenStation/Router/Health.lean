import TokenStation.Router.Route

/-!
# The health tracker

The tracker keeps, for each upstream and model, either a count of consecutive countable failures or
the instant at which an ejection expires. That is a summary of the calls made so far, and
`health_trace` says of what: it states every observable of the tracker in terms of the trace of
calls, for every trace and every key.

A trace lists the calls newest first. Instants and durations are natural numbers in one unit; no
result needs the timestamps of a trace to be monotone.
-/

namespace TokenStation

/-- When an upstream is taken out of rotation, and for how long. -/
structure HealthPolicy where
  ejectAfter : ℕ := 3
  cooldown : ℕ := 30000
  deriving DecidableEq, Repr

/-- An upstream and the wire model on it. -/
abbrev HealthKey := UpstreamRef × String

inductive HealthState where
  /-- Counting toward ejection. -/
  | counting (consecutive : ℕ)
  /-- Out of rotation until the instant passes; probation afterwards. -/
  | ejected (expiry : ℕ)
  deriving DecidableEq, Repr

structure HealthTracker where
  policy : HealthPolicy
  states : AList fun _ : HealthKey ↦ HealthState := ∅

/-- Failures that say the upstream is unwell. -/
def countsTowardEjection : ErrorCode → Bool
  | .timeout | .upstreamUnavailable | .transportTruncated | .providerProtocolError
  | .capacity => true
  | _ => false

namespace HealthTracker

def new (policy : HealthPolicy) : HealthTracker := { policy }

/-- The upstream's model answered. -/
def observeSuccess (tracker : HealthTracker) (key : HealthKey) : HealthTracker :=
  { tracker with states := tracker.states.erase key }

/-- The end of `observe_failure`: eject, or keep counting. -/
def recordFailure (tracker : HealthTracker) (key : HealthKey) (consecutive now : ℕ) :
    HealthTracker × Bool :=
  if consecutive ≥ tracker.policy.ejectAfter then
    ({ tracker with
        states := tracker.states.insert key (.ejected (now + tracker.policy.cooldown)) }, true)
  else ({ tracker with states := tracker.states.insert key (.counting consecutive) }, false)

/-- The upstream's model failed with `code`; `true` when this observation ejected it. -/
def observeFailure (tracker : HealthTracker) (key : HealthKey) (code : ErrorCode) (now : ℕ) :
    HealthTracker × Bool :=
  if !countsTowardEjection code then (tracker, false)
  else match tracker.states.lookup key with
    | some (.counting consecutive) => tracker.recordFailure key (consecutive + 1) now
    | some (.ejected expiry) =>
      -- a failed probe re-ejects at once; failures while ejected change nothing
      if now ≥ expiry then tracker.recordFailure key tracker.policy.ejectAfter now
      else (tracker, false)
    | none => tracker.recordFailure key 1 now

/-- The health the router should see, as of `now`. -/
def healthOf (tracker : HealthTracker) (key : HealthKey) (now : ℕ) : Health :=
  match tracker.states.lookup key with
  | none | some (.counting _) => .healthy
  | some (.ejected expiry) => if now < expiry then .unavailable else .degraded

end HealthTracker

/-! ## Traces -/

/-- One call on a tracker. -/
inductive HealthEvent where
  | success (key : HealthKey)
  | failure (key : HealthKey) (code : ErrorCode) (now : ℕ)

namespace HealthEvent

def key : HealthEvent → HealthKey
  | success key | failure key _ _ => key

def apply (tracker : HealthTracker) : HealthEvent → HealthTracker
  | success key => tracker.observeSuccess key
  | failure key code now => (tracker.observeFailure key code now).1

end HealthEvent

/-- The tracker after a trace of calls, newest first. -/
def HealthTracker.run (policy : HealthPolicy) : List HealthEvent → HealthTracker
  | [] => new policy
  | event :: past => event.apply (run policy past)

/-- A failure reported after `past` ejects its key: the call says so. -/
def Ejects (policy : HealthPolicy) (past : List HealthEvent) (key : HealthKey) (code : ErrorCode)
    (now : ℕ) : Prop :=
  ((HealthTracker.run policy past).observeFailure key code now).2 = true

instance (policy : HealthPolicy) (past : List HealthEvent) (key : HealthKey) (code : ErrorCode)
    (now : ℕ) : Decidable (Ejects policy past key code now) :=
  inferInstanceAs (Decidable (_ = true))

/-- The countable failures of a key since its last success, or since the start. -/
def countedFailures (key : HealthKey) : List HealthEvent → ℕ
  | [] => 0
  | .success other :: past => if other = key then 0 else countedFailures key past
  | .failure other code _ :: past =>
    if other = key ∧ countsTowardEjection code = true then countedFailures key past + 1
    else countedFailures key past

/-- The last ejection of a key was at `t`: a failure that ejected it, with neither a success nor
another ejection of the key since. -/
def LastEjection (policy : HealthPolicy) (trace : List HealthEvent) (key : HealthKey) (t : ℕ) :
    Prop :=
  ∃ later code past, trace = later ++ .failure key code t :: past ∧ Ejects policy past key code t ∧
    .success key ∉ later ∧
    ∀ later' code' now past', later = later' ++ .failure key code' now :: past' →
      ¬ Ejects policy (past' ++ .failure key code t :: past) key code' now

/-- The last ejection, by recursion on the trace. -/
def lastEjection (policy : HealthPolicy) (key : HealthKey) : List HealthEvent → Option ℕ
  | [] => none
  | .success other :: past => if other = key then none else lastEjection policy key past
  | .failure other code now :: past =>
    if other = key ∧ Ejects policy past other code now then some now
    else lastEjection policy key past

section LastEjection

variable {policy : HealthPolicy} {key : HealthKey} {past : List HealthEvent} {t : ℕ}

private theorem lastEjection_success {other : HealthKey} :
    LastEjection policy (.success other :: past) key t ↔
      other ≠ key ∧ LastEjection policy past key t := by
  constructor
  · rintro ⟨later, code, past', heq, hejects, hsuccess, hlast⟩
    rcases List.cons_eq_append_iff.mp heq with ⟨-, h⟩ | ⟨later', rfl, rfl⟩
    · cases h
    · refine ⟨fun h ↦ hsuccess (h ▸ List.mem_cons_self), later', code, past', rfl, hejects,
        fun h ↦ hsuccess (List.mem_cons_of_mem _ h), fun l c n p h ↦ ?_⟩
      exact hlast (.success other :: l) c n p (by rw [h, List.cons_append])
  · rintro ⟨hne, later, code, past', rfl, hejects, hsuccess, hlast⟩
    refine ⟨.success other :: later, code, past', rfl, hejects, ?_, fun l c n p h ↦ ?_⟩
    · rw [List.mem_cons, not_or]
      exact ⟨fun h ↦ hne (by cases h; rfl), hsuccess⟩
    · rcases List.cons_eq_append_iff.mp h with ⟨-, h⟩ | ⟨l', rfl, rfl⟩
      · cases h
      · exact hlast l' c n p rfl

private theorem lastEjection_failure {other : HealthKey} {code : ErrorCode} {now : ℕ} :
    LastEjection policy (.failure other code now :: past) key t ↔
      (other = key ∧ Ejects policy past other code now) ∧ now = t ∨
        ¬ (other = key ∧ Ejects policy past other code now) ∧ LastEjection policy past key t := by
  constructor
  · rintro ⟨later, code', past', heq, hejects, hsuccess, hlast⟩
    rcases List.cons_eq_append_iff.mp heq with ⟨-, h⟩ | ⟨later', rfl, rfl⟩
    · cases h
      exact Or.inl ⟨⟨rfl, hejects⟩, rfl⟩
    · refine Or.inr ⟨?_, later', code', past', rfl, hejects,
        fun h ↦ hsuccess (List.mem_cons_of_mem _ h), fun l c n p h ↦ ?_⟩
      · rintro ⟨rfl, h⟩
        exact hlast [] code now later' rfl h
      · exact hlast (.failure other code now :: l) c n p (by rw [h, List.cons_append])
  · rintro (⟨⟨rfl, hejects⟩, rfl⟩ | ⟨hnot, later, code', past', rfl, hejects, hsuccess, hlast⟩)
    · exact ⟨[], code, past, rfl, hejects, List.not_mem_nil, fun l c n p h ↦ by simp at h⟩
    · refine ⟨.failure other code now :: later, code', past', rfl, hejects, ?_,
        fun l c n p h ↦ ?_⟩
      · rw [List.mem_cons, not_or]
        exact ⟨nofun, hsuccess⟩
      · rcases List.cons_eq_append_iff.mp h with ⟨rfl, h⟩ | ⟨l', rfl, rfl⟩
        · cases h
          exact fun h ↦ hnot ⟨rfl, h⟩
        · exact hlast l' c n p rfl

/-- The recursion finds the last ejection. -/
theorem lastEjection_eq_some {trace : List HealthEvent} :
    lastEjection policy key trace = some t ↔ LastEjection policy trace key t := by
  induction trace with
  | nil => simp [lastEjection, LastEjection]
  | cons event past ih =>
    rcases event with other | ⟨other, code, now⟩
    · rw [lastEjection, lastEjection_success, ← ih]
      split
      next h => simp [h]
      next h => simp [h]
    · rw [lastEjection, lastEjection_failure, ← ih]
      split
      next h => simp [h, h.1 ▸ h.2]
      next h => simp [h]

end LastEjection

/-! ## What the state remembers -/

/-- The state of a key is the right summary of the trace. -/
inductive Remembers (policy : HealthPolicy) (key : HealthKey) (trace : List HealthEvent) :
    Option HealthState → Prop
  | fresh (hlast : lastEjection policy key trace = none) (hcount : countedFailures key trace = 0) :
      Remembers policy key trace none
  | counting (hlast : lastEjection policy key trace = none)
      (hpos : 0 < countedFailures key trace)
      (hlt : countedFailures key trace < policy.ejectAfter) :
      Remembers policy key trace (some (.counting (countedFailures key trace)))
  | ejected (t : ℕ) (hlast : lastEjection policy key trace = some t)
      (hle : policy.ejectAfter ≤ countedFailures key trace) :
      Remembers policy key trace (some (.ejected (t + policy.cooldown)))

namespace HealthTracker

variable {policy : HealthPolicy} {key : HealthKey} {tracker : HealthTracker}

@[simp] theorem recordFailure_policy (consecutive now : ℕ) :
    (tracker.recordFailure key consecutive now).1.policy = tracker.policy := by
  rw [recordFailure]
  split <;> rfl

@[simp] theorem observeFailure_policy (code : ErrorCode) (now : ℕ) :
    (tracker.observeFailure key code now).1.policy = tracker.policy := by
  rw [observeFailure]
  split
  · rfl
  · split
    · exact recordFailure_policy _ _
    · split
      · exact recordFailure_policy _ _
      · rfl
    · exact recordFailure_policy _ _

@[simp] theorem run_policy (trace : List HealthEvent) : (run policy trace).policy = policy := by
  induction trace with
  | nil => rfl
  | cons event past ih =>
    rcases event with other | ⟨other, code, now⟩
    · exact ih
    · rw [run, HealthEvent.apply, observeFailure_policy, ih]

/-- Failures that do not count change nothing. -/
theorem observeFailure_uncounted {code : ErrorCode} (hcode : countsTowardEjection code = false)
    (now : ℕ) : tracker.observeFailure key code now = (tracker, false) := by
  rw [observeFailure, hcode]
  rfl

/-- Failures while ejected change nothing. -/
theorem observeFailure_ejected {expiry now : ℕ}
    (hstate : tracker.states.lookup key = some (.ejected expiry)) (hnow : now < expiry)
    (code : ErrorCode) : tracker.observeFailure key code now = (tracker, false) := by
  rw [observeFailure, hstate]
  simp only [ge_iff_le, not_le.mpr hnow, if_false, ite_self]

section Counted

variable {code : ErrorCode} (hcode : countsTowardEjection code = true)
include hcode

theorem observeFailure_fresh (hstate : tracker.states.lookup key = none) (now : ℕ) :
    tracker.observeFailure key code now = tracker.recordFailure key 1 now := by
  rw [observeFailure, hcode, hstate]
  rfl

theorem observeFailure_counting {consecutive : ℕ}
    (hstate : tracker.states.lookup key = some (.counting consecutive)) (now : ℕ) :
    tracker.observeFailure key code now = tracker.recordFailure key (consecutive + 1) now := by
  rw [observeFailure, hcode, hstate]
  rfl

/-- A failed probe re-ejects at once. -/
theorem observeFailure_probe {expiry now : ℕ}
    (hstate : tracker.states.lookup key = some (.ejected expiry)) (hnow : expiry ≤ now) :
    tracker.observeFailure key code now =
      tracker.recordFailure key tracker.policy.ejectAfter now := by
  rw [observeFailure, hcode, hstate]
  simp [hnow]

end Counted

theorem recordFailure_lookup_of_ne {other : HealthKey} (hne : key ≠ other) (consecutive now : ℕ) :
    (tracker.recordFailure other consecutive now).1.states.lookup key =
      tracker.states.lookup key := by
  rw [recordFailure]
  split <;> exact AList.lookup_insert_ne hne

/-- A call on one key never changes another key. -/
theorem apply_lookup_of_ne {event : HealthEvent} (hne : key ≠ event.key) :
    (event.apply tracker).states.lookup key = tracker.states.lookup key := by
  rcases event with other | ⟨other, code, now⟩
  · exact AList.lookup_erase_ne hne
  · rw [HealthEvent.apply, observeFailure]
    split
    · rfl
    · split
      · exact recordFailure_lookup_of_ne hne _ _
      · split
        · exact recordFailure_lookup_of_ne hne _ _
        · rfl
      · exact recordFailure_lookup_of_ne hne _ _

/-- A counted failure ejects exactly when it reaches the bound. -/
theorem recordFailure_ejects {consecutive now : ℕ} :
    (tracker.recordFailure key consecutive now).2 = true ↔
      tracker.policy.ejectAfter ≤ consecutive := by
  rw [recordFailure]
  split <;> simp_all

theorem recordFailure_lookup_self (consecutive now : ℕ) :
    (tracker.recordFailure key consecutive now).1.states.lookup key =
      if tracker.policy.ejectAfter ≤ consecutive then
        some (.ejected (now + tracker.policy.cooldown))
      else some (.counting consecutive) := by
  rw [recordFailure]
  split <;> exact AList.lookup_insert _

/-! ### The invariant -/

/-- An event that touches neither summary of the trace keeps the state right. -/
theorem remembers_skip {past : List HealthEvent} {event : HealthEvent}
    {state : Option HealthState} (h : Remembers policy key past state)
    (hlast : lastEjection policy key (event :: past) = lastEjection policy key past)
    (hcount : countedFailures key (event :: past) = countedFailures key past) :
    Remembers policy key (event :: past) state := by
  cases h with
  | fresh hl hc => exact .fresh (hlast.trans hl) (hcount.trans hc)
  | counting hl hpos hlt =>
    rw [← hcount] at hpos hlt ⊢
    exact .counting (hlast.trans hl) hpos hlt
  | ejected t hl hle => exact .ejected t (hlast.trans hl) (hcount ▸ hle)

/-- The end of a counted failure of the key leaves the right summary: it counts one more, or it was
a probe after an ejection. -/
theorem remembers_record {past : List HealthEvent} {code : ErrorCode} {now consecutive : ℕ}
    (hcode : countsTowardEjection code = true)
    (hcall : (run policy past).observeFailure key code now =
      (run policy past).recordFailure key consecutive now)
    (hconsecutive : consecutive = countedFailures key past + 1 ∧
        lastEjection policy key past = none ∨
      consecutive = policy.ejectAfter ∧ policy.ejectAfter ≤ countedFailures key past + 1) :
    Remembers policy key (.failure key code now :: past)
      ((run policy (.failure key code now :: past)).states.lookup key) := by
  have hcount : countedFailures key (.failure key code now :: past) =
      countedFailures key past + 1 := by
    rw [countedFailures, if_pos ⟨rfl, hcode⟩]
  have hejects : Ejects policy past key code now ↔ policy.ejectAfter ≤ consecutive := by
    rw [Ejects, hcall, recordFailure_ejects, run_policy]
  rw [run, HealthEvent.apply, hcall, recordFailure_lookup_self, run_policy]
  by_cases hle : policy.ejectAfter ≤ consecutive
  · rw [if_pos hle]
    refine .ejected now ?_ (by omega)
    rw [lastEjection, if_pos ⟨rfl, hejects.mpr hle⟩]
  · obtain ⟨rfl, hnone⟩ := hconsecutive.resolve_right fun h ↦ hle h.1.ge
    rw [if_neg hle, ← hcount]
    refine .counting ?_ (by omega) (by omega)
    rw [lastEjection, if_neg fun h ↦ hle (hejects.mp h.2), hnone]

/-- **Step.** A counted failure of the key, from each state the key can be in. -/
theorem remembers_failure {past : List HealthEvent} {code : ErrorCode}
    (hcode : countsTowardEjection code = true) (now : ℕ)
    (h : Remembers policy key past ((run policy past).states.lookup key)) :
    Remembers policy key (.failure key code now :: past)
      ((run policy (.failure key code now :: past)).states.lookup key) := by
  generalize hstate : (run policy past).states.lookup key = state at h
  cases h with
  | fresh hlast hcount =>
    have hone : 1 = countedFailures key past + 1 := by rw [hcount]
    exact remembers_record hcode (observeFailure_fresh hcode hstate now) (Or.inl ⟨hone, hlast⟩)
  | counting hlast hpos hlt =>
    exact remembers_record hcode (observeFailure_counting hcode hstate now)
      (Or.inl ⟨rfl, hlast⟩)
  | ejected t hlast hle =>
    by_cases hnow : t + policy.cooldown ≤ now
    · have hbound : (run policy past).policy.ejectAfter = policy.ejectAfter := by rw [run_policy]
      have hpast : policy.ejectAfter ≤ countedFailures key past + 1 := Nat.le_succ_of_le hle
      exact remembers_record hcode (observeFailure_probe hcode hstate hnow)
        (Or.inr ⟨hbound, hpast⟩)
    · -- a straggler during the cooldown changes nothing, and the count is past the bound
      have hcall := observeFailure_ejected hstate (not_le.mp hnow) code
      rw [run, HealthEvent.apply, hcall, hstate]
      refine .ejected t ?_ ?_
      · rw [lastEjection, if_neg (by simp [Ejects, hcall]), hlast]
      · rw [countedFailures, if_pos ⟨rfl, hcode⟩]
        exact Nat.le_succ_of_le hle

/-- **Step.** A call on another key. -/
theorem remembers_other {past : List HealthEvent} {event : HealthEvent} (hkey : key ≠ event.key)
    (h : Remembers policy key past ((run policy past).states.lookup key)) :
    Remembers policy key (event :: past) ((run policy (event :: past)).states.lookup key) := by
  rw [run, apply_lookup_of_ne hkey]
  refine remembers_skip h ?_ ?_
  · rcases event with other | ⟨other, code, now⟩
    · rw [lastEjection, if_neg fun h ↦ hkey h.symm]
    · rw [lastEjection, if_neg fun h ↦ hkey h.1.symm]
  · rcases event with other | ⟨other, code, now⟩
    · rw [countedFailures, if_neg fun h ↦ hkey h.symm]
    · rw [countedFailures, if_neg fun h ↦ hkey h.1.symm]

/-- **The state is the right summary of the trace**, for every trace and every key. -/
theorem remembers_run (policy : HealthPolicy) (trace : List HealthEvent) (key : HealthKey) :
    Remembers policy key trace ((run policy trace).states.lookup key) := by
  induction trace with
  | nil => exact .fresh rfl rfl
  | cons event past ih =>
    by_cases hkey : key = event.key
    · rcases event with other | ⟨other, code, now⟩
      · obtain rfl : key = other := hkey
        rw [run, HealthEvent.apply, observeSuccess, AList.lookup_erase]
        exact .fresh (by rw [lastEjection, if_pos rfl]) (by rw [countedFailures, if_pos rfl])
      · obtain rfl : key = other := hkey
        by_cases hcode : countsTowardEjection code = true
        · exact remembers_failure hcode now ih
        · rw [Bool.not_eq_true] at hcode
          rw [run, HealthEvent.apply, observeFailure_uncounted hcode]
          refine remembers_skip ih ?_ ?_
          · rw [lastEjection, if_neg (by simp [Ejects, observeFailure_uncounted hcode])]
          · rw [countedFailures, if_neg (by simp [hcode])]
    · exact remembers_other hkey ih

/-! ## The trace specification -/

/-- When a failure ejects, read off the invariant. -/
theorem ejects_iff (heject : 1 ≤ policy.ejectAfter) {trace : List HealthEvent} {code : ErrorCode}
    {now : ℕ} :
    Ejects policy trace key code now ↔ countsTowardEjection code = true ∧
      (countedFailures key trace + 1 = policy.ejectAfter ∨
        ∃ t, lastEjection policy key trace = some t ∧ t + policy.cooldown ≤ now) := by
  by_cases hcode : countsTowardEjection code = true
  · rw [Ejects, and_iff_right hcode]
    have hremembers := remembers_run policy trace key
    generalize hstate : (run policy trace).states.lookup key = state at hremembers
    cases hremembers with
    | fresh hlast hcount =>
      rw [observeFailure_fresh hcode hstate, recordFailure_ejects, run_policy, hlast, hcount]
      simp
      omega
    | counting hlast hpos hlt =>
      rw [observeFailure_counting hcode hstate, recordFailure_ejects, run_policy, hlast]
      simp
      omega
    | ejected t hlast hle =>
      rw [hlast]
      by_cases hnow : t + policy.cooldown ≤ now
      · rw [observeFailure_probe hcode hstate hnow, recordFailure_ejects, run_policy]
        exact iff_of_true le_rfl (Or.inr ⟨t, rfl, hnow⟩)
      · rw [observeFailure_ejected hstate (not_le.mp hnow)]
        refine iff_of_false Bool.false_ne_true ?_
        rintro (h | ⟨t', ht', hnow'⟩)
        · omega
        · exact hnow (Option.some.inj ht' ▸ hnow')
  · rw [Bool.not_eq_true] at hcode
    simp [Ejects, observeFailure_uncounted hcode, hcode]

/-- What the router sees, read off the invariant. -/
theorem healthOf_run (trace : List HealthEvent) (key : HealthKey) (now : ℕ) :
    (run policy trace).healthOf key now = match lastEjection policy key trace with
      | none => .healthy
      | some t => if now < t + policy.cooldown then .unavailable else .degraded := by
  have hremembers := remembers_run policy trace key
  rw [healthOf]
  generalize (run policy trace).states.lookup key = state at hremembers
  cases hremembers with
  | fresh hlast => rw [hlast]
  | counting hlast => rw [hlast]
  | ejected t hlast => rw [hlast]

/-- **The health tracker.** After any trace of calls, for any key: what `healthOf` answers, when a
failure ejects, what leaves the tracker as it is, and that other keys keep their state. -/
theorem health_trace (policy : HealthPolicy) (heject : 1 ≤ policy.ejectAfter)
    (trace : List HealthEvent) (key : HealthKey) :
    (∀ now,
      ((run policy trace).healthOf key now = .unavailable ↔
        ∃ t, LastEjection policy trace key t ∧ now < t + policy.cooldown) ∧
      ((run policy trace).healthOf key now = .degraded ↔
        ∃ t, LastEjection policy trace key t ∧ t + policy.cooldown ≤ now) ∧
      ((run policy trace).healthOf key now = .healthy ↔
        ¬ ∃ t, LastEjection policy trace key t)) ∧
    (∀ code now, Ejects policy trace key code now ↔ countsTowardEjection code = true ∧
      (countedFailures key trace + 1 = policy.ejectAfter ∨
        ∃ t, LastEjection policy trace key t ∧ t + policy.cooldown ≤ now)) ∧
    (∀ code now t, LastEjection policy trace key t → now < t + policy.cooldown →
      (run policy trace).observeFailure key code now = (run policy trace, false)) ∧
    (∀ code now, countsTowardEjection code = false →
      (run policy trace).observeFailure key code now = (run policy trace, false)) ∧
    ∀ event : HealthEvent, key ≠ event.key →
      (run policy (event :: trace)).states.lookup key = (run policy trace).states.lookup key := by
  simp only [← lastEjection_eq_some]
  refine ⟨fun now ↦ ?_, fun code now ↦ ejects_iff heject, fun code now t ht hnow ↦ ?_,
    fun code now hcode ↦ observeFailure_uncounted hcode now, fun event hne ↦ ?_⟩
  · rw [healthOf_run]
    rcases lastEjection policy key trace with - | t
    · simp
    · by_cases h : now < t + policy.cooldown
      · simp [h]
      · simp [h, not_lt.mp h]
  · have hremembers := remembers_run policy trace key
    generalize hstate : (run policy trace).states.lookup key = state at hremembers
    cases hremembers with
    | fresh hlast => rw [ht] at hlast; cases hlast
    | counting hlast => rw [ht] at hlast; cases hlast
    | ejected t' hlast =>
      rw [ht] at hlast
      obtain rfl := Option.some.inj hlast
      exact observeFailure_ejected hstate hnow code
  · rw [run, apply_lookup_of_ne hne]

/-- Under the default policy, the third countable failure in a row ejects. -/
theorem health_trace_third_failure :
    Ejects {} [.failure (cloudModel.upstream, "m") .timeout 1,
      .failure (cloudModel.upstream, "m") .capacity 0] (cloudModel.upstream, "m") .timeout 2 :=
  ((health_trace {} (by decide) _ _).2.1 .timeout 2).mpr ⟨rfl, Or.inl rfl⟩

end HealthTracker

end TokenStation
