import Mathlib.Data.List.AList
import Mathlib.Data.Nat.Notation
import Mathlib.Tactic.Common

/-!
# Admission

How many exchanges may be under way at once: in all, for each agent and for each provider. Every
level has a counter, which threads change by single atomic operations only. A thread that asks for a
permit loads the counter and then compares and exchanges until it succeeds or meets the limit; it
gives the permit back by one subtraction. `Traffic` interleaves any number of threads in any order.
-/

namespace TokenStation

/-- `Limits`: all are greater than zero in a valid configuration. -/
structure Limits where
  global : UInt32 := 64
  perAgent : UInt32 := 16
  perProvider : UInt32 := 16
  deriving DecidableEq

/-- What a permit is for. -/
inductive Level where
  | global
  | agent (agentId : String)
  | provider (upstream : String)
  deriving DecidableEq

def Limits.of (limits : Limits) : Level → UInt32
  | .global => limits.global
  | .agent _ => limits.perAgent
  | .provider _ => limits.perProvider

/-- The three-level gate. The counter of an agent or a provider is made when it is first asked
for. -/
structure Admission where
  limits : Limits
  global : UInt32 := 0
  agents : AList fun _ : String ↦ UInt32 := ∅
  providers : AList fun _ : String ↦ UInt32 := ∅

namespace Admission

/-- The counter of a level, if it has been made. -/
def counter? (admission : Admission) : Level → Option UInt32
  | .global => some admission.global
  | .agent agentId => admission.agents.lookup agentId
  | .provider upstream => admission.providers.lookup upstream

/-- What a counter reads; nothing is counted before it is made. -/
def count (admission : Admission) (level : Level) : UInt32 := (admission.counter? level).getD 0

/-- Write a counter. -/
def store (admission : Admission) (level : Level) (value : UInt32) : Admission :=
  match level with
  | .global => { admission with global := value }
  | .agent agentId => { admission with agents := admission.agents.insert agentId value }
  | .provider upstream => { admission with providers := admission.providers.insert upstream value }

/-- `counter`: find the counter of a level under the lock, or make it. -/
def findOrMake (admission : Admission) (level : Level) : Admission :=
  match admission.counter? level with
  | some _ => admission
  | none => admission.store level 0

@[simp] theorem limits_store (admission : Admission) (level : Level) (value : UInt32) :
    (admission.store level value).limits = admission.limits := by
  rcases level with _ | _ | _ <;> rfl

@[simp] theorem count_store_self (admission : Admission) (level : Level) (value : UInt32) :
    (admission.store level value).count level = value := by
  rcases level with _ | agentId | upstream
  · rfl
  · exact congrArg (Option.getD · 0) (AList.lookup_insert admission.agents)
  · exact congrArg (Option.getD · 0) (AList.lookup_insert admission.providers)

/-- Levels do not share their counters. -/
theorem count_store_of_ne (admission : Admission) {level other : Level} (h : other ≠ level)
    (value : UInt32) : (admission.store level value).count other = admission.count other := by
  rcases level with _ | agentId | upstream <;> rcases other with _ | other | other
  · exact absurd rfl h
  · rfl
  · rfl
  · rfl
  · have hne : other ≠ agentId := fun heq ↦ h (congrArg Level.agent heq)
    exact congrArg (Option.getD · 0) (AList.lookup_insert_ne hne)
  · rfl
  · rfl
  · rfl
  · have hne : other ≠ upstream := fun heq ↦ h (congrArg Level.provider heq)
    exact congrArg (Option.getD · 0) (AList.lookup_insert_ne hne)

@[simp] theorem limits_findOrMake (admission : Admission) (level : Level) :
    (admission.findOrMake level).limits = admission.limits := by
  rw [findOrMake]
  split
  · rfl
  · exact limits_store admission level 0

/-- A new counter starts where a missing one reads. -/
@[simp] theorem count_findOrMake (admission : Admission) (level other : Level) :
    (admission.findOrMake level).count other = admission.count other := by
  rw [findOrMake]
  split
  · rfl
  next hnone =>
    by_cases heq : other = level
    · subst heq
      rw [count_store_self, count, hnone]
      rfl
    · exact count_store_of_ne admission heq 0

end Admission

/-! ## Threads -/

/-- Where a thread stands that has asked for a permit. -/
inductive Permit where
  /-- `enter_global`, `enter_agent` or `enter_provider` was called. -/
  | asked (level : Level)
  /-- The counter is known. -/
  | found (level : Level)
  /-- The loop of `try_take`, with the value that the thread has seen last. -/
  | seen (level : Level) (current : UInt32)
  | refused (level : Level)
  | held (level : Level)
  | dropped (level : Level)
  deriving DecidableEq

/-- The next atomic operation of a thread. A weak exchange may fail without a reason. -/
def Permit.advance (spurious : Bool) (admission : Admission) : Permit → Permit × Admission
  | asked level => (found level, admission.findOrMake level)
  | found level =>
    if admission.limits.of level = 0 then (refused level, admission)
    else (seen level (admission.count level), admission)
  | seen level current =>
    if admission.limits.of level ≤ current then (refused level, admission)
    else if admission.count level = current ∧ spurious = false then
      (held level, admission.store level (current + 1))
    else (seen level (admission.count level), admission)
  | held level => (dropped level, admission.store level (admission.count level - 1))
  | refused level => (refused level, admission)
  | dropped level => (dropped level, admission)

/-- The gate and all threads that have ever asked. -/
structure Traffic where
  admission : Admission
  permits : List Permit := []

/-- A thread comes, or one of them does its next operation. -/
inductive TrafficStep where
  | ask (level : Level)
  | advance (thread : ℕ) (spurious : Bool)

namespace Traffic

def step (traffic : Traffic) : TrafficStep → Traffic
  | .ask level => { traffic with permits := traffic.permits ++ [.asked level] }
  | .advance thread spurious =>
    match traffic.permits[thread]? with
    | none => traffic
    | some permit =>
      let (permit, admission) := permit.advance spurious traffic.admission
      { admission, permits := traffic.permits.set thread permit }

/-- The state after some steps of any threads in any order. -/
def run (traffic : Traffic) (steps : List TrafficStep) : Traffic := steps.foldl step traffic

/-- How many permits of a level are held. -/
def live (traffic : Traffic) (level : Level) : ℕ := traffic.permits.count (.held level)

end Traffic

/-! ## The counters count -/

/-- What one operation of a thread does to the counters: nothing, or it takes a permit within the
limit, or it gives one back. -/
theorem Permit.advance_cases (spurious : Bool) (admission : Admission) (permit : Permit) :
    let after := permit.advance spurious admission
    after.2.limits = admission.limits ∧
      ((∀ level, permit ≠ .held level ∧ after.1 ≠ .held level ∧
          after.2.count level = admission.count level) ∨
        (∃ level, (∀ other, permit ≠ .held other) ∧ after.1 = .held level ∧
          admission.count level < admission.limits.of level ∧
          after.2 = admission.store level (admission.count level + 1)) ∨
        ∃ level, permit = .held level ∧ (∀ other, after.1 ≠ .held other) ∧
          after.2 = admission.store level (admission.count level - 1)) := by
  rcases permit with level | level | ⟨level, current⟩ | level | level | level
  · exact ⟨admission.limits_findOrMake level,
      Or.inl fun other ↦ ⟨nofun, nofun, admission.count_findOrMake level other⟩⟩
  · rw [advance]
    split_ifs
    · exact ⟨rfl, Or.inl fun other ↦ ⟨nofun, nofun, rfl⟩⟩
    · exact ⟨rfl, Or.inl fun other ↦ ⟨nofun, nofun, rfl⟩⟩
  · rw [advance]
    split_ifs with hfull hsame
    · exact ⟨rfl, Or.inl fun other ↦ ⟨nofun, nofun, rfl⟩⟩
    · -- the exchange succeeds only on the value that was checked against the limit
      obtain ⟨rfl, -⟩ := hsame
      exact ⟨admission.limits_store level _,
        Or.inr (Or.inl ⟨level, nofun, rfl, UInt32.not_le.mp hfull, rfl⟩)⟩
    · exact ⟨rfl, Or.inl fun other ↦ ⟨nofun, nofun, rfl⟩⟩
  · exact ⟨rfl, Or.inl fun other ↦ ⟨nofun, nofun, rfl⟩⟩
  · exact ⟨admission.limits_store level _, Or.inr (Or.inr ⟨level, rfl, nofun, rfl⟩)⟩
  · exact ⟨rfl, Or.inl fun other ↦ ⟨nofun, nofun, rfl⟩⟩

namespace Traffic

/-- The counters count the permits, and stay within their limits. -/
structure Counts (limits : Limits) (traffic : Traffic) : Prop where
  sameLimits : traffic.admission.limits = limits
  counted : ∀ level, (traffic.admission.count level).toNat = traffic.live level
  bounded : ∀ level, traffic.admission.count level ≤ limits.of level

variable {limits : Limits} {traffic : Traffic}

/-- A permit that is held is counted. -/
theorem Counts.pos (h : Counts limits traffic) {thread : ℕ} {level : Level}
    (hheld : traffic.permits[thread]? = some (.held level)) :
    0 < traffic.admission.count level := by
  have hlive : 0 < traffic.live level := List.count_pos_iff.mpr (List.mem_of_getElem? hheld)
  rw [← h.counted] at hlive
  exact hlive

/-- What a thread's new state does to the number of permits. -/
theorem live_set {permits : List Permit} {thread : ℕ} {permit : Permit}
    (h : permits[thread]? = some permit) (after : Permit) (level : Level) :
    (permits.set thread after).count (.held level) + [permit].count (.held level) =
      permits.count (.held level) + [after].count (.held level) := by
  obtain ⟨hlt, rfl⟩ := List.getElem?_eq_some_iff.mp h
  have hpos : permits[thread] = .held level → 0 < permits.count (.held level) :=
    fun heq ↦ List.count_pos_iff.mpr (heq ▸ List.getElem_mem hlt)
  rw [List.count_set hlt, List.count_singleton, List.count_singleton]
  split_ifs <;> simp_all

theorem count_singleton_of_ne {permit other : Permit} (h : permit ≠ other) :
    [permit].count other = 0 := by
  rw [List.count_singleton, if_neg (by simpa using h)]

/-- A thread's operation keeps the count if it changes counter and permit alike. -/
theorem Counts.replace (h : Counts limits traffic) {thread : ℕ} {permit after : Permit}
    {admission : Admission} (hpermit : traffic.permits[thread]? = some permit)
    (hlimits : admission.limits = traffic.admission.limits)
    (hcount : ∀ level, (admission.count level).toNat + [permit].count (.held level) =
      (traffic.admission.count level).toNat + [after].count (.held level))
    (hbounded : ∀ level, admission.count level ≤ limits.of level) :
    Counts limits { admission, permits := traffic.permits.set thread after } := by
  refine ⟨hlimits.trans h.sameLimits, fun level ↦ ?_, hbounded⟩
  have hset := live_set hpermit after level
  have hcounted := h.counted level
  have hlevel := hcount level
  rw [live] at hcounted
  change (admission.count level).toNat = (traffic.permits.set thread after).count (.held level)
  omega

theorem Counts.step (h : Counts limits traffic) (next : TrafficStep) :
    Counts limits (traffic.step next) := by
  rcases next with level | ⟨thread, spurious⟩
  · refine ⟨h.sameLimits, fun other ↦ (h.counted other).trans ?_, h.bounded⟩
    have hasked : [Permit.asked level].count (.held other) = 0 := count_singleton_of_ne nofun
    rw [live, live, Traffic.step, List.count_append, hasked, Nat.add_zero]
  rw [Traffic.step]
  split
  · exact h
  next permit hpermit =>
    obtain ⟨hlimits, hcases⟩ := permit.advance_cases spurious traffic.admission
    rcases hadvance : permit.advance spurious traffic.admission with ⟨after, admission⟩
    rw [hadvance] at hlimits hcases
    have hone : (1 : UInt32).toNat = 1 := rfl
    rcases hcases with hsame | ⟨level, hfree, hafter, hlt, hstore⟩ | ⟨level, hheld, hfree, hstore⟩
    · refine h.replace hpermit hlimits (fun other ↦ ?_) fun other ↦ ?_
      · obtain ⟨hpermit, hafter, hcount⟩ := hsame other
        rw [count_singleton_of_ne hpermit, count_singleton_of_ne hafter, hcount]
      · exact (hsame other).2.2 ▸ h.bounded other
    · -- below the limit there is room for one more in the word
      have hnat := UInt32.lt_iff_toNat_lt.mp hlt
      have hword := (traffic.admission.limits.of level).toNat_lt
      have hsucc : (traffic.admission.count level + 1).toNat =
          (traffic.admission.count level).toNat + 1 := by
        rw [UInt32.toNat_add, hone, Nat.mod_eq_of_lt (by omega)]
      obtain rfl : after = .held level := hafter
      obtain rfl : admission = _ := hstore
      refine h.replace hpermit hlimits (fun other ↦ ?_) fun other ↦ ?_
      · rw [count_singleton_of_ne (hfree other)]
        by_cases heq : other = level
        · subst heq
          rw [Admission.count_store_self, hsucc, List.count_singleton_self]
        · rw [Admission.count_store_of_ne _ heq,
            count_singleton_of_ne fun hheld ↦ heq (Permit.held.inj hheld).symm]
      · by_cases heq : other = level
        · subst heq
          rw [Admission.count_store_self, UInt32.le_iff_toNat_le, hsucc, ← h.sameLimits]
          exact hnat
        · rw [Admission.count_store_of_ne _ heq]
          exact h.bounded other
    · obtain rfl : permit = .held level := hheld
      obtain rfl : admission = _ := hstore
      have hpos := UInt32.lt_iff_toNat_lt.mp (h.pos hpermit)
      have hpred : (traffic.admission.count level - 1).toNat =
          (traffic.admission.count level).toNat - 1 :=
        UInt32.toNat_sub_of_le _ _ (UInt32.le_iff_toNat_le.mpr hpos)
      refine h.replace hpermit hlimits (fun other ↦ ?_) fun other ↦ ?_
      · rw [count_singleton_of_ne (hfree other)]
        by_cases heq : other = level
        · subst heq
          rw [Admission.count_store_self, hpred, List.count_singleton_self]
          exact Nat.sub_add_cancel hpos
        · rw [Admission.count_store_of_ne _ heq,
            count_singleton_of_ne fun hheld ↦ heq (Permit.held.inj hheld).symm]
      · by_cases heq : other = level
        · subst heq
          rw [Admission.count_store_self, UInt32.le_iff_toNat_le, hpred]
          exact Nat.le_trans (Nat.sub_le _ _) (UInt32.le_iff_toNat_le.mp (h.bounded other))
        · rw [Admission.count_store_of_ne _ heq]
          exact h.bounded other

/-- The counters count the permits after any steps of any threads. -/
theorem Counts.run (h : Counts limits traffic) (steps : List TrafficStep) :
    Counts limits (traffic.run steps) := by
  induction steps generalizing traffic with
  | nil => exact h
  | cons next steps ih => exact ih (h.step next)

/-- When every permit has been given back, all counters read zero. -/
theorem Counts.idle (h : Counts limits traffic)
    (hidle : ∀ level, .held level ∉ traffic.permits) (level : Level) :
    traffic.admission.count level = 0 := by
  have hcounted := h.counted level
  rw [live, List.count_eq_zero.mpr (hidle level)] at hcounted
  exact UInt32.toNat_inj.mp hcounted

end Traffic

end TokenStation
