import TokenStation.Gateway.DispatchRun

/-!
# The books of a dispatch agree

A dispatch keeps several ledgers at once: receipts, the attempt counter, leases, settlements and
health observations. Each of them is a projection of the events of a run, and each of them follows
the calls.
-/

namespace TokenStation

open Library

/-! ## Ledgers as projections -/

namespace Event

def call? : Event → Option (ℕ × UpstreamModel)
  | called ordinal target => some (ordinal, target)
  | _ => none

def grant? : Event → Option ℕ
  | granted ordinal _ => some ordinal
  | _ => none

def settlement? : Event → Option (UpstreamRef × String)
  | settled upstream receiptId _ _ => some (upstream, receiptId)
  | _ => none

def observation? : Event → Option UpstreamModel
  | observed target _ => some target
  | _ => none

/-- Whether the lease discipline looks at this event. -/
def isOfLease : Event → Bool
  | granted _ _ | released _ | waited _ => true
  | _ => false

/-- Whether only a call leaves this event behind. -/
def isOfCall : Event → Bool
  | granted _ _ | called _ _ | settled _ _ _ _ => true
  | _ => false

end Event

def calls (events : List Event) : List (ℕ × UpstreamModel) := events.filterMap Event.call?

/-- The attempts that were granted a lease. -/
def grants (events : List Event) : List ℕ := events.filterMap Event.grant?

def settledReceipts (events : List Event) : List (UpstreamRef × String) :=
  events.filterMap Event.settlement?

/-- The targets whose failures health has been told of. -/
def observations (events : List Event) : List UpstreamModel := events.filterMap Event.observation?

/-- At most one lease is held at a time: none when another is taken, none during a wait, none at the
end, and only the one that is held is given back. -/
def LeaseDiscipline : Option LeaseId → List Event → Prop
  | held, [] => held = none
  | held, .granted _ lease :: events => held = none ∧ LeaseDiscipline (some lease) events
  | held, .released lease :: events => held = some lease ∧ LeaseDiscipline none events
  | held, .waited _ :: events => held = none ∧ LeaseDiscipline none events
  | held, _ :: events => LeaseDiscipline held events

/-- The visit of a target that was refused is the visit and the refusal. -/
def SkipsSilently (events : List Event) : Prop :=
  ∀ before target after, events = before ++ .refused target :: after →
    (∃ earlier, before = earlier ++ [.visited target]) ∧
      ∀ next ∈ after.head?, ∃ target, next = .visited target

/-- What a dispatch over `targets` has done to the ledgers, from the record before it to the record
after it. -/
structure Bookkeeping (targets : List UpstreamModel) (before after : RequestRecord)
    (events : List Event) : Prop where
  calls_le : (calls events).length ≤ min maxAttempts targets.length
  ordinals : (calls events).map Prod.fst = List.range' 1 (calls events).length
  in_target_order : ((calls events).map Prod.snd).Sublist targets
  receipts : ∃ receipts : List AttemptRecord,
    after.attemptRecords = before.attemptRecords ++ receipts ∧
      receipts.map (fun receipt ↦ (receipt.ordinal, receipt.target)) = calls events
  /-- A request that was just begun has counted no attempt. -/
  attempts : after.attempts = if calls events = [] then before.attempts else (calls events).length
  grants_eq : grants events = (calls events).map Prod.fst
  leases_released : LeaseDiscipline none events
  settledReceipts_eq : settledReceipts events = (calls events).map fun call ↦
    (call.2.upstream, s!"{before.requestId}:attempt:{call.1}")
  receiptIds_nodup : ((settledReceipts events).map Prod.snd).Nodup
  observations_sublist : (observations events).Sublist ((calls events).map Prod.snd)
  skips : SkipsSilently events

/-! ## Projections of a run -/

section Run

variable {Post : AttemptResult → List (Reply × Bool) → Prop} {requestId : String} {started : ℕ}
  {targets : List UpstreamModel} {records : List AttemptRecord} {events : List Event}
  {result : DispatchResult}

/-- What a projection sees of an attempt if replies and image observations are not its business. -/
theorem AttemptTrace.filterMap_events {ordinal : ℕ} {target : UpstreamModel} {β : Type}
    {f : Event → Option β} (attempt : AttemptTrace Post ordinal target)
    (hemitted : ∀ reply accepted, f (.emitted reply accepted) = none)
    (himage : ∀ state, f (.imageObserved target state) = none) :
    (attempt.events requestId).filterMap f =
      [.granted ordinal attempt.lease, .called ordinal target,
        .settled target.upstream s!"{requestId}:attempt:{ordinal}" attempt.usage
          (isComplete attempt.result)].filterMap f := by
  have hreplies : (emissions attempt.replies).filterMap f = [] := by
    rw [emissions, List.filterMap_map, List.filterMap_eq_nil_iff]
    exact fun reply _ ↦ hemitted reply.1 reply.2
  have himages : (attempt.imageState.toList.map (Event.imageObserved target)).filterMap f = [] := by
    rw [List.filterMap_map, List.filterMap_eq_nil_iff]
    exact fun state _ ↦ himage state
  rw [AttemptTrace.events, AttemptTrace.callEvents, ← List.singleton_append, List.filterMap_append,
    List.filterMap_append, List.filterMap_append, List.filterMap_append, hreplies, himages,
    List.append_nil, List.append_nil, ← List.filterMap_append, ← List.filterMap_append]
  rfl

/-- A ledger that gets one entry from each call, and nothing else, follows the receipts. -/
theorem Run.filterMap_eq {β : Type} {f : Event → Option β} (entry : ℕ → UpstreamModel → β)
    (h : Run requestId Post started targets records events result)
    (hquiet : ∀ event : Event, event.isOfCall = false → f event = none)
    (hentry : ∀ ordinal (target : UpstreamModel) lease usage completed,
      [.granted ordinal lease, .called ordinal target,
        .settled target.upstream s!"{requestId}:attempt:{ordinal}" usage completed].filterMap f =
      [entry ordinal target]) :
    events.filterMap f = records.map fun record ↦ entry record.ordinal record.target := by
  have hattempt : ∀ {ordinal target} (attempt : AttemptTrace Post ordinal target),
      (attempt.events requestId).filterMap f =
        [entry attempt.record.ordinal attempt.record.target] := by
    intro ordinal target attempt
    rw [attempt.filterMap_events (fun _ _ ↦ hquiet _ rfl) fun _ ↦ hquiet _ rfl, hentry,
      attempt.ordinal_eq, attempt.target_eq]
  have hvisited := fun target ↦ hquiet (.visited target) rfl
  have hrefused := fun target ↦ hquiet (.refused target) rfl
  have hentered := fun target ↦ hquiet (.entered target) rfl
  have hemitted := fun reply accepted ↦ hquiet (.emitted reply accepted) rfl
  have hobserved := fun target failure ↦ hquiet (.observed target failure) rfl
  have hreleased := fun lease ↦ hquiet (.released lease) rfl
  have hwaited := fun duration ↦ hquiet (.waited duration) rfl
  have hleft := fun target ↦ hquiet (.left target) rfl
  induction h with
  | exhausted => rfl
  | drained => simp [hvisited]
  | disconnected => simp [hvisited, hemitted]
  | spent => simp [hvisited, hentered, hleft]
  | refused rest ih => simpa [hvisited, hrefused] using ih
  | answered attempt => simp [hattempt, hvisited, hentered, hreleased, hleft]
  | failed attempt budget raw error failure observed =>
    cases observed <;> simp [hattempt, hvisited, hentered, hobserved, hreleased, hleft]
  | retried attempt budget raw observed failure allowed wait rest ih =>
    cases wait <;>
      simp [hattempt, hvisited, hentered, hobserved, hreleased, hwaited, hleft, ih]

theorem Run.calls_eq (h : Run requestId Post started targets records events result) :
    calls events = records.map fun record ↦ (record.ordinal, record.target) := by
  refine h.filterMap_eq (fun ordinal target ↦ (ordinal, target)) (fun event hevent ↦ ?_)
    fun _ _ _ _ _ ↦ rfl
  cases event <;> first | rfl | nomatch hevent

theorem Run.grants_eq (h : Run requestId Post started targets records events result) :
    grants events = records.map AttemptRecord.ordinal := by
  refine h.filterMap_eq (fun ordinal _ ↦ ordinal) (fun event hevent ↦ ?_) fun _ _ _ _ _ ↦ rfl
  cases event <;> first | rfl | nomatch hevent

theorem Run.settledReceipts_eq (h : Run requestId Post started targets records events result) :
    settledReceipts events = records.map fun record ↦
      (record.target.upstream, s!"{requestId}:attempt:{record.ordinal}") := by
  refine h.filterMap_eq (fun ordinal target ↦
    (target.upstream, s!"{requestId}:attempt:{ordinal}")) (fun event hevent ↦ ?_)
    fun _ _ _ _ _ ↦ rfl
  cases event <;> first | rfl | nomatch hevent

/-! ## Receipts -/

theorem Run.ordinals (h : Run requestId Post started targets records events result) :
    records.map AttemptRecord.ordinal = List.range' (started + 1) records.length := by
  induction h with
  | exhausted | drained | disconnected | spent => rfl
  | refused rest ih => exact ih
  | answered attempt => simp [attempt.ordinal_eq]
  | failed attempt => simp [attempt.ordinal_eq]
  | retried attempt budget raw observed failure allowed wait rest ih =>
    rw [List.map_cons, List.length_cons, List.range'_succ, attempt.ordinal_eq, ih]

theorem Run.targets_sublist (h : Run requestId Post started targets records events result) :
    (records.map AttemptRecord.target).Sublist targets := by
  induction h with
  | exhausted | drained | disconnected | spent => exact List.nil_sublist _
  | refused rest ih => exact ih.cons _
  | answered attempt => simp [attempt.target_eq]
  | failed attempt => simp [attempt.target_eq]
  | retried attempt budget raw observed failure allowed wait rest ih =>
    rw [List.map_cons, attempt.target_eq]
    exact ih.cons_cons _

/-- The budget bounds the calls. -/
theorem Run.attempts_le (h : Run requestId Post started targets records events result)
    (hstarted : started ≤ maxAttempts) : started + records.length ≤ maxAttempts := by
  induction h with
  | exhausted | drained | disconnected | spent => exact hstarted
  | refused rest ih => exact ih hstarted
  | answered attempt budget => exact budget
  | failed attempt budget => exact budget
  | retried attempt budget raw observed failure allowed wait rest ih =>
    have hrest := ih budget
    rw [List.length_cons]
    omega

theorem receiptId_injective (requestId : String) :
    Function.Injective fun ordinal : ℕ ↦ s!"{requestId}:attempt:{ordinal}" := by
  intro m n h
  have happend : requestId ++ ":attempt:" ++ m.repr = requestId ++ ":attempt:" ++ n.repr := by
    simpa using h
  have hdigits := congrArg String.toList ((String.append_right_inj _).mp happend)
  rw [Nat.toList_repr, Nat.toList_repr] at hdigits
  rw [← Nat.ofDigitChars_ten_toDigits (n := m), hdigits, Nat.ofDigitChars_ten_toDigits]

/-! ## Leases, health and skips -/

theorem leaseDiscipline_append {quiet : List Event} {held : Option LeaseId}
    (hquiet : ∀ event ∈ quiet, event.isOfLease = false) (rest : List Event) :
    LeaseDiscipline held (quiet ++ rest) = LeaseDiscipline held rest := by
  induction quiet with
  | nil => rfl
  | cons event quiet ih =>
    have hevent := hquiet event List.mem_cons_self
    have hrest := ih fun other hother ↦ hquiet other (List.mem_cons_of_mem _ hother)
    rw [List.cons_append, ← hrest]
    cases event with
    | granted | released | waited => nomatch hevent
    | _ => rfl

/-- An attempt ends with the lease it took. -/
theorem AttemptTrace.leaseDiscipline {ordinal : ℕ} {target : UpstreamModel}
    (attempt : AttemptTrace Post ordinal target) (rest : List Event) :
    LeaseDiscipline none (attempt.events requestId ++ rest) =
      LeaseDiscipline (some attempt.lease) rest := by
  have hquiet : ∀ event ∈ attempt.callEvents requestId, event.isOfLease = false :=
    attempt.forall_mem_callEvents rfl (fun _ _ ↦ rfl) (fun _ _ _ ↦ rfl) fun _ ↦ rfl
  rw [AttemptTrace.events, List.cons_append, LeaseDiscipline, leaseDiscipline_append hquiet]
  exact propext (and_iff_right rfl)

theorem Run.leaseDiscipline (h : Run requestId Post started targets records events result) :
    LeaseDiscipline none events := by
  induction h with
  | exhausted | drained | disconnected | spent => exact rfl
  | refused rest ih => exact ih
  | answered attempt =>
    simp only [List.cons_append, LeaseDiscipline, attempt.leaseDiscipline, true_and]
  | failed attempt budget raw error failure observed =>
    cases observed <;>
      simp [LeaseDiscipline, attempt.leaseDiscipline]
  | retried attempt budget raw observed failure allowed wait rest ih =>
    -- the lease is given back before the wait
    cases wait <;>
      simp [LeaseDiscipline, attempt.leaseDiscipline, ih]

theorem Run.observations_sublist
    (h : Run requestId Post started targets records events result) :
    (observations events).Sublist (records.map AttemptRecord.target) := by
  have hattempt : ∀ {ordinal target} (attempt : AttemptTrace Post ordinal target),
      (attempt.events requestId).filterMap Event.observation? = [] :=
    fun attempt ↦ attempt.filterMap_events (fun _ _ ↦ rfl) fun _ ↦ rfl
  rw [observations]
  induction h with
  | exhausted | drained | disconnected | spent => exact List.nil_sublist _
  | refused rest ih => exact ih
  | answered attempt => simp [hattempt, Event.observation?, List.filterMap_cons]
  | failed attempt budget raw error failure observed =>
    cases observed <;>
      simp [hattempt, Event.observation?, List.filterMap_cons, attempt.target_eq]
  | retried attempt budget raw observed failure allowed wait rest ih =>
    cases wait <;>
      simp [hattempt, Event.observation?, List.filterMap_cons, attempt.target_eq, ih]

/-! ### Skips -/

theorem append_eq_append_cons {block rest before after : List Event} {event : Event}
    (hblock : event ∉ block) (h : block ++ rest = before ++ event :: after) :
    ∃ middle, before = block ++ middle ∧ rest = middle ++ event :: after := by
  rcases List.append_eq_append_iff.mp h with ⟨middle, hbefore, hrest⟩ | ⟨middle, hsplit, hrest⟩
  · exact ⟨middle, hbefore, hrest⟩
  · cases middle with
    | nil =>
      rw [List.append_nil] at hsplit
      exact ⟨[], by rw [hsplit, List.append_nil], hrest.symm⟩
    | cons first middle =>
      obtain ⟨rfl, -⟩ := List.cons.inj hrest
      exact absurd (hsplit ▸ List.mem_append_right _ List.mem_cons_self) hblock

theorem SkipsSilently.append {block rest : List Event} (hblock : ∀ target, .refused target ∉ block)
    (h : SkipsSilently rest) : SkipsSilently (block ++ rest) := by
  intro before target after hsplit
  obtain ⟨middle, rfl, hrest⟩ := append_eq_append_cons (hblock target) hsplit
  obtain ⟨⟨earlier, rfl⟩, hafter⟩ := h middle target after hrest
  exact ⟨⟨block ++ earlier, (List.append_assoc ..).symm⟩, hafter⟩

theorem SkipsSilently.of_not_mem (h : ∀ target, .refused target ∉ events) :
    SkipsSilently events := by
  intro before target after hsplit
  refine absurd ?_ (h target)
  rw [hsplit]
  exact List.mem_append_right _ List.mem_cons_self

theorem SkipsSilently.refused {target : UpstreamModel} {rest : List Event} (h : SkipsSilently rest)
    (hhead : ∀ next ∈ rest.head?, ∃ target, next = .visited target) :
    SkipsSilently (.visited target :: .refused target :: rest) := by
  intro before skipped after hsplit
  match before with
  | [] => nomatch hsplit
  | [event] =>
    obtain ⟨rfl, htail⟩ := List.cons.inj hsplit
    obtain ⟨hevent, rfl⟩ := List.cons.inj htail
    obtain rfl := Event.refused.inj hevent
    exact ⟨⟨[], rfl⟩, hhead⟩
  | first :: second :: before =>
    obtain ⟨rfl, htail⟩ := List.cons.inj hsplit
    obtain ⟨rfl, hrest⟩ := List.cons.inj htail
    obtain ⟨⟨earlier, rfl⟩, hafter⟩ := h before skipped after hrest
    exact ⟨⟨_ :: _ :: earlier, rfl⟩, hafter⟩

/-- A run begins with the visit of its first target. -/
theorem Run.head_visited (h : Run requestId Post started targets records events result) :
    ∀ event ∈ events.head?, ∃ target, event = .visited target := by
  intro event hevent
  cases h with
  | exhausted => nomatch hevent
  | _ => exact ⟨_, (Option.some.inj hevent).symm⟩

theorem Run.skipsSilently (h : Run requestId Post started targets records events result) :
    SkipsSilently events := by
  have hattempt : ∀ {ordinal target} (attempt : AttemptTrace Post ordinal target) (skipped),
      .refused skipped ∉ attempt.events requestId := by
    intro ordinal target attempt skipped hmem
    rcases List.mem_cons.mp hmem with hgranted | hcall
    · nomatch hgranted
    · exact attempt.forall_mem_callEvents (p := fun event ↦ event ≠ .refused skipped) nofun
        (fun _ _ ↦ nofun) (fun _ _ _ ↦ nofun) (fun _ ↦ nofun) _ hcall rfl
  induction h with
  | exhausted | drained | disconnected | spent => exact .of_not_mem (by simp)
  | refused rest ih => exact ih.refused rest.head_visited
  | answered attempt => exact .of_not_mem (by simp [hattempt])
  | failed attempt budget raw error failure observed => exact .of_not_mem (by simp [hattempt])
  | retried attempt budget raw observed failure allowed wait rest ih =>
    exact ih.append (by simp [hattempt])

/-- **Every run keeps its books.** -/
theorem Run.bookkeeping {before after : RequestRecord}
    (h : Run before.requestId Post 0 targets records events result)
    (hrecords : after.attemptRecords = before.attemptRecords ++ records)
    (hattempts : after.attempts = if records = [] then before.attempts else records.length) :
    Bookkeeping targets before after events := by
  have hlength : (calls events).length = records.length := by rw [h.calls_eq, List.length_map]
  have hordinals : (calls events).map Prod.fst = records.map AttemptRecord.ordinal := by
    rw [h.calls_eq, List.map_map]
    rfl
  have htargets : (calls events).map Prod.snd = records.map AttemptRecord.target := by
    rw [h.calls_eq, List.map_map]
    rfl
  have hnil : calls events = [] ↔ records = [] := by
    rw [h.calls_eq, List.map_eq_nil_iff]
  refine ⟨?_, ?_, ?_, ⟨records, hrecords, h.calls_eq.symm⟩, ?_, ?_, h.leaseDiscipline, ?_, ?_, ?_,
    h.skipsSilently⟩
  · have hbudget := h.attempts_le (Nat.zero_le _)
    have hsublist := h.targets_sublist.length_le
    rw [Nat.zero_add] at hbudget
    rw [List.length_map] at hsublist
    rw [hlength]
    exact le_min hbudget hsublist
  · rw [hordinals, hlength, h.ordinals]
  · rw [htargets]
    exact h.targets_sublist
  · rw [hattempts, hlength]
    simp only [hnil]
  · rw [hordinals, h.grants_eq]
  · rw [h.settledReceipts_eq, h.calls_eq, List.map_map]
    rfl
  · -- the ordinals differ, so the receipt ids do
    have hids : (settledReceipts events).map Prod.snd = (records.map AttemptRecord.ordinal).map
        fun ordinal ↦ s!"{before.requestId}:attempt:{ordinal}" := by
      rw [h.settledReceipts_eq, List.map_map, List.map_map]
      rfl
    rw [hids, h.ordinals]
    exact List.Nodup.map (receiptId_injective before.requestId) (List.nodup_range' 1)
  · rw [htargets]
    exact h.observations_sublist

end Run

/-- **Attempt bookkeeping.** In every dispatch, whatever the admissions, the clock, the
cancellations and the attempts do: there are at most six calls and no more than targets, each with
one receipt, one lease and one settlement of its own, and a target skipped by admission leaves
nothing behind. -/
theorem dispatch_bookkeeping {W : Type} (env : Environment W) (ledgers : Ledgers W)
    (ctx : RequestContext) (catalog : List (UpstreamModel × ModelCapability))
    (attempt : UpstreamModel → StateM (Exchange W) AttemptResult) (decision : Decision) (world : W)
    (record : RequestRecord) :
    let final := (dispatch env ledgers ctx catalog attempt decision { world, record }).2
    Bookkeeping decision.targets record final.record final.events := by
  intro final
  have hattempt : ∀ target, Triple (fun exchange : Exchange W ↦ exchange.emitted = [])
      (attempt target) fun _ _ ↦ True := fun _ _ _ ↦ trivial
  obtain ⟨new, trace, hrun, -, hrecords, hevents, hattempts⟩ :=
    dispatch_run env ledgers ctx catalog (fun _ _ ↦ True) hattempt decision { world, record }
      ⟨rfl, rfl, rfl, rfl⟩
  obtain rfl : final.events = trace := hevents
  exact hrun.bookkeeping hrecords hattempts

end TokenStation
