import TokenStation.Serving.Lifecycle

/-!
# What a section can do

The inversions of `Supervisor.step`, one for each section: when the section is possible, and the
state that it leaves.
-/

namespace TokenStation

open Library

namespace ServerLifecycle

/-- A start or a stop is on its way. -/
def inFlight : ServerLifecycle → Bool
  | starting _ _ _ | applying _ _ _ | stopping _ _ _ => true
  | stopped _ | running _ _ _ | failed _ _ _ => false

@[simp] theorem generation_stopped (g : ℕ) : (stopped g).generation = g := rfl

@[simp] theorem generation_starting (g : ℕ) (listen : String) (revision : ℕ) :
    (starting g listen revision).generation = g := rfl

@[simp] theorem generation_applying (g revision : ℕ) (old : RunningServer) :
    (applying g revision old).generation = g := rfl

@[simp] theorem generation_stopping (g : ℕ) (listen : String) (draining : Bool) :
    (stopping g listen draining).generation = g := rfl

@[simp] theorem generation_running (g : ℕ) (server : RunningServer) (applyError : Option String) :
    (running g server applyError).generation = g := rfl

@[simp] theorem generation_failed (g : ℕ) (listen error : String) :
    (failed g listen error).generation = g := rfl

theorem refuseInFlight_eq_ok {server : ServerLifecycle} {u : Unit} :
    server.refuseInFlight = .ok u ↔ server.inFlight = false := by
  cases server <;> simp [refuseInFlight, inFlight]

/-- The old server shares its listener with the candidate of its generation, if they have one
address. -/
theorem sharedListen_eq_some {server : ServerLifecycle} {g : ℕ}
    {result : Except StartFailure PreparedServer} {listen : String} :
    server.sharedListen g result = some listen ↔
      ∃ revision old prepared, server = applying g revision old ∧ result = .ok prepared ∧
        old.listen = prepared.listen ∧ listen = old.listen := by
  unfold sharedListen
  split
  next current revision old prepared =>
    constructor
    · intro h
      obtain ⟨⟨rfl, hlisten⟩, heq⟩ := Option.ite_none_right_eq_some.mp h
      exact ⟨revision, old, prepared, rfl, rfl, hlisten, (Option.some.inj heq).symm⟩
    · rintro ⟨revision', old', prepared', hserver, hresult, hlisten, rfl⟩
      obtain ⟨rfl, rfl, rfl⟩ := applying.inj hserver
      obtain rfl := Except.ok.inj hresult
      rw [if_pos ⟨rfl, hlisten⟩]
  next hnot =>
    refine iff_of_false (by simp) ?_
    rintro ⟨revision, old, prepared, rfl, rfl, -⟩
    exact hnot g revision old prepared rfl rfl

/-! ## The last section of a start -/

section Settle

variable {server : ServerLifecycle} {g : ℕ} {upstreamEpochs : UpstreamEpochs}
  {result : Except StartFailure PreparedServer}
  {resumeListener : Option (Except StartFailure Unit)} {outcomes : StartOutcomes}

/-- What the last section of a start can do. -/
inductive Settles (server : ServerLifecycle) (g : ℕ) (upstreamEpochs : UpstreamEpochs)
    (result : Except StartFailure PreparedServer) : StartSettlement → Prop where
  /-- The state is of another generation, or of one that is settled. -/
  | keep (h : server.generation = g → server.inFlight = false) :
    Settles server g upstreamEpochs result { server, discard := result.toOption }
  /-- The candidate is the first server. -/
  | publish {listen publishedListen : String} {revision : ℕ} {prepared : PreparedServer}
      (hserver : server = starting g listen revision) (hresult : result = .ok prepared) :
    Settles server g upstreamEpochs result
      { server := running g ⟨prepared.start, publishedListen, revision, upstreamEpochs, true⟩ none
        published := some ⟨prepared.start, publishedListen, revision, upstreamEpochs, true⟩ }
  /-- There is no server, old or new. -/
  | fail {listen message : String} {revision : ℕ} (hserver : server = starting g listen revision) :
    Settles server g upstreamEpochs result
      { server := failed g listen message, discard := result.toOption }
  /-- The candidate replaces the old server. -/
  | replace {publishedListen : String} {revision : ℕ} {old : RunningServer}
      {prepared : PreparedServer} (hserver : server = applying g revision old)
      (hresult : result = .ok prepared) :
    Settles server g upstreamEpochs result
      { server := running g ⟨prepared.start, publishedListen, revision, upstreamEpochs, true⟩ none
        retire := some old.stopAccepting
        published := some ⟨prepared.start, publishedListen, revision, upstreamEpochs, true⟩ }
  /-- The old server is left as it is. -/
  | leave {message : String} {revision : ℕ} {old : RunningServer}
      (hserver : server = applying g revision old)
      (hlisten : ∀ prepared, result = .ok prepared → old.listen ≠ prepared.listen) :
    Settles server g upstreamEpochs result
      { server := notApplied g old message, discard := result.toOption }
  /-- The old server is resumed. -/
  | resume {message : String} {revision : ℕ} {old : RunningServer}
      (hserver : server = applying g revision old) :
    Settles server g upstreamEpochs result
      { server := notApplied g { old with accepting := true } message
        discard := result.toOption }
  /-- The old server cannot be resumed. -/
  | retire {message : String} {revision : ℕ} {old : RunningServer}
      (hserver : server = applying g revision old) :
    Settles server g upstreamEpochs result
      { server := failed g old.listen message
        retire := some old.stopAccepting
        discard := result.toOption }
  /-- The start was given up; the server that ran may still be drained. -/
  | stop {listen : String} {draining : Bool} (hserver : server = stopping g listen draining) :
    Settles server g upstreamEpochs result
      { server := if draining then stopping g listen draining else stopped g
        discard := result.toOption }

theorem settles_unpublished {revision : ℕ} {old : RunningServer} {prepared : PreparedServer}
    {failure : StartFailure} (hserver : server = applying g revision old)
    (hresult : result = .ok prepared) :
    Settles server g upstreamEpochs result
      (settleUnpublished g old prepared resumeListener outcomes failure) := by
  subst hresult
  rw [settleUnpublished]
  split
  next =>
    dsimp only
    split
    next => exact .retire hserver
    next resumed hresumed =>
      have heq : resumed = { old with accepting := true } := by
        rcases resumeListener with - | listener | listener
        · cases hresumed
        · cases hresumed
        · rcases hresume : outcomes.resumeAccepting with failure | u
          · rw [hresume] at hresumed
            cases hresumed
          · rw [hresume] at hresumed
            exact (Except.ok.inj hresumed).symm
      rw [heq]
      exact .resume hserver
  next hlisten =>
    refine .leave hserver fun prepared' h ↦ ?_
    obtain rfl := Except.ok.inj h
    exact hlisten

/-- The last section does one of these. -/
theorem settles (server : ServerLifecycle) (g : ℕ) (upstreamEpochs : UpstreamEpochs)
    (result : Except StartFailure PreparedServer)
    (resumeListener : Option (Except StartFailure Unit)) (outcomes : StartOutcomes) :
    Settles server g upstreamEpochs result
      (server.settle g upstreamEpochs result resumeListener outcomes) := by
  unfold settle
  split
  next hgeneration => exact .keep fun h ↦ absurd h hgeneration
  next hgeneration =>
    rw [not_not] at hgeneration
    subst hgeneration
    split
    next g listen revision prepared =>
      split
      next published hpublish =>
        rcases hlisten : outcomes.publish with failure | publishedListen
        · rw [hlisten] at hpublish
          cases hpublish
        · rw [hlisten] at hpublish
          rw [← Except.ok.inj hpublish]
          exact .publish rfl rfl
      next => exact .fail rfl
    next g revision old prepared =>
      split
      next published hpublish =>
        rcases hlisten : outcomes.publish with failure | publishedListen
        · rw [hlisten] at hpublish
          cases hpublish
        · rw [hlisten] at hpublish
          rw [← Except.ok.inj hpublish]
          exact .replace rfl rfl
      next => exact settles_unpublished rfl rfl
    next => exact .fail rfl
    next => exact .leave rfl fun prepared h ↦ by cases h
    next => exact .stop rfl
    next hstopping hstarting happlying hfail hleave =>
      refine .keep fun _ ↦ ?_
      rcases server with g | ⟨g, listen, revision⟩ | ⟨g, revision, old⟩ | ⟨g, listen, draining⟩ |
        ⟨g, running, e⟩ | ⟨g, listen, error⟩
      · rfl
      · rcases result with failure | prepared
        · exact (hfail _ _ _ _ rfl rfl).elim
        · exact (hstarting _ _ _ _ rfl rfl).elim
      · rcases result with failure | prepared
        · exact (hleave _ _ _ _ rfl rfl).elim
        · exact (happlying _ _ _ _ rfl rfl).elim
      · exact (hstopping _ _ _ rfl).elim
      · rfl
      · rfl

/-- A candidate that could not be bound leaves the old server as it is. -/
theorem settle_applying_error {revision : ℕ} {old : RunningServer} {failure : StartFailure} :
    (applying g revision old).settle g upstreamEpochs (.error failure) resumeListener outcomes =
      { server := notApplied g old failure.publicMessage } := by
  simp [settle]

end Settle

end ServerLifecycle

namespace Supervisor

variable {s s' : Supervisor} {g : ℕ}

/-! ## Tasks -/

@[simp] theorem setTask_self (s : Supervisor) (g : ℕ) (task : Option StartTask) :
    (s.setTask g task).starts g = task := by
  simp [setTask]

theorem setTask_ne (s : Supervisor) {g g' : ℕ} (task : Option StartTask) (h : g' ≠ g) :
    (s.setTask g task).starts g' = s.starts g' := by
  simp [setTask, h]

@[simp] theorem setTask_server (s : Supervisor) (g : ℕ) (task : Option StartTask) :
    (s.setTask g task).server = s.server := rfl

/-! ## Calls -/

/-- A start is accepted where nothing is in flight, and reserves the next generation. -/
theorem exists_of_beginServeStartInner {call : StartCall}
    (h : s.beginServeStartInner call = .ok (some s')) :
    ∃ listen revision, s.server.inFlight = false ∧ s.server.generation + 1 < 2 ^ 64 ∧
      s' = s.reserve (s.server.generation + 1) listen revision call.upstreamEpochs := by
  rw [beginServeStartInner] at h
  split at h
  · cases h
  · obtain ⟨-, -, h⟩ := except_bind_eq_ok.mp h
    obtain ⟨_, hidle, h⟩ := except_bind_eq_ok.mp h
    obtain ⟨listen, -, h⟩ := except_bind_eq_ok.mp h
    obtain ⟨revision, -, h⟩ := except_bind_eq_ok.mp h
    split at h
    next hlt =>
      obtain rfl := Option.some.inj (Except.ok.inj h)
      exact ⟨listen, revision, ServerLifecycle.refuseInFlight_eq_ok.mp hidle, hlt, rfl⟩
    next => cases h

/-- A start is refused, or it reserves the next generation. -/
theorem step_start {call : StartCall} (h : s.step (.start call) = some s') :
    s' = s ∨ ∃ listen revision, s.server.inFlight = false ∧
      s' = s.reserve (s.server.generation + 1) listen revision call.upstreamEpochs := by
  rw [step] at h
  split at h
  next s'' hbegin =>
    obtain ⟨listen, revision, hidle, -, heq⟩ := exists_of_beginServeStartInner hbegin
    exact Or.inr ⟨listen, revision, hidle, (Option.some.inj h).symm.trans heq⟩
  next => exact Or.inl (Option.some.inj h).symm
  next => exact Or.inl (Option.some.inj h).symm

/-- The state after a stop: the server that ran goes to a drain, a start is to be given up, and
where nothing runs nothing changes but a failure, which is cleared. -/
inductive Stops (s : Supervisor) : Supervisor → Prop where
  | drain {server : RunningServer}
      (h : (∃ g e, s.server = .running g server e) ∨
        ∃ g revision, s.server = .applying g revision server) :
      Stops s
        { s with
          server := .stopping s.server.generation server.listen true
          stops := s.stops ++ [s.server.generation]
          drained := s.drained ++ [server.stopAccepting] }
  | giveUp {g revision : ℕ} {listen : String} (h : s.server = .starting g listen revision) :
      Stops s { s with server := .stopping g listen false }
  | same (h : (∃ g listen draining, s.server = .stopping g listen draining) ∨
      ∃ g, s.server = .stopped g) : Stops s s
  | clear {g : ℕ} {listen error : String} (h : s.server = .failed g listen error) :
      Stops s { s with server := .stopped g }

theorem stops_of_beginServeStopInner {expected : Option ℕ} {taskAlive : Bool}
    (h : s.beginServeStopInner expected taskAlive = some s') : Stops s s' := by
  rw [beginServeStopInner] at h
  split at h
  · cases h
  · split at h
    next g server e hserver =>
      obtain rfl := Option.some.inj h
      exact .drain (Or.inl ⟨g, e, hserver⟩)
    next g revision server hserver =>
      obtain rfl := Option.some.inj h
      exact .drain (Or.inr ⟨g, revision, hserver⟩)
    next g listen revision hserver =>
      obtain rfl := Option.some.inj h
      rw [hserver]
      exact .giveUp hserver
    next g listen draining hserver =>
      obtain rfl := Option.some.inj h
      exact .same (Or.inl ⟨g, listen, draining, hserver⟩)
    next g listen error hserver =>
      obtain rfl := Option.some.inj h
      rw [hserver]
      exact .clear hserver
    next g hserver =>
      obtain rfl := Option.some.inj h
      exact .same (Or.inr ⟨g, hserver⟩)

theorem step_stop {expected : Option ℕ} {taskAlive : Bool}
    (h : s.step (.stop expected taskAlive) = some s') : s' = s ∨ Stops s s' := by
  have h' : (s.beginServeStopInner expected taskAlive).getD s = s' := Option.some.inj h
  rcases hbegin : s.beginServeStopInner expected taskAlive with - | s''
  · rw [hbegin] at h'
    exact Or.inl h'.symm
  · rw [hbegin] at h'
    obtain rfl : s'' = s' := h'
    exact Or.inr (stops_of_beginServeStopInner hbegin)

/-! ## Sections of a task -/

theorem step_observe {prepare : Option (Except StartFailure String)} :
    s.step (.observe g prepare) = some s' ↔
      ∃ upstreamEpochs, s.starts g = some ⟨upstreamEpochs, .preparing⟩ ∧
        s' = s.observe g upstreamEpochs prepare := by
  rw [step]
  split
  next upstreamEpochs htask => simp [htask, eq_comm]
  next hnot =>
    refine iff_of_false (by simp) ?_
    rintro ⟨upstreamEpochs, htask, -⟩
    exact hnot upstreamEpochs htask

theorem step_handOff {metadata : Metadata} :
    s.step (.handOff g metadata) = some s' ↔
      ∃ upstreamEpochs result applying,
        s.starts g = some ⟨upstreamEpochs, .observed result applying⟩ ∧
        s' = s.handOff g upstreamEpochs result applying metadata := by
  rw [step]
  split
  next upstreamEpochs result applying htask =>
    constructor
    · intro h
      exact ⟨_, _, _, htask, (Option.some.inj h).symm⟩
    · rintro ⟨upstreamEpochs', result', applying', htask', rfl⟩
      obtain ⟨⟩ := htask.symm.trans htask'
      rfl
  next hnot =>
    refine iff_of_false (by simp) ?_
    rintro ⟨upstreamEpochs, result, applying, htask, -⟩
    exact hnot upstreamEpochs result applying htask

theorem step_commit {outcomes : StartOutcomes} :
    s.step (.commit g outcomes) = some s' ↔
      ∃ upstreamEpochs result resumeListen,
        s.starts g = some ⟨upstreamEpochs, .handedOff result resumeListen⟩ ∧
        s' = s.commit g upstreamEpochs result resumeListen outcomes := by
  rw [step]
  split
  next upstreamEpochs result resumeListen htask =>
    constructor
    · intro h
      exact ⟨_, _, _, htask, (Option.some.inj h).symm⟩
    · rintro ⟨upstreamEpochs', result', resumeListen', htask', rfl⟩
      obtain ⟨⟩ := htask.symm.trans htask'
      rfl
  next hnot =>
    refine iff_of_false (by simp) ?_
    rintro ⟨upstreamEpochs, result, resumeListen, htask, -⟩
    exact hnot upstreamEpochs result resumeListen htask

theorem step_refresh {failure : Option String} :
    s.step (.refresh g failure) = some s' ↔
      ∃ upstreamEpochs, s.starts g = some ⟨upstreamEpochs, .published⟩ ∧
        s' = s.refresh g failure := by
  rw [step]
  split
  next upstreamEpochs htask => simp [htask, eq_comm]
  next hnot =>
    refine iff_of_false (by simp) ?_
    rintro ⟨upstreamEpochs, htask, -⟩
    exact hnot upstreamEpochs htask

theorem step_completeStop :
    s.step (.completeStop g) = some s' ↔ g ∈ s.stops ∧ s' = s.completeServeStop g := by
  rw [step]
  split
  next hmem => simp [hmem, eq_comm]
  next hmem => simp [hmem]

/-! ## What a section leaves -/

section Frames

variable {g' : ℕ} {upstreamEpochs : UpstreamEpochs} {result : Except StartFailure PreparedServer}
  {resumeListen : Option String}

theorem observe_starts_ne {prepare : Option (Except StartFailure String)} (h : g' ≠ g) :
    (s.observe g upstreamEpochs prepare).starts g' = s.starts g' :=
  setTask_ne s _ h

theorem handOff_starts_ne {applying : Bool} {metadata : Metadata} (h : g' ≠ g) :
    (s.handOff g upstreamEpochs result applying metadata).starts g' = s.starts g' :=
  setTask_ne s _ h

theorem commit_starts_ne {outcomes : StartOutcomes} (h : g' ≠ g) :
    (s.commit g upstreamEpochs result resumeListen outcomes).starts g' = s.starts g' :=
  setTask_ne s _ h

theorem refresh_starts_ne {failure : Option String} (h : g' ≠ g) :
    (s.refresh g failure).starts g' = s.starts g' :=
  setTask_ne s _ h

@[simp] theorem refresh_starts_self {failure : Option String} :
    (s.refresh g failure).starts g = none :=
  setTask_self s g _

theorem exists_observe_starts (s : Supervisor) (g : ℕ) (upstreamEpochs : UpstreamEpochs)
    (prepare : Option (Except StartFailure String)) :
    ∃ result applying, (s.observe g upstreamEpochs prepare).starts g =
      some ⟨upstreamEpochs, .observed result applying⟩ :=
  ⟨_, _, setTask_self s g _⟩

/-- A handoff changes the state at most by the release of the old server's listener. -/
theorem handOff_server (s : Supervisor) (g : ℕ) (upstreamEpochs : UpstreamEpochs)
    (result : Except StartFailure PreparedServer) (applying : Bool) (metadata : Metadata) :
    (s.handOff g upstreamEpochs result applying metadata).server = s.server ∨
      ∃ revision old, s.server = .applying g revision old ∧
        (s.handOff g upstreamEpochs result applying metadata).server =
          .applying g revision old.stopAccepting := by
  unfold handOff
  dsimp only
  split
  next hsome =>
    obtain ⟨listen, hlisten⟩ := Option.isSome_iff_exists.mp hsome
    obtain ⟨revision, old, -, hserver, -⟩ := ServerLifecycle.sharedListen_eq_some.mp hlisten
    refine Or.inr ⟨revision, old, hserver, ?_⟩
    rw [hserver, ServerLifecycle.releaseListener]
  next => exact Or.inl rfl

/-- What the last section settles is written to the state, and a published generation is still to be
refreshed. -/
theorem exists_commit (s : Supervisor) (g : ℕ) (upstreamEpochs : UpstreamEpochs)
    (result : Except StartFailure PreparedServer) (resumeListen : Option String)
    (outcomes : StartOutcomes) :
    ∃ settlement, s.server.Settles g upstreamEpochs (outcomes.bound result) settlement ∧
      (s.commit g upstreamEpochs result resumeListen outcomes).starts =
        Function.update s.starts g
          (settlement.published.map fun _ ↦ ⟨upstreamEpochs, .published⟩) ∧
      (s.commit g upstreamEpochs result resumeListen outcomes).server = settlement.server ∧
      (s.commit g upstreamEpochs result resumeListen outcomes).discarded = s.discarded ++
        (if (outcomes.bound result).toOption.isNone then result.toOption.toList else []) ++
        settlement.discard.toList ∧
      (s.commit g upstreamEpochs result resumeListen outcomes).published =
        s.published ++ settlement.published.toList ∧
      (s.commit g upstreamEpochs result resumeListen outcomes).drained =
        s.drained ++ settlement.retire.toList :=
  ⟨_, ServerLifecycle.settles _ _ _ _ _ _, rfl, rfl, rfl, rfl, rfl⟩

/-- A refresh changes the state at most by a note of its failure. -/
theorem refresh_server (s : Supervisor) (g : ℕ) (failure : Option String) :
    (s.refresh g failure).server = s.server ∨
      ∃ server e e', s.server = .running g server e ∧
        (s.refresh g failure).server = .running g server (some e') := by
  unfold refresh
  dsimp only
  split
  next current server e message hserver =>
    split
    next hcurrent =>
      subst hcurrent
      exact Or.inr ⟨server, e, _, hserver, rfl⟩
    next => exact Or.inl hserver.symm
  next => exact Or.inl rfl

/-- The end of a drain changes the state at most from stopping to stopped. -/
theorem completeServeStop_server (s : Supervisor) (g : ℕ) :
    (s.completeServeStop g).server = s.server ∨
      ∃ listen draining, s.server = .stopping g listen draining ∧
        (s.completeServeStop g).server = .stopped g := by
  unfold completeServeStop
  dsimp only
  split
  next current listen draining hserver =>
    split
    next hcurrent =>
      subst hcurrent
      exact Or.inr ⟨listen, draining, hserver, rfl⟩
    next => exact Or.inl rfl
  next => exact Or.inl rfl

end Frames

/-! ## A plain start -/

/-- A start that nothing keeps from reserving. -/
def plainStart (revision : ℕ) : StartCall where
  expectation := none
  taskAlive := true
  ensureEditable := .ok ()
  materialize := .ok "127.0.0.1:8787"
  saveDraft := .ok revision
  upstreamEpochs := ∅

def plainMetadata : Metadata where
  runtimeFromApp := .ok ()
  transition := .ok ()
  refresh := .ok ()

/-- Everything succeeds. -/
def plainOutcomes : StartOutcomes where
  bind := .ok ()
  bindListener := .ok ()
  publish := .ok "127.0.0.1:8787"
  resumeAccepting := .ok ()

/-- A start up to its last section, which comes next. -/
def upToCommit (generation revision : ℕ) : List ServeOp :=
  [.start (plainStart revision), .observe generation (some (.ok "127.0.0.1:8787")),
    .handOff generation plainMetadata]

end Supervisor

end TokenStation
