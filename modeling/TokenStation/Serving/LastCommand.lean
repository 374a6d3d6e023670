import TokenStation.Serving.Sections

/-!
# The last accepted command

Starts and stops share a generation, and completions arrive late. `Sound` is what every section
keeps: a task is known for every generation that is waited for, and each server that a start
prepared is in one place, which is its task, the state, a drain, or nowhere once it is discarded.
From it follows what the commands are promised, in any interleaving (`obeysLastCommand`).
-/

namespace TokenStation

open Library

/-! ## Places -/

/-- The server that the state holds. -/
def ServerLifecycle.held : ServerLifecycle → List RunningServer
  | applying _ _ old => [old]
  | running _ server _ => [server]
  | stopped _ | starting _ _ _ | stopping _ _ _ | failed _ _ _ => []

/-- The server that a task holds. -/
def StartPhase.holds : StartPhase → List PreparedServer
  | observed result _ | handedOff result _ => result.toOption.toList
  | preparing | published => []

/-- How many of the servers were prepared by the start. -/
def preparedBy (g : ℕ) (servers : List PreparedServer) : ℕ :=
  servers.countP fun server ↦ decide (server.start = g)

/-- How many of the published servers were prepared by the start. -/
def publishedBy (g : ℕ) (servers : List RunningServer) : ℕ :=
  servers.countP fun server ↦ decide (server.start = g)

section Counts

variable {g : ℕ}

@[simp] theorem preparedBy_nil : preparedBy g [] = 0 := rfl

@[simp] theorem preparedBy_append (l l' : List PreparedServer) :
    preparedBy g (l ++ l') = preparedBy g l + preparedBy g l' :=
  List.countP_append

@[simp] theorem preparedBy_singleton (server : PreparedServer) :
    preparedBy g [server] = if server.start = g then 1 else 0 := by
  simp [preparedBy, List.countP_singleton]

@[simp] theorem publishedBy_nil : publishedBy g [] = 0 := rfl

@[simp] theorem publishedBy_append (l l' : List RunningServer) :
    publishedBy g (l ++ l') = publishedBy g l + publishedBy g l' :=
  List.countP_append

@[simp] theorem publishedBy_singleton (server : RunningServer) :
    publishedBy g [server] = if server.start = g then 1 else 0 := by
  simp [publishedBy, List.countP_singleton]

theorem preparedBy_pos {server : PreparedServer} {l : List PreparedServer} (h : server ∈ l) :
    0 < preparedBy server.start l :=
  List.countP_pos_iff.mpr ⟨server, h, decide_eq_true rfl⟩

theorem publishedBy_pos {server : RunningServer} {l : List RunningServer} (h : server ∈ l) :
    0 < publishedBy server.start l :=
  List.countP_pos_iff.mpr ⟨server, h, decide_eq_true rfl⟩

end Counts

/-! ## What the last section keeps -/

namespace ServerLifecycle

variable {server : ServerLifecycle} {g : ℕ} {upstreamEpochs : UpstreamEpochs}
  {result : Except StartFailure PreparedServer} {settlement : StartSettlement}

theorem Settles.generation_eq (h : Settles server g upstreamEpochs result settlement) :
    settlement.server.generation = server.generation := by
  rcases h with - | ⟨rfl, -⟩ | rfl | ⟨rfl, -⟩ | ⟨rfl, -⟩ | rfl | rfl | @⟨_, draining, rfl⟩
  · rfl
  · rfl
  · rfl
  · rfl
  · rfl
  · rfl
  · rfl
  · rcases draining with - | - <;> rfl

/-- A candidate is published or discarded. -/
theorem Settles.disposes (h : Settles server g upstreamEpochs result settlement) (g' : ℕ) :
    preparedBy g' settlement.discard.toList + publishedBy g' settlement.published.toList =
      preparedBy g' result.toOption.toList := by
  rcases h with - | ⟨-, rfl⟩ | - | ⟨-, rfl⟩ | - | - | - | -
  · rfl
  · simp [Except.toOption]
  · rfl
  · simp [Except.toOption]
  · rfl
  · rfl
  · rfl
  · rfl

/-- What was held or is published is held afterwards, or drained. -/
theorem Settles.places (h : Settles server g upstreamEpochs result settlement) (g' : ℕ) :
    publishedBy g' settlement.server.held + publishedBy g' settlement.retire.toList =
      publishedBy g' server.held + publishedBy g' settlement.published.toList := by
  rcases h with - | ⟨rfl, -⟩ | rfl | ⟨rfl, -⟩ | ⟨rfl, -⟩ | rfl | rfl | @⟨_, draining, rfl⟩
  · rfl
  · simp [held]
  · rfl
  · simp [held, RunningServer.stopAccepting, Nat.add_comm]
  · rfl
  · simp [held, notApplied]
  · simp [held, RunningServer.stopAccepting]
  · rcases draining with - | - <;> rfl

end ServerLifecycle

namespace Supervisor

/-! ## Soundness -/

/-- A task of the generation is on its way to the last section, with the epochs. -/
def Completing (s : Supervisor) (g : ℕ) (upstreamEpochs : UpstreamEpochs) : Prop :=
  ∃ phase, s.starts g = some ⟨upstreamEpochs, phase⟩ ∧ phase ≠ .published

/-- What the state waits for is on its way. -/
def Awaits (s : Supervisor) : ServerLifecycle → Prop
  | .starting g _ revision | .applying g revision _ =>
    ∃ upstreamEpochs, s.Completing g upstreamEpochs ∧ ⟨g, revision, upstreamEpochs⟩ ∈ s.accepted
  | .stopping g _ true => g ∈ s.stops
  | .stopping g _ false => ∃ upstreamEpochs, s.Completing g upstreamEpochs
  | .stopped _ | .running _ _ _ | .failed _ _ _ => True

/-- The server that the task of a generation holds. -/
def holds (s : Supervisor) (g : ℕ) : List PreparedServer :=
  match s.starts g with
  | some task => task.phase.holds
  | none => []

/-- The start that prepared the server reserved its revision and its epochs. -/
def Reserved (s : Supervisor) (server : RunningServer) : Prop :=
  ⟨server.start, server.runningRevision, server.upstreamEpochs⟩ ∈ s.accepted

/-- What every section keeps. -/
structure Sound (s : Supervisor) : Prop where
  accepted_le : ∀ r ∈ s.accepted, r.generation ≤ s.server.generation
  increasing : s.accepted.Pairwise fun r r' ↦ r.generation < r'.generation
  task_le : ∀ g, s.server.generation < g → s.starts g = none
  awaits : s.Awaits s.server
  own : ∀ g, ∀ prepared ∈ s.holds g, prepared.start = g
  disposed : ∀ g, preparedBy g s.prepared =
    preparedBy g (s.holds g) + preparedBy g s.discarded + publishedBy g s.published
  once : ∀ g, preparedBy g s.prepared ≤ 1
  unprepared : ∀ g, s.server.generation < g ∨
    (∃ upstreamEpochs, s.starts g = some ⟨upstreamEpochs, .preparing⟩) →
      preparedBy g s.prepared = 0
  placed : ∀ g, publishedBy g s.published =
    publishedBy g s.server.held + publishedBy g s.drained
  carries : ∀ server, server ∈ s.published ∨ server ∈ s.server.held ∨ server ∈ s.drained →
    s.Reserved server

theorem sound_new : new.Sound where
  accepted_le := by simp [new]
  increasing := List.Pairwise.nil
  task_le _ _ := rfl
  awaits := trivial
  own := by simp [new, holds]
  disposed _ := rfl
  once _ := Nat.zero_le 1
  unprepared _ _ := rfl
  placed _ := rfl
  carries := by simp [new, ServerLifecycle.held]

variable {s s' : Supervisor} {g : ℕ}

/-- A state that is not in flight waits for nothing. -/
theorem awaits_of_not_inFlight (h : s.server.inFlight = false) : s'.Awaits s.server := by
  rcases hserver : s.server <;> simp [hserver, ServerLifecycle.inFlight, Awaits] at h ⊢

/-- A state waits on, as long as what it waits for is still on its way. -/
theorem Awaits.mono {server : ServerLifecycle} (h : s.Awaits server)
    (hstarts : ∀ upstreamEpochs, s.Completing server.generation upstreamEpochs →
      s'.Completing server.generation upstreamEpochs)
    (hstops : ∀ g listen, server = .stopping g listen true → g ∈ s.stops → g ∈ s'.stops)
    (haccepted : s.accepted ⊆ s'.accepted) : s'.Awaits server := by
  rcases server with g | ⟨g, listen, revision⟩ | ⟨g, revision, old⟩ | ⟨g, listen, - | -⟩ |
    ⟨g, running, e⟩ | ⟨g, listen, error⟩
  · trivial
  · obtain ⟨upstreamEpochs, hcompleting, hmem⟩ := h
    exact ⟨upstreamEpochs, hstarts upstreamEpochs hcompleting, haccepted hmem⟩
  · obtain ⟨upstreamEpochs, hcompleting, hmem⟩ := h
    exact ⟨upstreamEpochs, hstarts upstreamEpochs hcompleting, haccepted hmem⟩
  · obtain ⟨upstreamEpochs, hcompleting⟩ := h
    exact ⟨upstreamEpochs, hstarts upstreamEpochs hcompleting⟩
  · exact hstops g listen rfl h
  · trivial
  · trivial

theorem holds_of_starts {task : StartTask} (h : s.starts g = some task) :
    s.holds g = task.phase.holds := by
  rw [holds, h]

theorem holds_of_none (h : s.starts g = none) : s.holds g = [] := by
  rw [holds, h]

theorem holds_congr (h : s'.starts g = s.starts g) : s'.holds g = s.holds g := by
  rw [holds, holds, h]

/-- A state may be replaced by one of the same generation that holds the same server. -/
theorem Sound.setServer (hs : s.Sound) {server : ServerLifecycle}
    (hgeneration : server.generation = s.server.generation) (hheld : server.held = s.server.held)
    (hawaits : s.Awaits server) : Sound { s with server } where
  accepted_le r hr := hgeneration ▸ hs.accepted_le r hr
  increasing := hs.increasing
  task_le g hg := hs.task_le g (hgeneration ▸ hg)
  awaits := hawaits
  own := hs.own
  disposed := hs.disposed
  once := hs.once
  unprepared g hg := hs.unprepared g (hgeneration ▸ hg)
  placed g := by
    rw [hheld]
    exact hs.placed g
  carries other hother := hs.carries other (by rwa [← hheld])

/-! ## Calls -/

/-- An accepted start keeps the server that ran. -/
theorem held_reserve {listen : String} {revision : ℕ} {upstreamEpochs : UpstreamEpochs}
    (hidle : s.server.inFlight = false) :
    (s.reserve g listen revision upstreamEpochs).server.held = s.server.held := by
  unfold reserve
  dsimp only
  split
  next hserver => rw [hserver]; rfl
  next hnot =>
    rcases hserver : s.server with g | ⟨g, listen, revision⟩ | ⟨g, revision, old⟩ |
      ⟨g, listen, draining⟩ | ⟨g, server, e⟩ | ⟨g, listen, error⟩
    · rfl
    · rfl
    · rw [hserver] at hidle
      cases hidle
    · rfl
    · exact (hnot g server e hserver).elim
    · rfl

theorem generation_reserve {listen : String} {revision : ℕ} {upstreamEpochs : UpstreamEpochs} :
    (s.reserve g listen revision upstreamEpochs).server.generation = g := by
  unfold reserve
  dsimp only
  split <;> rfl

theorem awaits_reserve {listen : String} {revision : ℕ} {upstreamEpochs : UpstreamEpochs} :
    (s.reserve g listen revision upstreamEpochs).Awaits
      (s.reserve g listen revision upstreamEpochs).server := by
  have hcompleting : (s.reserve g listen revision upstreamEpochs).Completing g upstreamEpochs :=
    ⟨.preparing, setTask_self s g _, by simp⟩
  have hmem : ⟨g, revision, upstreamEpochs⟩ ∈
      (s.reserve g listen revision upstreamEpochs).accepted :=
    List.mem_append_right _ List.mem_cons_self
  have hserver : (∃ old, (s.reserve g listen revision upstreamEpochs).server =
        .applying g revision old) ∨
      (s.reserve g listen revision upstreamEpochs).server = .starting g listen revision := by
    unfold reserve
    dsimp only
    split
    next old _ _ => exact Or.inl ⟨old, rfl⟩
    next => exact Or.inr rfl
  rcases hserver with ⟨old, hserver⟩ | hserver
  · rw [hserver]
    exact ⟨upstreamEpochs, hcompleting, hmem⟩
  · rw [hserver]
    exact ⟨upstreamEpochs, hcompleting, hmem⟩

theorem sound_reserve (hs : s.Sound) (hidle : s.server.inFlight = false) (listen : String)
    (revision : ℕ) (upstreamEpochs : UpstreamEpochs) :
    (s.reserve (s.server.generation + 1) listen revision upstreamEpochs).Sound := by
  have hstarts {g : ℕ} (h : g ≠ s.server.generation + 1) :
      (s.reserve (s.server.generation + 1) listen revision upstreamEpochs).starts g = s.starts g :=
    setTask_ne s _ h
  have hself : (s.reserve (s.server.generation + 1) listen revision upstreamEpochs).starts
      (s.server.generation + 1) = some ⟨upstreamEpochs, .preparing⟩ :=
    setTask_self s _ _
  have hnone := hs.task_le _ (Nat.lt_succ_self s.server.generation)
  -- neither the new task nor the one it replaces, which is none, holds a server
  have hholds (g : ℕ) :
      (s.reserve (s.server.generation + 1) listen revision upstreamEpochs).holds g = s.holds g := by
    by_cases hg : g = s.server.generation + 1
    · subst hg
      rw [holds_of_starts hself, holds_of_none hnone]
      rfl
    · exact holds_congr (hstarts hg)
  refine ⟨?_, ?_, ?_, awaits_reserve, ?_, ?_, hs.once, ?_, ?_, ?_⟩
  · intro r hr
    rw [generation_reserve]
    rcases List.mem_append.mp hr with hr | hr
    · exact (hs.accepted_le r hr).trans (Nat.le_succ _)
    · rw [List.mem_singleton.mp hr]
  · refine List.pairwise_append.mpr ⟨hs.increasing, List.pairwise_singleton _ _, ?_⟩
    intro r hr r' hr'
    rw [List.mem_singleton.mp hr']
    exact Nat.lt_succ_of_le (hs.accepted_le r hr)
  · intro g hg
    rw [generation_reserve] at hg
    rw [hstarts (Nat.ne_of_gt hg)]
    exact hs.task_le g ((Nat.lt_succ_self _).trans hg)
  · intro g
    rw [hholds]
    exact hs.own g
  · intro g
    rw [hholds]
    exact hs.disposed g
  · rintro g (hg | ⟨epochs, hpreparing⟩)
    · rw [generation_reserve] at hg
      exact hs.unprepared g (Or.inl ((Nat.lt_succ_self _).trans hg))
    · by_cases hg : g = s.server.generation + 1
      · exact hs.unprepared g (Or.inl (hg ▸ Nat.lt_succ_self _))
      · rw [hstarts hg] at hpreparing
        exact hs.unprepared g (Or.inr ⟨epochs, hpreparing⟩)
  · intro g
    rw [held_reserve hidle]
    exact hs.placed g
  · intro server hserver
    rw [held_reserve hidle] at hserver
    exact List.mem_append_left _ (hs.carries server hserver)

/-- A stop hands over to the drain the server that the state held, and nothing else. -/
theorem sound_stops (hs : s.Sound) (h : Stops s s') : s'.Sound := by
  rcases h with @⟨server, hserver⟩ | @⟨g, revision, listen, hserver⟩ | - | @⟨g, listen, e, hserver⟩
  · have hheld : s.server.held = [server] := by
      rcases hserver with ⟨g, e, hserver⟩ | ⟨g, revision, hserver⟩ <;> rw [hserver] <;> rfl
    refine { hs with awaits := ?_, placed := ?_, carries := ?_ }
    · exact List.mem_append_right _ List.mem_cons_self
    · intro g
      have hplaced := hs.placed g
      rw [hheld] at hplaced
      simp only [ServerLifecycle.held, publishedBy_nil, publishedBy_append, publishedBy_singleton,
        RunningServer.stopAccepting] at hplaced ⊢
      omega
    · rintro other (hother | hother | hother)
      · exact hs.carries other (Or.inl hother)
      · cases hother
      · rcases List.mem_append.mp hother with hother | hother
        · exact hs.carries other (Or.inr (Or.inr hother))
        · rw [List.mem_singleton.mp hother]
          exact hs.carries server (Or.inr (Or.inl (hheld ▸ List.mem_cons_self)))
  · have hawaits := hs.awaits
    rw [hserver] at hawaits
    obtain ⟨upstreamEpochs, hcompleting, -⟩ := hawaits
    refine hs.setServer ?_ ?_ ⟨upstreamEpochs, hcompleting⟩
    · rw [hserver]
      rfl
    · rw [hserver]
      rfl
  · exact hs
  · refine hs.setServer ?_ ?_ trivial
    · rw [hserver]
      rfl
    · rw [hserver]
      rfl

/-! ## Sections of a task -/

variable {upstreamEpochs : UpstreamEpochs} {phase : StartPhase}

/-- The generation of a task was reserved. -/
theorem Sound.le_generation (hs : s.Sound) {task : StartTask} (h : s.starts g = some task) :
    g ≤ s.server.generation := by
  by_contra hlt
  rw [hs.task_le g (Nat.lt_of_not_le hlt)] at h
  cases h

/-- Servers of one start count for no other. -/
theorem preparedBy_eq_zero {g g' : ℕ} {l : List PreparedServer} (h : ∀ server ∈ l, server.start = g)
    (hg : g' ≠ g) : preparedBy g' l = 0 := by
  rw [preparedBy, List.countP_eq_zero]
  intro server hmem
  rw [h server hmem]
  simpa using hg.symm

/-- A task that goes on to a section before the last is still on its way. -/
theorem Completing.setTask {epochs : UpstreamEpochs} {task : Option StartTask}
    (h : s.Completing g upstreamEpochs) (hstarts : s'.starts = Function.update s.starts g task)
    (htask : s.starts g = some ⟨epochs, phase⟩) {phase' : StartPhase}
    (htask' : task = some ⟨epochs, phase'⟩) (hphase : phase' ≠ .published) :
    s'.Completing g upstreamEpochs := by
  obtain ⟨before, hbefore, -⟩ := h
  obtain ⟨⟩ := htask.symm.trans hbefore
  refine ⟨phase', ?_, hphase⟩
  rw [hstarts, Function.update_self, htask']

theorem sound_observe (hs : s.Sound) (htask : s.starts g = some ⟨upstreamEpochs, .preparing⟩)
    (prepare : Option (Except StartFailure String)) :
    (s.observe g upstreamEpochs prepare).Sound := by
  obtain ⟨result, applying, hself, hprepared, hown⟩ : ∃ result applying,
      (s.observe g upstreamEpochs prepare).starts g =
        some ⟨upstreamEpochs, .observed result applying⟩ ∧
      (s.observe g upstreamEpochs prepare).prepared = s.prepared ++ result.toOption.toList ∧
      ∀ prepared ∈ result.toOption.toList, prepared.start = g := by
    refine ⟨_, _, setTask_self s g _, rfl, ?_⟩
    rcases prepare with - | failure | listen
    · simp [Except.toOption]
    · simp [Except.toOption, Except.map]
    · simp [Except.toOption, Except.map]
  have hunprepared := hs.unprepared g (Or.inr ⟨upstreamEpochs, htask⟩)
  have hbefore : s.holds g = [] := holds_of_starts htask
  have hafter : (s.observe g upstreamEpochs prepare).holds g = result.toOption.toList :=
    holds_of_starts hself
  have hle : preparedBy g result.toOption.toList ≤ 1 := by
    refine List.countP_le_length.trans ?_
    rcases result with failure | prepared <;> simp [Except.toOption]
  refine { hs with task_le := ?_, awaits := ?_, own := ?_, disposed := ?_, once := ?_,
                   unprepared := ?_ }
  · intro g' hg'
    have hne : g' ≠ g := by
      rintro rfl
      exact absurd (hs.le_generation htask) (Nat.not_le_of_lt hg')
    rw [observe_starts_ne hne]
    exact hs.task_le g' hg'
  · refine hs.awaits.mono (fun epochs hcompleting ↦ ?_) (fun _ _ _ h ↦ h)
      (List.Subset.refl _)
    by_cases hg : s.server.generation = g
    · rw [hg] at hcompleting ⊢
      exact hcompleting.setTask rfl htask rfl (by simp)
    · obtain ⟨phase, hphase, hne⟩ := hcompleting
      exact ⟨phase, (observe_starts_ne hg).trans hphase, hne⟩
  · intro g'
    by_cases hg : g' = g
    · subst hg
      rw [hafter]
      exact hown
    · rw [holds_congr (observe_starts_ne hg)]
      exact hs.own g'
  · intro g'
    have hdisposed := hs.disposed g'
    rw [hprepared, preparedBy_append]
    by_cases hg : g' = g
    · subst hg
      rw [hbefore, preparedBy_nil] at hdisposed
      rw [hafter]
      change _ = _ + preparedBy g' s.discarded + publishedBy g' s.published
      omega
    · rw [holds_congr (observe_starts_ne hg), preparedBy_eq_zero hown hg]
      exact hdisposed
  · intro g'
    rw [hprepared, preparedBy_append]
    by_cases hg : g' = g
    · subst hg
      omega
    · rw [preparedBy_eq_zero hown hg]
      exact hs.once g'
  · rintro g' (hg' | ⟨epochs, hpreparing⟩)
    · have hne : g' ≠ g := by
        rintro rfl
        exact absurd (hs.le_generation htask) (Nat.not_le_of_lt hg')
      rw [hprepared, preparedBy_append, preparedBy_eq_zero hown hne]
      exact hs.unprepared g' (Or.inl hg')
    · have hne : g' ≠ g := by
        rintro rfl
        cases hself.symm.trans hpreparing
      rw [observe_starts_ne hne] at hpreparing
      rw [hprepared, preparedBy_append, preparedBy_eq_zero hown hne]
      exact hs.unprepared g' (Or.inr ⟨epochs, hpreparing⟩)

/-- What a section after the preparation has to keep: it moves the task of its generation on, and
the servers of that start from place to place. -/
theorem Sound.of_section (hs : s.Sound) {task : Option StartTask}
    (htask : s.starts g = some ⟨upstreamEpochs, phase⟩)
    (hstarts : s'.starts = Function.update s.starts g task)
    (htask' : ∀ epochs, task ≠ some ⟨epochs, .preparing⟩)
    (haccepted : s'.accepted = s.accepted) (hprepared : s'.prepared = s.prepared)
    (hgeneration : s'.server.generation = s.server.generation)
    (hawaits : s'.Awaits s'.server) (hown : ∀ prepared ∈ s'.holds g, prepared.start = g)
    (hdisposed : ∀ g', preparedBy g' (s'.holds g) + preparedBy g' s'.discarded +
        publishedBy g' s'.published =
      preparedBy g' (s.holds g) + preparedBy g' s.discarded + publishedBy g' s.published)
    (hplaced : ∀ g', publishedBy g' s'.published + publishedBy g' s.server.held +
        publishedBy g' s.drained =
      publishedBy g' s.published + publishedBy g' s'.server.held + publishedBy g' s'.drained)
    (hcarries : ∀ server, server ∈ s'.published ∨ server ∈ s'.server.held ∨ server ∈ s'.drained →
      s.Reserved server) : s'.Sound := by
  have hne {g' : ℕ} (hg : g' ≠ g) : s'.starts g' = s.starts g' := by
    rw [hstarts, Function.update_of_ne hg]
  refine ⟨?_, ?_, ?_, hawaits, ?_, ?_, ?_, ?_, ?_, ?_⟩
  · rw [haccepted, hgeneration]
    exact hs.accepted_le
  · rw [haccepted]
    exact hs.increasing
  · intro g' hg'
    rw [hgeneration] at hg'
    have hg : g' ≠ g := by
      rintro rfl
      exact absurd (hs.le_generation htask) (Nat.not_le_of_lt hg')
    rw [hne hg]
    exact hs.task_le g' hg'
  · intro g'
    by_cases hg : g' = g
    · subst hg
      exact hown
    · rw [holds_congr (hne hg)]
      exact hs.own g'
  · intro g'
    rw [hprepared, hs.disposed g']
    by_cases hg : g' = g
    · subst hg
      exact (hdisposed g').symm
    · have h := hdisposed g'
      rw [preparedBy_eq_zero hown hg, preparedBy_eq_zero (hs.own g) hg] at h
      rw [holds_congr (hne hg)]
      omega
  · rw [hprepared]
    exact hs.once
  · rintro g' (hg' | ⟨epochs, hpreparing⟩)
    · rw [hgeneration] at hg'
      rw [hprepared]
      exact hs.unprepared g' (Or.inl hg')
    · have hg : g' ≠ g := by
        rintro rfl
        rw [hstarts, Function.update_self] at hpreparing
        exact htask' epochs hpreparing
      rw [hne hg] at hpreparing
      rw [hprepared]
      exact hs.unprepared g' (Or.inr ⟨epochs, hpreparing⟩)
  · intro g'
    have h := hplaced g'
    have hbefore := hs.placed g'
    omega
  · intro server hserver
    rw [Reserved, haccepted]
    exact hcarries server hserver

/-- A server that a call drops is discarded. -/
theorem preparedBy_dropped {result result' : Except StartFailure PreparedServer}
    (h : result' = result ∨ ∃ failure, result' = .error failure) (g : ℕ) :
    preparedBy g result'.toOption.toList + preparedBy g
        (if result'.toOption.isNone then result.toOption.toList else []) =
      preparedBy g result.toOption.toList := by
  rcases h with rfl | ⟨failure, rfl⟩
  · rcases result' with failure | prepared
    · rfl
    · rfl
  · simp [Except.toOption]

theorem transitioned_cases (metadata : Metadata) (applying : Bool)
    (result : Except StartFailure PreparedServer) :
    metadata.transitioned applying result = result ∨
      ∃ failure, metadata.transitioned applying result = .error failure := by
  rcases result with failure | prepared
  · exact Or.inl rfl
  · rcases applying with - | -
    · exact Or.inl rfl
    · rcases houtcome : metadata.outcome with failure | u
      · refine Or.inr ⟨failure, ?_⟩
        simp [Metadata.transitioned, Except.bind, houtcome, Except.map]
      · refine Or.inl ?_
        simp [Metadata.transitioned, Except.bind, houtcome, Except.map]

theorem bound_cases (outcomes : StartOutcomes) (result : Except StartFailure PreparedServer) :
    outcomes.bound result = result ∨ ∃ failure, outcomes.bound result = .error failure := by
  rcases result with failure | prepared
  · exact Or.inl rfl
  · rcases hbind : outcomes.bind with failure | u
    · refine Or.inr ⟨failure, ?_⟩
      simp [StartOutcomes.bound, Except.bind, hbind, Except.map]
    · refine Or.inl ?_
      simp [StartOutcomes.bound, Except.bind, hbind, Except.map]

theorem mem_of_dropped {result result' : Except StartFailure PreparedServer}
    (h : result' = result ∨ ∃ failure, result' = .error failure) {prepared : PreparedServer}
    (hmem : prepared ∈ result'.toOption.toList) : prepared ∈ result.toOption.toList := by
  rcases h with rfl | ⟨failure, rfl⟩
  · exact hmem
  · cases hmem

theorem sound_handOff (hs : s.Sound) {result : Except StartFailure PreparedServer}
    {applying : Bool} (htask : s.starts g = some ⟨upstreamEpochs, .observed result applying⟩)
    (metadata : Metadata) : (s.handOff g upstreamEpochs result applying metadata).Sound := by
  have hcases := transitioned_cases metadata applying result
  have hbefore : s.holds g = result.toOption.toList := holds_of_starts htask
  have hafter : (s.handOff g upstreamEpochs result applying metadata).holds g =
      (metadata.transitioned applying result).toOption.toList :=
    holds_of_starts (setTask_self s g _)
  have hawaits : (s.handOff g upstreamEpochs result applying metadata).Awaits s.server := by
    refine hs.awaits.mono (fun epochs hcompleting ↦ ?_) (fun _ _ _ h ↦ h)
      (List.Subset.refl _)
    by_cases hg : s.server.generation = g
    · rw [hg] at hcompleting ⊢
      exact hcompleting.setTask rfl htask rfl (by simp)
    · obtain ⟨phase, hphase, hne⟩ := hcompleting
      exact ⟨phase, (handOff_starts_ne hg).trans hphase, hne⟩
  have hserver := handOff_server s g upstreamEpochs result applying metadata
  refine hs.of_section htask rfl (by simp) rfl rfl ?_ ?_ ?_ ?_ ?_ ?_
  · rcases hserver with hserver | ⟨revision, old, hold, hserver⟩
    · rw [hserver]
    · rw [hserver, hold]
      rfl
  · rcases hserver with hserver | ⟨revision, old, hold, hserver⟩
    · rw [hserver]
      exact hawaits
    · rw [hserver]
      rw [hold] at hawaits
      exact hawaits
  · rw [hafter]
    intro prepared hprepared
    refine hs.own g prepared ?_
    rw [hbefore]
    exact mem_of_dropped hcases hprepared
  · intro g'
    rw [hbefore, hafter, ← preparedBy_dropped hcases g']
    change _ + preparedBy g' (s.discarded ++ _) + _ = _
    rw [preparedBy_append]
    change _ + _ + publishedBy g' s.published = _
    omega
  · intro g'
    rcases hserver with hserver | ⟨revision, old, hold, hserver⟩
    · rw [hserver]
      rfl
    · rw [hserver, hold]
      simp only [ServerLifecycle.held, publishedBy_singleton, RunningServer.stopAccepting]
      rfl
  · rintro server (hmem | hmem | hmem)
    · exact hs.carries server (Or.inl hmem)
    · rcases hserver with hserver | ⟨revision, old, hold, hserver⟩
      · rw [hserver] at hmem
        exact hs.carries server (Or.inr (Or.inl hmem))
      · rw [hserver] at hmem
        rw [List.mem_singleton.mp hmem]
        refine hs.carries old (Or.inr (Or.inl ?_))
        rw [hold]
        exact List.mem_cons_self
    · exact hs.carries server (Or.inr (Or.inr hmem))

/-- The last section leaves a state that waits for nothing, or for what it waited for. -/
theorem awaits_of_settles {result : Except StartFailure PreparedServer}
    {settlement : StartSettlement} {generation : ℕ} (hawaits : s.Awaits s.server)
    (h : s.server.Settles generation upstreamEpochs result settlement)
    (hstarts : ∀ g ≠ generation, s'.starts g = s.starts g) (hstops : s'.stops = s.stops)
    (haccepted : s'.accepted = s.accepted) : s'.Awaits settlement.server := by
  rcases h with hkeep | - | - | - | - | - | - | @⟨listen, draining, hserver⟩
  · by_cases hg : s.server.generation = generation
    · exact awaits_of_not_inFlight (hkeep hg)
    · refine hawaits.mono (fun epochs hcompleting ↦ ?_) (fun _ _ _ h ↦ hstops ▸ h)
        (fun _ h ↦ haccepted ▸ h)
      obtain ⟨phase, hphase, hne⟩ := hcompleting
      exact ⟨phase, (hstarts _ hg).trans hphase, hne⟩
  · trivial
  · trivial
  · trivial
  · trivial
  · trivial
  · trivial
  · rcases draining with - | -
    · trivial
    · rw [hserver] at hawaits
      change generation ∈ s'.stops
      rw [hstops]
      exact hawaits

/-- Whatever server the last section leaves or hands over, its start reserved what it carries. -/
theorem reserved_of_settles (hs : s.Sound) {result : Except StartFailure PreparedServer}
    {settlement : StartSettlement} (h : s.server.Settles g upstreamEpochs result settlement)
    (hepochs : ∀ epochs, s.Completing g epochs → epochs = upstreamEpochs)
    (hown : ∀ prepared, result = .ok prepared → prepared.start = g) (server : RunningServer)
    (hmem : server ∈ settlement.published.toList ∨ server ∈ settlement.server.held ∨
      server ∈ settlement.retire.toList) : s.Reserved server := by
  have hheld (old : RunningServer) (hold : s.server.held = [old]) : s.Reserved old :=
    hs.carries old (Or.inr (Or.inl (hold ▸ List.mem_cons_self)))
  have hawaits := hs.awaits
  rcases h with - | @⟨listen, publishedListen, revision, prepared, hserver, hresult⟩ | - |
    @⟨publishedListen, revision, old, prepared, hserver, hresult⟩ |
    @⟨message, revision, old, hserver, -⟩ | @⟨message, revision, old, hserver⟩ |
    @⟨message, revision, old, hserver⟩ | @⟨listen, draining, hserver⟩
  · rcases hmem with hmem | hmem | hmem
    · cases hmem
    · exact hs.carries server (Or.inr (Or.inl hmem))
    · cases hmem
  · rw [hserver] at hawaits
    obtain ⟨epochs, hcompleting, hreserved⟩ := hawaits
    rw [hepochs epochs hcompleting, ← hown prepared hresult] at hreserved
    rcases hmem with hmem | hmem | hmem
    · rw [List.mem_singleton.mp hmem]
      exact hreserved
    · rw [List.mem_singleton.mp hmem]
      exact hreserved
    · cases hmem
  · rcases hmem with hmem | hmem | hmem <;> cases hmem
  · have hreservedOld := hheld old (by rw [hserver]; rfl)
    rw [hserver] at hawaits
    obtain ⟨epochs, hcompleting, hreserved⟩ := hawaits
    rw [hepochs epochs hcompleting, ← hown prepared hresult] at hreserved
    rcases hmem with hmem | hmem | hmem
    · rw [List.mem_singleton.mp hmem]
      exact hreserved
    · rw [List.mem_singleton.mp hmem]
      exact hreserved
    · rw [List.mem_singleton.mp hmem]
      exact hreservedOld
  · rcases hmem with hmem | hmem | hmem
    · cases hmem
    · rw [List.mem_singleton.mp hmem]
      exact hheld old (by rw [hserver]; rfl)
    · cases hmem
  · rcases hmem with hmem | hmem | hmem
    · cases hmem
    · rw [List.mem_singleton.mp hmem]
      exact hheld old (by rw [hserver]; rfl)
    · cases hmem
  · rcases hmem with hmem | hmem | hmem
    · cases hmem
    · cases hmem
    · rw [List.mem_singleton.mp hmem]
      exact hheld old (by rw [hserver]; rfl)
  · rcases draining with - | - <;> rcases hmem with hmem | hmem | hmem <;> cases hmem

theorem sound_commit (hs : s.Sound) {result : Except StartFailure PreparedServer}
    {resumeListen : Option String}
    (htask : s.starts g = some ⟨upstreamEpochs, .handedOff result resumeListen⟩)
    (outcomes : StartOutcomes) :
    (s.commit g upstreamEpochs result resumeListen outcomes).Sound := by
  have hcases := bound_cases outcomes result
  obtain ⟨settlement, hsettles, hstarts, hserver, hdiscarded, hpublished, hdrained⟩ :=
    exists_commit s g upstreamEpochs result resumeListen outcomes
  have hbefore : s.holds g = result.toOption.toList := holds_of_starts htask
  -- neither a published generation nor a settled one holds a prepared server
  have hafter : (s.commit g upstreamEpochs result resumeListen outcomes).holds g = [] := by
    rw [holds, hstarts, Function.update_self]
    rcases settlement.published with - | server <;> rfl
  have hown : ∀ prepared, outcomes.bound result = .ok prepared → prepared.start = g := by
    intro prepared hprepared
    refine hs.own g prepared ?_
    rw [hbefore]
    refine mem_of_dropped hcases ?_
    rw [hprepared]
    exact List.mem_cons_self
  have hepochs : ∀ epochs, s.Completing g epochs → epochs = upstreamEpochs := by
    rintro epochs ⟨phase, hphase, -⟩
    obtain ⟨⟩ := htask.symm.trans hphase
    rfl
  refine hs.of_section htask hstarts ?_ rfl rfl ?_ ?_ ?_ ?_ ?_ ?_
  · intro epochs
    rcases settlement.published with - | server <;> simp
  · rw [hserver]
    exact hsettles.generation_eq
  · rw [hserver]
    exact awaits_of_settles hs.awaits hsettles (fun g' hg ↦ commit_starts_ne hg) rfl rfl
  · rw [hafter]
    simp
  · intro g'
    rw [hafter, hbefore, hdiscarded, hpublished]
    have hdisposes := hsettles.disposes g'
    have hdropped := preparedBy_dropped hcases g'
    simp only [preparedBy_append, publishedBy_append, preparedBy_nil]
    omega
  · intro g'
    rw [hserver, hpublished, hdrained]
    have hplaces := hsettles.places g'
    simp only [publishedBy_append]
    omega
  · have hreserved := reserved_of_settles hs hsettles hepochs hown
    intro server hmem
    rw [hserver, hpublished, hdrained, List.mem_append, List.mem_append] at hmem
    rcases hmem with (hmem | hmem) | hmem | (hmem | hmem)
    · exact hs.carries server (Or.inl hmem)
    · exact hreserved server (Or.inl hmem)
    · exact hreserved server (Or.inr (Or.inl hmem))
    · exact hs.carries server (Or.inr (Or.inr hmem))
    · exact hreserved server (Or.inr (Or.inr hmem))

theorem sound_refresh (hs : s.Sound) (htask : s.starts g = some ⟨upstreamEpochs, .published⟩)
    (failure : Option String) : (s.refresh g failure).Sound := by
  have hbefore : s.holds g = [] := holds_of_starts htask
  have hafter : (s.refresh g failure).holds g = [] := holds_of_none refresh_starts_self
  have hawaits : (s.refresh g failure).Awaits s.server := by
    refine hs.awaits.mono (fun epochs hcompleting ↦ ?_) (fun _ _ _ h ↦ h)
      (List.Subset.refl _)
    obtain ⟨phase, hphase, hne⟩ := hcompleting
    have hg : s.server.generation ≠ g := by
      intro hg
      rw [hg, htask] at hphase
      obtain ⟨⟩ := hphase
      exact hne rfl
    exact ⟨phase, (refresh_starts_ne hg).trans hphase, hne⟩
  have hserver : (s.refresh g failure).server.generation = s.server.generation ∧
      (s.refresh g failure).server.held = s.server.held ∧
      (s.refresh g failure).Awaits (s.refresh g failure).server := by
    rcases refresh_server s g failure with hserver | ⟨server, e, e', hbefore, hserver⟩
    · rw [hserver]
      exact ⟨rfl, rfl, hawaits⟩
    · rw [hserver, hbefore]
      exact ⟨rfl, rfl, trivial⟩
  refine hs.of_section htask rfl (by simp) rfl rfl hserver.1 hserver.2.2 ?_ ?_ ?_ ?_
  · rw [hafter]
    simp
  · intro g'
    rw [hbefore, hafter]
    rfl
  · intro g'
    rw [hserver.2.1]
    rfl
  · intro server hmem
    rw [hserver.2.1] at hmem
    exact hs.carries server hmem

theorem sound_completeServeStop (hs : s.Sound) (g : ℕ) : (s.completeServeStop g).Sound := by
  have hawaits : (s.completeServeStop g).Awaits (s.completeServeStop g).server := by
    -- the end of the drain that the state waits for stops it, and any other leaves it waiting
    by_cases hstopping : ∃ listen draining, s.server = .stopping g listen draining
    · obtain ⟨listen, draining, hbefore⟩ := hstopping
      have hserver : (s.completeServeStop g).server = .stopped g := by
        simp [completeServeStop, hbefore]
      rw [hserver]
      trivial
    · have hserver : (s.completeServeStop g).server = s.server := by
        refine (completeServeStop_server s g).resolve_right ?_
        rintro ⟨listen, draining, hbefore, -⟩
        exact hstopping ⟨listen, draining, hbefore⟩
      rw [hserver]
      refine hs.awaits.mono (fun _ h ↦ h) (fun g' listen hbefore hmem ↦ ?_) (List.Subset.refl _)
      refine (List.mem_erase_of_ne ?_).mpr hmem
      rintro rfl
      exact hstopping ⟨listen, true, hbefore⟩
  have hsound : Sound { s with server := (s.completeServeStop g).server } := by
    rcases completeServeStop_server s g with hserver | ⟨listen, draining, hbefore, hserver⟩
    · rw [hserver]
      exact hs
    · rw [hserver]
      refine hs.setServer ?_ ?_ trivial
      · rw [hbefore]
        rfl
      · rw [hbefore]
        rfl
  exact ⟨hsound.accepted_le, hsound.increasing, hsound.task_le, hawaits, hsound.own,
    hsound.disposed, hsound.once, hsound.unprepared, hsound.placed, hsound.carries⟩

/-- **Soundness.** Every section keeps it. -/
theorem sound_step {op : ServeOp} (hs : s.Sound) (h : s.step op = some s') : s'.Sound := by
  rcases op with call | ⟨expected, taskAlive⟩ | ⟨g, prepare⟩ | ⟨g, metadata⟩ | ⟨g, outcomes⟩ |
    ⟨g, failure⟩ | g
  · rcases step_start h with rfl | ⟨listen, revision, hidle, rfl⟩
    · exact hs
    · exact sound_reserve hs hidle listen revision call.upstreamEpochs
  · rcases step_stop h with rfl | hstops
    · exact hs
    · exact sound_stops hs hstops
  · obtain ⟨upstreamEpochs, htask, rfl⟩ := step_observe.mp h
    exact sound_observe hs htask prepare
  · obtain ⟨upstreamEpochs, result, applying, htask, rfl⟩ := step_handOff.mp h
    exact sound_handOff hs htask metadata
  · obtain ⟨upstreamEpochs, result, resumeListen, htask, rfl⟩ := step_commit.mp h
    exact sound_commit hs htask outcomes
  · obtain ⟨upstreamEpochs, htask, rfl⟩ := step_refresh.mp h
    exact sound_refresh hs htask failure
  · obtain ⟨-, rfl⟩ := step_completeStop.mp h
    exact sound_completeServeStop hs g

/-! ## Commands -/

/-- Accepted starts are remembered. -/
theorem accepted_prefix_step {op : ServeOp} (h : s.step op = some s') :
    s.accepted <+: s'.accepted := by
  rcases op with call | ⟨expected, taskAlive⟩ | ⟨g, prepare⟩ | ⟨g, metadata⟩ | ⟨g, outcomes⟩ |
    ⟨g, failure⟩ | g
  · rcases step_start h with rfl | ⟨listen, revision, -, rfl⟩
    · exact List.prefix_refl _
    · exact List.prefix_append _ _
  · rcases step_stop h with rfl | hstops
    · exact List.prefix_refl _
    · rcases hstops with - | - | - | - <;> exact List.prefix_refl _
  · obtain ⟨upstreamEpochs, -, rfl⟩ := step_observe.mp h
    exact List.prefix_refl _
  · obtain ⟨upstreamEpochs, result, applying, -, rfl⟩ := step_handOff.mp h
    exact List.prefix_refl _
  · obtain ⟨upstreamEpochs, result, resumeListen, -, rfl⟩ := step_commit.mp h
    exact List.prefix_refl _
  · obtain ⟨upstreamEpochs, -, rfl⟩ := step_refresh.mp h
    exact List.prefix_refl _
  · obtain ⟨-, rfl⟩ := step_completeStop.mp h
    exact List.prefix_refl _

/-- The proxy is stopped, or is on its way there. -/
def Halted : ServerLifecycle → Prop
  | .stopped _ | .stopping _ _ _ => True
  | .starting _ _ _ | .applying _ _ _ | .running _ _ _ | .failed _ _ _ => False

theorem halted_stops (h : Stops s s') : Halted s'.server := by
  rcases h with - | - | (⟨g, listen, draining, hserver⟩ | ⟨g, hserver⟩) | -
  · trivial
  · trivial
  · rw [hserver]
    trivial
  · rw [hserver]
    trivial
  · trivial

/-- The last section of a start leaves a halted proxy halted. -/
theorem halted_of_settles {server : ServerLifecycle} {result : Except StartFailure PreparedServer}
    {settlement : StartSettlement} (h : server.Settles g upstreamEpochs result settlement)
    (hhalted : Halted server) : Halted settlement.server := by
  rcases h with - | ⟨rfl, -⟩ | rfl | ⟨rfl, -⟩ | ⟨rfl, -⟩ | rfl | rfl | @⟨_, draining, rfl⟩
  · exact hhalted
  · exact hhalted.elim
  · exact hhalted.elim
  · exact hhalted.elim
  · exact hhalted.elim
  · exact hhalted.elim
  · exact hhalted.elim
  · rcases draining with - | - <;> trivial

/-- A halted proxy stays halted, unless a start is accepted. -/
theorem halted_step {op : ServeOp} (hs : Halted s.server) (h : s.step op = some s')
    (haccepted : s'.accepted = s.accepted) : Halted s'.server := by
  rcases op with call | ⟨expected, taskAlive⟩ | ⟨g, prepare⟩ | ⟨g, metadata⟩ | ⟨g, outcomes⟩ |
    ⟨g, failure⟩ | g
  · rcases step_start h with rfl | ⟨listen, revision, -, rfl⟩
    · exact hs
    · exact absurd haccepted (by simp [reserve])
  · rcases step_stop h with rfl | hstops
    · exact hs
    · exact halted_stops hstops
  · obtain ⟨upstreamEpochs, -, rfl⟩ := step_observe.mp h
    exact hs
  · obtain ⟨upstreamEpochs, result, applying, -, rfl⟩ := step_handOff.mp h
    rcases handOff_server s g upstreamEpochs result applying metadata with
      hserver | ⟨revision, old, hold, -⟩
    · rw [hserver]
      exact hs
    · rw [hold] at hs
      exact hs.elim
  · obtain ⟨upstreamEpochs, result, resumeListen, -, rfl⟩ := step_commit.mp h
    obtain ⟨settlement, hsettles, -, hserver, -⟩ :=
      exists_commit s g upstreamEpochs result resumeListen outcomes
    rw [hserver]
    exact halted_of_settles hsettles hs
  · obtain ⟨upstreamEpochs, -, rfl⟩ := step_refresh.mp h
    rcases refresh_server s g failure with hserver | ⟨server, e, e', hbefore, -⟩
    · rw [hserver]
      exact hs
    · rw [hbefore] at hs
      exact hs.elim
  · obtain ⟨-, rfl⟩ := step_completeStop.mp h
    rcases completeServeStop_server s g with hserver | ⟨listen, draining, -, hserver⟩
    · rw [hserver]
      exact hs
    · rw [hserver]
      trivial

/-- A halted proxy stays halted for a whole run without an accepted start. -/
theorem halted_run {ops : List ServeOp} (hs : Halted s.server) (h : Reaches step s ops s')
    (haccepted : s'.accepted = s.accepted) : Halted s'.server := by
  have hinvariant : s.accepted <+: s'.accepted ∧
      (s'.accepted = s.accepted → Halted s'.server) := by
    refine h.invariant (I := fun t ↦ s.accepted <+: t.accepted ∧
      (t.accepted = s.accepted → Halted t.server)) ⟨List.prefix_refl _, fun _ ↦ hs⟩ ?_
    rintro t op t' ⟨hpre, hhalted⟩ hstep
    have hgrows := accepted_prefix_step hstep
    refine ⟨hpre.trans hgrows, fun heq ↦ ?_⟩
    have hsame : t.accepted = s.accepted :=
      (hpre.eq_of_length_le (heq ▸ hgrows.length_le)).symm
    exact halted_step (hhalted hsame) hstep (heq.trans hsame.symm)
  exact hinvariant.2 haccepted

/-- A completion changes the state only while its own generation is in flight, or to note a failure
after the publication of its server. -/
theorem changes_of_completes {op : ServeOp} (h : s.step op = some s') (hop : op.completes = some g)
    (hchanged : s'.server ≠ s.server) :
    s.server.generation = g ∧ (s.server.inFlight = true ∨
      ∃ server e e', s.server = .running g server e ∧ s'.server = .running g server (some e')) := by
  rcases op with call | ⟨expected, taskAlive⟩ | ⟨g, prepare⟩ | ⟨g, metadata⟩ | ⟨g, outcomes⟩ |
    ⟨g, failure⟩ | g
  · cases hop
  · cases hop
  · obtain ⟨upstreamEpochs, -, rfl⟩ := step_observe.mp h
    exact absurd rfl hchanged
  · obtain rfl := Option.some.inj hop
    obtain ⟨upstreamEpochs, result, applying, -, rfl⟩ := step_handOff.mp h
    rcases handOff_server s g upstreamEpochs result applying metadata with
      hserver | ⟨revision, old, hold, -⟩
    · exact absurd hserver hchanged
    · rw [hold]
      exact ⟨rfl, Or.inl rfl⟩
  · obtain rfl := Option.some.inj hop
    obtain ⟨upstreamEpochs, result, resumeListen, -, rfl⟩ := step_commit.mp h
    obtain ⟨settlement, hsettles, -, hserver, -⟩ :=
      exists_commit s g upstreamEpochs result resumeListen outcomes
    rw [hserver] at hchanged
    rcases hsettles with - | ⟨hbefore, -⟩ | hbefore | ⟨hbefore, -⟩ | ⟨hbefore, -⟩ | hbefore |
      hbefore | hbefore
    · exact absurd rfl hchanged
    all_goals
      rw [hbefore]
      exact ⟨rfl, Or.inl rfl⟩
  · obtain rfl := Option.some.inj hop
    obtain ⟨upstreamEpochs, -, rfl⟩ := step_refresh.mp h
    rcases refresh_server s g failure with hserver | ⟨server, e, e', hbefore, hserver⟩
    · exact absurd hserver hchanged
    · rw [hbefore]
      exact ⟨rfl, Or.inr ⟨server, e, e', rfl, hserver⟩⟩
  · obtain rfl := Option.some.inj hop
    obtain ⟨-, rfl⟩ := step_completeStop.mp h
    rcases completeServeStop_server s g with hserver | ⟨listen, draining, hbefore, -⟩
    · exact absurd hserver hchanged
    · rw [hbefore]
      exact ⟨rfl, Or.inl rfl⟩

/-- When every task has come to its end, nothing is in flight. -/
theorem Sound.not_inFlight (hs : s.Sound) (hstarts : ∀ g, s.starts g = none)
    (hstops : s.stops = []) : s.server.inFlight = false := by
  have hcompleting (g : ℕ) (upstreamEpochs : UpstreamEpochs) :
      ¬ s.Completing g upstreamEpochs := by
    rintro ⟨phase, hphase, -⟩
    rw [hstarts g] at hphase
    cases hphase
  have hawaits := hs.awaits
  rcases hserver : s.server with g | ⟨g, listen, revision⟩ | ⟨g, revision, old⟩ |
    ⟨g, listen, - | -⟩ | ⟨g, server, e⟩ | ⟨g, listen, error⟩
  all_goals rw [hserver] at hawaits
  · rfl
  · obtain ⟨upstreamEpochs, h, -⟩ := hawaits
    exact absurd h (hcompleting g upstreamEpochs)
  · obtain ⟨upstreamEpochs, h, -⟩ := hawaits
    exact absurd h (hcompleting g upstreamEpochs)
  · obtain ⟨upstreamEpochs, h⟩ := hawaits
    exact absurd h (hcompleting g upstreamEpochs)
  · have hmem : g ∈ s.stops := hawaits
    rw [hstops] at hmem
    cases hmem
  · rfl
  · rfl

/-- What the commands are promised. -/
structure ObeysLastCommand (s : Supervisor) : Prop where
  /-- The generations of accepted starts increase. -/
  increasing : s.accepted.Pairwise fun r r' ↦ r.generation < r'.generation
  /-- A completion changes the state only while its own generation is in flight, or to note a
  failure after the publication. -/
  changes : ∀ op s' g, s.step op = some s' → op.completes = some g → s'.server ≠ s.server →
    s.server.generation = g ∧ (s.server.inFlight = true ∨
      ∃ server e e', s.server = .running g server e ∧ s'.server = .running g server (some e'))
  /-- After an accepted stop nothing runs, as long as no later start is accepted. -/
  stops : ∀ expected taskAlive stopped ops later,
    s.beginServeStopInner expected taskAlive = some stopped → Reaches step stopped ops later →
    later.accepted = stopped.accepted → ∀ g server e, later.server ≠ .running g server e
  /-- A prepared server is held by its task, discarded or published, and only one of these. -/
  disposed : ∀ prepared ∈ s.prepared, preparedBy prepared.start (s.holds prepared.start) +
    preparedBy prepared.start s.discarded + publishedBy prepared.start s.published = 1
  /-- A published server is held by the state, or was handed to one drain. -/
  placed : ∀ server ∈ s.published,
    publishedBy server.start s.server.held + publishedBy server.start s.drained = 1
  /-- A published server carries what its own start reserved. -/
  carries : ∀ server ∈ s.published, s.Reserved server
  /-- When every task has come to its end, the proxy is stopped, runs or has failed. -/
  settled : (∀ g, s.starts g = none) → s.stops = [] → s.server.inFlight = false

/-- **The last accepted command.** It is obeyed in every interleaving of commands and completions,
whatever the completions come to. -/
theorem obeysLastCommand {ops : List ServeOp} (h : Reaches step new ops s) :
    s.ObeysLastCommand := by
  have hs : s.Sound := h.invariant (I := Sound) sound_new fun s op s' hs h ↦ sound_step hs h
  refine ⟨hs.increasing, fun op s' g ↦ changes_of_completes, ?_, ?_, ?_, ?_, hs.not_inFlight⟩
  · intro expected taskAlive stopped ops later hstop hrun haccepted g server e hserver
    have hhalted := halted_run (halted_stops (stops_of_beginServeStopInner hstop)) hrun haccepted
    rw [hserver] at hhalted
    exact hhalted
  · intro prepared hmem
    have hpos := preparedBy_pos hmem
    have honce := hs.once prepared.start
    have hdisposed := hs.disposed prepared.start
    omega
  · intro server hmem
    have hpos := publishedBy_pos hmem
    have honce := hs.once server.start
    have hdisposed := hs.disposed server.start
    have hplaced := hs.placed server.start
    omega
  · intro server hmem
    exact hs.carries server (Or.inl hmem)

/-- A proxy that was started. -/
theorem obeysLastCommand_started :
    ∃ s, Reaches step new (upToCommit 1 7 ++ [.commit 1 plainOutcomes]) s ∧
      s.ObeysLastCommand := by
  have h : Reaches step new (upToCommit 1 7 ++ [.commit 1 plainOutcomes]) _ :=
    reaches_of_foldlM rfl
  exact ⟨_, h, obeysLastCommand h⟩

/-- A completion may change a state that is not in flight: after the publication of its server it
notes that the metadata of agents were not refreshed. -/
theorem not_inFlight_refresh :
    ∃ s s', Reaches step new (upToCommit 1 7 ++ [.commit 1 plainOutcomes]) s ∧
      s.step (.refresh 1 (some "agent_metadata")) = some s' ∧ s'.server ≠ s.server ∧
      s.server.inFlight = false := by
  refine ⟨_, _, reaches_of_foldlM rfl, rfl, fun h ↦ ?_, rfl⟩
  cases (ServerLifecycle.running.inj h).2.2

end Supervisor

end TokenStation
