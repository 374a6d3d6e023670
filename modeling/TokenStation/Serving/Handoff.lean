import TokenStation.Serving.Sections

/-!
# The handoff of a listener

A candidate for the listener of the running server can be bound only when that server has released
it, so a candidate that comes to nothing must give it back. The last section of a start restores the
old listener when the candidate could not be published; but the socket for it is reserved only when
the candidate could not be bound, and then the section leaves the old server as it is.
`neverTakenDown_iff` says that this is the only way to take a proxy down.
-/

namespace TokenStation

open Library

/-- The old server accepts again, with an error noted, or the proxy has failed. -/
def Restored (old : RunningServer) : ServerLifecycle → Prop
  | .running _ server (some _) => server = { old with accepting := true }
  | .failed _ _ _ => True
  | _ => False

/-- A section does not take the proxy down in silence: where it ends the application of a generation
without a publication, the old server is restored; and a server that runs accepts. -/
def NeverTakenDown (s : Supervisor) (op : ServeOp) (s' : Supervisor) : Prop :=
  (∀ generation outcomes revision old, op = .commit generation outcomes →
    s.server = .applying generation revision old → s'.published = s.published →
      Restored old s'.server) ∧
    ∀ generation server applyError, s'.server = .running generation server applyError →
      server.accepting = true

/-- A candidate on the listener of the server it is to replace is bound. -/
def BindsShared (s : Supervisor) (op : ServeOp) (_ : Supervisor) : Prop :=
  ∀ generation outcomes revision old upstreamEpochs prepared resumeListen,
    op = .commit generation outcomes → s.server = .applying generation revision old →
    s.starts generation = some ⟨upstreamEpochs, .handedOff (.ok prepared) resumeListen⟩ →
    old.listen = prepared.listen → outcomes.bind = .ok ()

/-! ## The last section -/

namespace ServerLifecycle

variable {server : ServerLifecycle} {g : ℕ} {upstreamEpochs : UpstreamEpochs}
  {result : Except StartFailure PreparedServer}
  {resumeListener : Option (Except StartFailure Unit)} {outcomes : StartOutcomes}

/-- The last section does not leave its generation being applied. -/
theorem settle_eq_applying {g' revision : ℕ} {old : RunningServer}
    (h : (server.settle g upstreamEpochs result resumeListener outcomes).server =
      applying g' revision old) : server = applying g' revision old ∧ g' ≠ g := by
  have hsettles := settles server g upstreamEpochs result resumeListener outcomes
  generalize server.settle g upstreamEpochs result resumeListener outcomes = settlement at *
  rcases hsettles with hkeep | - | - | - | - | - | - | @⟨listen, draining, -⟩
  · obtain rfl : server = applying g' revision old := h
    refine ⟨rfl, ?_⟩
    rintro rfl
    cases hkeep rfl
  · cases h
  · cases h
  · cases h
  · cases h
  · cases h
  · cases h
  · rcases draining with - | - <;> cases h

/-- What runs after the last section: what ran, a server that accepts, or the old server, with no
candidate on its listener. -/
theorem settle_eq_running {g' : ℕ} {running : RunningServer} {e : Option String}
    (h : (server.settle g upstreamEpochs result resumeListener outcomes).server =
      .running g' running e) :
    server = .running g' running e ∨ running.accepting = true ∨
      ∃ revision, server = applying g revision running ∧
        ∀ prepared, result = .ok prepared → running.listen ≠ prepared.listen := by
  have hsettles := settles server g upstreamEpochs result resumeListener outcomes
  generalize server.settle g upstreamEpochs result resumeListener outcomes = settlement at *
  rcases hsettles with - | - | - | - | @⟨message, revision, old, hserver, hlisten⟩ | - | - |
    @⟨listen, draining, -⟩
  · exact Or.inl h
  · obtain ⟨-, rfl, -⟩ := ServerLifecycle.running.inj h
    exact Or.inr (Or.inl rfl)
  · cases h
  · obtain ⟨-, rfl, -⟩ := ServerLifecycle.running.inj h
    exact Or.inr (Or.inl rfl)
  · obtain ⟨-, rfl, -⟩ := ServerLifecycle.running.inj h
    exact Or.inr (Or.inr ⟨revision, hserver, hlisten⟩)
  · obtain ⟨-, rfl, -⟩ := ServerLifecycle.running.inj h
    exact Or.inr (Or.inl rfl)
  · cases h
  · rcases draining with - | - <;> cases h

end ServerLifecycle

namespace Supervisor

variable {s s' : Supervisor} {op : ServeOp} {g revision : ℕ} {old : RunningServer}

/-! ## Where an application comes from -/

/-- A generation is being applied because its start was accepted over a running server, because it
was handed off, or because it was being applied and its task is not at the last section yet. -/
theorem applying_of_step (h : s.step op = some s') (h' : s'.server = .applying g revision old) :
    (∃ upstreamEpochs, s'.starts g = some ⟨upstreamEpochs, .preparing⟩ ∧
        ∃ g' e, s.server = .running g' old e) ∨
      (∃ upstreamEpochs result applying metadata before,
        s.starts g = some ⟨upstreamEpochs, .observed result applying⟩ ∧
        s.server = .applying g revision before ∧
        s' = s.handOff g upstreamEpochs result applying metadata) ∨
      (s.server = .applying g revision old ∧ ∀ upstreamEpochs result resumeListen,
        s'.starts g = some ⟨upstreamEpochs, .handedOff result resumeListen⟩ ↔
          s.starts g = some ⟨upstreamEpochs, .handedOff result resumeListen⟩) := by
  rcases op with call | ⟨expected, taskAlive⟩ | ⟨g', prepare⟩ | ⟨g', metadata⟩ | ⟨g', outcomes⟩ |
    ⟨g', failure⟩ | g'
  · rcases step_start h with rfl | ⟨listen, revision', -, rfl⟩
    · exact Or.inr (Or.inr ⟨h', fun _ _ _ ↦ Iff.rfl⟩)
    · rw [reserve] at h'
      dsimp only at h'
      split at h'
      next g' before e hserver =>
        obtain ⟨rfl, -, rfl⟩ := ServerLifecycle.applying.inj h'
        exact Or.inl ⟨call.upstreamEpochs, setTask_self _ _ _, g', e, hserver⟩
      next => cases h'
  · rcases step_stop h with rfl | hstops
    · exact Or.inr (Or.inr ⟨h', fun _ _ _ ↦ Iff.rfl⟩)
    · rcases hstops with - | - | - | -
      · cases h'
      · cases h'
      · exact Or.inr (Or.inr ⟨h', fun _ _ _ ↦ Iff.rfl⟩)
      · cases h'
  · obtain ⟨upstreamEpochs, htask, rfl⟩ := step_observe.mp h
    refine Or.inr (Or.inr ⟨h', fun _ _ _ ↦ ?_⟩)
    by_cases hg : g = g'
    · subst hg
      obtain ⟨result, applying, hafter⟩ := s.exists_observe_starts g upstreamEpochs prepare
      simp [hafter, htask]
    · rw [observe_starts_ne hg]
  · obtain ⟨upstreamEpochs, result, applying, htask, rfl⟩ := step_handOff.mp h
    by_cases hg : g = g'
    · subst hg
      obtain ⟨before, hserver⟩ : ∃ before, s.server = .applying g revision before := by
        rcases handOff_server s g upstreamEpochs result applying metadata with
          hserver | ⟨revision', before, hserver, hafter⟩
        · exact ⟨old, hserver.symm.trans h'⟩
        · obtain ⟨-, rfl, -⟩ := ServerLifecycle.applying.inj (hafter.symm.trans h')
          exact ⟨before, hserver⟩
      exact Or.inr (Or.inl
        ⟨upstreamEpochs, result, applying, metadata, before, htask, hserver, rfl⟩)
    · have hserver : s.server = .applying g revision old := by
        rcases handOff_server s g' upstreamEpochs result applying metadata with
          hserver | ⟨revision', before, hserver, hafter⟩
        · exact hserver.symm.trans h'
        · exact absurd (ServerLifecycle.applying.inj (hafter.symm.trans h')).1.symm hg
      refine Or.inr (Or.inr ⟨hserver, fun _ _ _ ↦ ?_⟩)
      rw [handOff_starts_ne hg]
  · obtain ⟨upstreamEpochs, result, resumeListen, htask, rfl⟩ := step_commit.mp h
    obtain ⟨hserver, hg⟩ := ServerLifecycle.settle_eq_applying h'
    refine Or.inr (Or.inr ⟨hserver, fun _ _ _ ↦ ?_⟩)
    rw [commit_starts_ne hg]
  · obtain ⟨upstreamEpochs, htask, rfl⟩ := step_refresh.mp h
    have hserver : s.server = .applying g revision old := by
      rcases refresh_server s g' failure with hserver | ⟨server, e, e', -, hafter⟩
      · exact hserver.symm.trans h'
      · cases hafter.symm.trans h'
    refine Or.inr (Or.inr ⟨hserver, fun _ _ _ ↦ ?_⟩)
    by_cases hg : g = g'
    · subst hg
      simp [htask]
    · rw [refresh_starts_ne hg]
  · obtain ⟨-, rfl⟩ := step_completeStop.mp h
    have hserver : s.server = .applying g revision old := by
      rcases completeServeStop_server s g' with hserver | ⟨listen, draining, -, hafter⟩
      · exact hserver.symm.trans h'
      · cases hafter.symm.trans h'
    exact Or.inr (Or.inr ⟨hserver, fun _ _ _ ↦ Iff.rfl⟩)

/-! ## Listeners that are released -/

/-- What the task of an application that was handed off knows: there is an address to resume
exactly when it is the candidate's too, and then the old server released its listener. -/
def Handed (s : Supervisor) : Prop :=
  ∀ g revision old upstreamEpochs result resumeListen, s.server = .applying g revision old →
    s.starts g = some ⟨upstreamEpochs, .handedOff result resumeListen⟩ →
    (resumeListen.isSome = true ↔
        ∃ prepared, result = .ok prepared ∧ old.listen = prepared.listen) ∧
      (resumeListen.isSome = true → old.accepting = false)

theorem isSome_sharedListen {server : ServerLifecycle}
    {result : Except StartFailure PreparedServer} (hserver : server = .applying g revision old) :
    (server.sharedListen g result).isSome = true ↔
      ∃ prepared, result = .ok prepared ∧ old.listen = prepared.listen := by
  rw [Option.isSome_iff_exists]
  constructor
  · rintro ⟨listen, h⟩
    obtain ⟨revision', old', prepared, hserver', hresult, hlisten, -⟩ :=
      ServerLifecycle.sharedListen_eq_some.mp h
    obtain ⟨-, -, rfl⟩ := ServerLifecycle.applying.inj (hserver.symm.trans hserver')
    exact ⟨prepared, hresult, hlisten⟩
  · rintro ⟨prepared, hresult, hlisten⟩
    exact ⟨old.listen, ServerLifecycle.sharedListen_eq_some.mpr
      ⟨revision, old, prepared, hserver, hresult, hlisten, rfl⟩⟩

theorem handed_step (hs : s.Handed) (h : s.step op = some s') : s'.Handed := by
  intro g revision old upstreamEpochs result resumeListen hserver htask
  rcases applying_of_step h hserver with ⟨upstreamEpochs', hpreparing, -⟩ |
    ⟨upstreamEpochs', result', applying, metadata, before, -, hbefore, rfl⟩ | ⟨hsame, hphase⟩
  · cases hpreparing.symm.trans htask
  · -- the section reads the address from the state in which it releases the listener
    obtain ⟨⟩ := (setTask_self s g _).symm.trans htask
    have hlisten : old.listen = before.listen := by
      rcases handOff_server s g upstreamEpochs result' applying metadata with
        hserver' | ⟨revision', old', hold, hserver'⟩
      · rw [(ServerLifecycle.applying.inj ((hserver.symm.trans hserver').trans hbefore)).2.2]
      · rw [(ServerLifecycle.applying.inj (hserver.symm.trans hserver')).2.2,
          (ServerLifecycle.applying.inj (hbefore.symm.trans hold)).2.2]
        rfl
    rw [hlisten]
    refine ⟨isSome_sharedListen hbefore, fun hsome ↦ ?_⟩
    have hreleased : (s.handOff g upstreamEpochs result' applying metadata).server =
        s.server.releaseListener := if_pos hsome
    rw [hserver, hbefore, ServerLifecycle.releaseListener] at hreleased
    rw [(ServerLifecycle.applying.inj hreleased).2.2]
    rfl
  · exact hs g revision old upstreamEpochs result resumeListen hsame
      ((hphase upstreamEpochs result resumeListen).mp htask)

/-- A server that runs accepts; one that is to be replaced does until it is handed off. -/
structure Accepts (s : Supervisor) : Prop where
  running : ∀ g server e, s.server = .running g server e → server.accepting = true
  applying : ∀ g revision old, s.server = .applying g revision old → old.accepting = true ∨
    ∃ upstreamEpochs result listen,
      s.starts g = some ⟨upstreamEpochs, .handedOff result (some listen)⟩

/-- What runs ran before, or the last section of a start left it so. -/
theorem running_of_step {server : RunningServer} {e : Option String} (h : s.step op = some s')
    (h' : s'.server = .running g server e) :
    (∃ e', s.server = .running g server e') ∨
      ∃ g' upstreamEpochs result resumeListen outcomes, op = .commit g' outcomes ∧
        s.starts g' = some ⟨upstreamEpochs, .handedOff result resumeListen⟩ ∧
        s' = s.commit g' upstreamEpochs result resumeListen outcomes := by
  rcases op with call | ⟨expected, taskAlive⟩ | ⟨g', prepare⟩ | ⟨g', metadata⟩ | ⟨g', outcomes⟩ |
    ⟨g', failure⟩ | g'
  · rcases step_start h with rfl | ⟨listen, revision', -, rfl⟩
    · exact Or.inl ⟨e, h'⟩
    · unfold reserve at h'
      dsimp only at h'
      split at h' <;> cases h'
  · rcases step_stop h with rfl | hstops
    · exact Or.inl ⟨e, h'⟩
    · rcases hstops with - | - | - | -
      · cases h'
      · cases h'
      · exact Or.inl ⟨e, h'⟩
      · cases h'
  · obtain ⟨upstreamEpochs, -, rfl⟩ := step_observe.mp h
    exact Or.inl ⟨e, h'⟩
  · obtain ⟨upstreamEpochs, result, applying, -, rfl⟩ := step_handOff.mp h
    rcases handOff_server s g' upstreamEpochs result applying metadata with
      hserver | ⟨revision', before, -, hserver⟩
    · exact Or.inl ⟨e, hserver.symm.trans h'⟩
    · cases hserver.symm.trans h'
  · obtain ⟨upstreamEpochs, result, resumeListen, htask, rfl⟩ := step_commit.mp h
    exact Or.inr ⟨g', upstreamEpochs, result, resumeListen, outcomes, rfl, htask, rfl⟩
  · obtain ⟨upstreamEpochs, -, rfl⟩ := step_refresh.mp h
    rcases refresh_server s g' failure with hserver | ⟨server', e', e'', hserver, hafter⟩
    · exact Or.inl ⟨e, hserver.symm.trans h'⟩
    · obtain ⟨rfl, rfl, -⟩ := ServerLifecycle.running.inj (hafter.symm.trans h')
      exact Or.inl ⟨e', hserver⟩
  · obtain ⟨-, rfl⟩ := step_completeStop.mp h
    rcases completeServeStop_server s g' with hserver | ⟨listen, draining, -, hafter⟩
    · exact Or.inl ⟨e, hserver.symm.trans h'⟩
    · cases hafter.symm.trans h'

/-- The old server of a generation accepts as its last section begins, unless the section has an
address to resume. -/
theorem accepting_of_handedOff (hs : s.Accepts) (hserver : s.server = .applying g revision old)
    {upstreamEpochs : UpstreamEpochs} {result : Except StartFailure PreparedServer}
    {resumeListen : Option String}
    (htask : s.starts g = some ⟨upstreamEpochs, .handedOff result resumeListen⟩)
    (hnone : ¬ resumeListen.isSome = true) : old.accepting = true := by
  rcases hs.applying g revision old hserver with haccepting | ⟨epochs, result', listen, htask'⟩
  · exact haccepting
  · obtain ⟨⟩ := htask.symm.trans htask'
    exact absurd rfl hnone

theorem accepts_step (hhanded : s.Handed) (hs : s.Accepts) (hbinds : BindsShared s op s')
    (h : s.step op = some s') : s'.Accepts := by
  constructor
  · intro g server e hserver
    rcases running_of_step h hserver with ⟨e', hrunning⟩ |
      ⟨g', upstreamEpochs, result, resumeListen, outcomes, rfl, htask, rfl⟩
    · exact hs.running g server e' hrunning
    · rcases ServerLifecycle.settle_eq_running hserver with hrunning | haccepting |
        ⟨revision, happlying, hlisten⟩
      · exact hs.running g server e hrunning
      · exact haccepting
      · refine accepting_of_handedOff hs happlying htask fun hsome ↦ ?_
        -- a shared listener is bound, so the old server would not be left running
        obtain ⟨prepared, rfl, hshared⟩ :=
          (hhanded g' revision server upstreamEpochs result resumeListen happlying htask).1.mp hsome
        have hbind := hbinds g' outcomes revision server upstreamEpochs prepared resumeListen rfl
          happlying htask hshared
        refine hlisten prepared ?_ hshared
        rw [StartOutcomes.bound, hbind]
        rfl
  · intro g revision old hserver
    rcases applying_of_step h hserver with ⟨upstreamEpochs, -, g', e, hrunning⟩ |
      ⟨upstreamEpochs, result, applying, metadata, before, htask, hbefore, rfl⟩ | ⟨hsame, hphase⟩
    · exact Or.inl (hs.running g' old e hrunning)
    · rcases hlisten : s.server.sharedListen g (metadata.transitioned applying result) with
        - | listen
      · have hunchanged : (s.handOff g upstreamEpochs result applying metadata).server =
            s.server := if_neg (by rw [hlisten]; exact Bool.false_ne_true)
        rcases hs.applying g revision old (hunchanged.symm.trans hserver) with haccepting |
          ⟨epochs, result', listen, htask'⟩
        · exact Or.inl haccepting
        · cases htask.symm.trans htask'
      · refine Or.inr ⟨upstreamEpochs, metadata.transitioned applying result, listen, ?_⟩
        rw [← hlisten]
        exact setTask_self s g _
    · rcases hs.applying g revision old hsame with haccepting | ⟨epochs, result, listen, htask⟩
      · exact Or.inl haccepting
      · exact Or.inr ⟨epochs, result, listen, (hphase epochs result (some listen)).mpr htask⟩

/-! ## The last section of an application -/

theorem bound_eq_ok {outcomes : StartOutcomes} {result : Except StartFailure PreparedServer}
    {prepared : PreparedServer} :
    outcomes.bound result = .ok prepared ↔ result = .ok prepared ∧ outcomes.bind = .ok () := by
  rcases result with failure | prepared'
  · simp [StartOutcomes.bound, Except.bind]
  · rcases hbind : outcomes.bind with failure | u
    · simp [StartOutcomes.bound, Except.bind, hbind, Except.map]
    · simp [StartOutcomes.bound, Except.bind, hbind, Except.map]

/-- An old server that accepts is restored when it is left as it is. -/
theorem restored_notApplied {message : String} (h : old.accepting = true) :
    Restored old (ServerLifecycle.notApplied g old message) := by
  change old = { old with accepting := true }
  rw [← h]

/-- The last section leaves the old server of a candidate that could not be bound as it is. -/
theorem commit_unbound (upstreamEpochs : UpstreamEpochs)
    {result : Except StartFailure PreparedServer} (resumeListen : Option String)
    {outcomes : StartOutcomes} {failure : StartFailure}
    (hserver : s.server = .applying g revision old)
    (hbound : outcomes.bound result = .error failure) :
    (s.commit g upstreamEpochs result resumeListen outcomes).server =
        ServerLifecycle.notApplied g old failure.publicMessage ∧
      (s.commit g upstreamEpochs result resumeListen outcomes).published = s.published := by
  unfold commit
  dsimp only
  rw [hserver, hbound, ServerLifecycle.settle_applying_error]
  exact ⟨rfl, List.append_nil _⟩

/-- When a candidate on the old listener is bound wherever there is one, the last section restores
the old server of a candidate that it does not publish. -/
theorem restored_of_commit (hhanded : s.Handed) (hs : s.Accepts) {outcomes : StartOutcomes}
    (hbinds : BindsShared s (.commit g outcomes) s')
    (h : s.step (.commit g outcomes) = some s') (hserver : s.server = .applying g revision old)
    (hunpublished : s'.published = s.published) : Restored old s'.server := by
  obtain ⟨upstreamEpochs, result, resumeListen, htask, rfl⟩ := step_commit.mp h
  -- the section has no address to resume, unless it binds a candidate on the same listener
  have haccepting (hdiffer : ∀ prepared, outcomes.bound result = .ok prepared →
      old.listen ≠ prepared.listen) : old.accepting = true := by
    refine accepting_of_handedOff hs hserver htask fun hsome ↦ ?_
    obtain ⟨prepared, hresult, hshared⟩ :=
      (hhanded g revision old upstreamEpochs result resumeListen hserver htask).1.mp hsome
    have hbind := hbinds g outcomes revision old upstreamEpochs prepared resumeListen rfl hserver
      (hresult ▸ htask) hshared
    exact hdiffer prepared (bound_eq_ok.mpr ⟨hresult, hbind⟩) hshared
  rcases hbound : outcomes.bound result with failure | prepared
  · rw [(commit_unbound upstreamEpochs resumeListen hserver hbound).1]
    exact restored_notApplied (haccepting fun prepared hok ↦ by cases hbound.symm.trans hok)
  · unfold commit at hunpublished ⊢
    dsimp only at hunpublished ⊢
    rw [hserver, hbound] at hunpublished ⊢
    simp only [Except.toOption, Option.isNone_some, Bool.false_eq_true, if_false,
      ServerLifecycle.settle, ServerLifecycle.generation_applying, ne_eq, not_true_eq_false]
      at hunpublished ⊢
    split
    next server hpublish => simp [hpublish] at hunpublished
    next failure hpublish =>
      rw [ServerLifecycle.settleUnpublished]
      split
      next => exact trivial
      next hlisten =>
        refine restored_notApplied (haccepting fun prepared' hok ↦ ?_)
        obtain rfl := Except.ok.inj (hbound.symm.trans hok)
        exact hlisten

/-- A shared listener that is not bound takes the proxy down. -/
theorem not_neverTakenDown_of_commit (hhanded : s.Handed) {outcomes : StartOutcomes}
    (h : s.step (.commit g outcomes) = some s') (hserver : s.server = .applying g revision old)
    {upstreamEpochs : UpstreamEpochs} {prepared : PreparedServer} {resumeListen : Option String}
    (htask : s.starts g = some ⟨upstreamEpochs, .handedOff (.ok prepared) resumeListen⟩)
    (hlisten : old.listen = prepared.listen) (hbind : outcomes.bind ≠ .ok ()) :
    ¬ NeverTakenDown s (.commit g outcomes) s' := by
  obtain ⟨upstreamEpochs', result, resumeListen', htask', rfl⟩ := step_commit.mp h
  obtain ⟨⟩ := htask.symm.trans htask'
  obtain ⟨hsome, hreleased⟩ := hhanded g revision old upstreamEpochs (.ok prepared) resumeListen
    hserver htask
  have hrefuses := hreleased (hsome.mpr ⟨prepared, rfl, hlisten⟩)
  rcases hbound : outcomes.bound (.ok prepared) with failure | prepared'
  · intro hnever
    obtain ⟨hafter, hpublished⟩ := commit_unbound upstreamEpochs resumeListen hserver hbound
    have hrestored := hnever.1 g outcomes revision old rfl hserver hpublished
    rw [hafter] at hrestored
    have haccepting : old.accepting = true := congrArg RunningServer.accepting hrestored
    rw [hrefuses] at haccepting
    cases haccepting
  · exact absurd (bound_eq_ok.mp hbound).2 hbind

/-- **The handoff.** A run never takes the proxy down in silence exactly when each candidate on the
listener of the server that it is to replace is bound, as long as its generation is applied. -/
theorem neverTakenDown_iff (ops : List ServeOp) :
    Along step new NeverTakenDown ops ↔ Along step new BindsShared ops := by
  have hhanded {before : List ServeOp} {s : Supervisor} (hs : Reaches step new before s) :
      s.Handed := by
    refine hs.invariant (I := Handed) ?_ fun s op s' hs h ↦ handed_step hs h
    rintro g revision old upstreamEpochs result resumeListen ⟨⟩
  constructor
  · intro halong before op s s' hpre hs h g outcomes revision old upstreamEpochs prepared
      resumeListen hop hserver htask hlisten
    subst hop
    by_contra hbind
    exact not_neverTakenDown_of_commit (hhanded hs) h hserver htask hlisten hbind
      (halong before _ s s' hpre hs h)
  · intro halong
    have hnew : new.Accepts := by
      constructor
      · rintro g server e ⟨⟩
      · rintro g revision old ⟨⟩
    have haccepts {before : List ServeOp} {s : Supervisor} (hpre : before <+: ops)
        (hs : Reaches step new before s) : s.Handed ∧ s.Accepts := by
      refine hs.invariant_along (I := fun s ↦ s.Handed ∧ s.Accepts) ⟨hhanded .nil, hnew⟩
        (halong.along_before hpre) fun s op s' hs hbinds h ↦ ?_
      exact ⟨handed_step hs.1 h, accepts_step hs.1 hs.2 hbinds h⟩
    intro before op s s' hpre hs h
    have hbefore := haccepts ((List.prefix_append _ _).trans hpre) hs
    have hbinds := halong before op s s' hpre hs h
    refine ⟨?_, (haccepts hpre (hs.snoc h)).2.running⟩
    rintro g outcomes revision old rfl hserver hunpublished
    exact restored_of_commit hbefore.1 hbefore.2 hbinds h hserver hunpublished

/-! ## A configuration on the same listener -/

/-- A proxy is started, and a second configuration is applied on the same listener, which is taken
while the candidate is bound and free when it is bound for the old server. -/
def sameListener : List ServeOp :=
  upToCommit 1 7 ++ [.commit 1 plainOutcomes, .refresh 1 none] ++ upToCommit 2 8 ++
    [.commit 2 { plainOutcomes with bind := .error (.new "listen_bind" "127.0.0.1:8787") }]

/-- The old server is left running, with its listener released and not restored. -/
theorem not_neverTakenDown_sameListener :
    (∃ s server message, Reaches step new sameListener s ∧
      s.server = .running 2 server (some message) ∧ server.accepting = false) ∧
      ¬ Along step new NeverTakenDown sameListener := by
  have hreaches : Reaches step new sameListener _ := reaches_of_foldlM rfl
  refine ⟨⟨_, _, _, hreaches, rfl, rfl⟩, fun h ↦ ?_⟩
  have hlast := h (upToCommit 1 7 ++ [.commit 1 plainOutcomes, .refresh 1 none] ++ upToCommit 2 8)
    (.commit 2 { plainOutcomes with bind := .error (.new "listen_bind" "127.0.0.1:8787") }) _ _
    (List.prefix_refl _) (reaches_of_foldlM rfl) rfl
  exact absurd (hlast.2 2 _ _ rfl) (by decide)

end Supervisor

end TokenStation
