import Mathlib.Data.List.Infix
import TokenStation.Client.RevisionRuns

/-!
# Revisions over whole histories

From the step lemma of the invariant: over a history whose save journals are kept, revisions
identify contents. A save whose journal is lost breaks that at once, since the refused call has
changed the memory; so the condition is exact.
-/

namespace TokenStation

open Library ConfigState ConfigDirectory

variable {hash : JsonValue → String} {file : Option JsonValue} {steps before : List ConfigStep}
  {step : ConfigStep}

/-- Every pair carried so far. -/
def givenAfter (hash : JsonValue → String) (file : Option JsonValue) (before : List ConfigStep) :
    Set (UInt64 × JsonValue) :=
  {pair | ∃ earlier, earlier <+: before ∧ pair ∈ (configRun hash file earlier).carried}

theorem configRun_concat (before : List ConfigStep) (step : ConfigStep) :
    configRun hash file (before ++ [step]) = (configRun hash file before).next hash step :=
  runSteps_concat _ _ before step

theorem givenAfter_concat (before : List ConfigStep) (step : ConfigStep) :
    givenAfter hash file (before ++ [step]) =
      givenAfter hash file before ∪ (configRun hash file (before ++ [step])).carried := by
  ext pair
  constructor
  · rintro ⟨earlier, hearlier, hpair⟩
    rcases List.prefix_concat_iff.mp hearlier with rfl | hearlier
    · exact .inr hpair
    · exact .inl ⟨earlier, hearlier, hpair⟩
  · rintro (⟨earlier, hearlier, hpair⟩ | hpair)
    · exact ⟨earlier, hearlier.trans (List.prefix_append _ _), hpair⟩
    · exact ⟨_, List.prefix_refl _, hpair⟩

theorem Recognizes.of_prefix (h : Recognizes hash file steps) (hbefore : before <+: steps) :
    Recognizes hash file before := by
  have hoccurs : ∀ content, Occurs file before content → Occurs file steps content := by
    rintro content (hfile | ⟨step, hmem, hcontent⟩)
    · exact .inl hfile
    · exact .inr ⟨step, hbefore.subset hmem, hcontent⟩
  exact ⟨fun content hcontent ↦ h.length content (hoccurs content hcontent),
    fun a ha b hb heq ↦ h.injective a (hoccurs a ha) b (hoccurs b hb) heq⟩

theorem Roomy.of_prefix (h : Roomy hash file steps) (hbefore : before <+: steps) :
    Roomy hash file before :=
  fun earlier step hstep hreserves ↦ h earlier step (hstep.trans hbefore) hreserves

section Kept

variable (hrecognizes : Recognizes hash file steps) (hroom : Roomy hash file steps)
  (hkept : ∀ before step, before ++ [step] <+: steps →
    JournalKept hash (configRun hash file before) step)
include hrecognizes hroom hkept

/-- One step of a history, from the invariant before it. -/
theorem advances_run (hstep : before ++ [step] <+: steps)
    (h : (configRun hash file before).Sound hash {c | Occurs file steps c}
      (givenAfter hash file before)) :
    Advances hash {c | Occurs file steps c} (givenAfter hash file before)
      (configRun hash file before) (configRun hash file (before ++ [step])) := by
  rw [configRun_concat]
  refine h.next hrecognizes.injective hrecognizes.length (fun content hcontent ↦ ?_)
    (hkept before step hstep) (hroom before step hstep)
  exact .inr ⟨step, hstep.subset (List.mem_append_right _ List.mem_cons_self), hcontent⟩

/-- The invariant holds after every prefix of a history. -/
theorem sound_run (hbefore : before <+: steps) :
    (configRun hash file before).Sound hash {c | Occurs file steps c}
      (givenAfter hash file before) := by
  refine prefix_induction (motive := fun before ↦ (configRun hash file before).Sound hash
    {c | Occurs file steps c} (givenAfter hash file before)) ?_ (fun before step hstep ih ↦ ?_)
    hbefore
  · have hnone : (configRun hash file []).session = none := rfl
    have hgiven : ∀ p, p ∉ givenAfter hash file [] := by
      rintro p ⟨earlier, hearlier, hpair⟩
      rw [List.prefix_nil.mp hearlier] at hpair
      exact not_carries_of_session_none hnone hpair
    refine ⟨fun p hp ↦ absurd hp (hgiven p), fun p hp ↦ absurd hp (hgiven p), fun p hp ↦ ?_,
      fun content hcontent ↦ .inl hcontent, by simp [configRun, fresh], ?_⟩
    · exact absurd hp (not_carries_of_session_none hnone)
    · intro state phase hsession
      nomatch hnone.symm.trans hsession
  · rw [givenAfter_concat]
    exact (advances_run hrecognizes hroom hkept hstep ih).sound

end Kept

/-! ## Calls that fail -/

section Refused

variable {directory : ConfigDirectory} {state after : ConfigState}

/-- A draft that is refused leaves the memory. -/
theorem eq_of_refused_observe {draft : JsonValue} {writes : Bool}
    (h : directory.refused hash (.observe draft writes) = some (state, after)) : after = state := by
  rcases hsession : directory.session with - | ⟨session, - | saving | saving⟩
  · simp [refused, hsession] at h
  · rcases observeDraft_cases hash draft writes session directory.sidecar with ⟨-, hcall⟩ |
      ⟨-, -, hcall⟩ | ⟨-, -, -, error, hcall⟩ | ⟨-, -, -, hcall⟩
    · simp [refused, hsession, hcall] at h
    · simp [refused, hsession, hcall] at h
    · simp only [refused, hsession, hcall, Option.some.injEq, Prod.mk.injEq] at h
      exact h.2.symm.trans h.1
    · simp [refused, hsession, hcall] at h
  · simp [refused, hsession] at h
  · simp [refused, hsession] at h

/-- What a refused save has done to the memory: nothing, if its draft was not observed, and else
the observed draft was journaled. -/
theorem refused_prepare {draft : JsonValue} {reserves writes : Bool}
    (h : directory.refused hash (.prepare draft reserves writes) = some (state, after)) :
    directory.session = some (state, .idle) ∧
      (after = state ∧ reserves = false ∧ fingerprint hash draft ≠ state.draftFingerprint ∧
          fingerprint hash draft ≠ state.savedFingerprint ∨
        writes = false ∧ ∃ observed sidecar, observeDraft hash draft reserves state
          directory.sidecar = (.ok (), observed, sidecar) ∧ after = observed.withPending) := by
  rcases hsession : directory.session with - | ⟨session, - | saving | saving⟩
  · simp [refused, hsession] at h
  · have hjournal : ∀ {observed sidecar}, observeDraft hash draft reserves session
        directory.sidecar = (.ok (), observed, sidecar) →
          session = state ∧ writes = false ∧ after = observed.withPending := by
      intro observed sidecar hcall
      rcases writes with - | -
      · simp only [refused, hsession, prepareSave, hcall, writeLedger, Bool.false_eq_true,
          if_false, Option.some.injEq, Prod.mk.injEq] at h
        exact ⟨h.1, rfl, h.2.symm⟩
      · simp [refused, hsession, prepareSave, hcall, writeLedger] at h
    rcases observeDraft_cases hash draft reserves session directory.sidecar with ⟨-, hcall⟩ |
      ⟨-, -, hcall⟩ | ⟨hne, hne', hreserves, error, hcall⟩ | ⟨-, -, -, hcall⟩
    · obtain ⟨rfl, hwrites, hafter⟩ := hjournal hcall
      exact ⟨rfl, .inr ⟨hwrites, _, _, hcall, hafter⟩⟩
    · obtain ⟨rfl, hwrites, hafter⟩ := hjournal hcall
      exact ⟨rfl, .inr ⟨hwrites, _, _, hcall, hafter⟩⟩
    · simp only [refused, hsession, prepareSave, hcall, Option.some.injEq, Prod.mk.injEq] at h
      obtain ⟨rfl, rfl⟩ := h
      exact ⟨rfl, .inl ⟨rfl, hreserves, hne, hne'⟩⟩
    · obtain ⟨rfl, hwrites, hafter⟩ := hjournal hcall
      exact ⟨rfl, .inr ⟨hwrites, _, _, hcall, hafter⟩⟩
  · simp [refused, hsession] at h
  · simp [refused, hsession] at h

/-- Where the journal is kept, a refused call leaves the memory. -/
theorem eq_of_refused (hkept : JournalKept hash directory step)
    (h : directory.refused hash step = some (state, after)) : after = state := by
  rcases step with _ | ⟨draft, writes⟩ | ⟨draft, reserves, writes⟩ | _ | _ | _ | _
  · simp [refused] at h
  · exact eq_of_refused_observe h
  · obtain ⟨hsession, ⟨heq, -⟩ | ⟨hwrites, observed, sidecar, hcall, rfl⟩⟩ := refused_prepare h
    · exact heq
    · rcases hkept state hsession with hyes | ⟨hno, hne, hne'⟩ | ⟨heq, hne, hpending, hjournal⟩
      · rw [hwrites] at hyes
        cases hyes
      · rw [observeDraft, if_neg hne, if_neg hne', hno] at hcall
        cases hcall
      · rw [observeDraft, if_pos heq] at hcall
        obtain rfl := (Prod.mk.inj (Prod.mk.inj hcall).2).1
        exact withPending_eq_self hne hpending hjournal
  · simp [refused] at h
  · simp [refused] at h
  · simp [refused] at h
  · simp [refused] at h

/-- A refused save that leaves the memory was journaled already, or its draft was not observed. -/
theorem journalKept_of_refused {known : Set JsonValue} {given : Set (UInt64 × JsonValue)}
    (hsound : directory.Sound hash known given)
    (h : ∀ state after, directory.refused hash step = some (state, after) →
      after.draft = state.draft ∧ after.draftRevision = state.draftRevision ∧
        after.ledger = state.ledger) : JournalKept hash directory step := by
  rcases step with _ | _ | ⟨draft, reserves, writes⟩ | _ | _ | _ | _
  · trivial
  · trivial
  · intro state hsession
    by_cases hwrites : writes = true
    · exact .inl hwrites
    obtain rfl : writes = false := by simpa using hwrites
    have hjournal : ∀ {observed sidecar}, observeDraft hash draft reserves state
        directory.sidecar = (.ok (), observed, sidecar) →
          observed.withPending.draft = state.draft ∧
            observed.withPending.draftRevision = state.draftRevision ∧
            observed.withPending.ledger = state.ledger := by
      intro observed sidecar hcall
      refine h state observed.withPending ?_
      simp only [refused, hsession, prepareSave, hcall, writeLedger, Bool.false_eq_true, if_false]
    have hdraft := (hsound.session state .idle hsession).1.draft.2
    rcases observeDraft_cases hash draft reserves state directory.sidecar with ⟨heq, hcall⟩ |
      ⟨hne, -, hcall⟩ | ⟨hne, hne', hreserves, error, hcall⟩ | ⟨hne, -, -, hcall⟩
    · obtain ⟨-, hrevision, hledger⟩ := hjournal hcall
      have hnonzero : state.draftRevision ≠ 0 := by
        intro hzero
        rw [withPending, if_pos hzero] at hrevision
        exact RevisionLedger.nextRevision_ne_zero _ (hrevision.trans hzero)
      rw [withPending, if_neg hnonzero] at hledger
      refine .inr (.inr ⟨heq, hnonzero, ?_, ?_⟩)
      · rw [← hledger]
      · rw [← hledger]
    · -- the observed draft differs from the one before
      have hsame : draft = state.draft := by
        rw [← (hjournal hcall).1, withPending]
        split <;> rfl
      exact absurd (hsame ▸ hdraft) hne
    · exact .inr (.inl ⟨hreserves, hne, hne'⟩)
    · have hsame : draft = state.draft := by
        rw [← (hjournal hcall).1, withPending]
        split <;> rfl
      exact absurd (hsame ▸ hdraft) hne
  · trivial
  · trivial
  · trivial
  · trivial

end Refused

/-! ## A saved content is found again -/

/-- Loading the content with this digest from the ledger gives it this revision. -/
def Recalls (ledger : RevisionLedger) (revision : UInt64) (found : String) : Prop :=
  (ledger.pendingFingerprint = some found → ledger.pendingRevision = some revision) ∧
    (ledger.pendingFingerprint ≠ some found →
      ledger.committedFingerprint = found ∧ ledger.committedRevision = revision)

theorem reconcile_of_recalls {ledger : RevisionLedger} {revision : UInt64} {found : String}
    (h : Recalls ledger revision found) : (reconcile ledger found true).2 = revision := by
  by_cases hpending : ledger.pendingFingerprint = some found
  · simp only [reconcile, Bool.not_true, Bool.false_eq_true, if_false, if_pos hpending,
      h.1 hpending, Option.getD_some]
  · obtain ⟨hfound, hrevision⟩ := h.2 hpending
    simp only [reconcile, Bool.not_true, Bool.false_eq_true, if_false, if_neg hpending,
      if_pos hfound, hrevision]

/-- The sidecar recalls what was saved, and so does the rest of the session. -/
structure KeepsSaved (directory : ConfigDirectory) (revision : UInt64) (found : String) : Prop where
  sidecar : ∃ ledger, directory.sidecar = some ledger ∧ Recalls ledger revision found
  written : ∀ state draft, directory.session = some (state, .written draft) →
    state.draftRevision = revision ∧ state.draftFingerprint = found
  session : ∀ state phase, directory.session = some (state, phase) →
    (∀ draft, phase ≠ .written draft) →
      state.savedRevision = revision ∧ state.savedFingerprint = found ∧
        state.ledger.committedFingerprint = found ∧ state.ledger.committedRevision = revision ∧
        (state.ledger.pendingFingerprint = some found →
          state.ledger.pendingRevision = some revision)

namespace KeepsSaved

variable {directory : ConfigDirectory} {revision : UInt64} {found : String} {state : ConfigState}

/-- No session is left, and the sidecar is the same. -/
theorem stop (h : KeepsSaved directory revision found) {after : ConfigDirectory}
    (hsession : after.session = none) (hsidecar : after.sidecar = directory.sidecar) :
    KeepsSaved after revision found := by
  refine ⟨hsidecar ▸ h.sidecar, fun state draft hsome ↦ ?_, fun state phase hsome ↦ ?_⟩
  · nomatch hsession.symm.trans hsome
  · nomatch hsession.symm.trans hsome

/-- A session that recalls in memory, over a sidecar that recalls. -/
theorem of_session {after : ConfigDirectory} {phase : SavePhase} {ledger : RevisionLedger}
    (hsidecar : after.sidecar = some ledger) (hledger : Recalls ledger revision found)
    (hsession : after.session = some (state, phase)) (hphase : ∀ draft, phase ≠ .written draft)
    (hstate : state.savedRevision = revision ∧ state.savedFingerprint = found ∧
      state.ledger.committedFingerprint = found ∧ state.ledger.committedRevision = revision ∧
      (state.ledger.pendingFingerprint = some found →
        state.ledger.pendingRevision = some revision)) : KeepsSaved after revision found := by
  refine ⟨⟨ledger, hsidecar, hledger⟩, fun other draft hsome ↦ ?_, fun other phase' hsome _ ↦ ?_⟩
  · obtain ⟨-, rfl⟩ := Prod.mk.inj (Option.some.inj (hsession.symm.trans hsome))
    exact absurd rfl (hphase draft)
  · obtain ⟨rfl, -⟩ := Prod.mk.inj (Option.some.inj (hsession.symm.trans hsome))
    exact hstate

/-- Observing a draft keeps what was saved. -/
theorem observe (h : KeepsSaved directory revision found) {draft : JsonValue} {writes : Bool}
    (hsession : directory.session = some (state, .idle)) :
    KeepsSaved (directory.next hash (.observe draft writes)) revision found := by
  obtain ⟨ledger, hsidecar, hledger⟩ := h.sidecar
  obtain ⟨hrevision, hfound, hcommitted, hcommittedRevision, hpending⟩ :=
    h.session state .idle hsession (by simp)
  rcases observeDraft_cases hash draft writes state directory.sidecar with ⟨-, hcall⟩ |
    ⟨-, -, hcall⟩ | ⟨-, -, -, error, hcall⟩ | ⟨-, -, -, hcall⟩
  · have hnext : directory.next hash (.observe draft writes) = directory := by
      simp only [next, hsession, hcall]
      rw [← hsession]
    rw [hnext]
    exact h
  · simp only [next, hsession, hcall]
    exact of_session hsidecar hledger rfl (by simp)
      ⟨hrevision, hfound, hcommitted, hcommittedRevision, hpending⟩
  · have hnext : directory.next hash (.observe draft writes) = directory := by
      simp only [next, hsession, hcall]
      rw [← hsession]
    rw [hnext]
    exact h
  · simp only [next, hsession, hcall]
    exact of_session rfl ⟨hpending, fun _ ↦ ⟨hcommitted, hcommittedRevision⟩⟩ rfl (by simp)
      ⟨hrevision, hfound, hcommitted, hcommittedRevision, hpending⟩

/-- Journaling a save keeps what was saved: the journal of the same content names the same
revision. -/
theorem journal (h : KeepsSaved directory revision found) {draft : JsonValue}
    (hsession : directory.session = some (state, .idle))
    (hagree : state.withPending.draftFingerprint = found →
      state.withPending.draftRevision = revision) :
    KeepsSaved { directory with
      sidecar := some state.withPending.ledger
      session := some (state.withPending, .prepared draft) } revision found := by
  obtain ⟨hrevision, hfound, hcommitted, hcommittedRevision, -⟩ :=
    h.session state .idle hsession (by simp)
  have hsame : state.withPending.savedRevision = state.savedRevision ∧
      state.withPending.savedFingerprint = state.savedFingerprint ∧
      state.withPending.ledger.committedFingerprint = state.ledger.committedFingerprint ∧
      state.withPending.ledger.committedRevision = state.ledger.committedRevision ∧
      state.withPending.ledger.pendingRevision = some state.withPending.draftRevision ∧
      state.withPending.ledger.pendingFingerprint = some state.withPending.draftFingerprint := by
    rw [withPending]
    split <;> exact ⟨rfl, rfl, rfl, rfl, rfl, rfl⟩
  obtain ⟨hsr, hsf, hcf, hcr, hpr, hpf⟩ := hsame
  have hpending : state.withPending.ledger.pendingFingerprint = some found →
      state.withPending.ledger.pendingRevision = some revision := by
    intro heq
    rw [hpr, hagree (Option.some.inj (hpf.symm.trans heq))]
  refine of_session rfl ⟨hpending, fun _ ↦ ⟨hcf.trans hcommitted, hcr.trans hcommittedRevision⟩⟩ rfl
    (by simp) ⟨hsr.trans hrevision, hsf.trans hfound, hcf.trans hcommitted,
      hcr.trans hcommittedRevision, hpending⟩

/-- Finishing the save commits what was written. -/
theorem finish (h : KeepsSaved directory revision found) {draft : JsonValue}
    (hsession : directory.session = some (state, .written draft)) (writes : Bool) :
    KeepsSaved (directory.next hash (.finish writes)) revision found := by
  obtain ⟨ledger, hsidecar, hledger⟩ := h.sidecar
  obtain ⟨hrevision, hfound⟩ := h.written state draft hsession
  have hstate : state.draftRevision = revision ∧ state.draftFingerprint = found ∧
      state.draftFingerprint = found ∧ state.draftRevision = revision ∧
      ((none : Option String) = some found → (none : Option UInt64) = some revision) :=
    ⟨hrevision, hfound, hfound, hrevision, by rintro ⟨⟩⟩
  rcases writes with - | -
  · simp only [next, hsession, finishSave, writeLedger, Bool.false_eq_true, if_false]
    exact of_session hsidecar hledger rfl (by simp) hstate
  · simp only [next, hsession, finishSave, writeLedger, if_true]
    exact of_session rfl ⟨(by rintro ⟨⟩), fun _ ↦ ⟨hfound, hrevision⟩⟩ rfl (by simp)
      hstate

/-- A step of the rest of the session, or between the sessions, keeps what was saved. -/
theorem next (h : KeepsSaved directory revision found) (hrevision : revision ≠ 0)
    (hkept : JournalKept hash directory step)
    (hload : ∀ fallback writes, step ≠ .load fallback writes)
    (hwrite : step ≠ .writeConfig true) {known : Set JsonValue} {given : Set (UInt64 × JsonValue)}
    (hsound : (directory.next hash step).Sound hash known given) :
    KeepsSaved (directory.next hash step) revision found := by
  rcases step with ⟨fallback, writes⟩ | ⟨draft, writes⟩ | ⟨draft, reserves, writes⟩ | succeeds |
    writes | - | content
  · exact absurd rfl (hload fallback writes)
  · rcases hsession : directory.session with - | ⟨state, - | saving | saving⟩
    · simpa only [ConfigDirectory.next, hsession] using h
    · exact h.observe hsession
    · simpa only [ConfigDirectory.next, hsession] using h
    · simpa only [ConfigDirectory.next, hsession] using h
  · rcases hsession : directory.session with - | ⟨state, - | saving | saving⟩
    · simpa only [ConfigDirectory.next, hsession] using h
    · rcases next_prepare_cases hsession hkept with
        hnext | ⟨observed, sidecar, hcall, -, -, hnext⟩
      · rw [hnext]
        exact h
      · have hmiddle : directory.next hash (.observe draft reserves) =
            { directory with sidecar, session := some (observed, .idle) } := by
          simp only [ConfigDirectory.next, hsession, hcall]
        have hobserved :
            KeepsSaved (directory.next hash (.observe draft reserves)) revision found :=
          h.observe hsession
        rw [hmiddle] at hobserved
        rw [hnext] at hsound ⊢
        refine hobserved.journal rfl fun heq ↦ ?_
        -- the draft is the saved content, so it has the saved revision
        obtain ⟨hsaved, hfound, -⟩ := hobserved.session observed .idle rfl (by simp)
        have hagree := (hsound.session observed.withPending _ rfl).1.agree
        have hsame : observed.withPending.savedRevision = observed.savedRevision ∧
            observed.withPending.savedFingerprint = observed.savedFingerprint := by
          rw [withPending]
          split <;> exact ⟨rfl, rfl⟩
        rw [hsame.1, hsame.2, hsaved, hfound] at hagree
        exact hagree heq hrevision
    · simpa only [ConfigDirectory.next, hsession] using h
    · simpa only [ConfigDirectory.next, hsession] using h
  · obtain rfl : succeeds = false := by
      rcases succeeds with - | -
      · rfl
      · exact absurd rfl hwrite
    rcases hsession : directory.session with - | ⟨state, - | saving | saving⟩
    · simpa only [ConfigDirectory.next, hsession] using h
    · simpa only [ConfigDirectory.next, hsession] using h
    · obtain ⟨ledger, hsidecar, hledger⟩ := h.sidecar
      simp only [ConfigDirectory.next, hsession, Bool.false_eq_true, if_false]
      exact of_session hsidecar hledger rfl (by simp) (h.session state _ hsession (by simp))
    · simpa only [ConfigDirectory.next, hsession] using h
  · rcases hsession : directory.session with - | ⟨state, - | saving | saving⟩
    · simpa only [ConfigDirectory.next, hsession] using h
    · simpa only [ConfigDirectory.next, hsession] using h
    · simpa only [ConfigDirectory.next, hsession] using h
    · exact h.finish hsession writes
  · exact h.stop rfl rfl
  · rcases hsession : directory.session with - | pair
    · simp only [ConfigDirectory.next, hsession]
      exact h.stop rfl rfl
    · simpa only [ConfigDirectory.next, hsession] using h

end KeepsSaved

/-- From the save on, what was written is remembered until the next session starts. -/
theorem keepsSaved_run {middle : List ConfigStep} {saver : ConfigState} {draft : JsonValue}
    (hrecognizes : Recognizes hash file steps) (hroom : Roomy hash file steps)
    (hkept : ∀ before step, before ++ [step] <+: steps →
      JournalKept hash (configRun hash file before) step)
    (hrun : before ++ [.writeConfig true] ++ middle <+: steps)
    (hmiddle : ∀ step ∈ middle, step ≠ .writeConfig true ∧
      ∀ fallback writes, step ≠ .load fallback writes)
    (hsaver : (configRun hash file before).session = some (saver, .prepared draft)) :
    KeepsSaved (configRun hash file (before ++ [.writeConfig true] ++ middle)) saver.draftRevision
      (fingerprint hash draft) := by
  have hbefore : before <+: steps :=
    (List.prefix_append _ _).trans ((List.prefix_append _ _).trans hrun)
  obtain ⟨-, -, hfound, hne, hsidecar, hpending, hjournal⟩ :=
    (sound_run hrecognizes hroom hkept hbefore).session saver _ hsaver
  -- right after the file was replaced, the sidecar holds the journal of the save
  have hstart : KeepsSaved (configRun hash file (before ++ [.writeConfig true]))
      saver.draftRevision (fingerprint hash draft) := by
    rw [configRun_concat]
    simp only [next, hsaver, if_true]
    refine ⟨⟨saver.ledger, hsidecar, fun _ ↦ hpending, fun hnot ↦ absurd (hfound ▸ hjournal) hnot⟩,
      fun state other hsession ↦ ?_, fun state phase hsession hphase ↦ ?_⟩
    · obtain ⟨rfl, -⟩ := Prod.mk.inj (Option.some.inj hsession)
      exact ⟨rfl, hfound.symm⟩
    · obtain ⟨-, rfl⟩ := Prod.mk.inj (Option.some.inj hsession)
      exact absurd rfl (hphase draft)
  refine @prefix_induction _ middle (fun rest ↦ KeepsSaved
    (configRun hash file (before ++ [.writeConfig true] ++ rest)) saver.draftRevision
      (fingerprint hash draft)) (by simpa using hstart) (fun rest step hstep ih ↦ ?_) middle
    (List.prefix_refl _)
  have hrest : before ++ [.writeConfig true] ++ rest ++ [step] <+: steps := by
    rw [List.append_assoc]
    exact ((List.prefix_append_right_inj _).mpr hstep).trans hrun
  obtain ⟨hwrite, hload⟩ :=
    hmiddle step (hstep.subset (List.mem_append_right _ List.mem_cons_self))
  have hsound := sound_run hrecognizes hroom hkept hrest
  rw [configRun_concat] at hsound
  rw [← List.append_assoc, configRun_concat]
  exact ih.next hne (hkept _ step hrest) hload hwrite hsound

/-! ## Where every journal is kept -/

section Kept

variable (hrecognizes : Recognizes hash file steps) (hroom : Roomy hash file steps)
  (hkept : ∀ before step, before ++ [step] <+: steps →
    JournalKept hash (configRun hash file before) step)
include hrecognizes hroom hkept

theorem distinct_run {before' : List ConfigStep} {revision : UInt64} {a b : JsonValue}
    (hbefore : before <+: steps) (hbefore' : before' <+: steps)
    (ha : (configRun hash file before).Carries revision a)
    (hb : (configRun hash file before').Carries revision b) : SameContent a b := by
  have hsound := sound_run hrecognizes hroom hkept (List.prefix_refl steps)
  exact hsound.distinct (revision, a) ⟨before, hbefore, ha⟩ (revision, b) ⟨before', hbefore', hb⟩
    rfl

theorem increasing_run {revision : UInt64} {content : JsonValue}
    (hstep : before ++ [step] <+: steps)
    (hcarries : (configRun hash file (before ++ [step])).Carries revision content) :
    (∃ earlier, earlier <+: before ∧ ∃ same, SameContent content same ∧
      (configRun hash file earlier).Carries revision same) ∨
    ∀ earlier, earlier <+: before → ∀ other otherContent,
      (configRun hash file earlier).Carries other otherContent → other < revision := by
  have hsound := sound_run hrecognizes hroom hkept ((List.prefix_append _ _).trans hstep)
  have hadvances := advances_run hrecognizes hroom hkept hstep hsound
  rcases hadvances.fits revision content hcarries with
    ⟨same, hsame, earlier, hearlier, hgiven⟩ | hlt
  · exact .inl ⟨earlier, hearlier, same, hsame, hgiven⟩
  · refine .inr fun earlier hearlier other otherContent hother ↦ UInt64.lt_of_le_of_lt ?_ hlt
    exact hsound.bounded (other, otherContent) ⟨earlier, hearlier, hother⟩

/-- A session that has started on a file holds the file's content, reconciled. -/
theorem load_run {fallback content : JsonValue} {writes : Bool} {state : ConfigState}
    {phase : SavePhase} (hstep : before ++ [.load fallback writes] <+: steps)
    (hfile : (configRun hash file before).file = some content)
    (hsession : (configRun hash file (before ++ [.load fallback writes])).session =
      some (state, phase)) :
    state.saved = content ∧ state.savedRevision ≠ 0 ∧
      state.ledger.committedRevision = state.savedRevision ∧
      state.ledger.committedFingerprint = fingerprint hash content ∧
      (state.ledger, state.savedRevision) = reconcile
        ((readLedger (configRun hash file before).sidecar).getD {}) (fingerprint hash content)
        true := by
  have hsound := sound_run hrecognizes hroom hkept ((List.prefix_append _ _).trans hstep)
  rw [configRun_concat] at hsession
  rcases writes with - | -
  · -- without its sidecar the session does not start
    simp [next, ConfigState.load, hfile, writeLedger] at hsession
  obtain ⟨ledger, revision, hnext, hreconcile, -, hcommitted, hfound, -, hrevision⟩ :=
    hsound.load_file hrecognizes.length hfile fallback
  have hnow := congrArg ConfigDirectory.session hnext
  obtain ⟨rfl, -⟩ := Prod.mk.inj (Option.some.inj (hsession.symm.trans hnow))
  refine ⟨rfl, ?_, hcommitted, hfound, hreconcile⟩
  rcases hrevision with ⟨hnames, -⟩ | ⟨-, -, hne, -⟩
  · exact hnames.1
  · exact hne

theorem kept_run {middle : List ConfigStep} {fallback draft content : JsonValue} {writes : Bool}
    {saver state : ConfigState} {phase : SavePhase}
    (hstep : before ++ [.writeConfig true] ++ middle ++ [.load fallback writes] <+: steps)
    (hmiddle : ∀ step ∈ middle, step ≠ .writeConfig true ∧
      ∀ fallback writes, step ≠ .load fallback writes)
    (hsaver : (configRun hash file before).session = some (saver, .prepared draft))
    (hfile : (configRun hash file (before ++ [.writeConfig true] ++ middle)).file = some content)
    (hsame : SameContent content draft)
    (hsession : (configRun hash file (before ++ [.writeConfig true] ++ middle ++
      [.load fallback writes])).session = some (state, phase)) :
    state.savedRevision = saver.draftRevision := by
  have hbefore := (List.prefix_append _ _).trans hstep
  obtain ⟨-, -, -, -, hreconcile⟩ := load_run hrecognizes hroom hkept hstep hfile hsession
  obtain ⟨ledger, hsidecar, hrecalls⟩ :=
    (keepsSaved_run hrecognizes hroom hkept hbefore hmiddle hsaver).sidecar
  have hledger := (sound_run hrecognizes hroom hkept hbefore).sidecar ledger hsidecar
  have hfound : fingerprint hash content = fingerprint hash draft := by
    rw [fingerprint, fingerprint, hsame]
  rw [hsidecar, hledger.readLedger_some hrecognizes.length, Option.getD_some, hfound] at hreconcile
  exact (congrArg Prod.snd hreconcile).trans (reconcile_of_recalls hrecalls)

end Kept

/-! ## Exactly when revisions identify contents -/

/-- **Revisions identify contents.** Over every history of sessions in which the digest tells the
contents apart and the words suffice, revisions identify contents exactly when no save loses its
journal. -/
theorem identifies_iff (hrecognizes : Recognizes hash file steps) (hroom : Roomy hash file steps) :
    Identifies hash file steps ↔ ∀ before step, before ++ [step] <+: steps →
      JournalKept hash (configRun hash file before) step := by
  constructor
  · intro h
    -- along the history: the journals kept before a step make the invariant hold there
    refine @prefix_induction _ steps (fun rest ↦ ∀ before step, before ++ [step] <+: rest →
      JournalKept hash (configRun hash file before) step) (fun before step hstep ↦ ?_)
      (fun rest last hlast ih before step hstep ↦ ?_) steps (List.prefix_refl _)
    · exact absurd (List.prefix_nil.mp hstep) (by simp)
    rcases List.prefix_concat_iff.mp hstep with heq | hstep
    · obtain ⟨rfl, hlasts⟩ := List.append_inj' heq rfl
      obtain rfl := List.singleton_inj.mp hlasts
      have hbefore := (List.prefix_append _ _).trans hlast
      have hsound := sound_run (hrecognizes.of_prefix hbefore) (hroom.of_prefix hbefore) ih
        (List.prefix_refl before)
      exact journalKept_of_refused hsound (h.refused before step hlast)
    · exact ih before step hstep
  · intro hkept
    refine ⟨fun before hbefore before' hbefore' revision a b ha hb ↦ ?_,
      fun before step hstep revision content hcarries ↦ ?_,
      fun before fallback writes hstep content hfile state phase hsession ↦ ?_,
      fun before middle fallback writes hstep hmiddle saver draft hsaver content hfile hsame state
        phase hsession ↦ ?_,
      fun before step hstep state after hrefused ↦ ?_⟩
    · exact distinct_run hrecognizes hroom hkept hbefore hbefore' ha hb
    · exact increasing_run hrecognizes hroom hkept hstep hcarries
    · obtain ⟨hsaved, hne, hrevision, hfound, -⟩ :=
        load_run hrecognizes hroom hkept hstep hfile hsession
      exact ⟨hsaved, hne, hrevision, hfound⟩
    · exact kept_run hrecognizes hroom hkept hstep hmiddle hsaver hfile hsame hsession
    · obtain rfl := eq_of_refused (hkept before step hstep) hrefused
      exact ⟨rfl, rfl, rfl⟩

/-! ### A history of two documents -/

/-- A configuration that names one model. -/
def modelDocument (name : String) : JsonValue := .object [("model", .string name)]

/-- A digest of these documents. -/
def modelDigest : JsonValue → String
  | .object [(_, .string name)] =>
    if name = "a" then "aaaaaaaaaaaaaaaaaaaaaaaaaaaaaaaaaaaaaaaaaaaaaaaaaaaaaaaaaaaaaaaa"
    else "bbbbbbbbbbbbbbbbbbbbbbbbbbbbbbbbbbbbbbbbbbbbbbbbbbbbbbbbbbbbbbbb"
  | _ => ""

/-- The digest tells the two documents apart. -/
theorem recognizes_modelDigest
    (h : ∀ step ∈ steps, ∀ content ∈ step.contents,
      content = modelDocument "a" ∨ content = modelDocument "b") :
    Recognizes modelDigest none steps := by
  have hoccurs : ∀ content, Occurs none steps content →
      content = modelDocument "a" ∨ content = modelDocument "b" := by
    rintro content (hfile | ⟨step, hmem, hcontent⟩)
    · nomatch hfile
    · exact h step hmem content hcontent
  have hne : fingerprint modelDigest (modelDocument "a") ≠
      fingerprint modelDigest (modelDocument "b") := by decide +kernel
  refine ⟨fun content hcontent ↦ ?_, fun a ha b hb heq ↦ ?_⟩
  · rcases hoccurs content hcontent with rfl | rfl <;> decide +kernel
  · rcases hoccurs a ha with rfl | rfl <;> rcases hoccurs b hb with rfl | rfl
    · rfl
    · exact absurd heq hne
    · exact absurd heq.symm hne
    · rfl

/-- Room along every prefix is room for every step. -/
theorem roomy_of_inits
    (h : ∀ before ∈ steps.inits, (configRun hash file before).top.toNat < 2 ^ 64 - 1) :
    Roomy hash file steps :=
  fun before _ hstep _ ↦
    h before ((List.mem_inits before steps).mpr ((List.prefix_append _ _).trans hstep))

/-- A first session edits and saves, a second one starts. -/
def savedHistory : List ConfigStep :=
  [.load (modelDocument "a") true, .observe (modelDocument "b") true,
    .prepare (modelDocument "b") true true, .writeConfig true, .finish true,
    .load (modelDocument "a") true]

theorem identifies_savedHistory : Identifies modelDigest none savedHistory := by
  refine (identifies_iff (recognizes_modelDigest ?_)
    (roomy_of_inits (by decide +kernel))).mpr fun before step hstep ↦ ?_
  · simp [savedHistory, ConfigStep.contents]
  · have hmem : step ∈ savedHistory := hstep.subset (List.mem_append_right _ List.mem_cons_self)
    simp only [savedHistory, List.mem_cons, List.not_mem_nil, or_false] at hmem
    rcases hmem with rfl | rfl | rfl | rfl | rfl | rfl
    · trivial
    · trivial
    · exact fun _ _ ↦ .inl rfl
    · trivial
    · trivial
    · trivial

/-- The journal of a first save is lost, the desktop restarts, and another draft is observed. -/
def lostHistory : List ConfigStep :=
  [.load (modelDocument "a") true, .prepare (modelDocument "a") true false, .crash,
    .load (modelDocument "a") true, .observe (modelDocument "b") true]

/-- Both drafts are under the first revision. -/
theorem not_identifies_lostHistory :
    Recognizes modelDigest none lostHistory ∧ Roomy modelDigest none lostHistory ∧
      ¬ Identifies modelDigest none lostHistory := by
  refine ⟨recognizes_modelDigest ?_, roomy_of_inits (by decide +kernel), fun h ↦ ?_⟩
  · simp [lostHistory, ConfigStep.contents]
  · have hsame : SameContent (modelDocument "a") (modelDocument "b") := by
      refine h.distinct (lostHistory.take 2) (List.take_prefix _ _) lostHistory
        (List.prefix_refl _) 1 _ _ ?_ ?_
      · exact ⟨by decide, _, _, rfl, .inl rfl⟩
      · exact ⟨by decide, _, _, rfl, .inl rfl⟩
    simp [SameContent, modelDocument, canonicalize, canonicalizeMembers, sortByKey] at hsame

end TokenStation
