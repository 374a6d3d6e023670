import TokenStation.Client.ConfigRevisions

/-!
# Why revisions identify contents

The invariant of a history: `given` holds every pair of a nonzero revision and a content that was
ever carried in memory, and the sidecar's last allocated revision bounds all of them. Each entry of
a ledger names a pair that was given. A step carries old pairs, or one new pair above the bound.
-/

namespace TokenStation

open Library ConfigState

section Invariant

variable (hash : JsonValue → String) (known : Set JsonValue) (given : Set (UInt64 × JsonValue))

/-- The revision was given to the content with this digest. -/
def Names (revision : UInt64) (found : String) : Prop :=
  revision ≠ 0 ∧ ∃ content ∈ known, fingerprint hash content = found ∧ (revision, content) ∈ given

/-- Every entry of the ledger names a revision that was given. -/
structure SoundLedger (ledger : RevisionLedger) : Prop where
  version : ledger.version = ledgerVersion
  committed : ledger.committedFingerprint = "" ∨
    Names hash known given ledger.committedRevision ledger.committedFingerprint
  pending : ledger.pendingFingerprint = none ∨ ∃ revision found,
    ledger.pendingRevision = some revision ∧ ledger.pendingFingerprint = some found ∧
      Names hash known given revision found

/-- A session's state over a sidecar whose last allocated revision is `top`. -/
structure SoundState (top : UInt64) (state : ConfigState) : Prop where
  draft : state.draft ∈ known ∧ fingerprint hash state.draft = state.draftFingerprint
  saved : state.saved ∈ known ∧ fingerprint hash state.saved = state.savedFingerprint
  agree : state.draftFingerprint = state.savedFingerprint → state.savedRevision ≠ 0 →
    state.draftRevision = state.savedRevision
  ledger : SoundLedger hash known given state.ledger
  last : state.ledger.lastAllocatedRevision = top

/-- Between the journal of a save and its end, the journal names the draft. -/
def SoundPhase (sidecar : Option RevisionLedger) (state : ConfigState) : SavePhase → Prop
  | .idle => True
  | .prepared draft | .written draft =>
    draft ∈ known ∧ fingerprint hash draft = state.draftFingerprint ∧ state.draftRevision ≠ 0 ∧
      sidecar = some state.ledger ∧ state.ledger.pendingRevision = some state.draftRevision ∧
      state.ledger.pendingFingerprint = some state.draftFingerprint

namespace ConfigDirectory

/-- The pairs in memory. -/
def carried (directory : ConfigDirectory) : Set (UInt64 × JsonValue) :=
  {pair | directory.Carries pair.1 pair.2}

structure Sound (directory : ConfigDirectory) : Prop where
  distinct : ∀ p ∈ given, ∀ q ∈ given, p.1 = q.1 → SameContent p.2 q.2
  bounded : ∀ p ∈ given, p.1 ≤ directory.top
  carried : directory.carried ⊆ given
  file : ∀ content ∈ directory.file, content ∈ known
  sidecar : ∀ ledger ∈ directory.sidecar, SoundLedger hash known given ledger
  session : ∀ state phase, directory.session = some (state, phase) →
    SoundState hash known given directory.top state ∧
      SoundPhase hash known directory.sidecar state phase

end ConfigDirectory

end Invariant

variable {hash : JsonValue → String} {known : Set JsonValue}
  {given given' : Set (UInt64 × JsonValue)}

/-! ## More pairs -/

theorem Names.mono (hsub : given ⊆ given') {revision : UInt64} {found : String}
    (h : Names hash known given revision found) : Names hash known given' revision found := by
  obtain ⟨hne, content, hknown, hfound, hmem⟩ := h
  exact ⟨hne, content, hknown, hfound, hsub hmem⟩

theorem SoundLedger.mono (hsub : given ⊆ given') {ledger : RevisionLedger}
    (h : SoundLedger hash known given ledger) : SoundLedger hash known given' ledger where
  version := h.version
  committed := h.committed.imp_right (Names.mono hsub)
  pending := by
    refine h.pending.imp_right ?_
    rintro ⟨revision, found, hrevision, hfound, hnames⟩
    exact ⟨revision, found, hrevision, hfound, hnames.mono hsub⟩

theorem SoundState.mono (hsub : given ⊆ given') {top : UInt64} {state : ConfigState}
    (h : SoundState hash known given top state) : SoundState hash known given' top state :=
  ⟨h.draft, h.saved, h.agree, h.ledger.mono hsub, h.last⟩

/-! ## Ledgers -/

namespace SoundLedger

variable {ledger : RevisionLedger}

theorem default_sound : SoundLedger hash known given {} := ⟨rfl, .inl rfl, .inl rfl⟩

/-- Reserving a revision changes no entry. -/
theorem reserve (h : SoundLedger hash known given ledger) :
    SoundLedger hash known given ledger.reserve := ⟨h.version, h.committed, h.pending⟩

theorem withoutPending (h : SoundLedger hash known given ledger) :
    SoundLedger hash known given ledger.withoutPending := ⟨h.version, h.committed, .inl rfl⟩

theorem commit (h : SoundLedger hash known given ledger) {revision : UInt64} {found : String}
    (hnames : Names hash known given revision found) :
    SoundLedger hash known given (ledger.commit revision found) :=
  ⟨h.version, .inr hnames, .inl rfl⟩

variable (hlength : ∀ content ∈ known, (fingerprint hash content).utf8ByteSize = 64)
include hlength

/-- A digest has its full length. -/
theorem length_of_names {revision : UInt64} {found : String}
    (h : Names hash known given revision found) : found.utf8ByteSize = 64 := by
  obtain ⟨-, content, hknown, rfl, -⟩ := h
  exact hlength content hknown

/-- A sound sidecar is read as it is. -/
theorem readLedger_some (h : SoundLedger hash known given ledger) :
    readLedger (some ledger) = some ledger := by
  have hcommitted : ledger.committedFingerprint.utf8ByteSize ≤ 64 := by
    rcases h.committed with heq | hnames
    · rw [heq]
      decide
    · exact (length_of_names hlength hnames).le
  have hpending : ledger.pendingFingerprint.all
      (fun fingerprint ↦ decide (fingerprint.utf8ByteSize = 64)) = true := by
    rcases h.pending with heq | ⟨revision, found, -, heq, hnames⟩
    · rw [heq]
      rfl
    · rw [heq]
      exact decide_eq_true (length_of_names hlength hnames)
  rw [readLedger, Option.filter_some, if_pos]
  simp only [h.version, decide_true, Bool.true_and, hpending, Bool.and_true,
    decide_eq_true_eq]
  exact hcommitted

end SoundLedger

/-! ## The loaded revision -/

/-- What reconciling a sound ledger with a content does: the content gets a revision that it was
given before, or a new one that nothing names. -/
theorem reconcile_spec {ledger : RevisionLedger} {content : JsonValue}
    (hlength : ∀ content ∈ known, (fingerprint hash content).utf8ByteSize = 64)
    (hsound : SoundLedger hash known given ledger)
    (hbounded : ∀ p ∈ given, p.1 ≤ ledger.lastAllocatedRevision) (hknown : content ∈ known) :
    let found := fingerprint hash content
    let (after, revision) := reconcile ledger found true
    after.version = ledgerVersion ∧ after.committedRevision = revision ∧
      after.committedFingerprint = found ∧ after.pendingFingerprint = none ∧
      (Names hash known given revision found ∧
          after.lastAllocatedRevision = ledger.lastAllocatedRevision ∨
        ledger.pendingFingerprint ≠ some found ∧ ledger.committedFingerprint ≠ found ∧
          revision = ledger.nextRevision ∧ after.lastAllocatedRevision = ledger.nextRevision) := by
  dsimp only
  by_cases hpending : ledger.pendingFingerprint = some (fingerprint hash content)
  · rcases hsound.pending with hnone | ⟨revision, found, hrevision, hfound, hnames⟩
    · nomatch hpending.symm.trans hnone
    obtain rfl := Option.some.inj (hfound.symm.trans hpending)
    have hle : revision ≤ ledger.lastAllocatedRevision := by
      obtain ⟨-, same, -, -, hmem⟩ := hnames
      exact hbounded _ hmem
    have hmax : max ledger.lastAllocatedRevision revision = ledger.lastAllocatedRevision := by
      rw [show max ledger.lastAllocatedRevision revision =
        if ledger.lastAllocatedRevision ≤ revision then revision
        else ledger.lastAllocatedRevision from rfl]
      split
      next hge => exact UInt64.le_antisymm hle hge
      next => rfl
    simp only [reconcile, Bool.not_true, Bool.false_eq_true, if_false, if_pos hpending, hrevision,
      Option.getD_some, hmax]
    exact ⟨hsound.version, rfl, rfl, rfl, .inl ⟨hnames, trivial⟩⟩
  by_cases hcommitted : ledger.committedFingerprint = fingerprint hash content
  · rcases hsound.committed with hempty | hnames
    · -- the digest of a content is not empty
      have hsize := hlength content hknown
      rw [← hcommitted, hempty] at hsize
      nomatch hsize
    simp only [reconcile, Bool.not_true, Bool.false_eq_true, if_false, if_neg hpending,
      if_pos hcommitted]
    exact ⟨hsound.version, rfl, hcommitted, rfl, .inl ⟨hcommitted ▸ hnames, rfl⟩⟩
  · simp only [reconcile, Bool.not_true, Bool.false_eq_true, if_false, if_neg hpending,
      if_neg hcommitted]
    exact ⟨hsound.version, rfl, rfl, rfl, .inr ⟨hpending, hcommitted, trivial, rfl⟩⟩

/-! ## One step -/

/-- A pair that may be carried next: its content had the revision, or the revision is new. -/
def Fits (given : Set (UInt64 × JsonValue)) (top revision : UInt64) (content : JsonValue) : Prop :=
  (∃ same, SameContent content same ∧ (revision, same) ∈ given) ∨ top < revision

namespace ConfigDirectory

variable {directory after : ConfigDirectory}

/-- Every nonzero revision in memory is carried. -/
theorem carries_draft {state : ConfigState} {phase : SavePhase}
    (h : directory.session = some (state, phase)) (hne : state.draftRevision ≠ 0) :
    (state.draftRevision, state.draft) ∈ directory.carried :=
  ⟨hne, state, phase, h, .inl rfl⟩

theorem carries_saved {state : ConfigState} {phase : SavePhase}
    (h : directory.session = some (state, phase)) (hne : state.savedRevision ≠ 0) :
    (state.savedRevision, state.saved) ∈ directory.carried :=
  ⟨hne, state, phase, h, .inr rfl⟩

/-- What a step must show: every pair it carries fits, and at most one of them is new. -/
structure Advances (hash : JsonValue → String) (known : Set JsonValue)
    (given : Set (UInt64 × JsonValue)) (directory after : ConfigDirectory) : Prop where
  sound : after.Sound hash known (given ∪ after.carried)
  top : directory.top ≤ after.top
  fits : ∀ revision content, after.Carries revision content →
    Fits given directory.top revision content

/-- Old pairs, and new ones above the bound that share a content, stay told apart. -/
theorem Sound.advance (h : directory.Sound hash known given)
    (hfits : ∀ revision content, after.Carries revision content →
      Fits given directory.top revision content)
    (htogether : ∀ p ∈ after.carried, ∀ q ∈ after.carried, directory.top < p.1 →
      directory.top < q.1 → SameContent p.2 q.2)
    (htop : directory.top ≤ after.top) (hle : ∀ p ∈ after.carried, p.1 ≤ after.top)
    (hfile : ∀ content ∈ after.file, content ∈ known)
    (hsidecar : ∀ ledger ∈ after.sidecar, SoundLedger hash known (given ∪ after.carried) ledger)
    (hsession : ∀ state phase, after.session = some (state, phase) →
      SoundState hash known (given ∪ after.carried) after.top state ∧
        SoundPhase hash known after.sidecar state phase) :
    Advances hash known given directory after := by
  refine ⟨⟨?_, ?_, Set.subset_union_right, hfile, hsidecar, hsession⟩, htop, hfits⟩
  · -- a carried pair that is not new has a representative among the old ones
    have hold : ∀ p ∈ given ∪ after.carried, directory.top < p.1 ∧ p ∈ after.carried ∨
        p.1 ≤ directory.top ∧ ∃ same, SameContent p.2 same ∧ (p.1, same) ∈ given := by
      rintro p (hp | hp)
      · exact .inr ⟨h.bounded p hp, p.2, rfl, hp⟩
      · rcases hfits p.1 p.2 hp with hsame | hnew
        · obtain ⟨same, hsame, hmem⟩ := hsame
          exact .inr ⟨h.bounded (p.1, same) hmem, same, hsame, hmem⟩
        · exact .inl ⟨hnew, hp⟩
    intro p hp q hq heq
    rcases hold p hp with ⟨hpnew, hp⟩ | ⟨hple, same, hsame, hmem⟩
    · rcases hold q hq with ⟨hqnew, hq⟩ | ⟨hqle, -⟩
      · exact htogether p hp q hq hpnew hqnew
      · exact absurd (heq ▸ hqle) (UInt64.not_le.mpr hpnew)
    · rcases hold q hq with ⟨hqnew, -⟩ | ⟨-, same', hsame', hmem'⟩
      · exact absurd (heq ▸ hple) (UInt64.not_le.mpr hqnew)
      · exact hsame.trans ((h.distinct _ hmem _ hmem' heq).trans hsame'.symm)
  · rintro p (hp | hp)
    · exact UInt64.le_trans (h.bounded p hp) htop
    · exact hle p hp

/-- A step that carries only old pairs. -/
theorem Sound.keep (h : directory.Sound hash known given)
    (hfits : ∀ revision content, after.Carries revision content →
      ∃ same, SameContent content same ∧ (revision, same) ∈ given)
    (htop : after.top = directory.top) (hfile : ∀ content ∈ after.file, content ∈ known)
    (hsidecar : ∀ ledger ∈ after.sidecar, SoundLedger hash known given ledger)
    (hsession : ∀ state phase, after.session = some (state, phase) →
      SoundState hash known (given ∪ after.carried) after.top state ∧
        SoundPhase hash known after.sidecar state phase) :
    Advances hash known given directory after := by
  refine h.advance (fun revision content hcarries ↦ .inl (hfits revision content hcarries)) ?_
    (htop ▸ UInt64.le_refl _) ?_ hfile
    (fun ledger hledger ↦ (hsidecar ledger hledger).mono Set.subset_union_left) hsession
  · intro p hp q _ hnew _
    obtain ⟨same, -, hmem⟩ := hfits p.1 p.2 hp
    exact absurd (h.bounded (p.1, same) hmem) (UInt64.not_le.mpr hnew)
  · intro p hp
    obtain ⟨same, -, hmem⟩ := hfits p.1 p.2 hp
    rw [htop]
    exact h.bounded (p.1, same) hmem

/-- Nothing in memory changes. -/
theorem Sound.same (h : directory.Sound hash known given) :
    Advances hash known given directory directory := by
  refine h.keep (fun revision content hcarries ↦ ⟨content, rfl, h.carried hcarries⟩) rfl h.file
    h.sidecar fun state phase hsession ↦ ?_
  obtain ⟨hstate, hphase⟩ := h.session state phase hsession
  exact ⟨hstate.mono Set.subset_union_left, hphase⟩

/-- Two steps, the second of which still carries what the first one does. -/
theorem Advances.trans {middle : ConfigDirectory} (h : Advances hash known given directory middle)
    (h' : Advances hash known (given ∪ middle.carried) middle after)
    (hsub : middle.carried ⊆ after.carried) : Advances hash known given directory after := by
  have hgiven : given ∪ middle.carried ∪ after.carried = given ∪ after.carried := by
    rw [Set.union_assoc, Set.union_eq_self_of_subset_left hsub]
  refine ⟨hgiven ▸ h'.sound, UInt64.le_trans h.top h'.top, fun revision content hcarries ↦ ?_⟩
  rcases h'.fits revision content hcarries with ⟨same, hsame, hmem | hmem⟩ | hlt
  · exact .inl ⟨same, hsame, hmem⟩
  · rcases h.fits revision same hmem with ⟨same', hsame', hmem'⟩ | hlt
    · exact .inl ⟨same', hsame.trans hsame', hmem'⟩
    · exact .inr hlt
  · exact .inr (UInt64.lt_of_le_of_lt h.top hlt)

/-- The pairs of a session. -/
theorem carries_iff {state : ConfigState} {phase : SavePhase}
    (h : directory.session = some (state, phase)) {revision : UInt64} {content : JsonValue} :
    directory.Carries revision content ↔ revision ≠ 0 ∧
      ((revision = state.draftRevision ∧ content = state.draft) ∨
        (revision = state.savedRevision ∧ content = state.saved)) := by
  constructor
  · rintro ⟨hne, state', phase', hsession, hpair⟩
    obtain ⟨rfl, rfl⟩ := Prod.mk.inj (Option.some.inj (hsession.symm.trans h))
    exact ⟨hne, hpair.imp Prod.mk.inj Prod.mk.inj⟩
  · rintro ⟨hne, hpair⟩
    refine ⟨hne, state, phase, h, hpair.imp ?_ ?_⟩ <;> rintro ⟨rfl, rfl⟩ <;> rfl

theorem not_carries_of_session_none (h : directory.session = none) {revision : UInt64}
    {content : JsonValue} : ¬ directory.Carries revision content := by
  rintro ⟨-, state, phase, hsession, -⟩
  nomatch h.symm.trans hsession

/-- Without a session nothing is carried. -/
theorem Sound.stop (h : directory.Sound hash known given) (hsession : after.session = none)
    (hsidecar : after.sidecar = directory.sidecar)
    (hfile : ∀ content ∈ after.file, content ∈ known) :
    Advances hash known given directory after := by
  refine h.keep (fun revision content hcarries ↦ ?_) (by rw [top, hsidecar, top]) hfile
    (hsidecar ▸ h.sidecar) fun state phase hsome ↦ ?_
  · exact absurd hcarries (not_carries_of_session_none hsession)
  · nomatch hsession.symm.trans hsome

section Calls

variable (hinjective : ∀ a ∈ known, ∀ b ∈ known, fingerprint hash a = fingerprint hash b →
  SameContent a b) {state : ConfigState} {draft : JsonValue}
include hinjective

/-- Observing a draft carries an old pair or reserves a new revision. -/
theorem Sound.observe (h : directory.Sound hash known given) (hdraft : draft ∈ known)
    {writes : Bool} (hsession : directory.session = some (state, .idle))
    (hroom : directory.reserves hash (.observe draft writes) = true →
      directory.top.toNat < 2 ^ 64 - 1) :
    Advances hash known given directory (directory.next hash (.observe draft writes)) := by
  obtain ⟨hstate, -⟩ := h.session state .idle hsession
  have hsaved : state.savedRevision ≠ 0 → (state.savedRevision, state.saved) ∈ given :=
    fun hne ↦ h.carried (carries_saved hsession hne)
  rcases observeDraft_cases hash draft writes state directory.sidecar with ⟨-, hcall⟩ |
    ⟨hne, heq, hcall⟩ | ⟨-, -, -, error, hcall⟩ | ⟨hne, hne', hwrites, hcall⟩
  · -- the draft is the current one
    have hnext : directory.next hash (.observe draft writes) = directory := by
      simp only [next, hsession, hcall]
      rw [← hsession]
    rw [hnext]
    exact h.same
  · -- back to the saved content
    generalize hafter : directory.next hash (.observe draft writes) = after
    simp only [next, hsession, hcall] at hafter
    have hnow := congrArg ConfigDirectory.session hafter.symm
    refine h.keep (fun revision content hcarries ↦ ?_) (by rw [← hafter]; rfl)
      (by rw [← hafter]; exact h.file) (by rw [← hafter]; exact h.sidecar)
      fun state' phase' hsession' ↦ ?_
    · obtain ⟨hne, ⟨rfl, rfl⟩ | ⟨rfl, rfl⟩⟩ := (carries_iff hnow).mp hcarries
      · refine ⟨state.saved, hinjective _ hdraft _ hstate.saved.1 ?_, hsaved hne⟩
        exact heq.trans hstate.saved.2.symm
      · exact ⟨state.saved, rfl, hsaved hne⟩
    · obtain ⟨rfl, rfl⟩ := Prod.mk.inj (Option.some.inj (hsession'.symm.trans hnow))
      have hlast : after.top = directory.top := by rw [← hafter]; rfl
      exact ⟨⟨⟨hdraft, rfl⟩, hstate.saved, fun _ _ ↦ rfl,
        hstate.ledger.mono Set.subset_union_left, hlast ▸ hstate.last⟩, trivial⟩
  · -- nothing could be reserved
    have hnext : directory.next hash (.observe draft writes) = directory := by
      simp only [next, hsession, hcall]
      rw [← hsession]
    rw [hnext]
    exact h.same
  · -- a new revision is reserved, in the sidecar first
    have hlt : directory.top < state.ledger.nextRevision := by
      have hreserves : directory.reserves hash (.observe draft writes) = true := by
        simp [reserves, hsession, hwrites, hne, hne']
      have hbelow := hroom hreserves
      rw [← hstate.last] at hbelow ⊢
      rw [UInt64.lt_iff_toNat_lt, RevisionLedger.toNat_nextRevision hbelow]
      exact Nat.lt_succ_self _
    generalize hafter : directory.next hash (.observe draft writes) = after
    simp only [next, hsession, hcall] at hafter
    have hnow := congrArg ConfigDirectory.session hafter.symm
    have htop : after.top = state.ledger.nextRevision := by rw [← hafter]; rfl
    have hold : ∀ p ∈ after.carried, p = (state.ledger.nextRevision, draft) ∨ p ∈ given := by
      rintro ⟨revision, content⟩ hp
      obtain ⟨hne, ⟨hrevision, hcontent⟩ | ⟨rfl, rfl⟩⟩ := (carries_iff hnow).mp hp
      · exact .inl (Prod.ext hrevision hcontent)
      · exact .inr (hsaved hne)
    refine h.advance (fun revision content hcarries ↦ ?_) ?_ (htop ▸ UInt64.le_of_lt hlt) ?_
      (by rw [← hafter]; exact h.file) ?_ fun state' phase' hsession' ↦ ?_
    · rcases hold (revision, content) hcarries with hpair | hmem
      · exact .inr ((Prod.mk.inj hpair).1 ▸ hlt)
      · exact .inl ⟨content, rfl, hmem⟩
    · intro p hp q hq hpnew hqnew
      rcases hold p hp with rfl | hmem
      · rcases hold q hq with rfl | hmem
        · rfl
        · exact absurd (h.bounded q hmem) (UInt64.not_le.mpr hqnew)
      · exact absurd (h.bounded p hmem) (UInt64.not_le.mpr hpnew)
    · intro p hp
      rw [htop]
      rcases hold p hp with rfl | hmem
      · exact UInt64.le_refl _
      · exact UInt64.le_trans (h.bounded p hmem) (UInt64.le_of_lt hlt)
    · intro ledger hledger
      rw [← hafter] at hledger
      obtain rfl := Option.some.inj hledger
      exact (hstate.ledger.mono Set.subset_union_left).reserve
    · obtain ⟨rfl, rfl⟩ := Prod.mk.inj (Option.some.inj (hsession'.symm.trans hnow))
      exact ⟨⟨⟨hdraft, rfl⟩, hstate.saved, fun heq ↦ absurd heq hne',
        (hstate.ledger.mono Set.subset_union_left).reserve, htop.symm⟩, trivial⟩

omit hinjective in
/-- Journaling a save carries the observed draft, under a new revision if it had none. -/
theorem Sound.journal (h : directory.Sound hash known given) (hdraft : draft ∈ known)
    (hsession : directory.session = some (state, .idle))
    (hfound : fingerprint hash draft = state.draftFingerprint)
    (hroom : state.draftRevision = 0 → directory.top.toNat < 2 ^ 64 - 1) :
    Advances hash known given directory { directory with
      sidecar := some state.withPending.ledger
      session := some (state.withPending, .prepared draft) } := by
  obtain ⟨hstate, -⟩ := h.session state .idle hsession
  generalize hafter : ({ directory with
    sidecar := some state.withPending.ledger
    session := some (state.withPending, .prepared draft) } : ConfigDirectory) = after
  have hnow := congrArg ConfigDirectory.session hafter.symm
  have htop : after.top = state.withPending.ledger.lastAllocatedRevision := by rw [← hafter]; rfl
  -- the revision of the draft: the one it had, or the next one
  have hrevision : directory.top ≤ after.top ∧ state.withPending.draftRevision ≠ 0 ∧
      state.withPending.draftRevision ≤ after.top ∧
      ((state.draftRevision, state.draft) ∈ given ∧
          state.withPending.draftRevision = state.draftRevision ∨
        directory.top < state.withPending.draftRevision ∧ state.draftRevision = 0) := by
    rw [htop, withPending]
    by_cases hzero : state.draftRevision = 0
    · have hlt : directory.top < state.ledger.nextRevision := by
        have hbelow := hroom hzero
        rw [← hstate.last] at hbelow ⊢
        rw [UInt64.lt_iff_toNat_lt, RevisionLedger.toNat_nextRevision hbelow]
        exact Nat.lt_succ_self _
      rw [if_pos hzero]
      refine ⟨UInt64.le_of_lt hlt, ?_, UInt64.le_refl _, .inr ⟨hlt, hzero⟩⟩
      rintro (heq : state.ledger.nextRevision = 0)
      rw [heq] at hlt
      exact absurd hlt (UInt64.not_lt.mpr (UInt64.zero_le))
    · have hmem := h.carried (carries_draft hsession hzero)
      rw [if_neg hzero]
      refine ⟨hstate.last ▸ UInt64.le_refl _, hzero, ?_, .inl ⟨hmem, rfl⟩⟩
      exact hstate.last ▸ h.bounded (state.draftRevision, state.draft) hmem
  obtain ⟨hle, hne, hbelow, hold⟩ := hrevision
  have hsame : state.withPending.draft = state.draft ∧
      state.withPending.draftFingerprint = state.draftFingerprint ∧
      state.withPending.saved = state.saved ∧
      state.withPending.savedFingerprint = state.savedFingerprint ∧
      state.withPending.savedRevision = state.savedRevision ∧
      state.withPending.ledger.version = state.ledger.version ∧
      state.withPending.ledger.committedRevision = state.ledger.committedRevision ∧
      state.withPending.ledger.committedFingerprint = state.ledger.committedFingerprint ∧
      state.withPending.ledger.pendingRevision = some state.withPending.draftRevision ∧
      state.withPending.ledger.pendingFingerprint = some state.draftFingerprint := by
    rw [withPending]
    split <;> exact ⟨rfl, rfl, rfl, rfl, rfl, rfl, rfl, rfl, rfl, rfl⟩
  obtain ⟨hd, hdf, hs, hsf, hsr, hversion, hcr, hcf, hpr, hpf⟩ := hsame
  have hmem : (state.withPending.draftRevision, state.draft) ∈ after.carried :=
    hd ▸ carries_draft hnow hne
  have hcarried : ∀ p ∈ after.carried,
      p = (state.withPending.draftRevision, state.draft) ∨ p ∈ given := by
    rintro ⟨revision, content⟩ hp
    obtain ⟨hne, ⟨hrevision, hcontent⟩ | ⟨hrevision, hcontent⟩⟩ := (carries_iff hnow).mp hp
    · exact .inl (Prod.ext hrevision (hcontent.trans hd))
    · obtain rfl : revision = state.savedRevision := hrevision.trans hsr
      obtain rfl : content = state.saved := hcontent.trans hs
      exact .inr (h.carried (carries_saved hsession hne))
  have hsound : SoundLedger hash known (given ∪ after.carried) state.withPending.ledger := by
    refine ⟨hversion.trans hstate.ledger.version, ?_, .inr ⟨_, _, hpr, hpf, hne, ?_⟩⟩
    · rw [hcr, hcf]
      exact (hstate.ledger.mono Set.subset_union_left).committed
    · exact ⟨state.draft, hstate.draft.1, hstate.draft.2, .inr hmem⟩
  refine h.advance (fun revision content hcarries ↦ ?_) ?_ hle ?_ (by rw [← hafter]; exact h.file)
    ?_ fun state' phase' hsession' ↦ ?_
  · rcases hcarried (revision, content) hcarries with hpair | hmem
    · obtain ⟨rfl, rfl⟩ := Prod.mk.inj hpair
      rcases hold with ⟨hgiven, heq⟩ | ⟨hlt, -⟩
      · exact .inl ⟨state.draft, rfl, heq ▸ hgiven⟩
      · exact .inr hlt
    · exact .inl ⟨content, rfl, hmem⟩
  · intro p hp q hq hpnew hqnew
    rcases hcarried p hp with rfl | hmem
    · rcases hcarried q hq with rfl | hmem
      · rfl
      · exact absurd (h.bounded q hmem) (UInt64.not_le.mpr hqnew)
    · exact absurd (h.bounded p hmem) (UInt64.not_le.mpr hpnew)
  · intro p hp
    rcases hcarried p hp with rfl | hmem
    · exact hbelow
    · exact UInt64.le_trans (h.bounded p hmem) hle
  · intro ledger hledger
    rw [← hafter] at hledger
    obtain rfl := Option.some.inj hledger
    exact hsound
  · obtain ⟨rfl, rfl⟩ := Prod.mk.inj (Option.some.inj (hsession'.symm.trans hnow))
    refine ⟨⟨?_, ?_, ?_, hsound, htop.symm⟩, hdraft, hdf ▸ hfound, hne, ?_, hpr, hdf ▸ hpf⟩
    · rw [hd, hdf]
      exact hstate.draft
    · rw [hs, hsf]
      exact hstate.saved
    · rw [hdf, hsf, hsr]
      intro heq hsavedNe
      -- a draft without a revision is not saved under one
      have hagree := hstate.agree heq hsavedNe
      rcases hold with ⟨-, hkept⟩ | ⟨-, hzero⟩
      · exact hkept.trans hagree
      · exact absurd (hagree.symm.trans hzero) hsavedNe
    · rw [← hafter]

omit hinjective in
/-- Journaling keeps the pairs of the session. -/
theorem carried_journal (hsession : directory.session = some (state, .idle)) :
    directory.carried ⊆ ConfigDirectory.carried { directory with
      sidecar := some state.withPending.ledger
      session := some (state.withPending, .prepared draft) } := by
  rintro ⟨revision, content⟩ hp
  refine (carries_iff rfl).mpr ?_
  obtain ⟨hne, ⟨rfl, rfl⟩ | ⟨rfl, rfl⟩⟩ := (carries_iff hsession).mp hp
  · refine ⟨hne, .inl ?_⟩
    rw [withPending, if_neg hne]
    exact ⟨rfl, rfl⟩
  · refine ⟨hne, .inr ?_⟩
    rw [withPending]
    split <;> exact ⟨rfl, rfl⟩

omit hinjective in
/-- Where its journal is kept, preparing a save is observing the draft and journaling it, or changes
nothing. -/
theorem next_prepare_cases {reserves writes : Bool}
    (hsession : directory.session = some (state, .idle))
    (hkept : JournalKept hash directory (.prepare draft reserves writes)) :
    directory.next hash (.prepare draft reserves writes) = directory ∨
      ∃ observed sidecar, observeDraft hash draft reserves state directory.sidecar =
          (.ok (), observed, sidecar) ∧ fingerprint hash draft = observed.draftFingerprint ∧
        (observed.draftRevision = 0 → sidecar = directory.sidecar ∧
          directory.reserves hash (.prepare draft reserves writes) = true) ∧
        directory.next hash (.prepare draft reserves writes) = { directory with
          sidecar := some observed.withPending.ledger
          session := some (observed.withPending, .prepared draft) } := by
  -- observing fails before anything is changed, or leaves the draft observed
  have hobserved : (∃ error, observeDraft hash draft reserves state directory.sidecar =
        (.error error, state, directory.sidecar)) ∨
      ∃ observed sidecar, observeDraft hash draft reserves state directory.sidecar =
          (.ok (), observed, sidecar) ∧ fingerprint hash draft = observed.draftFingerprint ∧
        (observed.draftRevision = 0 → sidecar = directory.sidecar ∧
          directory.reserves hash (.prepare draft reserves writes) = true) := by
    rcases observeDraft_cases hash draft reserves state directory.sidecar with ⟨heq, hcall⟩ |
      ⟨hne, heq, hcall⟩ | ⟨-, -, -, error, hcall⟩ | ⟨-, -, -, hcall⟩
    · refine .inr ⟨_, _, hcall, heq, fun hzero ↦ ⟨rfl, ?_⟩⟩
      simp [ConfigDirectory.reserves, hsession, heq, hzero]
    · refine .inr ⟨_, _, hcall, rfl, fun hzero ↦ ⟨rfl, ?_⟩⟩
      have hzero : state.savedRevision = 0 := hzero
      simp only [ConfigDirectory.reserves, hsession, if_neg hne, if_pos heq, hzero,
        beq_self_eq_true]
    · exact .inl ⟨error, hcall⟩
    · refine .inr ⟨_, _, hcall, rfl, fun hzero ↦ ?_⟩
      exact absurd hzero (RevisionLedger.nextRevision_ne_zero _)
  rcases hobserved with ⟨error, hcall⟩ | ⟨observed, sidecar, hcall, hfound, hzero⟩
  · refine .inl ?_
    simp only [next, hsession, prepareSave, hcall]
    rw [← hsession]
  by_cases hwrites : writes = true
  · refine .inr ⟨observed, sidecar, hcall, hfound, hzero, ?_⟩
    simp only [next, hsession, prepareSave, hcall, writeLedger, hwrites, if_true]
  · refine .inl ?_
    rcases hkept state hsession with hyes | ⟨hno, hne, hne'⟩ | ⟨heq, hne, hpending, hjournal⟩
    · exact absurd hyes hwrites
    · -- the draft was not observed
      rw [observeDraft, if_neg hne, if_neg hne', hno] at hcall
      cases hcall
    · -- the journal that could not be written is there already
      have hcall' : observeDraft hash draft reserves state directory.sidecar =
          (.ok (), state, directory.sidecar) := by
        rw [observeDraft, if_pos heq]
      simp only [next, hsession, prepareSave, hcall', writeLedger, hwrites,
        withPending_eq_self hne hpending hjournal, Bool.false_eq_true, if_false]
      rw [← hsession]

/-- Preparing a save carries the draft, under a new revision if it had none. -/
theorem Sound.prepare (h : directory.Sound hash known given) (hdraft : draft ∈ known)
    {reserves writes : Bool} (hsession : directory.session = some (state, .idle))
    (hkept : JournalKept hash directory (.prepare draft reserves writes))
    (hroom : directory.reserves hash (.prepare draft reserves writes) = true →
      directory.top.toNat < 2 ^ 64 - 1) :
    Advances hash known given directory
      (directory.next hash (.prepare draft reserves writes)) := by
  rcases next_prepare_cases hsession hkept with
    hnext | ⟨observed, sidecar, hcall, hfound, hzero, hnext⟩
  · rw [hnext]
    exact h.same
  · have hobserve : Advances hash known given directory
        (directory.next hash (.observe draft reserves)) := by
      refine h.observe hinjective hdraft hsession fun hreserves ↦ hroom ?_
      simp only [ConfigDirectory.reserves, hsession] at hreserves ⊢
      simp only [Bool.and_eq_true, bne_iff_ne] at hreserves
      rw [if_neg hreserves.1.2, if_neg hreserves.2]
      exact hreserves.1.1
    have hmiddle : directory.next hash (.observe draft reserves) =
        { directory with sidecar, session := some (observed, .idle) } := by
      simp only [next, hsession, hcall]
    rw [hmiddle] at hobserve
    rw [hnext]
    refine hobserve.trans (hobserve.sound.journal hdraft rfl hfound fun hrevision ↦ ?_)
      (carried_journal rfl)
    obtain ⟨rfl, hreserves⟩ := hzero hrevision
    exact hroom hreserves

omit hinjective in
/-- Replacing the file leaves the memory. -/
theorem Sound.writeConfig (h : directory.Sound hash known given)
    (hsession : directory.session = some (state, .prepared draft)) (succeeds : Bool) :
    Advances hash known given directory (directory.next hash (.writeConfig succeeds)) := by
  obtain ⟨hstate, hphase⟩ := h.session state _ hsession
  generalize hafter : directory.next hash (.writeConfig succeeds) = after
  simp only [next, hsession] at hafter
  obtain ⟨phase, hnow, hphase', hsidecar, hfile⟩ : ∃ phase, after.session = some (state, phase) ∧
      SoundPhase hash known directory.sidecar state phase ∧ after.sidecar = directory.sidecar ∧
      ∀ content ∈ after.file, content ∈ known := by
    rw [← hafter]
    rcases succeeds with - | -
    · exact ⟨.idle, rfl, trivial, rfl, h.file⟩
    · refine ⟨.written draft, rfl, hphase, rfl, fun content hcontent ↦ ?_⟩
      exact Option.some.inj hcontent ▸ hphase.1
  have htop : after.top = directory.top := by rw [top, hsidecar, top]
  refine h.keep (fun revision content hcarries ↦ ⟨content, rfl, h.carried ?_⟩) htop hfile
    (hsidecar ▸ h.sidecar) fun state' phase' hsession' ↦ ?_
  · exact (carries_iff hsession).mpr ((carries_iff hnow).mp hcarries)
  · obtain ⟨rfl, rfl⟩ := Prod.mk.inj (Option.some.inj (hsession'.symm.trans hnow))
    rw [htop, hsidecar]
    exact ⟨hstate.mono Set.subset_union_left, hphase'⟩

/-- Finishing a save carries the saved draft under the revision of the journal. -/
theorem Sound.finish (h : directory.Sound hash known given)
    (hsession : directory.session = some (state, .written draft)) (writes : Bool) :
    Advances hash known given directory (directory.next hash (.finish writes)) := by
  obtain ⟨hstate, hdraft, hfound, hne, hsidecar, -, -⟩ := h.session state _ hsession
  have hmem := h.carried (carries_draft hsession hne)
  have hsame : SameContent draft state.draft :=
    hinjective _ hdraft _ hstate.draft.1 (hfound.trans hstate.draft.2.symm)
  generalize hafter : directory.next hash (.finish writes) = after
  simp only [next, hsession, finishSave] at hafter
  have hnow := congrArg ConfigDirectory.session hafter.symm
  have hledger : SoundLedger hash known given
      (state.ledger.commit state.draftRevision state.draftFingerprint) :=
    hstate.ledger.commit ⟨hne, state.draft, hstate.draft.1, hstate.draft.2, hmem⟩
  have hcases : after.sidecar = directory.sidecar ∨
      after.sidecar = some (state.ledger.commit state.draftRevision state.draftFingerprint) := by
    rw [← hafter]
    rcases writes with - | -
    · exact .inl rfl
    · exact .inr rfl
  have htop : after.top = directory.top := by
    rcases hcases with heq | heq
    · rw [top, heq, top]
    · rw [top, heq]
      exact hstate.last
  refine h.keep (fun revision content hcarries ↦ ?_) htop (by rw [← hafter]; exact h.file) ?_
    fun state' phase' hsession' ↦ ?_
  · obtain ⟨-, ⟨rfl, rfl⟩ | ⟨rfl, rfl⟩⟩ := (carries_iff hnow).mp hcarries
    · exact ⟨state.draft, rfl, hmem⟩
    · exact ⟨state.draft, hsame, hmem⟩
  · intro ledger hledger'
    rcases hcases with heq | heq
    · exact h.sidecar ledger (heq ▸ hledger')
    · rw [heq] at hledger'
      obtain rfl := Option.some.inj hledger'
      exact hledger
  · obtain ⟨rfl, rfl⟩ := Prod.mk.inj (Option.some.inj (hsession'.symm.trans hnow))
    exact ⟨⟨hstate.draft, ⟨hdraft, hfound⟩, fun _ _ ↦ rfl, hledger.mono Set.subset_union_left,
      htop ▸ hstate.last⟩, trivial⟩

omit hinjective in
/-- The ledger a session starts from. -/
theorem Sound.startingLedger (h : directory.Sound hash known given)
    (hlength : ∀ content ∈ known, (fingerprint hash content).utf8ByteSize = 64) :
    SoundLedger hash known given ((readLedger directory.sidecar).getD {}) ∧
      ((readLedger directory.sidecar).getD {}).lastAllocatedRevision = directory.top := by
  rcases hsidecar : directory.sidecar with - | ledger
  · rw [top, hsidecar]
    exact ⟨SoundLedger.default_sound, rfl⟩
  · have hledger := h.sidecar ledger hsidecar
    rw [top, hsidecar, hledger.readLedger_some hlength]
    exact ⟨hledger, rfl⟩

omit hinjective in
/-- What a session that starts on an existing file holds: the content of the file, under its
committed revision, which is an old one of the content or the next one. -/
theorem Sound.load_file (h : directory.Sound hash known given)
    (hlength : ∀ content ∈ known, (fingerprint hash content).utf8ByteSize = 64)
    {content : JsonValue} (hfile : directory.file = some content) (fallback : JsonValue) :
    ∃ ledger revision, directory.next hash (.load fallback true) = { directory with
        sidecar := some ledger
        session := some (⟨content, content, fingerprint hash content, fingerprint hash content,
          revision, revision, ledger⟩, .idle) } ∧
      (ledger, revision) = reconcile ((readLedger directory.sidecar).getD {})
        (fingerprint hash content) true ∧
      ledger.version = ledgerVersion ∧ ledger.committedRevision = revision ∧
      ledger.committedFingerprint = fingerprint hash content ∧ ledger.pendingFingerprint = none ∧
      (Names hash known given revision (fingerprint hash content) ∧
          ledger.lastAllocatedRevision = directory.top ∨
        directory.reserves hash (.load fallback true) = true ∧
          ledger.lastAllocatedRevision = revision ∧ revision ≠ 0 ∧
          (directory.top.toNat < 2 ^ 64 - 1 → directory.top < revision)) := by
  obtain ⟨hsound, hlast⟩ := h.startingLedger hlength
  have hspec := reconcile_spec hlength hsound (fun p hp ↦ hlast ▸ h.bounded p hp)
    (h.file content hfile)
  rcases hreconcile : reconcile ((readLedger directory.sidecar).getD {})
    (fingerprint hash content) true with ⟨ledger, revision⟩
  dsimp only at hspec
  rw [hreconcile] at hspec
  obtain ⟨hversion, hcommitted, hfound, hpending, hrevision⟩ := hspec
  refine ⟨ledger, revision, ?_, rfl, hversion, hcommitted, hfound, hpending, ?_⟩
  · simp only [next, load, hfile, Option.getD_some, Option.isSome_some, hreconcile, if_true,
      writeLedger]
  · refine hrevision.imp (fun h ↦ ⟨h.1, h.2.trans hlast⟩) ?_
    rintro ⟨hne, hne', rfl, heq⟩
    refine ⟨?_, heq, RevisionLedger.nextRevision_ne_zero _, fun hbelow ↦ ?_⟩
    · simp [reserves, hfile, hne, hne']
    · rw [← hlast] at hbelow ⊢
      rw [UInt64.lt_iff_toNat_lt, RevisionLedger.toNat_nextRevision hbelow]
      exact Nat.lt_succ_self _

/-- Starting a session carries the content of the file under an old revision or a new one. -/
theorem Sound.load (h : directory.Sound hash known given)
    (hlength : ∀ content ∈ known, (fingerprint hash content).utf8ByteSize = 64)
    {fallback : JsonValue} (hfallback : fallback ∈ known) {writes : Bool}
    (hroom : directory.reserves hash (.load fallback writes) = true →
      directory.top.toNat < 2 ^ 64 - 1) :
    Advances hash known given directory (directory.next hash (.load fallback writes)) := by
  rcases hfile : directory.file with - | content
  · -- a missing file: nothing is written, and the stand-in has no revision
    obtain ⟨hsound, hlast⟩ := h.startingLedger hlength
    generalize hafter : directory.next hash (.load fallback writes) = after
    simp only [next, ConfigState.load, hfile, Option.getD_none, Option.isSome_none, reconcile,
      Bool.not_false, if_true, Bool.false_eq_true, if_false] at hafter
    have hnow := congrArg ConfigDirectory.session hafter.symm
    have htop : after.top = directory.top := by rw [← hafter]; rfl
    refine h.keep (fun revision content hcarries ↦ ?_) htop (by rw [← hafter]; simp)
      (by rw [← hafter]; exact h.sidecar) fun state' phase' hsession' ↦ ?_
    · obtain ⟨hne, ⟨rfl, -⟩ | ⟨rfl, -⟩⟩ := (carries_iff hnow).mp hcarries
      · exact absurd rfl hne
      · exact absurd rfl hne
    · obtain ⟨rfl, rfl⟩ := Prod.mk.inj (Option.some.inj (hsession'.symm.trans hnow))
      exact ⟨⟨⟨hfallback, rfl⟩, ⟨hfallback, rfl⟩, fun _ _ ↦ rfl,
        (hsound.mono Set.subset_union_left).withoutPending, htop ▸ hlast⟩, trivial⟩
  rcases writes with - | -
  · -- the sidecar could not be written: no session starts
    refine h.stop ?_ ?_ ?_ <;>
      simp [next, ConfigState.load, hfile, writeLedger, h.file content hfile]
  obtain ⟨ledger, revision, hnext, -, hversion, hcommitted, hfound, hpending, hrevision⟩ :=
    h.load_file hlength hfile fallback
  have hknown := h.file content hfile
  have hnow := congrArg ConfigDirectory.session hnext
  have hne : revision ≠ 0 := by
    rcases hrevision with ⟨hnames, -⟩ | ⟨-, -, hne, -⟩
    · exact hnames.1
    · exact hne
  have hcarried : ∀ p ∈ (directory.next hash (.load fallback true)).carried,
      p = (revision, content) := by
    rintro ⟨revision', content'⟩ hp
    obtain ⟨-, ⟨rfl, rfl⟩ | ⟨rfl, rfl⟩⟩ := (carries_iff hnow).mp hp
    · rfl
    · rfl
  have hmem : (revision, content) ∈ (directory.next hash (.load fallback true)).carried :=
    (carries_iff hnow).mpr ⟨hne, .inl ⟨rfl, rfl⟩⟩
  have htop : (directory.next hash (.load fallback true)).top = ledger.lastAllocatedRevision := by
    rw [hnext]
    rfl
  have hledger : SoundLedger hash known
      (given ∪ (directory.next hash (.load fallback true)).carried) ledger := by
    refine ⟨hversion, .inr ?_, .inl hpending⟩
    rw [hcommitted, hfound]
    exact ⟨hne, content, hknown, rfl, .inr hmem⟩
  have hstep : directory.top ≤ ledger.lastAllocatedRevision ∧
      revision ≤ ledger.lastAllocatedRevision ∧ Fits given directory.top revision content := by
    rcases hrevision with ⟨⟨-, same, hsame, heq, hgiven⟩, hlast⟩ | ⟨hreserves, hlast, -, hlt⟩
    · refine ⟨hlast ▸ UInt64.le_refl _, hlast ▸ h.bounded (revision, same) hgiven, .inl ?_⟩
      exact ⟨same, hinjective _ hknown _ hsame heq.symm, hgiven⟩
    · have hlt := hlt (hroom hreserves)
      exact ⟨hlast ▸ UInt64.le_of_lt hlt, hlast ▸ UInt64.le_refl _, .inr hlt⟩
  refine h.advance (fun revision' content' hcarries ↦ ?_) ?_ (htop ▸ hstep.1) ?_ ?_ ?_
    fun state' phase' hsession' ↦ ?_
  · obtain ⟨rfl, rfl⟩ := Prod.mk.inj (hcarried (revision', content') hcarries)
    exact hstep.2.2
  · intro p hp q hq _ _
    rw [hcarried p hp, hcarried q hq]
    rfl
  · intro p hp
    rw [hcarried p hp, htop]
    exact hstep.2.1
  · rw [hnext]
    exact h.file
  · intro ledger' hledger'
    rw [hnext] at hledger'
    obtain rfl := Option.some.inj hledger'
    exact hledger
  · obtain ⟨rfl, rfl⟩ := Prod.mk.inj (Option.some.inj (hsession'.symm.trans hnow))
    exact ⟨⟨⟨hknown, rfl⟩, ⟨hknown, rfl⟩, fun _ _ ↦ rfl, hledger, htop.symm⟩, trivial⟩

/-- Every step carries old pairs, or one new pair above all the old ones. -/
theorem Sound.next (h : directory.Sound hash known given)
    (hlength : ∀ content ∈ known, (fingerprint hash content).utf8ByteSize = 64)
    {step : ConfigStep} (hcontents : ∀ content ∈ step.contents, content ∈ known)
    (hkept : JournalKept hash directory step)
    (hroom : directory.reserves hash step = true → directory.top.toNat < 2 ^ 64 - 1) :
    Advances hash known given directory (directory.next hash step) := by
  rcases step with ⟨fallback, writes⟩ | ⟨draft, writes⟩ | ⟨draft, reserves, writes⟩ | succeeds |
    writes | - | content
  · exact h.load hinjective hlength (hcontents _ List.mem_cons_self) hroom
  · rcases hsession : directory.session with - | ⟨state, - | saving | saving⟩
    · simpa only [ConfigDirectory.next, hsession] using h.same
    · exact h.observe hinjective (hcontents _ List.mem_cons_self) hsession hroom
    · simpa only [ConfigDirectory.next, hsession] using h.same
    · simpa only [ConfigDirectory.next, hsession] using h.same
  · rcases hsession : directory.session with - | ⟨state, - | saving | saving⟩
    · simpa only [ConfigDirectory.next, hsession] using h.same
    · exact h.prepare hinjective (hcontents _ List.mem_cons_self) hsession hkept hroom
    · simpa only [ConfigDirectory.next, hsession] using h.same
    · simpa only [ConfigDirectory.next, hsession] using h.same
  · rcases hsession : directory.session with - | ⟨state, - | saving | saving⟩
    · simpa only [ConfigDirectory.next, hsession] using h.same
    · simpa only [ConfigDirectory.next, hsession] using h.same
    · exact h.writeConfig hsession succeeds
    · simpa only [ConfigDirectory.next, hsession] using h.same
  · rcases hsession : directory.session with - | ⟨state, - | saving | saving⟩
    · simpa only [ConfigDirectory.next, hsession] using h.same
    · simpa only [ConfigDirectory.next, hsession] using h.same
    · simpa only [ConfigDirectory.next, hsession] using h.same
    · exact h.finish hinjective hsession writes
  · exact h.stop rfl rfl h.file
  · rcases hsession : directory.session with - | pair
    · simp only [ConfigDirectory.next, hsession]
      refine h.stop rfl rfl fun found hfound ↦ hcontents found ?_
      exact Option.mem_toList.mpr hfound
    · simpa only [ConfigDirectory.next, hsession] using h.same

end Calls

end ConfigDirectory

end TokenStation
