import TokenStation.Client.RevisionRuns
import TokenStation.Client.SpentRevisions

/-!
# The identities and their sidecar

`given` holds every pair of a revision and a draft that is named by the sidecar or by the session.
The session's ledger bounds all of them, and it is never behind the sidecar's: that is what an
operation breaks that reserves a revision, fails, and puts the identities back.
-/

namespace TokenStation

open Library JsonValue ConfigState Command

/-- The pairs up to a revision. -/
def upTo (given : Set (UInt64 × JsonValue)) (last : UInt64) : Set (UInt64 × JsonValue) :=
  {p | p ∈ given ∧ p.1 ≤ last}

/-- The pairs that are new to `given` are above its bound. -/
structure Extends (given given' : Set (UInt64 × JsonValue)) (last : UInt64) : Prop where
  subset : given ⊆ given'
  above : ∀ p ∈ given', p ∈ given ∨ last < p.1

namespace Extends

variable {given given' given'' : Set (UInt64 × JsonValue)} {last last' : UInt64}

theorem refl (given : Set (UInt64 × JsonValue)) (last : UInt64) : Extends given given last :=
  ⟨subset_rfl, fun _ hp ↦ Or.inl hp⟩

theorem trans (h : Extends given given' last) (h' : Extends given' given'' last')
    (hle : last ≤ last') : Extends given given'' last := by
  refine ⟨h.subset.trans h'.subset, fun p hp ↦ ?_⟩
  obtain hp | habove := h'.above p hp
  · exact h.above p hp
  · exact Or.inr (UInt64.lt_of_le_of_lt hle habove)

/-- A pair within the bound is an old one. -/
theorem mem_of_le (h : Extends given given' last) {p : UInt64 × JsonValue} (hp : p ∈ given')
    (hle : p.1 ≤ last) : p ∈ given :=
  (h.above p hp).resolve_right (UInt64.not_lt.mpr hle)

end Extends

section Invariant

variable (hash : JsonValue → String) (known : Set JsonValue) (given : Set (UInt64 × JsonValue))

/-- The pairs are told apart by their revisions. -/
structure SoundPairs : Prop where
  distinct : ∀ p ∈ given, ∀ q ∈ given, p.1 = q.1 → p.2 = q.2
  positive : ∀ p ∈ given, p.1 ≠ 0

/-- The files of a desktop. -/
structure SoundFiles (desk : RevisionDesk) : Prop extends SoundPairs given where
  reserved : ∀ p ∈ desk.reserved, p ∈ given ∧
    ∃ ledger ∈ desk.sidecar, p.1 ≤ ledger.lastAllocatedRevision
  sidecar : ∀ ledger ∈ desk.sidecar,
    SoundLedger hash known (upTo given ledger.lastAllocatedRevision) ledger

/-- The identities in memory. -/
structure SoundMemory (state : ConfigState) : Prop where
  draft : state.draft ∈ known ∧ fingerprint hash state.draft = state.draftFingerprint
  saved : state.saved ∈ known ∧ fingerprint hash state.saved = state.savedFingerprint
  ledger : SoundLedger hash known given state.ledger
  bounded : ∀ p ∈ given, p.1 ≤ state.ledger.lastAllocatedRevision
  draftGiven : state.draftRevision ≠ 0 → (state.draftRevision, state.draft) ∈ given
  savedGiven : state.savedRevision ≠ 0 → (state.savedRevision, state.saved) ∈ given

structure SoundDesk (desk : RevisionDesk) : Prop extends SoundFiles hash known given desk where
  memory : SoundMemory hash known given desk.app.configState
  ahead : ∀ ledger ∈ desk.sidecar,
    ledger.lastAllocatedRevision ≤ desk.app.configState.ledger.lastAllocatedRevision

end Invariant

variable {hash : JsonValue → String} {known : Set JsonValue}
  {given given' : Set (UInt64 × JsonValue)} {state : ConfigState} {desk : RevisionDesk}

/-! ## New pairs -/

/-- A new pair above all the others. -/
theorem SoundPairs.insert (h : SoundPairs given) (content : JsonValue) {last revision : UInt64}
    (hbounded : ∀ p ∈ given, p.1 ≤ last) (hlt : last < revision) :
    SoundPairs (insert (revision, content) given) ∧
      Extends given (insert (revision, content) given) last := by
  have hnew : ∀ p ∈ given, p.1 ≠ revision := fun p hp heq ↦
    UInt64.not_lt.mpr (hbounded p hp) (heq ▸ hlt)
  refine ⟨⟨?_, ?_⟩, Set.subset_insert _ _, ?_⟩
  · rintro p (rfl | hp) q (rfl | hq) heq
    · rfl
    · exact absurd heq.symm (hnew q hq)
    · exact absurd heq (hnew p hp)
    · exact h.distinct p hp q hq heq
  · rintro p (rfl | hp) hzero
    · dsimp only at hzero
      rw [hzero] at hlt
      exact absurd hlt (UInt64.not_lt.mpr (UInt64.zero_le))
    · exact h.positive p hp hzero
  · rintro p (rfl | hp)
    · exact Or.inr hlt
    · exact Or.inl hp

theorem lt_nextRevision {ledger : RevisionLedger}
    (hroom : ledger.lastAllocatedRevision.toNat < 2 ^ 64 - 1) :
    ledger.lastAllocatedRevision < ledger.nextRevision := by
  rw [UInt64.lt_iff_toNat_lt, RevisionLedger.toNat_nextRevision hroom]
  exact Nat.lt_succ_self _

/-! ## Writing the sidecar -/

/-- The identities of a session change, and the sidecar is written with them, or it is left. -/
theorem SoundDesk.wrote (h : SoundDesk hash known given desk) (sidecar : Option RevisionLedger)
    (hsub : given ⊆ given') (hpairs : SoundPairs given')
    (hmemory : SoundMemory hash known given' state)
    (hlast : desk.app.configState.ledger.lastAllocatedRevision ≤
      state.ledger.lastAllocatedRevision)
    (hsidecar : sidecar = desk.sidecar ∨
      sidecar = some state.ledger ∧ state.draftRevision ≠ 0) :
    SoundDesk hash known given' (desk.wrote state sidecar) := by
  have hbefore : ∀ p ∈ desk.reserved, p ∈ given' ∧
      p.1 ≤ desk.app.configState.ledger.lastAllocatedRevision := by
    intro p hp
    obtain ⟨hgiven, ledger, hledger, hle⟩ := h.reserved p hp
    exact ⟨hsub hgiven, UInt64.le_trans hle (h.ahead ledger hledger)⟩
  by_cases hsame : sidecar = desk.sidecar
  · subst hsame
    refine ⟨⟨hpairs, fun p hp ↦ ?_, fun ledger hledger ↦ ?_⟩, hmemory, fun ledger hledger ↦ ?_⟩
    · rw [RevisionDesk.wrote] at hp
      dsimp only at hp
      rw [if_pos rfl] at hp
      obtain ⟨hgiven, hle⟩ := h.reserved p hp
      exact ⟨hsub hgiven, hle⟩
    · have hmore : upTo given ledger.lastAllocatedRevision ⊆
          upTo given' ledger.lastAllocatedRevision := fun p hp ↦ ⟨hsub hp.1, hp.2⟩
      exact (h.sidecar ledger hledger).mono hmore
    · exact UInt64.le_trans (h.ahead ledger hledger) hlast
  · obtain ⟨rfl, hrevision⟩ := hsidecar.resolve_left hsame
    refine ⟨⟨hpairs, fun p hp ↦ ?_, fun ledger hledger ↦ ?_⟩, hmemory, fun ledger hledger ↦ ?_⟩
    · rw [RevisionDesk.wrote] at hp
      dsimp only at hp
      rw [if_neg hsame] at hp
      obtain hp | hp := List.mem_append.mp hp
      · obtain ⟨hgiven, hle⟩ := hbefore p hp
        exact ⟨hgiven, _, rfl, UInt64.le_trans hle hlast⟩
      · obtain rfl := List.mem_singleton.mp hp
        have hgiven := hmemory.draftGiven hrevision
        exact ⟨hgiven, _, rfl, hmemory.bounded _ hgiven⟩
    · obtain rfl := Option.some.inj hledger
      have hall : given' ⊆ upTo given' state.ledger.lastAllocatedRevision :=
        fun p hp ↦ ⟨hp, hmemory.bounded p hp⟩
      exact hmemory.ledger.mono hall
    · obtain rfl := Option.some.inj hledger
      exact UInt64.le_refl _

theorem RevisionDesk.wrote_self (desk : RevisionDesk) :
    desk.wrote desk.app.configState desk.sidecar = desk := by
  rw [RevisionDesk.wrote, if_pos rfl]

/-- The draft of a session is no part of what is remembered of it. -/
theorem SoundDesk.withDraft (h : SoundDesk hash known given desk) (draft : JsonValue) :
    SoundDesk hash known given (desk.withDraft draft) :=
  ⟨⟨h.toSoundPairs, h.reserved, h.sidecar⟩, h.memory, h.ahead⟩

/-! ## Observing -/

/-- What an observation does to a desktop. -/
structure ObserveEnds (host : ProviderHost) (known : Set JsonValue)
    (given given' : Set (UInt64 × JsonValue)) (draft : JsonValue) (writes : Bool)
    (desk : RevisionDesk) (result : Except String Unit) (after : RevisionDesk) : Prop where
  pairs : Extends given given' desk.app.configState.ledger.lastAllocatedRevision
  sound : SoundDesk host.hash known given' after
  ends : result = .ok () ∧ after.app.draft = draft ∧ after.app.configState.draft = draft ∨
    (∃ error, result = .error error) ∧ after = desk.withDraft desk.app.configState.draft
  saved : after.app.configState.saved = desk.app.configState.saved ∧
    after.app.configState.savedFingerprint = desk.app.configState.savedFingerprint
  loadError : after.app.loadError = desk.app.loadError
  last : desk.app.configState.ledger.lastAllocatedRevision ≤
    after.app.configState.ledger.lastAllocatedRevision
  room : after.app.configState.ledger.lastAllocatedRevision.toNat ≤
    desk.app.configState.ledger.lastAllocatedRevision.toNat + 1
  kept : after.app.configState.ledger.lastAllocatedRevision =
      desk.app.configState.ledger.lastAllocatedRevision ∨
    IsNew host desk.app.configState draft ∧ writes = true
  first : result = .ok () → after.app.configState.draftRevision = 0 →
    IsFirst host desk.app.configState draft

section Calls

variable {host : ProviderHost} {draft : JsonValue} {writes : Bool}
variable (hinjective : ∀ a ∈ known, ∀ b ∈ known,
  fingerprint host.hash a = fingerprint host.hash b → a = b)

include hinjective in
theorem SoundDesk.observe (h : SoundDesk host.hash known given desk) (hdraft : draft ∈ known)
    (hroom : desk.app.configState.ledger.lastAllocatedRevision.toNat < 2 ^ 64 - 1) :
    ∃ given', ObserveEnds host known given given' draft writes desk
      (desk.observe host draft writes).1 (desk.observe host draft writes).2 := by
  have hmemory := h.memory
  obtain ⟨hsame, hcall⟩ | ⟨hnot, hsaved, hcall⟩ | ⟨hnot, hunsaved, hfails, error, hcall⟩ |
      ⟨hnot, hunsaved, hwrites, hcall⟩ := observeDraft_cases host.hash draft writes
    desk.app.configState desk.sidecar
  · have hresult : desk.observe host draft writes = (.ok (), desk.withDraft draft) := by
      rw [RevisionDesk.observe, hcall]
      dsimp only
      rw [RevisionDesk.wrote_self]
    have heq : desk.app.configState.draft = draft :=
      hinjective _ hmemory.draft.1 _ hdraft (hmemory.draft.2.trans hsame.symm)
    rw [hresult]
    exact ⟨given, .refl _ _, h.withDraft draft, Or.inl ⟨rfl, rfl, heq⟩, ⟨rfl, rfl⟩, rfl,
      UInt64.le_refl _, Nat.le_succ _, Or.inl rfl, fun _ hzero ↦ Or.inl ⟨hsame, hzero⟩⟩
  · have heq : desk.app.configState.saved = draft :=
      hinjective _ hmemory.saved.1 _ hdraft (hmemory.saved.2.trans hsaved.symm)
    have hback : SoundMemory host.hash known given { desk.app.configState with
        draft := draft
        draftFingerprint := fingerprint host.hash draft
        draftRevision := desk.app.configState.savedRevision } :=
      ⟨⟨hdraft, rfl⟩, hmemory.saved, hmemory.ledger, hmemory.bounded,
        fun hne ↦ heq ▸ hmemory.savedGiven hne, hmemory.savedGiven⟩
    rw [RevisionDesk.observe, hcall]
    exact ⟨given, .refl _ _, (h.wrote _ subset_rfl h.toSoundPairs hback (UInt64.le_refl _)
      (Or.inl rfl)).withDraft draft, Or.inl ⟨rfl, rfl, rfl⟩, ⟨rfl, rfl⟩, rfl, UInt64.le_refl _,
      Nat.le_succ _, Or.inl rfl, fun _ hzero ↦ Or.inr ⟨hnot, hsaved, hzero⟩⟩
  · have hresult : desk.observe host draft writes =
        (.error error, desk.withDraft desk.app.configState.draft) := by
      rw [RevisionDesk.observe, hcall]
      dsimp only
      rw [RevisionDesk.wrote_self]
    rw [hresult]
    exact ⟨given, .refl _ _, h.withDraft _, Or.inr ⟨⟨error, rfl⟩, rfl⟩, ⟨rfl, rfl⟩, rfl,
      UInt64.le_refl _, Nat.le_succ _, Or.inl rfl, fun hok ↦ absurd hok nofun⟩
  · -- the one new pair of a revision and a draft
    obtain ⟨hpairs, hextends⟩ := h.toSoundPairs.insert draft hmemory.bounded
      (lt_nextRevision hroom)
    have hlt := lt_nextRevision hroom
    have hreserved : SoundMemory host.hash known
        (insert (desk.app.configState.ledger.nextRevision, draft) given)
        { desk.app.configState with
          draft := draft
          draftFingerprint := fingerprint host.hash draft
          draftRevision := desk.app.configState.ledger.nextRevision
          ledger := desk.app.configState.ledger.reserve } := by
      refine ⟨⟨hdraft, rfl⟩, hmemory.saved, (hmemory.ledger.mono hextends.subset).reserve, ?_,
        fun _ ↦ Or.inl rfl, fun hne ↦ Or.inr (hmemory.savedGiven hne)⟩
      rintro p (rfl | hp)
      · exact UInt64.le_refl _
      · exact UInt64.le_trans (hmemory.bounded p hp) (UInt64.le_of_lt hlt)
    rw [RevisionDesk.observe, hcall]
    refine ⟨_, hextends, (h.wrote _ hextends.subset hpairs hreserved (UInt64.le_of_lt hlt)
      (Or.inr ⟨rfl, desk.app.configState.ledger.nextRevision_ne_zero⟩)).withDraft draft,
      Or.inl ⟨rfl, rfl, rfl⟩, ⟨rfl, rfl⟩, rfl, UInt64.le_of_lt hlt, ?_,
      Or.inr ⟨⟨hnot, hunsaved⟩, hwrites⟩,
      fun _ hzero ↦ absurd hzero desk.app.configState.ledger.nextRevision_ne_zero⟩
    exact (RevisionLedger.toNat_nextRevision hroom).le

end Calls

/-! ## Saving -/

/-- The save of a draft that is observed already journals it. -/
theorem prepareSave_same {draft : JsonValue} (h : fingerprint hash draft = state.draftFingerprint)
    (reserves writes : Bool) (sidecar : Option RevisionLedger) :
    ConfigState.prepareSave hash draft reserves writes state sidecar =
      if writes then
        (.ok state.withPending.draftRevision, state.withPending, some state.withPending.ledger)
      else (.error "提交 revision sidecar 失败", state.withPending, sidecar) := by
  have hobserve : ConfigState.observeDraft hash draft reserves state sidecar =
      (.ok (), state, sidecar) := by
    rw [ConfigState.observeDraft]
    exact if_pos h
  rw [ConfigState.prepareSave, hobserve]
  cases writes with
  | true => rfl
  | false => rfl

theorem withPending_draftRevision (state : ConfigState) : state.withPending.draftRevision =
    if state.draftRevision = 0 then state.ledger.nextRevision else state.draftRevision := by
  rw [withPending]
  split <;> rfl

theorem withPending_last (state : ConfigState) : state.withPending.ledger.lastAllocatedRevision =
    if state.draftRevision = 0 then state.ledger.nextRevision
    else state.ledger.lastAllocatedRevision := by
  rw [withPending]
  split <;> rfl

theorem withPending_draftRevision_ne_zero (state : ConfigState) :
    state.withPending.draftRevision ≠ 0 := by
  rw [withPending_draftRevision]
  split
  next => exact state.ledger.nextRevision_ne_zero
  next hne => exact hne

/-- A journal leaves the draft and what is saved. -/
theorem withPending_contents (state : ConfigState) :
    state.withPending.draft = state.draft ∧
      state.withPending.draftFingerprint = state.draftFingerprint ∧
      state.withPending.saved = state.saved ∧
      state.withPending.savedFingerprint = state.savedFingerprint ∧
      state.withPending.savedRevision = state.savedRevision := by
  rw [withPending]
  split <;> exact ⟨rfl, rfl, rfl, rfl, rfl⟩

/-- The ledger of a journal names the draft. -/
theorem SoundLedger.withPending (h : SoundLedger hash known given state.ledger)
    (hnames : Names hash known given state.withPending.draftRevision state.draftFingerprint) :
    SoundLedger hash known given state.withPending.ledger := by
  rw [ConfigState.withPending] at hnames ⊢
  split at hnames
  next hzero =>
    rw [if_pos hzero]
    exact ⟨h.version, h.committed, Or.inr ⟨_, _, rfl, rfl, hnames⟩⟩
  next hne =>
    rw [if_neg hne]
    exact ⟨h.version, h.committed, Or.inr ⟨_, _, rfl, rfl, hnames⟩⟩

/-- What the journal of a save does to the identities: a draft without a revision gets one. -/
theorem SoundMemory.withPending (h : SoundMemory hash known given state) (hpairs : SoundPairs given)
    (hroom : state.ledger.lastAllocatedRevision.toNat < 2 ^ 64 - 1) :
    ∃ given', Extends given given' state.ledger.lastAllocatedRevision ∧ SoundPairs given' ∧
      SoundMemory hash known given' state.withPending ∧
      state.ledger.lastAllocatedRevision ≤ state.withPending.ledger.lastAllocatedRevision := by
  obtain ⟨hdraft, hdraftFound, hsaved, hsavedFound, hsavedRevision⟩ := withPending_contents state
  have hmemory : ∀ {given'}, given ⊆ given' → SoundPairs given' →
      (state.withPending.draftRevision, state.draft) ∈ given' →
      (∀ p ∈ given', p.1 ≤ state.withPending.ledger.lastAllocatedRevision) →
      SoundMemory hash known given' state.withPending := by
    intro given' hsub hpairs' hmem hbounded
    refine ⟨?_, ?_, (h.ledger.mono hsub).withPending ⟨hpairs'.positive _ hmem, _, h.draft.1,
      h.draft.2, hmem⟩, hbounded, ?_, ?_⟩
    · rw [hdraft, hdraftFound]
      exact h.draft
    · rw [hsaved, hsavedFound]
      exact h.saved
    · rw [hdraft]
      exact fun _ ↦ hmem
    · rw [hsaved, hsavedRevision]
      exact fun hne ↦ hsub (h.savedGiven hne)
  by_cases hzero : state.draftRevision = 0
  · obtain ⟨hpairs', hextends⟩ := hpairs.insert state.draft h.bounded
      (lt_nextRevision hroom)
    have hlt := lt_nextRevision hroom
    refine ⟨_, hextends, hpairs', hmemory hextends.subset hpairs' ?_ ?_, ?_⟩
    · rw [withPending_draftRevision, if_pos hzero]
      exact Or.inl rfl
    · rw [withPending_last, if_pos hzero]
      rintro p (rfl | hp)
      · exact UInt64.le_refl _
      · exact UInt64.le_trans (h.bounded p hp) (UInt64.le_of_lt hlt)
    · rw [withPending_last, if_pos hzero]
      exact UInt64.le_of_lt hlt
  · refine ⟨given, .refl _ _, hpairs, hmemory subset_rfl hpairs ?_ ?_, ?_⟩
    · rw [withPending_draftRevision, if_neg hzero]
      exact h.draftGiven hzero
    · rw [withPending_last, if_neg hzero]
      exact h.bounded
    · rw [withPending_last, if_neg hzero]
      exact UInt64.le_refl _

/-- What a save does to a desktop. -/
structure SaveEnds (host : ProviderHost) (known : Set JsonValue)
    (given given' : Set (UInt64 × JsonValue)) (writes : SaveWrites) (desk : RevisionDesk)
    (result : Except String Unit) (after : RevisionDesk) : Prop where
  pairs : Extends given given' desk.app.configState.ledger.lastAllocatedRevision
  sound : SoundDesk host.hash known given' after
  draft : after.app.draft = desk.app.draft ∧
    after.app.configState.draft = desk.app.configState.draft
  loadError : after.app.loadError = desk.app.loadError
  /-- After an error, the sidecar is not ahead of what the session had before. -/
  behind : ∀ error, result = .error error →
    (desk.app.configState.draftRevision = 0 → writes.journals = true →
      (materializeDraft host.toDesktopHost desk.app.draft).isOk = true →
        RevisionDesk.replaceFiles host desk.app.draft writes.replaced = .ok ()) →
    ∀ ledger ∈ after.sidecar,
      ledger.lastAllocatedRevision ≤ desk.app.configState.ledger.lastAllocatedRevision
  /-- It succeeds if nothing fails. -/
  succeeds : desk.app.loadError = none → writes.journals = true →
    RevisionDesk.replaceFiles host desk.app.draft writes.replaced = .ok () → result = .ok ()
  saved : ∀ error, result = .error error →
    after.app.configState.saved = desk.app.configState.saved ∧
      after.app.configState.savedFingerprint = desk.app.configState.savedFingerprint
  room : after.app.configState.ledger.lastAllocatedRevision.toNat ≤
    desk.app.configState.ledger.lastAllocatedRevision.toNat + 1

theorem isOk_of_replaceFiles {host : ProviderHost} {draft : JsonValue} {fault : Option String}
    (h : RevisionDesk.replaceFiles host draft fault = .ok ()) :
    ∃ config, materializeDraft host.toDesktopHost draft = .ok config := by
  obtain ⟨config, hconfig, -⟩ := except_bind_eq_ok.mp h
  exact ⟨config, hconfig⟩

/-- A save of the draft of a session. -/
theorem SoundDesk.save {host : ProviderHost} (h : SoundDesk host.hash known given desk)
    (hdraft : desk.app.draft = desk.app.configState.draft)
    (hroom : desk.app.configState.ledger.lastAllocatedRevision.toNat < 2 ^ 64 - 1)
    (writes : SaveWrites) :
    ∃ given', SaveEnds host known given given' writes desk
      (desk.save host writes).1 (desk.save host writes).2 := by
  have hmemory := h.memory
  -- a save that does nothing
  have hleft : ∀ error, (desk.app.loadError = none → writes.journals = true →
      RevisionDesk.replaceFiles host desk.app.draft writes.replaced = .ok () → False) →
      SaveEnds host known given given writes desk (.error error) desk := by
    intro error hnever
    exact ⟨.refl _ _, h, ⟨rfl, rfl⟩, rfl, fun _ _ _ ↦ h.ahead,
      fun hopen hjournals hok ↦ (hnever hopen hjournals hok).elim, fun _ _ ↦ ⟨rfl, rfl⟩,
      Nat.le_succ _⟩
  rw [RevisionDesk.save]
  split
  next error hclosed =>
    refine ⟨given, hleft error fun hopen _ _ ↦ ?_⟩
    rw [hclosed] at hopen
    nomatch hopen
  next error hclosed hinvalid =>
    refine ⟨given, hleft error fun _ _ hok ↦ ?_⟩
    obtain ⟨config, hconfig⟩ := isOk_of_replaceFiles hok
    nomatch hinvalid.symm.trans hconfig
  next config hopen hvalid =>
    have hfound : fingerprint host.hash desk.app.draft = desk.app.configState.draftFingerprint := by
      rw [hdraft]
      exact hmemory.draft.2
    obtain ⟨given', hextends, hpairs', hmemory', hlast⟩ := hmemory.withPending h.toSoundPairs hroom
    obtain ⟨hsame, hsameFound, hsaved, hsavedFound, -⟩ := withPending_contents desk.app.configState
    have hnext : desk.app.configState.withPending.ledger.lastAllocatedRevision.toNat ≤
        desk.app.configState.ledger.lastAllocatedRevision.toNat + 1 := by
      rw [withPending_last]
      split
      next => exact (RevisionLedger.toNat_nextRevision hroom).le
      next => exact Nat.le_succ _
    rw [prepareSave_same hfound]
    by_cases hjournals : writes.journals = true
    · rw [if_pos hjournals]
      dsimp only
      have hjournaled : SoundDesk host.hash known given'
          (desk.wrote desk.app.configState.withPending
            (some desk.app.configState.withPending.ledger)) :=
        h.wrote _ hextends.subset hpairs' hmemory' hlast
          (Or.inr ⟨rfl, withPending_draftRevision_ne_zero _⟩)
      split
      next error hfails =>
        refine ⟨given', hextends, hjournaled, ⟨rfl, hsame⟩, rfl,
          fun error _ hfirst ledger hledger ↦ ?_,
          fun _ _ hok ↦ ?_, fun _ _ ↦ ⟨hsaved, hsavedFound⟩, hnext⟩
        · obtain rfl := Option.some.inj hledger
          have hrevision : desk.app.configState.draftRevision ≠ 0 := by
            intro hzero
            have hok := hfirst hzero hjournals (by rw [hvalid]; rfl)
            nomatch hfails.symm.trans hok
          rw [withPending_last, if_neg hrevision]
          exact UInt64.le_refl _
        · nomatch hfails.symm.trans hok
      next hreplaced =>
        have hfinished : SoundMemory host.hash known given' { desk.app.configState.withPending with
            saved := desk.app.draft
            savedFingerprint := desk.app.configState.withPending.draftFingerprint
            savedRevision := desk.app.configState.withPending.draftRevision
            ledger := desk.app.configState.withPending.ledger.commit
              desk.app.configState.withPending.draftRevision
              desk.app.configState.withPending.draftFingerprint } := by
          have hgiven := hmemory'.draftGiven (withPending_draftRevision_ne_zero _)
          refine ⟨hmemory'.draft, ?_,
            hmemory'.ledger.commit ⟨withPending_draftRevision_ne_zero _, _,
            hmemory'.draft.1, hmemory'.draft.2, hgiven⟩, hmemory'.bounded, hmemory'.draftGiven,
            fun _ ↦ ?_⟩
          · rw [hdraft, ← hsame]
            exact hmemory'.draft
          · rw [hdraft, ← hsame]
            exact hgiven
        refine ⟨given', hextends, ?_, ⟨rfl, hsame⟩, rfl, fun error herror ↦ (nomatch herror),
          fun _ _ _ ↦ rfl, fun error herror ↦ (nomatch herror), hnext⟩
        have hwritten := hjournaled.wrote (writeLedger writes.finishes
          (desk.app.configState.withPending.ledger.commit
            desk.app.configState.withPending.draftRevision
            desk.app.configState.withPending.draftFingerprint)
          (some desk.app.configState.withPending.ledger)).2 subset_rfl hpairs' hfinished
          (UInt64.le_refl _) (by
            rw [writeLedger]
            split
            · exact Or.inr ⟨rfl, withPending_draftRevision_ne_zero _⟩
            · exact Or.inl rfl)
        exact ⟨⟨hwritten.toSoundPairs, hwritten.reserved, hwritten.sidecar⟩, hwritten.memory,
          hwritten.ahead⟩
    · rw [if_neg hjournals]
      dsimp only
      refine ⟨given', hextends, h.wrote _ hextends.subset hpairs' hmemory' hlast (Or.inl rfl),
        ⟨rfl, hsame⟩, rfl, fun _ _ _ ↦ h.ahead, fun _ hjournaled ↦ absurd hjournaled hjournals,
        fun _ _ ↦ ⟨hsaved, hsavedFound⟩, hnext⟩

/-! ## Editing and saving -/

/-- What an edit that is saved at once does to a desktop. -/
structure EditEnds (host : ProviderHost) (known : Set JsonValue)
    (given given' : Set (UInt64 × JsonValue)) (draft : JsonValue) (reserves : Bool)
    (writes : SaveWrites) (desk : RevisionDesk) (result : Except String Unit)
    (after : RevisionDesk) : Prop where
  pairs : Extends given given' desk.app.configState.ledger.lastAllocatedRevision
  sound : SoundDesk host.hash known given' after
  drafts : after.app.draft = after.app.configState.draft ∧
    (after.app.draft = draft ∨ after.app.draft = desk.app.configState.draft)
  loadError : after.app.loadError = desk.app.loadError
  behind : ∀ error, result = .error error →
    SaveCompletes host desk.app.configState draft reserves writes →
    ∀ ledger ∈ after.sidecar,
      ledger.lastAllocatedRevision ≤ desk.app.configState.ledger.lastAllocatedRevision
  saved : ∀ error, result = .error error →
    after.app.configState.saved = desk.app.configState.saved ∧
      after.app.configState.savedFingerprint = desk.app.configState.savedFingerprint
  room : after.app.configState.ledger.lastAllocatedRevision.toNat ≤
    desk.app.configState.ledger.lastAllocatedRevision.toNat + 2

section Edits

variable {host : ProviderHost} {draft : JsonValue} {reserves : Bool} {writes : SaveWrites}
variable (hinjective : ∀ a ∈ known, ∀ b ∈ known,
  fingerprint host.hash a = fingerprint host.hash b → a = b)

include hinjective in
theorem SoundDesk.observeAndSave (h : SoundDesk host.hash known given desk)
    (hopen : desk.app.loadError = none) (hdraft : draft ∈ known)
    (hroom : desk.app.configState.ledger.lastAllocatedRevision.toNat + 2 < 2 ^ 64) :
    ∃ given', EditEnds host known given given' draft reserves writes desk
      (desk.observeAndSave host draft reserves writes).1
      (desk.observeAndSave host draft reserves writes).2 := by
  obtain ⟨given', hobserved⟩ : ∃ given', ObserveEnds host known given given' draft reserves desk
      (desk.observe host draft reserves).1 (desk.observe host draft reserves).2 :=
    h.observe hinjective hdraft (by omega)
  rw [RevisionDesk.observeAndSave]
  generalize desk.observe host draft reserves = observed at hobserved
  obtain ⟨result, middle⟩ := observed
  obtain ⟨rfl, happ, hstate⟩ | ⟨⟨error, rfl⟩, hmiddle⟩ := hobserved.ends
  · dsimp only at hobserved happ hstate ⊢
    obtain ⟨given'', hends⟩ := hobserved.sound.save (happ.trans hstate.symm)
      (hobserved.room.trans_lt (by omega)) writes
    refine ⟨given'', hobserved.pairs.trans hends.pairs hobserved.last, hends.sound, ?_,
      hends.loadError.trans hobserved.loadError, fun error herror hcompletes ledger hledger ↦ ?_,
      fun error herror ↦ ?_, ?_⟩
    · rw [hends.draft.1, hends.draft.2, happ, hstate]
      exact ⟨rfl, Or.inl rfl⟩
    · obtain hkept | ⟨hnew, hreserves⟩ := hobserved.kept
      · rw [← hkept]
        refine hends.behind error herror (fun hzero hjournals hvalid ↦ ?_) ledger hledger
        rw [happ] at hvalid ⊢
        exact hcompletes.2 (hobserved.first rfl hzero) hjournals hvalid
      · -- a revision was reserved, and the save completes
        obtain ⟨hjournals, hreplaced⟩ := hcompletes.1 hnew hreserves
        rw [← happ] at hreplaced
        have hok := hends.succeeds (hobserved.loadError.trans hopen) hjournals hreplaced
        nomatch herror.symm.trans hok
    · obtain ⟨hsaved, hfound⟩ := hends.saved error herror
      exact ⟨hsaved.trans hobserved.saved.1, hfound.trans hobserved.saved.2⟩
    · have hfirst := hobserved.room
      have hsecond := hends.room
      omega
  · dsimp only at hobserved hmiddle ⊢
    subst hmiddle
    exact ⟨given', hobserved.pairs, hobserved.sound, ⟨rfl, Or.inr rfl⟩, rfl,
      fun _ _ _ ↦ h.ahead, fun _ _ ↦ ⟨rfl, rfl⟩, by dsimp only [RevisionDesk.withDraft]; omega⟩

/-- The identities are put back where the sidecar is not ahead of them. -/
theorem SoundDesk.restored (h : SoundDesk hash known given desk) {after : RevisionDesk}
    (hafter : SoundDesk hash known given' after)
    (hextends : Extends given given' desk.app.configState.ledger.lastAllocatedRevision)
    (hbehind : ∀ ledger ∈ after.sidecar,
      ledger.lastAllocatedRevision ≤ desk.app.configState.ledger.lastAllocatedRevision)
    (restore : JsonValue → JsonValue) :
    SoundDesk hash known given (after.restored desk.app.configState restore) := by
  refine ⟨⟨h.toSoundPairs, fun p hp ↦ ?_, fun ledger hledger ↦ ?_⟩, h.memory, hbehind⟩
  · obtain ⟨hgiven, ledger, hledger, hle⟩ := hafter.reserved p hp
    exact ⟨hextends.mem_of_le hgiven (UInt64.le_trans hle (hbehind ledger hledger)), ledger,
      hledger, hle⟩
  · have hless : upTo given' ledger.lastAllocatedRevision ⊆
        upTo given ledger.lastAllocatedRevision := fun p hp ↦
      ⟨hextends.mem_of_le hp.1 (UInt64.le_trans hp.2 (hbehind ledger hledger)), hp.2⟩
    exact (hafter.sidecar ledger hledger).mono hless

end Edits

/-! ## Starting -/

/-- The identities of what was loaded. -/
def loadedState (hash : JsonValue → String) (draft : JsonValue)
    (reconciled : RevisionLedger × UInt64) : ConfigState where
  saved := draft
  draft := draft
  draftFingerprint := fingerprint hash draft
  savedFingerprint := fingerprint hash draft
  draftRevision := reconciled.2
  savedRevision := reconciled.2
  ledger := reconciled.1

theorem load_eq (hash : JsonValue → String) (draft : JsonValue) (configExists writes : Bool)
    (sidecar : Option RevisionLedger) :
    ConfigState.load hash draft configExists writes sidecar =
      let reconciled :=
        reconcile ((readLedger sidecar).getD {}) (fingerprint hash draft) configExists
      if configExists = true ∧ writes = false then
        (.error "提交 revision sidecar 失败", sidecar)
      else (.ok (loadedState hash draft reconciled),
        if configExists then some reconciled.1 else sidecar) := by
  cases configExists <;> cases writes <;> rfl

section Starting

variable {ledger : RevisionLedger} {content : JsonValue}
variable (hlength : ∀ c ∈ known, (fingerprint hash c).utf8ByteSize = 64)
variable (hinjective : ∀ a ∈ known, ∀ b ∈ known, fingerprint hash a = fingerprint hash b → a = b)

include hlength hinjective in
/-- A content that is loaded has a revision that was its own, or a new one, or none is needed. -/
theorem soundMemory_loaded (hpairs : SoundPairs given)
    (hledger : SoundLedger hash known given ledger)
    (hbounded : ∀ p ∈ given, p.1 ≤ ledger.lastAllocatedRevision) (hcontent : content ∈ known)
    (hroom : ledger.lastAllocatedRevision.toNat + 3 < 2 ^ 64) (configExists : Bool) :
    let reconciled := reconcile ledger (fingerprint hash content) configExists
    ∃ given', Extends given given' ledger.lastAllocatedRevision ∧ SoundPairs given' ∧
      SoundMemory hash known given' (loadedState hash content reconciled) ∧
      ledger.lastAllocatedRevision ≤ reconciled.1.lastAllocatedRevision ∧
      reconciled.1.lastAllocatedRevision.toNat ≤ ledger.lastAllocatedRevision.toNat + 1 ∧
      (configExists = true → reconciled.2 ≠ 0) := by
  cases configExists with
  | false =>
    refine ⟨given, .refl _ _, hpairs, ⟨⟨hcontent, rfl⟩, ⟨hcontent, rfl⟩, hledger.withoutPending,
      hbounded, fun hne ↦ absurd rfl hne, fun hne ↦ absurd rfl hne⟩, UInt64.le_refl _,
      Nat.le_succ _, nofun⟩
  | true =>
    have hspec := reconcile_spec hlength hledger hbounded hcontent
    dsimp only at hspec ⊢
    generalize reconcile ledger (fingerprint hash content) true = reconciled at hspec ⊢
    obtain ⟨after, revision⟩ := reconciled
    obtain ⟨hversion, hcommitted, hfound, hpending, hnamed⟩ := hspec
    have hmemory : ∀ {given'}, SoundPairs given' → (revision, content) ∈ given' →
        (∀ p ∈ given', p.1 ≤ after.lastAllocatedRevision) →
        SoundMemory hash known given' (loadedState hash content (after, revision)) := by
      intro given' hpairs' hmem hbounded'
      have hnames : Names hash known given' revision (fingerprint hash content) :=
        ⟨hpairs'.positive _ hmem, content, hcontent, rfl, hmem⟩
      dsimp only at hcommitted hfound
      rw [← hcommitted, ← hfound] at hnames
      exact ⟨⟨hcontent, rfl⟩, ⟨hcontent, rfl⟩,
        ⟨hversion, Or.inr hnames, Or.inl hpending⟩, hbounded',
        fun _ ↦ hmem, fun _ ↦ hmem⟩
    obtain ⟨⟨hne, same, hsame, hsamefound, hmem⟩, hlast⟩ | ⟨-, -, rfl, hlast⟩ := hnamed
    · obtain rfl := hinjective _ hsame _ hcontent hsamefound
      refine ⟨given, .refl _ _, hpairs, hmemory hpairs hmem ?_, ?_, ?_, fun _ ↦ hne⟩
      · rw [hlast]
        exact hbounded
      · rw [hlast]
        exact UInt64.le_refl _
      · rw [hlast]
        exact Nat.le_succ _
    · have hfar : ledger.lastAllocatedRevision.toNat < 2 ^ 64 - 1 := by omega
      have hlt := lt_nextRevision hfar
      obtain ⟨hpairs', hextends⟩ := hpairs.insert content hbounded hlt
      refine ⟨_, hextends, hpairs', hmemory hpairs' (Or.inl rfl) ?_, ?_, ?_,
        fun _ ↦ ledger.nextRevision_ne_zero⟩
      · rw [hlast]
        rintro p (rfl | hp)
        · exact UInt64.le_refl _
        · exact UInt64.le_trans (hbounded p hp) (UInt64.le_of_lt hlt)
      · rw [hlast]
        exact UInt64.le_of_lt hlt
      · rw [hlast]
        exact (RevisionLedger.toNat_nextRevision hfar).le

include hlength in
/-- The ledger a session starts with. -/
theorem SoundFiles.readable (h : SoundFiles hash known given desk)
    (hroom : ∀ ledger ∈ desk.sidecar, ledger.lastAllocatedRevision.toNat + 3 < 2 ^ 64) :
    ∃ ledger, (readLedger desk.sidecar).getD {} = ledger ∧
      (∀ other ∈ desk.sidecar, other = ledger) ∧
      SoundLedger hash known (upTo given ledger.lastAllocatedRevision) ledger ∧
      ledger.lastAllocatedRevision.toNat + 3 < 2 ^ 64 ∧
      SoundFiles hash known (upTo given ledger.lastAllocatedRevision) desk := by
  have hpairs : ∀ last, SoundPairs (upTo given last) := fun last ↦
    ⟨fun p hp q hq ↦ h.distinct p hp.1 q hq.1, fun p hp ↦ h.positive p hp.1⟩
  cases hsidecar : desk.sidecar with
  | none =>
    refine ⟨{}, rfl, fun other hother ↦ (nomatch hother), SoundLedger.default_sound, by decide,
      hpairs _, fun p hp ↦ ?_, fun ledger hledger ↦ ?_⟩
    · obtain ⟨-, ledger, hledger, -⟩ := h.reserved p hp
      rw [hsidecar] at hledger
      nomatch hledger
    · rw [hsidecar] at hledger
      nomatch hledger
  | some ledger =>
    have hledger := h.sidecar ledger hsidecar
    have hread : readLedger (some ledger) = some ledger := hledger.readLedger_some hlength
    have hsame : ∀ other ∈ desk.sidecar, other = ledger := fun other hother ↦
      (Option.some.inj (hsidecar.symm.trans hother)).symm
    refine ⟨ledger, by rw [hread]; rfl, fun other hother ↦ (Option.some.inj hother).symm, hledger,
      hroom ledger hsidecar, hpairs _, fun p hp ↦ ?_, fun other hother ↦ ?_⟩
    · obtain ⟨hgiven, other, hother, hle⟩ := h.reserved p hp
      exact ⟨⟨hgiven, hsame other hother ▸ hle⟩, other, hother, hle⟩
    · obtain rfl := hsame other hother
      have hmore : upTo given other.lastAllocatedRevision ⊆
          upTo (upTo given other.lastAllocatedRevision) other.lastAllocatedRevision :=
        fun p hp ↦ ⟨hp, hp.2⟩
      exact hledger.mono hmore

end Starting

/-! ## Sessions -/

/-- A session, and what its directory holds of earlier ones. -/
structure SoundSession (hash : JsonValue → String) (known : Set JsonValue)
    (given : Set (UInt64 × JsonValue)) (desk : RevisionDesk) : Prop where
  files : SoundFiles hash known given desk
  draftGiven : desk.app.configState.draftRevision ≠ 0 →
    (desk.app.configState.draftRevision, desk.app.configState.draft) ∈ given
  savedGiven : desk.app.configState.savedRevision ≠ 0 →
    (desk.app.configState.savedRevision, desk.app.configState.saved) ∈ given
  /-- A session that is read-only gives no more revisions. -/
  editable : desk.app.loadError = none →
    SoundDesk hash known given desk ∧ desk.app.draft = desk.app.configState.draft

theorem SoundDesk.session (h : SoundDesk hash known given desk)
    (hdraft : desk.app.loadError = none → desk.app.draft = desk.app.configState.draft) :
    SoundSession hash known given desk :=
  ⟨h.toSoundFiles, h.memory.draftGiven, h.memory.savedGiven, fun hopen ↦ ⟨h, hdraft hopen⟩⟩

theorem SoundDesk.withLoadError (h : SoundDesk hash known given desk) (error : Option String) :
    SoundDesk hash known given { desk with app := { desk.app with loadError := error } } :=
  ⟨⟨h.toSoundPairs, h.reserved, h.sidecar⟩, h.memory, h.ahead⟩

section Sessions

variable {host : ProviderHost}
variable (hlength : ∀ c ∈ known, (fingerprint host.hash c).utf8ByteSize = 64)
variable (hinjective : ∀ a ∈ known, ∀ b ∈ known,
  fingerprint host.hash a = fingerprint host.hash b → a = b)

include hinjective in
/-- The draft of a session that starts is observed. -/
theorem SoundDesk.start (h : SoundDesk host.hash known given desk) {draft : JsonValue}
    (hdraft : draft ∈ known)
    (hroom : desk.app.configState.ledger.lastAllocatedRevision.toNat < 2 ^ 64 - 1) (writes : Bool)
    (text : String → String) : ∃ given', SoundSession host.hash known given'
      (match desk.observe host draft writes with
      | (.ok (), desk) => desk
      | (.error error, desk) =>
        { desk with app := { desk.app with loadError := some (text error) } }) := by
  obtain ⟨given', hobserved⟩ : ∃ given', ObserveEnds host known given given' draft writes desk
      (desk.observe host draft writes).1 (desk.observe host draft writes).2 :=
    h.observe hinjective hdraft hroom
  generalize desk.observe host draft writes = observed at hobserved
  obtain ⟨result, after⟩ := observed
  obtain ⟨rfl, happ, hstate⟩ | ⟨⟨error, rfl⟩, -⟩ := hobserved.ends
  · exact ⟨given', hobserved.sound.session fun _ ↦ happ.trans hstate.symm⟩
  · exact ⟨given', (hobserved.sound.withLoadError _).session fun hopen ↦ (nomatch hopen)⟩

include hlength hinjective in
theorem SoundFiles.opened (h : SoundFiles host.hash known given desk) {opening : Opening}
    (hsaved : opening.saved ∈ known) (hdraft : opening.draft ∈ known)
    (hroom : ∀ ledger ∈ desk.sidecar, ledger.lastAllocatedRevision.toNat + 3 < 2 ^ 64) :
    ∃ given', SoundSession host.hash known given'
      (RevisionDesk.opened host opening desk.sidecar desk.reserved) := by
  obtain ⟨ledger, hread, hsame, hledger, hroom, hfiles⟩ := h.readable hlength hroom
  obtain ⟨given', hextends, hpairs, hmemory, hle, hnext, hrevision⟩ :=
    soundMemory_loaded hlength hinjective hfiles.toSoundPairs hledger (fun p hp ↦ hp.2) hsaved hroom
      opening.configExists
  rw [RevisionDesk.opened, load_eq, hread]
  dsimp only
  by_cases hlost : opening.configExists = true ∧ opening.writes = false
  · rw [if_pos hlost]
    exact ⟨_, ⟨hfiles.toSoundPairs, hfiles.reserved, hfiles.sidecar⟩, fun hne ↦ absurd rfl hne,
      fun hne ↦ absurd rfl hne, fun hopen ↦ (nomatch hopen)⟩
  · rw [if_neg hlost]
    dsimp only
    -- the session over the sidecar that it has found
    have hfound : SoundDesk host.hash known given' {
        app := {
          draft := opening.draft
          loadError := opening.broken
          configState := loadedState host.hash opening.saved (reconcile ledger
            (fingerprint host.hash opening.saved) opening.configExists) }
        sidecar := desk.sidecar
        reserved := desk.reserved } := by
      refine ⟨⟨hpairs, fun p hp ↦ ?_, fun other hother ↦ ?_⟩, hmemory, fun other hother ↦ ?_⟩
      · obtain ⟨hgiven, hbelow⟩ := hfiles.reserved p hp
        exact ⟨hextends.subset hgiven, hbelow⟩
      · have hmore : upTo (upTo given ledger.lastAllocatedRevision) other.lastAllocatedRevision ⊆
            upTo given' other.lastAllocatedRevision := fun p hp ↦ ⟨hextends.subset hp.1, hp.2⟩
        exact (hfiles.sidecar other hother).mono hmore
      · rw [hsame other hother]
        exact hle
    have hloaded := hfound.wrote (if opening.configExists = true then some (reconcile ledger
        (fingerprint host.hash opening.saved) opening.configExists).1 else desk.sidecar)
      subset_rfl hpairs hmemory (UInt64.le_refl _) (by
        by_cases hexists : opening.configExists = true
        · rw [if_pos hexists]
          exact Or.inr ⟨rfl, hrevision hexists⟩
        · rw [if_neg hexists]
          exact Or.inl rfl)
    split
    next error hbroken =>
      exact ⟨given', hloaded.session fun hopen ↦ by
        rw [show opening.broken = none from hopen] at hbroken
        nomatch hbroken⟩
    next hwhole =>
      exact hloaded.start hinjective hdraft (hnext.trans_lt (by omega)) _ _

end Sessions

end TokenStation
