import TokenStation.AgentIntegration.Atomicity

/-!
# The managed revision on record

The record of a connection holds the hash of every managed file as the last transaction left it.
For a file that is new there are two hashes, one of which leaves the owner out because the plan
could not know it. A connection records the hash that it read back. A restore records that of the
plan for its target, so that the record of a file that a restore made is of no file there is.
-/

namespace TokenStation

open Library TransactionEngine FileOwnershipStore

variable {Document W V : Type}

/-- The record of a plan holds the hashes of the files that are there. -/
def RecordsRevisions (engine : TransactionEngine Document W) (plan : PreparedChangePlan)
    (now : Disk V) : Prop :=
  ∃ stored, activeRecord now.ownership plan.ownershipKey = some stored ∧
    stored.managedAfterHash = engine.revisionHash stored.targetConfigPath
      (now.files stored.targetConfigPath) ∧
    ∀ companion ∈ stored.companionFiles, companion.managedAfterHash =
      engine.revisionHash companion.targetConfigPath (now.files companion.targetConfigPath)

/-- The plan is not a restore that makes a file, or the hash of that file does not depend on its
owner. -/
def OwnerKnown (engine : TransactionEngine Document W) (placed : Placing)
    (plan : PreparedChangePlan) (before : Disk V) : Prop :=
  plan.view.intent = .restore → plan.view.targetExisted = false →
    let written := finalFiles engine placed plan before.files plan.view.targetConfigPath
    engine.revisionHash plan.view.targetConfigPath { written with originalOwner := none } =
      engine.revisionHash plan.view.targetConfigPath written

section

variable {engine : TransactionEngine Document W} {disk : W → Disk V} {placed : Placing}
  {plan : PreparedChangePlan} {files : String → ConfigSource}

/-- The companions as they were read back. -/
theorem managed_of_recorded {pairs : List (PreparedFileProjection × SnapshotCreateResult)}
    {owned : List CompanionOwnership}
    (h : List.Forall₂ (fun pair ↦ CompanionRecorded engine files pair.1 pair.2) pairs owned) :
    ∀ companion ∈ owned, companion.managedAfterHash =
      engine.revisionHash companion.targetConfigPath (files companion.targetConfigPath) := by
  induction h with
  | nil => exact fun _ hmem ↦ nomatch hmem
  | cons hrecorded _ ih =>
    refine List.forall_mem_cons.mpr ⟨?_, ih⟩
    rw [hrecorded.managed, hrecorded.target]

/-- A restore takes over what was read back. -/
theorem managed_of_restored {projected companions restored : List CompanionOwnership}
    (hprojected : ∀ companion ∈ projected, companion.managedAfterHash =
      engine.revisionHash companion.targetConfigPath (files companion.targetConfigPath))
    (hrestored : restoredCompanions projected companions = .ok restored) :
    ∀ companion ∈ restored, companion.managedAfterHash =
      engine.revisionHash companion.targetConfigPath (files companion.targetConfigPath) := by
  induction companions generalizing restored with
  | nil =>
    obtain rfl := Except.ok.inj hrestored
    exact fun _ hmem ↦ nomatch hmem
  | cons companion companions ih =>
    obtain ⟨first, hfirst, hrest⟩ := except_bind_eq_ok.mp hrestored
    obtain ⟨others, hothers, heq⟩ := except_bind_eq_ok.mp hrest
    obtain rfl := Except.ok.inj heq
    refine List.forall_mem_cons.mpr ⟨?_, ih hothers⟩
    rw [restoredCompanion] at hfirst
    split at hfirst
    · nomatch hfirst
    next found hfound =>
      obtain rfl := Except.ok.inj hfirst
      have htarget : found.targetConfigPath = companion.targetConfigPath := by
        simpa using List.find?_some hfound
      rw [← htarget]
      exact hprojected found (List.mem_of_find?_eq_some hfound)

variable {ofTarget : String → SnapshotRecord → Prop} {keep : List SnapshotRecord → V → Prop}
  {snapshots : TransactionSnapshots} {owned : List CompanionOwnership} {before now : Disk V}
  (h : Applied engine placed plan ofTarget keep before.files before.ownership snapshots owned now)

include h in
/-- A connection records what it read back. -/
theorem recordsRevisions_of_connect (hintent : plan.view.intent = .connect) :
    RecordsRevisions engine plan now := by
  obtain ⟨macs, nowMs, hrecorded⟩ := h.recorded
  rw [Recorded, hintent] at hrecorded
  obtain ⟨stored, hstored⟩ := hrecorded
  have hcommitted := commit_eq_ok hstored
  refine ⟨stored, (hcommitted.activeRecord _).trans (if_pos rfl), ?_⟩
  rw [hcommitted.stored_eq]
  exact ⟨rfl, managed_of_recorded h.companions⟩

include h in
/-- A restore records the hash of the plan for its target, and what it read back for the rest. -/
theorem recordsRevisions_of_restore (hintent : plan.view.intent = .restore) :
    RecordsRevisions engine plan now ↔ plan.view.expectedAfterHash =
      engine.revisionHash plan.view.targetConfigPath (now.files plan.view.targetConfigPath) := by
  obtain ⟨macs, nowMs, hrecorded⟩ := h.recorded
  rw [Recorded, hintent] at hrecorded
  obtain ⟨binding, restored, stored, hbinding, hrestored, hstored⟩ := hrecorded
  obtain ⟨-, -, -, hkey⟩ := h.checked.key_eq (by rw [hintent]; decide) hbinding
  have hcommitted := commit_eq_ok hstored
  have hactive : activeRecord now.ownership plan.ownershipKey = some stored :=
    (hcommitted.activeRecord _).trans (if_pos hkey.symm)
  have hmanaged : stored.managedAfterHash = plan.view.expectedAfterHash := by
    rw [hcommitted.stored_eq]
    rfl
  have htarget : stored.targetConfigPath = plan.view.targetConfigPath := by
    rw [hcommitted.stored_eq]
    exact congrArg OwnershipKey.targetConfigPath hkey
  have hcompanions : stored.companionFiles = restored := by
    rw [hcommitted.stored_eq]
    rfl
  constructor
  · rintro ⟨found, hfound, hreal, -⟩
    obtain rfl := Option.some.inj (hactive.symm.trans hfound)
    rwa [hmanaged, htarget] at hreal
  · intro hreal
    refine ⟨stored, hactive, by rw [hmanaged, htarget, hreal], ?_⟩
    rw [hcompanions]
    exact managed_of_restored (managed_of_recorded h.companions) hrestored

include h in
theorem recordsRevisions_of_applied (hintent : plan.view.intent ≠ .disconnect) :
    RecordsRevisions engine plan now ↔ OwnerKnown engine placed plan before := by
  rcases hcase : plan.view.intent with _ | _ | _
  · refine iff_of_true (recordsRevisions_of_connect h hcase) fun hrestore ↦ ?_
    rw [hcase] at hrestore
    nomatch hrestore
  · exact absurd hcase hintent
  · rw [recordsRevisions_of_restore h hcase]
    -- what was expected was read back, but without the owner of a new file
    have hexpected := h.expected plan.primary List.mem_cons_self
    rw [← show plan.primary.expectedAfterHash = plan.view.expectedAfterHash from rfl, ← hexpected,
      OwnerKnown, h.files_eq]
    rcases hexisted : plan.view.targetExisted with _ | _
    · have hnew : plan.primary.targetExisted = false := hexisted
      rw [hnew]
      exact ⟨fun heq _ _ ↦ heq, fun hall ↦ hall hcase rfl⟩
    · have hold : plan.primary.targetExisted = true := hexisted
      rw [hold]
      exact iff_of_true rfl fun _ h ↦ (nomatch h)

end

/-- The record of a connection or a restore that succeeded holds the hashes of the files, unless
the restore made its target and the owner of a file matters. -/
theorem recordsRevisions_iff {engine : TransactionEngine Document W} {disk : W → Disk V}
    {placed : Placing} (contract : Contract engine disk placed) {plan : PreparedChangePlan}
    {confirmation : ConfirmedOperation} {admission : RuntimeAdmission} {nowMs : ℕ}
    {state after : EngineState W} {outcome : TransactionOutcome}
    (hintent : plan.view.intent ≠ .disconnect)
    (hrun : engine.applyPrepared plan confirmation admission nowMs state = (.ok outcome, after)) :
    RecordsRevisions engine plan (disk after.world) ↔
      OwnerKnown engine placed plan (disk state.world) := by
  have hexits : Exits (Ready disk (fun _ _ ↦ True) (disk state.world).files
      (disk state.world).ownership) (engine.applyPrepared plan confirmation admission nowMs) _ _ :=
    applyPrepared_exits contract (keeping_true plan) (releasing_true plan)
  obtain ⟨snapshots, owned, happlied⟩ := hexits.of_ok ⟨rfl, rfl, trivial⟩ hrun
  exact recordsRevisions_of_applied happlied hintent

theorem recordsRevisions_iff_creating : ∃ outcome after,
    applyOn creating ⟨.fresh, []⟩ = (.ok outcome, after) ∧
      (RecordsRevisions plainSetup.engine creating after.world.disk ↔
        OwnerKnown plainSetup.engine plainSetup.placed creating Desktop.fresh.disk) := by
  have hreturned : returned (fun _ _ ↦ true) (applyOn creating ⟨.fresh, []⟩) = true := by
    decide +kernel
  have hiff : ∀ state outcome after, applyOn creating state = (.ok outcome, after) →
      (RecordsRevisions plainSetup.engine creating after.world.disk ↔
        OwnerKnown plainSetup.engine plainSetup.placed creating state.world.disk) :=
    fun _ _ _ hrun ↦ recordsRevisions_iff plainSetup.contract (by decide) hrun
  obtain ⟨outcome, after, hrun, -⟩ := exists_of_returned hreturned
  exact ⟨outcome, after, hrun, hiff ⟨.fresh, []⟩ outcome after hrun⟩

/-! ## A restore that makes its target -/

/-- The plan that brings the file back after a restore removed it. -/
def remaking : PreparedChangePlan :=
  codexPlan "op3" .restore .missing (codexSource withModel none) withModel
    (bindingIn afterRemoving .update)

/-- Whether the record holds the hash of the target. -/
def recordsTarget (now : Desktop) : Bool :=
  (activeRecord now.ownership creating.ownershipKey).any fun stored ↦
    stored.managedAfterHash == plainSetup.engine.revisionHash stored.targetConfigPath
      (now.files stored.targetConfigPath)

theorem recordsTarget_of_recordsRevisions {now : Desktop}
    (h : RecordsRevisions plainSetup.engine remaking now.disk) : recordsTarget now = true := by
  obtain ⟨stored, hactive, hmanaged, -⟩ := h
  have hfound : activeRecord now.ownership creating.ownershipKey = some stored := hactive
  rw [recordsTarget, hfound]
  exact beq_iff_eq.mpr hmanaged

/-- The file that a restore made belongs to someone, and the record says otherwise. -/
theorem not_recordsRevisions_remaking : ∃ outcome after,
    applyOn remaking afterRemoving = (.ok outcome, after) ∧
      ¬ RecordsRevisions plainSetup.engine remaking after.world.disk := by
  have hreturned : returned (fun _ after ↦ !recordsTarget after.world)
      (applyOn remaking afterRemoving) = true := by decide +kernel
  obtain ⟨outcome, after, hrun, htest⟩ := exists_of_returned hreturned
  refine ⟨outcome, after, hrun, fun hrecords ↦ ?_⟩
  rw [recordsTarget_of_recordsRevisions hrecords] at htest
  nomatch htest

end TokenStation
