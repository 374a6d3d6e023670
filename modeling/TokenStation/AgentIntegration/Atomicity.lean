import TokenStation.AgentIntegration.LocalEngine
import TokenStation.AgentIntegration.TransactionRun

/-!
# Transactions are atomic

A transaction that succeeds has switched every file and the record. One that fails and says that
nothing needs repair has left every file as it was, or put it back, and has not touched the record.

Two things are weaker than one might say. A file that is made by the transaction belongs to a user
that the plan did not know, so that its own hash is not the one that was expected, which leaves the
owner out. And a plan that finds other files than it was made from changes nothing, so that they
do not have the hashes of the plan.
-/

namespace TokenStation

open Library TransactionEngine FileOwnershipStore

variable {Document W V : Type}

/-- The index after a plan was applied: the record of its key is what the intent says, and there is
no other change. -/
structure Reflects (plan : PreparedChangePlan) (before after : OwnershipIndex) : Prop where
  others : ∀ key, key ≠ plan.ownershipKey → activeRecord after key = activeRecord before key
  own : match plan.view.intent with
    | .connect => activeRecord before plan.ownershipKey = none ∧
        ∃ stored, activeRecord after plan.ownershipKey = some stored ∧ stored.revision = 1 ∧
          stored.ownedPaths = plan.view.ownedPaths
    | .disconnect => activeRecord after plan.ownershipKey = none
    | .restore => ∃ old stored, activeRecord before plan.ownershipKey = some old ∧
        activeRecord after plan.ownershipKey = some stored ∧
        stored.revision = satAdd u64Max old.revision 1 ∧
        stored.ownedPaths = plan.view.ownedPaths

/-- Every file of a plan was switched, and no other one; the owner of a new file does not count. -/
structure Switched (engine : TransactionEngine Document W) (plan : PreparedChangePlan)
    (before after : Disk V) : Prop where
  expected : ∀ projection ∈ plan.files, engine.revisionHash projection.targetPath
    (normalized projection.targetExisted (after.files projection.targetPath)) =
      projection.expectedAfterHash
  others : ∀ target, target ∉ plan.files.map PreparedFileProjection.targetPath →
    after.files target = before.files target
  ownership : Reflects plan before.ownership after.ownership

/-- No file was switched, or a repair is asked for. -/
structure Kept (engine : TransactionEngine Document W) (plan : PreparedChangePlan)
    (error : TransactionFailure) (before after : Disk V) : Prop where
  ownership : after.ownership = before.ownership
  notRequired : error.recovery = .notRequired → after.files = before.files
  restored : error.recovery = .restored → ∀ projection ∈ plan.files,
    engine.revisionHash projection.targetPath (after.files projection.targetPath) =
      projection.beforeHash
  mixed : (∃ target, ¬ SameRevision engine after.files before.files target) →
    error.recovery = .repairRequired

/-- How an atomic transaction may end. -/
structure Atomic (engine : TransactionEngine Document W) (disk : W → Disk V)
    (plan : PreparedChangePlan) (before : Disk V)
    (run : Except TransactionFailure TransactionOutcome × EngineState W) : Prop where
  switched : ∀ outcome after, run = (.ok outcome, after) →
    Switched engine plan before (disk after.world)
  kept : ∀ error after, run = (.error error, after) →
    Kept engine plan error before (disk after.world)

section

variable {engine : TransactionEngine Document W} {disk : W → Disk V} {placed : Placing}
  {plan : PreparedChangePlan} {start : String → ConfigSource} {ownership : OwnershipIndex}

/-- The record that a plan was made from has the key of the plan. -/
theorem Checked.key_eq (hchecked : Checked engine plan start ownership)
    {binding : PlanOwnershipBinding} (hintent : plan.view.intent ≠ .connect)
    (hbinding : plan.ownership = some binding) :
    ∃ old, activeRecord ownership plan.ownershipKey = some old ∧
      old.revision = binding.record.revision ∧ binding.record.key = plan.ownershipKey := by
  obtain ⟨found, binding', hactive, hbinding', hrevision, hkey⟩ := hchecked.bound.managed hintent
  obtain rfl := Option.some.inj (hbinding.symm.trans hbinding')
  exact ⟨found, hactive, hrevision,
    hkey.symm.trans ((activeRecord_eq_some hchecked.valid).mp hactive).2⟩

theorem reflects_of_recorded {snapshots : TransactionSnapshots} {actualHash : String}
    {macs : ValueMacs} {owned : List CompanionOwnership} {nowMs : ℕ} {after : OwnershipIndex}
    (hchecked : Checked engine plan start ownership)
    (h : Recorded plan snapshots actualHash macs owned nowMs ownership after) :
    Reflects plan ownership after := by
  rw [Recorded] at h
  rcases hintent : plan.view.intent with _ | _ | _
  · rw [hintent] at h
    obtain ⟨stored, hstored⟩ := h
    have hcommitted := commit_eq_ok hstored
    have hactive := hcommitted.activeRecord
    refine ⟨fun key hkey ↦ (hactive key).trans (if_neg hkey), ?_⟩
    rw [hintent]
    obtain ⟨hnone, -, hrevision⟩ | ⟨_, _, hsome, _⟩ := hcommitted.replaces
    · refine ⟨hnone, stored, (hactive _).trans (if_pos rfl), hrevision, ?_⟩
      rw [hcommitted.stored_eq]
      rfl
    · cases hsome
  · rw [hintent] at h
    obtain ⟨binding, hbinding, hremoved⟩ := h
    have hne : plan.view.intent ≠ .connect := by rw [hintent]; decide
    obtain ⟨-, -, -, hkey⟩ := hchecked.key_eq hne hbinding
    have hactive := (remove_eq_ok hremoved).activeRecord
    rw [hkey] at hactive
    refine ⟨fun key hkey ↦ (hactive key).trans (if_neg hkey), ?_⟩
    rw [hintent]
    exact (hactive _).trans (if_pos rfl)
  · rw [hintent] at h
    obtain ⟨binding, restored, stored, hbinding, -, hstored⟩ := h
    have hne : plan.view.intent ≠ .connect := by rw [hintent]; decide
    obtain ⟨old, hold, hrevision, hkey⟩ := hchecked.key_eq hne hbinding
    have hcommitted := commit_eq_ok hstored
    have hactive := hcommitted.activeRecord
    have hrecordKey :
        (restoredRecord plan binding.record snapshots.primary macs restored nowMs).key =
          plan.ownershipKey := hkey
    rw [hrecordKey] at hactive
    refine ⟨fun key hkey ↦ (hactive key).trans (if_neg hkey), ?_⟩
    rw [hintent]
    refine ⟨old, stored, hold, (hactive _).trans (if_pos rfl), ?_, ?_⟩
    · obtain ⟨-, hexpected, -⟩ | ⟨_, _, hexpected, hnext⟩ := hcommitted.replaces
      · cases hexpected
      · rw [hnext, hrevision, Option.some.inj hexpected]
    · rw [hcommitted.stored_eq]
      rfl

theorem kept_of_undone {base : List SnapshotRecord → V → Prop} {error : TransactionFailure}
    {before after : Disk V}
    (h : Undone engine before.files before.ownership plan base error after) :
    Kept engine plan error before after where
  ownership := h.ownership
  notRequired := h.notRequired
  restored hrestored projection hmem := by
    obtain ⟨hsame, hbefore⟩ := h.restored hrestored
    exact (hsame projection.targetPath).trans (hbefore projection hmem)
  mixed := by
    rintro ⟨target, hchanged⟩
    rcases hrecovery : error.recovery with _ | _ | _
    · rw [SameRevision, h.notRequired hrecovery] at hchanged
      exact absurd rfl hchanged
    · exact absurd ((h.restored hrecovery).1 target) hchanged
    · rfl

theorem switched_of_applied {ofTarget : String → SnapshotRecord → Prop}
    {keep : List SnapshotRecord → V → Prop} {snapshots : TransactionSnapshots}
    {owned : List CompanionOwnership} {before after : Disk V}
    (h : Applied engine placed plan ofTarget keep before.files before.ownership snapshots owned
      after) : Switched engine plan before after where
  expected := h.expected
  others target htarget := by
    rw [h.files_eq]
    exact writtenFiles_of_notMem engine placed htarget
  ownership := by
    obtain ⟨macs, nowMs, hrecorded⟩ := h.recorded
    exact reflects_of_recorded h.checked hrecorded

end

/-- Nothing is asked of the snapshots. -/
theorem keeping_true {engine : TransactionEngine Document W} {disk : W → Disk V}
    (plan : PreparedChangePlan) :
    Keeping engine disk plan (fun _ _ ↦ True) (fun _ _ ↦ True) fun _ _ ↦ True where
  base_of_strong _ := trivial
  create request made world _ _ _ _ := by
    split
    · exact ⟨trivial, trivial⟩
    · trivial
  unpin _ _ := trivial

theorem releasing_true {engine : TransactionEngine Document W} {disk : W → Disk V}
    (plan : PreparedChangePlan) :
    Releasing engine disk plan (fun _ _ ↦ True) fun _ _ ↦ True where
  released_of_strong _ := trivial
  unpin _ _ _ _ := trivial

/-- Whatever fails, a transaction is atomic. -/
theorem applyPrepared_atomic {engine : TransactionEngine Document W} {disk : W → Disk V}
    {placed : Placing} (contract : Contract engine disk placed) (plan : PreparedChangePlan)
    (confirmation : ConfirmedOperation) (admission : RuntimeAdmission) (nowMs : ℕ)
    (state : EngineState W) :
    Atomic engine disk plan (disk state.world)
      (engine.applyPrepared plan confirmation admission nowMs state) := by
  have hexits : Exits (Ready disk (fun _ _ ↦ True) (disk state.world).files
      (disk state.world).ownership) (engine.applyPrepared plan confirmation admission nowMs) _ _ :=
    applyPrepared_exits contract (keeping_true plan) (releasing_true plan)
  refine ⟨fun outcome after heq ↦ ?_, fun error after heq ↦ ?_⟩
  · obtain ⟨snapshots, owned, happlied⟩ := hexits.of_ok ⟨rfl, rfl, trivial⟩ heq
    exact switched_of_applied happlied
  · exact kept_of_undone (hexits.of_error ⟨rfl, rfl, trivial⟩ heq)

theorem applyPrepared_atomic_creating : Atomic plainSetup.engine Desktop.disk creating
    Desktop.fresh.disk (applyOn creating ⟨.fresh, []⟩) :=
  applyPrepared_atomic plainSetup.contract creating _ _ _ ⟨.fresh, []⟩

/-! ## A new file, and a plan that is out of date -/

/-- A desktop on which the file is there before. -/
def Desktop.used : Desktop :=
  { Desktop.fresh with files := fun _ ↦ codexSource withoutModel (some "501:20") }

/-- Not every file has the hash of the plan, the one after it or the one before. -/
theorem not_hashes_of_plan :
    (∃ outcome after, applyOn creating ⟨.fresh, []⟩ = (.ok outcome, after) ∧
      codexHash (after.world.files codexConfig) ≠ creating.view.expectedAfterHash) ∧
    ∃ error after, applyOn creating ⟨.used, []⟩ = (.error error, after) ∧
      error.recovery = .notRequired ∧
      codexHash (after.world.files codexConfig) ≠ creating.view.beforeHash := by
  constructor
  · have hreturned : returned (fun _ after ↦ decide
        (codexHash (after.world.files codexConfig) ≠ creating.view.expectedAfterHash))
        (applyOn creating ⟨.fresh, []⟩) = true := by decide +kernel
    obtain ⟨outcome, after, hrun, htest⟩ := exists_of_returned hreturned
    exact ⟨outcome, after, hrun, of_decide_eq_true htest⟩
  · have hstopped : stopped (fun error after ↦ decide (error.recovery = .notRequired ∧
        codexHash (after.world.files codexConfig) ≠ creating.view.beforeHash))
        (applyOn creating ⟨.used, []⟩) = true := by decide +kernel
    obtain ⟨error, after, hrun, htest⟩ := exists_of_stopped hstopped
    exact ⟨error, after, hrun, of_decide_eq_true htest⟩

end TokenStation
