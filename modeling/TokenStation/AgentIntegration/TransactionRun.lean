import TokenStation.AgentIntegration.TransactionChecks

/-!
# A transaction from its first write to its record

While the files are written the disk is known exactly, and it stays so while they are read back.
The commit of the record is the last thing that can fail, and every failure up to then goes through
recovery.
-/

namespace TokenStation

open Library TransactionEngine FileOwnershipStore

variable {Document W V : Type} {engine : TransactionEngine Document W} {disk : W → Disk V}
  {placed : Placing} (contract : Contract engine disk placed) {plan : PreparedChangePlan}
  {ofTarget : String → SnapshotRecord → Prop} {strong base : List SnapshotRecord → V → Prop}
  (keeping : Keeping engine disk plan ofTarget strong base)
  {start : String → ConfigSource} {ownership : OwnershipIndex} {snapshots : TransactionSnapshots}
  (hchecked : Checked engine plan start ownership) (htaken : Taken plan ofTarget snapshots)

/-! ## Writing -/

variable (strong ownership snapshots) in
/-- The disk in the midst of the writes: its files are known. -/
structure Exactly (files : String → ConfigSource) (now : Disk V) : Prop where
  files_eq : now.files = files
  ownership : now.ownership = ownership
  snapshots : strong snapshots.records now.snapshots

include keeping in
/-- Some of the files were written. -/
theorem Exactly.partly {projections : List PreparedFileProjection} {now : Disk V}
    (h : Exactly strong ownership snapshots (writtenFiles engine placed start projections) now) :
    Partly engine start ownership (projections.map (·.targetPath)) [] (base snapshots.records)
      now where
  ownership := h.ownership
  untouched target htarget := by rw [h.files_eq, writtenFiles_of_notMem engine placed htarget]
  restored _ hmem := nomatch hmem
  snapshots := keeping.base_of_strong h.snapshots

include contract keeping hchecked htaken in
/-- A failure after the target and some companions were written. -/
theorem recoverFiles_throw {written : ℕ} {error : TransactionFailure} {α : Type}
    {Q : α → EngineState W → Prop} :
    Exits (OnDisk disk (Exactly strong ownership snapshots
        (writtenFiles engine placed start (plan.primary :: plan.companions.take written))))
      (do throw (← engine.recoverFiles plan snapshots written error) : Transaction W α)
      Q (UndoneAt engine disk plan base start ownership) := by
  refine Exits.bind (R := fun error ↦ UndoneAt engine disk plan base start ownership error)
    (Exits.lift ?_) fun _ ↦ Exits.throw fun _ h ↦ h
  exact Triple.weaken
    (recoverFiles_undone contract keeping hchecked.before htaken.companions.length_eq.symm)
    (fun state hstate ↦ Exactly.partly keeping hstate) fun _ _ h ↦ h

include contract in
theorem writeProjection_effect (projection : PreparedFileProjection) (owner : Option String) :
    WriteEffect disk projection.targetPath (projectedSource engine placed projection owner)
      (engine.writeProjection projection.targetPath projection.beforeHash
        projection.expectedAfterHash projection.projectedBytes owner) := by
  intro world
  rw [projectedSource, writeProjection]
  split
  · exact contract.remove _ _ _ world
  · exact contract.replace _ _ _ _ _ _ world

include contract in
/-- One more file is written, or none. -/
theorem writeProjection_exactly {projections : List PreparedFileProjection}
    (projection : PreparedFileProjection) {owner : Option String}
    (howner : owner = (start projection.targetPath).originalOwner)
    {error : TransactionFailure → EngineState W → Prop} :
    Exits (OnDisk disk (Exactly strong ownership snapshots
        (writtenFiles engine placed start projections)))
      (ask (engine.writeProjection projection.targetPath projection.beforeHash
        projection.expectedAfterHash projection.projectedBytes owner))
      (fun result ↦ OnDisk disk (Exactly strong ownership snapshots
        (writtenFiles engine placed start (match result with
          | .ok () => projections ++ [projection]
          | .error writeFailure =>
            if writeFailure.targetReplaced then projections ++ [projection] else projections))))
      error := by
  refine exits_ask fun world hworld ↦ ?_
  have hwritten : Exactly strong ownership snapshots
      (writtenFiles engine placed start (projections ++ [projection]))
      { disk world with
        files := Function.update (disk world).files projection.targetPath
          (projectedSource engine placed projection owner) } := by
    refine ⟨?_, hworld.ownership, hworld.snapshots⟩
    rw [writtenFiles_append_singleton, writtenFile, howner, hworld.files_eq]
  have heffect := writeProjection_effect contract projection owner world
  generalize engine.writeProjection projection.targetPath projection.beforeHash
    projection.expectedAfterHash projection.projectedBytes owner world = outcome at heffect ⊢
  obtain ⟨writeFailure | ⟨⟩, world'⟩ := outcome
  · dsimp only at heffect ⊢
    rw [heffect]
    split
    · exact hwritten
    · exact hworld
  · dsimp only at heffect ⊢
    rw [heffect]
    exact hwritten

include contract keeping hchecked htaken in
theorem writePrimary_exactly :
    Exits (OnDisk disk (Early engine strong start ownership snapshots.records))
      (engine.writePrimary plan snapshots (start plan.view.targetConfigPath))
      (fun _ ↦ OnDisk disk (Exactly strong ownership snapshots
        (writtenFiles engine placed start [plan.primary])))
      (UndoneAt engine disk plan base start ownership) := by
  have hstart : ∀ now, Early engine strong start ownership snapshots.records now →
      Exactly strong ownership snapshots (writtenFiles engine placed start []) now :=
    fun now h ↦ ⟨h.files_eq, h.ownership, h.snapshots⟩
  refine Exits.weaken (Exits.bind (writeProjection_exactly contract plan.primary rfl)
    fun result ↦ ?_) (fun _ h ↦ hstart _ h) (fun _ _ h ↦ h) fun _ _ h ↦ h
  obtain writeFailure | ⟨⟩ := result
  · by_cases hreplaced : writeFailure.targetReplaced = true
    · simp only [hreplaced, if_true]
      exact Exits.weaken (recoverFiles_throw contract keeping hchecked htaken) (fun _ h ↦ h)
        (fun _ _ h ↦ h) fun _ _ h ↦ h
    · simp only [hreplaced]
      refine Exits.weaken (unpinFailed_throw contract keeping (primary_mem_records snapshots)
        (fun _ ↦ companion_mem_records) rfl) (fun state hstate ↦ ?_) (fun _ _ h ↦ h) fun _ _ h ↦ h
      exact ⟨hstate.ownership, fun target _ ↦ congrFun hstate.files_eq target,
        fun _ hmem ↦ (nomatch hmem), hstate.snapshots⟩
  · exact Exits.pure fun _ h ↦ h

include contract keeping hchecked htaken in
theorem writeCompanions_exactly (done companions : List PreparedFileProjection)
    (hcompanions : done ++ companions = plan.companions) :
    Exits (OnDisk disk (Exactly strong ownership snapshots
        (writtenFiles engine placed start (plan.primary :: done))))
      (engine.writeCompanions plan snapshots done.length
        (companions.zip (companions.map fun companion ↦ start companion.targetPath)))
      (fun _ ↦ OnDisk disk (Exactly strong ownership snapshots
        (writtenFiles engine placed start plan.files)))
      (UndoneAt engine disk plan base start ownership) := by
  induction companions generalizing done with
  | nil =>
    rw [List.append_nil] at hcompanions
    exact Exits.pure fun state hstate ↦ by rwa [PreparedChangePlan.files, ← hcompanions]
  | cons companion companions ih =>
    refine Exits.bind (writeProjection_exactly contract companion rfl) fun result ↦ ?_
    obtain writeFailure | ⟨⟩ := result
    · -- the companion that failed is put back if it was replaced
      refine Exits.weaken (recoverFiles_throw contract keeping hchecked htaken)
        (fun state hstate ↦ ?_) (fun _ _ h ↦ h) fun _ _ h ↦ h
      by_cases hreplaced : writeFailure.targetReplaced = true
      · have htake : plan.companions.take (done.length + 1) = done ++ [companion] := by
          rw [← hcompanions, List.take_length_add_append]
          rfl
        simpa only [hreplaced, if_true, htake, List.cons_append] using hstate
      · have htake : plan.companions.take done.length = done := by
          rw [← hcompanions, List.take_left]
        simpa [hreplaced, htake] using hstate
    · have hnext := ih (done ++ [companion]) (by simpa using hcompanions)
      rw [List.length_append, List.length_singleton] at hnext
      exact hnext

/-! ## Reading back -/

variable (engine placed plan start) in
/-- The files as the transaction leaves them. -/
abbrev finalFiles : String → ConfigSource := writtenFiles engine placed start plan.files

section Written

variable {α ε : Type} {stage : TransactionStage} {reasonCode : String}

include contract keeping hchecked htaken in
theorem written_orRecover {result : Except ε α} :
    Exits (OnDisk disk (Exactly strong ownership snapshots (finalFiles engine placed plan start)))
      (engine.orRecover plan snapshots stage reasonCode result)
      (fun a state ↦ result = .ok a ∧
        OnDisk disk (Exactly strong ownership snapshots (finalFiles engine placed plan start))
          state)
      (UndoneAt engine disk plan base start ownership) := by
  obtain error | a := result
  · refine Exits.weaken (recoverFiles_throw contract keeping hchecked htaken)
      (fun state hstate ↦ ?_) (fun _ _ h ↦ h) fun _ _ h ↦ h
    rwa [List.take_length]
  · exact Exits.pure fun state hstate ↦ ⟨rfl, hstate⟩

end Written

variable (engine placed plan start) in
/-- A file that was read back has the hash that was expected, and its own is the one recorded. -/
structure ReadBack (projection : PreparedFileProjection) (file : WrittenFile Document) : Prop where
  expected : engine.revisionHash projection.targetPath (normalized projection.targetExisted
    (finalFiles engine placed plan start projection.targetPath)) = projection.expectedAfterHash
  actual : file.actualHash = engine.revisionHash projection.targetPath
    (finalFiles engine placed plan start projection.targetPath)

include contract keeping hchecked htaken in
theorem readBackPrimary_exactly :
    Exits (OnDisk disk (Exactly strong ownership snapshots (finalFiles engine placed plan start)))
      (engine.readBackPrimary plan snapshots)
      (fun file state ↦ ReadBack engine placed plan start plan.primary file ∧
        OnDisk disk (Exactly strong ownership snapshots (finalFiles engine placed plan start))
          state)
      (UndoneAt engine disk plan base start ownership) := by
  refine Exits.bind (exits_read contract fun _ h ↦ congrFun h.files_eq _) fun result ↦
    Exits.ofAnd fun hread ↦ ?_
  refine Exits.bind (written_orRecover contract keeping hchecked htaken) fun source ↦
    Exits.ofAnd fun hresult ↦ ?_
  obtain rfl := hread source hresult
  refine Exits.bind (written_orRecover contract keeping hchecked htaken) fun _ ↦
    Exits.ofAnd fun hhash ↦ ?_
  refine Exits.bind (written_orRecover contract keeping hchecked htaken) fun document ↦
    Exits.ofAnd fun _ ↦ ?_
  refine Exits.bind (exits_quiet (contract.verify _ _)) fun _ ↦ ?_
  refine Exits.bind (written_orRecover contract keeping hchecked htaken) fun _ ↦
    Exits.ofAnd fun _ ↦ Exits.pure fun state hstate ↦ ⟨⟨ensure_eq_ok.mp hhash, rfl⟩, hstate⟩

include contract keeping hchecked htaken in
theorem readBackCompanions_exactly (companions : List PreparedFileProjection) :
    Exits (OnDisk disk (Exactly strong ownership snapshots (finalFiles engine placed plan start)))
      (engine.readBackCompanions plan snapshots companions)
      (fun files state ↦ List.Forall₂ (ReadBack engine placed plan start) companions files ∧
        OnDisk disk (Exactly strong ownership snapshots (finalFiles engine placed plan start))
          state)
      (UndoneAt engine disk plan base start ownership) := by
  induction companions with
  | nil => exact Exits.pure fun state hstate ↦ ⟨.nil, hstate⟩
  | cons companion companions ih =>
    refine Exits.bind (exits_read contract fun _ h ↦ congrFun h.files_eq _) fun result ↦
      Exits.ofAnd fun hread ↦ ?_
    refine Exits.bind (written_orRecover contract keeping hchecked htaken) fun source ↦
      Exits.ofAnd fun hresult ↦ ?_
    obtain rfl := hread source hresult
    refine Exits.bind (written_orRecover contract keeping hchecked htaken) fun _ ↦
      Exits.ofAnd fun hhash ↦ ?_
    refine Exits.bind (written_orRecover contract keeping hchecked htaken) fun document ↦
      Exits.ofAnd fun _ ↦ ?_
    refine Exits.bind (exits_quiet (contract.verify _ _)) fun _ ↦ ?_
    refine Exits.bind (written_orRecover contract keeping hchecked htaken) fun _ ↦
      Exits.ofAnd fun _ ↦ ?_
    refine Exits.bind ih fun files ↦ Exits.ofAnd fun hfiles ↦ Exits.pure fun state hstate ↦ ?_
    exact ⟨.cons ⟨ensure_eq_ok.mp hhash, rfl⟩ hfiles, hstate⟩

/-! ## The record -/

/-- What the record of a companion says of its file and its snapshot. -/
structure CompanionRecorded (engine : TransactionEngine Document W)
    (files : String → ConfigSource) (projection : PreparedFileProjection)
    (snapshot : SnapshotCreateResult) (owned : CompanionOwnership) : Prop where
  target : owned.targetConfigPath = projection.targetPath
  baseline : owned.baselineSnapshotId = snapshot.record.snapshotId
  managed : owned.managedAfterHash =
    engine.revisionHash projection.targetPath (files projection.targetPath)

theorem companionOwnerships_recorded {key : MasterKey} {files : String → ConfigSource} :
    ∀ {projections : List PreparedFileProjection} {written : List (WrittenFile Document)}
      {taken : List SnapshotCreateResult} {companions : List CompanionOwnership},
      List.Forall₂ (fun projection file ↦ file.actualHash =
        engine.revisionHash projection.targetPath (files projection.targetPath))
        projections written →
      engine.companionOwnerships key (projections.zip (written.zip taken)) = .ok companions →
      List.Forall₂ (fun pair ↦ CompanionRecorded engine files pair.1 pair.2)
        (projections.zip taken) companions := by
  intro projections written taken companions hwritten hcompanions
  induction hwritten generalizing taken companions with
  | nil =>
    obtain rfl := Except.ok.inj hcompanions
    exact .nil
  | @cons projection file projections written hfile hrest ih =>
    obtain _ | ⟨snapshot, taken⟩ := taken
    · obtain rfl := Except.ok.inj hcompanions
      exact .nil
    · obtain ⟨owned, howned, hcompanions⟩ := except_bind_eq_ok.mp hcompanions
      obtain ⟨others, hothers, hcompanions⟩ := except_bind_eq_ok.mp hcompanions
      obtain rfl := Except.ok.inj hcompanions
      obtain ⟨macs, hmacs, howned⟩ := except_bind_eq_ok.mp howned
      obtain rfl := Except.ok.inj howned
      exact .cons ⟨rfl, rfl, hfile⟩ (ih hothers)

variable (plan snapshots) in
/-- What the commit did to the index. -/
def Recorded (actualHash : String) (macs : ValueMacs) (companions : List CompanionOwnership)
    (nowMs : ℕ) (before after : OwnershipIndex) : Prop :=
  match plan.view.intent with
  | .connect => ∃ stored,
      commit before (connectionRecord plan snapshots.primary actualHash macs companions nowMs)
        none = .ok (stored, after)
  | .disconnect => ∃ binding, plan.ownership = some binding ∧
      FileOwnershipStore.remove before binding.record.key binding.record.revision = .ok after
  | .restore => ∃ binding restored stored, plan.ownership = some binding ∧
      restoredCompanions companions binding.record.companionFiles = .ok restored ∧
      commit before (restoredRecord plan binding.record snapshots.primary macs restored nowMs)
        (some binding.record.revision) = .ok (stored, after)

/-- The disk after the record was committed; `owned` is what it says of the companions. -/
structure Applied (engine : TransactionEngine Document W) (placed : Placing)
    (plan : PreparedChangePlan) (ofTarget : String → SnapshotRecord → Prop)
    (keep : List SnapshotRecord → V → Prop) (start : String → ConfigSource)
    (ownership : OwnershipIndex) (snapshots : TransactionSnapshots)
    (owned : List CompanionOwnership) (now : Disk V) :
    Prop where
  checked : Checked engine plan start ownership
  taken : Taken plan ofTarget snapshots
  files_eq : now.files = finalFiles engine placed plan start
  expected : ∀ projection ∈ plan.files, engine.revisionHash projection.targetPath
    (normalized projection.targetExisted (now.files projection.targetPath)) =
      projection.expectedAfterHash
  companions : List.Forall₂ (fun pair ↦ CompanionRecorded engine now.files pair.1 pair.2)
    (plan.companions.zip snapshots.companions) owned
  recorded : ∃ macs nowMs, Recorded plan snapshots (engine.revisionHash plan.view.targetConfigPath
    (now.files plan.view.targetConfigPath)) macs owned nowMs ownership now.ownership
  snapshots : keep snapshots.records now.snapshots

/-- A commit that succeeds changes the index only, one that fails nothing. -/
def CommitEffect (disk : W → Disk V) (world : W) (recorded : OwnershipIndex → Prop) :
    Except String OwnershipRecord × W → Prop
  | (.ok _, world') => ∃ index,
      recorded index ∧ disk world' = { disk world with ownership := index }
  | (.error _, world') => disk world' = disk world

include contract in
theorem commitOwnership_effect {record : OwnershipRecord} {expected : Option ℕ} (world : W) :
    CommitEffect disk world
      (fun index ↦ ∃ stored, commit (disk world).ownership record expected = .ok (stored, index))
      (engine.commitOwnership record expected world) := by
  have hcommit := contract.commitOwnership record expected world
  split at hcommit
  next stored world' hresult =>
    obtain ⟨index, hstored, hdisk⟩ := hcommit
    rw [hresult]
    exact ⟨index, ⟨stored, hstored⟩, hdisk⟩
  next error world' hresult =>
    rw [hresult]
    exact hcommit

theorem CommitEffect.mono {world : W} {recorded recorded' : OwnershipIndex → Prop}
    (hsub : ∀ index, recorded index → recorded' index) :
    ∀ {outcome : Except String OwnershipRecord × W}, CommitEffect disk world recorded outcome →
      CommitEffect disk world recorded' outcome
  | (.ok _, _), ⟨index, hrecorded, hdisk⟩ => ⟨index, hsub index hrecorded, hdisk⟩
  | (.error _, _), hdisk => hdisk

include contract in
theorem commitRecord_effect (plan : PreparedChangePlan) (snapshots : TransactionSnapshots)
    (actualHash : String) (macs : ValueMacs) (companions : List CompanionOwnership) (nowMs : ℕ)
    (world : W) :
    CommitEffect disk world
      (Recorded plan snapshots actualHash macs companions nowMs (disk world).ownership)
      (engine.commitRecord plan snapshots actualHash macs companions nowMs world) := by
  rw [commitRecord.eq_def]
  split
  next hintent =>
    refine (commitOwnership_effect contract world).mono fun index hindex ↦ ?_
    rwa [Recorded, hintent]
  next binding hintent hownership =>
    split
    · rfl
    · have hremove := contract.removeOwnership binding.record.key binding.record.revision world
      split at hremove
      next world' hresult =>
        obtain ⟨index, hremoved, hdisk⟩ := hremove
        rw [hresult]
        refine ⟨index, ?_, hdisk⟩
        rw [Recorded, hintent]
        exact ⟨binding, hownership, hremoved⟩
      next error world' hresult =>
        rw [hresult]
        exact hremove
  next binding hintent hownership =>
    split
    · rfl
    · split
      · rfl
      next restored hrestored =>
        refine (commitOwnership_effect contract world).mono fun index ⟨stored, hstored⟩ ↦ ?_
        rw [Recorded, hintent]
        exact ⟨binding, restored, stored, hownership, hrestored, hstored⟩
  next => rfl

include hchecked htaken in
/-- Everything was read back, and then the record was committed. -/
theorem Exactly.applied {file : WrittenFile Document} {files : List (WrittenFile Document)}
    {key : MasterKey} {macs : ValueMacs} {owned : List CompanionOwnership} {nowMs : ℕ}
    {now : Disk V} {index : OwnershipIndex}
    (h : Exactly strong ownership snapshots (finalFiles engine placed plan start) now)
    (hfile : ReadBack engine placed plan start plan.primary file)
    (hfiles : List.Forall₂ (ReadBack engine placed plan start) plan.companions files)
    (howned : engine.companionOwnerships key
      (plan.companions.zip (files.zip snapshots.companions)) = .ok owned)
    (hrecorded : Recorded plan snapshots file.actualHash macs owned nowMs now.ownership index) :
    Applied engine placed plan ofTarget strong start ownership snapshots owned
      { now with ownership := index } := by
  have hexpected : ∀ companion ∈ plan.companions, engine.revisionHash companion.targetPath
      (normalized companion.targetExisted
        (finalFiles engine placed plan start companion.targetPath)) =
          companion.expectedAfterHash :=
    ((List.forall₂_and_left _ _).mp (hfiles.imp fun _ _ h ↦ ⟨h.expected, h.actual⟩)).1
  refine ⟨hchecked, htaken, h.files_eq, ?_, ?_, ⟨macs, nowMs, ?_⟩, h.snapshots⟩
  · simp only [h.files_eq]
    exact List.forall_mem_cons.mpr ⟨hfile.expected, hexpected⟩
  · simp only [h.files_eq]
    exact companionOwnerships_recorded (hfiles.imp fun _ _ h ↦ h.actual) howned
  · have hactual : file.actualHash = engine.revisionHash plan.view.targetConfigPath
        (now.files plan.view.targetConfigPath) := by
      rw [h.files_eq]
      exact hfile.actual
    rwa [← h.ownership, ← hactual]

include contract keeping hchecked htaken in
theorem commitWritten_applied {nowMs : ℕ} :
    Exits (OnDisk disk (Exactly strong ownership snapshots (finalFiles engine placed plan start)))
      (engine.commitWritten plan snapshots nowMs)
      (fun _ ↦ OnDisk disk fun now ↦
        ∃ owned, Applied engine placed plan ofTarget strong start ownership snapshots owned now)
      (UndoneAt engine disk plan base start ownership) := by
  refine Exits.bind (readBackPrimary_exactly contract keeping hchecked htaken) fun file ↦
    Exits.ofAnd fun hfile ↦ ?_
  refine Exits.bind (readBackCompanions_exactly contract keeping hchecked htaken _) fun files ↦
    Exits.ofAnd fun hfiles ↦ ?_
  refine Exits.bind (exits_quiet contract.loadKey) fun _ ↦ ?_
  refine Exits.bind (written_orRecover contract keeping hchecked htaken) fun key ↦
    Exits.ofAnd fun _ ↦ ?_
  refine Exits.bind (written_orRecover contract keeping hchecked htaken) fun macs ↦
    Exits.ofAnd fun _ ↦ ?_
  refine Exits.bind (written_orRecover contract keeping hchecked htaken) fun owned ↦
    Exits.ofAnd fun howned ↦ ?_
  refine Exits.bind (R := fun result ↦ OnDisk disk fun now ↦ match result with
    | .ok _ =>
      ∃ owned, Applied engine placed plan ofTarget strong start ownership snapshots owned now
    | .error _ => Exactly strong ownership snapshots (finalFiles engine placed plan start) now)
    (exits_ask fun world hworld ↦ ?_) fun result ↦ ?_
  · have heffect :=
      commitRecord_effect contract plan snapshots file.actualHash macs owned nowMs world
    generalize engine.commitRecord plan snapshots file.actualHash macs owned nowMs world = outcome
      at heffect ⊢
    obtain ⟨error | stored, world'⟩ := outcome
    · exact heffect ▸ hworld
    · obtain ⟨index, hrecorded, hdisk⟩ := heffect
      dsimp only
      rw [hdisk]
      exact ⟨owned, hworld.applied hchecked htaken hfile hfiles howned hrecorded⟩
  · obtain error | stored := result
    · exact (written_orRecover contract keeping hchecked htaken).weaken (fun _ h ↦ h)
        (fun _ _ h ↦ (nomatch h.1)) fun _ _ h ↦ h
    · exact Exits.pure fun _ h ↦ h

/-! ## After the commit -/

/-- The snapshots that the files of a record are to be put back from. -/
def OwnershipRecord.baselines (record : OwnershipRecord) : List String :=
  record.baselineSnapshotId :: record.companionFiles.map (·.baselineSnapshotId)

/-- What a disconnect keeps of the snapshots while it unpins the baselines of its record. -/
structure Releasing (engine : TransactionEngine Document W) (disk : W → Disk V)
    (plan : PreparedChangePlan) (strong released : List SnapshotRecord → V → Prop) : Prop where
  released_of_strong : ∀ {made snapshots}, strong made snapshots → released made snapshots
  unpin : ∀ {binding made snapshotId world}, plan.view.intent = .disconnect →
    plan.ownership = some binding → snapshotId ∈ binding.record.baselines →
      released made (disk world).snapshots →
        released made (disk (engine.setPinned snapshotId false world).2).snapshots

section Release

variable {released : List SnapshotRecord → V → Prop}
  (releasing : Releasing engine disk plan strong released)
  {owned : List CompanionOwnership}

theorem Applied.resnapshot {keep keep' : List SnapshotRecord → V → Prop} {now next : Disk V}
    (h : Applied engine placed plan ofTarget keep start ownership snapshots owned now)
    (hfiles : next.files = now.files) (hownership : next.ownership = now.ownership)
    (hkeep : keep' snapshots.records next.snapshots) :
    Applied engine placed plan ofTarget keep' start ownership snapshots owned next where
  checked := h.checked
  taken := h.taken
  files_eq := hfiles.trans h.files_eq
  expected := by
    rw [hfiles]
    exact h.expected
  companions := by
    rw [hfiles]
    exact h.companions
  recorded := by
    rw [hfiles, hownership]
    exact h.recorded
  snapshots := hkeep

include contract releasing in
theorem unpinBaseline_applied {binding : PlanOwnershipBinding} {snapshotId : String}
    (hintent : plan.view.intent = .disconnect) (hbinding : plan.ownership = some binding)
    (hmem : snapshotId ∈ binding.record.baselines) :
    Triple
      (OnDisk disk (Applied engine placed plan ofTarget released start ownership snapshots owned))
      (query (engine.setPinned snapshotId false))
      fun _ ↦ OnDisk disk
        (Applied engine placed plan ofTarget released start ownership snapshots owned) := by
  refine triple_query fun world hworld ↦ ?_
  obtain ⟨hfiles, hownership⟩ := contract.setPinned snapshotId false world
  exact hworld.resnapshot hfiles hownership
    (releasing.unpin hintent hbinding hmem hworld.snapshots)

include contract releasing in
theorem unpinCompanions_applied {binding : PlanOwnershipBinding} {warning : Option String}
    {companions : List CompanionOwnership} (hintent : plan.view.intent = .disconnect)
    (hbinding : plan.ownership = some binding)
    (hmem : ∀ companion ∈ companions, companion.baselineSnapshotId ∈ binding.record.baselines) :
    Triple
      (OnDisk disk (Applied engine placed plan ofTarget released start ownership snapshots owned))
      (unpinBaselines.unpinCompanions engine warning companions)
      fun _ ↦ OnDisk disk
        (Applied engine placed plan ofTarget released start ownership snapshots owned) := by
  induction companions generalizing warning with
  | nil => exact Triple.pure fun _ h ↦ h
  | cons companion companions ih =>
    obtain ⟨hfirst, hrest⟩ := List.forall_mem_cons.mp hmem
    exact Triple.bind (unpinBaseline_applied contract releasing hintent hbinding hfirst)
      fun _ ↦ ih hrest

include contract releasing in
theorem unpinBaselines_applied {warning : Option String} :
    Triple
      (OnDisk disk (Applied engine placed plan ofTarget released start ownership snapshots owned))
      (engine.unpinBaselines plan warning)
      fun _ ↦ OnDisk disk
        (Applied engine placed plan ofTarget released start ownership snapshots owned) := by
  rw [unpinBaselines.eq_def]
  split
  next binding hintent hbinding =>
    refine Triple.bind (unpinBaseline_applied contract releasing hintent hbinding
      List.mem_cons_self) fun _ ↦ ?_
    exact unpinCompanions_applied contract releasing hintent hbinding fun companion hmem ↦
      List.mem_cons_of_mem _ (List.mem_map_of_mem hmem)
  · exact Triple.pure fun _ h ↦ h

/-! ## The transaction as a whole -/

variable (disk strong start ownership) in
/-- The disk before a transaction. -/
def Ready : EngineState W → Prop := OnDisk disk fun now ↦
  now.files = start ∧ now.ownership = ownership ∧ strong [] now.snapshots

include contract keeping releasing in
theorem applyPrepared_exits {confirmation : ConfirmedOperation} {admission : RuntimeAdmission}
    {nowMs : ℕ} :
    Exits (Ready disk strong start ownership)
      (engine.applyPrepared plan confirmation admission nowMs)
      (fun _ ↦ OnDisk disk fun now ↦ ∃ snapshots owned,
        Applied engine placed plan ofTarget released start ownership snapshots owned now)
      (UndoneAt engine disk plan base start ownership) := by
  refine Exits.weaken (P := OnDisk disk (Early engine strong start ownership [])) ?_
    (fun state h ↦ ⟨h.2.1, fun target _ ↦ congrFun h.1 target, fun _ hmem ↦ (nomatch hmem), h.2.2⟩)
    (fun _ _ h ↦ h) fun _ _ h ↦ h
  refine Exits.bind (early_holds keeping) fun _ ↦ ?_
  refine Exits.bind (early_holds keeping) fun _ ↦ ?_
  refine Exits.bind (checkPlan_early contract keeping) fun sources ↦
    Exits.ofAnd fun ⟨hchecked, hsources⟩ ↦ ?_
  subst hsources
  refine Exits.bind (consume_early keeping) fun _ ↦ ?_
  refine Exits.bind (takeSnapshots_early contract keeping (List.length_map _)) fun snapshots ↦
    Exits.ofAnd fun htaken ↦ ?_
  refine Exits.bind (Exits.bind (writePrimary_exactly contract keeping hchecked htaken)
    fun _ ↦ writeCompanions_exactly contract keeping hchecked htaken [] _ rfl) fun _ ↦ ?_
  refine Exits.bind (commitWritten_applied contract keeping hchecked htaken) fun _ ↦ ?_
  refine Exits.bind (R := fun _ ↦ OnDisk disk fun now ↦ ∃ snapshots owned,
      Applied engine placed plan ofTarget released start ownership snapshots owned now)
    (Exits.lift fun state ⟨owned, hstate⟩ ↦ ⟨snapshots, owned, ?_⟩)
    fun _ ↦ Exits.pure fun _ h ↦ h
  exact unpinBaselines_applied contract releasing state
    (hstate.resnapshot rfl rfl (releasing.released_of_strong hstate.snapshots))

end Release

end TokenStation
