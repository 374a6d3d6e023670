import TokenStation.AgentIntegration.TransactionRecovery

/-!
# A transaction before its first write

Until the first write nothing has happened to the files or the index, so that a failure needs no
recovery. What is known of the snapshots is `strong`, and after a failure `base`.
-/

namespace TokenStation

open Library TransactionEngine FileOwnershipStore

variable {Document W V : Type} {engine : TransactionEngine Document W} {disk : W → Disk V}
  {placed : Placing} (contract : Contract engine disk placed) {plan : PreparedChangePlan}
  {ofTarget : String → SnapshotRecord → Prop} {strong base : List SnapshotRecord → V → Prop}
  (keeping : Keeping engine disk plan ofTarget strong base)
  {start : String → ConfigSource} {ownership : OwnershipIndex} {made : List SnapshotRecord}

variable (engine strong start ownership made) in
/-- The disk before the first write. -/
abbrev Early : Disk V → Prop := Partly engine start ownership [] [] (strong made)

variable (engine disk plan base start ownership) in
/-- The postcondition of every failure. -/
abbrev UndoneAt (error : TransactionFailure) : EngineState W → Prop :=
  OnDisk disk (Undone engine start ownership plan base error)

variable (plan) in
/-- The active record is one that the plan may act on: a plan that connects finds none, any other
one the revision that it was made from. -/
structure Bound (active : Option OwnershipRecord) : Prop where
  connect : plan.view.intent = .connect → active = none ∧ plan.ownership = none
  managed : plan.view.intent ≠ .connect → ∃ found binding,
    active = some found ∧ plan.ownership = some binding ∧
      found.revision = binding.record.revision ∧ found.key = binding.record.key

variable (engine plan start ownership) in
/-- What the checks before the first write have found. -/
structure Checked : Prop where
  valid : ValidIndex ownership
  bound : Bound plan (activeRecord ownership plan.ownershipKey)
  before : ∀ projection ∈ plan.files, engine.revisionHash projection.targetPath
    (start projection.targetPath) = projection.beforeHash

/-! ## The checks -/

include keeping in
theorem undoneAt_of_early {stage : TransactionStage} {reasonCode : String}
    (state : EngineState W) (h : OnDisk disk (Early engine strong start ownership made) state) :
    UndoneAt engine disk plan base start ownership (failure plan stage reasonCode) state :=
  Partly.undone (h.resnapshot rfl rfl (keeping.base_of_strong h.snapshots)) rfl

section Early

variable {α ε : Type} {stage : TransactionStage} {reasonCode : String}

include keeping in
theorem early_orFail {result : Except ε α} :
    Exits (OnDisk disk (Early engine strong start ownership made))
      (orFail plan stage reasonCode result)
      (fun a state ↦ result = .ok a ∧ OnDisk disk (Early engine strong start ownership made) state)
      (UndoneAt engine disk plan base start ownership) :=
  exits_orFail (undoneAt_of_early keeping)

include keeping in
theorem early_require {condition : Bool} :
    Exits (OnDisk disk (Early engine strong start ownership made))
      (require plan stage reasonCode condition)
      (fun _ state ↦ condition = true ∧
        OnDisk disk (Early engine strong start ownership made) state)
      (UndoneAt engine disk plan base start ownership) :=
  exits_require (undoneAt_of_early keeping)

include keeping in
/-- A check whose result does not matter later. -/
theorem early_passes {result : Except ε α} :
    Exits (OnDisk disk (Early engine strong start ownership made))
      (orFail plan stage reasonCode result)
      (fun _ ↦ OnDisk disk (Early engine strong start ownership made))
      (UndoneAt engine disk plan base start ownership) :=
  (early_orFail keeping).weaken (fun _ h ↦ h) (fun _ _ h ↦ h.2) fun _ _ h ↦ h

include keeping in
theorem early_holds {condition : Bool} :
    Exits (OnDisk disk (Early engine strong start ownership made))
      (require plan stage reasonCode condition)
      (fun _ ↦ OnDisk disk (Early engine strong start ownership made))
      (UndoneAt engine disk plan base start ownership) :=
  (early_require keeping).weaken (fun _ h ↦ h) (fun _ _ h ↦ h.2) fun _ _ h ↦ h

include contract in
/-- Reading a file before the first write. -/
theorem early_read {target : String} :
    Exits (OnDisk disk (Early engine strong start ownership made))
      (ask (engine.readConfigSource target))
      (fun result state ↦ (∀ source, result = .ok source → source = start target) ∧
        OnDisk disk (Early engine strong start ownership made) state)
      (UndoneAt engine disk plan base start ownership) :=
  exits_read contract fun _ h ↦ congrFun h.files_eq target

end Early

include keeping in
theorem matchOwnership_early {active : Option OwnershipRecord} :
    Exits (OnDisk disk (Early engine strong start ownership made))
      (matchOwnership plan active)
      (fun _ state ↦ Bound plan active ∧
        OnDisk disk (Early engine strong start ownership made) state)
      (UndoneAt engine disk plan base start ownership) := by
  have hthrow : ∀ {reasonCode}, Exits (OnDisk disk (Early engine strong start ownership made))
      (throw (failure plan .ownership reasonCode) : Transaction W Unit)
      (fun _ state ↦ Bound plan active ∧
        OnDisk disk (Early engine strong start ownership made) state)
      (UndoneAt engine disk plan base start ownership) :=
    Exits.throw (undoneAt_of_early keeping)
  rw [matchOwnership.eq_def]
  split
  next hintent hownership =>
    exact Exits.pure fun state hstate ↦
      ⟨⟨fun _ ↦ ⟨rfl, hownership⟩, fun hne ↦ absurd hintent hne⟩, hstate⟩
  next => exact hthrow
  next found binding hownership hnot =>
    refine (early_require keeping).weaken (fun _ h ↦ h) (fun _ state h ↦ ⟨⟨?_, ?_⟩, h.2⟩)
      fun _ _ h ↦ h
    · exact fun hconnect ↦ absurd hconnect hnot
    · obtain ⟨hrevision, hkey⟩ := Bool.and_eq_true_iff.mp h.1
      exact fun _ ↦ ⟨found, binding, rfl, hownership, beq_iff_eq.mp hrevision, beq_iff_eq.mp hkey⟩
  next => exact hthrow

include contract keeping in
theorem readCompanions_early (companions : List PreparedFileProjection) :
    Exits (OnDisk disk (Early engine strong start ownership made))
      (engine.readCompanions plan companions)
      (fun sources state ↦ (sources = companions.map (fun companion ↦ start companion.targetPath) ∧
          ∀ companion ∈ companions, engine.revisionHash companion.targetPath
            (start companion.targetPath) = companion.beforeHash) ∧
        OnDisk disk (Early engine strong start ownership made) state)
      (UndoneAt engine disk plan base start ownership) := by
  induction companions with
  | nil => exact Exits.pure fun state hstate ↦ ⟨⟨rfl, fun _ hmem ↦ (nomatch hmem)⟩, hstate⟩
  | cons companion companions ih =>
    refine Exits.bind (early_read contract) fun result ↦ Exits.ofAnd fun hread ↦ ?_
    refine Exits.bind (early_orFail keeping) fun source ↦ Exits.ofAnd fun hresult ↦ ?_
    have hsource := hread source hresult
    refine Exits.bind (early_require keeping) fun _ ↦ Exits.ofAnd fun hhash ↦ ?_
    refine Exits.bind ih fun sources ↦ Exits.ofAnd fun hsources ↦
      Exits.pure fun state hstate ↦ ?_
    rw [beq_iff_eq, hsource] at hhash
    exact ⟨⟨by rw [hsource, hsources.1, List.map_cons],
      List.forall_mem_cons.mpr ⟨hhash, hsources.2⟩⟩, hstate⟩

/-! The owned values are looked at, and nothing follows from them here. -/

section Values

variable {record : OwnershipRecord} {key : MasterKey}

include contract keeping in
theorem matchesLegacyWidening_early {document : Document} :
    Exits (OnDisk disk (Early engine strong start ownership made))
      (engine.matchesLegacyWidening plan record document key)
      (fun _ ↦ OnDisk disk (Early engine strong start ownership made))
      (UndoneAt engine disk plan base start ownership) := by
  refine Exits.ite (fun _ ↦ ?_) fun _ ↦ Exits.pure fun _ h ↦ h
  refine Exits.bind (exits_quiet (contract.loadSnapshot _)) fun _ ↦ ?_
  refine Exits.bind (early_passes keeping) fun _ ↦ ?_
  refine Exits.bind (early_holds keeping) fun _ ↦ ?_
  exact Exits.bind (early_passes keeping) fun _ ↦ early_passes keeping

include keeping in
theorem checkCompanionValues_early (companions : List (PreparedFileProjection × ConfigSource)) :
    Exits (OnDisk disk (Early engine strong start ownership made))
      (engine.checkCompanionValues plan record key companions)
      (fun _ ↦ OnDisk disk (Early engine strong start ownership made))
      (UndoneAt engine disk plan base start ownership) := by
  induction companions with
  | nil => exact Exits.pure fun _ h ↦ h
  | cons companion companions ih =>
    obtain ⟨companion, source⟩ := companion
    rw [checkCompanionValues]
    split
    · exact Exits.throw (undoneAt_of_early keeping)
    · refine Exits.bind (early_passes keeping) fun _ ↦ ?_
      refine Exits.bind (early_passes keeping) fun _ ↦ ?_
      refine Exits.bind (early_passes keeping) fun _ ↦ ?_
      refine Exits.bind (early_passes keeping) fun _ ↦ ?_
      exact Exits.bind (early_holds keeping) fun _ ↦ ih

include contract keeping in
theorem checkOwnedValues_early {current : ConfigSource} {companionCurrents : List ConfigSource} :
    Exits (OnDisk disk (Early engine strong start ownership made))
      (engine.checkOwnedValues plan record current companionCurrents)
      (fun _ ↦ OnDisk disk (Early engine strong start ownership made))
      (UndoneAt engine disk plan base start ownership) := by
  refine Exits.bind (early_passes keeping) fun _ ↦ ?_
  refine Exits.bind (exits_quiet contract.loadKey) fun _ ↦ ?_
  refine Exits.bind (early_passes keeping) fun _ ↦ ?_
  refine Exits.bind (early_passes keeping) fun _ ↦ ?_
  refine Exits.bind (early_passes keeping) fun _ ↦ ?_
  refine Exits.bind (early_passes keeping) fun _ ↦ ?_
  refine Exits.bind (early_passes keeping) fun _ ↦ ?_
  refine Exits.bind (matchesLegacyWidening_early contract keeping) fun _ ↦ ?_
  exact Exits.bind (early_holds keeping) fun _ ↦ checkCompanionValues_early keeping _

end Values

include contract in
/-- Loading the record finds the active one of a valid index. -/
theorem loadOwnership_early :
    Exits (OnDisk disk (Early engine strong start ownership made))
      (ask (engine.loadOwnership plan.ownershipKey))
      (fun result state ↦ (∀ found, result = .ok found →
          ValidIndex ownership ∧ found = activeRecord ownership plan.ownershipKey) ∧
        OnDisk disk (Early engine strong start ownership made) state)
      (UndoneAt engine disk plan base start ownership) := by
  refine Exits.lift fun state hstate ↦ ⟨fun found hfound ↦ ?_, ?_⟩
  · have hload := contract.load_ok hfound
    rw [hstate.ownership] at hload
    exact load_eq_ok.mp hload
  · exact triple_quiet (contract.loadOwnership _) state hstate

include contract keeping in
theorem checkPlan_early :
    Exits (OnDisk disk (Early engine strong start ownership made)) (engine.checkPlan plan)
      (fun sources state ↦ (Checked engine plan start ownership ∧
          sources = (start plan.view.targetConfigPath,
            plan.companions.map fun companion ↦ start companion.targetPath)) ∧
        OnDisk disk (Early engine strong start ownership made) state)
      (UndoneAt engine disk plan base start ownership) := by
  refine Exits.bind (R := fun _ ↦ OnDisk disk (Early engine strong start ownership made))
    (fun state hstate ↦ hstate) fun _ ↦ ?_
  refine Exits.bind (early_holds keeping) fun _ ↦ ?_
  refine Exits.bind (loadOwnership_early contract) fun result ↦ Exits.ofAnd fun hload ↦ ?_
  refine Exits.bind (early_orFail keeping) fun active ↦ Exits.ofAnd fun hactive ↦ ?_
  obtain ⟨hvalid, rfl⟩ := hload active hactive
  refine Exits.bind (matchOwnership_early keeping) fun _ ↦ Exits.ofAnd fun hbound ↦ ?_
  refine Exits.bind (early_read contract) fun result ↦ Exits.ofAnd fun hread ↦ ?_
  refine Exits.bind (early_orFail keeping) fun source ↦ Exits.ofAnd fun hresult ↦ ?_
  obtain rfl := hread source hresult
  refine Exits.bind (early_require keeping) fun _ ↦ Exits.ofAnd fun hhash ↦ ?_
  refine Exits.bind (readCompanions_early contract keeping _) fun sources ↦
    Exits.ofAnd fun hsources ↦ ?_
  have hchecked : Checked engine plan start ownership :=
    ⟨hvalid, hbound, List.forall_mem_cons.mpr ⟨beq_iff_eq.mp hhash, hsources.2⟩⟩
  have hrest : Exits (OnDisk disk (Early engine strong start ownership made))
      (pure (start plan.view.targetConfigPath, sources) : Transaction W _)
      (fun sources state ↦ (Checked engine plan start ownership ∧
          sources = (start plan.view.targetConfigPath,
            plan.companions.map fun companion ↦ start companion.targetPath)) ∧
        OnDisk disk (Early engine strong start ownership made) state)
      (UndoneAt engine disk plan base start ownership) :=
    Exits.pure fun state hstate ↦ ⟨⟨hchecked, by rw [hsources.1]⟩, hstate⟩
  split
  · exact hrest
  · exact Exits.bind (checkOwnedValues_early contract keeping) fun _ ↦ hrest

include keeping in
/-- Consuming the operation is seen by no one but the engine. -/
theorem consume_early :
    Exits (OnDisk disk (Early engine strong start ownership made)) (engine.consume plan)
      (fun _ ↦ OnDisk disk (Early engine strong start ownership made))
      (UndoneAt engine disk plan base start ownership) := by
  -- the state that is written back is the one that was read
  refine Exits.bind (R := fun before state ↦ before = state ∧
    OnDisk disk (Early engine strong start ownership made) state)
    (fun state hstate ↦ ⟨rfl, hstate⟩) fun before ↦ ?_
  refine Exits.bind (exits_require fun state h ↦ undoneAt_of_early keeping state h.2) fun _ ↦ ?_
  refine Exits.bind (exits_require fun state h ↦ undoneAt_of_early keeping state h.2.2) fun _ ↦ ?_
  rintro state ⟨-, -, rfl, hstate⟩
  exact hstate

/-! ## Snapshots -/

variable (plan ofTarget) in
/-- The snapshots of a transaction are of its files, in their order. -/
structure Taken (snapshots : TransactionSnapshots) : Prop where
  primary : ofTarget plan.view.targetConfigPath snapshots.primary.record
  companions : List.Forall₂ (fun projection snapshot ↦
    ofTarget projection.targetPath snapshot.record) plan.companions snapshots.companions

include contract keeping in
/-- One more snapshot, or none. -/
theorem createSnapshot_early {target beforeHash : String} {source : ConfigSource} {nowMs : ℕ} :
    Exits (OnDisk disk (Early engine strong start ownership made))
      (ask (engine.createSnapshot (engine.snapshotRequest plan target beforeHash source nowMs)))
      (fun result ↦ OnDisk disk fun now ↦ match result with
        | .ok created => ofTarget target created.record ∧
            Early engine strong start ownership (made ++ [created.record]) now
        | .error _ => Early engine strong start ownership made now)
      (UndoneAt engine disk plan base start ownership) := by
  refine exits_ask fun world hworld ↦ ?_
  obtain ⟨hfiles, hownership⟩ := contract.createSnapshot
    (engine.snapshotRequest plan target beforeHash source nowMs) world
  have hcreate := keeping.create
    (engine.snapshotRequest plan target beforeHash source nowMs) rfl rfl rfl hworld.snapshots
  split at hcreate
  next created world' hresult =>
    rw [hresult] at hfiles hownership ⊢
    exact ⟨hcreate.1, hworld.resnapshot hfiles hownership hcreate.2⟩
  next error world' hresult =>
    rw [hresult] at hfiles hownership ⊢
    exact hworld.resnapshot hfiles hownership hcreate

include contract keeping in
/-- Giving up after snapshots were made. -/
theorem unpinFailed_throw {primary : String} {companions : List SnapshotCreateResult}
    (hprimary : primary ∈ made.map (·.snapshotId))
    (hcompanions : ∀ snapshot ∈ companions, snapshot.record ∈ made) {α : Type}
    {error : TransactionFailure} (herror : error.recovery = .notRequired)
    {Q : α → EngineState W → Prop} :
    Exits (OnDisk disk (Early engine strong start ownership made))
      (do
        engine.unpinFailedConnectionSnapshots plan primary companions
        throw error : Transaction W α)
      Q (UndoneAt engine disk plan base start ownership) := by
  refine Exits.bind (R := fun _ ↦ OnDisk disk (Partly engine start ownership [] [] (base made)))
    (Exits.lift ?_) fun _ ↦ Exits.throw fun state hstate ↦ Partly.undone hstate herror
  refine Triple.weaken (unpinFailed_partly contract keeping hprimary hcompanions)
    (fun state hstate ↦ ?_) fun _ _ h ↦ h
  exact hstate.resnapshot rfl rfl (keeping.base_of_strong hstate.snapshots)

include contract keeping in
theorem snapshotCompanions_early {primary : SnapshotRecord} {nowMs : ℕ}
    (snapshots : List SnapshotCreateResult)
    (companions : List (PreparedFileProjection × ConfigSource)) :
    Exits (OnDisk disk (Early engine strong start ownership (primary :: snapshots.map (·.record))))
      (engine.snapshotCompanions plan primary.snapshotId nowMs snapshots companions)
      (fun taken state ↦ (∃ rest, taken = snapshots ++ rest ∧
          List.Forall₂ (fun pair snapshot ↦ ofTarget pair.1.targetPath snapshot.record)
            companions rest) ∧
        OnDisk disk (Early engine strong start ownership (primary :: taken.map (·.record))) state)
      (UndoneAt engine disk plan base start ownership) := by
  induction companions generalizing snapshots with
  | nil => exact Exits.pure fun state hstate ↦ ⟨⟨[], (List.append_nil _).symm, .nil⟩, hstate⟩
  | cons companion companions ih =>
    refine Exits.bind (createSnapshot_early contract keeping) fun result ↦ ?_
    obtain error | created := result
    · exact unpinFailed_throw contract keeping List.mem_cons_self
        (fun snapshot hmem ↦ List.mem_cons_of_mem _ (List.mem_map_of_mem hmem)) rfl
    · rintro state ⟨htarget, hstate⟩
      have hmade : Early engine strong start ownership
          (primary :: (snapshots ++ [created]).map (·.record)) (disk state.world) := by
        rwa [List.map_append, List.map_singleton, ← List.cons_append]
      refine Exits.weaken (ih (snapshots ++ [created])) (fun _ h ↦ h) (fun taken _ h ↦ ?_)
        (fun _ _ h ↦ h) state hmade
      obtain ⟨⟨rest, rfl, hrest⟩, htaken⟩ := h
      exact ⟨⟨created :: rest, List.append_assoc _ _ _, .cons htarget hrest⟩, htaken⟩

/-- Each companion is paired with its source. -/
theorem forall₂_zip_left {α β γ : Type} {R : α → γ → Prop} :
    ∀ {l : List α} {others : List β} {rest : List γ}, others.length = l.length →
      List.Forall₂ (fun pair c ↦ R pair.1 c) (l.zip others) rest → List.Forall₂ R l rest
  | [], _, _, _, .nil => .nil
  | _ :: _, _ :: _, _, hlength, .cons h hrest =>
    .cons h (forall₂_zip_left (Nat.succ.inj hlength) hrest)

include contract keeping in
theorem takeSnapshots_early {current : ConfigSource} {companionCurrents : List ConfigSource}
    {nowMs : ℕ} (hlength : companionCurrents.length = plan.companions.length) :
    Exits (OnDisk disk (Early engine strong start ownership []))
      (engine.takeSnapshots plan current companionCurrents nowMs)
      (fun snapshots state ↦ Taken plan ofTarget snapshots ∧
        OnDisk disk (Early engine strong start ownership snapshots.records) state)
      (UndoneAt engine disk plan base start ownership) := by
  refine Exits.bind (createSnapshot_early contract keeping) fun result ↦ ?_
  obtain error | primary := result
  · exact Exits.bind (early_orFail keeping) fun _ ↦ Exits.ofAnd fun hresult ↦ (nomatch hresult)
  · refine Exits.bind (R := fun created state ↦ (created = primary ∧
        ofTarget plan.view.targetConfigPath primary.record) ∧
        OnDisk disk (Early engine strong start ownership [primary.record]) state)
      (Exits.pure fun state hstate ↦ ⟨⟨rfl, hstate.1⟩, hstate.2⟩) fun created ↦
      Exits.ofAnd fun ⟨hcreated, hprimary⟩ ↦ ?_
    obtain rfl := hcreated
    refine Exits.bind (snapshotCompanions_early contract keeping [] _) fun companions ↦
      Exits.ofAnd fun ⟨rest, hrest, hcompanions⟩ ↦ ?_
    obtain rfl := hrest
    refine Exits.bind (exits_quiet contract.nowMs) fun later ↦ ?_
    refine Exits.ite (fun _ ↦ ?_) fun _ ↦ Exits.pure fun state hstate ↦
      ⟨⟨hprimary, forall₂_zip_left hlength hcompanions⟩, hstate⟩
    exact unpinFailed_throw contract keeping List.mem_cons_self
      (fun snapshot hmem ↦ List.mem_cons_of_mem _ (List.mem_map_of_mem hmem)) rfl

end TokenStation
