import TokenStation.AgentIntegration.Plan
import TokenStation.AgentIntegration.SnapshotStore
import TokenStation.Library.Outcome

/-!
# Configuration transactions

A plan is applied in one go: the record and the files are checked against it, every file is
snapshotted, written and read back, and the record is committed last. When something fails after
the first write, the files that were written are put back from their snapshots, the last one first.

The stores, the writer, the clock and the files answer as they like: every call takes the state of
the world to a result and a new state.
-/

namespace TokenStation

open Library

inductive TransactionStage where
  | confirmation
  | admission
  | ownership
  | revision
  | snapshot
  | targetWrite
  | postWriteRead
  | postWriteParse
  | postWriteSelfCheck
  | ownershipCommit
  | restore
  deriving DecidableEq

inductive RecoveryStatus where
  | notRequired
  | restored
  | repairRequired
  deriving DecidableEq

structure TransactionFailure where
  operationId : String
  stage : TransactionStage
  reasonCode : String
  recovery : RecoveryStatus
  recoveryReasonCode : Option String
  deriving DecidableEq

structure TransactionOutcome where
  operationId : String
  agentId : String
  targetConfigPath : String
  beforeHash : String
  afterHash : String
  snapshotId : String
  ownershipRevision : ℕ
  maintenanceWarning : Option String

structure ConfirmedOperation where
  operationId : String
  confirmedAtMs : ℕ
  confirmations : List ConfirmationKind

structure RuntimeAdmission where
  compatibilitySequence : ℕ
  status : CompatibilityStatus

inductive AtomicWriteStage where
  | parentCreate
  | tempCreate
  | tempWrite
  | tempFlush
  | tempFsync
  | permission
  | preReplaceRevision
  | replace
  | directoryFsync
  | remove
  deriving DecidableEq

structure AtomicWriteFailure where
  stage : AtomicWriteStage
  targetReplaced : Bool

structure SnapshotCreateResult where
  record : SnapshotRecord
  maintenanceWarning : Option String

/-- What a transaction calls. -/
structure TransactionEngine (Document W : Type) where
  documents : Documents Document
  sha256 : Bytes → String
  appVersion : String
  /-- Whether a lock of the coordinator was poisoned by a panic. -/
  operationLockPoisoned : W → Bool
  consumedPoisoned : W → Bool
  readConfigSource : String → W → Except String ConfigSource × W
  createSnapshot : SnapshotRequest → W → Except String SnapshotCreateResult × W
  loadSnapshot : String → W → Except String DecryptedSnapshot × W
  setPinned : String → Bool → W → Except String Unit × W
  loadOwnership : OwnershipKey → W → Except String (Option OwnershipRecord) × W
  commitOwnership : OwnershipRecord → Option ℕ → W → Except String OwnershipRecord × W
  removeOwnership : OwnershipKey → ℕ → W → Except String Unit × W
  loadKey : W → Except String MasterKey × W
  /-- The target, its bytes, permissions and owner, the hash of what is to be replaced, and whether
  that is taken without the owner. -/
  replace : String → Bytes → Option UInt32 → Option String → String → Bool → W →
    Except AtomicWriteFailure Unit × W
  remove : String → String → Bool → W → Except AtomicWriteFailure Unit × W
  verify : String → Document → W → Except String Unit × W
  nowMs : W → ℕ × W

/-- The world, and the operations that were consumed. -/
structure EngineState (W : Type) where
  world : W
  consumed : List String

/-- A step that may stop with a failure. -/
abbrev Transaction (W : Type) := ExceptT TransactionFailure (StateM (EngineState W))

/-- The snapshots of one transaction. -/
structure TransactionSnapshots where
  primary : SnapshotCreateResult
  companions : List SnapshotCreateResult

namespace TransactionEngine

variable {Document W : Type}

/-- Ask the world. -/
def query {α : Type} (call : W → α × W) : StateM (EngineState W) α := fun state ↦
  ((call state.world).1, { state with world := (call state.world).2 })

/-- Ask the world, whatever it answers. -/
def ask {α : Type} (call : W → α × W) : Transaction W α := liftM (query call)

def failure (plan : PreparedChangePlan) (stage : TransactionStage) (reasonCode : String) :
    TransactionFailure where
  operationId := plan.view.operationId
  stage := stage
  reasonCode := reasonCode
  recovery := .notRequired
  recoveryReasonCode := none

/-- Go on with the result of a call, or stop. -/
def orFail {ε α : Type} (plan : PreparedChangePlan) (stage : TransactionStage)
    (reasonCode : String) : Except ε α → Transaction W α
  | .ok a => pure a
  | .error _ => throw (failure plan stage reasonCode)

/-- Stop unless a condition holds. -/
def require (plan : PreparedChangePlan) (stage : TransactionStage) (reasonCode : String)
    (condition : Bool) : Transaction W Unit :=
  if condition then pure () else throw (failure plan stage reasonCode)

def atomicReason : AtomicWriteStage → String
  | .parentCreate => "target_parent_create_failed"
  | .tempCreate => "target_temp_create_failed"
  | .tempWrite => "target_temp_write_failed"
  | .tempFlush => "target_temp_flush_failed"
  | .tempFsync => "target_temp_fsync_failed"
  | .permission => "target_permission_restore_failed"
  | .preReplaceRevision => "target_changed_before_replace"
  | .replace => "target_atomic_replace_failed"
  | .directoryFsync => "target_directory_fsync_failed"
  | .remove => "target_remove_failed"

variable (engine : TransactionEngine Document W)

def revisionHash (target : String) (source : ConfigSource) : String :=
  fileRevisionHash engine.sha256 target source

/-- A source as it is hashed where a file is to be made: its owner is not known before. -/
def normalized (targetExisted : Bool) (source : ConfigSource) : ConfigSource :=
  if targetExisted then source else { source with originalOwner := none }

/-! ## Before the first write -/

def validateConfirmation (plan : PreparedChangePlan) (confirmation : ConfirmedOperation)
    (nowMs : ℕ) : Transaction W Unit :=
  require plan .confirmation "confirmation_missing_mismatched_or_expired"
    (confirmation.operationId == plan.view.operationId
      && decide (plan.view.createdAtMs ≤ confirmation.confirmedAtMs)
      && decide (confirmation.confirmedAtMs ≤ plan.view.expiresAtMs)
      && decide (nowMs ≤ plan.view.expiresAtMs)
      && plan.view.requiredConfirmations.all fun required ↦
        confirmation.confirmations.contains required)

def statusAllowed (plan : PreparedChangePlan) (admission : RuntimeAdmission) (nowMs : ℕ) : Bool :=
  if plan.view.intent = .connect then
    admission.status == .detectedVerified && admission.status == plan.view.compatibilityStatus
      && plan.view.compatibilityExpiresAtMs.all fun expiry ↦ decide (nowMs < expiry)
  else admission.status == plan.view.compatibilityStatus

def validateAdmission (plan : PreparedChangePlan) (admission : RuntimeAdmission) (nowMs : ℕ) :
    Transaction W Unit :=
  require plan .admission "compatibility_changed_or_blocked"
    (admission.compatibilitySequence == plan.view.compatibilitySequence
      && statusAllowed plan admission nowMs)

/-- The record that is active, against the one that the plan was made from. -/
def matchOwnership (plan : PreparedChangePlan) (active : Option OwnershipRecord) :
    Transaction W Unit :=
  match plan.view.intent, active, plan.ownership with
  | .connect, none, none => pure ()
  | .connect, _, _ => throw (failure plan .ownership "ownership_already_active")
  | _, some active, some binding =>
    require plan .ownership "ownership_changed_or_missing"
      (active.revision == binding.record.revision && active.key == binding.record.key)
  | _, _, _ => throw (failure plan .ownership "ownership_changed_or_missing")

def readCompanions (plan : PreparedChangePlan) :
    List PreparedFileProjection → Transaction W (List ConfigSource)
  | [] => pure []
  | companion :: companions => do
    let source ← orFail plan .revision "companion_target_read_failed"
      (← ask (engine.readConfigSource companion.targetPath))
    require plan .revision "companion_before_hash_changed"
      (engine.revisionHash companion.targetPath source == companion.beforeHash)
    let sources ← readCompanions plan companions
    pure (source :: sources)

/-- Whether the baseline shows that the record owns what an older connector did. -/
def matchesLegacyWidening (plan : PreparedChangePlan) (record : OwnershipRecord)
    (document : Document) (key : MasterKey) : Transaction W Bool :=
  if record.ownedPaths ≠ plan.view.ownedPaths then do
    let checkFailed {α : Type} (result : Except String α) : Transaction W α :=
      orFail plan .ownership "ownership_check_failed" result
    let baseline ← checkFailed (← ask (engine.loadSnapshot record.baselineSnapshotId))
    require plan .ownership "ownership_check_failed"
      (baseline.record.agentId == record.agentId
        && baseline.record.targetConfigPath == record.targetConfigPath
        && baseline.record.connectorId == record.connectorId)
    let bytes := if baseline.record.originalExisted then some baseline.exactBytes else none
    let baselineDocument ← checkFailed
      (engine.documents.parseSourceBytes bytes plan.format plan.label)
    checkFailed (legacyWidenedOwnershipMatches engine.documents record document baselineDocument
      plan.view.ownedPaths key)
  else pure false

def checkCompanionValues (plan : PreparedChangePlan) (record : OwnershipRecord) (key : MasterKey) :
    List (PreparedFileProjection × ConfigSource) → Transaction W Unit
  | [] => pure ()
  | (companion, source) :: companions => do
    match record.companionFiles.find? fun owned ↦
        owned.targetConfigPath = companion.targetPath with
    | none => throw (failure plan .ownership "companion_ownership_missing")
    | some owned =>
      let document ← orFail plan .ownership "companion_ownership_source_parse_failed"
        (engine.documents.parseSourceBytes source.bytes? companion.format companion.label)
      let observed ← orFail plan .ownership "companion_ownership_check_failed"
        (computeOwnedValueMacs engine.documents document owned.ownedPaths key)
      let projectedDocument ← orFail plan .ownership "companion_ownership_projection_parse_failed"
        (engine.documents.parseSourceBytes (some companion.projectedBytes) companion.format
          companion.label)
      let projected ← orFail plan .ownership "companion_ownership_check_failed"
        (computeOwnedValueMacs engine.documents projectedDocument owned.ownedPaths key)
      require plan .ownership "companion_owned_values_changed"
        (observed == owned.ownedValueMacs || observed == projected)
      checkCompanionValues plan record key companions

/-- The owned values are still what the record or the projection says. -/
def checkOwnedValues (plan : PreparedChangePlan) (record : OwnershipRecord)
    (current : ConfigSource) (companionCurrents : List ConfigSource) : Transaction W Unit := do
  let document ← orFail plan .ownership "ownership_source_parse_failed"
    (engine.documents.parseSourceBytes current.bytes? plan.format plan.label)
  let key ← orFail plan .ownership "ownership_key_unavailable" (← ask engine.loadKey)
  let matchesRecord ← orFail plan .ownership "ownership_check_failed"
    (ownershipMatches engine.documents record document key)
  let projectedDocument ← orFail plan .ownership "ownership_projection_parse_failed"
    (engine.documents.parseSourceBytes (some plan.projectedBytes) plan.format plan.label)
  let observed ← orFail plan .ownership "ownership_check_failed"
    (computeOwnedValueMacs engine.documents document record.ownedPaths key)
  let projected ← orFail plan .ownership "ownership_check_failed"
    (computeOwnedValueMacs engine.documents projectedDocument record.ownedPaths key)
  let matchesWidening ← engine.matchesLegacyWidening plan record document key
  require plan .ownership "owned_values_changed"
    (matchesRecord || observed == projected || matchesWidening)
  engine.checkCompanionValues plan record key (plan.companions.zip companionCurrents)

/-- An operation is applied once. -/
def consume (plan : PreparedChangePlan) : Transaction W Unit := do
  let state ← get
  require plan .confirmation "operation_store_poisoned"
    (!engine.consumedPoisoned state.world)
  require plan .confirmation "operation_already_consumed"
    (!state.consumed.contains plan.view.operationId)
  set { state with consumed := plan.view.operationId :: state.consumed }

/-! ## Snapshots -/

/-- A connection that failed does not keep its baselines. -/
def unpinFailedConnectionSnapshots (plan : PreparedChangePlan) (primary : String)
    (companions : List SnapshotCreateResult) : StateM (EngineState W) Unit := do
  if plan.view.intent = .connect then
    let _ ← query (engine.setPinned primary false)
    companions.forM fun snapshot ↦ do
      let _ ← query (engine.setPinned snapshot.record.snapshotId false)

def snapshotRequest (plan : PreparedChangePlan) (target beforeHash : String)
    (source : ConfigSource) (nowMs : ℕ) : SnapshotRequest where
  operationId := plan.view.operationId
  agentId := plan.view.agentId
  targetConfigPath := target
  beforeHash := beforeHash
  source := source
  createdAtMs := nowMs
  connectorId := plan.view.connectorId
  appVersion := engine.appVersion
  pinned := plan.view.intent = .connect

/-- The snapshots of the companions, after those that were made. -/
def snapshotCompanions (plan : PreparedChangePlan) (primary : String) (nowMs : ℕ)
    (made : List SnapshotCreateResult) :
    List (PreparedFileProjection × ConfigSource) → Transaction W (List SnapshotCreateResult)
  | [] => pure made
  | (companion, source) :: companions => do
    match ← ask (engine.createSnapshot
        (engine.snapshotRequest plan companion.targetPath companion.beforeHash source nowMs)) with
    | .error _ =>
      engine.unpinFailedConnectionSnapshots plan primary made
      throw (failure plan .snapshot "companion_snapshot_create_failed")
    | .ok created => snapshotCompanions plan primary nowMs (made ++ [created]) companions

def takeSnapshots (plan : PreparedChangePlan) (current : ConfigSource)
    (companionCurrents : List ConfigSource) (nowMs : ℕ) :
    Transaction W TransactionSnapshots := do
  let primary ← orFail plan .snapshot "snapshot_create_failed"
    (← ask (engine.createSnapshot
      (engine.snapshotRequest plan plan.view.targetConfigPath plan.view.beforeHash current nowMs)))
  let companions ← engine.snapshotCompanions plan primary.record.snapshotId nowMs []
    (plan.companions.zip companionCurrents)
  let later ← ask engine.nowMs
  if plan.view.expiresAtMs < later then
    engine.unpinFailedConnectionSnapshots plan primary.record.snapshotId companions
    throw (failure plan .confirmation "plan_expired_after_snapshot")
  else pure ⟨primary, companions⟩

/-! ## The way back -/

/-- Put one file back, and look whether it is what it was. -/
def restoreProjection (target snapshotId expectedAfterHash expectedBeforeHash : String)
    (normalizeNewOwner : Bool) : StateM (EngineState W) Bool := do
  match ← query (engine.loadSnapshot snapshotId) with
  | .error _ => pure false
  | .ok snapshot =>
    let result ← query <|
      if snapshot.record.originalExisted then
        engine.replace target snapshot.exactBytes snapshot.record.originalPermissions
          snapshot.record.originalOwner expectedAfterHash normalizeNewOwner
      else engine.remove target expectedAfterHash normalizeNewOwner
    match result with
    | .error _ => pure false
    | .ok () =>
      match ← query (engine.readConfigSource target) with
      | .error _ => pure false
      | .ok source => pure (engine.revisionHash target source == expectedBeforeHash)

/-- Put companions back, in the order given; whether that worked for all. -/
def restoreCompanions :
    List (PreparedFileProjection × SnapshotCreateResult) → StateM (EngineState W) Bool
  | [] => pure true
  | (companion, snapshot) :: companions => do
    let restored ← engine.restoreProjection companion.targetPath snapshot.record.snapshotId
      companion.expectedAfterHash companion.beforeHash (!companion.targetExisted)
    let others ← restoreCompanions companions
    pure (restored && others)

/-- `recover_files`: the target and the first so many companions were written. -/
def recoverFiles (plan : PreparedChangePlan) (snapshots : TransactionSnapshots)
    (writtenCompanions : ℕ) (error : TransactionFailure) :
    StateM (EngineState W) TransactionFailure := do
  let companions ← engine.restoreCompanions
    ((plan.companions.zip snapshots.companions).take writtenCompanions).reverse
  let primary ← engine.restoreProjection plan.view.targetConfigPath
    snapshots.primary.record.snapshotId plan.view.expectedAfterHash plan.view.beforeHash
    (!plan.view.targetExisted)
  -- the snapshots of a failed connection stay pinned until every file is read back
  engine.unpinFailedConnectionSnapshots plan snapshots.primary.record.snapshotId
    snapshots.companions
  pure <|
    if companions && primary then
      { error with recovery := .restored, recoveryReasonCode := none }
    else
      { error with
        recovery := .repairRequired
        recoveryReasonCode := some <|
          if primary then "companion_restore_failed_or_target_changed"
          else "restore_write_failed_or_target_changed" }

/-- Go on with the result of a call, or put everything back and stop. -/
def orRecover {ε α : Type} (plan : PreparedChangePlan) (snapshots : TransactionSnapshots)
    (stage : TransactionStage) (reasonCode : String) : Except ε α → Transaction W α
  | .ok a => pure a
  | .error _ => do
    throw (← engine.recoverFiles plan snapshots plan.companions.length
      (failure plan stage reasonCode))

/-! ## Writing -/

/-- Remove a file that is to be absent, replace any other. -/
def writeProjection (target beforeHash expectedAfterHash : String) (projectedBytes : Bytes)
    (owner : Option String) (world : W) : Except AtomicWriteFailure Unit × W :=
  if engine.revisionHash target .missing = expectedAfterHash then
    engine.remove target beforeHash false world
  else engine.replace target projectedBytes (some 0o600) owner beforeHash false world

def writePrimary (plan : PreparedChangePlan) (snapshots : TransactionSnapshots)
    (current : ConfigSource) : Transaction W Unit := do
  match ← ask (engine.writeProjection plan.view.targetConfigPath plan.view.beforeHash
      plan.view.expectedAfterHash plan.projectedBytes current.originalOwner) with
  | .ok () => pure ()
  | .error writeFailure =>
    let error := failure plan .targetWrite (atomicReason writeFailure.stage)
    if writeFailure.targetReplaced then
      throw (← engine.recoverFiles plan snapshots 0 error)
    else
      engine.unpinFailedConnectionSnapshots plan snapshots.primary.record.snapshotId
        snapshots.companions
      throw error

/-- Write the companions, of which `written` are. -/
def writeCompanions (plan : PreparedChangePlan) (snapshots : TransactionSnapshots)
    (written : ℕ) : List (PreparedFileProjection × ConfigSource) → Transaction W Unit
  | [] => pure ()
  | (companion, source) :: companions => do
    match ← ask (engine.writeProjection companion.targetPath companion.beforeHash
        companion.expectedAfterHash companion.projectedBytes source.originalOwner) with
    | .ok () => writeCompanions plan snapshots (written + 1) companions
    | .error writeFailure =>
      throw (← engine.recoverFiles plan snapshots
        (written + if writeFailure.targetReplaced then 1 else 0)
        (failure plan .targetWrite (atomicReason writeFailure.stage)))

/-! ## After the writes -/

/-- A file that was read back: its document, and the hash of what is there. -/
structure WrittenFile (Document : Type) where
  document : Document
  actualHash : String

def readBackPrimary (plan : PreparedChangePlan) (snapshots : TransactionSnapshots) :
    Transaction W (WrittenFile Document) := do
  let target := plan.view.targetConfigPath
  let source ← engine.orRecover plan snapshots .postWriteRead "post_write_read_failed"
    (← ask (engine.readConfigSource target))
  engine.orRecover plan snapshots .postWriteRead "after_hash_mismatch"
    (ensure (engine.revisionHash target (normalized plan.view.targetExisted source) =
      plan.view.expectedAfterHash) ())
  let document ← engine.orRecover plan snapshots .postWriteParse "post_write_parse_failed"
    (engine.documents.parseSourceBytes source.bytes? plan.format plan.label)
  engine.orRecover plan snapshots .postWriteSelfCheck "post_write_self_check_failed"
    (← ask (engine.verify target document))
  pure ⟨document, engine.revisionHash target source⟩

def readBackCompanions (plan : PreparedChangePlan) (snapshots : TransactionSnapshots) :
    List PreparedFileProjection → Transaction W (List (WrittenFile Document))
  | [] => pure []
  | companion :: companions => do
    let target := companion.targetPath
    let source ← engine.orRecover plan snapshots .postWriteRead "companion_post_write_read_failed"
      (← ask (engine.readConfigSource target))
    engine.orRecover plan snapshots .postWriteRead "companion_after_hash_mismatch"
      (ensure (engine.revisionHash target (normalized companion.targetExisted source) =
        companion.expectedAfterHash) ())
    let document ← engine.orRecover plan snapshots .postWriteParse
      "companion_post_write_parse_failed"
      (engine.documents.parseSourceBytes source.bytes? companion.format companion.label)
    engine.orRecover plan snapshots .postWriteSelfCheck "companion_post_write_self_check_failed"
      (← ask (engine.verify target document))
    let files ← readBackCompanions plan snapshots companions
    pure (⟨document, engine.revisionHash target source⟩ :: files)

/-! ## The record -/

def companionOwnership (key : MasterKey) (companion : PreparedFileProjection)
    (file : WrittenFile Document) (snapshot : SnapshotCreateResult) :
    Except String CompanionOwnership := do
  let macs ← computeOwnedValueMacs engine.documents file.document companion.ownedPaths key
  .ok {
    targetConfigPath := companion.targetPath
    documentFormat := some companion.format
    baselineSnapshotId := snapshot.record.snapshotId
    lastTransactionSnapshotId := snapshot.record.snapshotId
    beforeHash := companion.beforeHash
    managedAfterHash := file.actualHash
    ownedPaths := companion.ownedPaths
    sensitivePaths := some companion.sensitivePaths
    ownedValueMacs := macs }

def companionOwnerships (key : MasterKey) :
    List (PreparedFileProjection × WrittenFile Document × SnapshotCreateResult) →
    Except String (List CompanionOwnership)
  | [] => .ok []
  | (companion, file, snapshot) :: companions => do
    let owned ← engine.companionOwnership key companion file snapshot
    let others ← companionOwnerships key companions
    .ok (owned :: others)

/-- The record of a new connection. -/
def connectionRecord (plan : PreparedChangePlan) (snapshot : SnapshotCreateResult)
    (actualAfterHash : String) (macs : ValueMacs) (companions : List CompanionOwnership)
    (nowMs : ℕ) : OwnershipRecord where
  schemaVersion := 1
  revision := 0
  agentId := plan.view.agentId
  installationPath := plan.view.installationPath
  targetConfigPath := plan.view.targetConfigPath
  connectorId := plan.view.connectorId
  baselineSnapshotId := snapshot.record.snapshotId
  lastTransactionSnapshotId := snapshot.record.snapshotId
  beforeHash := plan.view.beforeHash
  managedAfterHash := actualAfterHash
  ownedPaths := plan.view.ownedPaths
  ownedValueMacs := macs
  companionFiles := companions
  acquiredAtMs := nowMs
  updatedAtMs := nowMs

/-- A companion of a record after a restore. -/
def restoredCompanion (projected : List CompanionOwnership) (companion : CompanionOwnership) :
    Except String CompanionOwnership :=
  match projected.find? fun projected ↦
      projected.targetConfigPath = companion.targetConfigPath with
  | none => .error "companion ownership projection missing"
  | some projected => .ok { companion with
      lastTransactionSnapshotId := projected.lastTransactionSnapshotId
      documentFormat := projected.documentFormat
      managedAfterHash := projected.managedAfterHash
      ownedPaths := projected.ownedPaths
      ownedValueMacs := projected.ownedValueMacs }

def restoredCompanions (projected : List CompanionOwnership) :
    List CompanionOwnership → Except String (List CompanionOwnership)
  | [] => .ok []
  | companion :: companions => do
    let restored ← restoredCompanion projected companion
    let others ← restoredCompanions projected companions
    .ok (restored :: others)

/-- The record of a connection after a restore. -/
def restoredRecord (plan : PreparedChangePlan) (record : OwnershipRecord)
    (snapshot : SnapshotCreateResult) (macs : ValueMacs) (companions : List CompanionOwnership)
    (nowMs : ℕ) : OwnershipRecord :=
  { record with
    lastTransactionSnapshotId := snapshot.record.snapshotId
    managedAfterHash := plan.view.expectedAfterHash
    ownedPaths := plan.view.ownedPaths
    ownedValueMacs := macs
    companionFiles := companions
    updatedAtMs := nowMs }

def commitRecord (plan : PreparedChangePlan) (snapshots : TransactionSnapshots)
    (actualAfterHash : String) (macs : ValueMacs) (companions : List CompanionOwnership)
    (nowMs : ℕ) (world : W) : Except String OwnershipRecord × W :=
  match plan.view.intent, plan.ownership with
  | .connect, _ => engine.commitOwnership
      (connectionRecord plan snapshots.primary actualAfterHash macs companions nowMs) none world
  | .disconnect, some binding =>
    if binding.disposition ≠ .remove then (.error "ownership disposition mismatch", world)
    else
      match engine.removeOwnership binding.record.key binding.record.revision world with
      | (.error error, world) => (.error error, world)
      | (.ok (), world) => (.ok { binding.record with revision := 0 }, world)
  | .restore, some binding =>
    if binding.disposition ≠ .update then (.error "ownership disposition mismatch", world)
    else
      match restoredCompanions companions binding.record.companionFiles with
      | .error error => (.error error, world)
      | .ok restored => engine.commitOwnership
          (restoredRecord plan binding.record snapshots.primary macs restored nowMs)
          (some binding.record.revision) world
  -- a plan without a record was refused before
  | _, none => (.error "ownership binding missing", world)

/-- After a disconnect the baselines are snapshots like any other. -/
def unpinBaselines (plan : PreparedChangePlan) (warning : Option String) :
    StateM (EngineState W) (Option String) :=
  match plan.view.intent, plan.ownership with
  | .disconnect, some binding => do
    let warning := match ← query (engine.setPinned binding.record.baselineSnapshotId false) with
      | .ok () => warning
      | .error _ => some "断开已成功，但基线快照取消固定失败"
    unpinCompanions warning binding.record.companionFiles
  | _, _ => pure warning
where
  unpinCompanions (warning : Option String) :
      List CompanionOwnership → StateM (EngineState W) (Option String)
    | [] => pure warning
    | companion :: companions => do
      let warning := match ← query (engine.setPinned companion.baselineSnapshotId false) with
        | .ok () => warning
        | .error _ => some "断开已成功，但 companion 基线快照取消固定失败"
      unpinCompanions warning companions

/-! ## The transaction -/

/-- Everything that is checked before the operation is consumed: the sources of the files. -/
def checkPlan (plan : PreparedChangePlan) : Transaction W (ConfigSource × List ConfigSource) := do
  let state ← get
  require plan .revision "operation_lock_poisoned" (!engine.operationLockPoisoned state.world)
  let active ← orFail plan .ownership "ownership_read_failed"
    (← ask (engine.loadOwnership plan.ownershipKey))
  matchOwnership plan active
  let current ← orFail plan .revision "target_read_failed"
    (← ask (engine.readConfigSource plan.view.targetConfigPath))
  require plan .revision "before_hash_changed"
    (engine.revisionHash plan.view.targetConfigPath current == plan.view.beforeHash)
  let companionCurrents ← engine.readCompanions plan plan.companions
  match plan.ownership with
  | none => pure ()
  | some binding => engine.checkOwnedValues plan binding.record current companionCurrents
  pure (current, companionCurrents)

def writeFiles (plan : PreparedChangePlan) (snapshots : TransactionSnapshots)
    (current : ConfigSource) (companionCurrents : List ConfigSource) : Transaction W Unit := do
  engine.writePrimary plan snapshots current
  engine.writeCompanions plan snapshots 0 (plan.companions.zip companionCurrents)

/-- Read everything back, and commit the record. -/
def commitWritten (plan : PreparedChangePlan) (snapshots : TransactionSnapshots) (nowMs : ℕ) :
    Transaction W OwnershipRecord := do
  let file ← engine.readBackPrimary plan snapshots
  let files ← engine.readBackCompanions plan snapshots plan.companions
  let key ← engine.orRecover plan snapshots .ownershipCommit "ownership_key_unavailable"
    (← ask engine.loadKey)
  let macs ← engine.orRecover plan snapshots .ownershipCommit "ownership_mac_failed"
    (computeOwnedValueMacs engine.documents file.document plan.view.ownedPaths key)
  let companions ← engine.orRecover plan snapshots .ownershipCommit
    "companion_ownership_mac_failed"
    (engine.companionOwnerships key (plan.companions.zip (files.zip snapshots.companions)))
  engine.orRecover plan snapshots .ownershipCommit "ownership_commit_failed"
    (← ask (engine.commitRecord plan snapshots file.actualHash macs companions nowMs))

def applyPrepared (plan : PreparedChangePlan) (confirmation : ConfirmedOperation)
    (admission : RuntimeAdmission) (nowMs : ℕ) : Transaction W TransactionOutcome := do
  validateConfirmation plan confirmation nowMs
  validateAdmission plan admission nowMs
  let (current, companionCurrents) ← engine.checkPlan plan
  engine.consume plan
  let snapshots ← engine.takeSnapshots plan current companionCurrents nowMs
  engine.writeFiles plan snapshots current companionCurrents
  let ownership ← engine.commitWritten plan snapshots nowMs
  let warning ← engine.unpinBaselines plan snapshots.primary.maintenanceWarning
  pure {
    operationId := plan.view.operationId
    agentId := plan.view.agentId
    targetConfigPath := plan.view.targetConfigPath
    beforeHash := plan.view.beforeHash
    afterHash := plan.view.expectedAfterHash
    snapshotId := snapshots.primary.record.snapshotId
    ownershipRevision := ownership.revision
    maintenanceWarning := warning }

/-- The entry for one intent. -/
def applyIntent (intent : PlanIntent) (plan : PreparedChangePlan)
    (confirmation : ConfirmedOperation) (admission : RuntimeAdmission) (nowMs : ℕ) :
    Transaction W TransactionOutcome := do
  require plan .admission "operation_intent_mismatch" (plan.view.intent == intent)
  engine.applyPrepared plan confirmation admission nowMs

def applyConnection := engine.applyIntent .connect

def applyDisconnect := engine.applyIntent .disconnect

def applySnapshotRestore := engine.applyIntent .restore

end TransactionEngine

end TokenStation
