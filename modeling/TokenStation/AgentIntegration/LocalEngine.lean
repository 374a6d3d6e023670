import TokenStation.AgentIntegration.PlainCodec
import TokenStation.AgentIntegration.TransactionSteps

/-!
# The engine of a desktop

The stores and the writer that the program itself uses, on a desktop where no call of the system
fails and no one else writes.
-/

namespace TokenStation

open Library

/-- The state of a desktop. -/
structure Desktop where
  files : String → ConfigSource
  ownership : OwnershipIndex
  snapshots : FileSnapshotStore
  /-- The random numbers that are still to be drawn. -/
  draws : ℕ → SnapshotDraws
  nowMs : ℕ

/-- What the engine of a desktop is made of. -/
structure LocalSetup (Document : Type) where
  documents : Documents Document
  codec : SnapshotCodec
  appVersion : String
  /-- The owner of the files that the process makes. -/
  processOwner : String

namespace LocalSetup

variable {Document : Type} (setup : LocalSetup Document)

/-- `apply_metadata`: a file that is given no owner belongs to the process. -/
def placed : Placing := fun _ bytes permissions owner ↦
  ⟨true, bytes, some (permissions.getD 0o600), some (owner.getD setup.processOwner)⟩

/-- `verify_revision`. -/
def revisionUnchanged (desktop : Desktop) (target expectedHash : String)
    (normalizeNewOwner : Bool) : Bool :=
  let source := desktop.files target
  let source := if normalizeNewOwner then { source with originalOwner := none } else source
  fileRevisionHash setup.codec.sha256 target source == expectedHash

/-- `FsAtomicConfigWriter::replace`. -/
def replace (target : String) (bytes : Bytes) (permissions : Option UInt32)
    (owner : Option String) (expectedCurrentHash : String) (normalizeNewOwner : Bool)
    (desktop : Desktop) : Except AtomicWriteFailure Unit × Desktop :=
  if setup.revisionUnchanged desktop target expectedCurrentHash normalizeNewOwner then
    (.ok (), { desktop with
      files := Function.update desktop.files target
        (setup.placed target bytes permissions owner) })
  else (.error ⟨.preReplaceRevision, false⟩, desktop)

/-- `FsAtomicConfigWriter::remove`: a file that does not exist cannot be removed. -/
def remove (target expectedCurrentHash : String) (normalizeNewOwner : Bool) (desktop : Desktop) :
    Except AtomicWriteFailure Unit × Desktop :=
  if setup.revisionUnchanged desktop target expectedCurrentHash normalizeNewOwner then
    if (desktop.files target).existed then
      (.ok (), { desktop with files := Function.update desktop.files target .missing })
    else (.error ⟨.remove, false⟩, desktop)
  else (.error ⟨.preReplaceRevision, false⟩, desktop)

def createSnapshot (request : SnapshotRequest) (desktop : Desktop) :
    Except String SnapshotCreateResult × Desktop :=
  let outcome := FileSnapshotStore.create setup.codec desktop.snapshots request (desktop.draws 0)
  (outcome.1.map fun record ↦ ⟨record, none⟩,
    { desktop with snapshots := outcome.2, draws := fun n ↦ desktop.draws (n + 1) })

def setPinned (snapshotId : String) (pinned : Bool) (desktop : Desktop) :
    Except String Unit × Desktop :=
  let outcome := FileSnapshotStore.setPinned setup.codec desktop.snapshots snapshotId pinned
  (outcome.1, { desktop with snapshots := outcome.2 })

def commitOwnership (record : OwnershipRecord) (expectedRevision : Option ℕ)
    (desktop : Desktop) : Except String OwnershipRecord × Desktop :=
  match FileOwnershipStore.commit desktop.ownership record expectedRevision with
  | .error error => (.error error, desktop)
  | .ok (stored, index) => (.ok stored, { desktop with ownership := index })

def removeOwnership (key : OwnershipKey) (expectedRevision : ℕ) (desktop : Desktop) :
    Except String Unit × Desktop :=
  match FileOwnershipStore.remove desktop.ownership key expectedRevision with
  | .error error => (.error error, desktop)
  | .ok index => (.ok (), { desktop with ownership := index })

/-- The engine with the stores of the program; the verifier accepts every document. -/
def engine : TransactionEngine Document Desktop where
  documents := setup.documents
  sha256 := setup.codec.sha256
  appVersion := setup.appVersion
  operationLockPoisoned _ := false
  consumedPoisoned _ := false
  readConfigSource target desktop := (.ok (desktop.files target), desktop)
  createSnapshot := setup.createSnapshot
  loadSnapshot snapshotId desktop :=
    (FileSnapshotStore.load setup.codec desktop.snapshots snapshotId, desktop)
  setPinned := setup.setPinned
  loadOwnership key desktop := (FileOwnershipStore.load desktop.ownership key, desktop)
  commitOwnership := commitOwnership
  removeOwnership := removeOwnership
  loadKey desktop := (desktop.snapshots.loadKey, desktop)
  replace := setup.replace
  remove := setup.remove
  verify _ _ desktop := (.ok (), desktop)
  nowMs desktop := (desktop.nowMs, desktop)

end LocalSetup

/-- What a transaction sees of a desktop. -/
def Desktop.disk (desktop : Desktop) : Disk FileSnapshotStore :=
  ⟨desktop.files, desktop.ownership, desktop.snapshots⟩

namespace LocalSetup

variable {Document : Type} (setup : LocalSetup Document)

theorem commitOwnership_engine : setup.engine.commitOwnership = commitOwnership := rfl

theorem removeOwnership_engine : setup.engine.removeOwnership = removeOwnership := rfl

theorem replace_engine : setup.engine.replace = setup.replace := rfl

theorem remove_engine : setup.engine.remove = setup.remove := rfl

/-- The calls keep their promises. -/
theorem contract : Contract setup.engine Desktop.disk setup.placed where
  readConfigSource _ _ := rfl
  read_ok h := (Except.ok.inj h).symm
  createSnapshot _ _ := ⟨rfl, rfl⟩
  loadSnapshot _ _ := rfl
  setPinned _ _ _ := ⟨rfl, rfl⟩
  loadOwnership _ _ := rfl
  load_ok h := h
  commitOwnership record expected desktop := by
    rw [commitOwnership_engine, commitOwnership]
    rcases hcommit : FileOwnershipStore.commit desktop.ownership record expected with
      error | ⟨stored, index⟩
    · rfl
    · exact ⟨index, hcommit, rfl⟩
  removeOwnership key expected desktop := by
    rw [removeOwnership_engine, removeOwnership]
    rcases hremove : FileOwnershipStore.remove desktop.ownership key expected with error | index
    · rfl
    · exact ⟨index, hremove, rfl⟩
  loadKey _ := rfl
  replace target bytes permissions owner expected normalize desktop := by
    rw [replace_engine, replace]
    split <;> rfl
  remove target expected normalize desktop := by
    rw [remove_engine, remove]
    split
    · split <;> rfl
    · rfl
  verify _ _ _ := rfl
  nowMs _ := rfl

end LocalSetup

/-! ## A desktop that runs -/

/-- A configuration with a model, and one without. -/
def withModel : Bytes := textBytes "\x7b\"model\":\"m\"\x7d"

def withoutModel : Bytes := textBytes "\x7b\x7d"

/-- These two configurations, and that of no file. -/
def plainDocuments : Documents JsonValue where
  parseSourceBytes
    | none, _, _ => .ok (.object [])
    | some bytes, _, label =>
      if bytes = withoutModel then .ok (.object [])
      else if bytes = withModel then .ok (.object [("model", .string "m")])
      else .error label
  semanticJson := .ok
  jsonBytes
    | .string text => .ok (textBytes ("\"" ++ text ++ "\""))
    | _ => .error "json"
  hmacSha256 key bytes := checksum (key.toList ++ bytes)

def plainSetup : LocalSetup JsonValue where
  documents := plainDocuments
  codec := plainCodec
  appVersion := "1.0.0"
  processOwner := "501:20"

namespace Desktop

/-- A desktop before its first connection; its random ids count up. -/
def fresh : Desktop where
  files _ := .missing
  ownership := ⟨1, []⟩
  snapshots := .empty
  draws n := ⟨Vector.replicate 32 0, [Vector.replicate 16 (UInt8.ofNat n)], Vector.replicate 12 0⟩
  nowMs := 0

end Desktop

/-- The configuration file of the plans below. -/
def codexConfig : String := "/home/u/.codex/config.json"

/-- A file as the writer leaves it, of a known owner or of one that is not known yet. -/
def codexSource (bytes : Bytes) (owner : Option String) : ConfigSource :=
  ⟨true, bytes, some 0o600, owner⟩

def codexHash (source : ConfigSource) : String :=
  fileRevisionHash plainCodec.sha256 codexConfig source

/-- A plan for the model of one file. -/
def codexPlan (operationId : String) (intent : PlanIntent) (before after : ConfigSource)
    (bytes : Bytes) (ownership : Option PlanOwnershipBinding) : PreparedChangePlan where
  view := {
    operationId := operationId
    intent := intent
    agentId := "codex"
    installationPath := "/usr/bin/codex"
    targetConfigPath := codexConfig
    targetExisted := before.existed
    beforeHash := codexHash before
    expectedAfterHash := codexHash after
    ownedPaths := [⟨["model"]⟩]
    connectorId := "codex"
    compatibilityStatus := .detectedVerified
    compatibilitySequence := 1
    compatibilityExpiresAtMs := none
    createdAtMs := 0
    expiresAtMs := 300000
    requiredConfirmations := [.installation, .targetConfig, .configurationDiff] }
  projectedBytes := bytes
  format := .json
  label := "codex"
  ownership := ownership
  companions := []

/-- Confirm a plan and apply it. -/
def applyOn (plan : PreparedChangePlan) (state : EngineState Desktop) :
    Except TransactionFailure TransactionOutcome × EngineState Desktop :=
  plainSetup.engine.applyPrepared plan
    ⟨plan.view.operationId, 0, [.installation, .targetConfig, .configurationDiff]⟩
    ⟨1, .detectedVerified⟩ 0 state

/-- A plan that connects, and makes the file. -/
def creating : PreparedChangePlan :=
  codexPlan "op" .connect .missing (codexSource withModel none) withModel none

def afterCreating : EngineState Desktop := (applyOn creating ⟨.fresh, []⟩).2

/-- The active record as a plan holds it. -/
def bindingIn (state : EngineState Desktop) (disposition : OwnershipDisposition) :
    Option PlanOwnershipBinding :=
  (FileOwnershipStore.activeRecord state.world.ownership creating.ownershipKey).map fun record ↦
    ⟨record, disposition⟩

/-- A plan that restores the state before the connection, in which there was no file. -/
def removing : PreparedChangePlan :=
  codexPlan "op2" .restore (codexSource withModel (some "501:20")) .missing withoutModel
    (bindingIn afterCreating .update)

def afterRemoving : EngineState Desktop := (applyOn removing afterCreating).2

end TokenStation
