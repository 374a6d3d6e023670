import TokenStation.AgentIntegration.Transaction
import TokenStation.Library.Exits

/-!
# What the steps of a transaction do

The world is looked at through its files, its ownership index and its snapshots. Most calls change
none of them. What a transaction does to the snapshots is followed by two predicates that the user
of these lemmas chooses: `strong` for the time when the new snapshots are all there, and `base` for
the time after some of them were unpinned.
-/

namespace TokenStation

open Library TransactionEngine

/-- What can be seen of the world. -/
structure Disk (V : Type) where
  files : String → ConfigSource
  ownership : OwnershipIndex
  snapshots : V

variable {Document W V : Type}

/-- A predicate on the disk, of the state of an engine. -/
def OnDisk (disk : W → Disk V) (p : Disk V → Prop) (state : EngineState W) : Prop :=
  p (disk state.world)

/-- A call that changes nothing. -/
def LeavesDisk {α : Type} (disk : W → Disk V) (call : W → α × W) : Prop :=
  ∀ world, disk (call world).2 = disk world

/-- A call that changes the snapshots at most. -/
def KeepsFiles {α : Type} (disk : W → Disk V) (call : W → α × W) : Prop :=
  ∀ world, (disk (call world).2).files = (disk world).files ∧
    (disk (call world).2).ownership = (disk world).ownership

/-- What reading a target shows after some bytes, permissions and an owner were written to it. -/
abbrev Placing := String → Bytes → Option UInt32 → Option String → ConfigSource

/-- What a write leaves behind, if it fails before the target is replaced or not. -/
def WriteEffect (disk : W → Disk V) (target : String) (source : ConfigSource)
    (call : W → Except AtomicWriteFailure Unit × W) : Prop :=
  ∀ world,
    disk (call world).2 =
      match (call world).1 with
      | .ok () => { disk world with files := Function.update (disk world).files target source }
      | .error writeFailure =>
        if writeFailure.targetReplaced then
          { disk world with files := Function.update (disk world).files target source }
        else disk world

/-- What the calls of a transaction promise: no one else writes, a writer writes its target and
nothing else, and a store whose call fails is as it was. -/
structure Contract (engine : TransactionEngine Document W) (disk : W → Disk V)
    (placed : Placing) : Prop where
  readConfigSource : ∀ target, LeavesDisk disk (engine.readConfigSource target)
  read_ok : ∀ {target world source}, (engine.readConfigSource target world).1 = .ok source →
    source = (disk world).files target
  createSnapshot : ∀ request, KeepsFiles disk (engine.createSnapshot request)
  loadSnapshot : ∀ snapshotId, LeavesDisk disk (engine.loadSnapshot snapshotId)
  setPinned : ∀ snapshotId pinned, KeepsFiles disk (engine.setPinned snapshotId pinned)
  loadOwnership : ∀ key, LeavesDisk disk (engine.loadOwnership key)
  load_ok : ∀ {key world found}, (engine.loadOwnership key world).1 = .ok found →
    FileOwnershipStore.load (disk world).ownership key = .ok found
  commitOwnership : ∀ record expected world,
    match engine.commitOwnership record expected world with
    | (.ok stored, world') => ∃ index,
        FileOwnershipStore.commit (disk world).ownership record expected = .ok (stored, index) ∧
          disk world' = { disk world with ownership := index }
    | (.error _, world') => disk world' = disk world
  removeOwnership : ∀ key expected world, match engine.removeOwnership key expected world with
    | (.ok (), world') => ∃ index,
        FileOwnershipStore.remove (disk world).ownership key expected = .ok index ∧
          disk world' = { disk world with ownership := index }
    | (.error _, world') => disk world' = disk world
  loadKey : LeavesDisk disk engine.loadKey
  replace : ∀ target bytes permissions owner expected normalize,
    WriteEffect disk target (placed target bytes permissions owner)
      (engine.replace target bytes permissions owner expected normalize)
  remove : ∀ target expected normalize,
    WriteEffect disk target .missing (engine.remove target expected normalize)
  verify : ∀ target document, LeavesDisk disk (engine.verify target document)
  nowMs : LeavesDisk disk engine.nowMs

/-- What a transaction keeps of the snapshots: predicates on the records that it has made, and what
a record has to do with the target of its request. -/
structure Keeping (engine : TransactionEngine Document W) (disk : W → Disk V)
    (plan : PreparedChangePlan) (ofTarget : String → SnapshotRecord → Prop)
    (strong base : List SnapshotRecord → V → Prop) : Prop where
  base_of_strong : ∀ {made snapshots}, strong made snapshots → base made snapshots
  create : ∀ request {made world}, request.operationId = plan.view.operationId →
    request.agentId = plan.view.agentId → request.pinned = decide (plan.view.intent = .connect) →
    strong made (disk world).snapshots →
    match engine.createSnapshot request world with
    | (.ok created, world') => ofTarget request.targetConfigPath created.record ∧
        strong (made ++ [created.record]) (disk world').snapshots
    | (.error _, world') => strong made (disk world').snapshots
  unpin : ∀ {made snapshotId world}, snapshotId ∈ made.map SnapshotRecord.snapshotId →
    base made (disk world).snapshots →
      base made (disk (engine.setPinned snapshotId false world).2).snapshots

/-! ## Rules -/

section Rules

variable {α : Type} {disk : W → Disk V}

theorem triple_query {call : W → α × W} {p : Disk V → Prop} {q : α → Disk V → Prop}
    (h : ∀ world, p (disk world) → q (call world).1 (disk (call world).2)) :
    Triple (OnDisk disk p) (query call) fun a ↦ OnDisk disk (q a) :=
  fun state hstate ↦ h state.world hstate

theorem triple_quiet {call : W → α × W} (hquiet : LeavesDisk disk call) {p : Disk V → Prop} :
    Triple (OnDisk disk p) (query call) fun _ ↦ OnDisk disk p :=
  triple_query fun world hworld ↦ by rwa [hquiet world]

variable {error : TransactionFailure → EngineState W → Prop}

theorem exits_ask {call : W → α × W} {p : Disk V → Prop} {q : α → Disk V → Prop}
    (h : ∀ world, p (disk world) → q (call world).1 (disk (call world).2)) :
    Exits (OnDisk disk p) (ask call) (fun a ↦ OnDisk disk (q a)) error :=
  Exits.lift (triple_query h)

theorem exits_quiet {call : W → α × W} (hquiet : LeavesDisk disk call) {p : Disk V → Prop} :
    Exits (OnDisk disk p) (ask call) (fun _ ↦ OnDisk disk p) error :=
  Exits.lift (triple_quiet hquiet)

/-- Reading a file of which it is known what it holds. -/
theorem exits_read {engine : TransactionEngine Document W} {placed : Placing}
    (contract : Contract engine disk placed) {target : String} {source : ConfigSource}
    {p : Disk V → Prop} (hfile : ∀ now, p now → now.files target = source) :
    Exits (OnDisk disk p) (ask (engine.readConfigSource target))
      (fun result state ↦ (∀ read, result = .ok read → read = source) ∧ OnDisk disk p state)
      error := by
  refine Exits.lift fun state hstate ↦ ⟨fun read hread ↦ ?_, ?_⟩
  · rw [contract.read_ok hread, hfile _ hstate]
  · exact triple_quiet (contract.readConfigSource target) state hstate

theorem exits_orFail {ε : Type} {plan : PreparedChangePlan} {stage : TransactionStage}
    {reasonCode : String} {result : Except ε α} {p : EngineState W → Prop}
    (herror : ∀ state, p state → error (failure plan stage reasonCode) state) :
    Exits p (orFail plan stage reasonCode result) (fun a state ↦ result = .ok a ∧ p state)
      error := by
  rcases result with e | a
  · exact Exits.throw herror
  · exact Exits.pure fun state hstate ↦ ⟨rfl, hstate⟩

theorem exits_require {plan : PreparedChangePlan} {stage : TransactionStage}
    {reasonCode : String} {condition : Bool} {p : EngineState W → Prop}
    (herror : ∀ state, p state → error (failure plan stage reasonCode) state) :
    Exits p (require plan stage reasonCode condition) (fun _ state ↦ condition = true ∧ p state)
      error := by
  refine Exits.ite (fun hcondition ↦ ?_) fun _ ↦ Exits.throw herror
  exact Exits.pure fun state hstate ↦ ⟨hcondition, hstate⟩

end Rules

/-! ## The files of a plan -/

namespace PreparedChangePlan

/-- What a plan does to its target, in the form of a companion. -/
def primary (plan : PreparedChangePlan) : PreparedFileProjection where
  targetPath := plan.view.targetConfigPath
  targetExisted := plan.view.targetExisted
  beforeHash := plan.view.beforeHash
  expectedAfterHash := plan.view.expectedAfterHash
  projectedBytes := plan.projectedBytes
  format := plan.format
  label := plan.label
  ownedPaths := plan.view.ownedPaths
  sensitivePaths := []

/-- The target, and the companions in their order. -/
def files (plan : PreparedChangePlan) : List PreparedFileProjection :=
  plan.primary :: plan.companions

end PreparedChangePlan

section Files

variable (engine : TransactionEngine Document W) (placed : Placing)

/-- What writing a projection leaves at its target. -/
def projectedSource (projection : PreparedFileProjection) (owner : Option String) :
    ConfigSource :=
  if engine.revisionHash projection.targetPath .missing = projection.expectedAfterHash then
    .missing
  else placed projection.targetPath projection.projectedBytes (some 0o600) owner

/-- One file written; the owner is the one before the transaction. -/
def writtenFile (before files : String → ConfigSource) (projection : PreparedFileProjection) :
    String → ConfigSource :=
  Function.update files projection.targetPath
    (projectedSource engine placed projection (before projection.targetPath).originalOwner)

/-- The files after some projections were written, in their order. -/
def writtenFiles (before : String → ConfigSource) (projections : List PreparedFileProjection) :
    String → ConfigSource :=
  projections.foldl (writtenFile engine placed before) before

theorem writtenFiles_append_singleton (before : String → ConfigSource)
    (projections : List PreparedFileProjection) (projection : PreparedFileProjection) :
    writtenFiles engine placed before (projections ++ [projection]) =
      writtenFile engine placed before (writtenFiles engine placed before projections)
        projection := by
  rw [writtenFiles, List.foldl_append]
  rfl

/-- Nothing else is written. -/
theorem writtenFiles_of_notMem {before : String → ConfigSource}
    {projections : List PreparedFileProjection} {target : String}
    (h : target ∉ projections.map PreparedFileProjection.targetPath) :
    writtenFiles engine placed before projections target = before target := by
  induction projections using List.reverseRecOn with
  | nil => rfl
  | append_singleton projections projection ih =>
    rw [List.map_append, List.mem_append, not_or, List.map_singleton, List.mem_singleton] at h
    rw [writtenFiles_append_singleton, writtenFile, Function.update_of_ne h.2, ih h.1]

/-- The revision of a file as the transaction sees it. -/
def SameRevision (files before : String → ConfigSource) (target : String) : Prop :=
  engine.revisionHash target (files target) = engine.revisionHash target (before target)

end Files

end TokenStation
