import TokenStation.AgentIntegration.JsonDocument
import TokenStation.AgentIntegration.Snapshot
import TokenStation.Library.Keyed
import TokenStation.Library.Saturating

/-!
# Ownership records

A connection is on record as long as it is active: which files it changed, which values it wrote
there, as keyed digests, and which snapshots lead back to the files before it. The store keeps one
record for each agent, installation and target, and a revision that a writer must name.
-/

namespace TokenStation

open Library

inductive DocumentFormat where
  | json
  | json5
  | toml
  | yaml
  | dotenv
  deriving DecidableEq

/-- Digests of owned values, by the text of their path and in its order. -/
abbrev ValueMacs := List (String × String)

/-- A further file of a connection. -/
structure CompanionOwnership where
  targetConfigPath : String
  documentFormat : Option DocumentFormat
  baselineSnapshotId : String
  lastTransactionSnapshotId : String
  beforeHash : String
  managedAfterHash : String
  ownedPaths : List ConfigPath
  sensitivePaths : Option (List ConfigPath)
  ownedValueMacs : ValueMacs
  deriving DecidableEq

structure OwnershipKey where
  agentId : String
  installationPath : String
  targetConfigPath : String
  deriving DecidableEq

structure OwnershipRecord where
  schemaVersion : UInt32
  revision : ℕ
  agentId : String
  installationPath : String
  targetConfigPath : String
  connectorId : String
  baselineSnapshotId : String
  lastTransactionSnapshotId : String
  beforeHash : String
  managedAfterHash : String
  ownedPaths : List ConfigPath
  ownedValueMacs : ValueMacs
  companionFiles : List CompanionOwnership
  acquiredAtMs : ℕ
  updatedAtMs : ℕ
  deriving DecidableEq

namespace OwnershipRecord

def key (record : OwnershipRecord) : OwnershipKey :=
  ⟨record.agentId, record.installationPath, record.targetConfigPath⟩

end OwnershipRecord

/-- The order of the fields. -/
def OwnershipKey.order (key : OwnershipKey) : String ×ₗ String ×ₗ String :=
  toLex (key.agentId, toLex (key.installationPath, key.targetConfigPath))

/-- The largest revision. -/
def u64Max : ℕ := 18446744073709551615

/-! ## What a valid record is -/

/-- What is wrong with the part of a record that is about one file. -/
def invalidFile (baselineSnapshotId lastTransactionSnapshotId beforeHash managedAfterHash : String)
    (ownedPaths : List ConfigPath) (macs : ValueMacs) : Bool :=
  baselineSnapshotId.utf8ByteSize != 32 || lastTransactionSnapshotId.utf8ByteSize != 32
    || beforeHash.utf8ByteSize != 64 || managedAfterHash.utf8ByteSize != 64
    || ownedPaths.isEmpty || ownedPaths.length != macs.length
    || ownedPaths.any fun path ↦ !macs.any (·.1 == path.toText)

/-- The companions from the first on, none of which may repeat a target. -/
def validateCompanions (target : String) (seen : List String) :
    List CompanionOwnership → Except String Unit
  | [] => .ok ()
  | companion :: companions =>
    if companion.targetConfigPath.isEmpty || companion.targetConfigPath == target
        || seen.contains companion.targetConfigPath
        || invalidFile companion.baselineSnapshotId companion.lastTransactionSnapshotId
          companion.beforeHash companion.managedAfterHash companion.ownedPaths
          companion.ownedValueMacs then
      .error "ownership companion record 无效"
    else validateCompanions target (companion.targetConfigPath :: seen) companions

def ownershipSchemaVersion : UInt32 := 1

def validateRecord (record : OwnershipRecord) : Except String Unit :=
  if record.schemaVersion != ownershipSchemaVersion || record.agentId.isEmpty
      || record.installationPath.isEmpty || record.targetConfigPath.isEmpty
      || record.connectorId.isEmpty
      || invalidFile record.baselineSnapshotId record.lastTransactionSnapshotId record.beforeHash
        record.managedAfterHash record.ownedPaths record.ownedValueMacs then
    .error "ownership record 无效"
  else validateCompanions record.targetConfigPath [] record.companionFiles

/-! ## The store -/

/-- The content of the index file. -/
structure OwnershipIndex where
  schemaVersion : UInt32
  records : List OwnershipRecord
  deriving DecidableEq

/-- The records from the first on, none of which may repeat a key. -/
def validateOwnershipRecords (seen : List OwnershipKey) :
    List OwnershipRecord → Except String Unit
  | [] => .ok ()
  | record :: records =>
    match validateRecord record with
    | .error error => .error error
    | .ok () =>
      if record.key ∈ seen then .error "ownership 索引包含重复实例"
      else validateOwnershipRecords (record.key :: seen) records

def validateOwnershipIndex (index : OwnershipIndex) : Except String OwnershipIndex :=
  if index.schemaVersion ≠ 1 then .error "不支持的 ownership 索引 schema"
  else
    match validateOwnershipRecords [] index.records with
    | .error error => .error error
    | .ok () => .ok index

namespace FileOwnershipStore

/-- The active record of a key. -/
def activeRecord (index : OwnershipIndex) (key : OwnershipKey) : Option OwnershipRecord :=
  index.records.find? fun record ↦ record.key = key

def load (index : OwnershipIndex) (key : OwnershipKey) :
    Except String (Option OwnershipRecord) :=
  match validateOwnershipIndex index with
  | .error error => .error error
  | .ok index => .ok (activeRecord index key)

def listAgentInstallation (index : OwnershipIndex) (agentId installationPath : String) :
    Except String (List OwnershipRecord) :=
  match validateOwnershipIndex index with
  | .error error => .error error
  | .ok index => .ok (sortByKey OwnershipRecord.targetConfigPath
      (index.records.filter fun record ↦
        record.agentId = agentId ∧ record.installationPath = installationPath))

/-- The index with one more record. -/
def push (record : OwnershipRecord) (index : OwnershipIndex) : OwnershipRecord × OwnershipIndex :=
  (record, { index with
    records := sortByKey (fun record ↦ record.key.order) (index.records ++ [record]) })

/-- The index without the record of a key. -/
def dropKey (key : OwnershipKey) (index : OwnershipIndex) : OwnershipIndex :=
  { index with records := index.records.eraseP fun record ↦ record.key = key }

def commit (index : OwnershipIndex) (record : OwnershipRecord) (expectedRevision : Option ℕ) :
    Except String (OwnershipRecord × OwnershipIndex) :=
  match validateRecord record with
  | .error error => .error error
  | .ok () =>
    match validateOwnershipIndex index with
    | .error error => .error error
    | .ok index =>
      match activeRecord index record.key, expectedRevision with
      | none, none => .ok (push { record with revision := 1 } index)
      | some existing, some expected =>
        if existing.revision = expected then
          .ok (push { record with revision := satAdd u64Max expected 1 }
            (dropKey record.key index))
        else .error "ownership revision 已变化，必须重新预览"
      | some _, none => .error "该实例已有 active ownership"
      | none, some _ => .error "ownership revision 已变化，必须重新预览"

def remove (index : OwnershipIndex) (key : OwnershipKey) (expectedRevision : ℕ) :
    Except String OwnershipIndex :=
  match validateOwnershipIndex index with
  | .error error => .error error
  | .ok index =>
    match activeRecord index key with
    | none => .error "ownership 不存在"
    | some record =>
      if record.revision ≠ expectedRevision then .error "ownership revision 已变化，必须重新预览"
      else .ok (dropKey key index)

/-! ### What the calls do -/

theorem validateOwnershipRecords_iff {seen : List OwnershipKey} {records : List OwnershipRecord} :
    validateOwnershipRecords seen records = .ok () ↔
      (∀ record ∈ records, validateRecord record = .ok () ∧ record.key ∉ seen) ∧
        DistinctKeys OwnershipRecord.key records := by
  induction records generalizing seen with
  | nil => exact iff_of_true rfl ⟨fun _ hmem ↦ (nomatch hmem), List.nodup_nil⟩
  | cons record records ih =>
    rw [validateOwnershipRecords, List.forall_mem_cons, DistinctKeys.cons_iff]
    rcases validateRecord record with error | ⟨⟩
    · exact iff_of_false (fun h ↦ nomatch h) fun h ↦ nomatch h.1.1.1
    · by_cases hseen : record.key ∈ seen
      · simp only [if_pos hseen]
        exact iff_of_false (fun h ↦ nomatch h) fun h ↦ h.1.1.2 hseen
      · simp only [if_neg hseen, true_and]
        rw [ih]
        constructor
        · rintro ⟨hall, hdistinct⟩
          refine ⟨⟨hseen, fun other hother ↦ ?_⟩, fun other hother heq ↦ ?_, hdistinct⟩
          · obtain ⟨hvalid, hnot⟩ := hall other hother
            exact ⟨hvalid, fun hin ↦ hnot (List.mem_cons_of_mem _ hin)⟩
          · exact (hall other hother).2 (heq ▸ List.mem_cons_self)
        · rintro ⟨⟨-, hall⟩, hne, hdistinct⟩
          refine ⟨fun other hother ↦ ?_, hdistinct⟩
          obtain ⟨hvalid, hnot⟩ := hall other hother
          exact ⟨hvalid, fun hin ↦ (List.mem_cons.mp hin).elim (hne other hother) hnot⟩

/-- What every index that can be read is. -/
structure ValidIndex (index : OwnershipIndex) : Prop where
  schema : index.schemaVersion = 1
  records : ∀ record ∈ index.records, validateRecord record = .ok ()
  distinct : DistinctKeys OwnershipRecord.key index.records

theorem validateOwnershipIndex_eq_ok {index index' : OwnershipIndex} :
    validateOwnershipIndex index = .ok index' ↔ index' = index ∧ ValidIndex index := by
  rw [validateOwnershipIndex]
  by_cases hschema : index.schemaVersion = 1
  · rw [if_neg (not_not.mpr hschema)]
    rcases hrecords : validateOwnershipRecords [] index.records with error | ⟨⟩
    · refine iff_of_false (fun h ↦ nomatch h) fun h ↦ ?_
      have hok := validateOwnershipRecords_iff.mpr
        ⟨fun record hmem ↦ ⟨h.2.records record hmem, List.not_mem_nil⟩, h.2.distinct⟩
      rw [hrecords] at hok
      nomatch hok
    · obtain ⟨hall, hdistinct⟩ := validateOwnershipRecords_iff.mp hrecords
      constructor
      · intro h
        exact ⟨(Except.ok.inj h).symm, hschema, fun record hmem ↦ (hall record hmem).1, hdistinct⟩
      · rintro ⟨rfl, -⟩
        rfl
  · rw [if_pos hschema]
    exact iff_of_false (fun h ↦ nomatch h) fun h ↦ hschema h.2.schema

theorem load_eq_ok {index : OwnershipIndex} {key : OwnershipKey}
    {found : Option OwnershipRecord} :
    load index key = .ok found ↔ ValidIndex index ∧ found = activeRecord index key := by
  rw [load]
  rcases hvalid : validateOwnershipIndex index with error | index'
  · refine iff_of_false (fun h ↦ nomatch h) fun h ↦ ?_
    rw [validateOwnershipIndex_eq_ok.mpr ⟨rfl, h.1⟩] at hvalid
    nomatch hvalid
  · obtain ⟨rfl, hindex⟩ := validateOwnershipIndex_eq_ok.mp hvalid
    exact ⟨fun h ↦ ⟨hindex, (Except.ok.inj h).symm⟩, fun h ↦ congrArg Except.ok h.2.symm⟩

theorem activeRecord_eq_some {index : OwnershipIndex} (h : ValidIndex index) {key : OwnershipKey}
    {record : OwnershipRecord} :
    activeRecord index key = some record ↔ record ∈ index.records ∧ record.key = key :=
  h.distinct.find?_eq_some_iff

theorem activeRecord_eq_none {index : OwnershipIndex} {key : OwnershipKey} :
    activeRecord index key = none ↔ ∀ record ∈ index.records, record.key ≠ key :=
  find?_eq_none_iff

theorem mem_dropKey {index : OwnershipIndex} (h : ValidIndex index) {key : OwnershipKey}
    {record : OwnershipRecord} :
    record ∈ (dropKey key index).records ↔ record ∈ index.records ∧ record.key ≠ key :=
  h.distinct.mem_eraseP_iff

theorem ValidIndex.dropKey {index : OwnershipIndex} (h : ValidIndex index) (key : OwnershipKey) :
    ValidIndex (dropKey key index) where
  schema := h.schema
  records record hmem := h.records record ((mem_dropKey h).mp hmem).1
  distinct := h.distinct.eraseP

theorem mem_push {index : OwnershipIndex} {record other : OwnershipRecord} :
    other ∈ (push record index).2.records ↔ other ∈ index.records ∨ other = record := by
  rw [push, mem_sortByKey, List.mem_append, List.mem_singleton]

theorem ValidIndex.push {index : OwnershipIndex} (h : ValidIndex index) {record : OwnershipRecord}
    (hrecord : validateRecord record = .ok ())
    (hnew : ∀ other ∈ index.records, other.key ≠ record.key) :
    ValidIndex (push record index).2 where
  schema := h.schema
  records other hmem := (mem_push.mp hmem).elim (h.records other) fun heq ↦ heq ▸ hrecord
  distinct := (h.distinct.append_singleton hnew).of_perm (sortByKey_perm _ _)

/-- What a commit needs of the record that is there: nothing for a new one, its revision for the
next one of it. -/
def Replaces (existing : Option OwnershipRecord) (expectedRevision : Option ℕ)
    (revision : ℕ) : Prop :=
  existing = none ∧ expectedRevision = none ∧ revision = 1 ∨
    ∃ record, existing = some record ∧ expectedRevision = some record.revision ∧
      revision = satAdd u64Max record.revision 1

/-- An accepted commit: the record gets its revision and takes the place of the one of its key. -/
structure Committed (index : OwnershipIndex) (record : OwnershipRecord)
    (expectedRevision : Option ℕ) (stored : OwnershipRecord) (index' : OwnershipIndex) : Prop where
  valid : ValidIndex index
  valid' : ValidIndex index'
  stored_eq : stored = { record with revision := stored.revision }
  replaces : Replaces (activeRecord index record.key) expectedRevision stored.revision
  mem_iff : ∀ other, other ∈ index'.records ↔
    other = stored ∨ other ∈ index.records ∧ other.key ≠ record.key

theorem commit_eq_ok {index index' : OwnershipIndex} {record stored : OwnershipRecord}
    {expectedRevision : Option ℕ}
    (h : commit index record expectedRevision = .ok (stored, index')) :
    Committed index record expectedRevision stored index' := by
  rw [commit] at h
  split at h
  · nomatch h
  next hrecord =>
    split at h
    · nomatch h
    next index₀ hvalid =>
      obtain ⟨rfl, hindex⟩ := validateOwnershipIndex_eq_ok.mp hvalid
      split at h
      next hnone =>
        obtain ⟨rfl, rfl⟩ := Prod.mk.inj (Except.ok.inj h)
        have hnew := activeRecord_eq_none.mp hnone
        refine ⟨hindex, hindex.push hrecord hnew, rfl, Or.inl ⟨hnone, rfl, rfl⟩, fun other ↦ ?_⟩
        refine mem_push.trans ?_
        constructor
        · rintro (hmem | heq)
          · exact Or.inr ⟨hmem, hnew other hmem⟩
          · exact Or.inl heq
        · rintro (heq | hmem)
          · exact Or.inr heq
          · exact Or.inl hmem.1
      next existing expected hsome =>
        split at h
        next hrevision =>
          obtain ⟨rfl, rfl⟩ := Prod.mk.inj (Except.ok.inj h)
          have hdropped := hindex.dropKey record.key
          refine ⟨hindex, hdropped.push hrecord ?_, rfl, ?_, fun other ↦ ?_⟩
          · exact fun other hmem ↦ ((mem_dropKey hindex).mp hmem).2
          · exact Or.inr ⟨existing, hsome, by rw [hrevision], by rw [hrevision]⟩
          · refine mem_push.trans ?_
            rw [mem_dropKey hindex, or_comm]
        · nomatch h
      · nomatch h
      · nomatch h

/-- The record that was committed is the active one of its key, and no other key is touched. -/
theorem Committed.activeRecord {index index' : OwnershipIndex} {record stored : OwnershipRecord}
    {expectedRevision : Option ℕ} (h : Committed index record expectedRevision stored index')
    (key : OwnershipKey) :
    activeRecord index' key =
      if key = record.key then some stored else activeRecord index key := by
  have hkey : stored.key = record.key := by
    rw [h.stored_eq]
    rfl
  by_cases heq : key = record.key
  · rw [if_pos heq, activeRecord_eq_some h.valid', h.mem_iff]
    exact ⟨Or.inl rfl, hkey.trans heq.symm⟩
  · rw [if_neg heq]
    apply Option.ext
    intro other
    rw [activeRecord_eq_some h.valid', activeRecord_eq_some h.valid, h.mem_iff]
    constructor
    · rintro ⟨rfl | hmem, hother⟩
      · exact absurd (hother.symm.trans hkey) heq
      · exact ⟨hmem.1, hother⟩
    · rintro ⟨hmem, hother⟩
      exact ⟨Or.inr ⟨hmem, fun hrecord ↦ heq (hother.symm.trans hrecord)⟩, hother⟩

/-- An accepted removal: the record of the key had the revision, and only it goes. -/
structure Removed (index : OwnershipIndex) (key : OwnershipKey) (expectedRevision : ℕ)
    (index' : OwnershipIndex) : Prop where
  valid : ValidIndex index
  valid' : ValidIndex index'
  existed : ∃ record, activeRecord index key = some record ∧ record.revision = expectedRevision
  mem_iff : ∀ other, other ∈ index'.records ↔ other ∈ index.records ∧ other.key ≠ key

theorem remove_eq_ok {index index' : OwnershipIndex} {key : OwnershipKey} {expectedRevision : ℕ}
    (h : remove index key expectedRevision = .ok index') :
    Removed index key expectedRevision index' := by
  rw [remove] at h
  split at h
  · nomatch h
  next index₀ hvalid =>
    obtain ⟨rfl, hindex⟩ := validateOwnershipIndex_eq_ok.mp hvalid
    split at h
    · nomatch h
    next record hsome =>
      split at h
      · nomatch h
      next hrevision =>
        obtain rfl := Except.ok.inj h
        exact ⟨hindex, hindex.dropKey key, ⟨record, hsome, not_not.mp hrevision⟩,
          fun other ↦ mem_dropKey hindex⟩

theorem Removed.activeRecord {index index' : OwnershipIndex} {key : OwnershipKey}
    {expectedRevision : ℕ} (h : Removed index key expectedRevision index') (other : OwnershipKey) :
    activeRecord index' other = if other = key then none else activeRecord index other := by
  by_cases heq : other = key
  · rw [if_pos heq, activeRecord_eq_none]
    intro record hmem hkey
    exact ((h.mem_iff record).mp hmem).2 (hkey.trans heq)
  · rw [if_neg heq]
    apply Option.ext
    intro record
    rw [activeRecord_eq_some h.valid', activeRecord_eq_some h.valid, h.mem_iff]
    constructor
    · exact fun hrecord ↦ ⟨hrecord.1.1, hrecord.2⟩
    · exact fun hrecord ↦ ⟨⟨hrecord.1, fun hkey ↦ heq (hrecord.2.symm.trans hkey)⟩, hrecord.2⟩

end FileOwnershipStore

end TokenStation
