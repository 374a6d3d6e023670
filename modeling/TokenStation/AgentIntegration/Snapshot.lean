import TokenStation.Library.Hex
import TokenStation.Library.SortByKey
import Mathlib.Data.List.Dedup
import Mathlib.Data.Prod.Lex
import Mathlib.Data.String.Basic

/-!
# Configuration sources and snapshot records

A snapshot keeps the exact bytes of a configuration file as they were before a transaction wrote
it. The index of records is bounded: records that are not pinned are dropped after a week, and of
those of one agent and target only the five newest are kept.
-/

namespace TokenStation

open Library

abbrev Bytes := List UInt8

/-- The bytes of a text. -/
def textBytes (text : String) : Bytes := text.toUTF8.data.toList

/-- The state of a configuration file. -/
structure ConfigSource where
  existed : Bool
  exactBytes : Bytes
  originalPermissions : Option UInt32
  originalOwner : Option String
  deriving DecidableEq

namespace ConfigSource

def missing : ConfigSource := ⟨false, [], none, none⟩

end ConfigSource

/-! ## Revisions -/

/-- `u64::to_be_bytes` and its like, on `width` bytes. -/
def beBytes : ℕ → ℕ → Bytes
  | 0, _ => []
  | width + 1, n => beBytes width (n / 256) ++ [UInt8.ofNat n]

/-- A field with its length in front. -/
def hashField (bytes : Bytes) : Bytes := beBytes 8 bytes.length ++ bytes

/-- What `file_revision_hash` hashes. -/
def revisionPreimage (path : String) (source : ConfigSource) : Bytes :=
  textBytes "token-station-config-revision-v1\x00" ++ hashField (textBytes path)
    ++ [if source.existed then 1 else 0]
    ++ beBytes 4 (source.originalPermissions.getD (UInt32.ofNat (2 ^ 32 - 1))).toNat
    ++ hashField (textBytes (source.originalOwner.getD ""))
    ++ hashField source.exactBytes

/-- `file_revision_hash`, with the digest as it is printed. -/
def fileRevisionHash (sha256 : Bytes → String) (path : String) (source : ConfigSource) : String :=
  sha256 (revisionPreimage path source)

/-! ## Records -/

structure SnapshotRecord where
  schemaVersion : UInt32
  snapshotId : String
  operationId : String
  agentId : String
  targetConfigPath : String
  envelopeHash : String
  beforeHash : String
  originalExisted : Bool
  originalPermissions : Option UInt32
  originalOwner : Option String
  createdAtMs : ℕ
  connectorId : String
  appVersion : String
  pinned : Bool
  deriving DecidableEq

def snapshotSchemaVersion : UInt32 := 1

def retainUnpinnedPerTarget : ℕ := 5

/-- Seven days. -/
def snapshotRetentionMs : ℕ := 7 * 24 * 60 * 60 * 1000

def validateId (value : String) : Except String Unit :=
  if value.utf8ByteSize = 32 ∧ value.toList.all Hex.isDigit then .ok ()
  else .error "snapshot ID 无效"

def validateAgentId (value : String) : Except String Unit :=
  if !value.isEmpty && decide (value.utf8ByteSize ≤ 128)
      && value.toList.all fun c ↦ c.isAlphanum || c == '-' || c == '_' then
    .ok ()
  else .error "Agent ID 无效"

/-- The records of an index file. -/
structure SnapshotIndex where
  schemaVersion : UInt32
  records : List SnapshotRecord
  deriving DecidableEq

def indexSchemaVersion : UInt32 := 1

/-- The records from the first on, none of which may repeat an id. -/
def validateRecords (seen : List String) : List SnapshotRecord → Except String Unit
  | [] => .ok ()
  | record :: records => do
    validateId record.snapshotId
    validateAgentId record.agentId
    if record.schemaVersion ≠ snapshotSchemaVersion ∨ record.snapshotId ∈ seen then
      .error "快照索引包含无效或重复记录"
    else validateRecords (record.snapshotId :: seen) records

def validateIndex (index : SnapshotIndex) : Except String SnapshotIndex := do
  if index.schemaVersion ≠ indexSchemaVersion then .error "不支持的快照索引 schema"
  else
    validateRecords [] index.records
    .ok index

/-! ## Retention -/

/-- Newest first, and of one time the larger id first. -/
def newestKey (createdAtMs : ℕ) (snapshotId : String) : ℕᵒᵈ ×ₗ Stringᵒᵈ :=
  toLex (OrderDual.toDual createdAtMs, OrderDual.toDual snapshotId)

def SnapshotRecord.key (record : SnapshotRecord) : ℕᵒᵈ ×ₗ Stringᵒᵈ :=
  newestKey record.createdAtMs record.snapshotId

/-- Whether a record is old enough to go. -/
def SnapshotRecord.expired (now : Option ℕ) (record : SnapshotRecord) : Bool :=
  !record.pinned && now.any fun now ↦ decide (snapshotRetentionMs ≤ now - record.createdAtMs)

/-- The records that count against the bound of an agent and target. -/
def unpinnedOf (agentId targetConfigPath : String) (records : List SnapshotRecord) :
    List SnapshotRecord :=
  records.filter fun record ↦
    !record.pinned && record.agentId == agentId && record.targetConfigPath == targetConfigPath

/-- The ids of the records that `prune` removes. -/
def pruneIds (now : Option ℕ) (records : List SnapshotRecord) : List String :=
  let expired := (records.filter (SnapshotRecord.expired now)).map (·.snapshotId)
  let groups := (records.map fun record ↦ (record.agentId, record.targetConfigPath)).dedup
  expired ++ groups.flatMap fun group ↦
    ((sortByKey SnapshotRecord.key (unpinnedOf group.1 group.2 records)).drop
      retainUnpinnedPerTarget).map (·.snapshotId)

/-- The records that are left. -/
def retained (now : Option ℕ) (records : List SnapshotRecord) : List SnapshotRecord :=
  records.filter fun record ↦ record.snapshotId ∉ pruneIds now records

/-- No id twice. -/
def DistinctIds (records : List SnapshotRecord) : Prop := (records.map (·.snapshotId)).Nodup

theorem validateRecords_iff {seen : List String} {records : List SnapshotRecord} :
    validateRecords seen records = .ok () ↔
      (∀ record ∈ records, validateId record.snapshotId = .ok () ∧
        validateAgentId record.agentId = .ok () ∧ record.schemaVersion = snapshotSchemaVersion ∧
        record.snapshotId ∉ seen) ∧ DistinctIds records := by
  induction records generalizing seen with
  | nil =>
    refine iff_of_true rfl ⟨fun record hmem ↦ (nomatch hmem), List.nodup_nil⟩
  | cons record records ih =>
    have hdistinct : DistinctIds (record :: records) ↔
        (∀ other ∈ records, other.snapshotId ≠ record.snapshotId) ∧ DistinctIds records := by
      rw [DistinctIds, List.map_cons, List.nodup_cons, List.mem_map, DistinctIds]
      simp only [not_exists, not_and]
    rw [validateRecords, List.forall_mem_cons, hdistinct]
    rcases validateId record.snapshotId with error | ⟨⟩
    · simp [Bind.bind, Except.bind]
    · rcases validateAgentId record.agentId with error | ⟨⟩
      · simp [Bind.bind, Except.bind]
      · simp only [Bind.bind, Except.bind, true_and]
        by_cases hbad : record.schemaVersion ≠ snapshotSchemaVersion ∨ record.snapshotId ∈ seen
        · rw [if_pos hbad]
          refine iff_of_false (fun h ↦ nomatch h) ?_
          rintro ⟨⟨⟨hversion, hseen⟩, -⟩, -⟩
          exact hbad.elim (fun hne ↦ hne hversion) hseen
        · rw [if_neg hbad, ih]
          simp only [not_or, not_not] at hbad
          constructor
          · rintro ⟨hall, hnodup⟩
            refine ⟨⟨hbad, fun other hother ↦ ?_⟩, fun other hother heq ↦ ?_, hnodup⟩
            · obtain ⟨hid, hagent, hversion, hseen⟩ := hall other hother
              exact ⟨hid, hagent, hversion, fun hin ↦ hseen (List.mem_cons_of_mem _ hin)⟩
            · exact (hall other hother).2.2.2 (heq ▸ List.mem_cons_self)
          · rintro ⟨⟨-, hall⟩, hne, hnodup⟩
            refine ⟨fun other hother ↦ ?_, hnodup⟩
            obtain ⟨hid, hagent, hversion, hseen⟩ := hall other hother
            refine ⟨hid, hagent, hversion, fun hin ↦ ?_⟩
            exact (List.mem_cons.mp hin).elim (hne other hother) hseen

theorem DistinctIds.eq_of_id {records : List SnapshotRecord} (h : DistinctIds records)
    {record other : SnapshotRecord} (hrecord : record ∈ records) (hother : other ∈ records)
    (hid : other.snapshotId = record.snapshotId) : other = record :=
  List.inj_on_of_nodup_map h hother hrecord hid

theorem DistinctIds.nodup_key {records : List SnapshotRecord} (h : DistinctIds records) :
    (records.map SnapshotRecord.key).Nodup := by
  apply List.Nodup.of_map fun key ↦ OrderDual.ofDual (ofLex key).2
  rw [List.map_map]
  exact h

theorem DistinctIds.filter {records : List SnapshotRecord} (h : DistinctIds records)
    (p : SnapshotRecord → Bool) : DistinctIds (records.filter p) :=
  h.sublist (List.filter_sublist.map _)

theorem mem_unpinnedOf {agentId target : String} {records : List SnapshotRecord}
    {record : SnapshotRecord} : record ∈ unpinnedOf agentId target records ↔
      record ∈ records ∧ record.pinned = false ∧ record.agentId = agentId ∧
        record.targetConfigPath = target := by
  rw [unpinnedOf, List.mem_filter]
  simp [and_assoc]

/-- An unpinned record is among those beyond the bound of its agent and target if enough of them
are newer. -/
theorem mem_overflow_iff {records : List SnapshotRecord} {record : SnapshotRecord}
    (h : DistinctIds records) (hmem : record ∈ records) (hpinned : record.pinned = false) :
    record ∈ (sortByKey SnapshotRecord.key
        (unpinnedOf record.agentId record.targetConfigPath records)).drop retainUnpinnedPerTarget ↔
      retainUnpinnedPerTarget ≤ ((unpinnedOf record.agentId record.targetConfigPath records).filter
        fun other ↦ other.key < record.key).length :=
  mem_drop_sortByKey (mem_unpinnedOf.mpr ⟨hmem, hpinned, rfl, rfl⟩) (h.filter _).nodup_key _

theorem mem_pruneIds_iff {now : Option ℕ} {records : List SnapshotRecord} {record : SnapshotRecord}
    (h : DistinctIds records) (hmem : record ∈ records) :
    record.snapshotId ∈ pruneIds now records ↔ record.pinned = false ∧
      (record.expired now = true ∨ retainUnpinnedPerTarget ≤
        ((unpinnedOf record.agentId record.targetConfigPath records).filter
          fun other ↦ other.key < record.key).length) := by
  have hexpired : ∀ other : SnapshotRecord, other.expired now = true → other.pinned = false := by
    intro other hother
    rw [SnapshotRecord.expired, Bool.and_eq_true, Bool.not_eq_true'] at hother
    exact hother.1
  rw [pruneIds, List.mem_append, List.mem_flatMap]
  constructor
  · rintro (hold | ⟨⟨agentId, target⟩, -, hover⟩)
    · obtain ⟨other, hother, hid⟩ := List.mem_map.mp hold
      obtain ⟨hin, hexp⟩ := List.mem_filter.mp hother
      obtain rfl := h.eq_of_id hmem hin hid
      exact ⟨hexpired _ hexp, Or.inl hexp⟩
    · obtain ⟨other, hother, hid⟩ := List.mem_map.mp hover
      have hunpinned := mem_sortByKey.mp (List.mem_of_mem_drop hother)
      obtain ⟨hin, hpinned, hagent, htarget⟩ := mem_unpinnedOf.mp hunpinned
      obtain rfl := h.eq_of_id hmem hin hid
      obtain ⟨rfl, rfl⟩ : agentId = other.agentId ∧ target = other.targetConfigPath :=
        ⟨hagent.symm, htarget.symm⟩
      exact ⟨hpinned, Or.inr ((mem_overflow_iff h hmem hpinned).mp hother)⟩
  · rintro ⟨hpinned, hexp | hcount⟩
    · exact Or.inl (List.mem_map_of_mem (List.mem_filter.mpr ⟨hmem, hexp⟩))
    · refine Or.inr ⟨(record.agentId, record.targetConfigPath), ?_, ?_⟩
      · exact List.mem_dedup.mpr (List.mem_map_of_mem hmem)
      · exact List.mem_map_of_mem ((mem_overflow_iff h hmem hpinned).mpr hcount)

/-- Pinned records stay, and of the others those that are young and among the newest. -/
theorem mem_retained_iff {now : Option ℕ} {records : List SnapshotRecord} {record : SnapshotRecord}
    (h : DistinctIds records) (hmem : record ∈ records) :
    record ∈ retained now records ↔ record.pinned = true ∨
      record.expired now = false ∧
        ((unpinnedOf record.agentId record.targetConfigPath records).filter
          fun other ↦ other.key < record.key).length < retainUnpinnedPerTarget := by
  rw [retained, List.mem_filter, and_iff_right hmem, decide_eq_true_iff, mem_pruneIds_iff h hmem,
    not_and_or, not_or, Bool.not_eq_false, Bool.not_eq_true, not_le]

theorem retained_subset {now : Option ℕ} {records : List SnapshotRecord} :
    retained now records ⊆ records :=
  List.filter_sublist.subset

end TokenStation
