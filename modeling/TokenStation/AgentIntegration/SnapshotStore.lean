import TokenStation.AgentIntegration.Snapshot
import Mathlib.Data.List.AList
import Mathlib.Data.Nat.Notation

/-!
# The snapshot store on disk

Every snapshot is one encrypted envelope file, and an index file lists the records. `create` writes
the envelope, then the index, and prunes before it returns; `load` goes from the index to the
envelope and checks one against the other. Encryption, digests and the rendering of JSON are a
`SnapshotCodec`. Calls of the file system do not fail here.
-/

namespace TokenStation

open Library

/-- The content of an envelope file. -/
structure SnapshotEnvelope where
  schemaVersion : UInt32
  algorithm : String
  keyId : String
  snapshotId : String
  operationId : String
  agentId : String
  targetConfigPath : String
  beforeHash : String
  originalExisted : Bool
  originalPermissions : Option UInt32
  originalOwner : Option String
  createdAtMs : ℕ
  connectorId : String
  appVersion : String
  nonceHex : String
  ciphertextHex : String
  deriving DecidableEq

namespace SnapshotEnvelope

/-- A field of the additional data, with its length in front. -/
def aadField (value : Bytes) : Bytes := beBytes 8 value.length ++ value

/-- What the encryption authenticates beside the bytes. -/
def aad (envelope : SnapshotEnvelope) : Bytes :=
  textBytes "token-station-snapshot-aad-v1\x00" ++ aadField (beBytes 4 envelope.schemaVersion.toNat)
    ++ ([envelope.algorithm, envelope.keyId, envelope.snapshotId, envelope.operationId,
        envelope.agentId, envelope.targetConfigPath, envelope.beforeHash, envelope.connectorId,
        envelope.appVersion].flatMap fun value ↦ aadField (textBytes value))
    ++ aadField [if envelope.originalExisted then 1 else 0]
    ++ aadField (beBytes 4 (envelope.originalPermissions.getD (UInt32.ofNat (2 ^ 32 - 1))).toNat)
    ++ aadField (textBytes (envelope.originalOwner.getD ""))
    ++ aadField (beBytes 8 envelope.createdAtMs)

end SnapshotEnvelope

def algorithmName : String := "AES-256-GCM"

def masterKeyId : String := "snapshot-master-key-v1"

def maxIndexBytes : ℕ := 2 * 1024 * 1024

def maxEnvelopeBytes : ℕ := 20 * 1024 * 1024

/-- The length of an authentication tag. -/
def tagLength : ℕ := 16

abbrev MasterKey := Vector UInt8 32

abbrev SnapshotNonce := Vector UInt8 12

/-- The libraries that the store calls, and what they promise: a sealed text is opened again, and a
rendered document is parsed again. -/
structure SnapshotCodec where
  sealBytes : MasterKey → SnapshotNonce → Bytes → Bytes → Option Bytes
  openBytes : MasterKey → SnapshotNonce → Bytes → Bytes → Option Bytes
  sha256 : Bytes → String
  renderEnvelope : SnapshotEnvelope → Bytes
  parseEnvelope : Bytes → Option SnapshotEnvelope
  renderIndex : SnapshotIndex → Bytes
  parseIndex : Bytes → Option SnapshotIndex
  open_sealBytes : ∀ {key nonce aad plaintext sealed},
    sealBytes key nonce aad plaintext = some sealed →
      openBytes key nonce aad sealed = some plaintext
  length_sealBytes : ∀ {key nonce aad plaintext sealed},
    sealBytes key nonce aad plaintext = some sealed → sealed.length = plaintext.length + tagLength
  parse_renderEnvelope : ∀ envelope, parseEnvelope (renderEnvelope envelope) = some envelope
  parse_renderIndex : ∀ index, parseIndex (renderIndex index) = some index

/-- An envelope file: in the directory of its agent, or directly under the root in the old
layout. -/
inductive EnvelopePath where
  | current (agentId : String) (createdAtMs : ℕ) (snapshotId : String)
  | legacy (snapshotId : String)
  deriving DecidableEq

structure SnapshotRequest where
  operationId : String
  agentId : String
  targetConfigPath : String
  beforeHash : String
  source : ConfigSource
  createdAtMs : ℕ
  connectorId : String
  appVersion : String
  pinned : Bool

structure DecryptedSnapshot where
  record : SnapshotRecord
  exactBytes : Bytes

/-- The random numbers that `create` draws: a new master key, up to sixteen ids, a nonce. -/
structure SnapshotDraws where
  masterKey : MasterKey
  ids : List (Vector UInt8 16)
  nonce : SnapshotNonce

structure FileSnapshotStore where
  /-- The index file. -/
  indexFile : Option Bytes
  envelopes : AList fun _ : EnvelopePath ↦ Bytes
  masterKey : Option MasterKey

namespace FileSnapshotStore

/-- The store before its first use. -/
def empty : FileSnapshotStore := ⟨none, ∅, none⟩

variable (codec : SnapshotCodec)

def currentEnvelopePath (record : SnapshotRecord) : EnvelopePath :=
  .current record.agentId record.createdAtMs record.snapshotId

def resolveEnvelopePath (store : FileSnapshotStore) (record : SnapshotRecord) : EnvelopePath :=
  if (store.envelopes.lookup (currentEnvelopePath record)).isSome then currentEnvelopePath record
  else .legacy record.snapshotId

def readIndex (store : FileSnapshotStore) : Except String SnapshotIndex :=
  match store.indexFile with
  | none => .ok ⟨indexSchemaVersion, []⟩
  | some bytes =>
    if maxIndexBytes < bytes.length then .error "快照索引超过安全上限"
    else
      match codec.parseIndex bytes with
      | none => .error "快照索引 JSON 无效"
      | some index => validateIndex index

def writeIndex (index : SnapshotIndex) (store : FileSnapshotStore) : FileSnapshotStore :=
  { store with indexFile := some (codec.renderIndex index) }

/-- `load_or_create` of the key file. -/
def loadOrCreateKey (store : FileSnapshotStore) (allowCreate : Bool) (fresh : MasterKey) :
    Except String MasterKey :=
  match store.masterKey with
  | some key => .ok key
  | none => if allowCreate then .ok fresh else .error "快照主密钥缺失,已有快照不可安全解密"

def loadKey (store : FileSnapshotStore) : Except String MasterKey :=
  match store.masterKey with
  | some key => .ok key
  | none => .error "快照主密钥文件权限过宽或不是普通文件"

def lowerHex (bytes : Bytes) : String := String.ofList (Hex.encode bytes)

def decodeLowerHex (value : String) : Except String Bytes :=
  match Hex.decode value.toList with
  | some bytes => .ok bytes
  | none => .error "快照十六进制字段无效"

def uniqueSnapshotId (index : SnapshotIndex) (ids : List (Vector UInt8 16)) :
    Except String String :=
  match ((ids.take 16).map fun id ↦ lowerHex id.toList).find? fun id ↦
      !index.records.any (·.snapshotId == id) with
  | some id => .ok id
  | none => .error "无法生成唯一 snapshot ID"

def validateRequest (envelope : SnapshotEnvelope) : Except String Unit := do
  validateId envelope.snapshotId
  validateAgentId envelope.agentId
  if envelope.operationId.isEmpty || envelope.agentId.isEmpty || envelope.targetConfigPath.isEmpty
      || envelope.beforeHash.utf8ByteSize != 64 || envelope.connectorId.isEmpty
      || envelope.appVersion.isEmpty then
    .error "快照请求元数据无效"
  else .ok ()

/-- The envelope of a request before its bytes are sealed. -/
def plainEnvelope (request : SnapshotRequest) (snapshotId : String) (nonce : SnapshotNonce) :
    SnapshotEnvelope where
  schemaVersion := snapshotSchemaVersion
  algorithm := algorithmName
  keyId := masterKeyId
  snapshotId := snapshotId
  operationId := request.operationId
  agentId := request.agentId
  targetConfigPath := request.targetConfigPath
  beforeHash := request.beforeHash
  originalExisted := request.source.existed
  originalPermissions := request.source.originalPermissions
  originalOwner := request.source.originalOwner
  createdAtMs := request.createdAtMs
  connectorId := request.connectorId
  appVersion := request.appVersion
  nonceHex := lowerHex nonce.toList
  ciphertextHex := ""

def sealEnvelope (key : MasterKey) (request : SnapshotRequest) (snapshotId : String)
    (nonce : SnapshotNonce) : Except String SnapshotEnvelope :=
  let envelope := plainEnvelope request snapshotId nonce
  match validateRequest envelope with
  | .error error => .error error
  | .ok () =>
    match codec.sealBytes key nonce envelope.aad request.source.exactBytes with
    | none => .error "加密快照失败"
    | some ciphertext => .ok { envelope with ciphertextHex := lowerHex ciphertext }

/-- The record of a request. -/
def recordOf (request : SnapshotRequest) (snapshotId envelopeHash : String) : SnapshotRecord where
  schemaVersion := snapshotSchemaVersion
  snapshotId := snapshotId
  operationId := request.operationId
  agentId := request.agentId
  targetConfigPath := request.targetConfigPath
  envelopeHash := envelopeHash
  beforeHash := request.beforeHash
  originalExisted := request.source.existed
  originalPermissions := request.source.originalPermissions
  originalOwner := request.source.originalOwner
  createdAtMs := request.createdAtMs
  connectorId := request.connectorId
  appVersion := request.appVersion
  pinned := request.pinned

/-- Both files of a record. -/
def removeEnvelopes (envelopes : AList fun _ : EnvelopePath ↦ Bytes) (record : SnapshotRecord) :
    AList fun _ : EnvelopePath ↦ Bytes :=
  (envelopes.erase (currentEnvelopePath record)).erase (.legacy record.snapshotId)

/-- Remove the envelopes of the records that go, and write the index without them. -/
def prune (now : Option ℕ) (index : SnapshotIndex) (store : FileSnapshotStore) :
    FileSnapshotStore :=
  let remove := pruneIds now index.records
  if remove.isEmpty then store
  else
    let removed := index.records.filter (·.snapshotId ∈ remove)
    let store := { store with envelopes := removed.foldl removeEnvelopes store.envelopes }
    writeIndex codec { index with records := retained now index.records } store

/-- `FileSnapshotStore::create`. -/
def create (store : FileSnapshotStore) (request : SnapshotRequest) (draws : SnapshotDraws) :
    Except String SnapshotRecord × FileSnapshotStore :=
  match validateAgentId request.agentId with
  | .error error => (.error error, store)
  | .ok () =>
    match readIndex codec store with
    | .error error => (.error error, store)
    | .ok index =>
      let allowCreate := index.records.isEmpty && store.envelopes.keys.isEmpty
      match loadOrCreateKey store allowCreate draws.masterKey with
      | .error error => (.error error, store)
      | .ok key =>
        let store := { store with masterKey := some key }
        match uniqueSnapshotId index draws.ids with
        | .error error => (.error error, store)
        | .ok snapshotId =>
          match sealEnvelope codec key request snapshotId draws.nonce with
          | .error error => (.error error, store)
          | .ok envelope =>
            let rendered := codec.renderEnvelope envelope
            let record := recordOf request snapshotId (codec.sha256 rendered)
            let index := { index with records := index.records ++ [record] }
            let store := { store with
              envelopes := store.envelopes.insert (currentEnvelopePath record) rendered }
            (.ok record,
              prune codec (some request.createdAtMs) index (writeIndex codec index store))

def validateEnvelope (envelope : SnapshotEnvelope) (record : SnapshotRecord) :
    Except String Unit := do
  validateRequest envelope
  if envelope.schemaVersion ≠ snapshotSchemaVersion ∨ envelope.algorithm ≠ algorithmName
      ∨ envelope.keyId ≠ masterKeyId ∨ envelope.snapshotId ≠ record.snapshotId
      ∨ envelope.operationId ≠ record.operationId ∨ envelope.agentId ≠ record.agentId
      ∨ envelope.targetConfigPath ≠ record.targetConfigPath
      ∨ envelope.beforeHash ≠ record.beforeHash
      ∨ envelope.originalExisted ≠ record.originalExisted
      ∨ envelope.originalPermissions ≠ record.originalPermissions
      ∨ envelope.originalOwner ≠ record.originalOwner
      ∨ envelope.createdAtMs ≠ record.createdAtMs ∨ envelope.connectorId ≠ record.connectorId
      ∨ envelope.appVersion ≠ record.appVersion then
    .error "快照 envelope 与索引绑定不一致"
  else .ok ()

/-- Open an envelope and check its bytes against the record. -/
def openEnvelope (store : FileSnapshotStore) (record : SnapshotRecord)
    (envelope : SnapshotEnvelope) : Except String DecryptedSnapshot := do
  validateEnvelope envelope record
  let nonce ← decodeLowerHex envelope.nonceHex
  if h : nonce.length = 12 then
    let ciphertext ← decodeLowerHex envelope.ciphertextHex
    if ciphertext.length < tagLength then .error "快照 ciphertext 长度无效"
    else
      let key ← loadKey store
      match codec.openBytes key ⟨nonce.toArray, by simpa using h⟩ envelope.aad ciphertext with
      | none => .error "快照认证或解密失败"
      | some plaintext =>
        let restored : ConfigSource := ⟨record.originalExisted, plaintext,
          record.originalPermissions, record.originalOwner⟩
        if fileRevisionHash codec.sha256 record.targetConfigPath restored ≠ record.beforeHash then
          .error "快照明文 revision 与索引不一致"
        else .ok ⟨record, plaintext⟩
  else .error "快照 nonce 长度无效"

/-- `FileSnapshotStore::load`. -/
def load (store : FileSnapshotStore) (snapshotId : String) : Except String DecryptedSnapshot := do
  validateId snapshotId
  let index ← readIndex codec store
  match index.records.find? (·.snapshotId = snapshotId) with
  | none => .error "快照不存在"
  | some record =>
    match store.envelopes.lookup (resolveEnvelopePath store record) with
    | none => .error "快照文件权限或类型无效"
    | some rendered =>
      if maxEnvelopeBytes < rendered.length then .error "快照 envelope 超过安全上限"
      else if codec.sha256 rendered ≠ record.envelopeHash then .error "快照 envelope 哈希不匹配"
      else
        match codec.parseEnvelope rendered with
        | none => .error "快照 envelope JSON 无效"
        | some envelope => openEnvelope codec store record envelope

/-- `FileSnapshotStore::set_pinned`. -/
def setPinned (store : FileSnapshotStore) (snapshotId : String) (pinned : Bool) :
    Except String Unit × FileSnapshotStore :=
  match validateId snapshotId with
  | .error error => (.error error, store)
  | .ok () =>
    match readIndex codec store with
    | .error error => (.error error, store)
    | .ok index =>
      if index.records.any (·.snapshotId == snapshotId) then
        let index := { index with
          records := index.records.map fun record ↦
            if record.snapshotId = snapshotId then { record with pinned } else record }
        let store := writeIndex codec index store
        (.ok (), if pinned then store else prune codec none index store)
      else (.error "快照不存在", store)

/-- `FileSnapshotStore::prune_expired`. -/
def pruneExpired (store : FileSnapshotStore) (now : ℕ) : Except String Unit × FileSnapshotStore :=
  match readIndex codec store with
  | .error error => (.error error, store)
  | .ok index => (.ok (), prune codec (some now) index store)

/-- `migrate_legacy_envelope`: whether a file was moved, or why it was not. -/
def migrateLegacyEnvelope (store : FileSnapshotStore) (record : SnapshotRecord) :
    Except String Bool × FileSnapshotStore :=
  match store.envelopes.lookup (.legacy record.snapshotId) with
  | none => (.ok false, store)
  | some legacy =>
    if maxEnvelopeBytes < legacy.length then (.error "旧快照 envelope 超过安全上限", store)
    else if codec.sha256 legacy ≠ record.envelopeHash then
      (.error "旧快照 envelope 哈希不匹配", store)
    else
      let current := currentEnvelopePath record
      match store.envelopes.lookup current with
      | some bytes =>
        if codec.sha256 bytes ≠ record.envelopeHash then
          (.error "目标快照 envelope 哈希不匹配，拒绝覆盖", store)
        else
          (.ok true, { store with envelopes := store.envelopes.erase (.legacy record.snapshotId) })
      | none =>
        (.ok true, { store with
          envelopes := (store.envelopes.erase (.legacy record.snapshotId)).insert current legacy })

/-- What a migration did: the files it moved, and the ids it could not with the reason. -/
structure MigrationReport where
  migrated : ℕ := 0
  warnings : List (String × String) := []

def migrateLegacyEnvelopes (report : MigrationReport) (store : FileSnapshotStore) :
    List SnapshotRecord → MigrationReport × FileSnapshotStore
  | [] => (report, store)
  | record :: records =>
    let (outcome, store) := migrateLegacyEnvelope codec store record
    let report := match outcome with
      | .ok true => { report with migrated := report.migrated + 1 }
      | .ok false => report
      | .error message =>
        { report with warnings := report.warnings ++ [(record.snapshotId, message)] }
    migrateLegacyEnvelopes report store records

/-- `FileSnapshotStore::organize_legacy_layout`. -/
def organizeLegacyLayout (store : FileSnapshotStore) :
    Except String MigrationReport × FileSnapshotStore :=
  match readIndex codec store with
  | .error error => (.error error, store)
  | .ok index =>
    let (report, store) := migrateLegacyEnvelopes codec {} store index.records
    (.ok report, store)

/-- A call of the store that changes it. -/
inductive Call where
  | create (request : SnapshotRequest) (draws : SnapshotDraws)
  | setPinned (snapshotId : String) (pinned : Bool)
  | pruneExpired (now : ℕ)
  | organizeLegacyLayout

/-- The store after a call. -/
def after (store : FileSnapshotStore) : Call → FileSnapshotStore
  | .create request draws => (create codec store request draws).2
  | .setPinned snapshotId pinned => (setPinned codec store snapshotId pinned).2
  | .pruneExpired now => (pruneExpired codec store now).2
  | .organizeLegacyLayout => (organizeLegacyLayout codec store).2

/-- The stores that calls lead to. -/
inductive Reachable : FileSnapshotStore → Prop where
  | empty : Reachable empty
  | step {store} (call : Call) (h : Reachable store) : Reachable (after codec store call)

end FileSnapshotStore

end TokenStation
