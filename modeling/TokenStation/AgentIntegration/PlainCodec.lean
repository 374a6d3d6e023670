import Mathlib.Data.UInt
import TokenStation.AgentIntegration.SnapshotStore
import TokenStation.Library.SelfDelimiting

/-!
# A codec without cryptography

An instance of `SnapshotCodec` that runs: documents are written in a self-delimiting format,
sealing appends an empty tag, and the digest is a sum of bytes.
-/

namespace TokenStation

open Library SelfDelimiting

/-- The fields of a record, strings first. -/
def recordFormat : SelfDelimiting SnapshotRecord :=
  via (pair (list string) (pair (list uint32) (pair (list nat)
      (pair (list bool) (pair (option uint32) (option string))))))
    (fun record ↦
      ([record.snapshotId, record.operationId, record.agentId, record.targetConfigPath,
          record.envelopeHash, record.beforeHash, record.connectorId, record.appVersion],
        [record.schemaVersion], [record.createdAtMs], [record.originalExisted, record.pinned],
        record.originalPermissions, record.originalOwner))
    (fun (texts, versions, times, flags, permissions, owner) ↦
      { schemaVersion := versions[0]?.getD 0
        snapshotId := texts[0]?.getD ""
        operationId := texts[1]?.getD ""
        agentId := texts[2]?.getD ""
        targetConfigPath := texts[3]?.getD ""
        envelopeHash := texts[4]?.getD ""
        beforeHash := texts[5]?.getD ""
        originalExisted := flags[0]?.getD false
        originalPermissions := permissions
        originalOwner := owner
        createdAtMs := times[0]?.getD 0
        connectorId := texts[6]?.getD ""
        appVersion := texts[7]?.getD ""
        pinned := flags[1]?.getD false })
    fun _ ↦ rfl

def indexFormat : SelfDelimiting SnapshotIndex :=
  via (pair uint32 (list recordFormat)) (fun index ↦ (index.schemaVersion, index.records))
    (fun parts ↦ ⟨parts.1, parts.2⟩) fun _ ↦ rfl

def envelopeFormat : SelfDelimiting SnapshotEnvelope :=
  via (pair (list string) (pair (list uint32) (pair (list nat)
      (pair (list bool) (pair (option uint32) (option string))))))
    (fun envelope ↦
      ([envelope.algorithm, envelope.keyId, envelope.snapshotId, envelope.operationId,
          envelope.agentId, envelope.targetConfigPath, envelope.beforeHash, envelope.connectorId,
          envelope.appVersion, envelope.nonceHex, envelope.ciphertextHex],
        [envelope.schemaVersion], [envelope.createdAtMs], [envelope.originalExisted],
        envelope.originalPermissions, envelope.originalOwner))
    (fun (texts, versions, times, flags, permissions, owner) ↦
      { schemaVersion := versions[0]?.getD 0
        algorithm := texts[0]?.getD ""
        keyId := texts[1]?.getD ""
        snapshotId := texts[2]?.getD ""
        operationId := texts[3]?.getD ""
        agentId := texts[4]?.getD ""
        targetConfigPath := texts[5]?.getD ""
        beforeHash := texts[6]?.getD ""
        originalExisted := flags[0]?.getD false
        originalPermissions := permissions
        originalOwner := owner
        createdAtMs := times[0]?.getD 0
        connectorId := texts[7]?.getD ""
        appVersion := texts[8]?.getD ""
        nonceHex := texts[9]?.getD ""
        ciphertextHex := texts[10]?.getD "" })
    fun _ ↦ rfl

/-- The sum of the bytes, as the last of the 32 bytes of a digest. -/
def checksum (bytes : Bytes) : String :=
  String.ofList (List.replicate 62 '0' ++ Hex.pair bytes.sum)

/-- The tag that sealing appends. -/
def emptyTag : Bytes := List.replicate tagLength 0

/-- The value that a document starts with. -/
def readDocument {α : Type} (format : SelfDelimiting α) (bytes : Bytes) : Option α :=
  (format.read bytes).map Prod.fst

theorem readDocument_write {α : Type} (format : SelfDelimiting α) (a : α) :
    readDocument format (format.write a) = some a := by
  have hread := format.read_write_append a []
  rw [List.append_nil] at hread
  rw [readDocument, hread, Option.map_some]

def plainCodec : SnapshotCodec where
  sealBytes _ _ _ plaintext := some (plaintext ++ emptyTag)
  openBytes _ _ _ sealedBytes := some (sealedBytes.take (sealedBytes.length - tagLength))
  sha256 := checksum
  renderEnvelope := envelopeFormat.write
  parseEnvelope := readDocument envelopeFormat
  renderIndex := indexFormat.write
  parseIndex := readDocument indexFormat
  open_sealBytes h := by
    obtain rfl := Option.some.inj h
    rw [List.length_append, emptyTag, List.length_replicate, Nat.add_sub_cancel,
      List.take_left]
  length_sealBytes h := by
    obtain rfl := Option.some.inj h
    rw [List.length_append, emptyTag, List.length_replicate]
  parse_renderEnvelope := readDocument_write envelopeFormat
  parse_renderIndex := readDocument_write indexFormat

end TokenStation
