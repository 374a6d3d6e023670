import TokenStation.AgentIntegration.PlainCodec

/-!
# Whether a snapshot is there when it is needed

A transaction takes its snapshots before it writes, and goes back to them when something fails
later. `create` prunes before it returns, and the new record takes part in that like any other: it
stays when it is pinned, or when fewer than five unpinned records of its agent and target count as
newer. `create_load_iff` says exactly when what `create` has just stored can be loaded.
-/

namespace TokenStation

open Library

namespace FileSnapshotStore

variable {codec : SnapshotCodec}

/-- What comes back from the store is what was asked to be kept. -/
def LoadsBack (codec : SnapshotCodec) (store : FileSnapshotStore) (request : SnapshotRequest)
    (record : SnapshotRecord) : Prop :=
  ∃ snapshot, load codec store record.snapshotId = .ok snapshot ∧
    snapshot.exactBytes = request.source.exactBytes ∧ snapshot.record = record ∧
    record = recordOf request record.snapshotId record.envelopeHash

/-- The unpinned records of the same agent and target that count as newer than the request. -/
def newerUnpinned (index : SnapshotIndex) (request : SnapshotRequest) (snapshotId : String) :
    List SnapshotRecord :=
  (unpinnedOf request.agentId request.targetConfigPath index.records).filter fun other ↦
    other.key < newestKey request.createdAtMs snapshotId

/-- The index with the record of a request. -/
def indexWith (codec : SnapshotCodec) (index : SnapshotIndex) (request : SnapshotRequest)
    (snapshotId : String) (envelope : SnapshotEnvelope) : SnapshotIndex :=
  { index with records := index.records ++
      [recordOf request snapshotId (codec.sha256 (codec.renderEnvelope envelope))] }

/-- The index that is left of one after pruning. -/
def pruned (now : Option ℕ) (index : SnapshotIndex) : SnapshotIndex :=
  { index with records := retained now index.records }

/-- The condition, on the store and the request: the new record is not pruned, its hash is that of
its source, and neither file is larger than the reader accepts. -/
structure Survives (codec : SnapshotCodec) (index : SnapshotIndex) (request : SnapshotRequest)
    (snapshotId : String) (envelope : SnapshotEnvelope) : Prop where
  kept : request.pinned = true ∨
    (newerUnpinned index request snapshotId).length < retainUnpinnedPerTarget
  revision : fileRevisionHash codec.sha256 request.targetConfigPath request.source =
    request.beforeHash
  envelopeFits : (codec.renderEnvelope envelope).length ≤ maxEnvelopeBytes
  indexFits : (codec.renderIndex (pruned (some request.createdAtMs)
    (indexWith codec index request snapshotId envelope))).length ≤ maxIndexBytes

/-! ## The store after a prune -/

theorem retained_of_isEmpty {now : Option ℕ} {records : List SnapshotRecord}
    (h : (pruneIds now records).isEmpty = true) : retained now records = records := by
  rw [retained, List.filter_eq_self]
  intro record _
  rw [List.isEmpty_iff.mp h]
  exact decide_eq_true List.not_mem_nil

theorem indexFile_prune (now : Option ℕ) (index : SnapshotIndex) (store : FileSnapshotStore) :
    (prune codec now index (writeIndex codec index store)).indexFile =
      some (codec.renderIndex (pruned now index)) := by
  rw [prune]
  by_cases hempty : (pruneIds now index.records).isEmpty = true
  · rw [if_pos hempty, pruned, retained_of_isEmpty hempty]
    rfl
  · rw [if_neg hempty]
    rfl

theorem masterKey_prune (now : Option ℕ) (index : SnapshotIndex) (store : FileSnapshotStore) :
    (prune codec now index store).masterKey = store.masterKey := by
  rw [prune]
  split
  · rfl
  · rfl

/-- The id in the name of an envelope file. -/
def pathId : EnvelopePath → String
  | .current _ _ snapshotId => snapshotId
  | .legacy snapshotId => snapshotId

theorem lookup_removeEnvelopes {envelopes : AList fun _ : EnvelopePath ↦ Bytes}
    {record : SnapshotRecord} {path : EnvelopePath} (h : pathId path ≠ record.snapshotId) :
    (removeEnvelopes envelopes record).lookup path = envelopes.lookup path := by
  have hlegacy : path ≠ .legacy record.snapshotId := fun heq ↦ h (by rw [heq]; rfl)
  have hcurrent : path ≠ currentEnvelopePath record := fun heq ↦ h (by rw [heq]; rfl)
  rw [removeEnvelopes, AList.lookup_erase_ne hlegacy, AList.lookup_erase_ne hcurrent]

theorem lookup_foldl_removeEnvelopes {envelopes : AList fun _ : EnvelopePath ↦ Bytes}
    {records : List SnapshotRecord} {path : EnvelopePath}
    (h : ∀ record ∈ records, pathId path ≠ record.snapshotId) :
    (records.foldl removeEnvelopes envelopes).lookup path = envelopes.lookup path := by
  induction records generalizing envelopes with
  | nil => rfl
  | cons record records ih =>
    rw [List.foldl_cons, ih fun other hother ↦ h other (List.mem_cons_of_mem _ hother),
      lookup_removeEnvelopes (h record List.mem_cons_self)]

/-- The files of a record that stays are not touched. -/
theorem lookup_prune {now : Option ℕ} {index : SnapshotIndex} {store : FileSnapshotStore}
    {record : SnapshotRecord} (hkept : record ∈ retained now index.records) {path : EnvelopePath}
    (hpath : pathId path = record.snapshotId) :
    (prune codec now index store).envelopes.lookup path = store.envelopes.lookup path := by
  rw [prune]
  split
  · rfl
  · refine lookup_foldl_removeEnvelopes fun other hother ↦ ?_
    obtain ⟨-, hremoved⟩ := List.mem_filter.mp hother
    obtain ⟨-, hstays⟩ := List.mem_filter.mp hkept
    rw [hpath]
    intro heq
    exact of_decide_eq_true hstays (heq ▸ of_decide_eq_true hremoved)

/-! ## What an accepted `create` did -/

/-- The parts that an accepted `create` went through. -/
structure Created (codec : SnapshotCodec) (store : FileSnapshotStore) (request : SnapshotRequest)
    (draws : SnapshotDraws) (index : SnapshotIndex) (key : MasterKey) (snapshotId : String)
    (envelope : SnapshotEnvelope) : Prop where
  read : readIndex codec store = .ok index
  loaded : loadOrCreateKey store (index.records.isEmpty && store.envelopes.keys.isEmpty)
    draws.masterKey = .ok key
  fresh : uniqueSnapshotId index draws.ids = .ok snapshotId
  sealed : sealEnvelope codec key request snapshotId draws.nonce = .ok envelope

theorem create_eq_ok {store store' : FileSnapshotStore} {request : SnapshotRequest}
    {draws : SnapshotDraws} {record : SnapshotRecord}
    (h : create codec store request draws = (.ok record, store')) :
    ∃ index key snapshotId envelope,
      Created codec store request draws index key snapshotId envelope ∧
      record = recordOf request snapshotId (codec.sha256 (codec.renderEnvelope envelope)) ∧
      store' = prune codec (some request.createdAtMs)
        (indexWith codec index request snapshotId envelope)
        (writeIndex codec (indexWith codec index request snapshotId envelope)
          { store with
            masterKey := some key
            envelopes := store.envelopes.insert (currentEnvelopePath record)
              (codec.renderEnvelope envelope) }) := by
  rw [create] at h
  split at h
  · nomatch (Prod.mk.inj h).1
  split at h
  · nomatch (Prod.mk.inj h).1
  next index hread =>
    dsimp only at h
    split at h
    · nomatch (Prod.mk.inj h).1
    next key hkey =>
      split at h
      · nomatch (Prod.mk.inj h).1
      next snapshotId hfresh =>
        split at h
        · nomatch (Prod.mk.inj h).1
        next envelope hsealed =>
          obtain ⟨hrecord, hstore⟩ := Prod.mk.inj h
          obtain rfl := Except.ok.inj hrecord
          exact ⟨index, key, snapshotId, envelope, ⟨hread, hkey, hfresh, hsealed⟩, rfl, hstore.symm⟩

theorem validateIndex_iff {index index' : SnapshotIndex} :
    validateIndex index = .ok index' ↔
      index' = index ∧ index.schemaVersion = indexSchemaVersion ∧
        validateRecords [] index.records = .ok () := by
  rw [validateIndex]
  by_cases hversion : index.schemaVersion = indexSchemaVersion
  · rcases hrecords : validateRecords [] index.records with error | ⟨⟩
    · simp [hversion, Bind.bind, Except.bind]
    · simp [hversion, Bind.bind, Except.bind, eq_comm]
  · simp [hversion]

/-- An index that was read is valid. -/
theorem valid_of_readIndex {store : FileSnapshotStore} {index : SnapshotIndex}
    (h : readIndex codec store = .ok index) :
    index.schemaVersion = indexSchemaVersion ∧ validateRecords [] index.records = .ok () := by
  rw [readIndex] at h
  split at h
  · obtain rfl := Except.ok.inj h
    exact ⟨rfl, rfl⟩
  · split at h
    · nomatch h
    · split at h
      · nomatch h
      · obtain ⟨rfl, hvalid⟩ := validateIndex_iff.mp h
        exact hvalid

theorem readIndex_rendered {store : FileSnapshotStore} {index : SnapshotIndex}
    (hfile : store.indexFile = some (codec.renderIndex index))
    (hvalid : index.schemaVersion = indexSchemaVersion ∧
      validateRecords [] index.records = .ok ()) (index' : SnapshotIndex) :
    readIndex codec store = .ok index' ↔
      (codec.renderIndex index).length ≤ maxIndexBytes ∧ index' = index := by
  rw [readIndex, hfile]
  by_cases hlarge : maxIndexBytes < (codec.renderIndex index).length
  · simp only [if_pos hlarge]
    exact iff_of_false (fun h ↦ nomatch h) fun h ↦ absurd h.1 (not_le.mpr hlarge)
  · simp only [if_neg hlarge, codec.parse_renderIndex]
    rw [validateIndex_iff]
    simp [hvalid, not_lt.mp hlarge]

theorem validateRequest_of_seal {key : MasterKey} {request : SnapshotRequest} {snapshotId : String}
    {nonce : SnapshotNonce} {envelope : SnapshotEnvelope}
    (h : sealEnvelope codec key request snapshotId nonce = .ok envelope) :
    validateRequest envelope = .ok () ∧ ∃ ciphertext,
      codec.sealBytes key nonce (plainEnvelope request snapshotId nonce).aad
        request.source.exactBytes = some ciphertext ∧
      envelope = { plainEnvelope request snapshotId nonce with
        ciphertextHex := lowerHex ciphertext } := by
  rw [sealEnvelope] at h
  split at h
  · nomatch h
  next hvalid =>
    split at h
    · nomatch h
    next ciphertext hseal =>
      obtain rfl := Except.ok.inj h
      exact ⟨hvalid, ciphertext, hseal, rfl⟩

theorem valid_ids_of_request {envelope : SnapshotEnvelope}
    (h : validateRequest envelope = .ok ()) :
    validateId envelope.snapshotId = .ok () ∧ validateAgentId envelope.agentId = .ok () := by
  rw [validateRequest] at h
  rcases hid : validateId envelope.snapshotId with error | ⟨⟩
  · simp only [hid, Bind.bind, Except.bind] at h
    nomatch h
  · rcases hagent : validateAgentId envelope.agentId with error | ⟨⟩
    · simp only [hid, hagent, Bind.bind, Except.bind] at h
      nomatch h
    · exact ⟨rfl, rfl⟩

theorem fresh_of_uniqueSnapshotId {index : SnapshotIndex} {ids : List (Vector UInt8 16)}
    {snapshotId : String} (h : uniqueSnapshotId index ids = .ok snapshotId) :
    ∀ record ∈ index.records, record.snapshotId ≠ snapshotId := by
  rw [uniqueSnapshotId] at h
  split at h
  next found hfind =>
    obtain rfl := Except.ok.inj h
    have hfresh := List.find?_some hfind
    simpa using hfresh
  next => nomatch h

/-- The index with the new record is valid. -/
theorem valid_indexWith {store : FileSnapshotStore} {request : SnapshotRequest}
    {draws : SnapshotDraws} {index : SnapshotIndex} {key : MasterKey} {snapshotId : String}
    {envelope : SnapshotEnvelope}
    (h : Created codec store request draws index key snapshotId envelope) :
    (indexWith codec index request snapshotId envelope).schemaVersion = indexSchemaVersion ∧
      validateRecords [] (indexWith codec index request snapshotId envelope).records = .ok () := by
  obtain ⟨hversion, hrecords⟩ := valid_of_readIndex h.read
  refine ⟨hversion, ?_⟩
  obtain ⟨hrequest, ciphertext, -, rfl⟩ := validateRequest_of_seal h.sealed
  obtain ⟨hid, hagent⟩ := valid_ids_of_request hrequest
  obtain ⟨hall, hdistinct⟩ := validateRecords_iff.mp hrecords
  have hfresh := fresh_of_uniqueSnapshotId h.fresh
  refine validateRecords_iff.mpr ⟨?_, ?_⟩
  · rw [indexWith, List.forall_mem_append, List.forall_mem_singleton]
    exact ⟨hall, hid, hagent, rfl, List.not_mem_nil⟩
  · rw [DistinctIds, indexWith, List.map_append, List.map_singleton, List.nodup_append]
    refine ⟨hdistinct, List.nodup_singleton _, fun id hin other hother ↦ ?_⟩
    obtain ⟨record, hrecord, rfl⟩ := List.mem_map.mp hin
    rw [List.mem_singleton.mp hother]
    exact hfresh record hrecord

/-! ## When the new record stays -/

theorem unpinnedOf_append (agentId target : String) (records others : List SnapshotRecord) :
    unpinnedOf agentId target (records ++ others) =
      unpinnedOf agentId target records ++ unpinnedOf agentId target others :=
  List.filter_append ..

theorem kept_iff {index : SnapshotIndex} {request : SnapshotRequest} {snapshotId : String}
    {envelope : SnapshotEnvelope}
    (hdistinct : DistinctIds (indexWith codec index request snapshotId envelope).records) :
    recordOf request snapshotId (codec.sha256 (codec.renderEnvelope envelope)) ∈
        (pruned (some request.createdAtMs)
          (indexWith codec index request snapshotId envelope)).records ↔
      request.pinned = true ∨
        (newerUnpinned index request snapshotId).length < retainUnpinnedPerTarget := by
  have hmem : recordOf request snapshotId (codec.sha256 (codec.renderEnvelope envelope)) ∈
      (indexWith codec index request snapshotId envelope).records :=
    List.mem_append_right _ (List.mem_singleton_self _)
  -- it is as old as the time of the prune, and does not count as newer than itself
  have hyoung : (recordOf request snapshotId
      (codec.sha256 (codec.renderEnvelope envelope))).expired (some request.createdAtMs) =
        false := by
    simp [SnapshotRecord.expired, recordOf, snapshotRetentionMs]
  rw [pruned, mem_retained_iff hdistinct hmem, hyoung]
  have hcount : ((unpinnedOf request.agentId request.targetConfigPath
      (indexWith codec index request snapshotId envelope).records).filter fun other ↦
        other.key < newestKey request.createdAtMs snapshotId) =
      newerUnpinned index request snapshotId := by
    rw [indexWith, unpinnedOf_append, List.filter_append]
    have hself : (unpinnedOf request.agentId request.targetConfigPath [recordOf request snapshotId
        (codec.sha256 (codec.renderEnvelope envelope))]).filter (fun other ↦
          other.key < newestKey request.createdAtMs snapshotId) = [] := by
      rw [List.filter_eq_nil_iff]
      intro other hother
      obtain ⟨hin, -⟩ := mem_unpinnedOf.mp hother
      rw [List.mem_singleton.mp hin]
      exact fun hlt ↦ absurd (of_decide_eq_true hlt) (lt_irrefl _)
    rw [hself, List.append_nil]
    rfl
  have hstays : ((unpinnedOf request.agentId request.targetConfigPath
      (indexWith codec index request snapshotId envelope).records).filter fun other ↦
        other.key < (recordOf request snapshotId
          (codec.sha256 (codec.renderEnvelope envelope))).key).length =
      (newerUnpinned index request snapshotId).length := congrArg List.length hcount
  constructor
  · rintro (hpinned | ⟨-, hfew⟩)
    · exact Or.inl hpinned
    · exact Or.inr (hstays ▸ hfew)
  · rintro (hpinned | hfew)
    · exact Or.inl hpinned
    · exact Or.inr ⟨rfl, hstays ▸ hfew⟩

/-! ## Reading a snapshot back -/

theorem decodeLowerHex_lowerHex (bytes : Bytes) : decodeLowerHex (lowerHex bytes) = .ok bytes := by
  rw [decodeLowerHex, lowerHex, String.toList_ofList, Hex.decode_encode]

theorem validateEnvelope_sealed {request : SnapshotRequest} {snapshotId hash ciphertext : String}
    {nonce : SnapshotNonce}
    (h : validateRequest { plainEnvelope request snapshotId nonce with
      ciphertextHex := ciphertext } = .ok ()) :
    validateEnvelope { plainEnvelope request snapshotId nonce with ciphertextHex := ciphertext }
      (recordOf request snapshotId hash) = .ok () := by
  rw [validateEnvelope, h]
  simp only [Bind.bind, Except.bind]
  rw [if_neg]
  simp [plainEnvelope, recordOf]

/-- An envelope that was sealed for a request is opened to the bytes of the request, and refused if
these are not what the hash of the request says. -/
theorem openEnvelope_sealed {store : FileSnapshotStore} {key : MasterKey}
    {request : SnapshotRequest} {snapshotId hash : String} {nonce : SnapshotNonce}
    {envelope : SnapshotEnvelope}
    (hsealed : sealEnvelope codec key request snapshotId nonce = .ok envelope)
    (hkey : store.masterKey = some key) (snapshot : DecryptedSnapshot) :
    openEnvelope codec store (recordOf request snapshotId hash) envelope = .ok snapshot ↔
      fileRevisionHash codec.sha256 request.targetConfigPath request.source = request.beforeHash ∧
        snapshot = ⟨recordOf request snapshotId hash, request.source.exactBytes⟩ := by
  obtain ⟨hrequest, ciphertext, hseal, rfl⟩ := validateRequest_of_seal hsealed
  have hnonce : (⟨nonce.toList.toArray, by simp⟩ : SnapshotNonce) = nonce := by
    ext
    simp
  have hlength : ¬ ciphertext.length < tagLength := by
    rw [codec.length_sealBytes hseal]
    omega
  have hopen := codec.open_sealBytes hseal
  rw [openEnvelope, validateEnvelope_sealed hrequest]
  simp only [Bind.bind, Except.bind, plainEnvelope, decodeLowerHex_lowerHex]
  rw [dif_pos (by simp)]
  simp only [if_neg hlength, loadKey, hkey, hnonce]
  have hopened : codec.openBytes key nonce { plainEnvelope request snapshotId nonce with
      ciphertextHex := lowerHex ciphertext }.aad ciphertext = some request.source.exactBytes :=
    hopen
  simp only [plainEnvelope] at hopened
  simp only [hopened]
  have hsource : fileRevisionHash codec.sha256 (recordOf request snapshotId hash).targetConfigPath
      ⟨(recordOf request snapshotId hash).originalExisted, request.source.exactBytes,
        (recordOf request snapshotId hash).originalPermissions,
        (recordOf request snapshotId hash).originalOwner⟩ =
      fileRevisionHash codec.sha256 request.targetConfigPath request.source := rfl
  have hbefore : (recordOf request snapshotId hash).beforeHash = request.beforeHash := rfl
  rw [hsource, hbefore]
  by_cases hrevision : fileRevisionHash codec.sha256 request.targetConfigPath request.source =
      request.beforeHash
  · rw [if_neg (not_not.mpr hrevision), and_iff_right hrevision, Except.ok.injEq, eq_comm]
  · rw [if_pos hrevision]
    exact iff_of_false (fun h ↦ nomatch h) fun h ↦ hrevision h.1

theorem find?_id {records : List SnapshotRecord} {record : SnapshotRecord}
    (h : DistinctIds records) (hmem : record ∈ records) :
    records.find? (fun other ↦ other.snapshotId = record.snapshotId) = some record := by
  rcases hfind : records.find? _ with _ | other
  · have hnot := List.find?_eq_none.mp hfind record hmem
    exact absurd (decide_eq_true rfl) hnot
  · have hid : other.snapshotId = record.snapshotId := by simpa using List.find?_some hfind
    rw [h.eq_of_id hmem (List.mem_of_find?_eq_some hfind) hid]

/-- A record that was pruned is not found under its id. -/
theorem find?_id_retained {now : Option ℕ} {records : List SnapshotRecord}
    {record : SnapshotRecord} (h : DistinctIds records) (hmem : record ∈ records)
    (hgone : record ∉ retained now records) :
    (retained now records).find? (fun other ↦ other.snapshotId = record.snapshotId) = none := by
  rw [List.find?_eq_none]
  intro other hother hid
  have hsame := h.eq_of_id hmem (retained_subset hother) (of_decide_eq_true hid)
  exact hgone (hsame ▸ hother)

/-- The store that an accepted `create` leaves behind. -/
def created (codec : SnapshotCodec) (store : FileSnapshotStore) (index : SnapshotIndex)
    (key : MasterKey) (request : SnapshotRequest) (snapshotId : String)
    (envelope : SnapshotEnvelope) : FileSnapshotStore :=
  prune codec (some request.createdAtMs) (indexWith codec index request snapshotId envelope)
    (writeIndex codec (indexWith codec index request snapshotId envelope)
      { store with
        masterKey := some key
        envelopes := store.envelopes.insert
          (.current request.agentId request.createdAtMs snapshotId)
          (codec.renderEnvelope envelope) })

section Created

variable {store : FileSnapshotStore} {request : SnapshotRequest} {draws : SnapshotDraws}
  {index : SnapshotIndex} {key : MasterKey} {snapshotId : String} {envelope : SnapshotEnvelope}

theorem validId_of_created (h : Created codec store request draws index key snapshotId envelope) :
    validateId snapshotId = .ok () := by
  obtain ⟨hrequest, ciphertext, -, rfl⟩ := validateRequest_of_seal h.sealed
  exact (valid_ids_of_request hrequest).1

theorem distinctIds_indexWith
    (h : Created codec store request draws index key snapshotId envelope) :
    DistinctIds (indexWith codec index request snapshotId envelope).records :=
  (validateRecords_iff.mp (valid_indexWith h).2).2

theorem readIndex_created (h : Created codec store request draws index key snapshotId envelope)
    (index' : SnapshotIndex) :
    readIndex codec (created codec store index key request snapshotId envelope) = .ok index' ↔
      (codec.renderIndex (pruned (some request.createdAtMs)
        (indexWith codec index request snapshotId envelope))).length ≤ maxIndexBytes ∧
      index' = pruned (some request.createdAtMs)
        (indexWith codec index request snapshotId envelope) := by
  obtain ⟨hversion, hrecords⟩ := valid_indexWith h
  obtain ⟨hall, hdistinct⟩ := validateRecords_iff.mp hrecords
  refine readIndex_rendered
    (indexFile_prune _ (indexWith codec index request snapshotId envelope) _)
    ⟨hversion, validateRecords_iff.mpr ⟨?_, ?_⟩⟩ index'
  · exact fun record hrecord ↦ hall record (retained_subset hrecord)
  · exact hdistinct.filter _

/-- The envelope of a record that stays is where `load` looks for it. -/
theorem lookup_created
    (hkept : recordOf request snapshotId (codec.sha256 (codec.renderEnvelope envelope)) ∈
      (pruned (some request.createdAtMs)
        (indexWith codec index request snapshotId envelope)).records) :
    (created codec store index key request snapshotId envelope).envelopes.lookup
        (resolveEnvelopePath (created codec store index key request snapshotId envelope)
          (recordOf request snapshotId (codec.sha256 (codec.renderEnvelope envelope)))) =
      some (codec.renderEnvelope envelope) := by
  have hlookup : (created codec store index key request snapshotId envelope).envelopes.lookup
      (currentEnvelopePath
        (recordOf request snapshotId (codec.sha256 (codec.renderEnvelope envelope)))) =
      some (codec.renderEnvelope envelope) := by
    rw [created, lookup_prune hkept rfl]
    exact AList.lookup_insert _
  rw [resolveEnvelopePath, if_pos (by rw [hlookup]; rfl), hlookup]

/-- What `load` does once the index is read. -/
theorem load_created (h : Created codec store request draws index key snapshotId envelope)
    (hread : readIndex codec (created codec store index key request snapshotId envelope) =
      .ok (pruned (some request.createdAtMs)
        (indexWith codec index request snapshotId envelope)))
    (hkept : recordOf request snapshotId (codec.sha256 (codec.renderEnvelope envelope)) ∈
      (pruned (some request.createdAtMs)
        (indexWith codec index request snapshotId envelope)).records) :
    load codec (created codec store index key request snapshotId envelope) snapshotId =
      if maxEnvelopeBytes < (codec.renderEnvelope envelope).length then
        .error "快照 envelope 超过安全上限"
      else openEnvelope codec (created codec store index key request snapshotId envelope)
        (recordOf request snapshotId (codec.sha256 (codec.renderEnvelope envelope))) envelope := by
  have hfind : (pruned (some request.createdAtMs)
      (indexWith codec index request snapshotId envelope)).records.find?
        (fun other ↦ other.snapshotId = snapshotId) = some (recordOf request snapshotId
          (codec.sha256 (codec.renderEnvelope envelope))) :=
    find?_id ((distinctIds_indexWith h).filter _) hkept
  have hhash : (recordOf request snapshotId
      (codec.sha256 (codec.renderEnvelope envelope))).envelopeHash =
        codec.sha256 (codec.renderEnvelope envelope) := rfl
  rw [load, validId_of_created h]
  simp only [Bind.bind, Except.bind]
  rw [hread]
  simp only [hfind, lookup_created hkept, hhash]
  rw [if_neg (not_not.mpr rfl)]
  simp only [codec.parse_renderEnvelope]

/-- A record that was pruned before `create` returned is not in the index. -/
theorem load_created_gone (h : Created codec store request draws index key snapshotId envelope)
    (hread : readIndex codec (created codec store index key request snapshotId envelope) =
      .ok (pruned (some request.createdAtMs)
        (indexWith codec index request snapshotId envelope)))
    (hgone : recordOf request snapshotId (codec.sha256 (codec.renderEnvelope envelope)) ∉
      (pruned (some request.createdAtMs)
        (indexWith codec index request snapshotId envelope)).records) :
    load codec (created codec store index key request snapshotId envelope) snapshotId =
      .error "快照不存在" := by
  have hmem : recordOf request snapshotId (codec.sha256 (codec.renderEnvelope envelope)) ∈
      (indexWith codec index request snapshotId envelope).records :=
    List.mem_append_right _ (List.mem_singleton_self _)
  have hfind : (pruned (some request.createdAtMs)
      (indexWith codec index request snapshotId envelope)).records.find?
        (fun other ↦ other.snapshotId = snapshotId) = none :=
    find?_id_retained (distinctIds_indexWith h) hmem hgone
  rw [load, validId_of_created h]
  simp only [Bind.bind, Except.bind]
  rw [hread]
  simp only [hfind]

theorem loadsBack_created_iff
    (h : Created codec store request draws index key snapshotId envelope) :
    LoadsBack codec (created codec store index key request snapshotId envelope) request
        (recordOf request snapshotId (codec.sha256 (codec.renderEnvelope envelope))) ↔
      Survives codec index request snapshotId envelope := by
  set record := recordOf request snapshotId (codec.sha256 (codec.renderEnvelope envelope))
  set next := indexWith codec index request snapshotId envelope
  have hdistinct : DistinctIds next.records := distinctIds_indexWith h
  have hkey : (created codec store index key request snapshotId envelope).masterKey = some key :=
    masterKey_prune _ _ _
  constructor
  · rintro ⟨snapshot, hload, -, -, -⟩
    have hload : load codec (created codec store index key request snapshotId envelope)
      snapshotId = .ok snapshot := hload
    obtain ⟨index', hread⟩ : ∃ index', readIndex codec
        (created codec store index key request snapshotId envelope) = .ok index' := by
      rcases hread : readIndex codec (created codec store index key request snapshotId envelope)
        with error | index'
      · rw [load, validId_of_created h, hread] at hload
        nomatch hload
      · exact ⟨index', rfl⟩
    obtain ⟨hindexFits, rfl⟩ := (readIndex_created h index').mp hread
    by_cases hkept : record ∈ (pruned (some request.createdAtMs) next).records
    · rw [load_created h hread hkept] at hload
      by_cases hlarge : maxEnvelopeBytes < (codec.renderEnvelope envelope).length
      · rw [if_pos hlarge] at hload
        nomatch hload
      · rw [if_neg hlarge] at hload
        obtain ⟨hrevision, -⟩ := (openEnvelope_sealed h.sealed hkey snapshot).mp hload
        exact ⟨(kept_iff hdistinct).mp hkept, hrevision, not_lt.mp hlarge, hindexFits⟩
    · rw [load_created_gone h hread hkept] at hload
      nomatch hload
  · intro hsurvives
    have hkept : record ∈ (pruned (some request.createdAtMs) next).records :=
      (kept_iff hdistinct).mpr hsurvives.kept
    have hread := (readIndex_created h _).mpr ⟨hsurvives.indexFits, rfl⟩
    refine ⟨⟨record, request.source.exactBytes⟩, ?_, rfl, rfl, rfl⟩
    refine (load_created h hread hkept).trans ?_
    rw [if_neg (not_lt.mpr hsurvives.envelopeFits)]
    exact (openEnvelope_sealed h.sealed hkey _).mpr ⟨hsurvives.revision, rfl⟩

end Created

/-- The parts of an accepted `create` are determined by its arguments. -/
theorem Created.unique {store : FileSnapshotStore} {request : SnapshotRequest}
    {draws : SnapshotDraws} {index index' : SnapshotIndex} {key key' : MasterKey}
    {snapshotId snapshotId' : String} {envelope envelope' : SnapshotEnvelope}
    (h : Created codec store request draws index key snapshotId envelope)
    (h' : Created codec store request draws index' key' snapshotId' envelope') :
    index' = index ∧ snapshotId' = snapshotId ∧ envelope' = envelope := by
  obtain rfl := Except.ok.inj (h.read.symm.trans h'.read)
  obtain rfl := Except.ok.inj (h.loaded.symm.trans h'.loaded)
  obtain rfl := Except.ok.inj (h.fresh.symm.trans h'.fresh)
  obtain rfl := Except.ok.inj (h.sealed.symm.trans h'.sealed)
  exact ⟨rfl, rfl, rfl⟩

/-- **What `create` has stored can be loaded right after** exactly when the new record survives. -/
theorem create_load_iff {store store' : FileSnapshotStore} {request : SnapshotRequest}
    {draws : SnapshotDraws} {record : SnapshotRecord}
    (h : create codec store request draws = (.ok record, store')) :
    LoadsBack codec store' request record ↔
      ∃ index key snapshotId envelope,
        Created codec store request draws index key snapshotId envelope ∧
          Survives codec index request snapshotId envelope := by
  obtain ⟨index, key, snapshotId, envelope, hcreated, rfl, rfl⟩ := create_eq_ok h
  refine (loadsBack_created_iff hcreated).trans ⟨fun hsurvives ↦ ?_, ?_⟩
  · exact ⟨index, key, snapshotId, envelope, hcreated, hsurvives⟩
  · rintro ⟨index', key', snapshotId', envelope', hcreated', hsurvives⟩
    obtain ⟨rfl, rfl, rfl⟩ := hcreated.unique hcreated'
    exact hsurvives

/-! ## A clock that went back -/

/-- A file as it is before a transaction. -/
def keptSource : ConfigSource := ⟨true, textBytes "model = \"m\"\n", some 0o600, some "501"⟩

/-- The unpinned request that a disconnect makes at a given time. -/
def requestAt (createdAtMs : ℕ) : SnapshotRequest where
  operationId := "op"
  agentId := "codex"
  targetConfigPath := "/home/u/.codex/config.toml"
  beforeHash := fileRevisionHash plainCodec.sha256 "/home/u/.codex/config.toml" keptSource
  source := keptSource
  createdAtMs := createdAtMs
  connectorId := "codex"
  appVersion := "1.0.0"
  pinned := false

def drawsAt (n : ℕ) : SnapshotDraws :=
  ⟨Vector.replicate 32 0, [Vector.replicate 16 (UInt8.ofNat n)], Vector.replicate 12 0⟩

/-- The store after five requests, at times after nine. -/
def fiveNewer : FileSnapshotStore :=
  ([10, 11, 12, 13, 14].map fun time ↦ Call.create (requestAt time) (drawsAt time)).foldl
    (after plainCodec) empty

theorem Reachable.foldl {store : FileSnapshotStore} (h : Reachable codec store)
    (calls : List Call) : Reachable codec (calls.foldl (after codec) store) := by
  induction calls generalizing store with
  | nil => exact h
  | cons call calls ih => exact ih (.step call h)

/-- Whether `create` accepts a request whose snapshot cannot be loaded then. -/
def loses (codec : SnapshotCodec) (store : FileSnapshotStore) (request : SnapshotRequest)
    (draws : SnapshotDraws) : Bool :=
  match create codec store request draws with
  | (.error _, _) => false
  | (.ok record, store') => !(load codec store' record.snapshotId).isOk

theorem not_loadsBack_of_loses {store : FileSnapshotStore} {request : SnapshotRequest}
    {draws : SnapshotDraws} (h : loses codec store request draws = true) :
    ∃ record store', create codec store request draws = (.ok record, store') ∧
      ¬ LoadsBack codec store' request record := by
  rw [loses] at h
  split at h
  · nomatch h
  next record store' hcreate =>
    refine ⟨record, store', hcreate, ?_⟩
    rintro ⟨snapshot, hload, -⟩
    rw [hload] at h
    nomatch h

theorem exists_of_isOk {store : FileSnapshotStore} {request : SnapshotRequest}
    {draws : SnapshotDraws} (h : (create codec store request draws).1.isOk = true) :
    ∃ record store', create codec store request draws = (.ok record, store') := by
  rcases hcreate : create codec store request draws with ⟨error | record, store'⟩
  · rw [hcreate] at h
    nomatch h
  · exact ⟨record, store', rfl⟩

/-- A request at an earlier time is accepted, and what it stored is gone. -/
theorem not_loadsBack_earlier : Reachable plainCodec fiveNewer ∧ ∃ record store',
    create plainCodec fiveNewer (requestAt 9) (drawsAt 9) = (.ok record, store') ∧
      ¬ LoadsBack plainCodec store' (requestAt 9) record :=
  ⟨Reachable.empty.foldl _, not_loadsBack_of_loses (by decide +kernel)⟩

/-- The first request of a store. -/
theorem create_load_iff_first : ∃ record store',
    create plainCodec empty (requestAt 9) (drawsAt 9) = (.ok record, store') ∧
      (LoadsBack plainCodec store' (requestAt 9) record ↔
        ∃ index key snapshotId envelope,
          Created plainCodec empty (requestAt 9) (drawsAt 9) index key snapshotId envelope ∧
            Survives plainCodec index (requestAt 9) snapshotId envelope) := by
  have hok : (create plainCodec empty (requestAt 9) (drawsAt 9)).1.isOk = true := by
    decide +kernel
  obtain ⟨record, store', hcreate⟩ := exists_of_isOk hok
  exact ⟨record, store', hcreate, create_load_iff hcreate⟩

end FileSnapshotStore

end TokenStation
