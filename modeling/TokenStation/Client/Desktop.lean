import TokenStation.Client.ConfigState
import TokenStation.Client.Draft
import TokenStation.Client.Secrets
import TokenStation.Library.Programs

/-!
# The desktop's commands

A command runs under one lock on the desktop's state: the draft, the identities of its contents, the
keys that were entered and not saved yet. It reads and writes five files. Each write succeeds or
fails as a whole; other processes can change the secrets whenever the lock of that file is free.

`saveDraft` replaces the configuration file and, in one section under the lock of the secrets file,
the keys that were entered.
-/

namespace TokenStation

open Library

/-! ## Files -/

/-- What reading a file finds. A file that was written holds what was written. -/
inductive StoredFile (α : Type) where
  | absent
  | unreadable (error : String)
  | malformed (error : String)
  | holds (content : α)

structure Tombstone where
  deletedAtMs : ℕ
  provider : JsonValue

/-- The recycle bin of providers. -/
structure TombstoneFile where
  version : ℕ := 1
  providers : AList fun _ : String ↦ Tombstone := ∅

/-- The journal of a purge: providers whose credentials are still to be removed. -/
structure ProviderPurgePending where
  version : ℕ
  providers : List String
  deriving DecidableEq

structure DesktopFiles where
  config : StoredFile ClientConfig := .absent
  sidecar : Option RevisionLedger := none
  secrets : SecretsFile := .absent
  tombstones : StoredFile TombstoneFile := .absent
  purge : StoredFile ProviderPurgePending := .absent

/-! ## The state -/

structure AppInner where
  draft : JsonValue
  /-- Set when the configuration could not be loaded; nothing can be edited then. -/
  loadError : Option String := none
  configState : ConfigState
  /-- Keys that were entered and not saved yet. -/
  pendingProviderKeys : AList fun _ : String ↦ String := ∅
  /-- Providers whose keys are removed once the draft is saved. -/
  pendingProviderKeyRemovals : AList fun _ : String ↦ Unit := ∅

/-- What another process does to one entry of the secrets. -/
structure SecretUpdate where
  key : String
  value : Option String
  deriving DecidableEq

structure DesktopState where
  app : AppInner
  files : DesktopFiles
  /-- What other processes do before the secrets are locked here the next times. -/
  others : List (List SecretUpdate) := []

/-- An error as it is reported. A failed save that could not take the keys back says so. -/
inductive DesktopError where
  | message (text : String)
  | unrestored (text rollbackError : String)
  deriving DecidableEq

def DesktopError.text : DesktopError → String
  | message text => text
  | unrestored text rollbackError => text ++ "；同时恢复 Provider 凭据失败：" ++ rollbackError

abbrev Command (α : Type) : Type := Program DesktopState DesktopError α

structure FreeProviderPreset where
  upstreamName : String
  baseUrl : String

/-- The libraries the desktop uses, and its catalog of free providers. -/
structure DesktopHost where
  hash : JsonValue → String
  parsers : Parsers
  /-- `serde_json::from_value`. -/
  fromValue : JsonValue → Except String ClientConfig
  presets : List FreeProviderPreset
  /-- The check of a free provider's models against the catalog. -/
  storedModels : FreeProviderPreset → JsonValue → Except String Unit
  configPath : String

/-! ## Secrets of several processes -/

def SecretUpdate.apply (update : SecretUpdate) (map : Secrets) : Secrets :=
  match update.value with
  | some value => map.insert update.key value
  | none => map.erase update.key

def applyUpdates (updates : List SecretUpdate) (map : Secrets) : Secrets :=
  updates.foldl (fun map update ↦ update.apply map) map

/-- Another process's changes, under the lock. -/
def applyBatch (updates : List SecretUpdate) (file : SecretsFile) : SecretsFile :=
  (mutateStore {} (fun map ↦ (applyUpdates updates map, !updates.isEmpty)) file).2

namespace Command

/-- An error of one of the files. -/
def failText {α : Type} (text : String) : Command α := Program.fail (.message text)

def ofText {α : Type} (result : Except String α) : Command α :=
  Program.ofResult (result.mapError .message)

/-- A write of files, with the text of its error. -/
def writeFiles (text : String → String) (change : DesktopFiles → DesktopFiles) : Command Unit :=
  Program.call fun fault s ↦
    match fault with
    | some error => (.error (.message (text error)), s)
    | none => (.ok (), { s with files := change s.files })

def updateApp (change : AppInner → AppInner) : Command Unit :=
  Program.update fun s ↦ { s with app := change s.app }

/-- What other processes have done to the secrets by now. -/
def othersWrite : Command Unit :=
  Program.update fun s ↦ { s with
    files := { s.files with secrets := applyBatch (s.others.headD []) s.files.secrets }
    others := s.others.tail }

/-- `with_locked_store`, up to the operation: the lock is taken and the map is loaded. -/
def lockStore : Command Secrets := do
  othersWrite
  writeFiles id id
  let s ← Program.read
  ofText (loadStore s.files.secrets)

/-- `LockedStore::persist`. -/
def persist (map : Secrets) : Command Unit :=
  Program.call fun fault s ↦
    let (result, secrets) := writeStore fault map s.files.secrets
    (result.mapError .message, { s with files := { s.files with secrets } })

def mutateSecrets (operation : Secrets → Secrets × Bool) : Command Unit := do
  let map ← lockStore
  if (operation map).2 then persist (operation map).1 else return ()

def storeSet (upstream slot value : String) : Command Unit :=
  mutateSecrets fun map ↦ (map.insert (storeKey upstream slot) value, true)

def storeRemove (upstream slot : String) : Command Unit :=
  mutateSecrets (removeKey (storeKey upstream slot))

/-! ## The recycle bin -/

def loadTombstones : StoredFile TombstoneFile → Except String TombstoneFile
  | .absent => .ok {}
  | .unreadable error => .error ("Provider 回收站不可读：" ++ error)
  | .malformed error => .error ("Provider 回收站损坏，已拒绝覆盖：" ++ error)
  | .holds file =>
    if file.version ≠ 1 then
      .error ("Provider 回收站版本 " ++ toString file.version ++ " 不受支持，已拒绝覆盖")
    else .ok file

def persistTombstones (file : TombstoneFile) : Command Unit :=
  writeFiles ("保存 Provider 回收站失败：" ++ ·) fun files ↦ { files with tombstones := .holds file }

def readTombstones : Command TombstoneFile := do
  let s ← Program.read
  ofText (loadTombstones s.files.tombstones)

/-- `provider_tombstones::discard`. -/
def discardTombstone (name : String) : Command Unit := do
  let file ← readTombstones
  if (file.providers.lookup name).isSome then
    persistTombstones { file with providers := file.providers.erase name }
  else return ()

/-! ## The draft -/

section Draft

variable (host : DesktopHost)

/-- `free_provider_catalog::validate_stored_provider`. -/
def validateStoredProvider (name : String) (provider : JsonValue) : Except String Unit :=
  match host.presets.find? fun preset ↦ preset.upstreamName == name with
  | none => .error ("免费供应商 `" ++ name ++ "` 已不在当前内置目录中，请删除后重新选择")
  | some preset =>
    if (provider.index "provider").asStr ≠ some "openai-compatible" ∨
        (provider.index "base_url").asStr ≠ some preset.baseUrl ∨
        (provider.index "access_tier").asStr ≠ some "free" ∨
        ((provider.index "auth").index "slot").asStr ≠ some "provider_api_key" ∨
        ((provider.index "auth").index "keyring").asBool ≠ some true then
      .error ("免费供应商 `" ++ name ++ "` 与当前内置目录身份不一致，请删除后重新验证")
    else host.storedModels preset provider

def isFreeProviderValue (provider : JsonValue) : Bool :=
  (provider.index "access_tier").asStr == some "free"

/-- `materialize`: the free providers are checked in the order of the document's members. -/
def materializeDraft (draft : JsonValue) : Except String ClientConfig := do
  forEach (fun entry ↦
      if isFreeProviderValue entry.2 then validateStoredProvider host entry.1 entry.2 else .ok ())
    ((draft.index "upstreams").asObject.getD [])
  (host.fromValue draft).mapError ("配置结构不合法: " ++ ·)

def ensureEditable : Command Unit := do
  let s ← Program.read
  match s.app.loadError with
  | some error => failText error
  | none => return ()

/-- `ConfigState::observe_draft`. -/
def observeState (draft : JsonValue) : Command Unit :=
  Program.call fun fault s ↦
    let (outcome, configState, sidecar) :=
      s.app.configState.observeDraft host.hash draft fault.isNone s.files.sidecar
    (outcome.mapError .message, { s with
      app := { s.app with configState }
      files := { s.files with sidecar } })

/-- `AppInner::observe_draft`: a draft that is not observed is given up. -/
def observeDraft : Command Unit := do
  let s ← Program.read
  match ← Program.attempt (observeState host s.app.draft) with
  | .ok () => return ()
  | .error error =>
    updateApp fun app ↦ { app with draft := app.configState.draft }
    Program.fail error

/-- `ConfigState::prepare_save`: its first write is that of observing the draft. -/
def prepareSave (draft : JsonValue) : Command UInt64 := do
  observeState host draft
  Program.call fun fault s ↦
    let (outcome, configState, sidecar) :=
      s.app.configState.prepareSave host.hash draft true fault.isNone s.files.sidecar
    (outcome.mapError .message, { s with
      app := { s.app with configState }
      files := { s.files with sidecar } })

/-- `ConfigState::finish_save`. -/
def finishSave (draft : JsonValue) : Command Unit :=
  Program.call fun fault s ↦
    let (outcome, configState, sidecar) :=
      s.app.configState.finishSave draft fault.isNone s.files.sidecar
    (outcome.mapError .message, { s with
      app := { s.app with configState }
      files := { s.files with sidecar } })

/-! ## Saving -/

/-- `ClientConfig::save`, with the caller's text around its error. -/
def saveConfig (config : ClientConfig) : Command Unit := do
  ofText ((config.validate host.parsers).mapError
    ("写配置失败: " ++ host.configPath ++ ": " ++ ·))
  writeFiles ("写配置失败: " ++ host.configPath ++ ": " ++ ·) fun files ↦
    { files with config := .holds config }

/-- The entered keys, by the names of their providers. -/
def keyEntries (app : AppInner) : List (String × String) :=
  (ClientConfig.members app.pendingProviderKeys).map fun entry ↦
    (storeKey entry.1 "provider_api_key", entry.2)

/-- The map as it was under these keys. -/
def restorePrevious (previous : Secrets) (keys : List String) (map : Secrets) : Secrets :=
  keys.foldl (fun map key ↦
    match previous.lookup key with
    | some value => map.insert key value
    | none => map.erase key) map

/-- Taking the keys back after an error. -/
def rollBack (restored : Secrets) (error : DesktopError) : Command Unit := do
  match ← Program.attempt (persist restored) with
  | .ok () => Program.fail error
  | .error rollbackError => Program.fail (.unrestored error.text rollbackError.text)

/-- The section under the lock of the secrets: the keys are written, then the configuration. -/
def savePendingKeys (config : ClientConfig) : Command Unit := do
  let map ← lockStore
  let s ← Program.read
  let entries := keyEntries s.app
  let replaced := insertAll map entries
  let restored := restorePrevious map (entries.map Prod.fst) replaced
  match ← Program.attempt (persist replaced) with
  | .error error => rollBack restored error
  | .ok () =>
    match ← Program.attempt (saveConfig host config) with
    | .error error => rollBack restored error
    | .ok () => return ()

/-- The configuration is replaced, under the lock of the secrets if keys were entered. -/
def replaceFiles (config : ClientConfig) : Command Unit := do
  let s ← Program.read
  if s.app.pendingProviderKeys.entries = [] then saveConfig host config
  else savePendingKeys host config

/-- The keys of providers that the saved draft no longer stores a key for; a key that cannot be
removed is tried again after the next save. -/
def removeKeysOf : List String → Command Unit
  | [] => return ()
  | upstream :: rest => do
    match ← Program.attempt (storeRemove upstream "provider_api_key") with
    | .ok () => updateApp fun app ↦ { app with
        pendingProviderKeyRemovals := app.pendingProviderKeyRemovals.erase upstream }
    | .error _ => pure ()
    removeKeysOf rest

def discardTombstones : List String → Command Unit
  | [] => return ()
  | upstream :: rest => do
    let _ ← Program.attempt (discardTombstone upstream)
    discardTombstones rest

def saveDraft : Command UInt64 := do
  ensureEditable
  let s ← Program.read
  let config ← ofText (materializeDraft host s.app.draft)
  let revision ← prepareSave host s.app.draft
  replaceFiles host config
  removeKeysOf ((ClientConfig.members s.app.pendingProviderKeyRemovals).map Prod.fst)
  let _ ← Program.attempt (finishSave s.app.draft)
  discardTombstones ((ClientConfig.members s.app.pendingProviderKeys).map Prod.fst)
  updateApp fun app ↦ { app with pendingProviderKeys := ∅ }
  return revision

end Draft

end Command

end TokenStation
