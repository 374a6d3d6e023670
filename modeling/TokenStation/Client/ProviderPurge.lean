import TokenStation.Client.Desktop

/-!
# Emptying the recycle bin

A purge journals the providers of the recycle bin, empties the bin, and then removes the providers'
credentials and prices. What a journal means after a crash is read off the other files: the bin
still holds all of its providers, and the purge has not happened, or none of them.
-/

namespace TokenStation

open Library JsonValue

/-! ## Prices -/

/-- The price table; a price is kept as it is written. -/
structure PriceTable where
  version : UInt32 := 0
  models : List (String × JsonValue) := []

/-- The libraries and the parts of the desktop that the provider commands call. -/
structure ProviderHost extends DesktopHost where
  /-- `serde_json` on price tables. -/
  priceTable : JsonValue → Except String PriceTable
  priceValue : PriceTable → JsonValue
  /-- `serde_json::from_value` on the proxy settings. -/
  egressOf : JsonValue → Except String EgressConfig
  endpointError : EndpointError → String
  isAbsolutePath : String → Bool
  sameValue : JsonValue → JsonValue → Bool
  /-- The capabilities of the models of an added provider. -/
  modelValues : (provider baseUrl : String) → (models : List String) → (managedRoute : Bool) →
    (catalogRevision : Option UInt64) → JsonValue
  /-- A provider's models without what probes have shown. -/
  withoutProbes : JsonValue → JsonValue
  /-- Where a provider is still referenced. -/
  references : AppInner → String → List String
  /-- The router section, rebuilt from its pools. -/
  rebuiltRouter : JsonValue → JsonValue

namespace Command

section Purge

variable (host : ProviderHost)

def draftPriceTable (draft : JsonValue) : Except String PriceTable :=
  match draft.member "pricing" with
  | some pricing => (host.priceTable pricing).mapError ("定价表配置不合法：" ++ ·)
  | none => .ok {}

/-- Whether a price is bound to one of the providers. -/
def isScopedTo (names : List String) (model : String) : Bool :=
  names.any fun name ↦ (name ++ "/").toList.isPrefixOf model.toList

def keptPrices (pricing : PriceTable) (names : List String) : List (String × JsonValue) :=
  pricing.models.filter fun entry ↦ !isScopedTo names entry.1

/-- `clear_provider_scoped_prices_for`: whether a price was removed. -/
def clearScopedPrices (names : List String) : Command Bool := do
  let s ← Program.read
  let pricing ← ofText (draftPriceTable host s.app.draft)
  if (keptPrices pricing names).length = pricing.models.length then return false
  else do
    ofText (ensure (pricing.version.toNat + 1 < 2 ^ 32)
      "pricing version exhausted; start a new configuration")
    updateApp fun app ↦ { app with draft := setMember "pricing" (host.priceValue
      { version := pricing.version + 1, models := keptPrices pricing names }) app.draft }
    return true

/-! ## The journal -/

def loadPendingProviderPurge :
    StoredFile ProviderPurgePending → Except String (Option ProviderPurgePending)
  | .absent => .ok none
  | .unreadable error => .error ("Provider 凭据待清理记录不可读：" ++ error)
  | .malformed error => .error ("Provider 凭据待清理记录损坏，已拒绝复用名称：" ++ error)
  | .holds pending => do
    ensure (pending.version = 1) ("Provider 凭据待清理记录版本 " ++ toString pending.version
      ++ " 不受支持，已拒绝复用名称")
    ensure (pending.providers ≠ []) "Provider 凭据待清理记录为空，已拒绝复用名称"
    ensure (pending.providers.Nodup ∧ ∀ name ∈ pending.providers, SecretStore.trimmed name ≠ "")
      "Provider 凭据待清理记录包含无效或重复名称，已拒绝复用"
    return some pending

def persistPendingProviderPurge (providers : List String) : Command Unit :=
  writeFiles ("保存 Provider 凭据待清理记录失败：" ++ ·) fun files ↦
    { files with purge := .holds { version := 1, providers } }

/-- The journal is removed, and then its directory is synchronized. -/
def removePendingProviderPurge : Command Unit := do
  let s ← Program.read
  match s.files.purge with
  | .absent => return ()
  | _ => do
    writeFiles ("移除 Provider 凭据待清理记录失败：" ++ ·) fun files ↦ { files with purge := .absent }
    writeFiles ("同步 Provider 凭据待清理记录目录失败：" ++ ·) id

/-- `ClientConfig::load`. -/
def loadConfig (host : DesktopHost) : StoredFile ClientConfig → Except String ClientConfig
  | .absent => .error (host.configPath ++ ": not found")
  | .unreadable error => .error (host.configPath ++ ": " ++ error)
  | .malformed error => .error (host.configPath ++ ": " ++ error)
  | .holds config => do
    (config.validate host.parsers).mapError (host.configPath ++ ": " ++ ·)
    return config

/-- The names of upstreams in the configuration on disk; none where there is no file. -/
def persistedAmong (host : DesktopHost) (file : StoredFile ClientConfig) (names : List String) :
    Except String (List String) :=
  match file with
  | .absent => .ok []
  | file => do
    let config ← loadConfig host file
    return names.filter fun name ↦ (config.upstreams.lookup name).isSome

def activeIn (draft : JsonValue) (names : List String) : List String :=
  names.filter fun name ↦ (upstreamOf draft name).isSome

def isDirty (state : ConfigState) : Bool := state.draftFingerprint != state.savedFingerprint

/-! ## Recovery -/

/-- The checks on a committed purge before its credentials are removed. -/
def ensureUnused (names : List String) (s : DesktopState) : Except String Unit := do
  ensure (activeIn s.app.draft names = []) ("当前草稿已复用待清理 Provider "
    ++ "、".intercalate (activeIn s.app.draft names) ++ "，已拒绝删除其凭据")
  let persisted ← (persistedAmong host.toDesktopHost s.files.config names).mapError
    ("无法核对磁盘配置中的待清理 Provider，已拒绝删除凭据：" ++ ·)
  ensure (persisted = []) ("磁盘配置已复用待清理 Provider "
    ++ "、".intercalate persisted ++ "，已拒绝删除其凭据")
  ensure (isDirty s.app.configState = false)
    "Provider 永久删除已提交，但凭据和定价清理待重试；请先保存当前配置"

def storeRemoveProviderApiKeys (upstreams : List String) : Command Unit :=
  mutateSecrets fun map ↦ removeKeys upstreams (map, false)

/-- The draft without the prices is observed and saved. -/
def saveClearedPrices : Command Unit := do
  observeDraft host.toDesktopHost
  let _ ← saveDraft host.toDesktopHost
  return ()

/-- Removing the prices; if they cannot be saved, they are put back into the draft. -/
def retirePrices (names : List String) : Command Unit := do
  let s ← Program.read
  let changed ← clearScopedPrices host names
  if changed then do
    match ← Program.attempt (saveClearedPrices host) with
    | .ok () => return ()
    | .error error => do
      updateApp fun app ↦ { app with
        draft := setMember "pricing" (s.app.draft.index "pricing") app.draft
        configState := s.app.configState }
      failText ("Provider 永久删除已提交，但保存定价清理失败，已记录待重试：" ++ error.text)
  else return ()

/-- The rest of a purge whose recycle bin was emptied. -/
def finishPurge (names : List String) : Command Unit := do
  storeRemoveProviderApiKeys names
  retirePrices host names
  removePendingProviderPurge

/-- A journal against the recycle bin. -/
def recoverPurge (pending : ProviderPurgePending) : Command Unit := do
  let file ← readTombstones
  let retained := pending.providers.filter fun name ↦ (file.providers.lookup name).isSome
  if retained.length = pending.providers.length then removePendingProviderPurge
  else do
    ofText (ensure (retained = []) "Provider 回收站与凭据待清理记录状态不一致，已拒绝自动删除凭据")
    let s ← Program.read
    ofText (ensureUnused host pending.providers s)
    finishPurge host pending.providers

def recoverPendingProviderPurge : Command Unit := do
  let s ← Program.read
  let pending ← ofText (loadPendingProviderPurge s.files.purge)
  match pending with
  | none => return ()
  | some pending => recoverPurge host pending

/-! ## The purge -/

/-- `provider_tombstones::discard_all`. -/
def discardAllTombstones : Command Unit := do
  let file ← readTombstones
  if file.providers.entries ≠ [] then persistTombstones { file with providers := ∅ }
  else return ()

/-- What is reported when the bin could not be emptied. -/
def reportDiscard (names : List String) (error : DesktopError) : Command Unit := do
  let s ← Program.read
  let file ← ofText ((loadTombstones s.files.tombstones).mapError fun stateError ↦ error.text
    ++ "；且无法确认 Provider 回收站是否已提交，待清理记录已保留：" ++ stateError)
  let retained := names.filter fun name ↦ (file.providers.lookup name).isSome
  if retained.length = names.length then do
    match ← Program.attempt removePendingProviderPurge with
    | .ok () => Program.fail error
    | .error cleanupError => failText (error.text ++ "；回收站未提交，但移除待清理记录失败："
        ++ cleanupError.text)
  else if retained = [] then
    failText ("Provider 回收站删除已提交，但持久化确认失败；凭据与定价待清理记录已保留：" ++ error.text)
  else failText (error.text ++ "；Provider 回收站仅删除了部分待清理项，记录已保留并拒绝自动删除凭据")

/-- The bin is emptied under its journal. -/
def discardJournaled (names : List String) : Command Unit := do
  persistPendingProviderPurge names
  match ← Program.attempt discardAllTombstones with
  | .ok () => return ()
  | .error error => reportDiscard names error

/-- Why the bin cannot be emptied now. -/
def ensurePurgeable (names : List String) (s : DesktopState) : Except String Unit := do
  ensure (activeIn s.app.draft names = []) ("当前草稿仍包含回收站 Provider "
    ++ "、".intercalate (activeIn s.app.draft names) ++ "；已拒绝删除活动 Provider 的恢复点")
  let persisted ← (persistedAmong host.toDesktopHost s.files.config names).mapError
    ("无法核对磁盘配置中的 Provider，已拒绝清空回收站：" ++ ·)
  ensure (persisted = []) ("磁盘配置仍包含待删除 Provider "
    ++ "、".intercalate persisted ++ "；请先保存 Provider 删除后再清空回收站")

/-- The names are forgotten once their providers are gone. -/
def forgetKeys (names : List String) (app : AppInner) : AppInner :=
  names.foldl (fun app name ↦ { app with
    pendingProviderKeys := app.pendingProviderKeys.erase name
    pendingProviderKeyRemovals := app.pendingProviderKeyRemovals.erase name }) app

/-- A purge of these providers, from its journal on. -/
def purgeProviders (names : List String) : Command Unit := do
  discardJournaled names
  match ← Program.attempt (recoverPendingProviderPurge host) with
  | .ok () => updateApp (forgetKeys names)
  | .error error => failText ("Provider 永久删除已提交，后续清理已记录待重试：" ++ error.text)

/-- `purge_deleted_providers`. -/
def purgeDeletedProviders : Command Unit := do
  ensureEditable
  recoverPendingProviderPurge host
  let s ← Program.read
  ofText (ensure (isDirty s.app.configState = false)
    "Provider 回收站只能在配置已保存后清空；请先保存当前 Provider 删除")
  let file ← readTombstones
  let names := (ClientConfig.members file.providers).map Prod.fst
  ofText (ensurePurgeable host names s)
  if names = [] then return () else purgeProviders host names

end Purge

end Command

end TokenStation
