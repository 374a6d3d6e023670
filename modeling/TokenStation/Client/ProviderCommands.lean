import TokenStation.Client.ProviderPurge

/-!
# Adding, editing, removing and restoring providers

A provider is a member of the draft's upstreams. The key of an added provider waits in memory for
the next save; the key of an edited one is written at once. A removed provider goes to the recycle
bin. Adding a managed provider can take the place of one of an older version, whose key is removed
with the next save.
-/

namespace TokenStation

open Library JsonValue SecretStore

structure NewProvider where
  name : String
  baseUrl : String
  models : List String
  apiKey : Option String
  isLocal : Bool := false
  credentialSource : String
  credentialReference : Option String := none
  providerDialect : String := "openai-compatible"
  managedRoute : Bool := false
  catalogRevision : Option UInt64 := none

/-- A free provider whose models were validated. -/
structure ValidatedFree where
  preset : FreeProviderPreset
  apiKey : String
  models : JsonValue
  /-- What the draft and the recycle bin were when the validation began. -/
  expectedRevision : UInt64
  expectedTombstone : Option JsonValue

structure ProviderEdit where
  name : String
  baseUrl : String
  apiKey : Option String := none
  credentialSource : Option String := none
  credentialReference : Option String := none
  providerCall : Option String := none

namespace Command

/-! ## Checks -/

def managedEnterpriseProviderId : String := "tokenstation"

def isManagedEnterpriseProviderId (name : String) : Bool :=
  name == managedEnterpriseProviderId ||
    match stripPrefix "tokenstation_".toList name.toList with
    | some suffix => !suffix.isEmpty && suffix.all Char.isDigit
    | none => false

/-- The text after the authority is exactly the path. -/
def azureBaseUrlIsExact (baseUrl : String) : Bool :=
  let rest := baseUrl.toList.dropWhile (· != ':')
  match stripPrefix "://".toList rest with
  | some authorityAndPath => authorityAndPath.dropWhile (· != '/') == "/openai/v1".toList
  | none => false

def maxModelsPerProvider : ℕ := 4096

def maxModelIdBytes : ℕ := 512

/-- The loop over the given models: they are trimmed, and told apart. -/
def normalizeModels : List String → List String → Except String (List String)
  | [], normalized => .ok normalized
  | model :: rest, normalized =>
    if trimmed model = "" then normalizeModels rest normalized
    else do
      ensure ((trimmed model).utf8ByteSize ≤ maxModelIdBytes ∧
          (trimmed model).toList.any EgressConfig.isControl = false)
        ("Model IDs must be 1-" ++ toString maxModelIdBytes
          ++ " bytes and contain no control characters")
      normalizeModels rest
        (if trimmed model ∈ normalized then normalized else normalized ++ [trimmed model])

def normalizeProviderModelIds (models : List String) : Except String (List String) := do
  ensure (models.length ≤ maxModelsPerProvider)
    ("A Provider may configure at most " ++ toString maxModelsPerProvider ++ " models")
  let normalized ← normalizeModels models []
  ensure (normalized ≠ []) "请至少填一个模型"
  return normalized

/-- A text that is entered: it is trimmed, and nothing if it is empty then. -/
def entered (text : Option String) : Option String := (text.map trimmed).filter (· ≠ "")

def storeAuth : JsonValue := .object [("slot", .string "provider_api_key"), ("store", .bool true)]

section Commands

variable (host : ProviderHost)

def newEndpoint (baseUrl : String) : Except String ProviderEndpoint :=
  (ProviderEndpoint.tryNew (trimmed baseUrl)).mapError fun error ↦
    "Base URL 不合法：" ++ host.endpointError error

def draftEgressConfig (draft : JsonValue) : Except String EgressConfig :=
  match (draft.member "egress").filter (!·.isNull) with
  | some value => (host.egressOf value).mapError ("出站配置不合法：" ++ ·)
  | none => .ok {}

def ensureCredentialTransport (endpoint : ProviderEndpoint) (egress : EgressConfig) :
    Except String Unit := do
  ensure (endpoint.usesHttps = true ∨ endpoint.isLoopback host.parsers = true)
    "Remote Provider endpoints must use HTTPS. A loopback endpoint can use HTTP."
  if endpoint.usesHttps then return ()
  else do
    let bypasses ← egress.bypassesProxy host.parsers endpoint.asStr
    ensure (bypasses = true)
      "Plaintext loopback Provider endpoints must bypass the configured proxy"

/-- `provider_auth_value`. -/
def providerAuthValue (source : String) (reference : Option String) :
    Except String (Option JsonValue) :=
  if source = "none" then .ok none
  else if source = "store" then .ok (some storeAuth)
  else if source = "env" then do
    let name ← EgressConfig.require (entered reference) "环境变量凭据需要填写变量名"
    ensure (name.utf8ByteSize ≤ 128 ∧ (name.toList.all fun c ↦ c.isAlphanum || c == '_') = true ∧
        name.toList.head?.any Char.isDigit = false)
      "环境变量名只能包含字母、数字和下划线，且不能以数字开头"
    return some (.object [("slot", .string "provider_api_key"), ("env", .string name)])
  else if source = "file" then do
    let path ← EgressConfig.require (entered reference) "文件凭据需要填写绝对路径"
    ensure (host.isAbsolutePath path = true) "文件凭据必须使用绝对路径"
    return some (.object [("slot", .string "provider_api_key"), ("file", .string path)])
  else .error ("未知凭据来源 `" ++ source ++ "`")

/-- The catalog of a provider is derived data in a file of its own. -/
def removeCatalog (_name : String) : Command Unit := writeFiles id id

def removeCatalogs : List String → Command Unit
  | [] => return ()
  | name :: rest => do
    removeCatalog name
    removeCatalogs rest

def rebuildRouting (draft : JsonValue) : JsonValue :=
  setMember "router" (host.rebuiltRouter (draft.index "router")) draft

/-- A key that waits for the next save. -/
def submitKey (name key : String) (app : AppInner) : AppInner :=
  { app with
    pendingProviderKeys := app.pendingProviderKeys.insert name key
    pendingProviderKeyRemovals := app.pendingProviderKeyRemovals.erase name }

/-! ## Adding -/

def managedUpstreams (draft : JsonValue) : List (String × JsonValue) :=
  ((draft.index "upstreams").asObject.getD []).filter fun entry ↦
    (entry.2.index "managed_route").asBool == some true

/-- The older managed provider whose place the new one takes, if any. -/
def legacyManagedUpstreams (draft : JsonValue) (name : String) (managedRoute : Bool) :
    Except String (List (String × JsonValue)) :=
  let managed := managedUpstreams draft
  let candidates := managed.filter fun entry ↦
    entry.1 != name && !isManagedEnterpriseProviderId entry.1
  let directTarget :=
    (((draft.index "routing").index "direct_target").index "upstream").asStr
  if !managedRoute || managed.any fun entry ↦ isManagedEnterpriseProviderId entry.1 then .ok []
  else match candidates.find? fun entry ↦ some entry.1 == directTarget with
    | some candidate => .ok [candidate]
    | none =>
      if candidates.length ≤ 1 then .ok []
      else .error ("存在多个旧版托管 Provider " ++ "、".intercalate (candidates.map Prod.fst)
        ++ "，但当前直连路由未指向其中一个，无法确定迁移目标")

def removeUpstreams (names : List String) (draft : JsonValue) : JsonValue :=
  names.foldl (fun draft name ↦ removeUpstream name draft) draft

def restoreUpstreams (upstreams : List (String × JsonValue)) (draft : JsonValue) : JsonValue :=
  upstreams.foldl (fun draft entry ↦ setUpstream entry.1 entry.2 draft) draft

/-- The draft's home route is the managed provider's model. -/
def routeDirect (name model : String) (draft : JsonValue) : JsonValue :=
  let routing := draft.index "routing"
  let routing := if routing.isObject then routing else .object []
  let routing := setMember "mode" (.string "direct") routing
  let routing := setMember "direct_target"
    (.object [("upstream", .string name), ("model", .string model)]) routing
  setMember "router" (setMember "routing_mode" (.string "tiered") (draft.index "router"))
    (setMember "routing" routing draft)

/-- `restore_managed_route_mutation`. -/
def restoreRoute (previous draft : JsonValue) : JsonValue :=
  let draft := setMember "router" (previous.index "router") draft
  match previous.member "routing" with
  | some routing => setMember "routing" routing draft
  | none => removeMember "routing" draft

def newUpstream (input : NewProvider) (baseUrl name : String) (models : List String)
    (auth : Option JsonValue) : JsonValue :=
  .object ([("provider", .string input.providerDialect), ("base_url", .string baseUrl),
      ("models", host.modelValues name baseUrl models input.managedRoute input.catalogRevision)]
    ++ (if input.isLocal then [("local", .bool true)] else [])
    ++ (if input.managedRoute then [("managed_route", .bool true)] else [])
    ++ auth.toList.map fun value ↦ ("auth", value))

/-- What `add_provider_impl` writes into the draft. -/
def addedDraft (managedRoute : Bool) (legacy : List String) (name model : String)
    (upstream draft : JsonValue) : JsonValue :=
  let draft := setUpstream name upstream (removeUpstreams legacy draft)
  if managedRoute then routeDirect name model draft else draft

/-- What it takes back after an error. -/
def unaddedDraft (managedRoute : Bool) (legacy : List (String × JsonValue)) (name : String)
    (previous draft : JsonValue) : JsonValue :=
  let draft := removeUpstream name draft
  if managedRoute then restoreRoute previous (restoreUpstreams legacy draft) else draft

/-- The key of a replaced provider is removed with the next save. -/
def retireKey (app : AppInner) (name : String) : AppInner :=
  { app with
    pendingProviderKeys := app.pendingProviderKeys.erase name
    pendingProviderKeyRemovals := app.pendingProviderKeyRemovals.insert name () }

/-- The keys after a provider was added with a stored key. -/
def submitAdded (name key : String) (legacy : List String) (app : AppInner) : AppInner :=
  legacy.foldl retireKey (submitKey name key app)

/-- `add_provider_impl`, once its arguments are checked. -/
def commitAdded (managedRoute : Bool) (legacy : List (String × JsonValue)) (name model : String)
    (key : Option String) (upstream : JsonValue) : Command Unit := do
  let s ← Program.read
  updateApp fun app ↦ { app with
    draft := addedDraft managedRoute (legacy.map Prod.fst) name model upstream app.draft }
  match ← Program.attempt (observeDraft host.toDesktopHost) with
  | .error error => do
    updateApp fun app ↦ { app with
      draft := unaddedDraft managedRoute legacy name s.app.draft app.draft }
    Program.fail error
  | .ok () =>
    match key with
    | some key => updateApp (submitAdded name key (legacy.map Prod.fst))
    | none => return ()

def addProvider (input : NewProvider) : Command Unit := do
  ofText (ensure (input.providerDialect = "openai-compatible" ∨
    input.providerDialect = "azure-openai-v1") "Provider dialect 不受支持")
  let name := trimmed input.name
  ofText (ensure (name ≠ "") "供应商名不能为空")
  ofText ((upstreamRef name).mapError ("供应商名不合法: " ++ ·) |>.map fun _ ↦ ())
  let endpoint ← ofText (newEndpoint host input.baseUrl)
  ofText (ensure (input.providerDialect ≠ "azure-openai-v1" ∨
    azureBaseUrlIsExact endpoint.asStr = true)
    "Azure OpenAI v1 的 Base URL 路径必须精确为 `/openai/v1`")
  ensureEditable
  recoverPendingProviderPurge host
  let s ← Program.read
  let egress ← ofText (draftEgressConfig host s.app.draft)
  ofText (ensureCredentialTransport host endpoint egress)
  ofText (ensure (upstreamOf s.app.draft name = none)
    ("供应商 `" ++ name ++ "` 已存在，请在 Provider 详情中编辑"))
  let file ← readTombstones
  ofText (ensure (file.providers.lookup name = none)
    ("Provider 回收站中已有 `" ++ name ++ "`，请先恢复它，再在详情中编辑"))
  let legacy ← ofText (legacyManagedUpstreams s.app.draft name input.managedRoute)
  let models ← ofText (normalizeProviderModelIds input.models)
  removeCatalogs (name :: legacy.map Prod.fst)
  let auth ← ofText (providerAuthValue host input.credentialSource input.credentialReference)
  ofText (ensure (input.credentialSource ≠ "store" ∨ entered input.apiKey ≠ none)
    "本地凭据存储需要填写 API Key")
  ofText (ensure (input.credentialSource = "store" ∨ entered input.apiKey = none)
    "env/file 凭据只保存引用，不能同时提交 API Key 明文")
  commitAdded host input.managedRoute legacy name (models.headD "") (entered input.apiKey)
    (newUpstream host input endpoint.asStr name models auth)

/-- Whether two optional documents are equal. -/
def sameOptional : Option JsonValue → Option JsonValue → Bool
  | some value, some expected => host.sameValue value expected
  | none, none => true
  | _, _ => false

/-- `add_free_provider`, from the end of its validation on. -/
def commitFree (input : ValidatedFree) : Command Unit := do
  ensureEditable
  let s ← Program.read
  ofText (ensure (s.app.configState.draftRevision = input.expectedRevision)
    "验证期间配置已变化，请按当前出站设置重新验证")
  ofText (ensure (upstreamOf s.app.draft input.preset.upstreamName = none)
    ("免费供应商 `" ++ input.preset.upstreamName ++ "` 已存在"))
  let file ← readTombstones
  let current := (file.providers.lookup input.preset.upstreamName).map Tombstone.provider
  ofText (ensure (sameOptional host current input.expectedTombstone = true)
    ("验证期间 Provider `" ++ input.preset.upstreamName ++ "` 的回收状态已变化，请重试"))
  updateApp fun app ↦ { app with
    draft := setUpstream input.preset.upstreamName (.object [
      ("provider", .string "openai-compatible"), ("base_url", .string input.preset.baseUrl),
      ("access_tier", .string "free"), ("auth", storeAuth), ("models", input.models)]) app.draft }
  match ← Program.attempt (observeDraft host.toDesktopHost) with
  | .error error => do
    updateApp fun app ↦ { app with draft := s.app.draft, configState := s.app.configState }
    Program.fail error
  | .ok () => updateApp (submitKey input.preset.upstreamName input.apiKey)

/-- The managed provider with the model. -/
def extendedUpstream (upstream : JsonValue) (items : List JsonValue)
    (baseUrl provider model : String) : JsonValue :=
  let configured := items.any fun item ↦ (item.index "model").asStr == some model
  let items := if configured then items
    else items ++ ((host.modelValues provider baseUrl [model] true none).asArray.getD [])
  setMember "auth" storeAuth (setMember "models" (.array items) upstream)

/-- `extend_managed_enterprise_route`. -/
def extendManagedRoute (provider baseUrl apiKey model : String) : Command Unit := do
  let endpoint ← ofText (newEndpoint host baseUrl)
  ofText (ensure (trimmed apiKey ≠ "") "本地凭据存储需要填写 API Key")
  let models ← ofText (normalizeProviderModelIds [model])
  ensureEditable
  recoverPendingProviderPurge host
  let s ← Program.read
  let egress ← ofText (draftEgressConfig host s.app.draft)
  ofText (ensureCredentialTransport host endpoint egress)
  let upstream ← ofText (EgressConfig.require (upstreamOf s.app.draft provider)
    "托管企业供应商不存在")
  ofText (ensure ((upstream.index "managed_route").asBool = some true)
    ("供应商 `" ++ provider ++ "` 已存在，但不是托管企业供应商"))
  let configured ← ofText (EgressConfig.require (upstream.index "base_url").asStr
    "托管企业供应商缺少 Base URL")
  ofText (ensure (configured = endpoint.asStr) "企业供应商 Base URL 与已配置地址不一致")
  let items ← ofText (EgressConfig.require (upstream.index "models").asArray
    "托管企业供应商的模型配置无效")
  updateApp fun app ↦ { app with
    draft := routeDirect provider (models.headD "") (setUpstream provider
      (extendedUpstream host upstream items endpoint.asStr provider (models.headD "")) app.draft) }
  match ← Program.attempt (observeDraft host.toDesktopHost) with
  | .error error => do
    updateApp fun app ↦ { app with
      draft := restoreRoute s.app.draft (setUpstream provider upstream app.draft)
      configState := s.app.configState }
    Program.fail error
  | .ok () => updateApp (submitKey provider (trimmed apiKey))

/-! ## Editing -/

def ensureGenericMutationAllowed (draft : JsonValue) (name : String) : Except String Unit :=
  ensure (((upstreamOf draft name).bind (memberStr "access_tier")) ≠ some "free")
    ("免费供应商 `" ++ name ++ "` 由内置目录管理，不能通过通用 Provider 接口修改")

def providerCalls : List String :=
  ["legacy", "south_v1_buffered", "south_v1_buffered_streaming",
    "south_v1_buffered_streaming_header_auth"]

def defaultProviderCall : String := "south_v1_buffered_streaming_header_auth"

/-- The edited upstream. A new key without a new source moves the source to the store. -/
def editedUpstream (edit : ProviderEdit) (baseUrl : String) (auth : Option (Option JsonValue))
    (invalidated : Bool) (previous : JsonValue) : JsonValue :=
  let upstream := if invalidated
    then setMember "models" (host.withoutProbes (previous.index "models")) previous else previous
  let upstream := match edit.providerCall with
    | some call => setMember "provider_call" (.string call) upstream
    | none => upstream
  let upstream := setMember "base_url" (.string baseUrl) upstream
  match auth with
  | some (some value) => setMember "auth" value upstream
  | some none => removeMember "auth" upstream
  | none => if (entered edit.apiKey).isSome then setMember "auth" storeAuth upstream else upstream

/-- The catalog and the prices of another account are dropped first. -/
def invalidateIdentity (name : String) (changed : Bool) : Command Unit :=
  if changed then do
    removeCatalog name
    let _ ← clearScopedPrices host [name]
    return ()
  else return ()

/-- The draft and its identity as they were before the edit. -/
def undoEdit (name : String) (previous : JsonValue) (before app : AppInner) : AppInner :=
  let draft := setUpstream name previous app.draft
  { app with
    draft := setMember "pricing" (before.draft.index "pricing") draft
    configState := before.configState }

/-- A key that is written at once. -/
def storeEditedKey (name : String) (previous : JsonValue) (before : AppInner) (key : String) :
    Command Unit := do
  match ← Program.attempt (storeSet name "provider_api_key" key) with
  | .ok () => return ()
  | .error keyError => do
    updateApp (undoEdit name previous before)
    match ← Program.attempt (observeDraft host.toDesktopHost) with
    | .ok () => Program.fail keyError
    | .error rollbackError =>
      failText (keyError.text ++ "；同时回滚 Provider 草稿失败：" ++ rollbackError.text)

/-- `edit_provider_impl`, once its arguments are checked. -/
def commitEdited (edit : ProviderEdit) (name baseUrl : String) (auth : Option (Option JsonValue))
    (previous : JsonValue) (identityChanged transportChanged : Bool) : Command Unit := do
  let s ← Program.read
  invalidateIdentity host name identityChanged
  let next := editedUpstream host edit baseUrl auth (identityChanged || transportChanged) previous
  updateApp fun app ↦ { app with draft := setUpstream name next app.draft }
  match ← Program.attempt (observeDraft host.toDesktopHost) with
  | .error error => do
    updateApp (undoEdit name previous s.app)
    Program.fail error
  | .ok () =>
    match entered edit.apiKey with
    | some key => storeEditedKey host name previous s.app key
    | none => return ()

def editProvider (edit : ProviderEdit) : Command Unit := do
  let name := trimmed edit.name
  let endpoint ← ofText (newEndpoint host edit.baseUrl)
  ensureEditable
  let s ← Program.read
  ofText (ensureGenericMutationAllowed s.app.draft name)
  let previous ← ofText (EgressConfig.require (upstreamOf s.app.draft name)
    ("供应商 `" ++ name ++ "` 不存在"))
  ofText (ensure ((previous.index "provider").asStr ≠ some "azure-openai-v1" ∨
    azureBaseUrlIsExact endpoint.asStr = true)
    "Azure OpenAI v1 的 Base URL 路径必须精确为 `/openai/v1`")
  let auth ← ofText (match edit.credentialSource with
    | some source => (providerAuthValue host source edit.credentialReference).map some
    | none => .ok none)
  ofText (ensure (edit.credentialSource.all (· == "store") = true ∨ entered edit.apiKey = none)
    "env/file 凭据只保存引用，不能同时提交 API Key 明文")
  ofText (ensure (edit.providerCall.all (providerCalls.contains ·) = true)
    "Provider call engine 不受支持")
  let egress ← ofText (draftEgressConfig host s.app.draft)
  ofText (ensureCredentialTransport host endpoint egress)
  let previousAuth := (previous.member "auth").filter (!·.isNull)
  let authChanged := auth.any fun next ↦ !sameOptional host next previousAuth
  commitEdited host edit name endpoint.asStr auth previous
    ((previous.index "base_url").asStr != some endpoint.asStr || (entered edit.apiKey).isSome
      || authChanged)
    (edit.providerCall.any fun next ↦
      (previous.index "provider_call").asStr.getD defaultProviderCall != next)

/-! ## Removing and restoring -/

/-- `provider_tombstones::archive`. -/
def archiveTombstone (nowMs : ℕ) (name : String) (provider : JsonValue) : Command Unit := do
  let file ← readTombstones
  ofText (ensure (file.providers.lookup name = none)
    ("Provider 回收站已有 `" ++ name ++ "`，请先恢复后再编辑，已拒绝覆盖旧恢复点"))
  persistTombstones { file with providers := file.providers.insert name ⟨nowMs, provider⟩ }

/-- `provider_tombstones::take`. -/
def takeTombstone (name : String) : Command (Option JsonValue) := do
  let file ← readTombstones
  match file.providers.lookup name with
  | none => return none
  | some tombstone => do
    persistTombstones { file with providers := file.providers.erase name }
    return some tombstone.provider

/-- A removed provider is put back if its removal is not observed. -/
def undoRemoval (name : String) (provider : JsonValue) (pending : Option String) (app : AppInner) :
    AppInner :=
  { app with
    draft := setUpstream name provider app.draft
    pendingProviderKeys := match pending with
      | some key => app.pendingProviderKeys.insert name key
      | none => app.pendingProviderKeys }

def removeProvider (name : String) (nowMs : ℕ) : Command Unit := do
  ensureEditable
  recoverPendingProviderPurge host
  let name := trimmed name
  let s ← Program.read
  ofText (ensure (host.references s.app name = []) ("供应商仍被引用，不能删除："
    ++ "、".intercalate (host.references s.app name) ++ "。请先调整这些路由"))
  let provider ← ofText (EgressConfig.require (upstreamOf s.app.draft name)
    ("供应商 `" ++ name ++ "` 不存在"))
  removeCatalog name
  archiveTombstone nowMs name provider
  updateApp fun app ↦ { app with
    pendingProviderKeys := app.pendingProviderKeys.erase name
    draft := rebuildRouting host (removeUpstream name app.draft) }
  match ← Program.attempt (observeDraft host.toDesktopHost) with
  | .ok () => return ()
  | .error error => do
    updateApp (undoRemoval name provider (s.app.pendingProviderKeys.lookup name))
    let _ ← Program.attempt (discardTombstone name)
    Program.fail error

def restoreProvider (name : String) (nowMs : ℕ) : Command Unit := do
  ensureEditable
  recoverPendingProviderPurge host
  let name := trimmed name
  let s ← Program.read
  ofText (ensure (upstreamOf s.app.draft name = none)
    ("同名供应商 `" ++ name ++ "` 已存在，不能覆盖恢复"))
  let file ← readTombstones
  let archived ← ofText (EgressConfig.require (file.providers.lookup name)
    ("Provider 回收站中没有 `" ++ name ++ "`"))
  ofText (ensure (isFreeProviderValue archived.provider = false)
    ("免费供应商 `" ++ name ++ "` 必须从免费目录重新验证，不能恢复旧目录快照"))
  removeCatalog name
  let taken ← takeTombstone name
  let provider ← ofText (EgressConfig.require taken
    ("Provider 回收站中没有 `" ++ name ++ "`"))
  updateApp fun app ↦ { app with
    draft := rebuildRouting host (setUpstream name provider app.draft) }
  match ← Program.attempt (observeDraft host.toDesktopHost) with
  | .ok () => return ()
  | .error error => do
    updateApp fun app ↦ { app with draft := removeUpstream name app.draft }
    let _ ← Program.attempt (archiveTombstone nowMs name provider)
    Program.fail error

end Commands

end Command

end TokenStation
