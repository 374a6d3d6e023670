import TokenStation.Client.ConfigRevisions
import TokenStation.Client.ModelLimits
import TokenStation.Client.ProviderCommands

/-!
# Operations that take an edit back

Some operations edit the draft, observe it and write something at once: the configuration, or a key.
When that fails they take the edit back. The price table is put back and observed again; the other
operations put the draft back together with the identities of its contents, as they were before.

The identities hold the last revision that was reserved. A revision that was reserved for the edit
is in the sidecar already when the edit is taken back.
-/

namespace TokenStation

open Library JsonValue Command

/-- The desktop's session, and the sidecar of its configuration. -/
structure RevisionDesk where
  app : AppInner
  sidecar : Option RevisionLedger
  /-- The revisions that the sidecar was written with, and the drafts they were for. -/
  reserved : List (UInt64 × JsonValue) := []

/-- The writes of a save. -/
structure SaveWrites where
  reserves : Bool
  journals : Bool
  /-- The error of the secrets or of the configuration file. -/
  replaced : Option String
  finishes : Bool

/-- A start of the desktop. `saved` is what was loaded, or stands in for it. -/
structure Opening where
  saved : JsonValue
  draft : JsonValue
  configExists : Bool
  /-- Why the configuration could not be loaded. -/
  broken : Option String
  writes : Bool
  reserves : Bool

/-- What `edit_provider_impl` has computed of its arguments. -/
structure CheckedEdit where
  edit : ProviderEdit
  name : String
  baseUrl : String
  auth : Option (Option JsonValue)
  identityChanged : Bool
  transportChanged : Bool

/-- The models of a provider, and the price table if it is another one. -/
structure ModelChange where
  models : JsonValue
  pricing : Option JsonValue := none

/-- An edit of the draft, and how it is taken back. -/
structure Rework where
  edited : JsonValue
  restore : JsonValue → JsonValue

/-- `ConfigState::read_only` -/
def ConfigState.readOnly (hash : JsonValue → String) (draft : JsonValue) : ConfigState where
  saved := draft
  draft := draft
  draftFingerprint := fingerprint hash draft
  savedFingerprint := fingerprint hash draft
  draftRevision := 0
  savedRevision := 0
  ledger := {}

namespace RevisionDesk

/-- The identities and the sidecar after a call. -/
def wrote (state : ConfigState) (sidecar : Option RevisionLedger) (desk : RevisionDesk) :
    RevisionDesk where
  app := { desk.app with configState := state }
  sidecar
  reserved := if sidecar = desk.sidecar then desk.reserved
    else desk.reserved ++ [(state.draftRevision, state.draft)]

def withDraft (draft : JsonValue) (desk : RevisionDesk) : RevisionDesk :=
  { desk with app := { desk.app with draft } }

/-- The draft and the identities as they were before an edit. -/
def restored (state : ConfigState) (restore : JsonValue → JsonValue) (desk : RevisionDesk) :
    RevisionDesk :=
  { desk with app := { desk.app with draft := restore desk.app.draft, configState := state } }

/-- `AppInner::ensure_editable` -/
def ensureEditable (desk : RevisionDesk) : Except String Unit :=
  match desk.app.loadError with
  | some error => .error error
  | none => .ok ()

section Operations

variable (host : ProviderHost)

/-! ## Observing and saving -/

/-- The draft is edited and observed. -/
def observe (draft : JsonValue) (writes : Bool) (desk : RevisionDesk) :
    Except String Unit × RevisionDesk :=
  match desk.app.configState.observeDraft host.hash draft writes desk.sidecar with
  | (.ok (), state, sidecar) => (.ok (), (desk.wrote state sidecar).withDraft draft)
  | (.error error, state, sidecar) =>
    (.error error, (desk.wrote state sidecar).withDraft state.draft)

/-- The keys and the configuration file. -/
def replaceFiles (draft : JsonValue) (fault : Option String) : Except String Unit := do
  let config ← materializeDraft host.toDesktopHost draft
  (config.validate host.parsers).mapError ("写配置失败: " ++ host.configPath ++ ": " ++ ·)
  match fault with
  | some error => .error error
  | none => .ok ()

/-- `AppInner::save_draft` -/
def save (writes : SaveWrites) (desk : RevisionDesk) : Except String Unit × RevisionDesk :=
  match desk.app.loadError, materializeDraft host.toDesktopHost desk.app.draft with
  | some error, _ => (.error error, desk)
  | none, .error error => (.error error, desk)
  | none, .ok _ =>
    match desk.app.configState.prepareSave host.hash desk.app.draft writes.reserves writes.journals
        desk.sidecar with
    | (.error error, state, sidecar) => (.error error, desk.wrote state sidecar)
    | (.ok _, state, sidecar) =>
      match replaceFiles host desk.app.draft writes.replaced with
      | .error error => (.error error, desk.wrote state sidecar)
      | .ok () =>
        let desk := desk.wrote state sidecar
        let (_, state, sidecar) :=
          desk.app.configState.finishSave desk.app.draft writes.finishes desk.sidecar
        let desk := desk.wrote state sidecar
        (.ok (), { desk with app := { desk.app with pendingProviderKeys := ∅ } })

def observeAndSave (draft : JsonValue) (reserves : Bool) (writes : SaveWrites)
    (desk : RevisionDesk) : Except String Unit × RevisionDesk :=
  match observe host draft reserves desk with
  | (.error error, desk) => (.error error, desk)
  | (.ok (), desk) => save host writes desk

/-- An edited draft is observed and saved. After an error it is put back, and so are the
identities. -/
def saveOrRestore (text : String → String) (rework : Rework) (reserves : Bool)
    (writes : SaveWrites) (desk : RevisionDesk) : Except String Unit × RevisionDesk :=
  match observeAndSave host rework.edited reserves writes desk with
  | (.ok (), after) => (.ok (), after)
  | (.error error, after) =>
    (.error (text error), after.restored desk.app.configState rework.restore)

/-! ## Edits -/

/-- An edit of the draft. -/
def edit (draft : JsonValue) (writes : Bool) (desk : RevisionDesk) :
    Except String Unit × RevisionDesk :=
  match desk.ensureEditable with
  | .error error => (.error error, desk)
  | .ok () => observe host draft writes desk

/-! ## The price table -/

/-- `save_synced_table`: the price table that is put back is observed. -/
def saveSyncedTable (pricing : JsonValue) (reserves : Bool) (writes : SaveWrites)
    (observesBack : Bool) (desk : RevisionDesk) : Except String Unit × RevisionDesk :=
  match observeAndSave host (setMember "pricing" pricing desk.app.draft) reserves writes desk with
  | (.ok (), after) => (.ok (), after)
  | (.error error, after) =>
    match observe host desk.app.draft observesBack after with
    | (.ok (), after) => (.error error, after)
    | (.error rollback, after) =>
      let message := error ++ "; cannot restore the price draft: " ++ rollback
      (.error message, { after with app := { after.app with loadError := some message } })

/-- The commit of a price synchronization whose table is another one. -/
def commitPrices (pricing : JsonValue) (reserves : Bool) (writes : SaveWrites)
    (observesBack : Bool) (desk : RevisionDesk) : Except String Unit × RevisionDesk :=
  match desk.ensureEditable with
  | .error error => (.error error, desk)
  | .ok () =>
    if isDirty desk.app.configState then (.error ("Configuration changed during price " ++
      "synchronization. Retry the synchronization."), desk)
    else saveSyncedTable host pricing reserves writes observesBack desk

/-! ## The models of a provider -/

/-- The draft with another price table, if there is one. -/
def withPricing (pricing : Option JsonValue) (draft : JsonValue) : JsonValue :=
  match pricing with
  | some pricing => setMember "pricing" pricing draft
  | none => draft

def setModels (name : String) (models draft : JsonValue) : JsonValue :=
  setUpstream name (setMember "models" models ((upstreamOf draft name).getD .null)) draft

/-- `draft["upstreams"][name]["models"]`, if it is an array. -/
def previousModels (draft : JsonValue) (name : String) : Except String JsonValue :=
  match (upstreamOf draft name).bind (member "models") with
  | some (.array items) => .ok (.array items)
  | _ => .error ("供应商 `" ++ name ++ "` 不存在或模型配置无效")

/-- The models of a provider are replaced. -/
def replacedModels (restoresPricing : Bool) (name : String)
    (change : JsonValue → Except String ModelChange) (desk : RevisionDesk) :
    Except String Rework := do
  desk.ensureEditable
  ensureGenericMutationAllowed desk.app.draft name
  let previous ← previousModels desk.app.draft name
  let change ← change desk.app.draft
  return {
    edited := withPricing change.pricing (setModels name change.models desk.app.draft)
    restore := fun draft ↦
      let draft := setModels name previous draft
      if restoresPricing then setMember "pricing" (desk.app.draft.index "pricing") draft
      else draft }

/-- The first of the provider's models with the name, changed. -/
def changeCapability (name model : String) (change : JsonValue → Except String JsonValue)
    (draft : JsonValue) : Except String ModelChange := do
  let items := (((upstreamOf draft name).getD .null).index "models").asArray.getD []
  match items.findIdx? fun candidate ↦ (candidate.index "model").asStr == some model with
  | none => .error ("供应商 `" ++ name ++ "` 未配置模型 `" ++ model ++ "`")
  | some i =>
    let capability ← change (items.getD i .null)
    return { models := .array (items.set i capability) }

def visionSupported (supported : Bool) (capability : JsonValue) : JsonValue :=
  let capability := setMember "x-token-station-vision-source" (.string "operator") capability
  let capability := removeMember "x-token-station-vision-tested-at-ms" capability
  let capability := setMember "vision" (.bool supported) capability
  setMember "vision_state" (.string (if supported then "declared" else "unsupported")) capability

def limitsSet (contextWindow maxOutputTokens : UInt32) (capability : JsonValue) :
    Except String JsonValue :=
  let output := if 0 < maxOutputTokens then maxOutputTokens.toNat
    else ((ModelLimits.limitAt capability "max_output_tokens").filter (· < 2 ^ 32)).getD 0
  if contextWindow.toNat < output then .error "最大输出 Token 不能大于上下文上限"
  else
    let capability :=
      ModelLimits.writeContext contextWindow ModelLimits.limitSourceOperator capability
    .ok (if 0 < maxOutputTokens
      then ModelLimits.writeOutput maxOutputTokens ModelLimits.limitSourceOperator capability
      else capability)

def ensureNamed (name model : String) : Except String Unit :=
  ensure (name ≠ "" ∧ model ≠ "") "供应商和模型 ID 不能为空"

/-- `replace_provider_models`: `change` is what the chosen models and the provider's catalog make of
the draft. -/
def modelsReplaced (name : String) (change : JsonValue → Except String ModelChange) :
    RevisionDesk → Except String Rework :=
  replacedModels true name change

def visionChange (name model : String) (supported : Bool) (draft : JsonValue) :
    Except String ModelChange := do
  ensureNamed name model
  changeCapability name model (fun capability ↦ .ok (visionSupported supported capability)) draft

/-- `replace_provider_model_vision` -/
def visionReplaced (name model : String) (supported : Bool) : RevisionDesk → Except String Rework :=
  replacedModels false (SecretStore.trimmed name)
    (visionChange (SecretStore.trimmed name) (SecretStore.trimmed model) supported)

def limitsChange (name model : String) (contextWindow maxOutputTokens : UInt32)
    (draft : JsonValue) : Except String ModelChange := do
  ensureNamed name model
  ensure (contextWindow ≠ 0) "上下文上限必须大于 0"
  changeCapability name model (limitsSet contextWindow maxOutputTokens) draft

/-- `replace_provider_model_limits` -/
def limitsReplaced (name model : String) (contextWindow maxOutputTokens : UInt32) :
    RevisionDesk → Except String Rework :=
  replacedModels false (SecretStore.trimmed name)
    (limitsChange (SecretStore.trimmed name) (SecretStore.trimmed model) contextWindow
      maxOutputTokens)

/-- An operation that replaces models, with the text around its error. -/
def replaceModels (text : String → String) (replaced : RevisionDesk → Except String Rework)
    (reserves : Bool) (writes : SaveWrites) (desk : RevisionDesk) :
    Except String Unit × RevisionDesk :=
  match replaced desk with
  | .error error => (.error error, desk)
  | .ok rework => saveOrRestore host text rework reserves writes desk

def replaceProviderModels (name : String) (change : JsonValue → Except String ModelChange) :
    Bool → SaveWrites → RevisionDesk → Except String Unit × RevisionDesk :=
  replaceModels host ("保存供应商模型失败：" ++ ·) (modelsReplaced name change)

def replaceProviderModelVision (name model : String) (supported : Bool) :
    Bool → SaveWrites → RevisionDesk → Except String Unit × RevisionDesk :=
  replaceModels host ("保存模型视觉能力失败：" ++ ·) (visionReplaced name model supported)

def replaceProviderModelLimits (name model : String) (contextWindow maxOutputTokens : UInt32) :
    Bool → SaveWrites → RevisionDesk → Except String Unit × RevisionDesk :=
  replaceModels host ("保存模型限制失败：" ++ ·)
    (limitsReplaced name model contextWindow maxOutputTokens)

/-! ## Providers -/

/-- The price table without the prices that are bound to one of the providers, if it is another. -/
def withoutPrices (names : List String) (draft : JsonValue) : Except String (Option JsonValue) := do
  let pricing ← draftPriceTable host draft
  if (keptPrices pricing names).length = pricing.models.length then return none
  else
    ensure (pricing.version.toNat + 1 < 2 ^ 32)
      "pricing version exhausted; start a new configuration"
    return some (host.priceValue
      { version := pricing.version + 1, models := keptPrices pricing names })

/-- The catalog and the prices of another account are dropped. `catalog` is the error of removing
the catalog. -/
def editedPricing (change : CheckedEdit) (catalog : Option String) (draft : JsonValue) :
    Except String (Option JsonValue) :=
  match change.identityChanged, catalog with
  | false, _ => .ok none
  | true, some error => .error error
  | true, none => withoutPrices host [change.name] draft

def editedProvider (change : CheckedEdit) (catalog : Option String) (desk : RevisionDesk) :
    Except String Rework := do
  let draft := desk.app.draft
  desk.ensureEditable
  let previous ← EgressConfig.require (upstreamOf draft change.name)
    ("供应商 `" ++ change.name ++ "` 不存在")
  let pricing ← editedPricing host change catalog draft
  return {
    edited := setUpstream change.name (editedUpstream host change.edit change.baseUrl change.auth
      (change.identityChanged || change.transportChanged) previous) (withPricing pricing draft)
    restore := fun draft' ↦
      setMember "pricing" (draft.index "pricing") (setUpstream change.name previous draft') }

/-- The key of an edited provider is written. After an error the draft is put back, and
observed. -/
def writeEditedKey (rework : Rework) (fault : Option String) (observesBack : Bool)
    (before after : RevisionDesk) : Except String Unit × RevisionDesk :=
  match fault with
  | none => (.ok (), after)
  | some keyError =>
    let after := after.restored before.app.configState rework.restore
    match observe host after.app.draft observesBack after with
    | (.ok (), after) => (.error keyError, after)
    | (.error rollbackError, after) =>
      (.error (keyError ++ "；同时回滚 Provider 草稿失败：" ++ rollbackError), after)

/-- `edit_provider_impl`, once its arguments are checked. `key` is the error of writing the key. -/
def editProvider (change : CheckedEdit) (catalog : Option String) (reserves : Bool)
    (key : Option String) (observesBack : Bool) (desk : RevisionDesk) :
    Except String Unit × RevisionDesk :=
  match editedProvider host change catalog desk with
  | .error error => (.error error, desk)
  | .ok rework =>
    match observe host rework.edited reserves desk with
    | (.error error, after) =>
      (.error error, after.restored desk.app.configState rework.restore)
    | (.ok (), after) =>
      if (entered change.edit.apiKey).isSome
        then writeEditedKey host rework key observesBack desk after
        else (.ok (), after)

/-- The managed provider is extended by a model, and routed to. -/
def extendedRoute (provider baseUrl model : String) (desk : RevisionDesk) :
    Except String Rework := do
  let draft := desk.app.draft
  desk.ensureEditable
  let upstream ← EgressConfig.require (upstreamOf draft provider) "托管企业供应商不存在"
  let items ← EgressConfig.require (upstream.index "models").asArray
    "托管企业供应商的模型配置无效"
  return {
    edited := routeDirect provider model
      (setUpstream provider (extendedUpstream host upstream items baseUrl provider model) draft)
    restore := fun draft' ↦ restoreRoute draft (setUpstream provider upstream draft') }

/-- `extend_managed_enterprise_route`, once its arguments are checked and a purge was recovered. -/
def extendRoute (provider baseUrl apiKey model : String) (reserves : Bool) (desk : RevisionDesk) :
    Except String Unit × RevisionDesk :=
  match extendedRoute host provider baseUrl model desk with
  | .error error => (.error error, desk)
  | .ok rework =>
    match observe host rework.edited reserves desk with
    | (.error error, after) =>
      (.error error, after.restored desk.app.configState rework.restore)
    | (.ok (), after) => (.ok (), { after with app := submitKey provider apiKey after.app })

/-- The prices of purged providers are removed. `keys` is the error of removing their keys. -/
def retiredPrices (names : List String) (keys : Option String) (desk : RevisionDesk) :
    Except String (Option Rework) := do
  desk.ensureEditable
  ensure (isDirty desk.app.configState = false)
    "Provider 永久删除已提交，但凭据和定价清理待重试；请先保存当前配置"
  match keys with
  | some error => .error error
  | none =>
    let pricing ← withoutPrices host names desk.app.draft
    return pricing.map fun pricing ↦ {
      edited := setMember "pricing" pricing desk.app.draft
      restore := setMember "pricing" (desk.app.draft.index "pricing") }

/-- A part of recovering a purge. -/
def retirePrices (names : List String) (keys : Option String) (reserves : Bool)
    (writes : SaveWrites) (desk : RevisionDesk) : Except String Unit × RevisionDesk :=
  match retiredPrices host names keys desk with
  | .error error => (.error error, desk)
  | .ok none => (.ok (), desk)
  | .ok (some rework) =>
    saveOrRestore host ("Provider 永久删除已提交，但保存定价清理失败，已记录待重试：" ++ ·) rework
      reserves writes desk

/-! ## Sessions -/

/-- The desktop starts on a sidecar. -/
def opened (opening : Opening) (sidecar : Option RevisionLedger)
    (reserved : List (UInt64 × JsonValue)) : RevisionDesk :=
  let message := ("配置版本状态无法持久化，已进入只读保护：" ++ ·)
  match ConfigState.load host.hash opening.saved opening.configExists opening.writes sidecar with
  | (.error error, sidecar) =>
    { app := {
        draft := opening.draft
        loadError := some (opening.broken.getD (message error))
        configState := .readOnly host.hash opening.saved }
      sidecar
      reserved }
  | (.ok state, after) =>
    let app : AppInner :=
      { draft := opening.draft, loadError := opening.broken, configState := state }
    let desk := wrote state after { app, sidecar, reserved }
    match opening.broken with
    | some _ => desk
    | none =>
      match observe host opening.draft opening.reserves desk with
      | (.ok (), desk) => desk
      | (.error error, desk) =>
        { desk with app := { desk.app with loadError := some (message error) } }

end Operations

end RevisionDesk

/-! ## Runs -/

/-- What happens to a desktop. -/
inductive DeskStep where
  | edit (draft : JsonValue) (writes : Bool)
  | save (writes : SaveWrites)
  | commitPrices (pricing : JsonValue) (reserves : Bool) (writes : SaveWrites) (observesBack : Bool)
  | replaceProviderModels (name : String) (change : JsonValue → Except String ModelChange)
      (reserves : Bool) (writes : SaveWrites)
  | replaceProviderModelVision (name model : String) (supported reserves : Bool)
      (writes : SaveWrites)
  | replaceProviderModelLimits (name model : String) (contextWindow maxOutputTokens : UInt32)
      (reserves : Bool) (writes : SaveWrites)
  | editProvider (change : CheckedEdit) (catalog : Option String) (reserves : Bool)
      (key : Option String) (observesBack : Bool)
  | extendRoute (provider baseUrl apiKey model : String) (reserves : Bool)
  | retirePrices (names : List String) (keys : Option String) (reserves : Bool)
      (writes : SaveWrites)
  /-- The desktop ends, or crashes, and is started again. -/
  | restart (opening : Opening)

namespace DeskStep

section Steps

variable (host : ProviderHost)

def run (desk : RevisionDesk) : DeskStep → Except String Unit × RevisionDesk
  | edit draft writes => desk.edit host draft writes
  | save writes => desk.save host writes
  | commitPrices pricing reserves writes observesBack =>
    desk.commitPrices host pricing reserves writes observesBack
  | replaceProviderModels name change reserves writes =>
    RevisionDesk.replaceProviderModels host name change reserves writes desk
  | replaceProviderModelVision name model supported reserves writes =>
    RevisionDesk.replaceProviderModelVision host name model supported reserves writes desk
  | replaceProviderModelLimits name model contextWindow maxOutputTokens reserves writes =>
    RevisionDesk.replaceProviderModelLimits host name model contextWindow maxOutputTokens reserves
      writes desk
  | editProvider change catalog reserves key observesBack =>
    desk.editProvider host change catalog reserves key observesBack
  | extendRoute provider baseUrl apiKey model reserves =>
    desk.extendRoute host provider baseUrl apiKey model reserves
  | retirePrices names keys reserves writes => desk.retirePrices host names keys reserves writes
  | restart opening => (.ok (), RevisionDesk.opened host opening desk.sidecar desk.reserved)

/-- The operations that take their edit back. -/
def takesBack : DeskStep → Bool
  | edit _ _ | save _ | restart _ => false
  | _ => true

/-- The edit of an operation. -/
def rework (desk : RevisionDesk) : DeskStep → Option Rework
  | replaceProviderModels name change _ _ => (desk.modelsReplaced name change).toOption
  | replaceProviderModelVision name model supported _ _ =>
    (desk.visionReplaced name model supported).toOption
  | replaceProviderModelLimits name model contextWindow maxOutputTokens _ _ =>
    (desk.limitsReplaced name model contextWindow maxOutputTokens).toOption
  | editProvider change catalog _ _ _ => (desk.editedProvider host change catalog).toOption
  | extendRoute provider baseUrl _ model _ =>
    (desk.extendedRoute host provider baseUrl model).toOption
  | retirePrices names keys _ _ => (desk.retiredPrices host names keys).toOption.join
  | edit _ _ | save _ | commitPrices _ _ _ _ | restart _ => none

/-- The drafts that a step brings in. -/
def contents (desk : RevisionDesk) : DeskStep → List JsonValue
  | edit draft _ => [draft]
  | commitPrices pricing _ _ _ => [setMember "pricing" pricing desk.app.draft]
  | restart opening => [opening.saved, opening.draft]
  | step => (step.rework host desk).toList.map Rework.edited

end Steps

end DeskStep

/-- The revision was given to the content. -/
def RevisionDesk.Gives (desk : RevisionDesk) (revision : UInt64) (content : JsonValue) : Prop :=
  (revision, content) ∈ desk.reserved ∨ revision ≠ 0 ∧
    ((revision, content) = (desk.app.configState.draftRevision, desk.app.configState.draft) ∨
      (revision, content) = (desk.app.configState.savedRevision, desk.app.configState.saved))

section Promise

variable (host : ProviderHost) (opening : Opening) (steps : List DeskStep)

/-- A desktop that is new on its directory, after some steps. -/
def deskRun (before : List DeskStep) : RevisionDesk :=
  runSteps (fun desk step ↦ (step.run host desk).2) (.opened host opening none []) before

/-- The drafts that occur. -/
def Shown (content : JsonValue) : Prop :=
  content ∈ [opening.saved, opening.draft] ∨ ∃ before step, before ++ [step] <+: steps ∧
    content ∈ step.contents host (deskRun host opening before)

/-- The digest tells apart the drafts that occur. The members of a draft are kept in the order of
their keys. -/
structure TellsApart : Prop where
  length : ∀ content, Shown host opening steps content →
    (ConfigState.fingerprint host.hash content).utf8ByteSize = 64
  injective : ∀ a, Shown host opening steps a → ∀ b, Shown host opening steps b →
    ConfigState.fingerprint host.hash a = ConfigState.fingerprint host.hash b → a = b

/-- The last words are far. -/
def Spacious : Prop := ∀ before, before <+: steps →
  (deskRun host opening before).app.configState.ledger.lastAllocatedRevision.toNat + 3 < 2 ^ 64 ∧
    ∀ ledger ∈ (deskRun host opening before).sidecar,
      ledger.lastAllocatedRevision.toNat + 3 < 2 ^ 64

/-- What is asked of the revisions, and of the operations that fail. -/
structure RevisionsSpent : Prop where
  /-- A revision that the sidecar was written with belongs to its draft. -/
  spent : ∀ before after, before <+: after → after <+: steps → ∀ revision content,
    (revision, content) ∈ (deskRun host opening before).reserved → ∀ other,
      (deskRun host opening after).Gives revision other → content = other
  /-- An operation that fails leaves the draft, the saved content, and whether they differ. -/
  restored : ∀ before step, before ++ [step] <+: steps → step.takesBack = true →
    let desk := deskRun host opening before
    ∀ error after, step.run host desk = (.error error, after) →
      after.app.draft = desk.app.draft ∧ after.app.configState.saved = desk.app.configState.saved ∧
        isDirty after.app.configState = isDirty desk.app.configState

end Promise

/-! ## When no reserved revision is taken back -/

section Condition

variable (host : ProviderHost)

/-- Whether observing a draft reserves a revision. -/
def IsNew (state : ConfigState) (draft : JsonValue) : Prop :=
  ConfigState.fingerprint host.hash draft ≠ state.draftFingerprint ∧
    ConfigState.fingerprint host.hash draft ≠ state.savedFingerprint

/-- Whether a draft that is observed has no revision yet: nothing was saved. -/
def IsFirst (state : ConfigState) (draft : JsonValue) : Prop :=
  ConfigState.fingerprint host.hash draft = state.draftFingerprint ∧ state.draftRevision = 0 ∨
    ConfigState.fingerprint host.hash draft ≠ state.draftFingerprint ∧
      ConfigState.fingerprint host.hash draft = state.savedFingerprint ∧ state.savedRevision = 0

/-- A save that reserves a revision, by the observation before it or by its journal, is
completed. -/
def SaveCompletes (state : ConfigState) (draft : JsonValue) (reserves : Bool)
    (writes : SaveWrites) : Prop :=
  (IsNew host state draft → reserves = true →
    writes.journals = true ∧ RevisionDesk.replaceFiles host draft writes.replaced = .ok ()) ∧
  (IsFirst host state draft → writes.journals = true →
    (materializeDraft host.toDesktopHost draft).isOk = true →
      RevisionDesk.replaceFiles host draft writes.replaced = .ok ())

/-- The draft has the sections that an operation writes back. -/
def HasSections (draft : JsonValue) : Prop :=
  (draft.member "pricing").isSome = true ∧ (draft.member "router").isSome = true

/-- No revision is reserved by an operation that fails and puts the identities back. -/
def KeepsReserved (desk : RevisionDesk) (step : DeskStep) : Prop :=
  (step.takesBack = true → HasSections desk.app.draft) ∧
  ∀ rework, step.rework host desk = some rework →
    match step with
    | .replaceProviderModels _ _ reserves writes | .replaceProviderModelVision _ _ _ reserves writes
    | .replaceProviderModelLimits _ _ _ _ reserves writes | .retirePrices _ _ reserves writes =>
      SaveCompletes host desk.app.configState rework.edited reserves writes
    | .editProvider change _ reserves key _ =>
      IsNew host desk.app.configState rework.edited → reserves = true →
        (entered change.edit.apiKey).isSome = true → key = none
    | _ => True

end Condition

end TokenStation
