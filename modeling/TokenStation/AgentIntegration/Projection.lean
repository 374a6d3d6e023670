import TokenStation.AgentIntegration.ConfigDocument
import TokenStation.AgentIntegration.Ownership

/-!
# Projecting owned paths

A disconnect puts the owned paths of a document back to their values in the baseline, and a forced
one removes them, both in memory: the file is written only from a projection that went through.
-/

namespace TokenStation

open Library

namespace Json5

/-- The first pass of `project_owned_paths`: each owned path takes its value in the baseline. -/
def restoreOwned (baseline : Json5Value) :
    Json5Value → List ConfigPath → Except String Json5Value
  | current, [] => .ok current
  | current, path :: paths =>
    match valueAt path.segments baseline with
    | .error error => .error error
    | .ok value =>
      match setValue value path.segments current with
      | .error error => .error error
      | .ok current => restoreOwned baseline current paths

/-- The ancestors that are left to collapse, on the value that the tree means. -/
def collapseEmptyAncestors : Json5Value → List PatchOperation → Except String Json5Value
  | current, [] => .ok current
  | current, operation :: operations =>
    if (Json.valueAt (semantic current) operation.path.segments).any Json.isEmptyObject then
      match applyOperation current operation with
      | .error error => .error error
      | .ok current => collapseEmptyAncestors current operations
    else collapseEmptyAncestors current operations

/-- `restore_null_owned_ancestors` on the ancestors that are left to look at. -/
def restoreNullFrom (baseline : JsonValue) (nullAncestors : List ConfigPath) :
    Json5Value → List ConfigPath → Except String Json5Value
  | current, [] => .ok current
  | current, ancestor :: ancestors =>
    if nullAncestors.any fun null ↦ null.segments.isPrefixOf ancestor.segments then
      if (Json.semanticValueAt (semantic current) ancestor).any Json.isEmptyObject then
        match Json.semanticValueAt baseline ancestor with
        | none =>
          match applyOperation current ⟨.remove, ancestor, none⟩ with
          | .error error => .error error
          | .ok current => restoreNullFrom baseline nullAncestors current ancestors
        | some .null =>
          match applyOperation current ⟨.replace, ancestor, some .null⟩ with
          | .error error => .error error
          | .ok current => restoreNullFrom baseline nullAncestors current ancestors
        | some _ => restoreNullFrom baseline nullAncestors current ancestors
      else restoreNullFrom baseline nullAncestors current ancestors
    else restoreNullFrom baseline nullAncestors current ancestors

/-- A text with anything like a comment in it is left as it is. -/
def restoreNullOwnedAncestors (commented : Bool) (current : Json5Value) (baseline : JsonValue)
    (ownedPaths : List ConfigPath) : Except String Json5Value :=
  if commented then .ok current
  else
    let ancestors :=
      (sortByKey Json.depthKey (ownedPaths.flatMap Json.strictAncestors)).destutter (· ≠ ·)
    let nullAncestors := ancestors.filter fun ancestor ↦
      (Json.semanticValueAt baseline ancestor).any Json.isNull
    restoreNullFrom baseline nullAncestors current ancestors

/-- `project_owned_paths` on JSON5 documents. -/
def projectOwnedPaths (commented : Bool) (current baseline : Json5Value)
    (ownedPaths : List ConfigPath) : Except String Json5Value :=
  match restoreOwned baseline current ownedPaths with
  | .error error => .error error
  | .ok current =>
    match collapseEmptyAncestors current
        (Json.materializedAncestorRestorations (semantic baseline) ownedPaths) with
    | .error error => .error error
    | .ok current => restoreNullOwnedAncestors commented current (semantic baseline) ownedPaths

end Json5

namespace ConfigDocument

/-- `project_owned_paths`. `commented` says that the rendered text of a JSON5 document has anything
like a comment in it. -/
def projectOwnedPaths (commented : Bool) (current baseline : ConfigDocument)
    (ownedPaths : List ConfigPath) : Except String ConfigDocument :=
  match current, baseline with
  | json current, json baseline =>
    (Json.projectOwnedPaths current baseline ownedPaths).map json
  | json5 current, json5 baseline =>
    (Json5.projectOwnedPaths commented current baseline ownedPaths).map json5
  | dotenv current, dotenv baseline =>
    (Dotenv.projectPaths current baseline ownedPaths).map dotenv
  | _, _ => .error "当前配置与基线快照格式不一致"

end ConfigDocument

/-! ## The forced projection -/

/-- A file that a forced disconnect is going to write. -/
structure PreparedForceStrip where
  target : String
  rendered : String
  permissions : Option UInt32
  originalOwner : Option String
  expectedBeforeHash : String
  expectedAfterHash : String
  format : DocumentFormat
  label : String

/-- The code around a projection: the renderer, the digest, and the check that the connector could
connect to the projected document again, where there is a connector. -/
structure ForceStripEnv where
  render : ConfigDocument → String → Except String String
  sha256 : Bytes → String
  reconnect : Option (ConfigDocument → Except String Unit)

namespace ForceStripEnv

/-- What is left to do once the removals were made. -/
def prepare (env : ForceStripEnv) (target : String) (source : ConfigSource)
    (format : DocumentFormat) (label : String) (document : ConfigDocument) :
    Except String PreparedForceStrip := do
  match env.reconnect with
  | some check => check document
  | none => .ok ()
  let rendered ← env.render document label
  let projected : ConfigSource :=
    ⟨true, textBytes rendered, source.originalPermissions, source.originalOwner⟩
  .ok ⟨target, rendered, source.originalPermissions, source.originalOwner,
    fileRevisionHash env.sha256 target source, fileRevisionHash env.sha256 target projected,
    format, label⟩

/-- `prepare_force_strip_projection`. -/
def prepareForceStripProjection (env : ForceStripEnv) (target : String) (source : ConfigSource)
    (document : ConfigDocument) (format : DocumentFormat) (label : String)
    (removals : List PatchOperation) : Except String PreparedForceStrip :=
  match ConfigDocument.applyPatch document removals with
  | .error error => .error error
  | .ok document => env.prepare target source format label document

end ForceStripEnv

end TokenStation
