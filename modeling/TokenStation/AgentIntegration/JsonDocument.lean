import TokenStation.AgentIntegration.Types
import TokenStation.Library.SortByKey
import Mathlib.Data.List.Destutter
import Mathlib.Data.List.Lex
import Mathlib.Data.Prod.Lex
import Mathlib.Data.String.Basic

/-!
# JSON configurations

A JSON configuration is patched at paths: a write makes the objects on its way, a removal stops
where the way ends. A disconnect puts every owned path back to its value in the baseline and then
takes back the ancestors that the connection made, as far as nothing else is left in them.
-/

namespace TokenStation

open Library

namespace Json

/-! ## Objects -/

/-- `Map::insert`: the members are in the order of their keys. -/
def insertMember (key : String) (value : JsonValue) :
    List (String × JsonValue) → List (String × JsonValue)
  | [] => [(key, value)]
  | (found, old) :: members =>
    if key < found then (key, value) :: (found, old) :: members
    else if key = found then (key, value) :: members
    else (found, old) :: insertMember key value members

/-- `Map::remove`. -/
def removeMember (key : String) (members : List (String × JsonValue)) :
    List (String × JsonValue) :=
  members.filter (·.1 ≠ key)

def isNull : JsonValue → Bool
  | .null => true
  | _ => false

def isArray : JsonValue → Bool
  | .array _ => true
  | _ => false

def isEmptyObject : JsonValue → Bool
  | .object [] => true
  | _ => false

deriving instance BEq for JsonValue

/-- `value_at_path`. -/
def valueAt : JsonValue → List String → Option JsonValue
  | root, [] => some root
  | .object members, segment :: path => (members.lookup segment).bind (valueAt · path)
  | _, _ :: _ => none

/-- The root is the value of `models` where the document is an array. -/
def semanticValueAt (root : JsonValue) (path : ConfigPath) : Option JsonValue :=
  if isArray root ∧ path.segments = ["models"] then some root else valueAt root path.segments

/-! ## One operation -/

def isValidSegment (segment : String) : Bool :=
  !(segment.isEmpty || segment == "." || segment == ".."
    || segment.toList.any fun c ↦ c == '/' || c == '\\' || c == '\x00')

/-- The last segment of a path and those before it. -/
def splitPath (path : ConfigPath) : Except String (String × List String) :=
  match path.segments.getLast? with
  | none => .error "配置 patch 路径不能为空"
  | some last =>
    if path.segments.all isValidSegment then .ok (last, path.segments.dropLast)
    else .error ("配置 patch 路径 '" ++ path.toText ++ "' 不合法")

def parentNotObject (path : ConfigPath) : String :=
  "配置路径 '" ++ path.toText ++ "' 的父级不是对象"

def preconditionChanged (path : ConfigPath) : String :=
  "配置路径 '" ++ path.toText ++ "' 的前置值已变化"

/-- A write takes null for an empty object. -/
def orObject : JsonValue → JsonValue
  | .null => .object []
  | value => value

/-- The add and the replace: parents that are missing or null become objects. -/
def writeAt (path : ConfigPath) (value : Option JsonValue) (last : String) :
    List String → JsonValue → Except String JsonValue
  | [], cursor =>
    match orObject cursor with
    | .object members =>
      match value with
      | some value => .ok (.object (insertMember last value members))
      | none => .error ("配置路径 '" ++ path.toText ++ "' 缺少写入值")
    | _ => .error (parentNotObject path)
  | segment :: parents, cursor =>
    match orObject cursor with
    | .object members =>
      (writeAt path value last parents ((members.lookup segment).getD (.object []))).map
        fun child ↦ .object (insertMember segment child members)
    | _ => .error (parentNotObject path)

/-- The removal: nothing to do where a parent is missing. -/
def removeAt (path : ConfigPath) (last : String) :
    List String → JsonValue → Except String JsonValue
  | [], .object members => .ok (.object (removeMember last members))
  | segment :: parents, .object members =>
    match members.lookup segment with
    | none => .ok (.object members)
    | some child =>
      (removeAt path last parents child).map fun child ↦
        .object (insertMember segment child members)
  | _, _ => .error (parentNotObject path)

/-- The test of a value. -/
def testAt (path : ConfigPath) (value : Option JsonValue) (last : String) :
    List String → JsonValue → Except String Unit
  | [], .object members =>
    if members.lookup last == value then .ok () else .error (preconditionChanged path)
  | segment :: parents, .object members =>
    match members.lookup segment with
    | none => .error (preconditionChanged path)
    | some child => testAt path value last parents child
  | _, _ => .error (parentNotObject path)

/-- The operations on `models` where the document is an array. -/
def applyModels (root : JsonValue) (operation : PatchOperation) : Except String JsonValue :=
  match operation.operation with
  | .add | .replace =>
    match operation.value with
    | none => .error ("配置路径 '" ++ operation.path.toText ++ "' 缺少写入值")
    | some value =>
      if isArray value then .ok value
      else .error ("配置路径 '" ++ operation.path.toText ++ "' 只允许数组")
  | .remove => .ok (.array [])
  | .test =>
    if root == operation.value.getD .null then .ok root
    else .error (preconditionChanged operation.path)

/-- `apply_json_operation`. -/
def applyOperation (root : JsonValue) (operation : PatchOperation) : Except String JsonValue :=
  if isArray root ∧ operation.path.segments = ["models"] then applyModels root operation
  else if isArray root ∧ operation.path.segments = ["availableModels"] then .ok root
  else do
    let (last, parents) ← splitPath operation.path
    match operation.operation with
    | .add | .replace => writeAt operation.path operation.value last parents root
    | .remove => removeAt operation.path last parents root
    | .test =>
      testAt operation.path operation.value last parents root
      .ok root

/-- `apply_patch` on a JSON document. -/
def applyPatch (root : JsonValue) : List PatchOperation → Except String JsonValue
  | [] => .ok root
  | operation :: operations => do
    let root ← applyOperation root operation
    applyPatch root operations

/-! ## Giving the owned paths back -/

inductive BaselinePathState where
  | missing
  | null
  | other
  deriving DecidableEq

def baselinePathState : JsonValue → List String → BaselinePathState
  | value, [] => if isNull value then .null else .other
  | .object members, segment :: path =>
    match members.lookup segment with
    | none => .missing
    | some value => baselinePathState value path
  | .null, _ :: _ => .missing
  | _, _ :: _ => .other

/-- The strict ancestors of a path, shortest first. -/
def strictAncestors (path : ConfigPath) : List ConfigPath :=
  (List.range' 1 (path.segments.length - 1)).map fun length ↦ ⟨path.segments.take length⟩

/-- Longer paths first, then by segments. -/
def depthKey (path : ConfigPath) : ℕᵒᵈ ×ₗ List String :=
  toLex (OrderDual.toDual path.segments.length, path.segments)

/-- What undoes the making of one ancestor. -/
def ancestorRestoration (baseline : JsonValue) (ancestor : ConfigPath) : Option PatchOperation :=
  match baselinePathState baseline ancestor.segments with
  | .missing => some ⟨.remove, ancestor, none⟩
  | .null => some ⟨.replace, ancestor, some .null⟩
  | .other => none

def materializedAncestorRestorations (baseline : JsonValue) (ownedPaths : List ConfigPath) :
    List PatchOperation :=
  let operations := ownedPaths.flatMap fun path ↦
    (strictAncestors path).filterMap (ancestorRestoration baseline)
  (sortByKey (fun operation ↦ depthKey operation.path) operations).destutter
    fun left right ↦ left.path ≠ right.path

/-- `collapse_empty_materialized_ancestors`, on the restorations that are left to do. -/
def collapseEmptyAncestors (current : JsonValue) :
    List PatchOperation → Except String JsonValue
  | [] => .ok current
  | operation :: operations =>
    if (valueAt current operation.path.segments).any isEmptyObject then do
      let current ← applyOperation current operation
      collapseEmptyAncestors current operations
    else collapseEmptyAncestors current operations

/-- The operation that puts one owned path back. -/
def ownedRestoration (baseline : JsonValue) (path : ConfigPath) : PatchOperation :=
  match semanticValueAt baseline path with
  | some value => ⟨.replace, path, some value⟩
  | none => ⟨.remove, path, none⟩

/-- `restore_null_owned_ancestors` on the ancestors that are left to look at. -/
def restoreNullFrom (baseline : JsonValue) (nullAncestors : List ConfigPath)
    (current : JsonValue) : List ConfigPath → Except String JsonValue
  | [] => .ok current
  | ancestor :: ancestors =>
    if nullAncestors.any fun null ↦ null.segments.isPrefixOf ancestor.segments then
      if (semanticValueAt current ancestor).any isEmptyObject then
        match semanticValueAt baseline ancestor with
        | none => do
          let current ← applyOperation current ⟨.remove, ancestor, none⟩
          restoreNullFrom baseline nullAncestors current ancestors
        | some .null => do
          let current ← applyOperation current ⟨.replace, ancestor, some .null⟩
          restoreNullFrom baseline nullAncestors current ancestors
        | some _ => restoreNullFrom baseline nullAncestors current ancestors
      else restoreNullFrom baseline nullAncestors current ancestors
    else restoreNullFrom baseline nullAncestors current ancestors

def restoreNullOwnedAncestors (current baseline : JsonValue) (ownedPaths : List ConfigPath) :
    Except String JsonValue :=
  let ancestors := (sortByKey depthKey (ownedPaths.flatMap strictAncestors)).destutter (· ≠ ·)
  let nullAncestors := ancestors.filter fun ancestor ↦
    (semanticValueAt baseline ancestor).any isNull
  restoreNullFrom baseline nullAncestors current ancestors

/-- `project_owned_paths` on JSON documents. -/
def projectOwnedPaths (current baseline : JsonValue) (ownedPaths : List ConfigPath) :
    Except String JsonValue := do
  let current ← applyPatch current (ownedPaths.map (ownedRestoration baseline))
  let current ← collapseEmptyAncestors current
    (materializedAncestorRestorations baseline ownedPaths)
  restoreNullOwnedAncestors current baseline ownedPaths

end Json

end TokenStation
