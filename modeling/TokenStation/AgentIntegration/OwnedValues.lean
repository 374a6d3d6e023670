import TokenStation.AgentIntegration.Ownership
import TokenStation.AgentIntegration.SnapshotStore

/-!
# Digests of owned values

A connection remembers what it wrote without keeping the values: a keyed digest for every owned
path, of the value there or of its absence. A record of an older connector may own an ancestor of
what the connector declares now, and is recognized if the declared values alone give its digests.
-/

namespace TokenStation

open Library Json

/-- What reading a configuration in one of the formats, and digesting its values, come to. -/
structure Documents (Document : Type) where
  /-- The document of some bytes, or of a file that does not exist. -/
  parseSourceBytes : Option Bytes → DocumentFormat → String → Except String Document
  semanticJson : Document → Except String JsonValue
  jsonBytes : JsonValue → Except String Bytes
  hmacSha256 : MasterKey → Bytes → String

/-- The bytes of a source, if there is a file. -/
def ConfigSource.bytes? (source : ConfigSource) : Option Bytes :=
  if source.existed then some source.exactBytes else none

/-- The model that the gateway is offered as. -/
def autoModel : String := "tokenstation-auto"

def isAutoModelEntry : JsonValue → Bool
  | .object members =>
    match members.lookup "id" with
    | some (.string id) => id == autoModel
    | _ => false
  | _ => false

def isAutoModelName : JsonValue → Bool
  | .string name => name == autoModel
  | _ => false

/-- Of a list of models only the entries of the gateway count. -/
def semanticValueForMac (root : JsonValue) (path : ConfigPath) : Option JsonValue :=
  (semanticValueAt root path).map fun value ↦
    match value with
    | .array models =>
      if path.segments = ["models"] then .array (models.filter isAutoModelEntry)
      else if path.segments = ["availableModels"] then .array (models.filter isAutoModelName)
      else .array models
    | value => value

/-- `BTreeMap::insert`. -/
def insertMac (path mac : String) : ValueMacs → ValueMacs
  | [] => [(path, mac)]
  | (found, old) :: macs =>
    if path < found then (path, mac) :: (found, old) :: macs
    else if path = found then (path, mac) :: macs
    else (found, old) :: insertMac path mac macs

/-- `is_prefix`. -/
def ConfigPath.leads (path other : ConfigPath) : Bool := path.segments.isPrefixOf other.segments

def ConfigPath.strictlyLeads (path other : ConfigPath) : Bool :=
  path.segments.length < other.segments.length && path.leads other

def isLegacyWidenedPathSet (stored declared : List ConfigPath) : Bool :=
  stored != declared
    && stored.all (fun storedPath ↦ declared.any storedPath.leads)
    && declared.all fun declaredPath ↦ stored.any (·.leads declaredPath)

def normalizedLegacyOwnedPaths (stored declared : List ConfigPath) : List ConfigPath :=
  if isLegacyWidenedPathSet stored declared then declared else stored

/-- `set_json_value`: whatever is in the way becomes an object. -/
def setJsonValue (value : JsonValue) : List String → JsonValue → JsonValue
  | [], _ => value
  | segment :: path, root =>
    let members := match root with
      | .object members => members
      | _ => []
    .object (insertMember segment
      (setJsonValue value path ((members.lookup segment).getD (.object []))) members)

section Macs

variable {Document : Type} (documents : Documents Document)

def ownedValueMac (key : MasterKey) (canonical : JsonValue) (path : ConfigPath) :
    Except String String :=
  let start := textBytes "token-station-owned-value-v1\x00" ++ hashField (textBytes path.toText)
  match semanticValueForMac canonical path with
  | none => .ok (documents.hmacSha256 key (start ++ [0]))
  | some value =>
    match documents.jsonBytes value with
    | .error _ => .error "序列化 owned value 失败"
    | .ok bytes => .ok (documents.hmacSha256 key (start ++ [1] ++ hashField bytes))

/-- `compute_owned_value_macs_from_semantic`, from the digests so far. -/
def addOwnedValueMacs (key : MasterKey) (canonical : JsonValue) (macs : ValueMacs) :
    List ConfigPath → Except String ValueMacs
  | [] => .ok macs
  | path :: paths =>
    match ownedValueMac documents key canonical path with
    | .error error => .error error
    | .ok mac => addOwnedValueMacs key canonical (insertMac path.toText mac macs) paths

def computeOwnedValueMacs (document : Document) (ownedPaths : List ConfigPath) (key : MasterKey) :
    Except String ValueMacs := do
  let canonical ← documents.semanticJson document
  addOwnedValueMacs documents key canonical [] ownedPaths

def ownershipMatches (record : OwnershipRecord) (document : Document) (key : MasterKey) :
    Except String Bool := do
  let macs ← computeOwnedValueMacs documents document record.ownedPaths key
  .ok (macs == record.ownedValueMacs)

/-- The declared paths that have a value, and nothing else. -/
def managedValues (current : JsonValue) (managed : JsonValue) :
    List ConfigPath → Except String JsonValue
  | [] => .ok managed
  | path :: paths =>
    match semanticValueAt current path with
    | none => managedValues current managed paths
    | some value =>
      if path.segments.isEmpty then .error "owned path cannot be empty"
      else managedValues current (setJsonValue value path.segments managed) paths

def legacyWidenedOwnershipMatches (record : OwnershipRecord) (current baseline : Document)
    (declaredPaths : List ConfigPath) (key : MasterKey) : Except String Bool :=
  if !isLegacyWidenedPathSet record.ownedPaths declaredPaths then .ok false
  else do
    let current ← documents.semanticJson current
    let baseline ← documents.semanticJson baseline
    let blocked := record.ownedPaths.any fun stored ↦
      declaredPaths.any stored.strictlyLeads
        && (semanticValueAt baseline stored).any fun value ↦ !isNull value
    if blocked then .ok false
    else
      let managed ← managedValues current (.object []) declaredPaths
      let macs ← addOwnedValueMacs documents key managed [] record.ownedPaths
      .ok (macs == record.ownedValueMacs)

end Macs

end TokenStation
