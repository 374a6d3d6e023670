import TokenStation.Protocol.Error

/-!
# What an agent's configuration is patched with

A connector writes a few paths of an agent's configuration file, whatever its format. A patch is a
list of operations on paths, and the values are JSON documents.
-/

namespace TokenStation

/-- A place in a configuration document. -/
structure ConfigPath where
  segments : List String
  deriving DecidableEq, Repr

namespace ConfigPath

/-- `Display`. -/
def toText (path : ConfigPath) : String := "/" ++ "/".intercalate path.segments

end ConfigPath

inductive PatchKind where
  | add
  | replace
  | remove
  | test
  deriving DecidableEq, Repr

/-- One step of a patch. The value may be a credential. -/
structure PatchOperation where
  operation : PatchKind
  path : ConfigPath
  value : Option JsonValue

end TokenStation
