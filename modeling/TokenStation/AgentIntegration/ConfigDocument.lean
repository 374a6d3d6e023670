import TokenStation.AgentIntegration.Dotenv
import TokenStation.AgentIntegration.Json5Document
import TokenStation.Library.Undo

/-!
# Documents and their reverse patches

A configuration document is patched in the form of its file. `applyPatchWithReverse` records, before
each operation is applied, what puts its path back, and the first of its ancestors that a write is
going to make.
-/

namespace TokenStation

open Library

namespace Dotenv

/-- The object of the entries, whose keys are distinct. -/
def entriesObject : List DotenvEntry → List (String × JsonValue)
  | [] => []
  | entry :: found =>
    Json.insertMember (String.ofList entry.key) (.string (String.ofList entry.value))
      (entriesObject found)

/-- `dotenv_semantic`. -/
def semantic (rendered : List Char) : Except String JsonValue :=
  match entries rendered with
  | .error error => .error error
  | .ok found => .ok (.object (entriesObject found))

end Dotenv

/-- A document of one of the formats that are patched in place. -/
inductive ConfigDocument where
  | json (root : JsonValue)
  | json5 (value : Json5Value)
  | dotenv (document : LosslessDotenvDocument)

namespace ConfigDocument

/-- `semantic_json`. -/
def semanticJson : ConfigDocument → Except String JsonValue
  | json root => .ok root
  | json5 value => .ok (Json5.semantic value)
  | dotenv document => Dotenv.semantic document.rendered

/-- What a document means, if it reads. -/
def meaning (document : ConfigDocument) : JsonValue :=
  match document.semanticJson with
  | .ok root => root
  | .error _ => .null

/-- One operation of `apply_patch`. -/
def applyOperation (document : ConfigDocument) (operation : PatchOperation) :
    Except String ConfigDocument :=
  match document with
  | json root => (Json.applyOperation root operation).map json
  | json5 value => (Json5.applyOperation value operation).map json5
  | dotenv document => (Dotenv.applyOperation document operation).map dotenv

/-- `apply_patch`. -/
def applyPatch (document : ConfigDocument) (operations : List PatchOperation) :
    Except String ConfigDocument :=
  applyAll applyOperation document operations

/-- What puts the path of an operation back to what was there. -/
def leafReverse (before : JsonValue) (path : ConfigPath) : PatchOperation :=
  match Json.semanticValueAt before path with
  | some value => ⟨.replace, path, some value⟩
  | none => ⟨.remove, path, none⟩

/-- What undoes the making of an ancestor, if it was missing or null. -/
def ancestorReverse (before : JsonValue) (path : ConfigPath) : Option PatchOperation :=
  match Json.semanticValueAt before path with
  | none => some ⟨.remove, path, none⟩
  | some .null => some ⟨.replace, path, some .null⟩
  | some _ => none

/-- `materialized_parent_reverse`: the first ancestor that a write makes. -/
def parentReverse (before : JsonValue) (operation : PatchOperation) : Option PatchOperation :=
  match operation.operation with
  | .add | .replace => (Json.strictAncestors operation.path).findSome? (ancestorReverse before)
  | .remove | .test => none

/-- What undoes an operation, the path before its ancestor. -/
def reverseOf (before : JsonValue) (operation : PatchOperation) : List PatchOperation :=
  match operation.operation with
  | .test => []
  | _ => leafReverse before operation.path :: (parentReverse before operation).toList

/-- `apply_patch_with_reverse`: the document and the reverse operations, the last one undone
first. -/
def applyPatchWithReverse (document : ConfigDocument) :
    List PatchOperation → Except String (ConfigDocument × List PatchOperation)
  | [] => .ok (document, [])
  | operation :: operations =>
    match document.semanticJson with
    | .error error => .error error
    | .ok before =>
      match document.applyOperation operation with
      | .error error => .error error
      | .ok next =>
        match applyPatchWithReverse next operations with
        | .error error => .error error
        | .ok (after, reverse) => .ok (after, reverse ++ reverseOf before operation)

/-- What `parse_rendered` accepts: a JSON text is an object or an array, a JSON5 text an object
without a property that stands twice, and a dotenv text has no key twice. The objects of a JSON
value are in the order of their keys. -/
def Parsed : ConfigDocument → Prop
  | json root => Json5.Canonical root ∧
    ((∃ members, root = .object members) ∨ ∃ items, root = .array items)
  | json5 value => Json5.Distinct value ∧ ∃ pairs, value = .object pairs
  | dotenv document => ∃ found, Dotenv.entries document.rendered = .ok found

end ConfigDocument

end TokenStation
