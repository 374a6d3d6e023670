import TokenStation.Protocol.Chat
import TokenStation.Protocol.Json

/-!
# What an inbound adapter reads and returns

An inbound adapter takes the envelope of a call, with the caller's body in the dialect of the
caller, and returns the canonical request. Both are whole here: `CanonicalRequest` has every member
that an adapter fills in.
-/

namespace TokenStation

open JsonValue

/-- What the calling tool and the host say about a call. The body is the caller's. -/
structure AgentRequestEnvelope where
  protocol : String
  agentTool : Option String := none
  /-- `principal.subject`. -/
  subject : String
  body : JsonValue
  /-- The host's own values. -/
  extensions : Extensions := ∅

/-- A message with everything an adapter puts into it. -/
structure CanonicalMessage where
  role : Role
  content : Option Content
  toolCalls : List ToolCall := []
  toolCallId : Option String := none
  name : Option String := none
  extensions : Extensions := ∅

/-- `Message::text`. -/
def CanonicalMessage.text (role : Role) (text : String) : CanonicalMessage :=
  { role, content := some (.text text) }

/-- Numbers stay literals. -/
structure Sampling where
  temperature : Option String := none
  topP : Option String := none
  maxOutputTokens : Option ℕ := none
  stop : List String := []

inductive ToolChoice where
  | auto
  | none
  | required
  | other (raw : JsonValue)

structure CanonicalRequest where
  model : String
  messages : List CanonicalMessage
  tools : List ToolDef
  responseFormat : Option ResponseFormat := none
  toolChoice : Option ToolChoice
  sampling : Sampling
  stream : Bool
  extensions : Extensions

/-- The derived readers and the writer of documents. -/
structure SerdeJson where
  /-- `serde_json::to_string`. -/
  toString : JsonValue → String
  /-- A content part, read by its tag; what no tag fits is kept as it is. -/
  contentPart : JsonValue → ContentPart

namespace JsonValue

/-- A character inside a string. -/
def escaped (c : Char) : String :=
  if c.toNat = 34 ∨ c.toNat = 92 then String.ofList [Char.ofNat 92, c]
  else
    match [(8, "b"), (9, "t"), (10, "n"), (12, "f"), (13, "r")].lookup c.toNat with
    | some letter => String.ofList [Char.ofNat 92] ++ letter
    | none =>
      if c.toNat < 32 then
        String.ofList [Char.ofNat 92] ++ "u00" ++
          String.ofList ((Nat.toDigits 16 (256 + c.toNat)).drop 1)
      else c.toString

def quoted (text : String) : String :=
  String.ofList [Char.ofNat 34] ++ String.join (text.toList.map escaped) ++
    String.ofList [Char.ofNat 34]

mutual

/-- The text of a document, without spaces. -/
def compact : JsonValue → String
  | null => "null"
  | bool value => if value then "true" else "false"
  | number literal => literal
  | string text => quoted text
  | array items => "[" ++ ",".intercalate (compactItems items) ++ "]"
  | object members =>
    String.ofList [Char.ofNat 123] ++ ",".intercalate (compactMembers members) ++
      String.ofList [Char.ofNat 125]

def compactItems : List JsonValue → List String
  | [] => []
  | item :: items => compact item :: compactItems items

def compactMembers : List (String × JsonValue) → List String
  | [] => []
  | (name, value) :: members => (quoted name ++ ":" ++ compact value) :: compactMembers members

end

end JsonValue

/-! ## Refusals -/

def invalid (detail : String) : ErrorEnvelope := ErrorEnvelope.new .invalidRequest 400 detail

def capability (detail : String) : ErrorEnvelope := ErrorEnvelope.new .capability 400 detail

/-- `ok_or_else(|| invalid(..))`. -/
def orInvalid {α : Type} (value : Option α) (detail : String) : Except ErrorEnvelope α :=
  match value with
  | some value => .ok value
  | none => .error (invalid detail)

@[simp] theorem orInvalid_eq_ok {α : Type} {value : Option α} {detail : String} {a : α} :
    orInvalid value detail = .ok a ↔ value = some a := by
  cases value <;> simp [orInvalid]

theorem orInvalid_eq_error {α : Type} {value : Option α} {detail : String}
    {error : ErrorEnvelope} :
    orInvalid value detail = .error error ↔ value = none ∧ error = invalid detail := by
  cases value <;> simp [orInvalid, eq_comm]

namespace JsonValue

def asArray : JsonValue → Option (List JsonValue)
  | array items => some items
  | _ => none

def asObject : JsonValue → Option (List (String × JsonValue))
  | object members => some members
  | _ => none

def asBool : JsonValue → Option Bool
  | bool value => some value
  | _ => none

/-- `Value::as_f64`, with the number as its literal. -/
def asF64 : JsonValue → Option String
  | number literal => some literal
  | _ => none

/-- `value["name"]`: null where there is no such member. -/
def index (value : JsonValue) (name : String) : JsonValue := (value.member name).getD null

/-- `as_u64` and `u32::try_from`. -/
def asU32 (value : JsonValue) : Option ℕ :=
  value.asU64.bind fun n ↦ if n.toNat < 2 ^ 32 then some n.toNat else none

/-- The text of a member. -/
def memberStr (name : String) (value : JsonValue) : Option String :=
  (value.member name).bind asStr

end JsonValue

/-! ## Extensions -/

namespace Extensions

/-- The members of an object that pass a filter, keyed by name. -/
def ofMembers (keep : String → Bool) (members : List (String × JsonValue)) : Extensions :=
  (members.filter fun entry ↦ keep entry.1).foldr (fun entry rest ↦ rest.insert entry.1 entry.2) ∅

theorem lookup_foldr_insert (members : List (String × JsonValue)) (key : String) :
    (members.foldr (fun entry rest ↦ rest.insert entry.1 entry.2) (∅ : Extensions)).lookup key =
      (members.find? fun entry ↦ entry.1 == key).map Prod.snd := by
  induction members with
  | nil => rfl
  | cons entry members ih =>
    rw [List.foldr_cons]
    by_cases hkey : entry.1 = key
    · subst hkey
      simp
    · rw [AList.lookup_insert_ne (Ne.symm hkey), ih, List.find?_cons_of_neg (by simpa using hkey)]

/-- A kept name stands for the member of that name. -/
theorem lookup_ofMembers (keep : String → Bool) (members : List (String × JsonValue))
    (key : String) : (ofMembers keep members).lookup key =
      if keep key then (members.find? fun entry ↦ entry.1 == key).map Prod.snd else none := by
  rw [ofMembers, lookup_foldr_insert, List.find?_filter]
  split
  next hkeep =>
    congr 2
    funext entry
    by_cases hkey : entry.1 = key
    · simp [hkey, hkeep]
    · simp [hkey]
  next hkeep =>
    rw [List.find?_eq_none.mpr fun entry _ ↦ ?_]
    · rfl
    · by_cases hkey : entry.1 = key
      · simp [hkey, hkeep]
      · simp [hkey]

end Extensions

end TokenStation
