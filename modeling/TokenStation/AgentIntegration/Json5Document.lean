import TokenStation.AgentIntegration.JsonOrder
import TokenStation.Library.AssocList
import TokenStation.Library.Outcome

/-!
# JSON5 configurations

A JSON5 configuration is patched as the tree of its values, so that comments and the spelling of
the rest survive. The properties of an object keep the order of the text, a new one is appended.
What the tree means is the JSON value `semantic`, and by its paths a patch does to that what the
JSON operations do, though the two walk down a document differently.
-/

namespace TokenStation

open Library

/-- `JSONValue`. The literals `Infinity` and `NaN` have no JSON value but null. -/
inductive Json5Value where
  | null
  | bool (value : Bool)
  | number (literal : String)
  | notFinite
  | string (text : String)
  | array (items : List Json5Value)
  | object (pairs : List (String × Json5Value))

namespace Json5

open Json

/-! ## Conversions -/

mutual

/-- `json5_value_as_serde`, on a value whose objects have no property twice. -/
def semantic : Json5Value → JsonValue
  | .null => .null
  | .bool value => .bool value
  | .number literal => .number literal
  | .notFinite => .null
  | .string text => .string text
  | .array items => .array (semanticItems items)
  | .object pairs => .object (semanticPairs pairs)

def semanticItems : List Json5Value → List JsonValue
  | [] => []
  | item :: items => semantic item :: semanticItems items

def semanticPairs : List (String × Json5Value) → List (String × JsonValue)
  | [] => []
  | (key, value) :: pairs => insertMember key (semantic value) (semanticPairs pairs)

end

mutual

/-- `json5_from_serde`. -/
def fromSerde : JsonValue → Json5Value
  | .null => .null
  | .bool value => .bool value
  | .number literal => .number literal
  | .string text => .string text
  | .array items => .array (fromSerdeItems items)
  | .object members => .object (fromSerdeMembers members)

def fromSerdeItems : List JsonValue → List Json5Value
  | [] => []
  | item :: items => fromSerde item :: fromSerdeItems items

def fromSerdeMembers : List (String × JsonValue) → List (String × Json5Value)
  | [] => []
  | (key, value) :: members => (key, fromSerde value) :: fromSerdeMembers members

end

/-! ## Operations -/

/-- `json5_property_index`: the value of a property, which no object has twice. -/
def property (pairs : List (String × Json5Value)) (segment : String) :
    Except String (Option Json5Value) :=
  match pairs.filter (·.1 = segment) with
  | [] => .ok none
  | [pair] => .ok (some pair.2)
  | _ => .error ("JSON5 对象包含重复属性 '" ++ segment ++ "'")

/-- `json5_value_at`. -/
def valueAt : List String → Json5Value → Except String (Option Json5Value)
  | [], value => .ok (some value)
  | segment :: remaining, .object pairs =>
    match property pairs segment with
    | .error error => .error error
    | .ok none => .ok none
    | .ok (some child) => valueAt remaining child
  | _ :: _, _ => .ok none

/-- A write takes null for an empty object, a removal does not. -/
def orObject (replacement : Option Json5Value) : Json5Value → Json5Value
  | .null => if replacement.isSome then .object [] else .null
  | value => value

/-- `json5_set_value`. -/
def setValue (replacement : Option Json5Value) :
    List String → Json5Value → Except String Json5Value
  | [], _ => .error "JSON5 patch 路径不能为空"
  | segment :: remaining, current =>
    match orObject replacement current with
    | .object pairs =>
      match property pairs segment with
      | .error error => .error error
      | .ok index =>
        match remaining, index, replacement with
        | [], some _, some value => .ok (.object (replaceValue segment value pairs))
        | [], some _, none => .ok (.object (pairs.filter (·.1 ≠ segment)))
        | [], none, some value => .ok (.object (pairs ++ [(segment, value)]))
        | [], none, none => .ok (.object pairs)
        | _ :: _, some child, _ =>
          (setValue replacement remaining child).map fun child ↦
            .object (replaceValue segment child pairs)
        | _ :: _, none, none => .ok (.object pairs)
        | _ :: _, none, some _ =>
          (setValue replacement remaining (.object [])).map fun child ↦
            .object (pairs ++ [(segment, child)])
    | _ => .error "JSON5 patch 路径的父级不是对象"

/-- `apply_json5_operation`. -/
def applyOperation (root : Json5Value) (operation : PatchOperation) : Except String Json5Value :=
  match operation.operation with
  | .add | .replace =>
    match operation.value with
    | none => .error ("配置路径 '" ++ operation.path.toText ++ "' 缺少写入值")
    | some value => setValue (some (fromSerde value)) operation.path.segments root
  | .remove => setValue none operation.path.segments root
  | .test =>
    match valueAt operation.path.segments root with
    | .error error => .error error
    | .ok actual =>
      if actual.map semantic == operation.value then .ok root
      else .error (preconditionChanged operation.path)

/-! ## What a tree means -/

theorem lookup_semanticPairs (pairs : List (String × Json5Value)) (key : String) :
    (semanticPairs pairs).lookup key = (pairs.lookup key).map semantic := by
  induction pairs with
  | nil => rfl
  | cons pair pairs ih =>
    rw [semanticPairs, lookup_insertMember, List.lookup_cons]
    by_cases hkey : key = pair.1
    · rw [if_pos hkey, hkey, beq_self_eq_true]
      rfl
    · rw [if_neg hkey, ih, beq_eq_false_iff_ne.mpr hkey]

/-- The members of an object are in order, and so are those of what it holds. -/
inductive Canonical : JsonValue → Prop
  | null : Canonical .null
  | bool (value : Bool) : Canonical (.bool value)
  | number (literal : String) : Canonical (.number literal)
  | string (text : String) : Canonical (.string text)
  | array {items : List JsonValue} (h : ∀ item ∈ items, Canonical item) : Canonical (.array items)
  | object {members : List (String × JsonValue)} (horder : InOrder members)
    (h : ∀ member ∈ members, Canonical member.2) : Canonical (.object members)

/-- No object of the tree has a property twice. -/
inductive Distinct : Json5Value → Prop
  | null : Distinct .null
  | bool (value : Bool) : Distinct (.bool value)
  | number (literal : String) : Distinct (.number literal)
  | notFinite : Distinct .notFinite
  | string (text : String) : Distinct (.string text)
  | array {items : List Json5Value} (h : ∀ item ∈ items, Distinct item) : Distinct (.array items)
  | object {pairs : List (String × Json5Value)} (hkeys : (pairs.map Prod.fst).Nodup)
    (h : ∀ pair ∈ pairs, Distinct pair.2) : Distinct (.object pairs)

mutual

/-- A tree converts to a value in order. -/
theorem canonical_semantic : (root : Json5Value) → Canonical (semantic root)
  | .null => .null
  | .bool value => .bool value
  | .number literal => .number literal
  | .notFinite => .null
  | .string text => .string text
  | .array items => .array (canonical_semanticItems items)
  | .object pairs => .object (canonical_semanticPairs pairs).1 (canonical_semanticPairs pairs).2

theorem canonical_semanticItems :
    (items : List Json5Value) → ∀ item ∈ semanticItems items, Canonical item
  | [], _, hitem => nomatch hitem
  | first :: rest, item, hitem => by
    rcases List.mem_cons.mp hitem with rfl | hitem
    · exact canonical_semantic first
    · exact canonical_semanticItems rest item hitem

theorem canonical_semanticPairs :
    (pairs : List (String × Json5Value)) → InOrder (semanticPairs pairs) ∧
      ∀ member ∈ semanticPairs pairs, Canonical member.2
  | [] => ⟨List.Pairwise.nil, fun _ hmember ↦ nomatch hmember⟩
  | (key, value) :: pairs => by
    obtain ⟨horder, hmembers⟩ := canonical_semanticPairs pairs
    refine ⟨inOrder_insertMember horder, fun member hmember ↦ ?_⟩
    rcases mem_insertMember hmember with rfl | hmember
    · exact canonical_semantic value
    · exact hmembers member hmember

end

theorem Canonical.ordered {root : JsonValue} (h : Canonical root) : Ordered root := by
  induction h with
  | object horder _ ih =>
    exact ordered_object_iff.mpr
      ⟨horder, fun segment child hchild ↦ ih _ (mem_of_lookup hchild)⟩
  | _ => exact ordered_of_not_branch fun hbranch ↦ nomatch hbranch

theorem canonical_valueAt {root value : JsonValue} {path : List String} (h : Canonical root)
    (hvalue : Json.valueAt root path = some value) : Canonical value := by
  induction path generalizing root with
  | nil =>
    obtain rfl := Option.some.inj hvalue
    exact h
  | cons segment path ih =>
    by_cases hroot : node root = .branch
    · obtain ⟨members, rfl⟩ := node_eq_branch.mp hroot
      rcases h with - | - | - | - | - | ⟨-, hmembers⟩
      rw [valueAt_object_cons] at hvalue
      obtain ⟨child, hchild, hvalue⟩ := Option.bind_eq_some_iff.mp hvalue
      exact ih (hmembers _ (mem_of_lookup hchild)) hvalue
    · rw [valueAt_cons_of_not_object fun m hm ↦ hroot (node_eq_branch.mpr ⟨m, hm⟩)] at hvalue
      nomatch hvalue

theorem insertMember_front {key : String} {value : JsonValue} {members : List (String × JsonValue)}
    (h : InOrder ((key, value) :: members)) :
    insertMember key value members = (key, value) :: members := by
  rcases members with - | ⟨next, members⟩
  · rfl
  · rw [insertMember, if_pos ((List.pairwise_cons.mp h).1 _ List.mem_cons_self)]

/-- A value that is written reads back. -/
theorem semantic_fromSerde {root : JsonValue} (h : Canonical root) :
    semantic (fromSerde root) = root := by
  induction h with
  | array _ ih =>
    rename_i items _
    suffices hitems : semanticItems (fromSerdeItems items) = items by
      rw [fromSerde, semantic, hitems]
    clear * - ih
    induction items with
    | nil => rfl
    | cons item items ihItems =>
      rw [fromSerdeItems, semanticItems, ih item List.mem_cons_self,
        ihItems fun other hother ↦ ih other (List.mem_cons_of_mem _ hother)]
  | object horder _ ih =>
    rename_i members _
    suffices hmembers : semanticPairs (fromSerdeMembers members) = members by
      rw [fromSerde, semantic, hmembers]
    clear * - horder ih
    induction members with
    | nil => rfl
    | cons member members ihMembers =>
      obtain ⟨hfirst, hrest⟩ := List.pairwise_cons.mp horder
      rw [fromSerdeMembers, semanticPairs, ih member List.mem_cons_self,
        ihMembers hrest fun other hother ↦ ih other (List.mem_cons_of_mem _ hother)]
      exact insertMember_front horder
  | _ => rfl

theorem distinct_fromSerde {root : JsonValue} (h : Canonical root) : Distinct (fromSerde root) := by
  induction h with
  | null => exact .null
  | bool value => exact .bool value
  | number literal => exact .number literal
  | string text => exact .string text
  | array _ ih =>
    rename_i items _
    refine .array ?_
    clear * - ih
    induction items with
    | nil => exact fun item hitem ↦ nomatch hitem
    | cons first rest ihItems =>
      intro item hitem
      rcases List.mem_cons.mp hitem with rfl | hitem
      · exact ih first List.mem_cons_self
      · exact ihItems (fun other hother ↦ ih other (List.mem_cons_of_mem _ hother)) item hitem
  | object horder _ ih =>
    rename_i members _
    have hkeys : (fromSerdeMembers members).map Prod.fst = members.map Prod.fst := by
      clear * -
      induction members with
      | nil => rfl
      | cons member members ihMembers =>
        rw [fromSerdeMembers, List.map_cons, ihMembers, List.map_cons]
    refine .object ?_ ?_
    · rw [hkeys]
      exact (List.pairwise_map.mpr horder).imp fun hlt ↦ hlt.ne
    · clear * - ih
      induction members with
      | nil => exact fun pair hpair ↦ nomatch hpair
      | cons member members ihMembers =>
        intro pair hpair
        rcases List.mem_cons.mp hpair with rfl | hpair
        · exact ih member List.mem_cons_self
        · exact ihMembers (fun other hother ↦ ih other (List.mem_cons_of_mem _ hother)) pair hpair

end Json5

end TokenStation
