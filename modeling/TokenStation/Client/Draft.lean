import TokenStation.Inbound.Request

/-!
# Editing JSON documents

The desktop edits its configuration as a JSON document, the draft. A write through a path makes the
objects on the path where there are none. The upstreams of a draft are the members of one object,
and the other edits leave them.
-/

namespace TokenStation

namespace JsonValue

/-! ## Members -/

/-- The members with one of them replaced, or with a new one at the end. -/
def putMember (name : String) (value : JsonValue) :
    List (String × JsonValue) → List (String × JsonValue)
  | [] => [(name, value)]
  | (key, old) :: rest =>
    if key = name then (name, value) :: rest else (key, old) :: putMember name value rest

/-- `document["name"] = value`. A document that is neither an object nor null stops the program;
here it is left. -/
def setMember (name : String) (value : JsonValue) : JsonValue → JsonValue
  | object members => object (putMember name value members)
  | null => object [(name, value)]
  | other => other

/-- `Map::remove`. -/
def removeMember (name : String) : JsonValue → JsonValue
  | object members => object (members.filter fun entry ↦ entry.1 != name)
  | other => other

/-- Whether members can be written. -/
def isWritable : JsonValue → Bool
  | object _ | null => true
  | _ => false

variable {name other : String} {value value' document : JsonValue}

theorem find_putMember (members : List (String × JsonValue)) :
    (putMember name value members).find? (fun entry ↦ entry.1 == other) =
      if other = name then some (name, value)
      else members.find? fun entry ↦ entry.1 == other := by
  induction members with
  | nil =>
    by_cases h : other = name
    · simp [putMember, h]
    · simp [putMember, h, Ne.symm h]
  | cons entry rest ih =>
    obtain ⟨key, old⟩ := entry
    by_cases hkey : key = name
    · by_cases h : other = name
      · simp [putMember, hkey, h]
      · simp [putMember, hkey, h, Ne.symm h]
    · by_cases h : other = name
      · subst h
        simpa [putMember, hkey] using ih
      · by_cases hother : key = other
        · simp [putMember, hother, h]
        · simpa [putMember, hkey, h, hother] using ih

/-- What was written is read back, and the other members are as before. -/
theorem member_setMember (h : document.isWritable = true) :
    (setMember name value document).member other =
      if other = name then some value else document.member other := by
  rcases document with _ | _ | _ | _ | _ | members
  · by_cases heq : other = name
    · simp [setMember, member, heq]
    · simp [setMember, member, heq, Ne.symm heq]
  · nomatch h
  · nomatch h
  · nomatch h
  · nomatch h
  · simp only [setMember, member, find_putMember]
    split <;> rfl

@[simp] theorem member_setMember_self (h : document.isWritable = true) :
    (setMember name value document).member name = some value := by
  rw [member_setMember h, if_pos rfl]

/-- A write leaves the other members. -/
theorem member_setMember_ne (h : other ≠ name) :
    (setMember name value document).member other = document.member other := by
  by_cases hwritable : document.isWritable = true
  · rw [member_setMember hwritable, if_neg h]
  · rcases document with _ | _ | _ | _ | _ | members
    · exact absurd rfl hwritable
    · rfl
    · rfl
    · rfl
    · rfl
    · exact absurd rfl hwritable

theorem member_removeMember :
    (removeMember name document).member other =
      if other = name then none else document.member other := by
  rcases document with _ | _ | _ | _ | _ | members
  · simp [removeMember, member]
  · simp [removeMember, member]
  · simp [removeMember, member]
  · simp [removeMember, member]
  · simp [removeMember, member]
  simp only [removeMember, member, List.find?_filter]
  by_cases h : other = name
  · rw [if_pos h, Option.map_eq_none_iff, List.find?_eq_none]
    intro entry _
    by_cases hkey : entry.1 = name <;> simp [h, hkey]
  · rw [if_neg h]
    congr 2
    funext entry
    by_cases hkey : entry.1 = other
    · simp [hkey, h]
    · simp [hkey]

theorem index_setMember_ne (h : other ≠ name) :
    (setMember name value document).index other = document.index other := by
  rw [index, member_setMember_ne h, index]

@[simp] theorem isWritable_setMember :
    (setMember name value document).isWritable = document.isWritable := by
  rcases document with _ | _ | _ | _ | _ | _ <;> rfl

@[simp] theorem isWritable_removeMember :
    (removeMember name document).isWritable = document.isWritable := by
  rcases document with _ | _ | _ | _ | _ | _ <;> rfl

/-! ## Writing again -/

theorem putMember_of_find {members : List (String × JsonValue)}
    (h : members.find? (fun entry ↦ entry.1 == name) = some (name, value)) :
    putMember name value members = members := by
  induction members with
  | nil => nomatch h
  | cons entry members ih =>
    obtain ⟨key, old⟩ := entry
    rw [List.find?_cons] at h
    by_cases hkey : key = name
    · subst hkey
      rw [beq_self_eq_true] at h
      rw [putMember, if_pos rfl, Option.some.inj h]
    · rw [beq_eq_false_iff_ne.mpr hkey] at h
      rw [putMember, if_neg hkey, ih h]

/-- To write what is there changes nothing. -/
theorem setMember_of_member (h : document.member name = some value) :
    setMember name value document = document := by
  obtain _ | _ | _ | _ | _ | members := document
  · nomatch h
  · rfl
  · rfl
  · rfl
  · rfl
  · obtain ⟨⟨key, found⟩, hfind, rfl⟩ := Option.map_eq_some_iff.mp h
    have hkey := List.find?_some hfind
    obtain rfl := beq_iff_eq.mp hkey
    exact congrArg object (putMember_of_find hfind)

theorem isWritable_of_member (h : document.member name = some value) :
    document.isWritable = true := by
  obtain _ | _ | _ | _ | _ | members := document
  · rfl
  · nomatch h
  · nomatch h
  · nomatch h
  · nomatch h
  · rfl

theorem putMember_putMember (members : List (String × JsonValue)) :
    putMember name value (putMember name value' members) = putMember name value members := by
  induction members with
  | nil => simp [putMember]
  | cons entry rest ih =>
    obtain ⟨key, old⟩ := entry
    by_cases hkey : key = name
    · simp [putMember, hkey]
    · simp [putMember, hkey, ih]

/-- The last write of a member counts. -/
theorem setMember_setMember :
    setMember name value (setMember name value' document) = setMember name value document := by
  cases document with
  | object members => exact congrArg object (putMember_putMember members)
  | null => simp [setMember, putMember]
  | _ => rfl

theorem putMember_comm (hne : name ≠ other) {members : List (String × JsonValue)}
    (h : ∃ entry ∈ members, entry.1 = name) :
    putMember name value (putMember other value' members) =
      putMember other value' (putMember name value members) := by
  induction members with
  | nil =>
    obtain ⟨entry, hmem, -⟩ := h
    nomatch hmem
  | cons entry rest ih =>
    obtain ⟨key, old⟩ := entry
    by_cases hname : key = name
    · subst hname
      simp [putMember, hne]
    · obtain ⟨found, hmem, hfound⟩ := h
      have hrest : ∃ entry ∈ rest, entry.1 = name := by
        obtain rfl | hmem := List.mem_cons.mp hmem
        · exact absurd hfound hname
        · exact ⟨found, hmem, hfound⟩
      by_cases hother : key = other
      · subst hother
        simp [putMember, hname]
      · simp [putMember, hname, hother, ih hrest]

/-- Writes of two members, one of which is there. -/
theorem setMember_comm (hne : name ≠ other) (h : (document.member name).isSome = true) :
    setMember name value (setMember other value' document) =
      setMember other value' (setMember name value document) := by
  cases document with
  | object members =>
    refine congrArg object (putMember_comm hne ?_)
    obtain ⟨found, hfound⟩ := Option.isSome_iff_exists.mp h
    obtain ⟨entry, hentry, -⟩ := Option.map_eq_some_iff.mp hfound
    have hname := List.find?_some hentry
    exact ⟨entry, List.mem_of_find?_eq_some hentry, beq_iff_eq.mp hname⟩
  | null => nomatch h
  | _ => rfl

theorem setMember_index (h : (document.member name).isSome = true) :
    setMember name (document.index name) document = document := by
  obtain ⟨value, hvalue⟩ := Option.isSome_iff_exists.mp h
  rw [index, hvalue]
  exact setMember_of_member hvalue

end JsonValue

open JsonValue

/-! ## Upstreams -/

/-- `draft["upstreams"].get(name)`. -/
def upstreamOf (draft : JsonValue) (name : String) : Option JsonValue :=
  (draft.index "upstreams").member name

/-- `draft["upstreams"][name] = upstream`. -/
def setUpstream (name : String) (upstream draft : JsonValue) : JsonValue :=
  setMember "upstreams" (setMember name upstream (draft.index "upstreams")) draft

def removeUpstream (name : String) (draft : JsonValue) : JsonValue :=
  setMember "upstreams" (removeMember name (draft.index "upstreams")) draft

/-- The draft and its upstreams are objects. -/
def Editable (draft : JsonValue) : Prop :=
  draft.isObject = true ∧ (draft.index "upstreams").isObject = true

namespace Editable

variable {draft upstream : JsonValue} {name other : String}

theorem isWritable {value : JsonValue} (h : value.isObject = true) : value.isWritable = true := by
  rcases value with _ | _ | _ | _ | _ | _
  · rfl
  · nomatch h
  · nomatch h
  · nomatch h
  · nomatch h
  · rfl

theorem isObject_setMember {value document : JsonValue} (h : document.isObject = true) :
    (setMember name value document).isObject = true := by
  rcases document with _ | _ | _ | _ | _ | _
  · rfl
  · nomatch h
  · nomatch h
  · nomatch h
  · nomatch h
  · rfl

theorem isObject_removeMember {document : JsonValue} (h : document.isObject = true) :
    (removeMember name document).isObject = true := by
  rcases document with _ | _ | _ | _ | _ | _
  · exact h
  · nomatch h
  · nomatch h
  · nomatch h
  · nomatch h
  · rfl

/-- Another member than the upstreams. -/
theorem setMember_ne (h : Editable draft) {value : JsonValue} (hne : name ≠ "upstreams") :
    Editable (setMember name value draft) := by
  refine ⟨isObject_setMember h.1, ?_⟩
  rw [index_setMember_ne hne.symm]
  exact h.2

/-- New upstreams. -/
theorem setUpstreams (h : Editable draft) {upstreams : JsonValue}
    (hupstreams : upstreams.isObject = true) :
    Editable (setMember "upstreams" upstreams draft) := by
  refine ⟨isObject_setMember h.1, ?_⟩
  rw [index, member_setMember_self (isWritable h.1)]
  exact hupstreams

theorem setUpstream (h : Editable draft) : Editable (setUpstream name upstream draft) :=
  h.setUpstreams (isObject_setMember h.2)

theorem removeUpstream (h : Editable draft) : Editable (removeUpstream name draft) :=
  h.setUpstreams (isObject_removeMember h.2)

theorem upstreamOf_setUpstream (h : Editable draft) :
    upstreamOf (TokenStation.setUpstream name upstream draft) other =
      if other = name then some upstream else upstreamOf draft other := by
  rw [upstreamOf, TokenStation.setUpstream, index, member_setMember_self (isWritable h.1),
    Option.getD_some, member_setMember (isWritable h.2), upstreamOf]

theorem upstreamOf_removeUpstream (h : Editable draft) :
    upstreamOf (TokenStation.removeUpstream name draft) other =
      if other = name then none else upstreamOf draft other := by
  rw [upstreamOf, TokenStation.removeUpstream, index, member_setMember_self (isWritable h.1),
    Option.getD_some, member_removeMember, upstreamOf]

end Editable

/-- A write to another member leaves the upstreams. -/
theorem upstreamOf_setMember {draft value : JsonValue} {name other : String}
    (h : name ≠ "upstreams") : upstreamOf (setMember name value draft) other =
      upstreamOf draft other := by
  rw [upstreamOf, index_setMember_ne h.symm, upstreamOf]

end TokenStation
