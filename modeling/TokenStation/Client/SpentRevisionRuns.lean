import TokenStation.Client.SpentRevisionCalls

/-!
# Why a spent revision stays spent

An operation that takes its edit back restores the draft as it was, and the identities as they were.
If the sidecar is not ahead of these, nothing is given twice; `spent_of_keepsReserved` says so of
every run.
-/

namespace TokenStation

open Library JsonValue ConfigState Command

variable {hash : JsonValue → String} {known : Set JsonValue}
  {given given' : Set (UInt64 × JsonValue)} {state : ConfigState} {desk : RevisionDesk}

/-! ## Taking edits back -/

section Restoring

variable {draft upstream value value' pricing : JsonValue} {name : String}

/-- A provider of the draft. -/
theorem member_upstreams (h : upstreamOf draft name = some upstream) :
    draft.member "upstreams" = some (draft.index "upstreams") := by
  cases hmember : draft.member "upstreams" with
  | none =>
    rw [upstreamOf, index, hmember] at h
    cases h
  | some upstreams =>
    rw [index, hmember]
    rfl

theorem setUpstream_self (h : upstreamOf draft name = some upstream) :
    setUpstream name upstream draft = draft := by
  rw [setUpstream, setMember_of_member (show (draft.index "upstreams").member name = _ from h)]
  exact setMember_of_member (member_upstreams h)

theorem setUpstream_setUpstream (h : upstreamOf draft name = some upstream) :
    setUpstream name value (setUpstream name value' draft) = setUpstream name value draft := by
  have hwritable : draft.isWritable = true := isWritable_of_member (member_upstreams h)
  rw [setUpstream, setUpstream, setUpstream, index, member_setMember_self hwritable,
    Option.getD_some, setMember_setMember, setMember_setMember]

theorem upstreamOf_setUpstream_self (h : upstreamOf draft name = some upstream) :
    upstreamOf (setUpstream name value draft) name = some value := by
  have hwritable : draft.isWritable = true := isWritable_of_member (member_upstreams h)
  have hupstreams : (draft.index "upstreams").isWritable = true :=
    isWritable_of_member (show (draft.index "upstreams").member name = _ from h)
  rw [upstreamOf, setUpstream, index, member_setMember_self hwritable, Option.getD_some,
    member_setMember_self hupstreams]

theorem setUpstream_setMember (hne : name ≠ "upstreams") (h : (draft.member "upstreams").isSome)
    {other : String} : setUpstream other value (setMember name pricing draft) =
      setMember name pricing (setUpstream other value draft) := by
  rw [setUpstream, index_setMember_ne hne.symm, setMember_comm hne.symm h]
  rfl

theorem upstreamOf_withPricing (pricing : Option JsonValue) (draft : JsonValue) (name : String) :
    upstreamOf (RevisionDesk.withPricing pricing draft) name = upstreamOf draft name := by
  cases pricing with
  | none => rfl
  | some pricing => exact upstreamOf_setMember (by decide)

/-- The price table that was there is put back. -/
theorem setPricing_withPricing (h : (draft.member "pricing").isSome = true)
    (pricing : Option JsonValue) :
    setMember "pricing" (draft.index "pricing")
      (RevisionDesk.withPricing pricing draft) = draft := by
  cases pricing with
  | none => exact setMember_index h
  | some pricing => exact setMember_setMember.trans (setMember_index h)

theorem setUpstream_withPricing (pricing : Option JsonValue)
    (h : (draft.member "upstreams").isSome) :
    setUpstream name value (RevisionDesk.withPricing pricing draft) =
      RevisionDesk.withPricing pricing (setUpstream name value draft) := by
  cases pricing with
  | none => rfl
  | some pricing => exact setUpstream_setMember (by decide) h

/-- The models of a provider are put back. -/
theorem setModels_setModels {models models' : JsonValue} (pricing : Option JsonValue)
    (h : upstreamOf draft name = some upstream) (hmodels : upstream.member "models" = some models) :
    RevisionDesk.setModels name models
        (RevisionDesk.withPricing pricing (RevisionDesk.setModels name models' draft)) =
      RevisionDesk.withPricing pricing draft := by
  have hupstreams : ((setUpstream name (setMember "models" models' upstream) draft).member
      "upstreams").isSome = true := by
    rw [member_upstreams (upstreamOf_setUpstream_self h)]
    rfl
  rw [RevisionDesk.setModels, RevisionDesk.setModels, upstreamOf_withPricing, h, Option.getD_some,
    upstreamOf_setUpstream_self h, Option.getD_some, setMember_setMember,
    setMember_of_member hmodels, setUpstream_withPricing pricing hupstreams,
    setUpstream_setUpstream h, setUpstream_self h]

theorem setModels_self {models : JsonValue} (h : upstreamOf draft name = some upstream)
    (hmodels : upstream.member "models" = some models) :
    RevisionDesk.setModels name models draft = draft := by
  rw [RevisionDesk.setModels, h, Option.getD_some, setMember_of_member hmodels, setUpstream_self h]

end Restoring

/-! ### The operations -/

section Reworks

variable {host : ProviderHost} {rework : Rework}

theorem previousModels_eq_ok {draft previous : JsonValue} {name : String}
    (h : RevisionDesk.previousModels draft name = .ok previous) :
    ∃ upstream, upstreamOf draft name = some upstream ∧
      upstream.member "models" = some previous := by
  rw [RevisionDesk.previousModels] at h
  split at h
  next items hitems =>
    obtain ⟨upstream, hupstream, hmodels⟩ := Option.bind_eq_some_iff.mp hitems
    exact ⟨upstream, hupstream, Except.ok.inj h ▸ hmodels⟩
  next => nomatch h

/-- The edit of an operation, taken back. -/
structure Restores (desk : RevisionDesk) (rework : Rework) : Prop where
  unedited : rework.restore desk.app.draft = desk.app.draft
  edited : rework.restore rework.edited = desk.app.draft

theorem restores_replacedModels {restoresPricing : Bool} {name : String}
    {change : JsonValue → Except String ModelChange}
    (h : desk.replacedModels restoresPricing name change = .ok rework)
    (hpricing : restoresPricing = true ∧ (desk.app.draft.member "pricing").isSome = true ∨
      restoresPricing = false ∧
        ∀ changed, change desk.app.draft = .ok changed → changed.pricing = none) :
    Restores desk rework := by
  obtain ⟨⟨⟩, -, h⟩ := except_bind_eq_ok.mp h
  obtain ⟨⟨⟩, -, h⟩ := except_bind_eq_ok.mp h
  obtain ⟨previous, hprevious, h⟩ := except_bind_eq_ok.mp h
  obtain ⟨changed, hchanged, h⟩ := except_bind_eq_ok.mp h
  obtain ⟨upstream, hupstream, hmodels⟩ := previousModels_eq_ok hprevious
  obtain rfl := Except.ok.inj h
  have hself := setModels_self hupstream hmodels
  have hback : RevisionDesk.setModels name previous (RevisionDesk.withPricing changed.pricing
      (RevisionDesk.setModels name changed.models desk.app.draft)) =
        RevisionDesk.withPricing changed.pricing desk.app.draft :=
    setModels_setModels changed.pricing hupstream hmodels
  obtain ⟨rfl, hpresent⟩ | ⟨rfl, hnone⟩ := hpricing
  · constructor
    · dsimp only
      rw [if_pos rfl, hself, setMember_index hpresent]
    · dsimp only
      rw [if_pos rfl, hback, setPricing_withPricing hpresent]
  · constructor
    · exact hself
    · refine hback.trans ?_
      rw [hnone changed hchanged]
      rfl

theorem pricing_changeCapability {name model : String}
    {change : JsonValue → Except String JsonValue} {draft : JsonValue} {changed : ModelChange}
    (h : RevisionDesk.changeCapability name model change draft = .ok changed) :
    changed.pricing = none := by
  rw [RevisionDesk.changeCapability] at h
  split at h
  · nomatch h
  · obtain ⟨capability, -, h⟩ := except_bind_eq_ok.mp h
    obtain rfl := Except.ok.inj h
    rfl

theorem pricing_visionChange {name model : String} {supported : Bool} {draft : JsonValue}
    {changed : ModelChange}
    (h : RevisionDesk.visionChange name model supported draft = .ok changed) :
    changed.pricing = none := by
  obtain ⟨⟨⟩, -, h⟩ := except_bind_eq_ok.mp h
  exact pricing_changeCapability h

theorem pricing_limitsChange {name model : String} {contextWindow maxOutputTokens : UInt32}
    {draft : JsonValue} {changed : ModelChange}
    (h : RevisionDesk.limitsChange name model contextWindow maxOutputTokens draft = .ok changed) :
    changed.pricing = none := by
  obtain ⟨⟨⟩, -, h⟩ := except_bind_eq_ok.mp h
  obtain ⟨⟨⟩, -, h⟩ := except_bind_eq_ok.mp h
  exact pricing_changeCapability h

theorem restores_editedProvider {change : CheckedEdit} {catalog : Option String}
    (h : desk.editedProvider host change catalog = .ok rework)
    (hpricing : (desk.app.draft.member "pricing").isSome = true) : Restores desk rework := by
  obtain ⟨⟨⟩, -, h⟩ := except_bind_eq_ok.mp h
  obtain ⟨previous, hprevious, h⟩ := except_bind_eq_ok.mp h
  obtain ⟨pricing, -, h⟩ := except_bind_eq_ok.mp h
  obtain rfl := Except.ok.inj h
  have hupstream := require_eq_ok.mp hprevious
  have hpriced : upstreamOf (RevisionDesk.withPricing pricing desk.app.draft) change.name =
      some previous := (upstreamOf_withPricing _ _ _).trans hupstream
  constructor
  · dsimp only
    rw [setUpstream_self hupstream, setMember_index hpricing]
  · dsimp only
    rw [setUpstream_setUpstream hpriced, setUpstream_self hpriced, setPricing_withPricing hpricing]

theorem restores_retiredPrices {names : List String} {keys : Option String}
    (h : desk.retiredPrices host names keys = .ok (some rework))
    (hpricing : (desk.app.draft.member "pricing").isSome = true) : Restores desk rework := by
  obtain ⟨⟨⟩, -, h⟩ := except_bind_eq_ok.mp h
  obtain ⟨⟨⟩, -, h⟩ := except_bind_eq_ok.mp h
  split at h
  · nomatch h
  · obtain ⟨pricing, -, h⟩ := except_bind_eq_ok.mp h
    obtain ⟨pricing, rfl, rfl⟩ := Option.map_eq_some_iff.mp (Except.ok.inj h)
    exact ⟨setMember_index hpricing, setMember_setMember.trans (setMember_index hpricing)⟩

theorem removeMember_of_none {document : JsonValue} {name : String}
    (h : document.member name = none) : removeMember name document = document := by
  cases document with
  | object members =>
    refine congrArg object (List.filter_eq_self.mpr fun entry hentry ↦ ?_)
    have hnone := Option.map_eq_none_iff.mp h
    have hkey := List.find?_eq_none.mp hnone entry hentry
    rw [beq_iff_eq] at hkey
    exact bne_iff_ne.mpr hkey
  | _ => rfl

/-- The route of a draft that was not observed is put back. -/
theorem unedited_extendedRoute {provider baseUrl model : String}
    (h : desk.extendedRoute host provider baseUrl model = .ok rework)
    (hrouter : (desk.app.draft.member "router").isSome = true) :
    rework.restore desk.app.draft = desk.app.draft := by
  obtain ⟨⟨⟩, -, h⟩ := except_bind_eq_ok.mp h
  obtain ⟨upstream, hprevious, h⟩ := except_bind_eq_ok.mp h
  obtain ⟨items, -, h⟩ := except_bind_eq_ok.mp h
  obtain rfl := Except.ok.inj h
  have hupstream := require_eq_ok.mp hprevious
  dsimp only
  rw [setUpstream_self hupstream, restoreRoute, setMember_index hrouter]
  split
  next routing hrouting => exact setMember_of_member hrouting
  next hnone => exact removeMember_of_none hnone

end Reworks

/-! ## One step -/

section Steps

variable {host : ProviderHost} {rework : Rework} {reserves : Bool} {writes : SaveWrites}
variable (hlength : ∀ c ∈ known, (fingerprint host.hash c).utf8ByteSize = 64)
variable (hinjective : ∀ a ∈ known, ∀ b ∈ known,
  fingerprint host.hash a = fingerprint host.hash b → a = b)

/-- An editable session. -/
structure Editing (host : ProviderHost) (known : Set JsonValue)
    (given : Set (UInt64 × JsonValue)) (desk : RevisionDesk) : Prop where
  sound : SoundDesk host.hash known given desk
  isOpen : desk.app.loadError = none
  draft : desk.app.draft = desk.app.configState.draft
  room : desk.app.configState.ledger.lastAllocatedRevision.toNat + 3 < 2 ^ 64

theorem Editing.session (h : Editing host known given desk) :
    SoundSession host.hash known given desk :=
  h.sound.session fun _ ↦ h.draft

include hinjective in
theorem Editing.observe (h : Editing host known given desk) {draft : JsonValue}
    (hdraft : draft ∈ known) (writes : Bool) :
    ∃ given', SoundSession host.hash known given' (desk.observe host draft writes).2 := by
  obtain ⟨given', hobserved⟩ : ∃ given', ObserveEnds host known given given' draft writes desk
      (desk.observe host draft writes).1 (desk.observe host draft writes).2 :=
    h.sound.observe hinjective hdraft (by have := h.room; omega)
  refine ⟨given', hobserved.sound.session fun _ ↦ ?_⟩
  obtain ⟨-, happ, hstate⟩ | ⟨-, hsame⟩ := hobserved.ends
  · rw [happ, hstate]
  · rw [hsame]
    rfl

theorem Editing.save (h : Editing host known given desk) (writes : SaveWrites) :
    ∃ given', SoundSession host.hash known given' (desk.save host writes).2 := by
  obtain ⟨given', hends⟩ := h.sound.save h.draft (by have := h.room; omega) writes
  refine ⟨given', hends.sound.session fun _ ↦ ?_⟩
  rw [hends.draft.1, hends.draft.2, h.draft]

include hinjective in
theorem Editing.saveOrRestore (h : Editing host known given desk) (text : String → String)
    (hknown : rework.edited ∈ known) (hrestores : Restores desk rework)
    (hcompletes : SaveCompletes host desk.app.configState rework.edited reserves writes) :
    ∃ given', SoundSession host.hash known given'
      (desk.saveOrRestore host text rework reserves writes).2 := by
  obtain ⟨given', hends⟩ : ∃ given', EditEnds host known given given' rework.edited reserves writes
      desk (desk.observeAndSave host rework.edited reserves writes).1
      (desk.observeAndSave host rework.edited reserves writes).2 :=
    h.sound.observeAndSave hinjective h.isOpen hknown (by have := h.room; omega)
  rw [RevisionDesk.saveOrRestore]
  generalize desk.observeAndSave host rework.edited reserves writes = saved at hends
  obtain ⟨result, after⟩ := saved
  cases result with
  | ok _ => exact ⟨given', hends.sound.session fun _ ↦ hends.drafts.1⟩
  | error error =>
    have hbehind := hends.behind error rfl hcompletes
    refine ⟨given, (h.sound.restored hends.sound hends.pairs hbehind rework.restore).session
      fun _ ↦ ?_⟩
    change rework.restore after.app.draft = desk.app.configState.draft
    rw [← h.draft]
    obtain hedited | hsame := hends.drafts.2
    · rw [show after.app.draft = rework.edited from hedited]
      exact hrestores.edited
    · rw [show after.app.draft = _ from hsame, ← h.draft]
      exact hrestores.unedited

include hinjective in
theorem Editing.saveSyncedTable (h : Editing host known given desk) {pricing : JsonValue}
    (hknown : setMember "pricing" pricing desk.app.draft ∈ known) (observesBack : Bool) :
    ∃ given', SoundSession host.hash known given'
      (desk.saveSyncedTable host pricing reserves writes observesBack).2 := by
  obtain ⟨given', hends⟩ : ∃ given', EditEnds host known given given'
      (setMember "pricing" pricing desk.app.draft) reserves writes desk
      (desk.observeAndSave host (setMember "pricing" pricing desk.app.draft) reserves writes).1
      (desk.observeAndSave host (setMember "pricing" pricing desk.app.draft) reserves writes).2 :=
    h.sound.observeAndSave hinjective h.isOpen hknown (by have := h.room; omega)
  rw [RevisionDesk.saveSyncedTable]
  generalize desk.observeAndSave host (setMember "pricing" pricing desk.app.draft) reserves writes =
    saved at hends
  obtain ⟨result, after⟩ := saved
  cases result with
  | ok _ => exact ⟨given', hends.sound.session fun _ ↦ hends.drafts.1⟩
  | error error =>
    have hdraft : desk.app.draft ∈ known := by
      rw [h.draft]
      exact h.sound.memory.draft.1
    have hroom : after.app.configState.ledger.lastAllocatedRevision.toNat < 2 ^ 64 - 1 := by
      have hnext := hends.room
      have hbefore := h.room
      dsimp only at hnext
      omega
    obtain ⟨given'', hback⟩ := hends.sound.start hinjective hdraft hroom observesBack
      fun rollback ↦ error ++ "; cannot restore the price draft: " ++ rollback
    refine ⟨given'', ?_⟩
    dsimp only
    generalize after.observe host desk.app.draft observesBack = observed at hback ⊢
    obtain ⟨outcome, final⟩ := observed
    cases outcome with
    | ok _ => exact hback
    | error rollback => exact hback

/-- The identities are put back where no revision was reserved. -/
theorem Editing.restored (h : Editing host known given desk) {after : RevisionDesk}
    {result : Except String Unit}
    (hobserved : ObserveEnds host known given given' rework.edited reserves desk result after)
    (hlast : after.app.configState.ledger.lastAllocatedRevision =
      desk.app.configState.ledger.lastAllocatedRevision)
    (hback : rework.restore after.app.draft = desk.app.draft) :
    Editing host known given (after.restored desk.app.configState rework.restore) := by
  have hbehind : ∀ ledger ∈ after.sidecar, ledger.lastAllocatedRevision ≤
      desk.app.configState.ledger.lastAllocatedRevision := fun ledger hledger ↦
    hlast ▸ hobserved.sound.ahead ledger hledger
  exact ⟨h.sound.restored hobserved.sound hobserved.pairs hbehind rework.restore,
    hobserved.loadError.trans h.isOpen, hback.trans h.draft, h.room⟩

include hinjective in
/-- An observation, and what is put back when it fails. -/
theorem Editing.observed (h : Editing host known given desk) (reserves : Bool)
    (hknown : rework.edited ∈ known)
    (hback : rework.restore desk.app.draft = desk.app.draft) :
    ∃ given' result after, desk.observe host rework.edited reserves = (result, after) ∧
      ObserveEnds host known given given' rework.edited reserves desk result after ∧
      ((∃ error, result = .error error) →
        Editing host known given (after.restored desk.app.configState rework.restore)) := by
  obtain ⟨given', hobserved⟩ : ∃ given', ObserveEnds host known given given' rework.edited reserves
      desk (desk.observe host rework.edited reserves).1
      (desk.observe host rework.edited reserves).2 :=
    h.sound.observe hinjective hknown (by have := h.room; omega)
  generalize desk.observe host rework.edited reserves = observed at hobserved ⊢
  obtain ⟨result, after⟩ := observed
  refine ⟨given', result, after, rfl, hobserved, fun hfails ↦ ?_⟩
  obtain ⟨hok, -⟩ | ⟨-, hsame⟩ := hobserved.ends
  · obtain ⟨error, herror⟩ := hfails
    nomatch hok.symm.trans herror
  · obtain rfl : after = _ := hsame
    refine h.restored hobserved rfl ?_
    change rework.restore desk.app.configState.draft = _
    rw [← h.draft, hback]

include hinjective in
theorem Editing.editProvider (h : Editing host known given desk) {change : CheckedEdit}
    {catalog key : Option String} (hrework : desk.editedProvider host change catalog = .ok rework)
    (hknown : rework.edited ∈ known) (hrestores : Restores desk rework)
    (hkeeps : IsNew host desk.app.configState rework.edited → reserves = true →
      (entered change.edit.apiKey).isSome = true → key = none) (observesBack : Bool) :
    ∃ given', SoundSession host.hash known given'
      (desk.editProvider host change catalog reserves key observesBack).2 := by
  obtain ⟨given', result, after, hcall, hobserved, hfails⟩ :=
    h.observed hinjective reserves hknown hrestores.unedited
  rw [RevisionDesk.editProvider, hrework]
  dsimp only
  rw [hcall]
  obtain ⟨rfl, happ, hstate⟩ | ⟨⟨error, rfl⟩, -⟩ := hobserved.ends
  · dsimp only
    have hsession := hobserved.sound.session fun _ ↦ happ.trans hstate.symm
    by_cases hkey : (entered change.edit.apiKey).isSome = true
    · rw [if_pos hkey]
      cases key with
      | none => exact ⟨given', hsession⟩
      | some keyError =>
        have hlast := hobserved.kept.resolve_right fun hnew ↦
          nomatch hkeeps hnew.1 hnew.2 hkey
        have hrestored := h.restored hobserved hlast (by rw [happ, hrestores.edited])
        have hdraft : rework.restore after.app.draft ∈ known := by
          rw [happ, hrestores.edited, h.draft]
          exact h.sound.memory.draft.1
        obtain ⟨given'', hback⟩ := hrestored.observe hinjective hdraft observesBack
        refine ⟨given'', ?_⟩
        rw [RevisionDesk.writeEditedKey]
        dsimp only [RevisionDesk.restored] at hback ⊢
        split
        next final hfinal =>
          rw [hfinal] at hback
          exact hback
        next rollbackError final hfinal =>
          rw [hfinal] at hback
          exact hback
    · rw [if_neg hkey]
      exact ⟨given', hsession⟩
  · exact ⟨given, (hfails ⟨error, rfl⟩).session⟩

include hinjective in
theorem Editing.extendRoute (h : Editing host known given desk)
    {provider baseUrl apiKey model : String}
    (hrework : desk.extendedRoute host provider baseUrl model = .ok rework)
    (hknown : rework.edited ∈ known) (hback : rework.restore desk.app.draft = desk.app.draft) :
    ∃ given', SoundSession host.hash known given'
      (desk.extendRoute host provider baseUrl apiKey model reserves).2 := by
  obtain ⟨given', result, after, hcall, hobserved, hfails⟩ :=
    h.observed hinjective reserves hknown hback
  rw [RevisionDesk.extendRoute, hrework]
  dsimp only
  rw [hcall]
  obtain ⟨rfl, happ, hstate⟩ | ⟨⟨error, rfl⟩, -⟩ := hobserved.ends
  · have hsubmitted : SoundDesk host.hash known given'
        { after with app := submitKey provider apiKey after.app } :=
      ⟨⟨hobserved.sound.toSoundPairs, hobserved.sound.reserved, hobserved.sound.sidecar⟩,
        hobserved.sound.memory, hobserved.sound.ahead⟩
    exact ⟨given', hsubmitted.session fun _ ↦ happ.trans hstate.symm⟩
  · exact ⟨given, (hfails ⟨error, rfl⟩).session⟩

end Steps

/-! ### What was reserved is kept -/

section Reserved

variable (host : ProviderHost)

theorem reserved_wrote (desk : RevisionDesk) (state : ConfigState)
    (sidecar : Option RevisionLedger) :
    desk.reserved ⊆ (desk.wrote state sidecar).reserved := by
  rw [RevisionDesk.wrote]
  dsimp only
  split
  · exact List.Subset.refl _
  · exact List.subset_append_left _ _

theorem reserved_observe (draft : JsonValue) (writes : Bool) (desk : RevisionDesk) :
    desk.reserved ⊆ (desk.observe host draft writes).2.reserved := by
  rw [RevisionDesk.observe]
  split
  · exact reserved_wrote _ _ _
  · exact reserved_wrote _ _ _

theorem reserved_save (writes : SaveWrites) (desk : RevisionDesk) :
    desk.reserved ⊆ (desk.save host writes).2.reserved := by
  rw [RevisionDesk.save]
  split
  · exact List.Subset.refl _
  · exact List.Subset.refl _
  split
  · exact reserved_wrote _ _ _
  split
  · exact reserved_wrote _ _ _
  · exact List.Subset.trans (reserved_wrote _ _ _) (reserved_wrote _ _ _)

theorem reserved_observeAndSave (draft : JsonValue) (reserves : Bool) (writes : SaveWrites)
    (desk : RevisionDesk) :
    desk.reserved ⊆ (desk.observeAndSave host draft reserves writes).2.reserved := by
  have hobserve := reserved_observe host draft reserves desk
  rw [RevisionDesk.observeAndSave]
  generalize desk.observe host draft reserves = observed at hobserve
  obtain ⟨result, after⟩ := observed
  cases result with
  | error error => exact hobserve
  | ok _ => exact List.Subset.trans hobserve (reserved_save host writes after)

theorem reserved_saveOrRestore (text : String → String) (rework : Rework) (reserves : Bool)
    (writes : SaveWrites) (desk : RevisionDesk) :
    desk.reserved ⊆ (desk.saveOrRestore host text rework reserves writes).2.reserved := by
  have hsave := reserved_observeAndSave host rework.edited reserves writes desk
  rw [RevisionDesk.saveOrRestore]
  generalize desk.observeAndSave host rework.edited reserves writes = saved at hsave
  obtain ⟨result, after⟩ := saved
  cases result with
  | error error => exact hsave
  | ok _ => exact hsave

theorem reserved_replaceModels (text : String → String)
    (replaced : RevisionDesk → Except String Rework) (reserves : Bool) (writes : SaveWrites)
    (desk : RevisionDesk) :
    desk.reserved ⊆ (desk.replaceModels host text replaced reserves writes).2.reserved := by
  rw [RevisionDesk.replaceModels]
  split
  · exact List.Subset.refl _
  · exact reserved_saveOrRestore host _ _ _ _ _

theorem reserved_saveSyncedTable (pricing : JsonValue) (reserves : Bool) (writes : SaveWrites)
    (observesBack : Bool) (desk : RevisionDesk) : desk.reserved ⊆
      (desk.saveSyncedTable host pricing reserves writes observesBack).2.reserved := by
  have hsave := reserved_observeAndSave host (setMember "pricing" pricing desk.app.draft) reserves
    writes desk
  rw [RevisionDesk.saveSyncedTable]
  generalize desk.observeAndSave host (setMember "pricing" pricing desk.app.draft) reserves writes =
    saved at hsave
  obtain ⟨result, after⟩ := saved
  cases result with
  | ok _ => exact hsave
  | error error =>
    have hback := reserved_observe host desk.app.draft observesBack after
    dsimp only
    generalize after.observe host desk.app.draft observesBack = observed at hback
    obtain ⟨outcome, final⟩ := observed
    cases outcome with
    | ok _ => exact List.Subset.trans hsave hback
    | error rollback => exact List.Subset.trans hsave hback

theorem reserved_editProvider (change : CheckedEdit) (catalog : Option String) (reserves : Bool)
    (key : Option String) (observesBack : Bool) (desk : RevisionDesk) : desk.reserved ⊆
      (desk.editProvider host change catalog reserves key observesBack).2.reserved := by
  rw [RevisionDesk.editProvider]
  split
  · exact List.Subset.refl _
  next rework hrework =>
    have hobserve := reserved_observe host rework.edited reserves desk
    generalize desk.observe host rework.edited reserves = observed at hobserve
    obtain ⟨result, after⟩ := observed
    cases result with
    | error error => exact hobserve
    | ok _ =>
      dsimp only
      split
      · cases key with
        | none => exact hobserve
        | some keyError =>
          rw [RevisionDesk.writeEditedKey]
          have hback := reserved_observe host (rework.restore after.app.draft) observesBack
            (after.restored desk.app.configState rework.restore)
          dsimp only [RevisionDesk.restored] at hback ⊢
          split
          next final hfinal =>
            rw [hfinal] at hback
            exact List.Subset.trans hobserve hback
          next rollback final hfinal =>
            rw [hfinal] at hback
            exact List.Subset.trans hobserve hback
      · exact hobserve

theorem reserved_extendRoute (provider baseUrl apiKey model : String) (reserves : Bool)
    (desk : RevisionDesk) : desk.reserved ⊆
      (desk.extendRoute host provider baseUrl apiKey model reserves).2.reserved := by
  rw [RevisionDesk.extendRoute]
  split
  · exact List.Subset.refl _
  next rework hrework =>
    have hobserve := reserved_observe host rework.edited reserves desk
    generalize desk.observe host rework.edited reserves = observed at hobserve
    obtain ⟨result, after⟩ := observed
    cases result with
    | error error => exact hobserve
    | ok _ => exact hobserve

theorem reserved_opened (opening : Opening) (sidecar : Option RevisionLedger)
    (reserved : List (UInt64 × JsonValue)) :
    reserved ⊆ (RevisionDesk.opened host opening sidecar reserved).reserved := by
  rw [RevisionDesk.opened]
  split
  · exact List.Subset.refl _
  next state after hload =>
    let app : AppInner :=
      { draft := opening.draft, loadError := opening.broken, configState := state }
    have hwrote : reserved ⊆ (RevisionDesk.wrote state after { app, sidecar, reserved }).reserved :=
      reserved_wrote { app, sidecar, reserved } state after
    dsimp only
    split
    · exact hwrote
    · have hobserve := reserved_observe host opening.draft opening.reserves
        (RevisionDesk.wrote state after { app, sidecar, reserved })
      split
      next final hfinal =>
        rw [hfinal] at hobserve
        exact List.Subset.trans hwrote hobserve
      next error final hfinal =>
        rw [hfinal] at hobserve
        exact List.Subset.trans hwrote hobserve

theorem reserved_run (step : DeskStep) (desk : RevisionDesk) :
    desk.reserved ⊆ (step.run host desk).2.reserved := by
  cases step with
  | edit draft writes =>
    rw [DeskStep.run, RevisionDesk.edit]
    split
    · exact List.Subset.refl _
    · exact reserved_observe host draft writes desk
  | save writes => exact reserved_save host writes desk
  | commitPrices pricing reserves writes observesBack =>
    rw [DeskStep.run, RevisionDesk.commitPrices]
    split
    · exact List.Subset.refl _
    split
    · exact List.Subset.refl _
    · exact reserved_saveSyncedTable host pricing reserves writes observesBack desk
  | replaceProviderModels name change reserves writes =>
    exact reserved_replaceModels host _ _ _ _ _
  | replaceProviderModelVision name model supported reserves writes =>
    exact reserved_replaceModels host _ _ _ _ _
  | replaceProviderModelLimits name model contextWindow maxOutputTokens reserves writes =>
    exact reserved_replaceModels host _ _ _ _ _
  | editProvider change catalog reserves key observesBack =>
    exact reserved_editProvider host change catalog reserves key observesBack desk
  | extendRoute provider baseUrl apiKey model reserves =>
    exact reserved_extendRoute host provider baseUrl apiKey model reserves desk
  | retirePrices names keys reserves writes =>
    rw [DeskStep.run, RevisionDesk.retirePrices]
    split
    · exact List.Subset.refl _
    · exact List.Subset.refl _
    · exact reserved_saveOrRestore host _ _ _ _ _
  | restart opening => exact reserved_opened host opening desk.sidecar desk.reserved

end Reserved

/-! ## Runs -/

section Runs

variable {host : ProviderHost} {opening : Opening} {steps : List DeskStep}
variable (hlength : ∀ c ∈ known, (fingerprint host.hash c).utf8ByteSize = 64)
variable (hinjective : ∀ a ∈ known, ∀ b ∈ known,
  fingerprint host.hash a = fingerprint host.hash b → a = b)

theorem toOption_eq_some {ε α : Type} {result : Except ε α} {a : α} :
    result.toOption = some a ↔ result = .ok a := by
  cases result <;> simp [Except.toOption]

/-- The edit of an operation can be taken back. -/
theorem restores_rework {step : DeskStep} {rework : Rework}
    (h : step.rework host desk = some rework)
    (hsections : HasSections desk.app.draft)
    (hroute : ∀ provider baseUrl apiKey model reserves,
      step ≠ .extendRoute provider baseUrl apiKey model reserves) : Restores desk rework := by
  cases step with
  | replaceProviderModels name change reserves writes =>
    exact restores_replacedModels (toOption_eq_some.mp h) (Or.inl ⟨rfl, hsections.1⟩)
  | replaceProviderModelVision name model supported reserves writes =>
    exact restores_replacedModels (toOption_eq_some.mp h)
      (Or.inr ⟨rfl, fun _ ↦ pricing_visionChange⟩)
  | replaceProviderModelLimits name model contextWindow maxOutputTokens reserves writes =>
    exact restores_replacedModels (toOption_eq_some.mp h)
      (Or.inr ⟨rfl, fun _ ↦ pricing_limitsChange⟩)
  | editProvider change catalog reserves key observesBack =>
    exact restores_editedProvider (toOption_eq_some.mp h) hsections.1
  | extendRoute provider baseUrl apiKey model reserves => exact absurd rfl (hroute _ _ _ _ _)
  | retirePrices names keys reserves writes =>
    exact restores_retiredPrices (toOption_eq_some.mp (Option.join_eq_some_iff.mp h)) hsections.1
  | edit draft writes => nomatch h
  | save writes => nomatch h
  | commitPrices pricing reserves writes observesBack => nomatch h
  | restart opening => nomatch h

theorem ensureEditable_eq_ok : desk.ensureEditable = .ok () ↔ desk.app.loadError = none := by
  rw [RevisionDesk.ensureEditable]
  cases desk.app.loadError <;> simp

/-- An operation that has an edit is one of an editable session. -/
theorem loadError_of_rework {step : DeskStep} {rework : Rework}
    (h : step.rework host desk = some rework) : desk.app.loadError = none := by
  have hfirst : ∀ {α : Type} {rest : Unit → Except String α} {a : α},
      (desk.ensureEditable >>= rest) = .ok a → desk.app.loadError = none := fun h ↦ by
    obtain ⟨⟨⟩, hopen, -⟩ := except_bind_eq_ok.mp h
    exact ensureEditable_eq_ok.mp hopen
  cases step with
  | replaceProviderModels name change reserves writes => exact hfirst (toOption_eq_some.mp h)
  | replaceProviderModelVision name model supported reserves writes =>
    exact hfirst (toOption_eq_some.mp h)
  | replaceProviderModelLimits name model contextWindow maxOutputTokens reserves writes =>
    exact hfirst (toOption_eq_some.mp h)
  | editProvider change catalog reserves key observesBack => exact hfirst (toOption_eq_some.mp h)
  | extendRoute provider baseUrl apiKey model reserves => exact hfirst (toOption_eq_some.mp h)
  | retirePrices names keys reserves writes =>
    exact hfirst (toOption_eq_some.mp (Option.join_eq_some_iff.mp h))
  | edit draft writes => nomatch h
  | save writes => nomatch h
  | commitPrices pricing reserves writes observesBack => nomatch h
  | restart opening => nomatch h

/-- The edit of an operation is a draft that it brings in. -/
theorem edited_mem_contents {step : DeskStep} {rework : Rework}
    (h : step.rework host desk = some rework) : rework.edited ∈ step.contents host desk := by
  have hmem : rework.edited ∈ (step.rework host desk).toList.map Rework.edited := by
    rw [h]
    exact List.mem_cons_self
  cases step with
  | edit draft writes => nomatch h
  | save writes => nomatch h
  | commitPrices pricing reserves writes observesBack => nomatch h
  | restart opening => nomatch h
  | _ => exact hmem

/-- An editable session, and the edit of an operation on it. -/
theorem SoundSession.editing (h : SoundSession host.hash known given desk) {step : DeskStep}
    {rework : Rework} (hcontents : ∀ content ∈ step.contents host desk, content ∈ known)
    (hroom : desk.app.configState.ledger.lastAllocatedRevision.toNat + 3 < 2 ^ 64)
    (hrework : step.rework host desk = some rework) :
    Editing host known given desk ∧ rework.edited ∈ known := by
  have hopen := loadError_of_rework hrework
  exact ⟨⟨(h.editable hopen).1, hopen, (h.editable hopen).2, hroom⟩,
    hcontents _ (edited_mem_contents hrework)⟩

include hlength hinjective in
/-- Every step keeps the revisions apart. -/
theorem SoundSession.next (h : SoundSession host.hash known given desk) {step : DeskStep}
    (hcontents : ∀ content ∈ step.contents host desk, content ∈ known)
    (hroom : desk.app.configState.ledger.lastAllocatedRevision.toNat + 3 < 2 ^ 64 ∧
      ∀ ledger ∈ desk.sidecar, ledger.lastAllocatedRevision.toNat + 3 < 2 ^ 64)
    (hkeeps : KeepsReserved host desk step) :
    ∃ given', SoundSession host.hash known given' (step.run host desk).2 := by
  have hediting : desk.app.loadError = none → Editing host known given desk := fun hopen ↦
    ⟨(h.editable hopen).1, hopen, (h.editable hopen).2, hroom.1⟩
  -- an operation that computes its edit first
  have hedits : ∀ rework, step.rework host desk = some rework →
      Editing host known given desk ∧ rework.edited ∈ known := fun _ hrework ↦
    h.editing hcontents hroom.1 hrework
  have hrestores : ∀ rework, step.rework host desk = some rework → step.takesBack = true →
      (∀ provider baseUrl apiKey model reserves,
        step ≠ .extendRoute provider baseUrl apiKey model reserves) → Restores desk rework :=
    fun _ hrework hback ↦ restores_rework hrework (hkeeps.1 hback)
  cases step with
  | edit draft writes =>
    rw [DeskStep.run, RevisionDesk.edit]
    split
    next => exact ⟨given, h⟩
    next hopen =>
      exact (hediting (ensureEditable_eq_ok.mp hopen)).observe hinjective
        (hcontents draft List.mem_cons_self) writes
  | save writes =>
    by_cases hopen : desk.app.loadError = none
    · exact (hediting hopen).save writes
    · obtain ⟨error, herror⟩ := Option.ne_none_iff_exists'.mp hopen
      refine ⟨given, ?_⟩
      rw [DeskStep.run, RevisionDesk.save, herror]
      exact h
  | commitPrices pricing reserves writes observesBack =>
    rw [DeskStep.run, RevisionDesk.commitPrices]
    split
    next => exact ⟨given, h⟩
    next hopen =>
      split
      next => exact ⟨given, h⟩
      next =>
        exact (hediting (ensureEditable_eq_ok.mp hopen)).saveSyncedTable hinjective
          (hcontents _ List.mem_cons_self) observesBack
  | replaceProviderModels name change reserves writes =>
    rw [DeskStep.run, RevisionDesk.replaceProviderModels, RevisionDesk.replaceModels]
    split
    next => exact ⟨given, h⟩
    next rework hrework =>
      have hsome := toOption_eq_some.mpr hrework
      obtain ⟨hopen, hknown⟩ := hedits rework hsome
      exact hopen.saveOrRestore hinjective _ hknown (hrestores rework hsome rfl (by simp))
        (hkeeps.2 rework hsome)
  | replaceProviderModelVision name model supported reserves writes =>
    rw [DeskStep.run, RevisionDesk.replaceProviderModelVision, RevisionDesk.replaceModels]
    split
    next => exact ⟨given, h⟩
    next rework hrework =>
      have hsome := toOption_eq_some.mpr hrework
      obtain ⟨hopen, hknown⟩ := hedits rework hsome
      exact hopen.saveOrRestore hinjective _ hknown (hrestores rework hsome rfl (by simp))
        (hkeeps.2 rework hsome)
  | replaceProviderModelLimits name model contextWindow maxOutputTokens reserves writes =>
    rw [DeskStep.run, RevisionDesk.replaceProviderModelLimits, RevisionDesk.replaceModels]
    split
    next => exact ⟨given, h⟩
    next rework hrework =>
      have hsome := toOption_eq_some.mpr hrework
      obtain ⟨hopen, hknown⟩ := hedits rework hsome
      exact hopen.saveOrRestore hinjective _ hknown (hrestores rework hsome rfl (by simp))
        (hkeeps.2 rework hsome)
  | editProvider change catalog reserves key observesBack =>
    cases hrework : desk.editedProvider host change catalog with
    | error error =>
      refine ⟨given, ?_⟩
      rw [DeskStep.run, RevisionDesk.editProvider, hrework]
      exact h
    | ok rework =>
      have hsome := toOption_eq_some.mpr hrework
      obtain ⟨hopen, hknown⟩ := hedits rework hsome
      exact hopen.editProvider hinjective hrework hknown
        (hrestores rework hsome rfl (by simp)) (hkeeps.2 rework hsome) observesBack
  | extendRoute provider baseUrl apiKey model reserves =>
    cases hrework : desk.extendedRoute host provider baseUrl model with
    | error error =>
      refine ⟨given, ?_⟩
      rw [DeskStep.run, RevisionDesk.extendRoute, hrework]
      exact h
    | ok rework =>
      obtain ⟨hopen, hknown⟩ := hedits rework (toOption_eq_some.mpr hrework)
      exact hopen.extendRoute hinjective hrework hknown
        (unedited_extendedRoute hrework (hkeeps.1 rfl).2)
  | retirePrices names keys reserves writes =>
    rw [DeskStep.run, RevisionDesk.retirePrices]
    split
    next => exact ⟨given, h⟩
    next => exact ⟨given, h⟩
    next rework hrework =>
      have hsome := Option.join_eq_some_iff.mpr (toOption_eq_some.mpr hrework)
      obtain ⟨hopen, hknown⟩ := hedits rework hsome
      exact hopen.saveOrRestore hinjective _ hknown (hrestores rework hsome rfl (by simp))
        (hkeeps.2 rework hsome)
  | restart opening =>
    exact h.files.opened hlength hinjective (hcontents _ List.mem_cons_self)
      (hcontents _ (List.mem_cons_of_mem _ List.mem_cons_self)) hroom.2

end Runs

end TokenStation
