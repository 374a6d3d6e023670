import TokenStation.Client.SpentRevisionRuns

/-!
# Revisions over the runs of a desktop

From the step lemma: while no operation that fails puts the identities back behind the sidecar, a
revision that was reserved belongs to its draft for good. An operation that fails leaves the draft,
and what is saved, whatever was reserved.

Models that cannot be saved show the defect: the next edit of the limits gets their revision.
-/

namespace TokenStation

open Library JsonValue ConfigState Command

variable {host : ProviderHost} {opening : Opening} {steps before after : List DeskStep}
  {desk : RevisionDesk}

/-! ## Runs -/

theorem deskRun_concat (before : List DeskStep) (step : DeskStep) :
    deskRun host opening (before ++ [step]) = (step.run host (deskRun host opening before)).2 :=
  runSteps_concat _ _ before step

/-- What the sidecar was written with is remembered. -/
theorem reserved_deskRun (h : before <+: after) :
    (deskRun host opening before).reserved ⊆ (deskRun host opening after).reserved := by
  obtain ⟨rest, rfl⟩ := h
  induction rest using List.reverseRecOn with
  | nil =>
    rw [List.append_nil]
    exact List.Subset.refl _
  | append_singleton rest step ih =>
    rw [← List.append_assoc, deskRun_concat]
    exact List.Subset.trans ih (reserved_run host step _)

section Sound

variable (hdigest : TellsApart host opening steps) (hfar : Spacious host opening steps)
  (hkeeps : ∀ before step, before ++ [step] <+: steps →
    KeepsReserved host (deskRun host opening before) step)

include hdigest in
/-- The invariant of a desktop that is new on its directory. -/
theorem soundSession_opened : ∃ given, SoundSession host.hash {c | Shown host opening steps c} given
    (.opened host opening none []) := by
  have hempty : SoundFiles host.hash {c | Shown host opening steps c} ∅
      { app := { draft := .null, configState := .readOnly host.hash .null }, sidecar := none } :=
    ⟨⟨fun p hp ↦ hp.elim, fun p hp ↦ hp.elim⟩, fun p hp ↦ (nomatch hp),
      fun ledger hledger ↦ (nomatch hledger)⟩
  exact hempty.opened hdigest.length hdigest.injective (Or.inl List.mem_cons_self)
    (Or.inl (List.mem_cons_of_mem _ List.mem_cons_self)) fun ledger hledger ↦ (nomatch hledger)

include hdigest hfar hkeeps in
/-- The invariant holds after every prefix of a run. -/
theorem soundSession_deskRun (h : before <+: steps) :
    ∃ given, SoundSession host.hash {c | Shown host opening steps c} given
      (deskRun host opening before) := by
  refine prefix_induction (motive := fun before ↦ ∃ given,
    SoundSession host.hash {c | Shown host opening steps c} given (deskRun host opening before))
    (soundSession_opened hdigest) (fun before step hstep ih ↦ ?_) h
  obtain ⟨given, hsession⟩ := ih
  rw [deskRun_concat]
  exact hsession.next hdigest.length hdigest.injective
    (fun content hcontent ↦ Or.inr ⟨before, step, hstep, hcontent⟩)
    (hfar before ((List.prefix_append _ _).trans hstep)) (hkeeps before step hstep)

end Sound

theorem SoundSession.mem_of_gives {hash : JsonValue → String} {known : Set JsonValue}
    {given : Set (UInt64 × JsonValue)} (h : SoundSession hash known given desk) {revision : UInt64}
    {content : JsonValue} (hgives : desk.Gives revision content) : (revision, content) ∈ given := by
  obtain hreserved | ⟨hne, hdraft | hsaved⟩ := hgives
  · exact (h.files.reserved _ hreserved).1
  · rw [hdraft]
    exact h.draftGiven fun hzero ↦ hne ((congrArg Prod.fst hdraft).trans hzero)
  · rw [hsaved]
    exact h.savedGiven fun hzero ↦ hne ((congrArg Prod.fst hsaved).trans hzero)

/-! ## What a failed operation leaves -/

/-- What the user sees of a session. -/
structure LeavesSession (desk after : RevisionDesk) : Prop where
  draft : after.app.draft = desk.app.draft
  saved : after.app.configState.saved = desk.app.configState.saved
  isDirty : isDirty after.app.configState = isDirty desk.app.configState

theorem LeavesSession.refl (desk : RevisionDesk) : LeavesSession desk desk := ⟨rfl, rfl, rfl⟩

section Failing

variable {known : Set JsonValue} {given : Set (UInt64 × JsonValue)} {rework : Rework}
  {reserves : Bool} {writes : SaveWrites} {error : String} {final : RevisionDesk}
variable (hinjective : ∀ a ∈ known, ∀ b ∈ known,
  fingerprint host.hash a = fingerprint host.hash b → a = b)

include hinjective in
theorem Editing.leaves_saveOrRestore (h : Editing host known given desk) {text : String → String}
    (hknown : rework.edited ∈ known) (hrestores : Restores desk rework)
    (hcall : desk.saveOrRestore host text rework reserves writes = (.error error, final)) :
    LeavesSession desk final := by
  obtain ⟨given', hends⟩ : ∃ given', EditEnds host known given given' rework.edited reserves writes
      desk (desk.observeAndSave host rework.edited reserves writes).1
      (desk.observeAndSave host rework.edited reserves writes).2 :=
    h.sound.observeAndSave hinjective h.isOpen hknown (by have := h.room; omega)
  rw [RevisionDesk.saveOrRestore] at hcall
  generalize desk.observeAndSave host rework.edited reserves writes = saved at hends hcall
  obtain ⟨result, after⟩ := saved
  cases result with
  | ok _ => cases congrArg Prod.fst hcall
  | error cause =>
    obtain rfl : _ = final := congrArg Prod.snd hcall
    refine ⟨?_, rfl, rfl⟩
    change rework.restore after.app.draft = desk.app.draft
    obtain hedited | hsame := hends.drafts.2
    · rw [show after.app.draft = rework.edited from hedited]
      exact hrestores.edited
    · rw [show after.app.draft = _ from hsame, ← h.draft]
      exact hrestores.unedited

/-- A draft that is the saved content needs no new revision. -/
theorem observe_saved {draft : JsonValue}
    (h : fingerprint host.hash draft = desk.app.configState.savedFingerprint) (writes : Bool) :
    ∃ after, desk.observe host draft writes = (.ok (), after) ∧ after.app.draft = draft ∧
      after.app.configState.saved = desk.app.configState.saved ∧
      isDirty after.app.configState = false := by
  obtain ⟨hsame, hcall⟩ | ⟨-, -, hcall⟩ | ⟨-, hne, -⟩ | ⟨-, hne, -⟩ :=
    observeDraft_cases host.hash draft writes desk.app.configState desk.sidecar
  · rw [RevisionDesk.observe, hcall]
    refine ⟨_, rfl, rfl, rfl, ?_⟩
    exact bne_eq_false_iff_eq.mpr (hsame.symm.trans h)
  · rw [RevisionDesk.observe, hcall]
    exact ⟨_, rfl, rfl, rfl, bne_eq_false_iff_eq.mpr h⟩
  · exact absurd h hne
  · exact absurd h hne

/-- A draft that is observed already. -/
theorem observe_same {draft : JsonValue}
    (h : fingerprint host.hash draft = desk.app.configState.draftFingerprint) (writes : Bool) :
    desk.observe host draft writes = (.ok (), desk.withDraft draft) := by
  rw [RevisionDesk.observe, ConfigState.observeDraft]
  rw [if_pos h]
  dsimp only
  rw [RevisionDesk.wrote_self]

include hinjective in
/-- The price table that is put back is the saved one, and needs no new revision. -/
theorem Editing.leaves_saveSyncedTable (h : Editing host known given desk) {pricing : JsonValue}
    (hclean : isDirty desk.app.configState = false)
    (hknown : setMember "pricing" pricing desk.app.draft ∈ known) {observesBack : Bool}
    (hcall : desk.saveSyncedTable host pricing reserves writes observesBack =
      (.error error, final)) : LeavesSession desk final := by
  obtain ⟨given', hends⟩ : ∃ given', EditEnds host known given given'
      (setMember "pricing" pricing desk.app.draft) reserves writes desk
      (desk.observeAndSave host (setMember "pricing" pricing desk.app.draft) reserves writes).1
      (desk.observeAndSave host (setMember "pricing" pricing desk.app.draft) reserves writes).2 :=
    h.sound.observeAndSave hinjective h.isOpen hknown (by have := h.room; omega)
  rw [RevisionDesk.saveSyncedTable] at hcall
  generalize desk.observeAndSave host (setMember "pricing" pricing desk.app.draft) reserves writes =
    saved at hends hcall
  obtain ⟨result, after⟩ := saved
  cases result with
  | ok _ => cases congrArg Prod.fst hcall
  | error cause =>
    obtain ⟨hsaved, hsavedFound⟩ := hends.saved cause rfl
    have hsame : desk.app.configState.draftFingerprint = desk.app.configState.savedFingerprint := by
      rwa [isDirty, bne_eq_false_iff_eq] at hclean
    have hfound : fingerprint host.hash desk.app.draft =
        after.app.configState.savedFingerprint := by
      rw [h.draft, h.sound.memory.draft.2, hsame]
      exact hsavedFound.symm
    obtain ⟨back, hback, hdraft, hkept, hdirty⟩ := observe_saved hfound observesBack
    dsimp only at hcall
    rw [hback] at hcall
    obtain rfl : back = final := congrArg Prod.snd hcall
    exact ⟨hdraft, hkept.trans hsaved, hdirty.trans hclean.symm⟩

include hinjective in
theorem Editing.leaves_editProvider (h : Editing host known given desk) {change : CheckedEdit}
    {catalog key : Option String} (hrework : desk.editedProvider host change catalog = .ok rework)
    (hknown : rework.edited ∈ known) (hrestores : Restores desk rework) {observesBack : Bool}
    (hcall : desk.editProvider host change catalog reserves key observesBack =
      (.error error, final)) : LeavesSession desk final := by
  obtain ⟨given', result, after, hobserve, hobserved, hfails⟩ :=
    h.observed hinjective reserves hknown hrestores.unedited
  rw [RevisionDesk.editProvider, hrework] at hcall
  dsimp only at hcall
  rw [hobserve] at hcall
  obtain ⟨rfl, happ, hstate⟩ | ⟨⟨cause, rfl⟩, -⟩ := hobserved.ends
  · dsimp only at hcall
    split at hcall
    · cases key with
      | none => cases congrArg Prod.fst hcall
      | some keyError =>
        -- the draft is put back with its identities, so observing it changes nothing
        have hback : rework.restore after.app.draft = desk.app.draft := by
          rw [happ, hrestores.edited]
        have hsame : fingerprint host.hash (rework.restore after.app.draft) =
            (after.restored desk.app.configState
              rework.restore).app.configState.draftFingerprint := by
          rw [hback, h.draft]
          exact h.sound.memory.draft.2
        rw [RevisionDesk.writeEditedKey] at hcall
        rw [show (after.restored desk.app.configState rework.restore).app.draft =
          rework.restore after.app.draft from rfl, observe_same hsame] at hcall
        obtain rfl : _ = final := congrArg Prod.snd hcall
        exact ⟨hback, rfl, rfl⟩
    · cases congrArg Prod.fst hcall
  · obtain rfl : _ = final := congrArg Prod.snd hcall
    have hrestored := (hfails ⟨cause, rfl⟩).draft
    exact ⟨hrestored.trans h.draft.symm, rfl, rfl⟩

include hinjective in
theorem Editing.leaves_extendRoute (h : Editing host known given desk)
    {provider baseUrl apiKey model : String}
    (hrework : desk.extendedRoute host provider baseUrl model = .ok rework)
    (hknown : rework.edited ∈ known) (hback : rework.restore desk.app.draft = desk.app.draft)
    (hcall : desk.extendRoute host provider baseUrl apiKey model reserves = (.error error, final)) :
    LeavesSession desk final := by
  obtain ⟨given', result, after, hobserve, hobserved, hfails⟩ :=
    h.observed hinjective reserves hknown hback
  rw [RevisionDesk.extendRoute, hrework] at hcall
  dsimp only at hcall
  rw [hobserve] at hcall
  obtain ⟨rfl, -, -⟩ | ⟨⟨cause, rfl⟩, -⟩ := hobserved.ends
  · cases congrArg Prod.fst hcall
  · obtain rfl : _ = final := congrArg Prod.snd hcall
    have hrestored := (hfails ⟨cause, rfl⟩).draft
    exact ⟨hrestored.trans h.draft.symm, rfl, rfl⟩

include hinjective in
/-- An operation that fails leaves what the user sees. -/
theorem SoundSession.leaves_run (h : SoundSession host.hash known given desk) {step : DeskStep}
    (hcontents : ∀ content ∈ step.contents host desk, content ∈ known)
    (hroom : desk.app.configState.ledger.lastAllocatedRevision.toNat + 3 < 2 ^ 64)
    (hback : step.takesBack = true) (hsections : HasSections desk.app.draft)
    (hcall : step.run host desk = (.error error, final)) : LeavesSession desk final := by
  have hedits : ∀ rework, step.rework host desk = some rework →
      Editing host known given desk ∧ rework.edited ∈ known := fun _ hrework ↦
    h.editing hcontents hroom hrework
  have hrestores : ∀ rework, step.rework host desk = some rework →
      (∀ provider baseUrl apiKey model reserves,
        step ≠ .extendRoute provider baseUrl apiKey model reserves) → Restores desk rework :=
    fun _ hrework ↦ restores_rework hrework hsections
  -- an operation that is refused before it edits anything
  have hrefused : ∀ {cause : String}, ((.error cause : Except String Unit), desk) =
      (.error error, final) → LeavesSession desk final := by
    intro cause hsame
    obtain rfl : desk = final := congrArg Prod.snd hsame
    exact .refl desk
  cases step with
  | edit draft writes => cases hback
  | save writes => cases hback
  | restart opening => cases hback
  | commitPrices pricing reserves writes observesBack =>
    rw [DeskStep.run, RevisionDesk.commitPrices] at hcall
    split at hcall
    next => exact hrefused hcall
    next hopen =>
      split at hcall
      next => exact hrefused hcall
      next hclean =>
        have heditable := ensureEditable_eq_ok.mp hopen
        have hediting : Editing host known given desk :=
          ⟨(h.editable heditable).1, heditable, (h.editable heditable).2, hroom⟩
        exact hediting.leaves_saveSyncedTable hinjective (Bool.eq_false_of_not_eq_true hclean)
          (hcontents _ List.mem_cons_self) hcall
  | replaceProviderModels name change reserves writes =>
    rw [DeskStep.run, RevisionDesk.replaceProviderModels, RevisionDesk.replaceModels] at hcall
    split at hcall
    next => exact hrefused hcall
    next rework hrework =>
      have hsome := toOption_eq_some.mpr hrework
      obtain ⟨hopen, hknown⟩ := hedits rework hsome
      exact hopen.leaves_saveOrRestore hinjective hknown (hrestores rework hsome (by simp)) hcall
  | replaceProviderModelVision name model supported reserves writes =>
    rw [DeskStep.run, RevisionDesk.replaceProviderModelVision, RevisionDesk.replaceModels] at hcall
    split at hcall
    next => exact hrefused hcall
    next rework hrework =>
      have hsome := toOption_eq_some.mpr hrework
      obtain ⟨hopen, hknown⟩ := hedits rework hsome
      exact hopen.leaves_saveOrRestore hinjective hknown (hrestores rework hsome (by simp)) hcall
  | replaceProviderModelLimits name model contextWindow maxOutputTokens reserves writes =>
    rw [DeskStep.run, RevisionDesk.replaceProviderModelLimits, RevisionDesk.replaceModels] at hcall
    split at hcall
    next => exact hrefused hcall
    next rework hrework =>
      have hsome := toOption_eq_some.mpr hrework
      obtain ⟨hopen, hknown⟩ := hedits rework hsome
      exact hopen.leaves_saveOrRestore hinjective hknown (hrestores rework hsome (by simp)) hcall
  | editProvider change catalog reserves key observesBack =>
    cases hrework : desk.editedProvider host change catalog with
    | error cause =>
      rw [DeskStep.run, RevisionDesk.editProvider, hrework] at hcall
      exact hrefused hcall
    | ok rework =>
      have hsome := toOption_eq_some.mpr hrework
      obtain ⟨hopen, hknown⟩ := hedits rework hsome
      exact hopen.leaves_editProvider hinjective hrework hknown
        (hrestores rework hsome (by simp)) hcall
  | extendRoute provider baseUrl apiKey model reserves =>
    cases hrework : desk.extendedRoute host provider baseUrl model with
    | error cause =>
      rw [DeskStep.run, RevisionDesk.extendRoute, hrework] at hcall
      exact hrefused hcall
    | ok rework =>
      obtain ⟨hopen, hknown⟩ := hedits rework (toOption_eq_some.mpr hrework)
      exact hopen.leaves_extendRoute hinjective hrework hknown
        (unedited_extendedRoute hrework hsections.2) hcall
  | retirePrices names keys reserves writes =>
    rw [DeskStep.run, RevisionDesk.retirePrices] at hcall
    split at hcall
    next => exact hrefused hcall
    next => cases congrArg Prod.fst hcall
    next rework hrework =>
      have hsome := Option.join_eq_some_iff.mpr (toOption_eq_some.mpr hrework)
      obtain ⟨hopen, hknown⟩ := hedits rework hsome
      exact hopen.leaves_saveOrRestore hinjective hknown (hrestores rework hsome (by simp)) hcall

end Failing

/-- Revisions stay spent in a run that puts no identities back behind the sidecar. -/
theorem spent_of_keepsReserved (host : ProviderHost) (opening : Opening) (steps : List DeskStep)
    (hdigest : TellsApart host opening steps) (hfar : Spacious host opening steps)
    (hkeeps : ∀ before step, before ++ [step] <+: steps →
      KeepsReserved host (deskRun host opening before) step) :
    RevisionsSpent host opening steps := by
  constructor
  · intro before after hbefore hafter revision content hreserved other hgives
    obtain ⟨given, hsession⟩ := soundSession_deskRun hdigest hfar hkeeps hafter
    have hfirst := (hsession.files.reserved _ (reserved_deskRun hbefore hreserved)).1
    exact hsession.files.distinct _ hfirst _ (hsession.mem_of_gives hgives) rfl
  · intro before step hstep hback desk error final hcall
    have hbefore := (List.prefix_append before [step]).trans hstep
    obtain ⟨given, hsession⟩ := soundSession_deskRun hdigest hfar hkeeps hbefore
    obtain ⟨hdraft, hsaved, hdirty⟩ := hsession.leaves_run hdigest.injective
      (fun content hcontent ↦ Or.inr ⟨before, step, hstep, hcontent⟩) (hfar before hbefore).1 hback
      ((hkeeps before step hstep).1 hback) hcall
    exact ⟨hdraft, hsaved, hdirty⟩

/-! ### Two windows for one model -/

def windowedModel (window : String) : JsonValue :=
  .object [("model", .string "m"), ("context_window", .number window)]

/-- The model with the operator's window. -/
def ownWindow (window : String) : JsonValue :=
  setMember ModelLimits.contextWindowSourceKey (.string ModelLimits.limitSourceOperator)
    (windowedModel window)

def windowedDraft (capability : JsonValue) : JsonValue :=
  .object [("pricing", .object []), ("router", .object []),
    ("upstreams", .object [("cloud", .object [("models", .array [capability])])])]

/-- A digest of drafts that differ in the window of their model. -/
def windowDigest (draft : JsonValue) : String :=
  match (((upstreamOf draft "cloud").getD .null).index "models").asArray with
  | some [capability] =>
    match capability.index "context_window" with
    | .number "8192" => "8888888888888888888888888888888888888888888888888888888888888888"
    | .number "4096" => "4444444444444444444444444444444444444444444444444444444444444444"
    | _ => "2222222222222222222222222222222222222222222222222222222222222222"
  | _ => ""

def windowHost : ProviderHost where
  hash := windowDigest
  parsers := loopbackParsers
  fromValue _ := .ok { listen := "127.0.0.1:8787", plugins := { agents := ["openai"] } }
  presets := []
  storedModels _ _ := .ok ()
  configPath := "token-station.json"
  priceTable _ := .ok {}
  priceValue _ := .null
  egressOf _ := .ok {}
  endpointError _ := "not an endpoint"
  isAbsolutePath _ := false
  sameValue _ _ := true
  modelValues _ _ _ _ _ := .array []
  withoutProbes value := value
  references _ _ := []
  rebuiltRouter value := value

def windowOpening : Opening where
  saved := windowedDraft (windowedModel "2048")
  draft := windowedDraft (windowedModel "2048")
  configExists := true
  broken := none
  writes := true
  reserves := true

def setWindow (window : UInt32) (reserves : Bool) (replaced : Option String) : DeskStep :=
  .replaceProviderModelLimits "cloud" "m" window 0 reserves ⟨true, true, replaced, true⟩

/-- One window, whose save fails, and another one. -/
def twoWindows (reserves : Bool) : List DeskStep :=
  [setWindow 8192 reserves (some "disk full"), setWindow 4096 true none]

theorem eq_of_prefix_pair {first second step : DeskStep}
    (h : before ++ [step] <+: [first, second]) :
    before = [] ∧ step = first ∨ before = [first] ∧ step = second := by
  cases before with
  | nil => exact Or.inl ⟨rfl, (List.cons_prefix_cons.mp h).1⟩
  | cons head rest =>
    obtain ⟨rfl, hrest⟩ := List.cons_prefix_cons.mp h
    cases rest with
    | nil => exact Or.inr ⟨rfl, (List.cons_prefix_cons.mp hrest).1⟩
    | cons other rest =>
      have hnil := List.prefix_nil.mp (List.cons_prefix_cons.mp hrest).2
      exact absurd hnil (List.append_ne_nil_of_right_ne_nil _ (List.cons_ne_nil _ _))

/-- The drafts of the two edits. -/
theorem contents_twoWindows (reserves : Bool) {step : DeskStep}
    (h : before ++ [step] <+: twoWindows reserves) :
    before = [] ∧ step = setWindow 8192 reserves (some "disk full") ∧
        step.contents windowHost (deskRun windowHost windowOpening before) =
          [windowedDraft (ownWindow "8192")] ∨
      before = [setWindow 8192 reserves (some "disk full")] ∧ step = setWindow 4096 true none ∧
        step.contents windowHost (deskRun windowHost windowOpening before) =
          [windowedDraft (ownWindow "4096")] := by
  obtain ⟨rfl, rfl⟩ | ⟨rfl, rfl⟩ := eq_of_prefix_pair h
  · exact Or.inl ⟨rfl, rfl, rfl⟩
  · cases reserves with
    | true => exact Or.inr ⟨rfl, rfl, rfl⟩
    | false => exact Or.inr ⟨rfl, rfl, rfl⟩

theorem shown_twoWindows {reserves : Bool} {content : JsonValue}
    (h : Shown windowHost windowOpening (twoWindows reserves) content) :
    content = windowedDraft (windowedModel "2048") ∨ content = windowedDraft (ownWindow "8192") ∨
      content = windowedDraft (ownWindow "4096") := by
  obtain hopened | ⟨before, step, hstep, hcontent⟩ := h
  · obtain rfl | hdraft := List.mem_cons.mp hopened
    · exact Or.inl rfl
    · exact Or.inl (List.mem_singleton.mp hdraft)
  · obtain ⟨-, -, hcontents⟩ | ⟨-, -, hcontents⟩ := contents_twoWindows reserves hstep
    · rw [hcontents] at hcontent
      exact Or.inr (Or.inl (List.mem_singleton.mp hcontent))
    · rw [hcontents] at hcontent
      exact Or.inr (Or.inr (List.mem_singleton.mp hcontent))

theorem tellsApart_twoWindows (reserves : Bool) :
    TellsApart windowHost windowOpening (twoWindows reserves) := by
  constructor
  · intro content hcontent
    obtain rfl | rfl | rfl := shown_twoWindows hcontent
    · decide +kernel
    · decide +kernel
    · decide +kernel
  · intro a ha b hb heq
    obtain rfl | rfl | rfl := shown_twoWindows ha <;> obtain rfl | rfl | rfl := shown_twoWindows hb
    · rfl
    · exact absurd heq (by decide +kernel)
    · exact absurd heq (by decide +kernel)
    · exact absurd heq (by decide +kernel)
    · rfl
    · exact absurd heq (by decide +kernel)
    · exact absurd heq (by decide +kernel)
    · exact absurd heq (by decide +kernel)
    · rfl

theorem spacious_twoWindows (reserves : Bool) :
    Spacious windowHost windowOpening (twoWindows reserves) := by
  intro before hbefore
  have hmem : before ∈ (twoWindows reserves).inits := (List.mem_inits _ _).mpr hbefore
  have hall : ∀ before ∈ (twoWindows reserves).inits,
      (deskRun windowHost windowOpening before).app.configState.ledger.lastAllocatedRevision.toNat +
        3 < 2 ^ 64 ∧
      ((deskRun windowHost windowOpening before).sidecar.all fun ledger ↦
        decide (ledger.lastAllocatedRevision.toNat + 3 < 2 ^ 64)) = true := by
    cases reserves <;> decide +kernel
  obtain ⟨hmemory, hsidecar⟩ := hall before hmem
  refine ⟨hmemory, fun ledger hledger ↦ ?_⟩
  rw [hledger] at hsidecar
  exact of_decide_eq_true hsidecar

/-- The sidecar fails first, and no revision is reserved for the window that is not saved. -/
theorem spent_of_keepsReserved_unreserved :
    RevisionsSpent windowHost windowOpening (twoWindows false) := by
  refine spent_of_keepsReserved windowHost windowOpening (twoWindows false)
    (tellsApart_twoWindows false) (spacious_twoWindows false) fun before step hstep ↦ ?_
  obtain ⟨rfl, rfl, hcontents⟩ | ⟨rfl, rfl, hcontents⟩ := contents_twoWindows false hstep
  · refine ⟨fun _ ↦ ⟨rfl, rfl⟩, fun rework hrework ↦ ⟨fun _ hreserves ↦ (nomatch hreserves), ?_⟩⟩
    have hedited : rework.edited = windowedDraft (ownWindow "8192") :=
      List.mem_singleton.mp (hcontents ▸ edited_mem_contents hrework)
    rw [hedited]
    rintro (⟨hsame, -⟩ | ⟨-, hsame, -⟩)
    · exact absurd hsame (by decide +kernel)
    · exact absurd hsame (by decide +kernel)
  · refine ⟨fun _ ↦ ⟨rfl, rfl⟩, fun rework hrework ↦ ?_⟩
    have hedited : rework.edited = windowedDraft (ownWindow "4096") :=
      List.mem_singleton.mp (hcontents ▸ edited_mem_contents hrework)
    have hreplaced : RevisionDesk.replaceFiles windowHost (windowedDraft (ownWindow "4096"))
        none = .ok () := by rfl
    rw [← hedited] at hreplaced
    exact ⟨fun _ _ ↦ ⟨rfl, hreplaced⟩, fun _ _ _ ↦ hreplaced⟩

/-- The window that is saved gets the revision of the one that was not. -/
theorem not_spent_twoWindows :
    TellsApart windowHost windowOpening (twoWindows true) ∧
      Spacious windowHost windowOpening (twoWindows true) ∧
      ¬ RevisionsSpent windowHost windowOpening (twoWindows true) := by
  refine ⟨tellsApart_twoWindows true, spacious_twoWindows true, fun hspent ↦ ?_⟩
  have hsame : windowedDraft (ownWindow "8192") = windowedDraft (ownWindow "4096") := by
    refine hspent.spent [setWindow 8192 true (some "disk full")] (twoWindows true)
      (List.prefix_append _ _) (List.prefix_refl _) 2 _ ?_ _ ?_
    · have hreserved : (deskRun windowHost windowOpening
          [setWindow 8192 true (some "disk full")]).reserved =
            [(1, windowedDraft (windowedModel "2048")), (2, windowedDraft (ownWindow "8192")),
              (2, windowedDraft (ownWindow "8192"))] := by rfl
      rw [hreserved]
      exact List.mem_cons_of_mem _ List.mem_cons_self
    · exact Or.inr ⟨by decide, Or.inl rfl⟩
  exact absurd (congrArg windowDigest hsame) (by decide +kernel)

end TokenStation
