import Mathlib.Data.List.Perm.Subperm
import TokenStation.Inbound.GeminiHistory

/-!
# The order of tool messages

A chat provider wants the tool messages right after the message that made the calls. The adapter
puts the text of a content before its tool messages.

`historyKept_iff` says for which bodies a tool history is kept as a whole: which turns come out in
the order that the provider wants, and which ids of the adapter's own collide with others.
-/

namespace TokenStation

namespace Gemini

open JsonValue Library

/-! ## Turns -/

def isCall : LogEvent String String → Bool
  | .call .. => true
  | .answer .. => false

/-- Calls of the model and the turn that answers them, among contents without calls. -/
inductive Alternates : List JsonValue → Prop where
  | nil : Alternates []
  | plain {item : JsonValue} {rest : List JsonValue} : itemEvents item = [] → Alternates rest →
      Alternates (item :: rest)
  | turn {model user : JsonValue} {rest : List JsonValue} :
      memberStr "role" model = some "model" → memberStr "role" user ≠ some "model" →
      itemEvents model ≠ [] → (∀ event ∈ itemEvents model, isCall event = true) →
      (∀ event ∈ itemEvents user, isCall event = false) →
      (itemEvents user).length = (itemEvents model).length → Alternates rest →
      Alternates (model :: user :: rest)

/-- A tool message answers a call of the last message before it that is not a tool message. -/
def AnswersFollow (asked : List String) : List CanonicalMessage → Prop
  | [] => True
  | message :: rest =>
    if message.role = .tool then
      (∃ id ∈ asked, message.toolCallId = some id) ∧ AnswersFollow asked rest
    else AnswersFollow (message.toolCalls.map (·.id)) rest

/-- A content that answers calls. -/
def hasAnswers (item : JsonValue) : Prop := ∃ event ∈ itemEvents item, isCall event = false

variable {serde : SerdeJson} {log read : List (LogEvent String String × String)}
  {ids ids' : CallIds}

theorem answersFollow_results {asked : List String} {answers : List (String × String)}
    {results rest : List CanonicalMessage} (h : List.Forall₂ IsResult results answers) :
    AnswersFollow asked (results ++ rest) ↔
      (∀ answer ∈ answers, answer.1 ∈ asked) ∧ AnswersFollow asked rest := by
  induction h with
  | nil => exact ⟨fun h ↦ ⟨nofun, h⟩, And.right⟩
  | @cons result answer results answers hresult _ ih =>
    have hone : (∃ id ∈ asked, result.toolCallId = some id) ↔ answer.1 ∈ asked := by
      rw [hresult.callId]
      constructor
      · rintro ⟨id, hid, hsome⟩
        rw [Option.some.inj hsome]
        exact hid
      · exact fun hid ↦ ⟨answer.1, hid, rfl⟩
    rw [List.cons_append, AnswersFollow, if_pos hresult.role, ih, hone, List.forall_mem_cons,
      and_assoc]

/-! ### One content -/

/-- A content of calls only. -/
theorem of_calls (h : ∀ event ∈ read.map Prod.fst, isCall event = true) :
    CallLog.answers read = [] ∧ (CallLog.calls read).length = read.length := by
  induction read with
  | nil => exact ⟨rfl, rfl⟩
  | cons entry read ih =>
    obtain ⟨event, id⟩ := entry
    obtain ⟨hevent, hrest⟩ := List.forall_mem_cons.mp h
    obtain ⟨hanswers, hlength⟩ := ih hrest
    cases event with
    | call given name => exact ⟨hanswers, congrArg (· + 1) hlength⟩
    | answer given name => nomatch hevent

/-- A content of answers only. -/
theorem of_answers (h : ∀ event ∈ read.map Prod.fst, isCall event = false) :
    CallLog.calls read = [] ∧ (CallLog.answers read).length = read.length := by
  induction read with
  | nil => exact ⟨rfl, rfl⟩
  | cons entry read ih =>
    obtain ⟨event, id⟩ := entry
    obtain ⟨hevent, hrest⟩ := List.forall_mem_cons.mp h
    obtain ⟨hcalls, hlength⟩ := ih hrest
    cases event with
    | call given name => nomatch hevent
    | answer given name => exact ⟨hcalls, congrArg (· + 1) hlength⟩

/-- When every call was answered before, new answers are for new calls. -/
theorem answers_subset_calls {asked answered : List (LogEvent String String × String)}
    (hlawful : CallLog.Lawful generatedId (log ++ asked ++ answered))
    (hdone : CallLog.unanswered log = []) (hasked : CallLog.answers asked = [])
    (hanswered : CallLog.calls answered = []) :
    CallLog.answers answered ⊆ CallLog.calls asked := by
  intro answer hanswer
  have hcall := hlawful.answers_subset
  have hnodup := hlawful.answers_nodup
  rw [CallLog.answers_append, CallLog.answers_append, hasked, List.append_nil] at hcall hnodup
  rw [CallLog.calls_append, CallLog.calls_append, hanswered, List.append_nil] at hcall
  obtain hold | hnew := List.mem_append.mp (hcall (List.mem_append_right _ hanswer))
  · -- a call that was answered before is not answered again
    have hopen : answer.1 ∉ (CallLog.answers log).map Prod.fst := by
      rw [List.map_append, List.nodup_append] at hnodup
      exact fun hmem ↦ hnodup.2.2 _ hmem _ (List.mem_map_of_mem hanswer) rfl
    have hmem := CallLog.mem_unanswered.mpr ⟨hold, hopen⟩
    rw [hdone] at hmem
    nomatch hmem
  · exact hnew

/-- As many answers as calls leave none unanswered. -/
theorem unanswered_turn {asked answered : List (LogEvent String String × String)}
    (hlawful : CallLog.Lawful generatedId (log ++ asked ++ answered))
    (hdone : CallLog.unanswered log = []) (hasked : CallLog.answers asked = [])
    (hanswered : CallLog.calls answered = [])
    (hlength : (CallLog.answers answered).length = (CallLog.calls asked).length) :
    CallLog.unanswered (log ++ asked ++ answered) = [] := by
  have hsubset := answers_subset_calls hlawful hdone hasked hanswered
  have hnodup : (CallLog.answers answered).Nodup := by
    have hids := hlawful.answers_nodup
    rw [CallLog.answers_append, List.map_append, List.nodup_append] at hids
    exact List.Nodup.of_map Prod.fst hids.2.1
  have hperm := (hnodup.subperm hsubset).perm_of_length_le hlength.ge
  refine List.eq_nil_iff_forall_not_mem.mpr fun call hcall ↦ ?_
  obtain ⟨hmem, hopen⟩ := CallLog.mem_unanswered.mp hcall
  rw [CallLog.calls_append, CallLog.calls_append, hanswered, List.append_nil,
    List.mem_append] at hmem
  rw [CallLog.answers_append, CallLog.answers_append, hasked, List.append_nil, List.map_append,
    List.mem_append, not_or] at hopen
  obtain hold | hnew := hmem
  · have hunanswered := CallLog.mem_unanswered.mpr ⟨hold, hopen.1⟩
    rw [hdone] at hunanswered
    nomatch hunanswered
  · exact hopen.2 (List.mem_map_of_mem (hperm.mem_iff.mpr hnew))

/-! ### One turn -/

/-- What a content adds beside its tool messages. -/
theorem own_cases {item : JsonValue} {own results : List CanonicalMessage}
    (h : ReadsItem item read own results) :
    (own = [] ∧ hasText item = false ∧ CallLog.calls read = []) ∨
      ∃ message, own = [message] ∧ message.role ≠ .tool ∧ callsOf message = CallLog.calls read := by
  cases own with
  | nil =>
    have hnone := not_or.mp (mt h.nonempty.mpr (not_not.mpr rfl))
    exact Or.inl ⟨rfl, Bool.eq_false_iff.mpr hnone.1, not_not.mp hnone.2⟩
  | cons message own =>
    have hnil : own = [] :=
      List.length_eq_zero_iff.mp (Nat.le_zero.mp (Nat.le_of_succ_le_succ h.short))
    rw [hnil] at h ⊢
    refine Or.inr ⟨message, rfl, h.notTool message List.mem_cons_self, ?_⟩
    rw [← h.calls]
    exact (List.append_nil _).symm

theorem answersFollow_cons {message : CanonicalMessage} {asked : List String}
    {rest : List CanonicalMessage} (h : message.role ≠ .tool) :
    AnswersFollow asked (message :: rest) ↔
      AnswersFollow ((callsOf message).map Prod.fst) rest := by
  rw [AnswersFollow, if_neg h, callsOf, List.map_map]
  rfl

/-- A content without calls and answers does not matter. -/
theorem answersFollow_plain {item : JsonValue} {own results rest : List CanonicalMessage}
    {kept : Prop} (h : ReadsItem item read own results) (hplain : itemEvents item = [])
    (hrest : ∀ asked, AnswersFollow asked rest ↔ kept) (asked : List String) :
    AnswersFollow asked (own ++ results ++ rest) ↔ kept := by
  have hread : read = [] := List.map_eq_nil_iff.mp (h.events.trans hplain)
  subst hread
  have hresults : results = [] := List.forall₂_nil_right_iff.mp h.results
  rw [hresults, List.append_nil]
  obtain ⟨rfl, -, -⟩ | ⟨message, rfl, hrole, -⟩ := own_cases h
  · exact hrest asked
  · rw [List.singleton_append, answersFollow_cons hrole]
    exact hrest _

/-- The tool messages of a turn follow its calls unless the turn has a text. -/
theorem answersFollow_turn {model user : JsonValue}
    {asking answering : List (LogEvent String String × String)}
    {own own' results results' rest : List CanonicalMessage} {kept : Prop}
    (hmodel : ReadsItem model asking own results) (huser : ReadsItem user answering own' results')
    (hcalls : CallLog.calls asking ≠ []) (hasked : CallLog.answers asking = [])
    (hanswered : CallLog.calls answering = []) (hanswers : CallLog.answers answering ≠ [])
    (hsubset : CallLog.answers answering ⊆ CallLog.calls asking)
    (hrest : ∀ asked, AnswersFollow asked rest ↔ kept) (asked : List String) :
    AnswersFollow asked (own ++ results ++ (own' ++ results' ++ rest)) ↔
      hasText user = false ∧ kept := by
  have hnone : results = [] := by
    have hresults := hmodel.results
    rw [hasked] at hresults
    exact List.forall₂_nil_right_iff.mp hresults
  obtain ⟨-, -, hempty⟩ | ⟨message, rfl, hrole, hmessage⟩ := own_cases hmodel
  · exact absurd hempty hcalls
  rw [hnone, List.append_nil, List.singleton_append, answersFollow_cons hrole, hmessage]
  obtain ⟨rfl, htext, -⟩ | ⟨other, rfl, hother, hotherCalls⟩ := own_cases huser
  · rw [List.nil_append, answersFollow_results huser.results, hrest, htext]
    refine and_congr_left' (iff_of_true (fun answer hanswer ↦ ?_) rfl)
    exact List.mem_map_of_mem (hsubset hanswer)
  · -- the text of the turn stands between the calls and the tool messages
    rw [List.singleton_append, List.cons_append, answersFollow_cons hother, hotherCalls, hanswered,
      answersFollow_results huser.results]
    have htext : hasText user = true := by
      have hnonempty := huser.nonempty.mp (List.cons_ne_nil _ _)
      exact hnonempty.resolve_right (not_not.mpr hanswered)
    refine iff_of_false (fun h ↦ ?_) fun h ↦ Bool.false_ne_true (h.1.symm.trans htext)
    obtain ⟨answer, hanswer⟩ := List.exists_mem_of_ne_nil _ hanswers
    exact List.not_mem_nil (h.1 answer hanswer)

/-- In alternating contents the tool messages follow their calls unless an answering turn has a
text. -/
theorem answersFollow_iff {contents : List JsonValue} (h : Alternates contents)
    {messages messages' : List CanonicalMessage} (hids : Reads log ids)
    (hdone : CallLog.unanswered log = [])
    (hread : contents.foldlM (parseItem serde) (messages, ids) = .ok (messages', ids')) :
    ∃ added, messages' = messages ++ added ∧ ∀ asked, AnswersFollow asked added ↔
      ∀ item ∈ contents, hasAnswers item → hasText item = false := by
  induction h generalizing log messages ids with
  | nil =>
    cases hread
    exact ⟨[], (List.append_nil _).symm, fun asked ↦ iff_of_true trivial nofun⟩
  | @plain item rest hplain _ ih =>
    rw [List.foldlM_cons, except_bind_eq_ok] at hread
    obtain ⟨⟨middle, middleIds⟩, hitem, hread⟩ := hread
    obtain ⟨events, own, results, rfl, hids, hitem⟩ := reads_item hids hitem
    have hnil : events = [] := List.map_eq_nil_iff.mp (hitem.events.trans hplain)
    rw [hnil, List.append_nil] at hids
    obtain ⟨added, rfl, hadded⟩ := ih hids hdone hread
    refine ⟨own ++ results ++ added, by simp only [List.append_assoc], fun asked ↦ ?_⟩
    have hno : ¬ hasAnswers item := by
      rintro ⟨event, hevent, -⟩
      rw [hplain] at hevent
      nomatch hevent
    rw [answersFollow_plain hitem hplain hadded, List.forall_mem_cons]
    exact (and_iff_right fun hyes ↦ absurd hyes hno).symm
  | @turn model user rest _ _ hsome hcalls hanswers hlength _ ih =>
    rw [List.foldlM_cons, except_bind_eq_ok] at hread
    obtain ⟨⟨middle, middleIds⟩, hmodel, hread⟩ := hread
    rw [List.foldlM_cons, except_bind_eq_ok] at hread
    obtain ⟨⟨later, laterIds⟩, huser, hread⟩ := hread
    obtain ⟨asking, own, results, rfl, hids, hmodel⟩ := reads_item hids hmodel
    obtain ⟨answering, own', results', rfl, hids, huser⟩ := reads_item hids huser
    obtain ⟨hasked, hcount⟩ := @of_calls asking (hmodel.events ▸ hcalls)
    obtain ⟨hanswered, hcount'⟩ := @of_answers answering (huser.events ▸ hanswers)
    have hsame : (CallLog.answers answering).length = (CallLog.calls asking).length := by
      rw [hcount, hcount', ← List.length_map Prod.fst, huser.events, hlength, ← hmodel.events,
        List.length_map]
    have hcallsNe : CallLog.calls asking ≠ [] := by
      intro hempty
      rw [hempty] at hcount
      refine hsome ?_
      rw [← hmodel.events, List.length_eq_zero_iff.mp hcount.symm]
      rfl
    have hanswersNe : CallLog.answers answering ≠ [] := by
      intro hempty
      rw [hempty] at hsame
      exact hcallsNe (List.length_eq_zero_iff.mp hsame.symm)
    obtain ⟨added, rfl, hadded⟩ :=
      ih hids (unanswered_turn hids.lawful hdone hasked hanswered hsame) hread
    refine ⟨own ++ results ++ (own' ++ results' ++ added), by simp only [List.append_assoc],
      fun asked ↦ ?_⟩
    have hmodelNo : ¬ hasAnswers model := by
      rintro ⟨event, hevent, hanswer⟩
      exact Bool.false_ne_true (hanswer.symm.trans (hcalls event hevent))
    have huserYes : hasAnswers user := by
      have hne : itemEvents user ≠ [] := by
        intro hempty
        rw [hempty] at hlength
        exact hsome (List.length_eq_zero_iff.mp hlength.symm)
      obtain ⟨event, hevent⟩ := List.exists_mem_of_ne_nil _ hne
      exact ⟨event, hevent, hanswers event hevent⟩
    rw [answersFollow_turn hmodel huser hcallsNe hasked hanswered hanswersNe
      (answers_subset_calls hids.lawful hdone hasked hanswered) hadded, List.forall_mem_cons,
      List.forall_mem_cons]
    constructor
    · exact fun h ↦ ⟨fun hyes ↦ absurd hyes hmodelNo, fun _ ↦ h.1, h.2⟩
    · exact fun h ↦ ⟨h.2.1 huserYes, h.2.2⟩

/-! ## Ids of the adapter's own -/

/-- The ids that the calls of a history bring. -/
def explicitIds (events : List (LogEvent String String)) : List String :=
  events.filterMap fun event ↦
    match event with
    | .call given _ => given
    | .answer .. => none

/-! ### Refusals -/

theorem capability_ne_duplicated (detail : String) : capability detail ≠ duplicated :=
  fun heq ↦ nomatch congrArg ErrorEnvelope.code heq

theorem textParts_ne_duplicated {value : JsonValue} {context : String} {error : ErrorEnvelope}
    (hcontext : context = "systemInstruction" ∨ context = "contents")
    (h : textParts value context = .error error) : error ≠ duplicated := by
  have hobjects : invalid s!"{context}.parts entries must be objects" ≠ duplicated := by
    obtain rfl | rfl := hcontext <;> exact invalid_ne_duplicated (by decide +kernel)
  have harray : invalid s!"{context}.parts must be an array" ≠ duplicated := by
    obtain rfl | rfl := hcontext <;> exact invalid_ne_duplicated (by decide +kernel)
  have htext : invalid s!"{context} text part must be a string" ≠ duplicated := by
    obtain rfl | rfl := hcontext <;> exact invalid_ne_duplicated (by decide +kernel)
  simp only [textParts, except_bind_eq_error, orInvalid_eq_error] at h
  obtain ⟨-, rfl⟩ | ⟨parts, -, h⟩ := h
  · exact harray
  obtain hfold | ⟨content, -, hcontent⟩ := h
  · obtain ⟨before, part, after, -, content, -, hpart⟩ := foldlM_eq_error.mp hfold
    simp only [textPart, except_bind_eq_error, orInvalid_eq_error] at hpart
    obtain ⟨-, rfl⟩ | ⟨members, -, hpart⟩ := hpart
    · exact hobjects
    split at hpart
    next text _ =>
      simp only [except_bind_eq_error, orInvalid_eq_error] at hpart
      obtain ⟨-, rfl⟩ | ⟨value, -, hpure⟩ := hpart
      · exact htext
      · cases hpure
    next =>
      split at hpart
      · cases hpart
        exact capability_ne_duplicated _
      split at hpart
      · cases hpart
        exact capability_ne_duplicated _
      · cases hpart
  · cases hcontent

theorem unsupportedRole_ne_duplicated (role : String) : unsupportedRole role ≠ duplicated := by
  refine invalid_ne_duplicated fun heq ↦ ?_
  have hhead := congrArg (fun text ↦ text.toList.head?) heq
  have hfirst : (s!"unsupported Gemini role `{role}`").toList.head? = some 'u' := by
    rw [String.toList_append, String.toList_append]
    rfl
  have hlast : "functionCall id is duplicated".toList.head? = some 'f' := rfl
  exact absurd (hfirst.symm.trans (hhead.trans hlast)) (by decide)

theorem parseSystem_ne_duplicated {body : JsonValue} {error : ErrorEnvelope}
    (h : parseSystem body = .error error) : error ≠ duplicated := by
  rw [parseSystem] at h
  split at h
  · cases h
  simp only [except_bind_eq_error, orInvalid_eq_error] at h
  obtain ⟨-, rfl⟩ | ⟨parts, -, h⟩ := h
  · exact invalid_ne_duplicated (by decide +kernel)
  obtain htext | ⟨content, -, hpure⟩ := h
  · exact textParts_ne_duplicated (Or.inl rfl) htext
  · cases hpure

/-- A part is refused for its id exactly when its call has the id of an earlier one. -/
theorem itemPart_duplicated_iff {item : ItemParts} {part : JsonValue} (hids : Reads log item.ids) :
    itemPart serde item part = .error duplicated ↔
      ∃ call name given, part.member "functionCall" = some call ∧
        WellFormedCall item.ids call name given ∧
        callId item.ids given ∈ CallLog.assignedIds generatedId 0 (log.map Prod.fst) := by
  rw [itemPart_eq, except_bind_eq_error, ← hids.lawful.calls_ids]
  constructor
  · rintro (hcall | ⟨middle, -, hresponse⟩)
    · rw [callPart] at hcall
      cases hmember : part.member "functionCall" with
      | none =>
        rw [hmember] at hcall
        cases hcall
      | some call =>
        rw [hmember] at hcall
        have hread := except_map_eq_error.mp hcall
        obtain ⟨error, hne, herror⟩ | ⟨name, given, hwell⟩ :=
          functionCall_cases serde item.ids call
        · exact absurd (Except.error.inj (herror.symm.trans hread)) hne
        · rw [functionCall_eq hwell.named hwell.brought hwell.room, any_pending hids] at hread
          split at hread
          next hmem => exact ⟨call, name, given, rfl, hwell, of_decide_eq_true hmem⟩
          next => cases hread
    · rw [responsePart] at hresponse
      split at hresponse
      · cases hresponse
      · exact absurd rfl (functionResponse_ne_duplicated (except_map_eq_error.mp hresponse))
  · rintro ⟨call, name, given, hcall, hwell, hmem⟩
    refine Or.inl ?_
    rw [callPart, hcall]
    dsimp only
    rw [functionCall_eq hwell.named hwell.brought hwell.room, any_pending hids,
      decide_eq_true hmem, if_pos rfl]
    rfl

/-! ### The calls that the adapter gets to -/

/-- The contents of a body. -/
def bodyContents (body : JsonValue) : List JsonValue :=
  ((body.member "contents").bind asArray).getD []

/-- The adapter gets to a call that brings an id or none, after the events before it: everything
up to the call passes. -/
def GetsTo (serde : SerdeJson) (body : JsonValue) (earlier : List (LogEvent String String))
    (given : Option String) : Prop :=
  ∃ contents system done item rest messages ids role parts content before part after read call name,
    (body.member "contents").bind asArray = some contents ∧ parseSystem body = .ok system ∧
    contents = done ++ item :: rest ∧
    done.foldlM (parseItem serde) (system.toList, {}) = .ok (messages, ids) ∧
    itemRole item = .ok role ∧ (item.member "parts").bind asArray = some parts ∧
    textParts (array parts) "contents" = .ok content ∧ parts = before ++ part :: after ∧
    before.foldlM (itemPart serde) { ids } = .ok read ∧
    part.member "functionCall" = some call ∧ WellFormedCall read.ids call name given ∧
    earlier = done.flatMap itemEvents ++ partsEvents before

/-- A call that the adapter gets to has the id of an earlier one. -/
def Clashes (serde : SerdeJson) (body : JsonValue) : Prop :=
  ∃ earlier given, GetsTo serde body earlier given ∧
    given.getD (generatedId (CallLog.idless earlier)) ∈
      CallLog.assignedIds generatedId 0 earlier

theorem reads_nil : Reads [] {} := ⟨.nil, rfl, rfl⟩

theorem parseMessages_duplicated_iff (serde : SerdeJson) (body : JsonValue) :
    parseMessages serde body = .error duplicated ↔ Clashes serde body := by
  simp only [parseMessages, except_bind_eq_error, orInvalid_eq_error, orInvalid_eq_ok]
  constructor
  · rintro (⟨-, herror⟩ | ⟨contents, hcontents, hsystem | ⟨system, hsystem, hfold | hpure⟩⟩)
    · exact absurd herror.symm (invalid_ne_duplicated (by decide +kernel))
    · exact absurd rfl (parseSystem_ne_duplicated hsystem)
    · obtain ⟨done, item, rest, hsplit, ⟨messages, ids⟩, hdone, hitem⟩ := foldlM_eq_error.mp hfold
      obtain ⟨log, added, -, hids, hlog⟩ := reads_contents reads_nil hdone
      rw [List.nil_append] at hids
      simp only [parseItem_eq, except_bind_eq_error, orInvalid_eq_error, orInvalid_eq_ok] at hitem
      obtain hrole | ⟨role, hrole, ⟨-, herror⟩ | ⟨parts, hparts, hcontent |
        ⟨content, hcontent, hread | ⟨read, -, hpure⟩⟩⟩⟩ := hitem
      · rw [itemRole] at hrole
        split at hrole
        · cases hrole
        · cases hrole
        · exact absurd (Except.error.inj hrole) (unsupportedRole_ne_duplicated _)
      · exact absurd herror.symm (invalid_ne_duplicated (by decide +kernel))
      · exact absurd rfl (textParts_ne_duplicated (Or.inr rfl) hcontent)
      · obtain ⟨before, part, after, hbefore, read, hread, hpart⟩ := foldlM_eq_error.mp hread
        obtain ⟨events, hevents, hids, -⟩ := reads_allParts hids hread
        obtain ⟨call, name, given, hcall, hwell, hmem⟩ := (itemPart_duplicated_iff hids).mp hpart
        have hlogEvents : (log ++ events).map Prod.fst =
            done.flatMap itemEvents ++ partsEvents before := by
          rw [List.map_append, hlog.events, hevents]
        refine ⟨_, given, ⟨contents, system, done, item, rest, messages, ids, role, parts, content,
          before, part, after, read, call, name, hcontents, hsystem, hsplit, hdone, hrole, hparts,
          hcontent, hbefore, hread, hcall, hwell, rfl⟩, ?_⟩
        rw [← hlogEvents]
        rw [callId, hids.numbered] at hmem
        exact hmem
      · cases hpure
    · obtain ⟨state, -, hpure⟩ := hpure
      cases hpure
  · rintro ⟨earlier, given, ⟨contents, system, done, item, rest, messages, ids, role, parts,
      content, before, part, after, read, call, name, hcontents, hsystem, hsplit, hdone, hrole, hparts,
      hcontent, hbefore, hread, hcall, hwell, rfl⟩, hmem⟩
    obtain ⟨log, added, -, hids, hlog⟩ := reads_contents reads_nil hdone
    rw [List.nil_append] at hids
    obtain ⟨events, hevents, hids, -⟩ := reads_allParts hids hread
    have hlogEvents : (log ++ events).map Prod.fst =
        done.flatMap itemEvents ++ partsEvents before := by
      rw [List.map_append, hlog.events, hevents]
    rw [← hlogEvents] at hmem
    have hpart : itemPart serde read part = .error duplicated := by
      refine (itemPart_duplicated_iff hids).mpr ⟨call, name, given, hcall, hwell, ?_⟩
      rw [callId, hids.numbered]
      exact hmem
    refine Or.inr ⟨contents, hcontents, Or.inr ⟨system, hsystem, Or.inl ?_⟩⟩
    refine foldlM_eq_error.mpr ⟨done, item, rest, hsplit, (messages, ids), hdone, ?_⟩
    simp only [parseItem_eq, except_bind_eq_error, orInvalid_eq_ok]
    exact Or.inr ⟨role, hrole, Or.inr ⟨parts, hparts, Or.inr ⟨content, hcontent, Or.inl
      (foldlM_eq_error.mpr ⟨before, part, after, hbefore, read, hread, hpart⟩)⟩⟩⟩

/-! ## The law -/

/-- The calls and the tool messages are paired. -/
structure PairedHistory (events : List (LogEvent String String))
    (messages : List CanonicalMessage) : Prop where
  distinct : ((messages.flatMap callsOf).map Prod.fst).Nodup
  earlier : AnswersEarlier [] messages
  once : ((messages.filter fun message ↦ message.role = .tool).map (·.toolCallId)).Nodup
  /-- With the ids filled in, the events are those of the messages, and each answers the first call
  that it can be for. -/
  inOrder : ∃ log, CallLog.Lawful generatedId log ∧ log.map Prod.fst = events ∧
    CallLog.calls log = messages.flatMap callsOf ∧
    List.Forall₂ IsResult (messages.filter fun message ↦ message.role = .tool) (CallLog.answers log)

/-- What is asked of a tool history. -/
structure HistoryKept (serde : SerdeJson) (body : JsonValue) : Prop where
  paired : ∀ messages, parseMessages serde body = .ok messages →
    PairedHistory ((bodyContents body).flatMap itemEvents) messages
  follows : ∀ messages, parseMessages serde body = .ok messages →
    Alternates (bodyContents body) → AnswersFollow [] messages
  accepted : (explicitIds ((bodyContents body).flatMap itemEvents)).Nodup →
    parseMessages serde body ≠ .error duplicated

/-- No answering turn has a text, and no id of the adapter's own is taken. -/
structure KeepsHistory (serde : SerdeJson) (body : JsonValue) : Prop where
  noText : (∃ messages, parseMessages serde body = .ok messages) →
    Alternates (bodyContents body) →
      ∀ item ∈ bodyContents body, hasAnswers item → hasText item = false
  noClash : (explicitIds ((bodyContents body).flatMap itemEvents)).Nodup → ¬ Clashes serde body

/-- A system prompt is no tool message, and makes no call. -/
theorem system_of_parseSystem {body : JsonValue} {system : Option CanonicalMessage}
    (h : parseSystem body = .ok system) :
    ∀ message ∈ system.toList, message.role ≠ .tool ∧ callsOf message = [] := by
  rw [parseSystem] at h
  split at h
  · cases h
    rintro _ ⟨⟩
  simp only [except_bind_eq_ok] at h
  obtain ⟨parts, -, content, -, hsystem⟩ := h
  cases hsystem
  intro message hmessage
  obtain ⟨value, -, rfl⟩ := Option.map_eq_some_iff.mp (Option.mem_toList.mp hmessage)
  exact ⟨by rintro ⟨⟩, rfl⟩

theorem parseMessages_ok {body : JsonValue} {messages : List CanonicalMessage}
    (h : parseMessages serde body = .ok messages) : ∃ system ids added,
      messages = system ++ added ∧ system.length ≤ 1 ∧
      (∀ message ∈ system, message.role ≠ .tool ∧ callsOf message = []) ∧
      (bodyContents body).foldlM (parseItem serde) (system, {}) = .ok (messages, ids) := by
  simp only [parseMessages, except_bind_eq_ok, orInvalid_eq_ok] at h
  obtain ⟨contents, hcontents, system, hsystem, ⟨all, ids⟩, hread, hmessages⟩ := h
  cases hmessages
  obtain ⟨log, added, hadded, -, -⟩ := reads_contents reads_nil hread
  have hbody : bodyContents body = contents := by
    rw [bodyContents, hcontents]
    rfl
  refine ⟨system.toList, ids, added, hadded, ?_, system_of_parseSystem hsystem, hbody ▸ hread⟩
  cases system with
  | none => exact Nat.zero_le 1
  | some message => exact le_rfl

theorem callIds_of_results {results : List CanonicalMessage} {answers : List (String × String)}
    (h : List.Forall₂ IsResult results answers) :
    results.map (·.toolCallId) = (answers.map Prod.fst).map some := by
  induction h with
  | nil => rfl
  | cons hresult _ ih => rw [List.map_cons, ih, hresult.callId, List.map_cons, List.map_cons]

theorem pairedHistory {body : JsonValue} {messages : List CanonicalMessage}
    (h : parseMessages serde body = .ok messages) :
    PairedHistory ((bodyContents body).flatMap itemEvents) messages := by
  obtain ⟨system, ids, -, -, -, hsystem, hread⟩ := parseMessages_ok h
  obtain ⟨log, added, rfl, hids, hlog⟩ := reads_contents reads_nil hread
  rw [List.nil_append] at hids
  have hcalls : (system ++ added).flatMap callsOf = CallLog.calls log := by
    rw [List.flatMap_append, List.flatMap_eq_nil_iff.mpr fun message hmessage ↦
      (hsystem message hmessage).2, List.nil_append, hlog.calls]
  have htool : ((system ++ added).filter fun message ↦ message.role = .tool) =
      added.filter fun message ↦ message.role = .tool := by
    rw [List.filter_append, List.filter_eq_nil_iff.mpr fun message hmessage ↦
      decide_eq_true_iff.not.mpr (hsystem message hmessage).1, List.nil_append]
  refine ⟨?_, ?_, ?_, log, hids.lawful, hlog.events, hcalls.symm, ?_⟩
  · rw [hcalls]
    exact hids.lawful.calls_nodup
  · rw [answersEarlier_append, List.nil_append, List.flatMap_eq_nil_iff.mpr fun message hmessage ↦
      (hsystem message hmessage).2]
    exact ⟨answersEarlier_of_notTool fun message hmessage ↦ (hsystem message hmessage).1,
      hlog.earlier⟩
  · rw [htool]
    rw [callIds_of_results hlog.results]
    exact hids.lawful.answers_nodup.map fun _ _ ↦ Option.some.inj
  · rw [htool]
    exact hlog.results

/-- A tool history is kept unless a turn has a text beside its answers or an id of the adapter's own
is taken. -/
theorem historyKept_iff (serde : SerdeJson) (body : JsonValue) :
    HistoryKept serde body ↔ KeepsHistory serde body := by
  have hclash := parseMessages_duplicated_iff serde body
  have hfollows : ∀ messages, parseMessages serde body = .ok messages →
      Alternates (bodyContents body) → (AnswersFollow [] messages ↔
        ∀ item ∈ bodyContents body, hasAnswers item → hasText item = false) := by
    intro messages hmessages halternates
    obtain ⟨system, ids, added, rfl, hshort, hsystem, hread⟩ := parseMessages_ok hmessages
    obtain ⟨added', hadded, hiff⟩ := answersFollow_iff halternates reads_nil rfl hread
    obtain rfl := List.append_cancel_left hadded
    cases system with
    | nil => exact hiff []
    | cons message system =>
      obtain rfl := List.length_eq_zero_iff.mp
        (Nat.le_zero.mp (Nat.le_of_succ_le_succ hshort))
      rw [List.singleton_append, answersFollow_cons (hsystem message List.mem_cons_self).1,
        (hsystem message List.mem_cons_self).2]
      exact hiff []
  constructor
  · intro h
    refine ⟨?_, fun hdistinct hclashes ↦ h.accepted hdistinct (hclash.mpr hclashes)⟩
    rintro ⟨messages, hmessages⟩ halternates
    exact (hfollows messages hmessages halternates).mp (h.follows messages hmessages halternates)
  · intro h
    refine ⟨fun messages ↦ pairedHistory, fun messages hmessages halternates ↦ ?_,
      fun hdistinct hduplicated ↦ h.noClash hdistinct (hclash.mp hduplicated)⟩
    exact (hfollows messages hmessages halternates).mpr
      (h.noText ⟨messages, hmessages⟩ halternates)

/-- A writer of documents. -/
def plainSerde : SerdeJson where
  toString := compact
  contentPart := .unknown

/-- A history with one call, and a turn that answers it. -/
def answeredBody (turn : List JsonValue) : JsonValue :=
  object [("contents", array [
    object [("role", string "model"), ("parts", array [
      object [("functionCall", object [("id", string "a"), ("name", string "read")])]])],
    object [("role", string "user"), ("parts", array turn)]])]

/-- A turn that has a text, and an id that the adapter would take. -/
def textTurn : JsonValue :=
  answeredBody [object [("text", string "go on")],
    object [("functionResponse", object [("id", string "a"), ("name", string "read")])]]

def takenBody : JsonValue :=
  object [("contents", array [object [("role", string "model"), ("parts", array [
    object [("functionCall", object [("id", string "gemini-call-0"), ("name", string "read")])],
    object [("functionCall", object [("name", string "read")])]])]])]

theorem not_historyKept :
    ¬ HistoryKept plainSerde textTurn ∧ ¬ HistoryKept plainSerde takenBody := by
  constructor
  · intro h
    have halternates : Alternates (bodyContents textTurn) :=
      .turn rfl (by decide +kernel) (List.cons_ne_nil _ _) (by decide +kernel) (by decide +kernel)
        rfl .nil
    -- the tool message comes after the text, which makes no call
    obtain ⟨⟨id, hid, -⟩, -⟩ := h.follows _ rfl halternates
    exact List.not_mem_nil hid
  · intro h
    exact h.accepted (by decide +kernel) rfl

end Gemini

end TokenStation
