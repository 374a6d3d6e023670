import TokenStation.Inbound.Dialogues

/-!
# Runs of the adapter of Responses

A step lemma for each of the three events: the store stands for the conversations before it, and so
it does after it, provided that the reply of the step ends clean. An induction over the run is all
that is left. The other half is a run whose second reply has the id of the first and fails.
-/

namespace TokenStation

namespace Responses

open ContinuationStore JsonValue Library

/-! ## Conversations -/

theorem lasting_append (messages messages' : List CanonicalMessage) :
    lasting (messages ++ messages') = lasting messages ++ lasting messages' :=
  List.filter_append _ _

theorem lasting_idem (messages : List CanonicalMessage) :
    lasting (lasting messages) = lasting messages := by
  simp [lasting]

theorem messagesOf_append (turns turns' : List Turn) :
    messagesOf (turns ++ turns') = messagesOf turns ++ messagesOf turns' :=
  List.flatMap_append

theorem nativeOf_append_singleton (turns : List Turn) (turn : Turn) :
    nativeOf (turns ++ [turn]) =
      extendNative ((nativeOf turns).map (· ++ turn.items)) turn.nativeOutput := by
  by_cases hall : turns.all fun turn ↦ turn.nativeOutput.isSome
  · rcases houtput : turn.nativeOutput with - | output
    · simp [nativeOf, houtput, extendNative]
    · simp [nativeOf, hall, houtput, extendNative]
  · simp [nativeOf, hall, extendNative]

/-- The instructions of a turn stay first, and nothing else moves. -/
theorem lasting_insertHistory (history messages : List CanonicalMessage) :
    lasting (insertHistory history messages) = lasting history ++ lasting messages := by
  rcases messages with - | ⟨first, rest⟩
  · simp [insertHistory, lasting]
  · by_cases hfirst : isTransient first
    · simp [insertHistory, lasting, hfirst]
    · simp [insertHistory, lasting, hfirst]

/-- A turn that says where it belongs, and that later turns get as a whole. -/
def Turn.Sound (scope : String) (turn : Turn) : Prop :=
  turn.scope = scope ∧ lasting (turn.input ++ turn.output) = turn.input ++ turn.output

theorem lasting_messagesOf {scope : String} {turns : List Turn}
    (h : ∀ turn ∈ turns, turn.Sound scope) : lasting (messagesOf turns) = messagesOf turns := by
  induction turns with
  | nil => rfl
  | cons turn turns ih =>
    obtain ⟨⟨-, hturn⟩, hturns⟩ := List.forall_mem_cons.mp h
    change lasting (turn.input ++ turn.output ++ messagesOf turns) = _
    rw [lasting_append, hturn, ih hturns]
    rfl

theorem Asked.messagesOf_answered (asked : Asked) (output : List CanonicalMessage)
    (nativeOutput : Option (List JsonValue)) :
    messagesOf (asked.answered output nativeOutput) =
      messagesOf asked.prior ++ lasting asked.input ++ output := by
  rw [answered, messagesOf_append, List.append_assoc]
  simp [messagesOf]

theorem Asked.nativeOf_answered (asked : Asked) (output : List CanonicalMessage)
    (nativeOutput : Option (List JsonValue)) :
    nativeOf (asked.answered output nativeOutput) =
      extendNative ((nativeOf asked.prior).map (· ++ asked.items)) nativeOutput :=
  nativeOf_append_singleton _ _

theorem Asked.sound_answered {asked : Asked} {output : List CanonicalMessage}
    {nativeOutput : Option (List JsonValue)}
    (hprior : ∀ turn ∈ asked.prior, turn.Sound asked.scope)
    (houtput : ∀ message ∈ output, isTransient message = false) :
    ∀ turn ∈ asked.answered output nativeOutput, turn.Sound asked.scope := by
  intro turn hturn
  rcases List.mem_append.mp hturn with hturn | hturn
  · exact hprior turn hturn
  · obtain rfl := List.mem_singleton.mp hturn
    refine ⟨rfl, ?_⟩
    have hsame : lasting output = output := List.filter_eq_self.mpr (by simpa using houtput)
    rw [lasting_append, lasting_idem, hsame]

/-! ## The store stands for the conversations -/

/-- What the store keeps, it keeps of a conversation; and a reservation is that of a call. -/
structure Stands {S : Type} (dialogue : Dialogue S) : Prop where
  history : ∀ {id entry}, dialogue.adapter.store.history.lookup id = some entry →
    ∃ turns, dialogue.latest id = some turns ∧ entry.messages = messagesOf turns ∧
      entry.nativeItems = nativeOf turns
  pending : ∀ {key entry}, dialogue.adapter.store.pending.lookup key = some entry →
    ∃ asked ∈ dialogue.asked, asked.key = some key ∧ entry.scope = asked.scope ∧
      lasting entry.messages = messagesOf asked.prior ++ lasting asked.input ∧
      entry.nativeItems = (nativeOf asked.prior).map (· ++ asked.items)
  ownKey : ∀ asked ∈ dialogue.asked, ∀ other ∈ dialogue.asked, ∀ key,
    asked.key = some key → other.key = some key → asked = other
  prior : ∀ asked ∈ dialogue.asked, ∀ turn ∈ asked.prior, turn.Sound asked.scope
  latest : ∀ {id turns}, dialogue.latest id = some turns →
    turns ≠ [] ∧ ∀ turn ∈ turns, turn.Sound id.1

theorem stands_start {S : Type} : Stands ({} : Dialogue S) where
  history h := nomatch h
  pending h := nomatch h
  ownKey _ h := nomatch h
  prior _ h := nomatch h
  latest h := nomatch h

/-! ## Calls -/

/-- What a call continues, as the store has it. -/
def Continues (store : ContinuationStore) (scope : String) (body : JsonValue)
    (prior : List CanonicalMessage × Option (List JsonValue)) : Prop :=
  memberStr "previous_response_id" body = none ∧ prior = ([], some []) ∨
    ∃ responseId entry, memberStr "previous_response_id" body = some responseId ∧
      store.history.lookup (scope, responseId) = some entry ∧
      prior = (entry.messages, entry.nativeItems)

/-- What an accepted call has done: it has read the conversation `prior`, and has reserved its input
under `key`. -/
structure Accepts (codec : ResponsesCodec) (envelope : AgentRequestEnvelope)
    (store store' : ContinuationStore) (request : CanonicalRequest) (scope : String)
    (parsed : CanonicalRequest) (prior : List CanonicalMessage × Option (List JsonValue))
    (key : Option String) : Prop where
  ownScope : continuationScope envelope = .ok scope
  ownInput : codec.chatRequestFromResponses envelope.body = .ok parsed
  continues : Continues store scope envelope.body prior
  messages : request.messages = insertHistory prior.1 parsed.messages
  items : request.extensions.lookup nativeInputExtension =
    prior.2.map fun items ↦ .array (items ++ inputItems envelope.body)
  given : (request.extensions.lookup continuationKeyExtension).bind asStr = key
  hosts : ∀ name, key = some name →
    envelope.extensions.lookup continuationKeyExtension = some (.string name)
  history : ∀ {id entry}, store'.history.lookup id = some entry →
    store.history.lookup id = some entry
  pending : ∀ {name entry}, store'.pending.lookup name = some entry →
    store.pending.lookup name = some entry ∨ key = some name ∧ entry.scope = scope ∧
      entry.messages = request.messages ∧
      entry.nativeItems = prior.2.map (· ++ inputItems envelope.body)

section Calls

variable {codec : ResponsesCodec} {store : ContinuationStore} {now : ℕ}

theorem exits_continued {scope : String} {body : JsonValue} :
    Exits (· = store) (continued now scope body)
      (fun prior store' ↦ Continues store scope body prior ∧ Within store' store)
      (fun _ store' ↦ Within store' store) := by
  rcases hprevious : memberStr "previous_response_id" body with - | responseId
  · simp only [continued, hprevious]
    exact .pure fun store' hstore ↦ ⟨Or.inl ⟨hprevious, rfl⟩, hstore ▸ .refl store⟩
  · simp only [continued, hprevious]
    refine Exits.bind (R := fun entry store' ↦ Within store' store ∧
      store.history.lookup (scope, responseId) = some entry) ?_ fun entry ↦
        .pure fun store' h ↦ ⟨Or.inr ⟨responseId, entry, hprevious, h.2, rfl⟩, h.1⟩
    intro store' hstore
    obtain rfl : store' = store := hstore
    change Ends _ _ (store'.find now scope responseId).1 (store'.find now scope responseId).2
    rcases hfind : (store'.find now scope responseId).1 with error | entry
    · exact within_find scope responseId
    · exact ⟨within_find scope responseId, find_spec hfind⟩

/-- A reservation is made under the key of the host, or not at all. -/
theorem exits_reserve {envelope : AgentRequestEnvelope} {scope : String}
    {messages : List CanonicalMessage} {nativeItems : Option (List JsonValue)} :
    Exits (Within · store) (reserve codec now envelope scope messages nativeItems)
      (fun key store' ↦
        (∀ name, key = some name →
          envelope.extensions.lookup continuationKeyExtension = some (.string name)) ∧
        (∀ id entry, store'.history.lookup id = some entry →
          store.history.lookup id = some entry) ∧
        ∀ name entry, store'.pending.lookup name = some entry →
          store.pending.lookup name = some entry ∨ key = some name ∧ entry.scope = scope ∧
            entry.messages = messages ∧ entry.nativeItems = nativeItems)
      (fun _ store' ↦ Within store' store) := by
  refine Exits.bind (.ofExcept fun _ _ ↦ id) ?_
  rintro (_ | key)
  · exact .ofAnd fun _ ↦ .pure fun store' hwithin ↦
      ⟨nofun, fun _ _ ↦ hwithin.history, fun _ _ h ↦ Or.inl (hwithin.pending h)⟩
  refine .ofAnd fun hkey ↦ Exits.bind (R := fun retained store' ↦
    (∀ id entry, store'.history.lookup id = some entry → store.history.lookup id = some entry) ∧
    ∀ name entry, store'.pending.lookup name = some entry →
      store.pending.lookup name = some entry ∨ retained = true ∧ name = key ∧
        entry.scope = scope ∧ entry.messages = messages ∧ entry.nativeItems = nativeItems) ?_
    fun retained ↦ .pure fun store' h ↦ ⟨fun name hname ↦ ?_, h.1, fun name entry hname ↦ ?_⟩
  · intro store' hwithin
    obtain ⟨hhistory, hpending⟩ := begin_spec codec store' now key scope messages nativeItems
    change Ends _ _ (store'.begin codec now key scope messages nativeItems).1
      (store'.begin codec now key scope messages nativeItems).2
    rcases hbegin : (store'.begin codec now key scope messages nativeItems).1 with error | retained
    · -- a call whose key is in flight reserves nothing
      refine ⟨fun h ↦ hwithin.history (hhistory h), fun h ↦ ?_⟩
      rcases hpending h with h | ⟨hretained, -⟩
      · exact hwithin.pending h
      · exact nomatch hbegin.symm.trans hretained
    · refine ⟨fun _ _ h ↦ hwithin.history (hhistory h), fun _ _ h ↦ ?_⟩
      rcases hpending h with h | ⟨hretained, hentry⟩
      · exact Or.inl (hwithin.pending h)
      · exact Or.inr ⟨Except.ok.inj (hbegin.symm.trans hretained), hentry⟩
  · obtain ⟨-, hsame⟩ := Option.ite_none_right_eq_some.mp hname
    exact Option.some.inj hsame ▸ continuationRequestKey_eq_some hkey
  · rcases h.2 name entry hname with hold | ⟨rfl, rfl, hentry⟩
    · exact Or.inl hold
    · exact Or.inr ⟨rfl, hentry⟩

theorem isPrivate_nativeInput : isPrivate nativeInputExtension := by decide

/-- The key that the host finds in a request is the one that the adapter has put there. -/
theorem bind_lookup_privateExtensions {key : Option String}
    {nativeItems : Option (List JsonValue)} {extensions : Extensions}
    (h : extensions.lookup continuationKeyExtension = none) :
    ((privateExtensions key nativeItems extensions).lookup continuationKeyExtension).bind asStr =
      key := by
  have hplain : ((privateExtensions key none extensions).lookup continuationKeyExtension).bind
      asStr = key := by
    rcases key with - | key
    · exact congrArg (Option.bind · asStr) h
    · exact congrArg (Option.bind · asStr) (AList.lookup_insert extensions)
  rcases nativeItems with - | items
  · exact hplain
  · refine Eq.trans (congrArg (Option.bind · asStr) ?_) hplain
    exact AList.lookup_insert_ne continuationKey_ne_nativeInput

theorem lookup_privateExtensions_nativeInput {key : Option String}
    {nativeItems : Option (List JsonValue)} {extensions : Extensions}
    (h : extensions.lookup nativeInputExtension = none) :
    (privateExtensions key nativeItems extensions).lookup nativeInputExtension =
      nativeItems.map .array := by
  rcases nativeItems with - | items
  · rcases key with - | key
    · exact h
    · exact (AList.lookup_insert_ne continuationKey_ne_nativeInput.symm).trans h
  · exact AList.lookup_insert _

/-- An accepted call reserves what it asks with; a refused one forgets at most. -/
theorem exits_normalizeInbound (hcodec : CodecPublic codec) (store : ContinuationStore)
    (lookedUpAt begunAt : ℕ) (envelope : AgentRequestEnvelope) :
    Exits (· = store) (normalizeInbound codec lookedUpAt begunAt envelope)
      (fun request store' ↦ ∃ scope parsed prior key,
        Accepts codec envelope store store' request scope parsed prior key)
      (fun _ store' ↦ Within store' store) := by
  have hstay : ∀ (_ : ErrorEnvelope) store', store' = store → Within store' store := by
    rintro _ store' rfl
    exact .refl store'
  refine Exits.bind (.ofExcept hstay) fun parsed ↦ .ofAnd fun hparsed ↦ ?_
  refine Exits.bind (.ofExcept hstay) fun scope ↦ .ofAnd fun hscope ↦ ?_
  refine Exits.bind exits_continued ?_
  rintro ⟨history, nativeItems⟩
  refine .ofAnd fun hprior ↦ Exits.bind exits_reserve fun key ↦ .pure fun store' hreserved ↦ ?_
  have hpublic : ∀ {name}, isPrivate name →
      (parsed.extensions ∪ requestExtensions envelope.body).lookup name = none := by
    intro name hname
    rw [AList.lookup_union_right fun hmem ↦ hcodec _ _ hparsed name hmem hname]
    exact lookup_requestExtensions hname
  refine ⟨scope, parsed, (history, nativeItems), key, ?_⟩
  exact {
    ownScope := hscope
    ownInput := hparsed
    continues := hprior
    messages := rfl
    items := by
      rw [lookup_privateExtensions_nativeInput (hpublic isPrivate_nativeInput), Option.map_map]
      rfl
    given := bind_lookup_privateExtensions (hpublic isPrivate_continuationKey)
    hosts := hreserved.1
    history := hreserved.2.1 _ _
    pending := hreserved.2.2 _ _ }

end Calls

/-! ## Replies -/

/-- What the end of a reply does to the store. -/
def Records (codec : ResponsesCodec) (now : ℕ) (key : Option String)
    (store store' : ContinuationStore) : Option ReplyEnd → Prop
  | none | some (.failed _) => Within store' store
  | some (.said responseId output nativeOutput) =>
    match key with
    | some key => store' = store.complete codec now key responseId output nativeOutput
    | none => store' = store

section Ends

variable {S : Type} {codec : ResponsesCodec} {writer : ReplyCodec S} {now : ℕ}

/-- A reply that only gives its reservation up. -/
theorem Records.of_within {key : Option String} {store store' : ContinuationStore}
    (h : Within store' store) (responseId : Option String) :
    Records codec now key store store' (responseId.map .failed) := by
  rcases responseId with - | responseId
  · exact h
  · exact h

theorem records_completeNative (codec : ResponsesCodec) (now : ℕ) (key : String)
    (native : JsonValue) (store : ContinuationStore) :
    Records codec now (some key) store (store.completeNative codec now key native)
      (nativeEnd codec native) := by
  rw [completeNative, nativeEnd]
  rcases nativeReply native with - | ⟨responseId, output⟩
  · exact .of_within (within_abandon store key) _
  · dsimp only
    rcases inputMessages codec (array output) with error | messages
    · exact within_abandon store key
    · rfl

/-- Without a key there is nothing to end. -/
theorem records_refl (codec : ResponsesCodec) (now : ℕ) (store : ContinuationStore)
    (ended : Option ReplyEnd) : Records codec now none store store ended := by
  rcases ended with - | ⟨responseId⟩ | _
  · exact .refl store
  · exact .refl store
  · rfl

theorem records_renderResponse (codec : ResponsesCodec) (writer : ReplyCodec S) (now : ℕ)
    (response : CanonicalResponse) (context : JsonValue) (adapter : ResponsesAdapter S) :
    Records codec now (contextKey context) adapter.store
      (renderResponse codec writer now response context adapter).2.store
      (responseEnd codec writer response context) := by
  rw [renderResponse, responseEnd]
  rcases context.member nativeResponseExtension with - | native
  · dsimp only
    rcases writer.responsesResponse response _ with error | rendered
    · exact .refl _
    · rcases contextKey context with - | key
      · rfl
      · rfl
  · dsimp only
    rcases contextKey context with - | key
    · exact records_refl codec now _ _
    · exact records_completeNative codec now key native _

theorem within_abandonStream (key : Option String) (store : ContinuationStore) :
    Within (abandonStream key store) store := by
  rcases key with - | key
  · exact .refl store
  · exact within_abandon store key

theorem records_renderOpenStream (event : StreamEvent) (context : JsonValue) (streamId : String)
    (facts : ResponsesContext) (adapter : ResponsesAdapter S) :
    Records codec now (contextKey context) adapter.store
      (renderOpenStream codec writer now event context streamId facts adapter).2.store
      (openStreamEnd writer event context streamId facts adapter) := by
  rw [renderOpenStream, openStreamEnd]
  generalize (adapter.streams.lookup streamId).getD _ = state
  split_ifs with hchanged
  · exact within_abandonStream _ _
  · have hkey : state.continuationKey = contextKey context := not_not.mp (not_or.mp hchanged).2
    rcases writer.eventJson event state.codec with ⟨error | rendered, after⟩
    · exact within_abandonStream _ _
    · dsimp only
      split_ifs
      · dsimp only
        rw [endStream, hkey]
        rcases contextKey context with - | key
        · exact records_refl codec now _ _
        · dsimp only
          rcases writer.terminalResponse after with - | response
          · exact within_abandon _ key
          · rfl
      · exact .refl _

theorem records_renderStreamEvent (codec : ResponsesCodec) (writer : ReplyCodec S) (now : ℕ)
    (event : StreamEvent) (context : JsonValue) (adapter : ResponsesAdapter S) :
    Records codec now (contextKey context) adapter.store
      (renderStreamEvent codec writer now event context adapter).2.store
      (streamEnd writer event context adapter) := by
  rw [renderStreamEvent, streamEnd]
  rcases streamFacts context with error | ⟨streamId, facts⟩
  · exact .refl _
  · dsimp only
    rcases finishedAs streamId facts adapter with - | previous
    · exact records_renderOpenStream event context streamId facts adapter
    · dsimp only
      split_ifs
      · exact .refl _
      · exact .refl _

end Ends

/-! ## Steps -/

section Steps

variable {S : Type} {codec : ResponsesCodec} {writer : ReplyCodec S} {dialogue : Dialogue S}

/-- What a call continues, the store has from its conversation. -/
theorem Stands.continues (h : Stands dialogue) {scope : String} {body : JsonValue}
    {prior : List CanonicalMessage × Option (List JsonValue)}
    (hprior : Continues dialogue.adapter.store scope body prior) :
    prior = (messagesOf (priorTurns dialogue.latest scope body),
      nativeOf (priorTurns dialogue.latest scope body)) ∧
    (∀ turn ∈ priorTurns dialogue.latest scope body, turn.Sound scope) ∧
    ∀ responseId, memberStr "previous_response_id" body = some responseId →
      dialogue.latest (scope, responseId) = some (priorTurns dialogue.latest scope body) := by
  rcases hprior with ⟨hnone, rfl⟩ | ⟨responseId, entry, hsome, hlookup, rfl⟩
  · rw [priorTurns, hnone]
    exact ⟨rfl, nofun, nofun⟩
  · obtain ⟨turns, hlatest, hmessages, hitems⟩ := h.history hlookup
    have hturns : priorTurns dialogue.latest scope body = turns := by
      rw [priorTurns, hsome]
      dsimp only
      rw [hlatest, Option.getD_some]
    rw [hturns]
    refine ⟨by rw [hmessages, hitems], (h.latest hlatest).2, fun other hother ↦ ?_⟩
    obtain rfl := Option.some.inj (hsome.symm.trans hother)
    exact hlatest

/-- Forgetting breaks nothing. -/
theorem Stands.within (h : Stands dialogue) {adapter : ResponsesAdapter S}
    (hwithin : Within adapter.store dialogue.adapter.store) :
    Stands { dialogue with adapter } where
  history hlookup := h.history (hwithin.history hlookup)
  pending hlookup := h.pending (hwithin.pending hlookup)
  ownKey := h.ownKey
  prior := h.prior
  latest := h.latest

/-- An accepted call stands for what it asks with and what that continues. -/
theorem Stands.ask (h : Stands dialogue) {envelope : AgentRequestEnvelope}
    {adapter : ResponsesAdapter S} {request parsed : CanonicalRequest} {scope : String}
    {prior : List CanonicalMessage × Option (List JsonValue)} {key : Option String}
    (haccepts : Accepts codec envelope dialogue.adapter.store adapter.store request scope parsed
      prior key)
    (hfresh : ∀ asked ∈ dialogue.asked, ∀ key, asked.key = some key →
      envelope.extensions.lookup continuationKeyExtension ≠ some (.string key)) :
    Stands { dialogue with
      adapter
      asked := dialogue.asked ++ [askedOf dialogue.latest envelope scope parsed request] } := by
  obtain ⟨hprior, hsound, -⟩ := h.continues haccepts.continues
  have hkey : (askedOf dialogue.latest envelope scope parsed request).key = key := haccepts.given
  refine { history := ?_, pending := ?_, ownKey := ?_, prior := ?_, latest := h.latest }
  · intro id entry hlookup
    exact h.history (haccepts.history hlookup)
  · intro name entry hlookup
    rcases haccepts.pending hlookup with hold | ⟨hname, hscope, hmessages, hitems⟩
    · obtain ⟨asked, hmem, hasked⟩ := h.pending hold
      exact ⟨asked, List.mem_append_left _ hmem, hasked⟩
    · refine ⟨_, List.mem_append_right _ (List.mem_singleton_self _), hkey.trans hname, hscope,
        ?_, ?_⟩
      · rw [hmessages, haccepts.messages, lasting_insertHistory, hprior,
          lasting_messagesOf hsound]
        rfl
      · rw [hitems, hprior]
        rfl
  · -- an older call has another key than the one that the host gives now
    have hother : ∀ asked ∈ dialogue.asked, ∀ name, asked.key = some name → key ≠ some name :=
      fun asked hmem name hname hgiven ↦ hfresh asked hmem name hname (haccepts.hosts name hgiven)
    intro asked hasked other hmem name hname hsame
    rcases List.mem_append.mp hasked with hasked | hasked <;>
      rcases List.mem_append.mp hmem with hmem | hmem
    · exact h.ownKey asked hasked other hmem name hname hsame
    · obtain rfl := List.mem_singleton.mp hmem
      exact absurd (hkey.symm.trans hsame) (hother asked hasked name hname)
    · obtain rfl := List.mem_singleton.mp hasked
      exact absurd (hkey.symm.trans hname) (hother other hmem name hsame)
    · rw [List.mem_singleton.mp hasked, List.mem_singleton.mp hmem]
  · intro asked hasked
    rcases List.mem_append.mp hasked with hasked | hasked
    · exact h.prior asked hasked
    · obtain rfl := List.mem_singleton.mp hasked
      exact hsound

/-- A reservation stands for the conversation that its reply will end. -/
theorem Stands.reserved (h : Stands dialogue) {asked : Asked} (hmem : asked ∈ dialogue.asked)
    {key : String} (hkey : asked.key = some key) {pending : PendingContinuation}
    (hpending : dialogue.adapter.store.pending.lookup key = some pending)
    (output : List CanonicalMessage) (nativeOutput : Option (List JsonValue)) :
    pending.scope = asked.scope ∧
      lasting pending.messages ++ output = messagesOf (asked.answered output nativeOutput) ∧
      extendNative pending.nativeItems nativeOutput =
        nativeOf (asked.answered output nativeOutput) := by
  obtain ⟨other, hother, hkey', hscope, hmessages, hitems⟩ := h.pending hpending
  obtain rfl := h.ownKey asked hmem other hother key hkey hkey'
  rw [Asked.messagesOf_answered, Asked.nativeOf_answered, hmessages, hitems]
  exact ⟨hscope, rfl, rfl⟩

/-- A reply changes what one id stands for. -/
theorem Stands.update (h : Stands dialogue) {adapter : ResponsesAdapter S}
    {id : String × String} {said : Option (List Turn)}
    (hother : ∀ {other entry}, adapter.store.history.lookup other = some entry → other ≠ id →
      dialogue.adapter.store.history.lookup other = some entry)
    (hown : ∀ {entry}, adapter.store.history.lookup id = some entry → ∃ turns,
      said = some turns ∧ entry.messages = messagesOf turns ∧ entry.nativeItems = nativeOf turns)
    (hpending : ∀ {key entry}, adapter.store.pending.lookup key = some entry →
      dialogue.adapter.store.pending.lookup key = some entry)
    (hsaid : ∀ {turns}, said = some turns → turns ≠ [] ∧ ∀ turn ∈ turns, turn.Sound id.1) :
    Stands { dialogue with adapter, latest := Function.update dialogue.latest id said } := by
  refine { history := ?_, pending := fun hlookup ↦ h.pending (hpending hlookup),
           ownKey := h.ownKey, prior := h.prior, latest := ?_ }
  · intro other entry hlookup
    by_cases hid : other = id
    · subst hid
      obtain ⟨turns, hturns, hentry⟩ := hown hlookup
      exact ⟨turns, (Function.update_self _ _ _).trans hturns, hentry⟩
    · obtain ⟨turns, hlatest, hentry⟩ := h.history (hother hlookup hid)
      exact ⟨turns, (Function.update_of_ne hid _ _).trans hlatest, hentry⟩
  · intro other turns hlatest
    change Function.update dialogue.latest id said other = some turns at hlatest
    by_cases hid : other = id
    · subst hid
      rw [Function.update_self] at hlatest
      exact hsaid hlatest
    · rw [Function.update_of_ne hid] at hlatest
      exact h.latest hlatest

/-- A reply that ends clean is what its id stands for from then on, or the id stands for nothing. -/
theorem Stands.reply (h : Stands dialogue) {asked : Asked} (hmem : asked ∈ dialogue.asked)
    {adapter : ResponsesAdapter S} {now : ℕ} {ended : Option ReplyEnd}
    (hrecords : Records codec now asked.key dialogue.adapter.store adapter.store ended)
    (hclean : EndsClean codec dialogue.adapter.store asked ended) :
    Stands { dialogue with
      adapter
      latest := recordEnd codec dialogue.adapter.store asked dialogue.latest ended } := by
  rcases ended with - | responseId | ⟨responseId, output, nativeOutput⟩
  · exact h.within hrecords
  · have hwithin : Within adapter.store dialogue.adapter.store := hrecords
    have hgone : dialogue.adapter.store.history.lookup (asked.scope, responseId) = none := hclean
    exact h.update (fun hlookup _ ↦ hwithin.history hlookup)
      (fun hlookup ↦ nomatch hgone.symm.trans (hwithin.history hlookup)) hwithin.pending nofun
  obtain ⟨hkept, houtput⟩ := hclean
  have hsaid : ∀ {turns}, (if Keeps codec dialogue.adapter.store asked output nativeOutput then
        some (asked.answered output nativeOutput) else none) = some turns →
      turns ≠ [] ∧ ∀ turn ∈ turns, turn.Sound asked.scope := by
    intro turns hturns
    obtain ⟨-, hsame⟩ := Option.ite_none_right_eq_some.mp hturns
    obtain rfl := Option.some.inj hsame
    exact ⟨List.append_ne_nil_of_right_ne_nil _ (List.cons_ne_nil _ _),
      Asked.sound_answered (h.prior asked hmem) houtput⟩
  rcases hkey : asked.key with - | key
  · -- the call was not retained, so the reply is not kept
    rw [hkey] at hrecords
    have hstore : adapter.store = dialogue.adapter.store := hrecords
    have hgone := hkept.resolve_right fun hkeeps ↦ by
      have hreserved := hkeeps.1
      rw [Asked.isReserved, hkey] at hreserved
      nomatch hreserved
    rw [← hstore] at hgone
    exact h.update (fun hlookup _ ↦ hstore ▸ hlookup)
      (fun hlookup ↦ nomatch hgone.symm.trans hlookup) (hstore ▸ id) hsaid
  · rw [hkey] at hrecords
    have hstore : adapter.store =
      dialogue.adapter.store.complete codec now key responseId output nativeOutput := hrecords
    obtain ⟨hhistory, hpending⟩ := complete_spec codec dialogue.adapter.store now key responseId
      output nativeOutput
    rw [← hstore] at hhistory hpending
    have hreserved : ∀ {pending}, dialogue.adapter.store.pending.lookup key = some pending →
        asked.isReserved dialogue.adapter.store = true := by
      intro pending hlookup
      rw [Asked.isReserved, hkey, Option.any_some, hlookup]
      rfl
    refine h.update (fun hlookup hid ↦ ?_) (fun hlookup ↦ ?_) hpending hsaid
    · rcases hhistory hlookup with ⟨pending, hlookup', rfl, -⟩ | ⟨hold, -⟩
      · exact absurd (by rw [(h.reserved hmem hkey hlookup' output nativeOutput).1]) hid
      · exact hold
    · rcases hhistory hlookup with
        ⟨pending, hlookup', -, hmessages, hitems, hsmall⟩ | ⟨hold, hlarge⟩
      · obtain ⟨-, hwhole, hnative⟩ := h.reserved hmem hkey hlookup' output nativeOutput
        rw [hwhole] at hmessages
        rw [hnative] at hitems
        rw [hmessages, hitems] at hsmall
        exact ⟨_, if_pos ⟨hreserved hlookup', hsmall⟩, hmessages, hitems⟩
      · -- an older turn under this id is there only if the reply was kept, which replaces it
        have hkeeps := hkept.resolve_left fun hgone ↦ nomatch hgone.symm.trans hold
        have hsome := hkeeps.1
        rw [Asked.isReserved, hkey, Option.any_some] at hsome
        obtain ⟨pending, hlookup'⟩ := Option.isSome_iff_exists.mp hsome
        obtain ⟨hscope, hwhole, hnative⟩ := h.reserved hmem hkey hlookup' output nativeOutput
        have hexceeds := hlarge hlookup' (by rw [hscope])
        rw [hwhole, hnative] at hexceeds
        exact absurd hkeeps.2 (not_le.mpr hexceeds)

end Steps

/-! ## Runs -/

section Runs

variable {S : Type} {codec : ResponsesCodec} {writer : ReplyCodec S}

/-- One event after which the store still stands for the conversations. -/
theorem Stands.step {dialogue : Dialogue S} (h : Stands dialogue) (hcodec : CodecPublic codec)
    {event : DialogueEvent} (hpermitted : Permitted dialogue event)
    (hclean : Clean codec writer dialogue event) :
    Stands (dialogue.step codec writer event) := by
  rcases event with ⟨lookedUpAt, begunAt, envelope⟩ | ⟨turn, now, response, context⟩ |
    ⟨turn, now, event, context⟩
  · have hends := exits_normalizeInbound hcodec dialogue.adapter.store lookedUpAt begunAt envelope
      _ rfl
    change Ends _ _ (normalizeInbound codec lookedUpAt begunAt envelope dialogue.adapter.store).1
      (normalizeInbound codec lookedUpAt begunAt envelope dialogue.adapter.store).2 at hends
    rw [Dialogue.step]
    rcases hrun : normalizeInbound codec lookedUpAt begunAt envelope dialogue.adapter.store with
      ⟨error | request, store⟩
    · rw [hrun] at hends
      exact h.within hends
    · rw [hrun] at hends
      obtain ⟨scope, parsed, prior, key, haccepts⟩ := hends
      dsimp only
      rw [haccepts.ownScope, haccepts.ownInput]
      exact h.ask haccepts hpermitted
  · rw [Dialogue.step]
    rcases hasked : dialogue.asked[turn]? with - | asked
    · exact h
    · have hrecords := records_renderResponse codec writer now response context
        dialogue.adapter
      rw [hpermitted asked hasked] at hrecords
      exact h.reply (List.mem_of_getElem? hasked) hrecords (hclean asked hasked)
  · rw [Dialogue.step]
    rcases hasked : dialogue.asked[turn]? with - | asked
    · exact h
    · have hrecords := records_renderStreamEvent codec writer now event context
        dialogue.adapter
      rw [hpermitted asked hasked] at hrecords
      exact h.reply (List.mem_of_getElem? hasked) hrecords (hclean asked hasked)

theorem Stands.run (hcodec : CodecPublic codec) {events : List DialogueEvent}
    {dialogue : Dialogue S} (h : Stands dialogue)
    (hevents : Dialogue.Always codec writer
      (fun dialogue event ↦ Permitted dialogue event ∧ Clean codec writer dialogue event)
      events dialogue) : Stands (dialogue.run codec writer events) := by
  induction events generalizing dialogue with
  | nil => exact h
  | cons event events ih =>
    obtain ⟨⟨hpermitted, hclean⟩, hrest⟩ := hevents
    exact ih (h.step hcodec hpermitted hclean) hrest

/-- A store that stands for the conversations replays them whole, or refuses. -/
theorem Stands.replays {dialogue : Dialogue S} (h : Stands dialogue) (hcodec : CodecPublic codec) :
    Replays codec dialogue where
  whole {lookedUpAt begunAt envelope request responseId} haccepted hcontinues := by
    have hends := exits_normalizeInbound hcodec dialogue.adapter.store lookedUpAt begunAt envelope
      _ rfl
    change Ends _ _ (normalizeInbound codec lookedUpAt begunAt envelope dialogue.adapter.store).1
      (normalizeInbound codec lookedUpAt begunAt envelope dialogue.adapter.store).2 at hends
    rw [haccepted] at hends
    obtain ⟨scope, parsed, prior, key, haccepts⟩ := hends
    obtain ⟨hprior, -, hlatest⟩ := h.continues haccepts.continues
    refine ⟨scope, parsed, priorTurns dialogue.latest scope envelope.body, haccepts.ownScope,
      haccepts.ownInput, hlatest responseId hcontinues, ?_, ?_⟩
    · rw [haccepts.messages, hprior]
    · rw [haccepts.items, hprior]
  ownScope hlatest := ⟨(h.latest hlatest).1, fun turn hturn ↦ ((h.latest hlatest).2 turn hturn).1⟩

end Runs

/-! ## An id that is used again -/

/-- A codec that reads texts, and nothing else. -/
def textCodec : ResponsesCodec where
  chatRequestFromResponses body :=
    .ok { model := (memberStr "model" body).getD ""
          messages := (inputItems body).map fun item ↦
            .text (if memberStr "role" item = some "assistant" then .assistant else .user)
              ((memberStr "content" item).getD "")
          tools := [], toolChoice := none, sampling := {}, stream := false, extensions := ∅ }
  messagesBytes messages := messages.length
  itemsBytes items := items.length

theorem codecPublic_textCodec : CodecPublic textCodec := by
  intro body request h key hmem
  cases h
  exact absurd hmem (AList.notMem_empty key)

/-- A writer whose streams never end. -/
def silentWriter : ReplyCodec Unit where
  responsesResponse _ _ := .ok .null
  newStream _ := ()
  eventJson _ _ := (.ok .null, ())
  isTerminated _ := false
  terminalResponse _ := none
  sameContext _ _ := true

def textCall (key text : String) (previous : List (String × JsonValue)) :
    AgentRequestEnvelope where
  protocol := "openai-responses"
  agentTool := some "codex"
  subject := "local"
  body := .object ([("input", .string text), ("model", .string "m")] ++ previous)
  extensions := (∅ : Extensions).insert continuationKeyExtension (.string key)

/-- The context of a native reply. -/
def nativeContext (key id status : String) : JsonValue :=
  .object [(continuationKeyExtension, .string key),
    (nativeResponseExtension, .object [("id", .string id), ("status", .string status),
      ("output", .array [.object [("type", .string "message"), ("role", .string "assistant"),
        ("content", .string "first")]])])]

def nativeTurn (turn : ℕ) (key id status : String) : DialogueEvent :=
  .respond turn 0 { id, model := "m", choices := [], usage := {} } (nativeContext key id status)

/-- A reply that is kept, and a second one with another status. -/
def twoReplies (status : String) : List DialogueEvent :=
  [.ask 0 0 (textCall "one" "hello" []), nativeTurn 0 "one" "r" "completed",
    .ask 0 0 (textCall "two" "again" []), nativeTurn 1 "two" "r" status]

/-- A call that continues the first reply. -/
def followUp : AgentRequestEnvelope :=
  textCall "three" "then" [("previous_response_id", .string "r")]

theorem permitted_twoReplies (status : String) :
    Dialogue.Always textCodec silentWriter Permitted (twoReplies status) {} := by
  refine ⟨nofun, fun asked hasked ↦ ?_, fun asked hasked key hkey ↦ ?_, fun asked hasked ↦ ?_,
    trivial⟩
  · obtain rfl := Option.some.inj hasked
    rfl
  · obtain rfl := List.mem_singleton.mp hasked
    obtain rfl : "one" = key := Option.some.inj hkey
    intro hsame
    have htext : some "two" = some "one" := congrArg (Option.bind · asStr) hsame
    exact absurd htext (by decide)
  · obtain rfl := Option.some.inj hasked
    rfl

/-- Whatever the adapter has handled, it replays a conversation whole or refuses, if every reply has
ended clean. -/
theorem replays_run {S : Type} {codec : ResponsesCodec} {writer : ReplyCodec S}
    (hcodec : CodecPublic codec) {events : List DialogueEvent}
    (hevents : Dialogue.Always codec writer
      (fun dialogue event ↦ Permitted dialogue event ∧ Clean codec writer dialogue event)
      events {}) : Replays codec (({} : Dialogue S).run codec writer events) :=
  (stands_start.run hcodec hevents).replays hcodec

/-- Two complete replies with one id: the second conversation is the one that is continued. -/
theorem replays_twoReplies : Replays textCodec
    (({} : Dialogue Unit).run textCodec silentWriter (twoReplies "completed")) := by
  have hpermitted := permitted_twoReplies "completed"
  refine replays_run codecPublic_textCodec ⟨⟨hpermitted.1, trivial⟩,
    ⟨hpermitted.2.1, fun asked hasked ↦ ?_⟩, ⟨hpermitted.2.2.1, trivial⟩,
    ⟨hpermitted.2.2.2.1, fun asked hasked ↦ ?_⟩, trivial⟩
  · obtain rfl := Option.some.inj hasked
    exact ⟨Or.inl (by rfl), fun message hmessage ↦ List.mem_singleton.mp hmessage ▸ rfl⟩
  · obtain rfl := Option.some.inj hasked
    exact ⟨Or.inr (by decide +kernel),
      fun message hmessage ↦ List.mem_singleton.mp hmessage ▸ rfl⟩

/-- A failed reply with the id of an earlier one: the call gets the older conversation, which has
not ended in this reply. -/
theorem not_replays_twoReplies : CodecPublic textCodec ∧
    Dialogue.Always textCodec silentWriter Permitted (twoReplies "failed") ({} : Dialogue Unit) ∧
    ¬ Replays textCodec
      (({} : Dialogue Unit).run textCodec silentWriter (twoReplies "failed")) := by
  refine ⟨codecPublic_textCodec, permitted_twoReplies "failed", fun h ↦ ?_⟩
  have haccepted : ∃ request, (normalizeInbound textCodec 0 0 followUp
      (({} : Dialogue Unit).run textCodec silentWriter
        (twoReplies "failed")).adapter.store).1 = .ok request := ⟨_, rfl⟩
  obtain ⟨request, hrequest⟩ := haccepted
  obtain ⟨scope, parsed, turns, hscope, -, hlatest, -⟩ := h.whole hrequest (by rfl)
  obtain rfl : "codex:local" = scope := Except.ok.inj hscope
  exact nomatch hlatest

end Responses

end TokenStation
