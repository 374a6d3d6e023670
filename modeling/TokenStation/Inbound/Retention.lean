import TokenStation.Inbound.Continuation

/-!
# What the store keeps

Pruning, giving up and making room only forget (`Within`). The rest is one lemma for each operation:
what an id stands for afterwards it stood for before, except the one that the operation retains.
-/

namespace TokenStation

namespace ContinuationStore

/-- A store keeps nothing that another one does not. -/
structure Within (store store' : ContinuationStore) : Prop where
  history : ∀ {key entry}, store.history.lookup key = some entry →
    store'.history.lookup key = some entry
  pending : ∀ {key entry}, store.pending.lookup key = some entry →
    store'.pending.lookup key = some entry

variable {codec : ResponsesCodec} {store store' : ContinuationStore} {now : ℕ}

theorem Within.refl (store : ContinuationStore) : Within store store := ⟨id, id⟩

theorem Within.trans {store'' : ContinuationStore} (h : Within store store')
    (h' : Within store' store'') : Within store store'' :=
  ⟨fun hkey ↦ h'.history (h.history hkey), fun hkey ↦ h'.pending (h.pending hkey)⟩

theorem Within.foldl {κ : Type} {op : ContinuationStore → κ → ContinuationStore}
    (hop : ∀ store key, Within (op store key) store) (keys : List κ) (store : ContinuationStore) :
    Within (keys.foldl op store) store := by
  induction keys generalizing store with
  | nil => exact .refl store
  | cons key keys ih => exact (ih (op store key)).trans (hop store key)

/-- What is left after an erasure was there before it, under another key. -/
theorem lookup_erase_eq_some {κ : Type} [DecidableEq κ] {β : κ → Type} {entries : AList β}
    {erased key : κ} {entry : β key} (h : (entries.erase erased).lookup key = some entry) :
    key ≠ erased ∧ entries.lookup key = some entry := by
  by_cases hkey : key = erased
  · subst hkey
    rw [AList.lookup_erase] at h
    nomatch h
  · rw [AList.lookup_erase_ne hkey] at h
    exact ⟨hkey, h⟩

theorem within_removeHistory (store : ContinuationStore) (key : String × String) :
    Within (store.removeHistory key) store := by
  rw [removeHistory]
  split
  · exact .refl store
  · exact ⟨fun h ↦ (lookup_erase_eq_some h).2, id⟩

theorem within_abandon (store : ContinuationStore) (key : String) :
    Within (store.abandon key) store := by
  rw [abandon]
  split
  · exact .refl store
  · exact ⟨id, fun h ↦ (lookup_erase_eq_some h).2⟩

theorem within_prune (store : ContinuationStore) (now : ℕ) : Within (store.prune now) store :=
  (Within.foldl within_abandon _ _).trans (Within.foldl within_removeHistory _ store)

theorem within_makeRoom (bytes fuel : ℕ) (store : ContinuationStore) :
    Within (makeRoom bytes fuel store) store := by
  induction fuel generalizing store with
  | zero => exact .refl store
  | succ fuel ih =>
    rw [makeRoom]
    split_ifs
    · split
      · exact .refl store
      · exact (ih _).trans (within_removeHistory store _)
    · exact .refl store

/-- A history that was removed is gone. -/
theorem lookup_removeHistory (store : ContinuationStore) (key : String × String) :
    (store.removeHistory key).history.lookup key = none := by
  rw [removeHistory]
  split
  next hnone => exact hnone
  next => exact AList.lookup_erase key store.history

/-- A look-up finds what the store has, and forgets what is too old. -/
theorem find_spec {scope responseId : String} {entry : ContinuationHistory}
    (h : (store.find now scope responseId).1 = .ok entry) :
    store.history.lookup (scope, responseId) = some entry :=
  (within_prune store now).history (orInvalid_eq_ok.mp h)

theorem within_find (scope responseId : String) :
    Within (store.find now scope responseId).2 store :=
  within_prune store now

/-- Beginning a call adds at most its own reservation. -/
theorem begin_spec (codec : ResponsesCodec) (store : ContinuationStore) (now : ℕ)
    (key scope : String) (messages : List CanonicalMessage)
    (nativeItems : Option (List JsonValue)) :
    (∀ {id entry}, (store.begin codec now key scope messages nativeItems).2.history.lookup id =
      some entry → store.history.lookup id = some entry) ∧
    ∀ {given entry}, (store.begin codec now key scope messages nativeItems).2.pending.lookup given =
      some entry → store.pending.lookup given = some entry ∨
        (store.begin codec now key scope messages nativeItems).1 = .ok true ∧ given = key ∧
          entry.scope = scope ∧ entry.messages = messages ∧ entry.nativeItems = nativeItems := by
  have hprune := within_prune store now
  rw [begin]
  split_ifs
  · exact ⟨hprune.history, fun h ↦ Or.inl (hprune.pending h)⟩
  · exact ⟨hprune.history, fun h ↦ Or.inl (hprune.pending h)⟩
  · exact ⟨hprune.history, fun h ↦ Or.inl (hprune.pending h)⟩
  · refine ⟨hprune.history, fun {given entry} h ↦ ?_⟩
    by_cases hgiven : given = key
    · subst hgiven
      rw [AList.lookup_insert] at h
      obtain rfl := Option.some.inj h
      exact Or.inr ⟨rfl, rfl, rfl, rfl, rfl⟩
    · rw [AList.lookup_insert_ne hgiven] at h
      exact Or.inl (hprune.pending h)

/-- Retaining a turn changes what its own id stands for, unless it is too large. -/
theorem retain_spec {scope responseId : String} {messages : List CanonicalMessage}
    {nativeItems : Option (List JsonValue)} :
    (∀ {id entry}, (store.retain codec now scope responseId messages nativeItems).history.lookup
      id = some entry →
        id = (scope, responseId) ∧ entry.messages = messages ∧ entry.nativeItems = nativeItems ∧
            continuationBytes codec messages nativeItems ≤ maxContinuationEntryBytes ∨
          store.history.lookup id = some entry ∧ (id = (scope, responseId) →
            maxContinuationEntryBytes < continuationBytes codec messages nativeItems)) ∧
    ∀ {key entry}, (store.retain codec now scope responseId messages nativeItems).pending.lookup
      key = some entry → store.pending.lookup key = some entry := by
  have hremoved := (within_removeHistory (store.prune now) (scope, responseId)).trans
    (within_prune store now)
  -- past the limit of one entry, the older turn with this id is gone whatever comes next
  have hother : ∀ {smaller : ContinuationStore},
      Within smaller ((store.prune now).removeHistory (scope, responseId)) → ∀ {id entry},
        smaller.history.lookup id = some entry →
          store.history.lookup id = some entry ∧ id ≠ (scope, responseId) := by
    intro smaller hsmaller id entry h
    refine ⟨(hsmaller.trans hremoved).history h, ?_⟩
    rintro rfl
    exact nomatch (lookup_removeHistory (store.prune now) (scope, responseId)).symm.trans
      (hsmaller.history h)
  rw [retain]
  dsimp only
  split_ifs with hlarge hfull hstill
  · exact ⟨fun h ↦ Or.inr ⟨h, fun _ ↦ hlarge⟩, id⟩
  · refine ⟨fun h ↦ ?_, hremoved.pending⟩
    obtain ⟨hlookup, hne⟩ := hother (.refl _) h
    exact Or.inr ⟨hlookup, fun heq ↦ absurd heq hne⟩
  · refine ⟨fun h ↦ ?_, ((within_makeRoom _ _ _).trans hremoved).pending⟩
    obtain ⟨hlookup, hne⟩ := hother (within_makeRoom _ _ _) h
    exact Or.inr ⟨hlookup, fun heq ↦ absurd heq hne⟩
  · refine ⟨fun {id entry} h ↦ ?_, ((within_makeRoom _ _ _).trans hremoved).pending⟩
    by_cases hid : id = (scope, responseId)
    · subst hid
      rw [AList.lookup_insert] at h
      obtain rfl := Option.some.inj h
      exact Or.inl ⟨rfl, rfl, rfl, not_lt.mp hlarge⟩
    · rw [AList.lookup_insert_ne hid] at h
      obtain ⟨hlookup, -⟩ := hother (within_makeRoom _ _ _) h
      exact Or.inr ⟨hlookup, fun heq ↦ absurd heq hid⟩

/-- The messages that outlast their turn. -/
def lasting (messages : List CanonicalMessage) : List CanonicalMessage :=
  messages.filter fun message ↦ !isTransient message

/-- The native items of a chain, with one reply more. -/
def extendNative : Option (List JsonValue) → Option (List JsonValue) → Option (List JsonValue)
  | some items, some output => some (items ++ output)
  | _, _ => none

/-- Completing a call turns its reservation into what the id of the reply stands for, unless that is
too large. -/
theorem complete_spec (codec : ResponsesCodec) (store : ContinuationStore) (now : ℕ)
    (key responseId : String) (output : List CanonicalMessage)
    (nativeOutput : Option (List JsonValue)) :
    (∀ {id entry}, (store.complete codec now key responseId output nativeOutput).history.lookup id =
      some entry →
        (∃ pending, store.pending.lookup key = some pending ∧ id = (pending.scope, responseId) ∧
          entry.messages = lasting pending.messages ++ output ∧
          entry.nativeItems = extendNative pending.nativeItems nativeOutput ∧
          continuationBytes codec entry.messages entry.nativeItems ≤ maxContinuationEntryBytes) ∨
        store.history.lookup id = some entry ∧ ∀ {pending},
          store.pending.lookup key = some pending → id = (pending.scope, responseId) →
            maxContinuationEntryBytes < continuationBytes codec
              (lasting pending.messages ++ output)
              (extendNative pending.nativeItems nativeOutput)) ∧
    ∀ {given entry}, (store.complete codec now key responseId output nativeOutput).pending.lookup
      given = some entry → store.pending.lookup given = some entry := by
  have habandon := within_abandon store key
  rcases hpending : store.pending.lookup key with - | pending
  · have hsame : store.complete codec now key responseId output nativeOutput = store := by
      rw [complete, hpending]
    rw [hsame]
    exact ⟨fun h ↦ Or.inr ⟨h, nofun⟩, id⟩
  · have hretain : store.complete codec now key responseId output nativeOutput =
        (store.abandon key).retain codec now pending.scope responseId
          (lasting pending.messages ++ output)
          (extendNative pending.nativeItems nativeOutput) := by
      rw [complete, hpending]
      rfl
    rw [hretain]
    refine ⟨fun {id entry} h ↦ ?_, fun h ↦ habandon.pending (retain_spec.2 h)⟩
    rcases retain_spec.1 h with ⟨hid, hmessages, hitems, hsmall⟩ | ⟨hlookup, hlarge⟩
    · refine Or.inl ⟨pending, rfl, hid, hmessages, hitems, ?_⟩
      rwa [hmessages, hitems]
    · refine Or.inr ⟨habandon.history hlookup, fun {other} hother hid ↦ ?_⟩
      obtain rfl := Option.some.inj hother
      exact hlarge hid

end ContinuationStore

end TokenStation
