import TokenStation.Client.KeyBook
import TokenStation.Client.ProviderCommands
import TokenStation.Client.SaveDraft

/-!
# What the commands do to keys

Each provider command that returns does to the book of a state what `KeyChange.Step` says, after it
has finished an interrupted purge if it looks for one. No call fails here and no other process
changes the secrets.
-/

namespace TokenStation

open Library JsonValue Command SecretStore

namespace DesktopState

def book (s : DesktopState) : KeyBook where
  drafted := {name | (upstreamOf s.app.draft name).isSome = true}
  binned := {name | ∃ file, loadTombstones s.files.tombstones = .ok file ∧
    (file.providers.lookup name).isSome = true}
  pending name := s.app.pendingProviderKeys.lookup name
  removing := {name | (s.app.pendingProviderKeyRemovals.lookup name).isSome = true}
  stored name := stored s.files.secrets name "provider_api_key"

/-- The draft can be edited, and no other process is about to change the secrets. -/
structure Ready (s : DesktopState) : Prop where
  editable : Editable s.app.draft
  alone : s.others = []

/-- A ready state with this book. -/
def Shows (book : KeyBook) (s : DesktopState) : Prop := s.Ready ∧ s.book = book

end DesktopState

open DesktopState

/-! ## Programs that leave the book -/

section Frames

variable {book : KeyBook} {host : DesktopHost}

theorem yields_ofText {α : Type} {p : DesktopState → Prop} {result : Except String α} :
    Yields p (ofText result) fun a s ↦ result = .ok a ∧ p s := by
  rcases result with error | a
  · exact Runs.fail fun _ _ ↦ trivial
  · exact Runs.pure fun _ hs ↦ ⟨rfl, hs⟩

theorem ofText_bind {α β : Type} {p : DesktopState → Prop} {q : β → DesktopState → Prop}
    {result : Except String α} {f : α → Command β}
    (h : ∀ a, result = .ok a → Yields p (f a) q) : Yields p (ofText result >>= f) q :=
  Runs.bind yields_ofText fun a ↦ Runs.ofAnd (h a)

theorem check_bind {β : Type} {p : DesktopState → Prop} {q : β → DesktopState → Prop} {c : Prop}
    [Decidable c] {error : String} {f : Unit → Command β} (h : c → Yields p (f ()) q) :
    Yields p (ofText (ensure c error) >>= f) q :=
  ofText_bind fun _ hc ↦ h (ensure_eq_ok.mp hc)

theorem read_bind_eq {β : Type} {before : DesktopState} {q : β → DesktopState → Prop}
    {f : DesktopState → Command β} (h : Yields (fun s ↦ s = before) (f before) q) :
    Yields (fun s ↦ s = before) (Program.read >>= f) q :=
  Runs.read_bind fun _ hs ↦ hs ▸ h

/-- What is left of a state when the identities of its contents change. -/
theorem maintains_configCall {α : Type} {I : DesktopState → Prop} {allowed : Fate → Prop}
    (h : ∀ s configState sidecar, I s → I { s with
      app := { s.app with configState }
      files := { s.files with sidecar } })
    {f : Option String → DesktopState → Except String α × ConfigState × Option RevisionLedger} :
    Maintains allowed I (Program.call fun fault s ↦
      let (outcome, configState, sidecar) := f fault s
      (outcome.mapError DesktopError.message, { s with
        app := { s.app with configState }
        files := { s.files with sidecar } })) := by
  refine Maintains.call fun fault s hs ↦ ?_
  rcases f fault s with ⟨outcome, configState, sidecar⟩
  exact h s configState sidecar hs

theorem maintains_observeState {I : DesktopState → Prop} {allowed : Fate → Prop} {draft : JsonValue}
    (h : ∀ s configState sidecar, I s → I { s with
      app := { s.app with configState }
      files := { s.files with sidecar } }) :
    Maintains allowed I (observeState host draft) :=
  maintains_configCall h

/-- A program that handles its errors with others that cannot be told apart. -/
theorem maintains_observeDraft {allowed : Fate → Prop} :
    Maintains allowed (fun _ ↦ True) (observeDraft host) := by
  refine Maintains.read_bind fun s _ ↦ ?_
  refine Maintains.bind (maintains_observeState fun _ _ _ h ↦ h).attempt fun result ↦ ?_
  rcases result with error | _
  · exact Maintains.bind (Maintains.update fun _ h ↦ h) fun _ ↦ Maintains.fail
  · exact Maintains.pure

theorem yields_observeDraft {I : DesktopState → Prop}
    (h : ∀ s configState sidecar, I s → I { s with
      app := { s.app with configState }
      files := { s.files with sidecar } }) :
    Yields I (observeDraft host) fun _ ↦ I := by
  refine Runs.read_bind fun s hs ↦ ?_
  refine Runs.weaken (p := I) ?_ (fun _ hnow ↦ hnow ▸ hs) (fun _ _ h ↦ h) fun _ _ h ↦ h
  refine Yields.attempt_bind (.of_maintains (maintains_observeState h)) (fun _ ↦ ?_) fun error ↦ ?_
  · exact Runs.pure fun _ h ↦ h
  · exact Yields.fails (Maintains.update fun _ h ↦ h)

theorem maintains_ensureEditable {I : DesktopState → Prop} {allowed : Fate → Prop} :
    Maintains allowed I ensureEditable := by
  refine Maintains.read_bind fun s _ ↦ ?_
  rcases s.app.loadError with - | error
  · exact Maintains.pure
  · exact Maintains.fail

theorem maintains_writeFiles {I : DesktopState → Prop} {allowed : Fate → Prop}
    {text : String → String} {change : DesktopFiles → DesktopFiles}
    (h : ∀ s, I s → I { s with files := change s.files }) :
    Maintains allowed I (writeFiles text change) := by
  refine Maintains.call fun fault s hs ↦ ?_
  rcases fault with - | error
  · exact h s hs
  · exact hs

theorem yields_writeFiles {p q : DesktopState → Prop} {text : String → String}
    {change : DesktopFiles → DesktopFiles} (h : ∀ s, p s → q { s with files := change s.files }) :
    Yields p (writeFiles text change) fun _ ↦ q :=
  Yields.call fun s _ hs _ ↦ h s hs

theorem yields_updateApp {p q : DesktopState → Prop} {change : AppInner → AppInner}
    (h : ∀ s, p s → q { s with app := change s.app }) : Yields p (updateApp change) fun _ ↦ q :=
  Runs.update h

theorem yields_readTombstones {before : DesktopState} :
    Yields (fun s ↦ s = before) readTombstones
      fun file s ↦ loadTombstones before.files.tombstones = .ok file ∧ s = before :=
  read_bind_eq yields_ofText

end Frames

/-! ## The secrets -/

section Secrets

variable {book : KeyBook}

theorem yields_lockStore : Yields (fun s ↦ s.Shows book) lockStore fun map s ↦
    (∀ name, book.stored name = map.lookup (storeKey name "provider_api_key")) ∧ s.Shows book := by
  refine Runs.bind (r := fun _ s ↦ s.Shows book) (Runs.update fun s hs ↦ ?_) fun _ ↦ ?_
  · -- no other process has anything to do
    obtain ⟨⟨heditable, halone⟩, hbook⟩ := hs
    rw [halone, List.headD_nil, applyBatch_nil]
    exact ⟨⟨heditable, by rw [List.tail_nil]⟩, hbook⟩
  refine Runs.bind (yields_writeFiles fun _ h ↦ h) fun _ ↦ Runs.read_bind fun s hs ↦ ?_
  refine Runs.weaken yields_ofText (fun _ h ↦ h) (fun map now hnow ↦ ?_) fun _ _ h ↦ h
  obtain ⟨hload, rfl⟩ := hnow
  refine ⟨fun name ↦ ?_, hs⟩
  rw [← hs.2]
  change TokenStation.stored now.files.secrets name _ = _
  rw [TokenStation.stored, hload]

theorem yields_persist {map : Secrets} : Yields (fun s ↦ s.Shows book) (persist map) fun _ s ↦
    s.Shows { book with stored name := map.lookup (storeKey name "provider_api_key") } := by
  refine Yields.call fun s _ hs _ ↦ ⟨⟨hs.1.editable, hs.1.alone⟩, ?_⟩
  rw [← hs.2]
  rfl

/-- An operation on the secrets: what is stored then is what it leaves. -/
theorem yields_mutateSecrets {operation : Secrets → Secrets × Bool}
    (hsame : ∀ map, (operation map).2 = false → (operation map).1 = map) :
    Yields (fun s ↦ s.Shows book) (mutateSecrets operation) fun _ s ↦ ∃ map,
      (∀ name, book.stored name = map.lookup (storeKey name "provider_api_key")) ∧
      s.Shows { book with
        stored name := (operation map).1.lookup (storeKey name "provider_api_key") } := by
  refine Runs.bind yields_lockStore fun map ↦ Runs.ofAnd fun hload ↦ ?_
  refine Runs.ite (fun _ ↦ ?_) fun hchanged ↦ Runs.pure fun s hs ↦ ⟨map, hload, ?_⟩
  · exact Runs.weaken yields_persist (fun _ h ↦ h) (fun _ _ h ↦ ⟨map, hload, h⟩) fun _ _ h ↦ h
  · rw [hsame map (Bool.eq_false_of_not_eq_true hchanged)]
    rw [← funext hload]
    exact hs

theorem yields_storeSet {name key : String} : Yields (fun s ↦ s.Shows book)
    (Command.storeSet name "provider_api_key" key) fun _ s ↦ s.Shows (book.store name key) := by
  refine Runs.weaken (yields_mutateSecrets fun map h ↦ nomatch h) (fun _ h ↦ h)
    (fun _ s h ↦ ?_) fun _ _ h ↦ h
  obtain ⟨map, hload, hs⟩ := h
  have hstored : (fun other ↦ (map.insert (storeKey name "provider_api_key") key).lookup
      (storeKey other "provider_api_key")) = Function.update book.stored name (some key) := by
    funext other
    by_cases heq : other = name
    · rw [heq, Function.update_self, Finmap.lookup_insert]
    · rw [Function.update_of_ne heq, hload, Finmap.lookup_insert_of_ne]
      exact fun hkey ↦ heq (SaveView.storeKey_injective hkey)
  rw [KeyBook.store, ← hstored]
  exact hs

end Secrets

/-! ## Saving -/

section Save

variable {host : DesktopHost} {I : DesktopState → Prop} {allowed : Fate → Prop}

/-- What a save leaves of a state: nothing that it reads is changed but by itself. -/
structure Unchanged (before s : DesktopState) : Prop where
  draft : s.app.draft = before.app.draft
  binned : s.book.binned ⊆ before.book.binned
  removing : s.book.removing ⊆ before.book.removing

theorem maintains_persist {before : DesktopState} {map : Secrets} :
    Maintains allowed (Unchanged before) (persist map) := by
  refine Maintains.call fun fault s hs ↦ ?_
  rcases fault with - | error
  · exact ⟨hs.draft, hs.binned, hs.removing⟩
  · exact ⟨hs.draft, hs.binned, hs.removing⟩

theorem maintains_lockStore {before : DesktopState} :
    Maintains allowed (Unchanged before) lockStore := by
  refine Maintains.bind (Maintains.update fun s hs ↦ ⟨hs.draft, hs.binned, hs.removing⟩) fun _ ↦ ?_
  refine Maintains.bind (maintains_writeFiles fun _ h ↦ ⟨h.draft, h.binned, h.removing⟩) fun _ ↦ ?_
  exact Maintains.read_bind fun _ _ ↦ Maintains.ofResult

theorem maintains_saveConfig {before : DesktopState} {config : ClientConfig} :
    Maintains allowed (Unchanged before) (saveConfig host config) :=
  Maintains.bind Maintains.ofResult fun _ ↦
    maintains_writeFiles fun _ h ↦ ⟨h.draft, h.binned, h.removing⟩

theorem maintains_rollBack {before : DesktopState} {restored : Secrets} {error : DesktopError} :
    Maintains allowed (Unchanged before) (rollBack restored error) := by
  refine Maintains.bind maintains_persist.attempt fun result ↦ ?_
  rcases result with rollbackError | _
  · exact Maintains.fail
  · exact Maintains.fail

theorem maintains_replaceFiles {before : DesktopState} {config : ClientConfig} :
    Maintains allowed (Unchanged before) (replaceFiles host config) := by
  refine Maintains.read_bind fun s _ ↦ Maintains.ite maintains_saveConfig ?_
  refine Maintains.bind maintains_lockStore fun map ↦ Maintains.read_bind fun s _ ↦ ?_
  refine Maintains.bind maintains_persist.attempt fun result ↦ ?_
  rcases result with error | _
  · exact maintains_rollBack
  refine Maintains.bind maintains_saveConfig.attempt fun result ↦ ?_
  rcases result with error | _
  · exact maintains_rollBack
  · exact Maintains.pure

theorem maintains_removeKeysOf {before : DesktopState} (names : List String) :
    Maintains allowed (Unchanged before) (removeKeysOf names) := by
  induction names with
  | nil => exact Maintains.pure
  | cons upstream rest ih =>
    have hremove : Maintains allowed (Unchanged before)
        (Command.storeRemove upstream "provider_api_key") :=
      Maintains.bind maintains_lockStore fun _ ↦ Maintains.ite maintains_persist Maintains.pure
    refine Maintains.bind hremove.attempt fun result ↦ ?_
    rcases result with error | _
    · exact ih
    refine Maintains.bind (Maintains.update fun s hs ↦ ⟨hs.draft, hs.binned, ?_⟩) fun _ ↦ ih
    -- one removal less waits
    intro name hname
    refine hs.removing ?_
    by_cases heq : name = upstream
    · subst heq
      simp [DesktopState.book] at hname
    · simpa [DesktopState.book, AList.lookup_erase_ne heq] using hname

theorem loadTombstones_holds {file file' : TombstoneFile}
    (h : loadTombstones (.holds file) = .ok file') : file' = file := by
  rw [loadTombstones] at h
  split at h
  · nomatch h
  · exact (Except.ok.inj h).symm

theorem maintains_discardTombstone {before : DesktopState} {name : String} :
    Maintains allowed (Unchanged before) (discardTombstone name) := by
  refine Runs.bind (r := fun file s ↦ loadTombstones s.files.tombstones = .ok file ∧
    Unchanged before s) (Runs.read_bind fun s hs ↦ ?_) fun file ↦ ?_
  · refine Runs.ofResult (fun file hfile now hnow ↦ ?_) fun error _ now hnow ↦ hnow ▸ hs
    exact hnow ▸ ⟨mapError_eq_ok.mp hfile, hs⟩
  refine Runs.ite (fun _ ↦ ?_) fun _ ↦ Runs.pure fun _ h ↦ h.2
  refine Runs.weaken (maintains_writeFiles (I := fun s ↦ Unchanged before s ∧ ∀ other,
      (file.providers.lookup other).isSome = true → other ∈ before.book.binned)
      fun s hs ↦ ⟨⟨hs.1.draft, ?_, hs.1.removing⟩, hs.2⟩)
    (fun s hs ↦ ⟨hs.2, fun other hother ↦ hs.2.binned ⟨file, hs.1, hother⟩⟩) (fun _ _ h ↦ h.1)
    fun _ _ h ↦ h.1
  -- the file that is written holds a part of the one that was read
  rintro other ⟨file', hfile', hother⟩
  obtain rfl := loadTombstones_holds hfile'
  refine hs.2 other ?_
  by_cases heq : other = name
  · subst heq
    simp at hother
  · simpa [AList.lookup_erase_ne heq] using hother

theorem maintains_discardTombstones {before : DesktopState} (names : List String) :
    Maintains allowed (Unchanged before) (discardTombstones names) := by
  induction names with
  | nil => exact Maintains.pure
  | cons upstream rest ih => exact Maintains.bind maintains_discardTombstone.attempt fun _ ↦ ih

theorem maintains_saveDraft {before : DesktopState} :
    Maintains allowed (Unchanged before) (saveDraft host) := by
  have hconfig : ∀ s configState sidecar, Unchanged before s → Unchanged before { s with
      app := { s.app with configState }
      files := { s.files with sidecar } } :=
    fun _ _ _ h ↦ ⟨h.draft, h.binned, h.removing⟩
  refine Maintains.bind maintains_ensureEditable fun _ ↦ Maintains.read_bind fun s _ ↦ ?_
  refine Maintains.bind Maintains.ofResult fun config ↦ ?_
  refine Maintains.bind (Maintains.bind (maintains_observeState hconfig) fun _ ↦
    maintains_configCall hconfig) fun revision ↦ ?_
  refine Maintains.bind maintains_replaceFiles fun _ ↦ ?_
  refine Maintains.bind (maintains_removeKeysOf _) fun _ ↦ ?_
  have hfinish : Maintains allowed (Unchanged before) (finishSave s.app.draft) :=
    maintains_configCall (f := fun fault s' ↦
      s'.app.configState.finishSave s.app.draft fault.isNone s'.files.sidecar) hconfig
  refine Maintains.bind hfinish.attempt fun _ ↦ ?_
  refine Maintains.bind (maintains_discardTombstones _) fun _ ↦ ?_
  exact Maintains.bind (Maintains.update fun _ h ↦ ⟨h.draft, h.binned, h.removing⟩) fun _ ↦
    Maintains.pure

/-- A save stores the keys that wait, and the configuration it writes is the draft's. -/
theorem yields_saveDraft {before : DesktopState} (hready : before.Ready) :
    Yields (fun s ↦ s = before) (saveDraft host) fun _ s ↦ s.Ready ∧ before.book.Saves s.book ∧
      ∃ config, materializeDraft host before.app.draft = .ok config ∧
        s.files.config = .holds config := by
  have hframe : Yields (fun s ↦ s = before) (saveDraft host) fun _ ↦ Unchanged before :=
    Runs.weaken (p := Unchanged before) (Yields.of_maintains maintains_saveDraft) (fun s hs ↦ by
      subst hs
      exact ⟨rfl, subset_rfl, subset_rfl⟩) (fun _ _ h ↦ h) fun _ _ h ↦ h
  refine Runs.weaken (hframe.and (runs_saveDraft before)) (fun _ h ↦ h) ?_ fun _ _ h ↦ h
  rintro - s ⟨hframe, config, k, hconfig, hsaved, hpending⟩
  have halone : before.view.others = [] := hready.alone
  have hnone : ∀ {name}, name ∉ before.book.removing →
      before.app.pendingProviderKeyRemovals.lookup name = none :=
    fun h ↦ Option.not_isSome_iff_eq_none.mp h
  refine ⟨⟨hframe.draft ▸ hready.editable, ?_⟩, ⟨?_, hframe.binned, fun name ↦ ?_, hframe.removing,
    fun name key hkey hremoving ↦ ?_, fun name hkey hremoving ↦ ?_⟩, config, hconfig, hsaved.config⟩
  · have hothers := hsaved.others
    rw [halone, List.drop_nil] at hothers
    exact hothers
  · change {name | (upstreamOf s.app.draft name).isSome = true} = _
    rw [hframe.draft]
    rfl
  · change s.app.pendingProviderKeys.lookup name = none
    rw [hpending]
    rfl
  · have hstored := hsaved.stores name key hkey (hnone hremoving)
    rw [halone, List.take_nil, List.drop_nil] at hstored
    exact hstored
  · have hkept := hsaved.kept (storeKey name "provider_api_key") (fun hmem ↦ ?_) fun hmem ↦ ?_
    · rw [halone, List.take_nil] at hkept
      exact hkept
    · obtain ⟨other, hother, heq⟩ := hmem
      obtain rfl := SaveView.storeKey_injective heq
      obtain ⟨value, hvalue⟩ := mem_namesOf.mp hother
      nomatch hkey.symm.trans hvalue
    · obtain ⟨other, hother, heq⟩ := hmem
      obtain rfl := SaveView.storeKey_injective heq
      obtain ⟨value, hvalue⟩ := mem_namesOf.mp hother
      nomatch (hnone hremoving).symm.trans hvalue

end Save

/-! ## An interrupted purge -/

section Purge

variable {host : ProviderHost} {book : KeyBook}

theorem lookup_removeKeys_of_notMem {names : List String} {name : String} {map : Secrets}
    {changed : Bool} (h : name ∉ names) :
    (removeKeys names (map, changed)).1.lookup (storeKey name "provider_api_key") =
      map.lookup (storeKey name "provider_api_key") := by
  induction names generalizing map changed with
  | nil => rfl
  | cons first rest ih =>
    obtain ⟨hne, hrest⟩ := not_or.mp (mt List.mem_cons.mpr h)
    rw [removeKeys, ih hrest]
    exact Finmap.lookup_erase_ne fun heq ↦ hne (SaveView.storeKey_injective heq)

/-- Nothing was removed where nothing is reported. -/
theorem removeKeys_unchanged {names : List String} {map : Secrets} {changed : Bool}
    (h : (removeKeys names (map, changed)).2 = false) :
    (removeKeys names (map, changed)).1 = map ∧ changed = false := by
  induction names generalizing map changed with
  | nil => exact ⟨rfl, h⟩
  | cons first rest ih =>
    obtain ⟨hmap, hchanged⟩ := ih h
    obtain ⟨hbefore, hremoved⟩ := Bool.or_eq_false_iff.mp hchanged
    refine ⟨hmap.trans ?_, hbefore⟩
    refine Finmap.ext_lookup fun key ↦ ?_
    by_cases heq : key = storeKey first "provider_api_key"
    · rw [heq, Finmap.lookup_erase]
      exact (Option.not_isSome_iff_eq_none.mp (Bool.not_eq_true _ ▸ hremoved)).symm
    · exact Finmap.lookup_erase_ne heq

/-- The keys of providers that are gone are removed. -/
theorem yields_storeRemoveProviderApiKeys {names : List String}
    (hgone : ∀ name ∈ names, name ∉ book.drafted ∪ book.binned) :
    Yields (fun s ↦ s.Shows book) (Command.storeRemoveProviderApiKeys names) fun _ s ↦
      ∃ after, book.Purges after ∧ s.Shows after := by
  refine Runs.weaken (yields_mutateSecrets fun map h ↦ (removeKeys_unchanged h).1) (fun _ h ↦ h)
    (fun _ s h ↦ ?_) fun _ _ h ↦ h
  obtain ⟨map, hload, hs⟩ := h
  refine ⟨_, ?_, hs⟩
  refine ⟨rfl, rfl, rfl, rfl, fun name hname ↦ ?_⟩
  rw [hload name]
  exact lookup_removeKeys_of_notMem fun hmem ↦ hgone name hmem hname

/-- The prices are no part of what is looked at. -/
theorem shows_setMember {s : DesktopState} {name : String} {value : JsonValue}
    (hs : s.Shows book) (hname : name ≠ "upstreams") :
    { s with app := { s.app with draft := setMember name value s.app.draft } }.Shows book := by
  refine ⟨⟨hs.1.editable.setMember_ne hname, hs.1.alone⟩, ?_⟩
  rw [← hs.2]
  refine KeyBook.ext (Set.ext fun other ↦ ?_) rfl rfl rfl rfl
  change (upstreamOf _ other).isSome = true ↔ (upstreamOf _ other).isSome = true
  rw [upstreamOf_setMember hname]

theorem yields_clearScopedPrices {names : List String} :
    Yields (fun s ↦ s.Shows book) (clearScopedPrices host names) fun _ s ↦ s.Shows book := by
  refine Runs.read_bind fun s hs ↦ ofText_bind fun pricing _ ↦ Runs.ite (fun _ ↦ ?_) fun _ ↦ ?_
  · exact Runs.pure fun now hnow ↦ hnow ▸ hs
  refine check_bind fun _ ↦ Runs.bind (yields_updateApp fun now hnow ↦ ?_) fun _ ↦
    Runs.pure fun now hnow ↦ hnow
  subst hnow
  exact shows_setMember hs (by decide)

theorem yields_saveClearedPrices :
    Yields (fun s ↦ s.Shows book) (saveClearedPrices host) fun _ s ↦
      ∃ after, book.Saves after ∧ s.Shows after := by
  refine Runs.bind (yields_observeDraft fun _ _ _ hs ↦ ⟨⟨hs.1.editable, hs.1.alone⟩, hs.2⟩)
    fun _ ↦ Runs.each fun s hs ↦ ?_
  refine Runs.bind (yields_saveDraft hs.1) fun _ ↦ Runs.pure fun now hnow ↦ ?_
  exact ⟨now.book, hs.2 ▸ hnow.2.1, hnow.1, rfl⟩

/-- Prices that are removed are saved, and that saves the keys as well. -/
theorem yields_retirePrices {names : List String} :
    Yields (fun s ↦ s.Shows book) (retirePrices host names) fun _ s ↦
      s.Shows book ∨ ∃ after, book.Saves after ∧ s.Shows after := by
  refine Runs.read_bind fun s hs ↦ ?_
  refine Runs.bind (Runs.weaken yields_clearScopedPrices (fun _ hnow ↦ hnow ▸ hs)
    (fun _ _ h ↦ h) fun _ _ h ↦ h) fun changed ↦ Runs.ite (fun _ ↦ ?_) fun _ ↦ ?_
  · refine Yields.attempt_bind yields_saveClearedPrices (fun _ ↦ ?_) fun error ↦ ?_
    · exact Runs.pure fun _ h ↦ .inr h
    · exact Yields.fails (Maintains.update fun _ h ↦ h)
  · exact Runs.pure fun _ h ↦ .inl h

theorem maintains_removePendingProviderPurge {I : DesktopState → Prop} {allowed : Fate → Prop}
    (h : ∀ s purge, I s → I { s with files := { s.files with purge } }) :
    Maintains allowed I removePendingProviderPurge := by
  refine Maintains.read_bind fun s _ ↦ ?_
  have hremove : Maintains allowed I (do
      writeFiles ("移除 Provider 凭据待清理记录失败：" ++ ·) fun files ↦
        { files with purge := .absent }
      writeFiles ("同步 Provider 凭据待清理记录目录失败：" ++ ·) id) :=
    Maintains.bind (maintains_writeFiles fun s hs ↦ h s _ hs) fun _ ↦
      maintains_writeFiles fun _ hs ↦ hs
  rcases s.files.purge with _ | _ | _ | _
  · exact Maintains.pure
  · exact hremove
  · exact hremove
  · exact hremove

/-- A purge that was interrupted is finished, or it is found not to have happened. -/
theorem yields_recover {before : DesktopState} (hready : before.Ready) :
    Yields (fun s ↦ s = before) (recoverPendingProviderPurge host) fun _ s ↦
      ∃ after, before.book.Settles after ∧ s.Shows after := by
  have hsame : Yields (fun s : DesktopState ↦ s.Shows before.book) removePendingProviderPurge
      fun _ s ↦ ∃ after, before.book.Settles after ∧ s.Shows after :=
    Runs.weaken (Yields.of_maintains (maintains_removePendingProviderPurge
      fun _ _ hs ↦ ⟨⟨hs.1.editable, hs.1.alone⟩, hs.2⟩)) (fun _ h ↦ h)
      (fun _ _ h ↦ ⟨_, .purged (.refl _), h⟩) fun _ _ h ↦ h
  have hshows : before.Shows before.book := ⟨hready, rfl⟩
  refine read_bind_eq (ofText_bind fun pending _ ↦ ?_)
  rcases pending with - | pending
  · exact Runs.pure fun s hs ↦ ⟨_, .purged (.refl _), hs ▸ hshows⟩
  refine Runs.bind yields_readTombstones fun file ↦ Runs.ofAnd fun hfile ↦ ?_
  refine Runs.ite (fun _ ↦ Runs.weaken hsame (fun _ hs ↦ hs ▸ hshows) (fun _ _ h ↦ h)
    fun _ _ h ↦ h) fun _ ↦ check_bind fun hretained ↦ read_bind_eq (ofText_bind fun _ hunused ↦ ?_)
  -- the providers of the journal are neither in the draft nor in the bin
  have hactive : activeIn before.app.draft pending.providers = [] := by
    rw [ensureUnused, except_seq_eq_ok] at hunused
    exact ensure_eq_ok.mp hunused.1
  have hgone : ∀ name ∈ pending.providers, name ∉ before.book.drafted ∪ before.book.binned := by
    rintro name hname (hdrafted | ⟨file', hfile', hbinned⟩)
    · exact List.filter_eq_nil_iff.mp hactive name hname hdrafted
    · obtain rfl := Except.ok.inj (hfile.symm.trans hfile')
      exact List.filter_eq_nil_iff.mp hretained name hname hbinned
  refine Runs.bind (Runs.weaken (yields_storeRemoveProviderApiKeys hgone) (fun _ hs ↦ hs ▸ hshows)
    (fun _ _ h ↦ h) fun _ _ h ↦ h) fun _ ↦ Runs.each fun middle hmiddle ↦ ?_
  obtain ⟨mid, hpurges, hmid⟩ := hmiddle
  refine Runs.bind (Runs.weaken yields_retirePrices (fun _ hs ↦ hs ▸ hmid) (fun _ _ h ↦ h)
    fun _ _ h ↦ h) fun _ ↦ ?_
  refine Runs.weaken (Yields.of_maintains (maintains_removePendingProviderPurge
    (I := fun s ↦ ∃ after, before.book.Settles after ∧ s.Shows after)
    fun s _ ⟨after, hsettles, hs⟩ ↦ ⟨after, hsettles, ⟨hs.1.editable, hs.1.alone⟩, hs.2⟩))
    (fun s hs ↦ ?_) (fun _ _ h ↦ h) fun _ _ h ↦ h
  rcases hs with hs | ⟨after, hsaves, hs⟩
  · exact ⟨mid, .purged hpurges, hs⟩
  · exact ⟨after, .saved hpurges hsaves, hs⟩

end Purge

/-! ## The commands -/

section Commands

variable {host : ProviderHost} {before : DesktopState}

/-- The state in which a command that first recovers a purge finds the providers. -/
def settled (host : ProviderHost) (s : DesktopState) : DesktopState :=
  calmState (recoverPendingProviderPurge host) s

/-- A command that recovers first is proved from the state in which it finds the providers. -/
theorem recover_bind {β : Type} {f : Unit → Command β} {Q : β → DesktopState → Prop}
    (hready : before.Ready)
    (h : (settled host before).Ready → Yields (fun s ↦ s = settled host before) (f ()) Q) :
    Yields (fun s ↦ s = before) (recoverPendingProviderPurge host >>= f) fun b s ↦
      before.book.Settles (settled host before).book ∧ Q b s := by
  refine Runs.bind (yields_recover hready).leaves fun _ ↦ ?_
  refine Runs.weaken (p := fun s ↦ ((settled host before).Ready ∧
      before.book.Settles (settled host before).book) ∧ s = settled host before)
    (Runs.ofAnd fun ⟨hfound, hsettles⟩ ↦ ?_) ?_ (fun _ _ h ↦ h) fun _ _ h ↦ h
  · exact Runs.weaken (h hfound) (fun _ h ↦ h) (fun _ _ hq ↦ ⟨hsettles, hq⟩) fun _ _ h ↦ h
  · rintro s ⟨⟨after, hsettles, hs⟩, rfl⟩
    exact ⟨⟨hs.1, hs.2 ▸ hsettles⟩, rfl⟩

/-! ### Edits of the draft -/

/-- An edit of the draft changes which providers are in it, and nothing else. -/
theorem shows_draft {s : DesktopState} {book : KeyBook} (hs : s.Shows book) {draft : JsonValue}
    {drafted : Set String} (heditable : Editable draft)
    (hdrafted : ∀ name, (upstreamOf draft name).isSome = true ↔ name ∈ drafted) :
    { s with app := { s.app with draft } }.Shows { book with drafted } := by
  refine ⟨⟨heditable, hs.1.alone⟩, ?_⟩
  rw [← hs.2]
  exact KeyBook.ext (Set.ext hdrafted) rfl rfl rfl rfl

theorem shows_submitKey {s : DesktopState} {book : KeyBook} (hs : s.Shows book)
    (name key : String) :
    { s with app := submitKey name key s.app }.Shows (book.submit name key) := by
  refine ⟨⟨hs.1.editable, hs.1.alone⟩, ?_⟩
  rw [← hs.2]
  refine KeyBook.ext rfl rfl (funext fun other ↦ ?_) (Set.ext fun other ↦ ?_) rfl
  · change AList.lookup other (AList.insert name key s.app.pendingProviderKeys) =
      Function.update s.book.pending name (some key) other
    by_cases heq : other = name
    · rw [heq, AList.lookup_insert, Function.update_self]
    · rw [AList.lookup_insert_ne heq, Function.update_of_ne heq]
      rfl
  · change (AList.lookup other (AList.erase name _)).isSome = true ↔ _ ∧ other ∉ {name}
    by_cases heq : other = name
    · subst heq
      simp
    · rw [AList.lookup_erase_ne heq]
      exact (and_iff_left heq).symm

/-- One replaced provider after the other. -/
theorem KeyBook.retire_cons {name : String} {legacy : List String} {book : KeyBook} :
    book.retire (name :: legacy) = (book.retire [name]).retire legacy := by
  refine KeyBook.ext rfl rfl (funext fun other ↦ ?_) ?_ rfl
  · simp only [KeyBook.retire, List.mem_cons, List.not_mem_nil, or_false]
    by_cases hmem : other ∈ legacy
    · simp [hmem]
    · simp [hmem]
  · ext other
    simp only [KeyBook.retire, List.mem_cons, List.not_mem_nil, or_false, Set.mem_union,
      Set.mem_ofPred_eq, or_assoc]

theorem shows_retireOne {s : DesktopState} {book : KeyBook} {name : String} (hs : s.Shows book) :
    { s with app := retireKey s.app name }.Shows (book.retire [name]) := by
  refine ⟨⟨hs.1.editable, hs.1.alone⟩, ?_⟩
  rw [← hs.2]
  refine KeyBook.ext rfl rfl (funext fun other ↦ ?_) (Set.ext fun other ↦ ?_) rfl
  · change AList.lookup other (AList.erase name _) =
      if other ∈ [name] then none else AList.lookup other _
    by_cases heq : other = name
    · rw [if_pos (List.mem_singleton.mpr heq), heq, AList.lookup_erase]
    · rw [if_neg (mt List.mem_singleton.mp heq), AList.lookup_erase_ne heq]
  · change (AList.lookup other (AList.insert name () _)).isSome = true ↔
      (AList.lookup other _).isSome = true ∨ other ∈ [name]
    rw [List.mem_singleton]
    by_cases heq : other = name
    · rw [heq, AList.lookup_insert]
      exact iff_of_true rfl (.inr rfl)
    · rw [AList.lookup_insert_ne heq]
      exact (or_iff_left heq).symm

theorem shows_submitAdded {s : DesktopState} {book : KeyBook} {name key : String}
    (legacy : List String) (hs : s.Shows book) :
    { s with app := submitAdded name key legacy s.app }.Shows
      ((book.submit name key).retire legacy) := by
  have hall : ∀ {s : DesktopState} {book : KeyBook}, s.Shows book →
      { s with app := legacy.foldl retireKey s.app }.Shows (book.retire legacy) := by
    induction legacy with
    | nil =>
      intro s book hs
      have hretire : book.retire [] = book :=
        KeyBook.ext rfl rfl rfl (Set.ext fun name ↦ or_iff_left List.not_mem_nil) rfl
      rw [hretire]
      exact hs
    | cons first rest ih =>
      intro s book hs
      rw [KeyBook.retire_cons]
      exact ih (shows_retireOne hs)
  exact hall (shows_submitKey hs name key)

/-! ### Adding -/

theorem Editable.removeUpstreams {draft : JsonValue} (h : Editable draft) (names : List String) :
    Editable (removeUpstreams names draft) ∧
      ∀ other, (upstreamOf (Command.removeUpstreams names draft) other).isSome = true ↔
        (upstreamOf draft other).isSome = true ∧ other ∉ names := by
  induction names generalizing draft with
  | nil => exact ⟨h, fun other ↦ (and_iff_left List.not_mem_nil).symm⟩
  | cons name rest ih =>
    have hremoved : Editable (TokenStation.removeUpstream name draft) := h.removeUpstream
    obtain ⟨heditable, hupstreams⟩ := ih hremoved
    refine ⟨heditable, fun other ↦ (hupstreams other).trans ?_⟩
    rw [h.upstreamOf_removeUpstream]
    by_cases heq : other = name
    · simp [heq]
    · simp [heq]

/-- The home route is not among the upstreams. -/
theorem editable_routeDirect {draft : JsonValue} (h : Editable draft) (name model : String) :
    Editable (routeDirect name model draft) ∧
      ∀ other, upstreamOf (routeDirect name model draft) other = upstreamOf draft other :=
  ⟨(h.setMember_ne (by decide)).setMember_ne (by decide), fun other ↦ by
    rw [routeDirect, upstreamOf_setMember (by decide), upstreamOf_setMember (by decide)]⟩

theorem editable_addedDraft {draft : JsonValue} (h : Editable draft) (upstream : JsonValue)
    {managedRoute : Bool} {legacy : List String} {name model : String} :
    Editable (addedDraft managedRoute legacy name model upstream draft) ∧
      ∀ other, (upstreamOf (addedDraft managedRoute legacy name model upstream draft) other).isSome
        = true ↔ other = name ∨ (upstreamOf draft other).isSome = true ∧ other ∉ legacy := by
  obtain ⟨hremoved, hnames⟩ := h.removeUpstreams legacy
  have hset : ∀ other, (upstreamOf (setUpstream name upstream
      (Command.removeUpstreams legacy draft)) other).isSome = true ↔
        other = name ∨ (upstreamOf draft other).isSome = true ∧ other ∉ legacy := by
    intro other
    rw [hremoved.upstreamOf_setUpstream, ← hnames]
    by_cases heq : other = name
    · simp [heq]
    · simp [heq]
  rw [addedDraft]
  rcases managedRoute with - | -
  · exact ⟨hremoved.setUpstream, hset⟩
  · obtain ⟨heditable, hsame⟩ := editable_routeDirect hremoved.setUpstream name model
    exact ⟨heditable, fun other ↦ hsame other ▸ hset other⟩

theorem notMem_of_legacyManagedUpstreams {draft : JsonValue} {name : String} {managedRoute : Bool}
    {legacy : List (String × JsonValue)}
    (h : legacyManagedUpstreams draft name managedRoute = .ok legacy) :
    name ∉ legacy.map Prod.fst := by
  have hcandidate : ∀ {candidates : List (String × JsonValue)}, candidates =
      (managedUpstreams draft).filter (fun entry ↦
        entry.1 != name && !isManagedEnterpriseProviderId entry.1) →
      ∀ entry ∈ candidates, entry.1 ≠ name := by
    rintro - rfl entry hentry rfl
    simp at hentry
  intro hmem
  obtain ⟨entry, hentry, rfl⟩ := List.mem_map.mp hmem
  simp only [legacyManagedUpstreams] at h
  split at h
  · obtain rfl := Except.ok.inj h
    nomatch hentry
  split at h
  next candidate hfind =>
    obtain rfl := Except.ok.inj h
    obtain rfl := List.mem_singleton.mp hentry
    exact hcandidate rfl _ (List.mem_of_find?_eq_some hfind) rfl
  · split at h
    · obtain rfl := Except.ok.inj h
      nomatch hentry
    · nomatch h

/-- Observing leaves the book. -/
theorem yields_observed {book : KeyBook} :
    Yields (fun s ↦ s.Shows book) (observeDraft host.toDesktopHost) fun _ s ↦ s.Shows book :=
  yields_observeDraft fun _ _ _ hs ↦ ⟨⟨hs.1.editable, hs.1.alone⟩, hs.2⟩

/-- A handler that takes something back and reports the error. -/
theorem handler_fails {change : AppInner → AppInner} {error : DesktopError} :
    Yields (fun _ : DesktopState ↦ True)
      (updateApp change >>= fun _ ↦ Program.fail (α := Unit) error) fun _ _ ↦ False :=
  Yields.fails (Maintains.update fun _ h ↦ h)

/-- The providers whose place a new one takes. -/
def legacyNames (draft : JsonValue) (name : String) (managedRoute : Bool) : List String :=
  match legacyManagedUpstreams draft name managedRoute with
  | .ok legacy => legacy.map Prod.fst
  | .error _ => []

/-- A name that the bin does not hold. -/
theorem notMem_binned {s : DesktopState} {file : TombstoneFile} {name : String}
    (hfile : loadTombstones s.files.tombstones = .ok file) (h : file.providers.lookup name = none) :
    name ∉ s.book.binned := by
  rintro ⟨file', hfile', hname⟩
  obtain rfl := Except.ok.inj (hfile.symm.trans hfile')
  rw [h] at hname
  nomatch hname

theorem notMem_drafted {s : DesktopState} {name : String} (h : upstreamOf s.app.draft name = none) :
    name ∉ s.book.drafted := by
  intro hname
  change (upstreamOf s.app.draft name).isSome = true at hname
  rw [h] at hname
  nomatch hname

theorem yields_commitAdded {s : DesktopState} (hs : s.Ready) {managedRoute : Bool}
    {legacy : List (String × JsonValue)} {name model : String} {key : Option String}
    {upstream : JsonValue} :
    Yields (fun now ↦ now = s) (commitAdded host managedRoute legacy name model key upstream)
      fun _ now ↦ match key with
        | some key => now.Shows (((s.book.enter name (legacy.map Prod.fst)).submit name key).retire
            (legacy.map Prod.fst))
        | none => now.Shows (s.book.enter name (legacy.map Prod.fst)) := by
  refine read_bind_eq (Runs.bind (r := fun _ now ↦ now.Shows
    (s.book.enter name (legacy.map Prod.fst))) (yields_updateApp fun now hnow ↦ ?_) fun _ ↦ ?_)
  · subst hnow
    obtain ⟨heditable, hnames⟩ := editable_addedDraft hs.editable upstream
    exact shows_draft ⟨hs, rfl⟩ heditable hnames
  refine Yields.attempt_bind yields_observed (fun _ ↦ ?_) fun error ↦ handler_fails
  rcases key with - | key
  · exact Runs.pure fun _ h ↦ h
  · exact yields_updateApp fun now hnow ↦ shows_submitAdded _ hnow

theorem yields_removeCatalogs {I : DesktopState → Prop} (names : List String) :
    Yields I (removeCatalogs names) fun _ ↦ I := by
  induction names with
  | nil => exact Runs.pure fun _ h ↦ h
  | cons name rest ih => exact Runs.bind (yields_writeFiles fun _ h ↦ h) fun _ ↦ ih

theorem yields_addProvider (input : NewProvider) (hready : before.Ready) :
    Yields (fun s ↦ s = before) (addProvider host input) fun _ s ↦
      before.book.Settles (settled host before).book ∧ s.Ready ∧
      (KeyChange.add (trimmed input.name) (entered input.apiKey) (legacyNames
        (settled host before).app.draft (trimmed input.name) input.managedRoute)).Step
        (settled host before).book s.book := by
  refine check_bind fun _ ↦ check_bind fun _ ↦ ofText_bind fun _ _ ↦ ofText_bind fun endpoint _ ↦ ?_
  refine check_bind fun _ ↦ Runs.bind (Yields.of_maintains maintains_ensureEditable) fun _ ↦ ?_
  refine recover_bind hready fun hfound ↦ read_bind_eq (ofText_bind fun egress _ ↦ ?_)
  refine ofText_bind fun _ _ ↦ check_bind fun hnew ↦ ?_
  refine Runs.bind yields_readTombstones fun file ↦ Runs.ofAnd fun hfile ↦ check_bind fun hbin ↦ ?_
  refine ofText_bind fun legacy hlegacy ↦ ofText_bind fun models _ ↦ ?_
  refine Runs.bind (yields_removeCatalogs _) fun _ ↦ ofText_bind fun auth _ ↦ ?_
  refine check_bind fun _ ↦ check_bind fun _ ↦ ?_
  refine Runs.weaken (yields_commitAdded hfound) (fun _ h ↦ h) (fun _ s hs ↦ ?_) fun _ _ h ↦ h
  rw [legacyNames, hlegacy]
  have hfresh := notMem_drafted hnew
  rcases hkey : entered input.apiKey with - | key
  · rw [hkey] at hs
    exact ⟨hs.1, hs.2 ▸ .add hfresh (notMem_binned hfile hbin)⟩
  · rw [hkey] at hs
    exact ⟨hs.1, hs.2 ▸ .addKey hfresh (notMem_binned hfile hbin)
      (notMem_of_legacyManagedUpstreams hlegacy)⟩

/-- A provider that is written is in the draft. -/
theorem shows_setUpstream {s : DesktopState} {book : KeyBook} (hs : s.Shows book)
    (name : String) (upstream : JsonValue) :
    { s with app := { s.app with draft := setUpstream name upstream s.app.draft } }.Shows
      { book with drafted := insert name book.drafted } := by
  refine shows_draft hs hs.1.editable.setUpstream fun other ↦ ?_
  rw [hs.1.editable.upstreamOf_setUpstream, ← hs.2]
  by_cases heq : other = name
  · simp [heq]
  · rw [if_neg heq]
    exact (or_iff_right heq).symm

theorem yields_commitFree (input : ValidatedFree) (hready : before.Ready) :
    Yields (fun s ↦ s = before) (commitFree host input) fun _ s ↦ s.Ready ∧
      (KeyChange.addFree input.preset.upstreamName input.apiKey).Step before.book s.book := by
  refine Runs.bind (Yields.of_maintains maintains_ensureEditable) fun _ ↦ read_bind_eq ?_
  refine check_bind fun _ ↦ check_bind fun hnew ↦ ?_
  refine Runs.bind yields_readTombstones fun file ↦ Runs.ofAnd fun _ ↦ check_bind fun _ ↦ ?_
  refine Runs.bind (r := fun _ s ↦ s.Shows (before.book.enter input.preset.upstreamName []))
    (yields_updateApp fun s hs ↦ ?_) fun _ ↦ ?_
  · subst hs
    have henter : s.book.enter input.preset.upstreamName [] =
        { s.book with drafted := insert input.preset.upstreamName s.book.drafted } := by
      rw [KeyBook.enter]
      simp
    rw [henter]
    exact shows_setUpstream ⟨hready, rfl⟩ _ _
  refine Yields.attempt_bind yields_observed (fun _ ↦ ?_) fun error ↦ handler_fails
  refine yields_updateApp fun s hs ↦ ?_
  have hshows := shows_submitKey hs input.preset.upstreamName input.apiKey
  exact ⟨hshows.1, hshows.2 ▸ .addFree (notMem_drafted hnew)⟩

theorem mem_drafted {s : DesktopState} {name : String} {upstream : JsonValue}
    (h : upstreamOf s.app.draft name = some upstream) : name ∈ s.book.drafted := by
  change (upstreamOf s.app.draft name).isSome = true
  rw [h]
  rfl

/-- What is written over a provider of the draft leaves the book. -/
theorem shows_setUpstream_mem {s : DesktopState} {book : KeyBook} {name : String}
    (hs : s.Shows book) (hname : name ∈ book.drafted) (upstream : JsonValue) :
    { s with app := { s.app with draft := setUpstream name upstream s.app.draft } }.Shows book := by
  have hshows := shows_setUpstream hs name upstream
  rwa [Set.insert_eq_of_mem hname] at hshows

theorem yields_extendManagedRoute (provider baseUrl apiKey model : String)
    (hready : before.Ready) :
    Yields (fun s ↦ s = before) (extendManagedRoute host provider baseUrl apiKey model) fun _ s ↦
      before.book.Settles (settled host before).book ∧ s.Ready ∧
      (KeyChange.extend provider (trimmed apiKey)).Step (settled host before).book s.book := by
  refine ofText_bind fun endpoint _ ↦ check_bind fun _ ↦ ofText_bind fun models _ ↦ ?_
  refine Runs.bind (Yields.of_maintains maintains_ensureEditable) fun _ ↦ ?_
  refine recover_bind hready fun hfound ↦ read_bind_eq (ofText_bind fun egress _ ↦ ?_)
  refine ofText_bind fun _ _ ↦ ofText_bind fun upstream hupstream ↦ check_bind fun _ ↦ ?_
  refine ofText_bind fun configured _ ↦ check_bind fun _ ↦ ofText_bind fun items _ ↦ ?_
  have hold : provider ∈ (settled host before).book.drafted :=
    mem_drafted (require_eq_ok.mp hupstream)
  refine Runs.bind (r := fun _ s ↦ s.Shows (settled host before).book)
    (yields_updateApp fun s hs ↦ ?_) fun _ ↦ ?_
  · subst hs
    have hshows := shows_setUpstream_mem (s := settled host before) ⟨hfound, rfl⟩ hold
      (extendedUpstream host upstream items endpoint.asStr provider (models.headD ""))
    obtain ⟨heditable, hsame⟩ := editable_routeDirect hshows.1.editable provider
      (models.headD "")
    refine shows_draft hshows heditable fun other ↦ ?_
    rw [hsame]
    exact Set.ext_iff.mp (congrArg KeyBook.drafted hshows.2) other
  refine Yields.attempt_bind yields_observed (fun _ ↦ ?_) fun error ↦ handler_fails
  refine yields_updateApp fun s hs ↦ ?_
  have hshows := shows_submitKey hs provider (trimmed apiKey)
  exact ⟨hshows.1, hshows.2 ▸ .extend hold⟩

/-! ### Editing -/

theorem yields_storeEditedKey {book : KeyBook} {name key : String} {previous : JsonValue}
    {app : AppInner} :
    Yields (fun s ↦ s.Shows book) (storeEditedKey host name previous app key) fun _ s ↦
      s.Shows (book.store name key) := by
  refine Yields.attempt_bind yields_storeSet (fun _ ↦ Runs.pure fun _ h ↦ h) fun error ↦ ?_
  refine Runs.bind (Yields.of_maintains (Maintains.update fun _ h ↦ h)) fun _ ↦ ?_
  refine Runs.bind (Yields.of_maintains maintains_observeDraft.attempt) fun result ↦ ?_
  rcases result with rollbackError | _
  · exact Runs.fail fun _ _ ↦ trivial
  · exact Runs.fail fun _ _ ↦ trivial

theorem yields_editProvider (edit : ProviderEdit) (hready : before.Ready) :
    Yields (fun s ↦ s = before) (editProvider host edit) fun _ s ↦ s.Ready ∧
      (KeyChange.edit (trimmed edit.name) (entered edit.apiKey)).Step before.book s.book := by
  refine ofText_bind fun endpoint _ ↦
    Runs.bind (Yields.of_maintains maintains_ensureEditable) fun _ ↦ read_bind_eq ?_
  refine ofText_bind fun _ _ ↦ ofText_bind fun previous hprevious ↦ check_bind fun _ ↦ ?_
  refine ofText_bind fun auth _ ↦ check_bind fun _ ↦ check_bind fun _ ↦ ?_
  refine ofText_bind fun egress _ ↦ ofText_bind fun _ _ ↦ read_bind_eq ?_
  have hold : trimmed edit.name ∈ before.book.drafted := mem_drafted (require_eq_ok.mp hprevious)
  refine Runs.bind (r := fun _ s ↦ s.Shows before.book) ?_ fun _ ↦ ?_
  · -- the catalog and the prices of another account
    refine Runs.weaken (p := fun s ↦ s.Shows before.book) ?_ (fun s hs ↦ by
      subst hs
      exact ⟨hready, rfl⟩) (fun _ _ h ↦ h) fun _ _ h ↦ h
    refine Runs.ite (fun _ ↦ ?_) fun _ ↦ Runs.pure fun _ h ↦ h
    refine Runs.bind (yields_writeFiles fun _ h ↦ h) fun _ ↦ ?_
    exact Runs.bind yields_clearScopedPrices fun _ ↦ Runs.pure fun _ h ↦ h
  refine Runs.bind (r := fun _ s ↦ s.Shows before.book)
    (yields_updateApp fun s hs ↦ shows_setUpstream_mem hs hold _) fun _ ↦ ?_
  refine Yields.attempt_bind yields_observed (fun _ ↦ ?_) fun error ↦ handler_fails
  rcases entered edit.apiKey with - | key
  · refine Runs.pure fun s hs ↦ ⟨hs.1, ?_⟩
    rw [hs.2]
    exact .edit hold
  · refine Runs.weaken yields_storeEditedKey (fun _ h ↦ h) (fun _ s hs ↦ ?_) fun _ _ h ↦ h
    exact ⟨hs.1, hs.2 ▸ .editKey hold⟩

/-! ### Removing and restoring -/

/-- A file of the bin that is written is the bin. -/
theorem shows_tombstones {s : DesktopState} {book : KeyBook} (hs : s.Shows book)
    {file : TombstoneFile} {binned : Set String} (hversion : file.version = 1)
    (hbinned : ∀ name, (file.providers.lookup name).isSome = true ↔ name ∈ binned) :
    { s with files := { s.files with tombstones := .holds file } }.Shows { book with binned } := by
  refine ⟨⟨hs.1.editable, hs.1.alone⟩, ?_⟩
  rw [← hs.2]
  refine KeyBook.ext rfl (Set.ext fun name ↦ (Iff.trans ?_ (hbinned name))) rfl rfl rfl
  constructor
  · rintro ⟨file', hfile', hname⟩
    obtain rfl := loadTombstones_holds hfile'
    exact hname
  · exact fun hname ↦ ⟨file, if_neg (not_not.mpr hversion), hname⟩

theorem version_of_loadTombstones {stored : StoredFile TombstoneFile} {file : TombstoneFile}
    (h : loadTombstones stored = .ok file) : file.version = 1 := by
  rcases stored with _ | _ | _ | found
  · obtain rfl := Except.ok.inj h
    rfl
  · nomatch h
  · nomatch h
  · obtain rfl := loadTombstones_holds h
    by_contra hversion
    rw [loadTombstones, if_pos hversion] at h
    nomatch h

theorem mem_binned_iff {s : DesktopState} {file : TombstoneFile} {name : String}
    (hfile : loadTombstones s.files.tombstones = .ok file) :
    name ∈ s.book.binned ↔ (file.providers.lookup name).isSome = true := by
  constructor
  · rintro ⟨file', hfile', hname⟩
    obtain rfl := Except.ok.inj (hfile.symm.trans hfile')
    exact hname
  · exact fun hname ↦ ⟨file, hfile, hname⟩

/-- Archiving puts a provider into the bin. -/
theorem yields_archiveTombstone {book : KeyBook} {nowMs : ℕ} {name : String}
    {provider : JsonValue} :
    Yields (fun s ↦ s.Shows book) (archiveTombstone nowMs name provider) fun _ s ↦
      s.Shows { book with binned := insert name book.binned } := by
  refine Runs.each fun s hs ↦ Runs.bind yields_readTombstones fun file ↦ Runs.ofAnd fun hfile ↦ ?_
  refine check_bind fun _ ↦ yields_writeFiles fun now hnow ↦ ?_
  subst hnow
  refine shows_tombstones hs (show file.version = 1 from version_of_loadTombstones hfile)
    fun other ↦ ?_
  rw [← hs.2, Set.mem_insert_iff, mem_binned_iff hfile]
  by_cases heq : other = name
  · rw [heq, AList.lookup_insert]
    exact iff_of_true rfl (.inl rfl)
  · rw [AList.lookup_insert_ne heq]
    exact (or_iff_right heq).symm

/-- Taking a provider out of the bin. -/
theorem yields_takeTombstone {book : KeyBook} {name : String} :
    Yields (fun s ↦ s.Shows book) (takeTombstone name) fun taken s ↦ taken.isSome = true →
      name ∈ book.binned ∧ s.Shows { book with binned := book.binned \ {name} } := by
  refine Runs.each fun s hs ↦ Runs.bind yields_readTombstones fun file ↦ Runs.ofAnd fun hfile ↦ ?_
  rcases hname : file.providers.lookup name with - | tombstone
  · exact Runs.pure fun _ _ h ↦ nomatch h
  refine Runs.bind (r := fun _ now ↦ now.Shows { book with binned := book.binned \ {name} })
    (yields_writeFiles fun now hnow ↦ ?_) fun _ ↦ Runs.pure fun now hnow _ ↦ ⟨?_, hnow⟩
  · subst hnow
    refine shows_tombstones hs (show file.version = 1 from version_of_loadTombstones hfile)
      fun other ↦ ?_
    rw [← hs.2, Set.mem_sdiff, mem_binned_iff hfile]
    by_cases heq : other = name
    · rw [heq, AList.lookup_erase]
      exact iff_of_false (fun h ↦ nomatch h) fun h ↦ h.2 rfl
    · rw [AList.lookup_erase_ne heq]
      exact (and_iff_left heq).symm
  · rw [← hs.2, mem_binned_iff hfile, hname]
    rfl

theorem shows_rebuildRouting {s : DesktopState} {book : KeyBook} (hs : s.Shows book) :
    { s with app := { s.app with draft := rebuildRouting host s.app.draft } }.Shows book := by
  exact shows_setMember hs (by decide)

/-- A removed provider's key waits no longer. -/
theorem shows_removed {s : DesktopState} {book : KeyBook} {name : String}
    (hs : s.Shows { book with binned := insert name book.binned }) :
    { s with app := { s.app with
        pendingProviderKeys := s.app.pendingProviderKeys.erase name
        draft := rebuildRouting host (removeUpstream name s.app.draft) } }.Shows
      (book.remove name) := by
  have hforgotten : { s with app := { s.app with
        pendingProviderKeys := s.app.pendingProviderKeys.erase name } }.Shows { book with
      binned := insert name book.binned
      pending := Function.update book.pending name none } := by
    refine ⟨⟨hs.1.editable, hs.1.alone⟩, ?_⟩
    have hbook := hs.2
    rw [KeyBook.ext_iff] at hbook
    obtain ⟨hdrafted, hbinned, hpending, hremoving, hstored⟩ := hbook
    refine KeyBook.ext hdrafted hbinned (funext fun other ↦ ?_) hremoving hstored
    change AList.lookup other (AList.erase name s.app.pendingProviderKeys) =
      Function.update book.pending name none other
    by_cases heq : other = name
    · rw [heq, AList.lookup_erase, Function.update_self]
    · rw [AList.lookup_erase_ne heq, Function.update_of_ne heq]
      exact congrFun hpending other
  have hdrafted : ∀ other, (upstreamOf (removeUpstream name s.app.draft) other).isSome = true ↔
      other ∈ book.drafted \ {name} := by
    intro other
    rw [hs.1.editable.upstreamOf_removeUpstream]
    by_cases heq : other = name
    · simp [heq]
    · rw [if_neg heq]
      exact (Set.ext_iff.mp (congrArg KeyBook.drafted hs.2) other).trans (and_iff_left heq).symm
  exact shows_rebuildRouting (shows_draft hforgotten hs.1.editable.removeUpstream hdrafted)

theorem maintains_true_readTombstones {allowed : Fate → Prop} :
    Maintains allowed (fun _ ↦ True) readTombstones :=
  Maintains.read_bind fun _ _ ↦ Maintains.ofResult

theorem yields_removeProvider (name : String) (nowMs : ℕ) (hready : before.Ready) :
    Yields (fun s ↦ s = before) (removeProvider host name nowMs) fun _ s ↦
      before.book.Settles (settled host before).book ∧ s.Ready ∧
      (KeyChange.remove (trimmed name)).Step (settled host before).book s.book := by
  refine Runs.bind (Yields.of_maintains maintains_ensureEditable) fun _ ↦ ?_
  refine recover_bind hready fun hfound ↦ read_bind_eq (check_bind fun _ ↦ ?_)
  refine ofText_bind fun provider hprovider ↦ ?_
  have hold : trimmed name ∈ (settled host before).book.drafted :=
    mem_drafted (require_eq_ok.mp hprovider)
  refine Runs.bind (r := fun _ s ↦ s.Shows (settled host before).book)
    (yields_writeFiles fun s hs ↦ ?_) fun _ ↦ Runs.bind yields_archiveTombstone fun _ ↦ ?_
  · subst hs
    exact ⟨hfound, rfl⟩
  refine Runs.bind (r := fun _ s ↦ s.Shows ((settled host before).book.remove (trimmed name)))
    (yields_updateApp fun s hs ↦ shows_removed hs) fun _ ↦ ?_
  refine Yields.attempt_bind yields_observed (fun _ ↦ Runs.pure fun s hs ↦ ?_) fun error ↦ ?_
  · exact ⟨hs.1, hs.2 ▸ .remove hold⟩
  · refine Runs.bind (Yields.of_maintains (Maintains.update fun _ h ↦ h)) fun _ ↦ Yields.fails ?_
    refine Maintains.attempt (Maintains.bind maintains_true_readTombstones fun file ↦ ?_)
    exact Maintains.ite (maintains_writeFiles fun _ h ↦ h) Maintains.pure

theorem yields_restoreProvider (name : String) (nowMs : ℕ) (hready : before.Ready) :
    Yields (fun s ↦ s = before) (restoreProvider host name nowMs) fun _ s ↦
      before.book.Settles (settled host before).book ∧ s.Ready ∧
      (KeyChange.restore (trimmed name)).Step (settled host before).book s.book := by
  refine Runs.bind (Yields.of_maintains maintains_ensureEditable) fun _ ↦ ?_
  refine recover_bind hready fun hfound ↦ read_bind_eq (check_bind fun _ ↦ ?_)
  refine Runs.bind yields_readTombstones fun file ↦ Runs.ofAnd fun _ ↦ ?_
  refine ofText_bind fun archived _ ↦ check_bind fun _ ↦ ?_
  refine Runs.bind (r := fun _ s ↦ s.Shows (settled host before).book)
    (yields_writeFiles fun s hs ↦ ?_) fun _ ↦ Runs.bind yields_takeTombstone fun taken ↦ ?_
  · subst hs
    exact ⟨hfound, rfl⟩
  refine ofText_bind fun provider hprovider ↦ ?_
  obtain rfl := require_eq_ok.mp hprovider
  refine Runs.bind (r := fun _ s ↦ trimmed name ∈ (settled host before).book.binned ∧
    s.Shows ((settled host before).book.restore (trimmed name)))
    (yields_updateApp fun s hs ↦ ?_) fun _ ↦ ?_
  · obtain ⟨hbin, hs⟩ := hs rfl
    exact ⟨hbin, shows_rebuildRouting (shows_setUpstream hs _ _)⟩
  refine Runs.ofAnd fun hbin ↦ ?_
  refine Yields.attempt_bind yields_observed (fun _ ↦ Runs.pure fun s hs ↦ ?_) fun error ↦ ?_
  · exact ⟨hs.1, hs.2 ▸ .restore hbin⟩
  · refine Runs.bind (Yields.of_maintains (Maintains.update fun _ h ↦ h)) fun _ ↦ Yields.fails ?_
    refine Maintains.attempt (Maintains.bind maintains_true_readTombstones fun file ↦ ?_)
    exact Maintains.bind Maintains.ofResult fun _ ↦ maintains_writeFiles fun _ h ↦ h

end Commands

end TokenStation
