import TokenStation.Client.Desktop

/-!
# Saving is atomic

`saveDraft` changes two files. If it succeeds, the configuration is the new one and the entered keys
are in the secrets; if it fails, both are as they were when the secrets were locked, unless taking
the keys back failed too, which its error says. Other processes' entries are what those processes
leave when they run alone: `saveDraft_atomic`.
-/

namespace TokenStation

open Library Command

/-! ## What other processes leave -/

/-- The entry of a secrets file. -/
def entryOf (file : SecretsFile) (key : String) : Option String :=
  match loadStore file with
  | .ok map => map.lookup key
  | .error _ => none

/-- The last of the updates to an entry decides its value. -/
def lastWritten (updates : List SecretUpdate) (key : String) (value : Option String) :
    Option String :=
  updates.foldl (fun value update ↦ if update.key = key then update.value else value) value

/-- Other processes alone, one after the other. -/
def runOthers (batches : List (List SecretUpdate)) (file : SecretsFile) : SecretsFile :=
  batches.foldl (fun file batch ↦ applyBatch batch file) file

theorem lookup_applyUpdates (updates : List SecretUpdate) (key : String) (map : Secrets) :
    (applyUpdates updates map).lookup key = lastWritten updates key (map.lookup key) := by
  induction updates generalizing map with
  | nil => rfl
  | cons update rest ih =>
    have hone : (update.apply map).lookup key =
        if update.key = key then update.value else map.lookup key := by
      rcases hvalue : update.value with - | value
      · rw [SecretUpdate.apply, hvalue]
        by_cases hkey : update.key = key
        · rw [if_pos hkey, hkey]
          exact Finmap.lookup_erase key map
        · rw [if_neg hkey]
          exact Finmap.lookup_erase_ne (Ne.symm hkey)
      · rw [SecretUpdate.apply, hvalue]
        by_cases hkey : update.key = key
        · rw [if_pos hkey, hkey]
          exact Finmap.lookup_insert map
        · rw [if_neg hkey]
          exact Finmap.lookup_insert_of_ne map (Ne.symm hkey)
    rw [applyUpdates, List.foldl_cons, ← applyUpdates, ih, hone]
    rfl

/-- A file that can be loaded holds the updated map afterwards; another one is left. -/
theorem loadStore_applyBatch {batch : List SecretUpdate} {file : SecretsFile} {map : Secrets}
    (h : loadStore file = .ok map) :
    loadStore (applyBatch batch file) = .ok (applyUpdates batch map) := by
  rcases batch with - | ⟨update, rest⟩
  · simp [applyBatch, mutateStore, h, applyUpdates]
  · simp only [applyBatch, mutateStore, h, writeStore, List.isEmpty_cons, Bool.not_false, if_true]
    rfl

/-- Two files with the same entries off some keys. -/
def AgreeOff (keys : Set String) (file file' : SecretsFile) : Prop :=
  file = file' ∨ ∃ map map', loadStore file = .ok map ∧ loadStore file' = .ok map' ∧
    ∀ key, key ∉ keys → map.lookup key = map'.lookup key

namespace AgreeOff

variable {keys keys' : Set String} {file file' file'' : SecretsFile}

theorem entryOf_eq (h : AgreeOff keys file file') {key : String} (hkey : key ∉ keys) :
    entryOf file key = entryOf file' key := by
  rcases h with rfl | ⟨map, map', hload, hload', hsame⟩
  · rfl
  · rw [entryOf, entryOf, hload, hload']
    exact hsame key hkey

theorem mono (h : AgreeOff keys file file') (hsub : keys ⊆ keys') : AgreeOff keys' file file' := by
  rcases h with rfl | ⟨map, map', hload, hload', hsame⟩
  · exact .inl rfl
  · exact .inr ⟨map, map', hload, hload', fun key hkey ↦ hsame key fun hmem ↦ hkey (hsub hmem)⟩

theorem trans (h : AgreeOff keys file file') (h' : AgreeOff keys file' file'') :
    AgreeOff keys file file'' := by
  rcases h with rfl | ⟨map, middle, hload, hmiddle, hsame⟩
  · exact h'
  rcases h' with rfl | ⟨middle', map', hmiddle', hload', hsame'⟩
  · exact .inr ⟨map, middle, hload, hmiddle, hsame⟩
  · obtain rfl := Except.ok.inj (hmiddle.symm.trans hmiddle')
    exact .inr ⟨map, map', hload, hload', fun key hkey ↦ (hsame key hkey).trans (hsame' key hkey)⟩

/-- Others do the same to both. -/
theorem applyBatch (h : AgreeOff keys file file') (batch : List SecretUpdate) :
    AgreeOff keys (TokenStation.applyBatch batch file) (TokenStation.applyBatch batch file') := by
  rcases h with rfl | ⟨map, map', hload, hload', hsame⟩
  · exact .inl rfl
  · refine .inr ⟨_, _, loadStore_applyBatch hload, loadStore_applyBatch hload', fun key hkey ↦ ?_⟩
    rw [lookup_applyUpdates, lookup_applyUpdates, hsame key hkey]

theorem runOthers (h : AgreeOff keys file file') (batches : List (List SecretUpdate)) :
    AgreeOff keys (TokenStation.runOthers batches file)
      (TokenStation.runOthers batches file') := by
  induction batches generalizing file file' with
  | nil => exact h
  | cons batch rest ih => exact ih (h.applyBatch batch)

end AgreeOff

/-- The entry of a file that can be loaded, after others ran. -/
theorem entryOf_runOthers {batches : List (List SecretUpdate)} {file : SecretsFile} {map : Secrets}
    (h : loadStore file = .ok map) (key : String) :
    entryOf (runOthers batches file) key = lastWritten batches.flatten key (map.lookup key) := by
  induction batches generalizing file map with
  | nil => rw [runOthers, List.foldl_nil, entryOf, h, List.flatten_nil, lastWritten,
      List.foldl_nil]
  | cons batch rest ih =>
    rw [runOthers, List.foldl_cons, ← runOthers, ih (loadStore_applyBatch h), lookup_applyUpdates,
      List.flatten_cons, lastWritten, lastWritten, lastWritten, List.foldl_append]

/-! ## What the steps of a save do

Only a part of the state matters: the entered keys, the removals that wait, and two of the files.
-/

structure SaveView where
  pending : AList fun _ : String ↦ String
  removals : AList fun _ : String ↦ Unit
  config : StoredFile ClientConfig
  secrets : SecretsFile
  others : List (List SecretUpdate)

def DesktopState.view (s : DesktopState) : SaveView where
  pending := s.app.pendingProviderKeys
  removals := s.app.pendingProviderKeyRemovals
  config := s.files.config
  secrets := s.files.secrets
  others := s.others

namespace SaveView

/-- After what others did before the lock was taken. -/
def locked (v : SaveView) : SaveView :=
  { v with secrets := applyBatch (v.others.headD []) v.secrets, others := v.others.tail }

def entries (v : SaveView) : List (String × String) :=
  (ClientConfig.members v.pending).map fun entry ↦ (storeKey entry.1 "provider_api_key", entry.2)

end SaveView

/-! ### Counting what others did -/

@[simp] theorem applyBatch_nil (file : SecretsFile) : applyBatch [] file = file := by
  rw [applyBatch, mutateStore]
  split <;> rfl

theorem runOthers_take_succ (others : List (List SecretUpdate)) (k : ℕ) (file : SecretsFile) :
    runOthers (others.take (k + 1)) file =
      runOthers (others.tail.take k) (applyBatch (others.headD []) file) := by
  rcases others with - | ⟨batch, rest⟩
  · simp [runOthers]
  · rfl

theorem SaveView.locked_secrets (v : SaveView) :
    v.locked.secrets = runOthers (v.others.take 1) v.secrets := by
  rw [runOthers_take_succ, List.take_zero]
  rfl

/-- The program was told that a call failed; it did not crash. -/
def Reported (stop : Stop DesktopError) : Prop := ∃ text, stop = .failed (.message text)

section Steps

variable {v : SaveView}

/-- Every fate but a crash. -/
abbrev NoCrash (fate : Fate) : Prop := fate ≠ .crashes

theorem runs_call_view {α : Type}
    {run : Option String → DesktopState → Except DesktopError α × DesktopState}
    {q : α → SaveView → Prop} {e : SaveView → Prop}
    (h : ∀ s fault, s.view = v → Ends (fun a now ↦ q a now.view)
      (fun error now ↦ (∃ text, error = .message text) ∧ e now.view)
      (run fault s).1 (run fault s).2) :
    Runs NoCrash (fun s ↦ s.view = v) (Program.call run) (fun a s ↦ q a s.view)
      fun stop s ↦ Reported stop ∧ e s.view := by
  refine Runs.call (fun s fault hs _ ↦ ?_) fun hcrash ↦ absurd rfl hcrash
  have hends := h s fault hs
  rcases hresult : (run fault s).1 with error | a
  · rw [hresult] at hends
    obtain ⟨⟨text, rfl⟩, he⟩ := hends
    exact ⟨⟨text, rfl⟩, he⟩
  · rw [hresult] at hends
    exact hends

/-- A computed result leaves the state. -/
theorem runs_ofText {α : Type} {p : DesktopState → Prop} {result : Except String α} :
    Runs NoCrash p (ofText result) (fun a s ↦ result = .ok a ∧ p s)
      fun stop s ↦ Reported stop ∧ p s := by
  rcases result with error | a
  · exact Runs.fail fun s hs ↦ ⟨⟨error, rfl⟩, hs⟩
  · exact Runs.pure fun s hs ↦ ⟨rfl, hs⟩

theorem runs_lockStore :
    Runs NoCrash (fun s ↦ s.view = v) lockStore
      (fun map s ↦ loadStore v.locked.secrets = .ok map ∧ s.view = v.locked)
      fun stop s ↦ Reported stop ∧ s.view = v.locked := by
  refine Runs.bind (r := fun _ s ↦ s.view = v.locked) (Runs.update fun s hs ↦ ?_) fun _ ↦ ?_
  · rw [← hs]
    rfl
  refine Runs.bind (r := fun _ s ↦ s.view = v.locked) ?_ fun _ ↦ ?_
  · refine runs_call_view (q := fun _ now ↦ now = v.locked) (e := fun now ↦ now = v.locked)
      fun s fault hs ↦ ?_
    rcases fault with - | error
    · exact hs
    · exact ⟨⟨error, rfl⟩, hs⟩
  refine Runs.read_bind fun s hs ↦ ?_
  refine Runs.weaken runs_ofText (fun _ hnow ↦ hnow) (fun map now hnow ↦ ?_)
    fun stop now hnow ↦ ?_
  · obtain ⟨hload, rfl⟩ := hnow
    rw [← hs]
    exact ⟨hload, rfl⟩
  · exact ⟨hnow.1, hnow.2 ▸ hs⟩

theorem runs_persist {map : Secrets} :
    Runs NoCrash (fun s ↦ s.view = v) (persist map)
      (fun _ s ↦ s.view = { v with secrets := .holds map })
      fun stop s ↦ Reported stop ∧ s.view = v := by
  refine runs_call_view (q := fun _ now ↦ now = { v with secrets := .holds map })
    (e := fun now ↦ now = v) fun s fault hs ↦ ?_
  subst hs
  rcases fault with - | error
  · rfl
  · exact ⟨⟨_, rfl⟩, rfl⟩

theorem runs_saveConfig {host : DesktopHost} {config : ClientConfig} :
    Runs NoCrash (fun s ↦ s.view = v) (saveConfig host config)
      (fun _ s ↦ s.view = { v with config := .holds config })
      fun stop s ↦ Reported stop ∧ s.view = v := by
  refine Runs.bind runs_ofText fun _ ↦ Runs.ofAnd fun _ ↦ ?_
  refine runs_call_view (q := fun _ now ↦ now = { v with config := .holds config })
    (e := fun now ↦ now = v) fun s fault hs ↦ ?_
  subst hs
  rcases fault with - | error
  · rfl
  · exact ⟨⟨_, rfl⟩, rfl⟩

/-- A handled call: what follows it knows how it ended. -/
theorem runs_attempt_bind {α β : Type} {m : Command α} {f : Except DesktopError α → Command β}
    {p r : DesktopState → Prop} {q : α → DesktopState → Prop} {Q : β → DesktopState → Prop}
    {E : Stop DesktopError → DesktopState → Prop}
    (hm : Runs NoCrash p m q fun stop s ↦ Reported stop ∧ r s)
    (hok : ∀ a, Runs NoCrash (q a) (f (.ok a)) Q E)
    (herror : ∀ text, Runs NoCrash r (f (.error (.message text))) Q E) :
    Runs NoCrash p (Program.attempt m >>= f) Q E := by
  refine Runs.bind (hm.attempt.weaken (fun _ h ↦ h) (fun _ _ h ↦ h) ?_) fun result ↦ ?_
  · rintro stop s ⟨rfl, ⟨text, hstop⟩, -⟩
    nomatch hstop
  rcases result with error | a
  · refine Runs.weaken (p := fun s ↦ Reported (.failed error) ∧ r s) (Runs.ofAnd ?_)
      (fun _ h ↦ h) (fun _ _ h ↦ h) fun _ _ h ↦ h
    rintro ⟨text, hmessage⟩
    obtain rfl := Stop.failed.inj hmessage
    exact herror text
  · exact hok a

/-- After an error the keys are taken back, or that fails too. -/
theorem runs_rollBack {restored : Secrets} {text : String} :
    Runs NoCrash (fun s ↦ s.view = v) (rollBack restored (.message text)) (fun _ _ ↦ False)
      fun stop s ↦ stop = .failed (.message text) ∧ s.view = { v with secrets := .holds restored } ∨
        (∃ text rollbackError, stop = .failed (.unrestored text rollbackError)) ∧ s.view = v :=
  runs_attempt_bind runs_persist (fun _ ↦ Runs.fail fun _ hs ↦ .inl ⟨rfl, hs⟩)
    fun _ ↦ Runs.fail fun _ hs ↦ .inr ⟨⟨_, _, rfl⟩, hs⟩

/-! ### The section under the lock -/

theorem lookup_restorePrevious (previous : Secrets) (keys : List String) (map : Secrets)
    (key : String) : (restorePrevious previous keys map).lookup key =
      if key ∈ keys then previous.lookup key else map.lookup key := by
  induction keys generalizing map with
  | nil => simp [restorePrevious]
  | cons first rest ih =>
    rw [restorePrevious, List.foldl_cons, ← restorePrevious, ih]
    by_cases hrest : key ∈ rest
    · rw [if_pos hrest, if_pos (List.mem_cons_of_mem _ hrest)]
    rw [if_neg hrest]
    by_cases hfirst : key = first
    · subst hfirst
      rw [if_pos List.mem_cons_self]
      rcases previous.lookup key with - | value
      · exact Finmap.lookup_erase key map
      · exact Finmap.lookup_insert map
    · rw [if_neg (by simp [hfirst, hrest])]
      rcases previous.lookup first with - | value
      · exact Finmap.lookup_erase_ne hfirst
      · exact Finmap.lookup_insert_of_ne map hfirst

/-- Taking the keys back gives the map as it was loaded. -/
theorem restorePrevious_insertAll (map : Secrets) (entries : List (String × String)) :
    restorePrevious map (entries.map Prod.fst) (insertAll map entries) = map := by
  refine Finmap.ext_lookup fun key ↦ ?_
  rw [lookup_restorePrevious]
  split
  · rfl
  next hkey => exact lookup_insertAll_of_notMem hkey

/-- Both files are changed, or none of them, or the keys could not be taken back. -/
theorem runs_savePendingKeys {host : DesktopHost} {config : ClientConfig} :
    Runs NoCrash (fun s ↦ s.view = v) (savePendingKeys host config)
      (fun _ s ↦ ∃ map, loadStore v.locked.secrets = .ok map ∧ s.view = { v.locked with
        secrets := .holds (insertAll map v.entries), config := .holds config })
      fun stop s ↦ Reported stop ∧ s.view.config = v.config ∧ s.view.pending = v.pending ∧
          s.view.others = v.locked.others ∧
          loadStore s.view.secrets = loadStore v.locked.secrets ∨
        (∃ text rollbackError, stop = .failed (.unrestored text rollbackError)) ∧
          s.view.config = v.config ∧ s.view.pending = v.pending ∧
          s.view.others = v.locked.others ∧ (s.view.secrets = v.locked.secrets ∨
            ∃ map, loadStore v.locked.secrets = .ok map ∧
              s.view.secrets = .holds (insertAll map v.entries)) := by
  refine Runs.bind (runs_lockStore.weaken (fun _ h ↦ h) (fun _ _ h ↦ h) ?_) fun map ↦ ?_
  · rintro stop s ⟨hstop, hs⟩
    refine .inl ⟨hstop, ?_⟩
    rw [hs]
    exact ⟨rfl, rfl, rfl, rfl⟩
  refine Runs.ofAnd fun hload ↦ Runs.read_bind fun s hs ↦ ?_
  have hentries : keyEntries s.app = v.entries := by
    rw [SaveView.entries, show v.pending = s.app.pendingProviderKeys from
      (congrArg SaveView.pending hs).symm]
    rfl
  rw [hentries]
  dsimp only
  rw [restorePrevious_insertAll]
  refine Runs.weaken (p := fun now ↦ now.view = v.locked) ?_ (fun now hnow ↦ hnow ▸ hs)
    (fun _ _ h ↦ h) fun _ _ h ↦ h
  refine runs_attempt_bind runs_persist (fun _ ↦ ?_) fun text ↦ ?_
  · refine runs_attempt_bind runs_saveConfig (fun _ ↦ ?_) fun text ↦ ?_
    · exact Runs.pure fun now hnow ↦ ⟨map, hload, hnow⟩
    · -- the keys were written, the configuration was not
      refine runs_rollBack.weaken (fun _ h ↦ h) (fun _ _ h ↦ h.elim) fun stop now hnow ↦ ?_
      rcases hnow with ⟨rfl, hnow⟩ | ⟨hstop, hnow⟩
      · refine .inl ⟨⟨text, rfl⟩, ?_⟩
        rw [hnow]
        exact ⟨rfl, rfl, rfl, hload.symm⟩
      · refine .inr ⟨hstop, ?_⟩
        rw [hnow]
        exact ⟨rfl, rfl, rfl, .inr ⟨map, hload, rfl⟩⟩
  · -- the keys were not written
    refine runs_rollBack.weaken (fun _ h ↦ h) (fun _ _ h ↦ h.elim) fun stop now hnow ↦ ?_
    rcases hnow with ⟨rfl, hnow⟩ | ⟨hstop, hnow⟩
    · refine .inl ⟨⟨text, rfl⟩, ?_⟩
      rw [hnow]
      exact ⟨rfl, rfl, rfl, hload.symm⟩
    · refine .inr ⟨hstop, ?_⟩
      rw [hnow]
      exact ⟨rfl, rfl, rfl, .inl rfl⟩

/-! ### After the configuration was replaced -/

/-- The keys of these providers' entries. -/
def keysOf (names : List String) : Set String :=
  {key | ∃ name ∈ names, key = storeKey name "provider_api_key"}

/-- Removing a provider's key changes no other entry, whether it succeeds or not. -/
theorem runs_storeRemove {upstream : String} :
    Runs NoCrash (fun s ↦ s.view = v) (Command.storeRemove upstream "provider_api_key")
      (fun _ s ↦ ∃ secrets, s.view = { v.locked with secrets } ∧
        AgreeOff (keysOf [upstream]) secrets v.locked.secrets)
      fun stop s ↦ Reported stop ∧ ∃ secrets, s.view = { v.locked with secrets } ∧
        AgreeOff (keysOf [upstream]) secrets v.locked.secrets := by
  refine Runs.bind (runs_lockStore.weaken (fun _ h ↦ h) (fun _ _ h ↦ h) ?_) fun map ↦ ?_
  · rintro stop s ⟨hstop, hs⟩
    exact ⟨hstop, _, hs, .inl rfl⟩
  refine Runs.ofAnd fun hload ↦ Runs.ite (fun _ ↦ ?_) fun _ ↦ Runs.pure fun s hs ↦ ?_
  · refine runs_persist.weaken (fun _ h ↦ h) (fun _ s hs ↦ ⟨_, hs, .inr ⟨_, map, rfl, hload, ?_⟩⟩)
      fun stop s hs ↦ ⟨hs.1, _, hs.2, .inl rfl⟩
    intro key hkey
    refine Finmap.lookup_erase_ne fun heq ↦ hkey ?_
    exact ⟨upstream, List.mem_cons_self, heq⟩
  · exact ⟨_, hs, .inl rfl⟩

/-- The removal pass: a number of sections, between which others run. -/
theorem runs_removeKeysOf (names : List String) {v : SaveView} :
    Runs NoCrash (fun s ↦ s.view = v) (removeKeysOf names)
      (fun _ s ↦ ∃ k removals secrets, s.view = { v with
          removals, secrets, others := v.others.drop k } ∧
        AgreeOff (keysOf names) secrets (runOthers (v.others.take k) v.secrets))
      fun _ _ ↦ False := by
  induction names generalizing v with
  | nil =>
    refine Runs.pure fun s hs ↦ ⟨0, v.removals, v.secrets, ?_, .inl rfl⟩
    rw [hs]
    rfl
  | cons upstream rest ih =>
    -- what is left to do after one section
    have hrest : ∀ {w : SaveView} {removals secrets}, w = { v.locked with removals, secrets } →
        AgreeOff (keysOf [upstream]) secrets v.locked.secrets →
        Runs NoCrash (fun s ↦ s.view = w) (removeKeysOf rest)
          (fun _ s ↦ ∃ k removals secrets, s.view = { v with
              removals, secrets, others := v.others.drop k } ∧
            AgreeOff (keysOf (upstream :: rest)) secrets
              (runOthers (v.others.take k) v.secrets)) fun _ _ ↦ False := by
      rintro w removals secrets rfl hagree
      refine ih.weaken (fun _ h ↦ h) (fun _ s hs ↦ ?_) fun _ _ h ↦ h
      obtain ⟨k, removals', secrets', hs, hagree'⟩ := hs
      refine ⟨k + 1, removals', secrets', ?_, ?_⟩
      · rw [hs, SaveView.locked, List.drop_tail]
      · rw [runOthers_take_succ]
        refine (hagree'.mono ?_).trans ((hagree.runOthers _).mono ?_)
        · rintro key ⟨name, hname, rfl⟩
          exact ⟨name, List.mem_cons_of_mem _ hname, rfl⟩
        · rintro key ⟨name, hname, rfl⟩
          exact ⟨name, List.mem_singleton.mp hname ▸ List.mem_cons_self, rfl⟩
    have heach : ∀ {f : Command Unit} {Q : Unit → DesktopState → Prop},
        (∀ secrets, AgreeOff (keysOf [upstream]) secrets v.locked.secrets →
          Runs NoCrash (fun s ↦ s.view = { v.locked with secrets }) f Q fun _ _ ↦ False) →
        Runs NoCrash (fun s ↦ ∃ secrets, s.view = { v.locked with secrets } ∧
          AgreeOff (keysOf [upstream]) secrets v.locked.secrets) f Q fun _ _ ↦ False :=
      fun h ↦ Runs.ofExists fun secrets ↦ Runs.weaken (Runs.ofAnd (h secrets))
        (fun _ hs ↦ hs.symm) (fun _ _ h ↦ h) fun _ _ h ↦ h
    refine runs_attempt_bind runs_storeRemove (fun _ ↦ heach fun secrets hagree ↦ ?_) fun text ↦
      heach fun secrets hagree ↦ @hrest _ v.locked.removals _ rfl hagree
    refine Runs.bind (r := fun _ now ↦ now.view = { v.locked with
        removals := v.locked.removals.erase upstream, secrets })
      (Runs.update fun now hnow ↦ ?_) fun _ ↦ hrest rfl hagree
    have hremovals := congrArg SaveView.removals hnow
    have hpending := congrArg SaveView.pending hnow
    have hconfig := congrArg SaveView.config hnow
    have hsecrets := congrArg SaveView.secrets hnow
    have hothers := congrArg SaveView.others hnow
    simp only [DesktopState.view] at hremovals hpending hconfig hsecrets hothers ⊢
    rw [hremovals, hpending, hconfig, hsecrets, hothers]

/-! ### Steps that touch neither file -/

section Frames

variable {host : DesktopHost} {draft : JsonValue}

/-- A call on the identities of the contents. -/
theorem runs_configCall {α : Type}
    {f : Option String → DesktopState → Except String α × ConfigState × Option RevisionLedger} :
    Runs NoCrash (fun s ↦ s.view = v) (Program.call fun fault s ↦
        let (outcome, configState, sidecar) := f fault s
        (outcome.mapError DesktopError.message, { s with
          app := { s.app with configState }
          files := { s.files with sidecar } }))
      (fun _ s ↦ s.view = v) fun stop s ↦ Reported stop ∧ s.view = v := by
  refine runs_call_view (q := fun _ now ↦ now = v) (e := fun now ↦ now = v) fun s fault hs ↦ ?_
  rcases f fault s with ⟨error | a, configState, sidecar⟩
  · exact ⟨⟨error, rfl⟩, hs⟩
  · exact hs

theorem runs_prepareSave :
    Runs NoCrash (fun s ↦ s.view = v) (prepareSave host draft) (fun _ s ↦ s.view = v)
      fun stop s ↦ Reported stop ∧ s.view = v :=
  Runs.bind runs_configCall fun _ ↦ runs_configCall

theorem runs_finishSave :
    Runs NoCrash (fun s ↦ s.view = v) (finishSave draft) (fun _ s ↦ s.view = v)
      fun stop s ↦ Reported stop ∧ s.view = v :=
  runs_configCall (f := fun fault s ↦
    s.app.configState.finishSave draft fault.isNone s.files.sidecar)

theorem runs_discardTombstone {name : String} :
    Runs NoCrash (fun s ↦ s.view = v) (discardTombstone name) (fun _ s ↦ s.view = v)
      fun stop s ↦ Reported stop ∧ s.view = v := by
  refine Runs.bind (r := fun _ s ↦ s.view = v) (Runs.read_bind fun s hs ↦ ?_) fun file ↦ ?_
  · exact runs_ofText.weaken (fun _ h ↦ h) (fun _ _ h ↦ h.2 ▸ hs) fun _ _ h ↦ ⟨h.1, h.2 ▸ hs⟩
  refine Runs.ite (fun _ ↦ ?_) fun _ ↦ Runs.pure fun _ h ↦ h
  rw [persistTombstones, writeFiles]
  refine runs_call_view (q := fun _ now ↦ now = v) (e := fun now ↦ now = v) fun s fault hs ↦ ?_
  rcases fault with - | error
  · exact hs
  · exact ⟨⟨_, rfl⟩, hs⟩

theorem runs_discardTombstones (names : List String) :
    Runs NoCrash (fun s ↦ s.view = v) (discardTombstones names) (fun _ s ↦ s.view = v)
      fun _ _ ↦ False := by
  induction names with
  | nil => exact Runs.pure fun _ h ↦ h
  | cons name rest ih => exact runs_attempt_bind runs_discardTombstone (fun _ ↦ ih) fun _ ↦ ih

end Frames

end Steps

/-! ## Atomicity -/

/-- The names in an ordered map of the state. -/
abbrev namesOf {α : Type} (map : AList fun _ : String ↦ α) : List String :=
  (ClientConfig.members map).map Prod.fst

theorem mem_namesOf {α : Type} {map : AList fun _ : String ↦ α} {name : String} :
    name ∈ namesOf map ↔ ∃ value, map.lookup name = some value := by
  rw [namesOf, List.mem_map]
  constructor
  · rintro ⟨⟨key, value⟩, hmem, rfl⟩
    exact ⟨value, ClientConfig.mem_members.mp hmem⟩
  · rintro ⟨value, hlookup⟩
    exact ⟨(name, value), ClientConfig.mem_members.mpr hlookup, rfl⟩

/-- What a save does to the two files, when other processes change the secrets `k` times before one
of its sections: the first time, if at all, before the keys are written. -/
structure SavesAtomically (host : DesktopHost) (before : DesktopState)
    (outcome : Except (Stop DesktopError) UInt64) (after : DesktopState) (k : ℕ) : Prop where
  others : after.others = before.others.drop k
  committed : ∀ revision, outcome = .ok revision → ∃ config,
    materializeDraft host before.app.draft = .ok config ∧ after.files.config = .holds config
  /-- An entered key is stored, and then it is what other processes leave of it. -/
  stores : ∀ revision, outcome = .ok revision → ∀ upstream value,
    before.app.pendingProviderKeys.lookup upstream = some value →
    before.app.pendingProviderKeyRemovals.lookup upstream = none →
      stored after.files.secrets upstream "provider_api_key" =
        lastWritten ((before.others.take k).drop 1).flatten
          (storeKey upstream "provider_api_key") (some value)
  /-- An error leaves the configuration. -/
  unchanged : ∀ stop, outcome = .error stop → after.files.config = before.files.config
  /-- Unless it says that the keys could not be taken back, it leaves the secrets as they were
  when they were locked. -/
  restored : ∀ text, outcome = .error (.failed (.message text)) → k ≤ 1 ∧
    loadStore after.files.secrets =
      loadStore (runOthers (before.others.take k) before.files.secrets)
  /-- Every other entry is what other processes leave. -/
  kept : ∀ key, key ∉ keysOf (namesOf before.app.pendingProviderKeys) →
    key ∉ keysOf (namesOf before.app.pendingProviderKeyRemovals) →
      entryOf after.files.secrets key =
        entryOf (runOthers (before.others.take k) before.files.secrets) key
  cleared : after.app.pendingProviderKeys =
    if outcome.isOk then ∅ else before.app.pendingProviderKeys

namespace SaveView

/-- What is seen after a save that returned. -/
structure Saved (v : SaveView) (config : ClientConfig) (k : ℕ) (w : SaveView) : Prop where
  config : w.config = .holds config
  others : w.others = v.others.drop k
  stores : ∀ upstream value, v.pending.lookup upstream = some value →
    v.removals.lookup upstream = none →
      entryOf w.secrets (storeKey upstream "provider_api_key") =
        lastWritten ((v.others.take k).drop 1).flatten (storeKey upstream "provider_api_key")
          (some value)
  kept : ∀ key, key ∉ keysOf (namesOf v.pending) → key ∉ keysOf (namesOf v.removals) →
    entryOf w.secrets key = entryOf (runOthers (v.others.take k) v.secrets) key

/-- What is seen after a save that failed. -/
structure Unsaved (v : SaveView) (stop : Stop DesktopError) (k : ℕ) (w : SaveView) : Prop where
  config : w.config = v.config
  pending : w.pending = v.pending
  others : w.others = v.others.drop k
  restored : ∀ text, stop = .failed (.message text) → k ≤ 1 ∧
    loadStore w.secrets = loadStore (runOthers (v.others.take k) v.secrets)
  kept : ∀ key, key ∉ keysOf (namesOf v.pending) →
    entryOf w.secrets key = entryOf (runOthers (v.others.take k) v.secrets) key

variable {v : SaveView}

/-- An error before the secrets were locked. -/
theorem unsaved_of_eq {stop : Stop DesktopError} {w : SaveView} (h : w = v) :
    Unsaved v stop 0 w := by
  subst h
  exact ⟨rfl, rfl, rfl, fun _ _ ↦ ⟨Nat.zero_le _, rfl⟩, fun _ _ ↦ rfl⟩

theorem keysOf_entries : {key | key ∈ v.entries.map Prod.fst} = keysOf (namesOf v.pending) := by
  ext key
  simp only [entries, List.map_map, keysOf, namesOf, Set.mem_ofPred_eq, List.mem_map]
  constructor
  · rintro ⟨entry, hentry, rfl⟩
    exact ⟨entry.1, ⟨entry, hentry, rfl⟩, rfl⟩
  · rintro ⟨name, ⟨entry, hentry, rfl⟩, rfl⟩
    exact ⟨entry, hentry, rfl⟩

theorem storeKey_injective {slot : String} : Function.Injective fun name ↦ storeKey name slot := by
  intro name other heq
  have htext := congrArg String.toList heq
  simp only [storeKey, String.toList_append, List.append_cancel_right_eq] at htext
  exact String.toList_injective htext

/-- Writing the entered keys writes each of them, and no other entry. -/
theorem lookup_entries {map : Secrets} {upstream value : String}
    (h : v.pending.lookup upstream = some value) :
    (insertAll map v.entries).lookup (storeKey upstream "provider_api_key") = some value := by
  refine lookup_insertAll ?_ fun other hother ↦ ?_
  · exact List.mem_map.mpr ⟨(upstream, value), ClientConfig.mem_members.mpr h, rfl⟩
  · obtain ⟨⟨name, found⟩, hmem, heq⟩ := List.mem_map.mp hother
    obtain ⟨hkey, rfl⟩ := Prod.mk.inj heq
    obtain rfl := storeKey_injective hkey
    exact Option.some.inj ((ClientConfig.mem_members.mp hmem).symm.trans h)

theorem agreeOff_insertAll {map : Secrets} {file : SecretsFile} (h : loadStore file = .ok map) :
    AgreeOff (keysOf (namesOf v.pending)) (.holds (insertAll map v.entries)) file := by
  refine .inr ⟨_, map, rfl, h, fun key hkey ↦ lookup_insertAll_of_notMem fun hmem ↦ hkey ?_⟩
  rw [← keysOf_entries]
  exact hmem

end SaveView

section Save

variable {v : SaveView} {host : DesktopHost} {config : ClientConfig}

/-- The two files before the removal pass. -/
theorem runs_replaceFiles :
    Runs NoCrash (fun s ↦ s.view = v) (replaceFiles host config)
      (fun _ s ↦ v.pending.entries = [] ∧ s.view = { v with config := .holds config } ∨
        ∃ map, loadStore v.locked.secrets = .ok map ∧ s.view = { v.locked with
          secrets := .holds (insertAll map v.entries), config := .holds config })
      fun stop s ↦ ∃ k, stop ≠ .crashed ∧ v.Unsaved stop k s.view := by
  refine Runs.read_bind fun s hs ↦ ?_
  subst hs
  refine Runs.ite (fun hnil ↦ ?_) fun _ ↦ ?_
  · refine runs_saveConfig.weaken (fun _ h ↦ congrArg DesktopState.view h)
      (fun _ s hs ↦ .inl ⟨hnil, hs⟩) ?_
    rintro stop s ⟨⟨text, rfl⟩, hs⟩
    exact ⟨0, by simp, SaveView.unsaved_of_eq hs⟩
  refine runs_savePendingKeys.weaken (fun _ h ↦ congrArg DesktopState.view h)
    (fun _ now hnow ↦ .inr hnow) fun stop now hnow ↦ ⟨1, ?_⟩
  have hothers : s.view.locked.others = s.view.others.drop 1 := List.drop_one.symm
  rcases hnow with ⟨⟨text, rfl⟩, hconfig, hpending, hnow, hload⟩ |
    ⟨⟨text, rollbackError, rfl⟩, hconfig, hpending, hnow, hsecrets⟩
  · refine ⟨by simp, hconfig, hpending, hnow.trans hothers, fun _ _ ↦ ⟨le_rfl, ?_⟩,
      fun key _ ↦ ?_⟩
    · rw [hload, SaveView.locked_secrets]
    · rw [entryOf, hload, ← SaveView.locked_secrets, entryOf]
  · refine ⟨by simp, hconfig, hpending, hnow.trans hothers, fun _ h ↦ ?_, fun key hkey ↦ ?_⟩
    · nomatch h
    · rw [← SaveView.locked_secrets]
      rcases hsecrets with hsecrets | ⟨map, hload, hsecrets⟩
      · rw [hsecrets]
      · rw [hsecrets]
        exact (SaveView.agreeOff_insertAll hload).entryOf_eq hkey

/-- The files after the removal pass. -/
theorem saved_of_removed {w : SaveView} {k : ℕ} {removals : AList fun _ : String ↦ Unit}
    {secrets : SecretsFile}
    (hw : v.pending.entries = [] ∧ w = { v with config := .holds config } ∨
      ∃ map, loadStore v.locked.secrets = .ok map ∧ w = { v.locked with
        secrets := .holds (insertAll map v.entries), config := .holds config })
    (hagree : AgreeOff (keysOf (namesOf v.removals)) secrets
      (runOthers (w.others.take k) w.secrets)) :
    ∃ k', v.Saved config k' { w with removals, secrets, others := w.others.drop k } := by
  have hnot : ∀ {upstream}, v.removals.lookup upstream = none →
      storeKey upstream "provider_api_key" ∉ keysOf (namesOf v.removals) := by
    rintro upstream hnone ⟨name, hname, heq⟩
    obtain rfl := SaveView.storeKey_injective heq
    obtain ⟨value, hsome⟩ := mem_namesOf.mp hname
    nomatch hnone.symm.trans hsome
  rcases hw with ⟨hnil, rfl⟩ | ⟨map, hload, rfl⟩
  · refine ⟨k, rfl, rfl, fun upstream value hvalue ↦ ?_, fun key _ hkey ↦ hagree.entryOf_eq hkey⟩
    -- no key was entered
    rw [AList.lookup, hnil] at hvalue
    nomatch hvalue
  · have hdrop : v.locked.others.take k = (v.others.take (k + 1)).drop 1 := by
      rw [SaveView.locked, List.drop_take, List.drop_one, Nat.add_sub_cancel]
    refine ⟨k + 1, rfl, ?_, fun upstream value hvalue hremoval ↦ ?_, fun key hkey hremoval ↦ ?_⟩
    · exact List.drop_tail
    · rw [hagree.entryOf_eq (hnot hremoval), entryOf_runOthers rfl, SaveView.lookup_entries hvalue,
        ← hdrop]
    · rw [hagree.entryOf_eq hremoval, runOthers_take_succ]
      exact ((SaveView.agreeOff_insertAll hload).runOthers _).entryOf_eq hkey

/-- What a save does, seen at its two files. -/
theorem runs_saveDraft (before : DesktopState) :
    Runs NoCrash (fun s ↦ s = before) (saveDraft host)
      (fun _ s ↦ ∃ config k, materializeDraft host before.app.draft = .ok config ∧
        before.view.Saved config k s.view ∧ s.app.pendingProviderKeys = ∅)
      fun stop s ↦ ∃ k, stop ≠ .crashed ∧ before.view.Unsaved stop k s.view := by
  -- an error that is reported before the two files are touched
  have hearly : ∀ {stop : Stop DesktopError} {s : DesktopState},
      Reported stop ∧ s.view = before.view →
        ∃ k, stop ≠ .crashed ∧ before.view.Unsaved stop k s.view := by
    rintro stop s ⟨⟨text, rfl⟩, hs⟩
    exact ⟨0, by simp, SaveView.unsaved_of_eq hs⟩
  refine Runs.bind (r := fun _ s ↦ s = before) (Runs.read_bind fun s hs ↦ ?_) fun _ ↦ ?_
  · subst hs
    rcases s.app.loadError with - | error
    · exact Runs.pure fun _ h ↦ h
    · exact Runs.fail fun now hnow ↦ hearly ⟨⟨error, rfl⟩, congrArg _ hnow⟩
  refine Runs.read_bind fun s hs ↦ ?_
  subst hs
  refine Runs.bind (runs_ofText.weaken (fun _ h ↦ h) (fun _ _ h ↦ h)
    fun stop now hnow ↦ hearly ⟨hnow.1, congrArg _ hnow.2⟩) fun config ↦ ?_
  refine Runs.ofAnd fun hconfig ↦ ?_
  refine Runs.bind (runs_prepareSave.weaken (fun now hnow ↦ congrArg DesktopState.view hnow)
    (fun _ _ h ↦ h) fun _ _ h ↦ hearly h) fun revision ↦ ?_
  refine Runs.bind runs_replaceFiles fun _ ↦ ?_
  -- the removal pass starts from what the two files hold now
  refine Runs.bind (r := fun _ now ↦ ∃ k, s.view.Saved config k now.view)
    (Runs.each fun mid hmid ↦ ?_) fun _ ↦ ?_
  · refine (runs_removeKeysOf _).weaken (fun now hnow ↦ congrArg DesktopState.view hnow)
      (fun _ now hnow ↦ ?_) fun _ _ h ↦ h.elim
    obtain ⟨k, removals, secrets, hnow, hagree⟩ := hnow
    rw [hnow]
    exact saved_of_removed hmid hagree
  have hfinish : Runs NoCrash (fun now ↦ ∃ k, s.view.Saved config k now.view)
      (finishSave s.app.draft) (fun _ now ↦ ∃ k, s.view.Saved config k now.view)
      fun stop now ↦ Reported stop ∧ ∃ k, s.view.Saved config k now.view := by
    refine Runs.each fun now hnow ↦ ?_
    exact runs_finishSave.weaken (fun _ h ↦ congrArg DesktopState.view h) (fun _ _ h ↦ h ▸ hnow)
      fun _ _ h ↦ ⟨h.1, h.2 ▸ hnow⟩
  have hdiscard : ∀ names, Runs NoCrash (fun now ↦ ∃ k, s.view.Saved config k now.view)
      (discardTombstones names) (fun _ now ↦ ∃ k, s.view.Saved config k now.view)
      fun stop now ↦ ∃ k, stop ≠ .crashed ∧ s.view.Unsaved stop k now.view := by
    refine fun names ↦ Runs.each fun now hnow ↦ ?_
    exact (runs_discardTombstones names).weaken (fun _ h ↦ congrArg DesktopState.view h)
      (fun _ _ h ↦ h ▸ hnow) fun _ _ h ↦ h.elim
  have hclear : Runs NoCrash (fun now ↦ ∃ k, s.view.Saved config k now.view)
      (updateApp fun app ↦ { app with pendingProviderKeys := ∅ })
      (fun _ now ↦ (∃ k, s.view.Saved config k now.view) ∧ now.app.pendingProviderKeys = ∅)
      fun stop now ↦ ∃ k, stop ≠ .crashed ∧ s.view.Unsaved stop k now.view := by
    refine Runs.update fun now hnow ↦ ⟨?_, rfl⟩
    obtain ⟨k, hsaved⟩ := hnow
    exact ⟨k, hsaved.config, hsaved.others, hsaved.stores, hsaved.kept⟩
  have hrest := fun names ↦ Runs.bind (hdiscard names) fun _ ↦ Runs.bind hclear fun _ ↦
    Runs.pure (a := revision) (q := fun _ (now : DesktopState) ↦
        ∃ config k, materializeDraft host s.app.draft = .ok config ∧
          s.view.Saved config k now.view ∧ now.app.pendingProviderKeys = ∅)
      fun now ⟨⟨k, hsaved⟩, hcleared⟩ ↦ ⟨config, k, hconfig, hsaved, hcleared⟩
  exact runs_attempt_bind hfinish (fun _ ↦ hrest _) fun _ ↦ hrest _

/-- **Saving is atomic.** Whatever fails and whatever other processes do in between, a save changes
the configuration and the entered keys together, or neither, and no one else's entry. -/
theorem saveDraft_atomic (host : DesktopHost) (before : DesktopState) (fates : List Fate)
    (hcrash : .crashes ∉ fates) :
    ∃ k, SavesAtomically host before (saveDraft host ⟨before, fates⟩).1
      (saveDraft host ⟨before, fates⟩).2.state k := by
  have hends := (@runs_saveDraft host before).ends rfl
    fun fate hfate heq ↦ hcrash (heq ▸ hfate)
  rcases houtcome : (saveDraft host ⟨before, fates⟩).1 with stop | revision
  · rw [houtcome] at hends
    obtain ⟨k, -, h⟩ := hends
    refine ⟨k, h.others, (fun _ h ↦ nomatch h), (fun _ h ↦ nomatch h), fun _ _ ↦ h.config,
      fun text heq ↦ h.restored text (Except.error.inj heq), fun key hkey _ ↦ h.kept key hkey, ?_⟩
    exact h.pending
  · rw [houtcome] at hends
    obtain ⟨config, k, hconfig, h, hcleared⟩ := hends
    refine ⟨k, h.others, fun _ _ ↦ ⟨config, hconfig, h.config⟩, fun _ _ ↦ h.stores,
      (fun _ h ↦ nomatch h), (fun _ h ↦ nomatch h), h.kept, hcleared⟩

end Save

/-! ### A rotated key -/

def savingHost : DesktopHost where
  hash _ := ""
  parsers := loopbackParsers
  fromValue _ := .ok proxiedConfig
  presets := []
  storedModels _ _ := .ok ()
  configPath := "token-station.json"

/-- A key was entered for an upstream whose stored key another process is about to rotate. -/
def enteredDesktop : DesktopState where
  app :=
    { draft := .object [("upstreams", .object [("cloud", .object [])])]
      configState := ⟨.null, .null, "", "", 0, 0, {}⟩
      pendingProviderKeys := AList.singleton "cloud" "entered" }
  files := { secrets := .holds (.singleton "cloud/provider_api_key" "old") }
  others := [[⟨"cloud/provider_api_key", some "rotated"⟩]]

/-- The configuration cannot be written. -/
def fullDisk : List Fate := [.succeeds, .succeeds, .succeeds, .succeeds, .fails "disk full"]

/-- The rotated key is taken back, not the one before. -/
theorem saveDraft_atomic_rotated :
    stored (saveDraft savingHost ⟨enteredDesktop, fullDisk⟩).2.state.files.secrets "cloud"
      "provider_api_key" = some "rotated" := by
  obtain ⟨k, h⟩ := saveDraft_atomic savingHost enteredDesktop fullDisk (by decide)
  have houtcome : (saveDraft savingHost ⟨enteredDesktop, fullDisk⟩).1 =
      .error (.failed (.message "写配置失败: token-station.json: disk full")) := by rfl
  have hothers : (saveDraft savingHost ⟨enteredDesktop, fullDisk⟩).2.state.others = [] := by rfl
  obtain ⟨hle, hload⟩ := h.restored _ houtcome
  obtain rfl : k = 1 := by
    have hlength := congrArg List.length (hothers.symm.trans h.others)
    simp only [List.length_nil, List.length_drop, enteredDesktop, List.length_singleton] at hlength
    omega
  rw [stored, hload]
  decide

end TokenStation
