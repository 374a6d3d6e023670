import Mathlib.Order.CompletePartialOrder
import TokenStation.Client.LastKey
import TokenStation.Library.Runs

/-!
# Purges that are cut short

A purge of the recycle bin changes four files, and it may be cut short before any of its writes,
or one of them may fail. Its journal is written first and removed last. In between the bin is
emptied with one write, so the providers that the journal names are all in the bin, or none of them
is: the first purge after a restart can tell which.

`PurgeAttempts`: any number of purges, each by an application that was just started, each under
its own schedule of failures and ended by any crash. What one of them leaves is `Purged`, and
`Purged` is transitive.
-/

namespace TokenStation

open Library JsonValue Command

namespace DesktopState

/-- The key of a provider, or why the store cannot be read. -/
def key (s : DesktopState) (name : String) : Except String (Option String) :=
  (loadStore s.files.secrets).map fun map ↦ map.lookup (storeKey name "provider_api_key")

/-- The providers that the journal names. -/
def journaled (s : DesktopState) : Set String :=
  {name | ∃ pending, s.files.purge = .holds pending ∧ name ∈ pending.providers}

/-- The journal was written and its purge has not happened, or it has. -/
def Coherent (s : DesktopState) : Prop :=
  s.journaled ⊆ s.book.binned ∨ Disjoint s.journaled s.book.binned

/-- No other process changes the secrets, and no key waits for a save. -/
def Quiet (s : DesktopState) : Prop :=
  s.others = [] ∧ s.app.pendingProviderKeys = ∅ ∧ s.app.pendingProviderKeyRemovals = ∅

end DesktopState

open DesktopState

/-- What purges may leave, whatever stopped them: `active` are providers of the drafts. -/
structure Purged (active : Set String) (before s : DesktopState) : Prop where
  coherent : s.Coherent
  binned : s.book.binned ⊆ before.book.binned
  journaled : s.journaled ⊆ before.book.binned ∪ before.journaled
  /-- A provider that left the bin has no key, or the journal still names it. -/
  traced : ∀ name ∈ before.book.binned ∪ before.journaled,
    name ∈ s.book.binned ∪ s.journaled ∨ s.key name = .ok none
  /-- A key that is gone is one of a purged provider. -/
  kept : ∀ name, s.key name = before.key name ∨
    name ∈ before.book.binned ∪ before.journaled ∧ name ∉ s.book.binned ∧ name ∉ active
  alone : s.others = []

theorem Purged.trans {active : Set String} {before middle s : DesktopState}
    (h : Purged active before middle) (h' : Purged active middle s) : Purged active before s := by
  have hnamed : ∀ name ∈ middle.book.binned ∪ middle.journaled,
      name ∈ before.book.binned ∪ before.journaled := by
    rintro name (hname | hname)
    · exact .inl (h.binned hname)
    · exact h.journaled hname
  refine ⟨h'.coherent, h'.binned.trans h.binned, fun name hname ↦ hnamed name (h'.journaled hname),
    fun name hname ↦ ?_, fun name ↦ ?_, h'.alone⟩
  · rcases h.traced name hname with hmiddle | hgone
    · exact h'.traced name hmiddle
    · rcases h'.kept name with hkey | ⟨hmiddle, -, -⟩
      · exact .inr (hkey.trans hgone)
      · exact h'.traced name hmiddle
  · rcases h'.kept name with hkey | ⟨hmiddle, hbinned, hactive⟩
    · rw [hkey]
      exact (h.kept name).imp_right fun ⟨hname, hbinned, hactive⟩ ↦
        ⟨hname, fun hmem ↦ hbinned (h'.binned hmem), hactive⟩
    · exact .inr ⟨hnamed name hmiddle, hbinned, hactive⟩

/-! ## What each part leaves -/

namespace Purged

section Parts

variable {host : ProviderHost} {allowed : Fate → Prop} {before : DesktopState}
  {names : List String} {active : Set String} {e : Stop DesktopError → DesktopState → Prop}

/-- The files of a purge are as they were. -/
def Rests (before s : DesktopState) : Prop :=
  s.Quiet ∧ s.files.secrets = before.files.secrets ∧
    s.files.tombstones = before.files.tombstones ∧ s.files.purge = before.files.purge

/-- And the draft has the same providers. -/
def Stays (before s : DesktopState) : Prop := Rests before s ∧ s.book.drafted = before.book.drafted

theorem Rests.purged {s : DesktopState} (h : Rests before s) (hcoherent : before.Coherent) :
    Purged active before s := by
  obtain ⟨app, ⟨config, sidecar, secrets, tombstones, purge⟩, others⟩ := s
  obtain ⟨⟨halone, -⟩, rfl, rfl, rfl⟩ := h
  exact ⟨hcoherent, subset_rfl, fun _ h ↦ .inr h, fun _ h ↦ .inl h, fun _ ↦ .inl rfl, halone⟩

/-- A write is done or not. -/
theorem runs_writeFiles {text : String → String} {change : DesktopFiles → DesktopFiles}
    (hbefore : ∀ stop, e stop before)
    (hafter : ∀ stop, e stop { before with files := change before.files }) :
    Runs allowed (fun s ↦ s = before) (writeFiles text change)
      (fun _ s ↦ s = { before with files := change before.files }) e := by
  refine Runs.call (fun s fault hs _ ↦ ?_) fun _ s hs ↦ hs ▸ hafter _
  rcases fault with - | error
  · exact hs ▸ rfl
  · exact hs ▸ hbefore _

theorem runs_ofText {α : Type} {result : Except String α} (h : ∀ stop, e stop before) :
    Runs allowed (fun s ↦ s = before) (ofText result) (fun a s ↦ result = .ok a ∧ s = before) e :=
  Runs.ofResult (fun _ ha _ hs ↦ ⟨mapError_eq_ok.mp ha, hs⟩) fun _ _ _ hs ↦ hs ▸ h _

theorem runs_readTombstones (h : ∀ stop, e stop before) :
    Runs allowed (fun s ↦ s = before) readTombstones
      (fun file s ↦ loadTombstones before.files.tombstones = .ok file ∧ s = before) e := by
  refine Runs.read_bind fun s hs ↦ ?_
  obtain rfl : s = before := hs
  exact runs_ofText h

/-- A save with no key to store or remove writes the configuration only. -/
theorem maintains_quietSave :
    Maintains allowed (Stays before) (saveDraft host.toDesktopHost) := by
  have hconfig : ∀ s configState sidecar, Stays before s → Stays before { s with
      app := { s.app with configState }
      files := { s.files with sidecar } } := fun _ _ _ h ↦ h
  have hsave : ∀ config, Maintains allowed (Stays before) (saveConfig host.toDesktopHost config) :=
    fun config ↦ Maintains.bind Maintains.ofResult fun _ ↦ maintains_writeFiles fun _ h ↦ h
  refine Maintains.bind maintains_ensureEditable fun _ ↦ Maintains.read_bind fun s hs ↦ ?_
  refine Maintains.bind Maintains.ofResult fun config ↦ ?_
  refine Maintains.bind (Maintains.bind (maintains_observeState hconfig) fun _ ↦
    maintains_configCall hconfig) fun revision ↦ ?_
  refine Maintains.bind (Maintains.read_bind fun now hnow ↦ ?_) fun _ ↦ ?_
  · -- no key waits, so the secrets are not locked
    rw [if_pos (by rw [hnow.1.1.2.1]; rfl)]
    exact hsave config
  obtain ⟨⟨⟨-, hkeys, hremovals⟩, -⟩, -⟩ := hs
  rw [hkeys, hremovals]
  refine Maintains.bind Maintains.pure fun _ ↦ ?_
  have hfinish : Maintains allowed (Stays before) (finishSave s.app.draft) :=
    maintains_configCall (f := fun fault s' ↦
      s'.app.configState.finishSave s.app.draft fault.isNone s'.files.sidecar) hconfig
  refine Maintains.bind hfinish.attempt fun _ ↦ Maintains.bind Maintains.pure fun _ ↦ ?_
  exact Maintains.bind (Maintains.update fun _ ⟨⟨hquiet, hfiles⟩, hdrafted⟩ ↦
    ⟨⟨⟨hquiet.1, rfl, hquiet.2.2⟩, hfiles⟩, hdrafted⟩) fun _ ↦ Maintains.pure

theorem runs_clearScopedPrices : Runs allowed (Stays before) (clearScopedPrices host names)
    (fun _ ↦ Stays before) fun _ ↦ Stays before := by
  refine Maintains.read_bind fun s hs ↦ Maintains.bind Maintains.ofResult fun pricing ↦ ?_
  refine Maintains.ite Maintains.pure (Maintains.bind Maintains.ofResult fun _ ↦ ?_)
  refine Maintains.bind (Maintains.update fun now ⟨h, hdrafted⟩ ↦ ⟨h, ?_⟩) fun _ ↦ Maintains.pure
  rw [← hdrafted]
  refine Set.ext fun name ↦ ?_
  change (upstreamOf (setMember "pricing" _ _) name).isSome = true ↔ _
  rw [upstreamOf_setMember (by decide)]
  rfl

/-- A draft that is not observed is given up; the files are as they were all the same. -/
theorem runs_observeDraft : Runs allowed (Stays before) (observeDraft host.toDesktopHost)
    (fun _ ↦ Stays before) fun _ ↦ Rests before := by
  refine Runs.read_bind fun s hs ↦ ?_
  have hobserve : Maintains allowed (Stays before) (observeState host.toDesktopHost s.app.draft) :=
    maintains_observeState fun _ _ _ h ↦ h
  refine Runs.attempt_bind (Runs.weaken hobserve (fun _ hnow ↦ hnow ▸ hs) (fun _ _ h ↦ h)
    fun _ _ h ↦ h) (fun _ ↦ Runs.pure fun _ h ↦ h) (fun error ↦ ?_) fun _ h ↦ h.1
  exact Runs.bind (r := fun _ ↦ Rests before) (Runs.update fun _ h ↦ h.1) fun _ ↦
    Runs.fail fun _ h ↦ h

theorem runs_retirePrices : Runs allowed (Stays before) (retirePrices host names)
    (fun _ ↦ Stays before) fun _ ↦ Rests before := by
  refine Runs.read_bind fun s hs ↦ Runs.bind (Runs.weaken runs_clearScopedPrices
    (fun _ hnow ↦ hnow ▸ hs) (fun _ _ h ↦ h) fun _ _ h ↦ h.1) fun changed ↦ ?_
  refine Runs.ite (fun _ ↦ ?_) fun _ ↦ Runs.pure fun _ h ↦ h
  have hsave : Runs allowed (Stays before) (saveClearedPrices host)
      (fun _ ↦ Stays before) fun _ ↦ Rests before :=
    Runs.bind runs_observeDraft fun _ ↦ Runs.bind (Runs.weaken maintains_quietSave (fun _ h ↦ h)
      (fun _ _ h ↦ h) fun _ _ h ↦ h.1) fun _ ↦ Runs.pure fun _ h ↦ h
  refine Runs.attempt_bind hsave (fun _ ↦ Runs.pure fun _ h ↦ h) (fun error ↦ ?_) fun _ h ↦ h
  exact Runs.bind (r := fun _ ↦ Rests before) (Runs.update fun _ h ↦ h) fun _ ↦
    Runs.fail fun _ h ↦ h

/-- The keys of the journal's providers are gone; nothing else has changed. -/
structure Keyless (names : List String) (before s : DesktopState) : Prop where
  gone : ∀ name ∈ names, s.key name = .ok none
  others : ∀ name ∉ names, s.key name = before.key name
  tombstones : s.files.tombstones = before.files.tombstones
  purge : s.files.purge = before.files.purge
  app : s.app = before.app
  alone : s.others = []

theorem lookup_removeKeys_of_mem {name : String} {map : Secrets} {changed : Bool}
    (h : name ∈ names) : (removeKeys names (map, changed)).1.lookup
      (storeKey name "provider_api_key") = none := by
  induction names generalizing map changed with
  | nil => nomatch h
  | cons first rest ih =>
    by_cases hrest : name ∈ rest
    · exact ih hrest
    · obtain rfl := (List.mem_cons.mp h).resolve_right hrest
      rw [removeKeys, lookup_removeKeys_of_notMem hrest]
      exact Finmap.lookup_erase _ _

/-- Where the secrets were read, the keys are removed with one write, if there are any. -/
theorem runs_storeRemoveProviderApiKeys (halone : before.others = []) :
    Runs allowed (fun s ↦ s = before) (Command.storeRemoveProviderApiKeys names)
      (fun _ ↦ Keyless names before) fun _ s ↦ s = before ∨ Keyless names before s := by
  have hkeys : ∀ {map map' : Secrets} {s : DesktopState}, loadStore before.files.secrets = .ok map →
      loadStore s.files.secrets = .ok map' → map' = (removeKeys names (map, false)).1 →
      (∀ name ∈ names, s.key name = .ok none) ∧ ∀ name ∉ names, s.key name = before.key name := by
    rintro map map' s hload hload' rfl
    refine ⟨fun name hname ↦ ?_, fun name hname ↦ ?_⟩
    · rw [key, hload', Except.map, lookup_removeKeys_of_mem hname]
    · rw [key, hload', key, hload, Except.map, Except.map, lookup_removeKeys_of_notMem hname]
  have hothers : ∀ s, s = before → ({ s with
      files := { s.files with secrets := applyBatch (s.others.headD []) s.files.secrets }
      others := s.others.tail } : DesktopState) = before := by
    rintro s rfl
    obtain ⟨app, ⟨config, sidecar, secrets, tombstones, purge⟩, others⟩ := s
    obtain rfl := halone
    have hsame : applyBatch [] secrets = secrets := by
      rcases secrets with - | error | error | map <;> rfl
    exact congrArg (fun secrets ↦ DesktopState.mk app ⟨config, sidecar, secrets, tombstones, purge⟩
      []) hsame
  have hlock : Runs allowed (fun s ↦ s = before) lockStore
      (fun map s ↦ loadStore before.files.secrets = .ok map ∧ s = before)
      fun _ s ↦ s = before ∨ Keyless names before s := by
    refine Runs.bind (r := fun _ s ↦ s = before) (Runs.update hothers) fun _ ↦ ?_
    refine Runs.bind (runs_writeFiles (fun _ ↦ .inl rfl) fun _ ↦ .inl rfl) fun _ ↦
      Runs.read_bind fun s hs ↦ ?_
    obtain rfl : s = before := hs
    exact runs_ofText fun _ ↦ .inl rfl
  refine Runs.bind hlock fun map ↦ Runs.ofAnd fun hload ↦ Runs.ite (fun _ ↦ ?_) fun hsame ↦ ?_
  · -- the write is done or not
    have hdone : ∀ s, s = before → Keyless names before { s with files := { s.files with
        secrets := .holds (removeKeys names (map, false)).1 } } := by
      rintro s rfl
      obtain ⟨hgone, hrest⟩ := hkeys hload (s := { s with files := { s.files with
        secrets := .holds (removeKeys names (map, false)).1 } }) rfl rfl
      exact ⟨hgone, hrest, rfl, rfl, rfl, halone⟩
    refine Runs.call (fun s fault hs _ ↦ ?_) fun _ s hs ↦ .inr (hdone s hs)
    rcases fault with - | error
    · exact hdone s hs
    · exact .inl hs
  · refine Runs.pure fun s hs ↦ ?_
    subst hs
    have hmap := (removeKeys_unchanged (Bool.not_eq_true _ ▸ hsame)).1
    obtain ⟨hgone, hrest⟩ := hkeys hload hload hmap.symm
    exact ⟨hgone, hrest, rfl, rfl, rfl, halone⟩

theorem refl (hcoherent : before.Coherent) (halone : before.others = []) :
    Purged active before before :=
  ⟨hcoherent, subset_rfl, fun _ h ↦ .inr h, fun _ h ↦ .inl h, fun _ ↦ .inl rfl, halone⟩

/-- The journal is dropped once nothing depends on it. -/
theorem dropped {s : DesktopState} (h : Purged active before s)
    (hdone : ∀ name ∈ s.journaled, name ∈ s.book.binned ∨ s.key name = .ok none) :
    Purged active before { s with files := { s.files with purge := .absent } } := by
  have hnone : { s with files := { s.files with purge := .absent } }.journaled = ∅ :=
    Set.eq_empty_of_forall_notMem fun _ ⟨_, hpurge, _⟩ ↦ nomatch hpurge
  refine ⟨.inl (hnone ▸ Set.empty_subset _), h.binned, hnone ▸ Set.empty_subset _,
    fun name hname ↦ ?_, h.kept, h.alone⟩
  rcases h.traced name hname with (hbinned | hjournaled) | hgone
  · exact .inl (.inl hbinned)
  · exact (hdone name hjournaled).imp_left .inl
  · exact .inr hgone

theorem runs_removePendingProviderPurge (hbefore : ∀ stop, e stop before)
    (hafter : ∀ stop, e stop { before with files := { before.files with purge := .absent } }) :
    Runs allowed (fun s ↦ s = before) removePendingProviderPurge
      (fun _ s ↦ s = { before with files := { before.files with purge := .absent } }) e := by
  refine Runs.read_bind fun s hs ↦ ?_
  obtain rfl : s = before := hs
  have hremove : Runs allowed (fun now ↦ now = s) (do
      writeFiles ("移除 Provider 凭据待清理记录失败：" ++ ·) fun files ↦
        { files with purge := .absent }
      writeFiles ("同步 Provider 凭据待清理记录目录失败：" ++ ·) id)
      (fun _ now ↦ now = { s with files := { s.files with purge := .absent } }) e :=
    Runs.bind (runs_writeFiles hbefore hafter) fun _ ↦ runs_writeFiles hafter hafter
  obtain ⟨app, ⟨config, sidecar, secrets, tombstones, purge⟩, others⟩ := s
  rcases purge with - | error | error | pending
  · exact Runs.pure fun _ h ↦ h
  · exact hremove
  · exact hremove
  · exact hremove

/-! ## Recovery -/

/-- A journal that was read names its providers; no journal names none. -/
theorem journaled_of_load {s : DesktopState} {pending : Option ProviderPurgePending}
    (h : loadPendingProviderPurge s.files.purge = .ok pending) :
    s.journaled = {name | ∃ journal, pending = some journal ∧ name ∈ journal.providers} := by
  refine Set.ext fun name ↦ ?_
  rw [DesktopState.journaled]
  generalize s.files.purge = purge at h ⊢
  rcases purge with - | error | error | journal
  · obtain rfl := Except.ok.inj h
    exact ⟨fun ⟨_, h, _⟩ ↦ (nomatch h), fun ⟨_, h, _⟩ ↦ nomatch h⟩
  · nomatch h
  · nomatch h
  · rw [loadPendingProviderPurge] at h
    simp only [except_seq_eq_ok] at h
    obtain ⟨-, -, -, h⟩ := h
    obtain rfl := Except.ok.inj h
    simp

/-- What a recovery that returns leaves. -/
structure Recovered (active : Set String) (before s : DesktopState) : Prop where
  purged : Purged active before s
  journaled : s.journaled = ∅
  drafted : s.book.drafted = before.book.drafted
  quiet : s.Quiet

/-- A journal is not needed where its providers are in the bin. -/
theorem recovered_dropped {s : DesktopState} (h : Purged active before s)
    (hdrafted : s.book.drafted = before.book.drafted) (hquiet : s.Quiet)
    (hdone : ∀ name ∈ s.journaled, name ∈ s.book.binned ∨ s.key name = .ok none) :
    Recovered active before { s with files := { s.files with purge := .absent } } :=
  ⟨h.dropped hdone, Set.eq_empty_of_forall_notMem (fun _ ⟨_, hpurge, _⟩ ↦ nomatch hpurge),
    hdrafted, hquiet⟩

/-- The keys of providers that are neither in the bin nor in the draft. -/
theorem Keyless.purged {s : DesktopState} (h : Keyless names before s)
    (hcoherent : before.Coherent) (hnames : ∀ name ∈ names, name ∈ before.journaled)
    (hbinned : ∀ name ∈ names, name ∉ before.book.binned)
    (hactive : ∀ name ∈ names, name ∉ active) : Purged active before s := by
  have hbin : s.book.binned = before.book.binned := by
    change {name | ∃ file, loadTombstones s.files.tombstones = .ok file ∧ _} = _
    rw [h.tombstones]
    rfl
  have hjournaled : s.journaled = before.journaled := by
    rw [DesktopState.journaled, h.purge]
    rfl
  refine ⟨?_, hbin.subset, ?_, fun name hname ↦ .inl ?_, fun name ↦ ?_, h.alone⟩
  · rw [Coherent, hbin, hjournaled]
    exact hcoherent
  · exact fun name hname ↦ .inr (hjournaled ▸ hname)
  · rw [hbin, hjournaled]
    exact hname
  · by_cases hname : name ∈ names
    · exact .inr ⟨.inr (hnames name hname), hbin ▸ hbinned name hname, hactive name hname⟩
    · exact .inl (h.others name hname)

theorem runs_recoverPurge (hcoherent : before.Coherent) (hquiet : before.Quiet)
    (hactive : active ⊆ before.book.drafted) {pending : ProviderPurgePending}
    (hjournaled : before.journaled = {name | name ∈ pending.providers}) :
    Runs allowed (fun s ↦ s = before) (recoverPurge host pending)
      (fun _ ↦ Recovered active before) fun _ ↦ Purged active before := by
  have hrefl : Purged active before before := .refl hcoherent hquiet.1
  refine Runs.bind (runs_readTombstones fun _ ↦ hrefl) fun file ↦ Runs.ofAnd fun hfile ↦ ?_
  refine Runs.ite (fun hall ↦ ?_) fun _ ↦ ?_
  · -- the bin was not emptied: the purge has not happened
    have hdone : ∀ name ∈ before.journaled,
        name ∈ before.book.binned ∨ before.key name = .ok none := by
      intro name hname
      rw [hjournaled] at hname
      have hmem := List.length_filter_eq_length_iff.mp hall name hname
      exact .inl ⟨file, hfile, hmem⟩
    refine Runs.weaken (runs_removePendingProviderPurge (e := fun _ ↦ Purged active before)
      (fun _ ↦ hrefl) fun _ ↦ hrefl.dropped hdone) (fun _ h ↦ h) ?_ fun _ _ h ↦ h
    rintro - s rfl
    exact recovered_dropped hrefl rfl hquiet hdone
  refine Runs.bind (runs_ofText fun _ ↦ hrefl) fun _ ↦ Runs.ofAnd fun hretained ↦
    Runs.read_bind fun s hs ↦ ?_
  obtain rfl : s = before := hs
  refine Runs.bind (runs_ofText fun _ ↦ hrefl) fun _ ↦ Runs.ofAnd fun hunused ↦ ?_
  -- none of the journal's providers is in the bin, nor in the draft
  have hbinned : ∀ name ∈ pending.providers, name ∉ s.book.binned := by
    rintro name hname ⟨file', hfile', hmem⟩
    obtain rfl := Except.ok.inj (hfile.symm.trans hfile')
    exact List.filter_eq_nil_iff.mp (ensure_eq_ok.mp hretained) name hname hmem
  have hunused' : ∀ name ∈ pending.providers, name ∉ active := by
    intro name hname hmem
    rw [ensureUnused, except_seq_eq_ok] at hunused
    exact List.filter_eq_nil_iff.mp (ensure_eq_ok.mp hunused.1) name hname (hactive hmem)
  have hkeyless : ∀ {now}, Keyless pending.providers s now → Purged active s now := fun h ↦
    h.purged hcoherent (fun name hname ↦ hjournaled ▸ hname) hbinned hunused'
  refine Runs.bind (Runs.weaken (runs_storeRemoveProviderApiKeys hquiet.1) (fun _ h ↦ h)
    (fun _ _ h ↦ h) fun _ now h ↦ h.elim (fun h ↦ h ▸ hrefl) hkeyless) fun _ ↦
    Runs.each fun middle hmiddle ↦ ?_
  have hpurged := hkeyless hmiddle
  have hstays : Stays middle middle :=
    ⟨⟨⟨hmiddle.alone, hmiddle.app ▸ hquiet.2⟩, rfl, rfl, rfl⟩, rfl⟩
  refine Runs.bind (Runs.weaken runs_retirePrices (fun _ h ↦ h ▸ hstays) (fun _ _ h ↦ h)
    fun _ _ h ↦ hpurged.trans (h.purged hpurged.coherent)) fun _ ↦ Runs.each fun last hlast ↦ ?_
  have hend : Purged active s last := hpurged.trans (hlast.1.purged hpurged.coherent)
  have hdone : ∀ name ∈ last.journaled, name ∈ last.book.binned ∨ last.key name = .ok none := by
    intro name hname
    have hname' : name ∈ s.journaled := by
      rwa [DesktopState.journaled, hlast.1.2.2.2, hmiddle.purge] at hname
    rw [hjournaled] at hname'
    refine .inr ?_
    rw [key, hlast.1.2.1]
    exact hmiddle.gone name hname'
  refine Runs.weaken (runs_removePendingProviderPurge (e := fun _ ↦ Purged active s)
    (fun _ ↦ hend) fun _ ↦ hend.dropped hdone) (fun _ h ↦ h) ?_ fun _ _ h ↦ h
  rintro - now rfl
  have hdrafted : last.book.drafted = s.book.drafted := by
    rw [hlast.2]
    change {name | (upstreamOf middle.app.draft name).isSome = true} = _
    rw [hmiddle.app]
    rfl
  exact recovered_dropped hend hdrafted hlast.1.1 hdone

/-- A recovery finishes the purge, or finds that it has not happened; or it is cut short. -/
theorem runs_recover (hcoherent : before.Coherent) (hquiet : before.Quiet)
    (hactive : active ⊆ before.book.drafted) :
    Runs allowed (fun s ↦ s = before) (recoverPendingProviderPurge host)
      (fun _ ↦ Recovered active before) fun _ ↦ Purged active before := by
  have hrefl : Purged active before before := .refl hcoherent hquiet.1
  refine Runs.read_bind fun s hs ↦ ?_
  obtain rfl : s = before := hs
  refine Runs.bind (runs_ofText fun _ ↦ hrefl) fun pending ↦ Runs.ofAnd fun hload ↦ ?_
  have hjournaled := journaled_of_load hload
  rcases pending with - | pending
  · refine Runs.pure fun now hnow ↦ ?_
    subst hnow
    exact ⟨hrefl, hjournaled.trans (by simp), rfl, hquiet⟩
  · exact runs_recoverPurge hcoherent hquiet hactive (hjournaled.trans (by simp))

/-! ## The purge -/

/-- Only the files of a state matter. -/
theorem of_files {s s' : DesktopState} (h : Purged active before s) (hfiles : s'.files = s.files)
    (halone : s'.others = s.others) : Purged active before s' := by
  obtain ⟨app, files, others⟩ := s'
  obtain rfl := hfiles
  obtain rfl := halone
  exact ⟨h.coherent, h.binned, h.journaled, h.traced, h.kept, h.alone⟩

/-- The bin is emptied under its journal, or the journal says of each provider what became of it. -/
theorem runs_discardJournaled (hquiet : before.Quiet) {file : TombstoneFile}
    (hfile : loadTombstones before.files.tombstones = .ok file) (hfree : before.journaled = ∅)
    (hnames : ∀ name, name ∈ names ↔ (file.providers.lookup name).isSome = true) :
    Runs allowed (fun s ↦ s = before) (discardJournaled names)
      (fun _ s ↦ Purged active before s ∧ s.book.binned = ∅ ∧ s.app = before.app ∧ s.Quiet)
      fun _ ↦ Purged active before := by
  have hbin : before.book.binned = {name | name ∈ names} := by
    refine Set.ext fun name ↦ Iff.trans ?_ (hnames name).symm
    refine ⟨fun ⟨file', hfile', hmem⟩ ↦ ?_, fun hmem ↦ ⟨file, hfile, hmem⟩⟩
    obtain rfl := Except.ok.inj (hfile.symm.trans hfile')
    exact hmem
  have hrefl : Purged active before before :=
    .refl (.inl (hfree ▸ Set.empty_subset _)) hquiet.1
  let journal : DesktopState := { before with files := { before.files with
    purge := .holds { version := 1, providers := names } } }
  let emptied : DesktopState := { journal with files := { journal.files with
    tombstones := .holds { file with providers := ∅ } } }
  have hnamed : ∀ tombstones, ({ journal with files := { journal.files with
      tombstones } } : DesktopState).journaled = {name | name ∈ names} := fun tombstones ↦
    Set.ext fun name ↦ ⟨by rintro ⟨_, ⟨⟩, hmem⟩; exact hmem, fun h ↦ ⟨_, rfl, h⟩⟩
  have hjournal : Purged active before journal := by
    have hall : journal.journaled ⊆ before.book.binned := by
      rw [hbin]
      exact (hnamed _).subset
    exact ⟨.inl hall, subset_rfl, fun name hname ↦ .inl (hall hname), fun name hname ↦ .inl (.inl
      (hname.resolve_right (hfree ▸ Set.notMem_empty name))), fun _ ↦ .inl rfl, hquiet.1⟩
  have hnone : emptied.book.binned = ∅ := by
    refine Set.eq_empty_of_forall_notMem ?_
    rintro name ⟨file', hfile', hmem⟩
    obtain rfl := loadTombstones_holds hfile'
    simp at hmem
  have hemptied : Purged active before emptied := by
    refine ⟨.inr (hnone ▸ Set.disjoint_empty _), hnone ▸ Set.empty_subset _, fun name hname ↦ ?_,
      fun name hname ↦ .inl (.inr ?_), fun _ ↦ .inl rfl, hquiet.1⟩
    · rw [hbin]
      exact .inl ((hnamed _).subset hname)
    · rw [hbin, hfree, Set.union_empty] at hname
      exact (hnamed _).symm.subset hname
  -- the error says whether the bin was emptied, and the journal is kept unless it was not
  have hreport : ∀ error now, Purged active before now → now.journaled = {name | name ∈ names} →
      Runs allowed (fun s ↦ s = now) (reportDiscard names error)
        (fun _ s ↦ Purged active before s ∧ s.book.binned = ∅ ∧ s.app = before.app ∧ s.Quiet)
        fun _ ↦ Purged active before := by
    intro error now hpurged hnow
    refine Runs.read_bind fun s hs ↦ ?_
    obtain rfl : s = now := hs
    refine Runs.bind (runs_ofText fun _ ↦ hpurged) fun file' ↦ Runs.ofAnd fun hfile' ↦ ?_
    refine Runs.ite (fun hall ↦ ?_) fun _ ↦ Runs.ite (fun _ ↦ Runs.fail fun _ h ↦ h ▸ hpurged)
      fun _ ↦ Runs.fail fun _ h ↦ h ▸ hpurged
    have hdone : ∀ name ∈ s.journaled, name ∈ s.book.binned ∨ s.key name = .ok none := by
      intro name hname
      rw [hnow] at hname
      exact .inl ⟨file', mapError_eq_ok.mp hfile',
        List.length_filter_eq_length_iff.mp hall name hname⟩
    exact Runs.attempt_bind (runs_removePendingProviderPurge (e := fun _ ↦ Purged active before)
      (fun _ ↦ hpurged) fun _ ↦ hpurged.dropped hdone)
      (fun _ ↦ Runs.fail fun _ h ↦ h ▸ hpurged.dropped hdone)
      (fun _ ↦ Runs.fail fun _ h ↦ h) fun _ h ↦ h
  have hdiscard : Runs allowed (fun s ↦ s = journal) discardAllTombstones
      (fun _ s ↦ Purged active before s ∧ s.book.binned = ∅ ∧ s.app = before.app ∧ s.Quiet)
      fun _ s ↦ s = journal ∨ s = emptied := by
    refine Runs.bind (runs_readTombstones fun _ ↦ .inl rfl) fun file' ↦ Runs.ofAnd fun hfile' ↦ ?_
    obtain rfl := Except.ok.inj (hfile.symm.trans hfile')
    refine Runs.ite (fun _ ↦ ?_) fun hempty ↦ Runs.pure ?_
    · refine Runs.weaken (runs_writeFiles (e := fun _ s ↦ s = journal ∨ s = emptied)
        (fun _ ↦ .inl rfl) fun _ ↦ .inr rfl) (fun _ h ↦ h) ?_ fun _ _ h ↦ h
      rintro - s rfl
      exact ⟨hemptied, hnone, rfl, hquiet⟩
    · rintro s rfl
      refine ⟨hjournal, ?_, rfl, hquiet⟩
      refine hbin.trans (Set.eq_empty_of_forall_notMem fun name hname ↦ ?_)
      have hlookup := (hnames name).mp hname
      obtain ⟨value, hvalue⟩ := Option.isSome_iff_exists.mp hlookup
      have hmem := AList.mem_lookup_iff.mp hvalue
      rw [not_ne_iff.mp hempty] at hmem
      nomatch hmem
  refine Runs.bind (runs_writeFiles (fun _ ↦ hrefl) fun _ ↦ hjournal) fun _ ↦ ?_
  refine Runs.attempt_bind hdiscard (fun _ ↦ Runs.pure fun _ h ↦ h) (fun error ↦ ?_) ?_
  · refine Runs.each fun now hnow ↦ ?_
    rcases hnow with rfl | rfl
    · exact hreport error _ hjournal (hnamed _)
    · exact hreport error _ hemptied (hnamed _)
  · rintro _ (rfl | rfl)
    · exact hjournal
    · exact hemptied

/-- One purge, from a start of the application until it returns, fails or is cut short. -/
theorem runs_purgeDeletedProviders (hcoherent : before.Coherent) (hquiet : before.Quiet)
    (hactive : active ⊆ before.book.drafted) :
    Runs allowed (fun s ↦ s = before) (purgeDeletedProviders host)
      (fun _ s ↦ Purged active before s ∧ s.book.binned = ∅ ∧ s.journaled = ∅)
      fun _ ↦ Purged active before := by
  refine Runs.bind (r := fun _ s ↦ s = before) ?_ fun _ ↦ ?_
  · have hrefl : Purged active before before := .refl hcoherent hquiet.1
    exact Runs.weaken maintains_ensureEditable (fun _ h ↦ h) (fun _ _ h ↦ h) fun _ _ h ↦ h ▸ hrefl
  refine Runs.bind (runs_recover hcoherent hquiet hactive) fun _ ↦ Runs.read_bind fun s hs ↦ ?_
  refine Runs.bind (runs_ofText fun _ ↦ hs.purged) fun _ ↦ Runs.ofAnd fun _ ↦ ?_
  refine Runs.bind (runs_readTombstones fun _ ↦ hs.purged) fun file ↦ Runs.ofAnd fun hfile ↦ ?_
  refine Runs.bind (runs_ofText fun _ ↦ hs.purged) fun _ ↦ Runs.ofAnd fun _ ↦ ?_
  have hnames : ∀ name, name ∈ (ClientConfig.members file.providers).map Prod.fst ↔
      (file.providers.lookup name).isSome = true := fun name ↦ by
    rw [List.mem_map, Option.isSome_iff_exists]
    constructor
    · rintro ⟨entry, hentry, rfl⟩
      exact ⟨entry.2, ClientConfig.mem_members.mp hentry⟩
    · rintro ⟨value, hvalue⟩
      exact ⟨(name, value), ClientConfig.mem_members.mpr hvalue, rfl⟩
  refine Runs.ite (fun hempty ↦ Runs.pure fun now hnow ↦ ?_) fun _ ↦ ?_
  · subst hnow
    refine ⟨hs.purged, Set.eq_empty_of_forall_notMem ?_, hs.journaled⟩
    rintro name ⟨file', hfile', hmem⟩
    obtain rfl := Except.ok.inj (hfile.symm.trans hfile')
    have hname := (hnames name).mpr hmem
    rw [hempty] at hname
    nomatch hname
  refine Runs.bind (Runs.weaken (runs_discardJournaled hs.quiet hfile hs.journaled hnames)
    (fun _ h ↦ h) (fun _ _ h ↦ h) fun _ _ h ↦ hs.purged.trans h) fun _ ↦
    Runs.each fun emptied hemptied ↦ ?_
  obtain ⟨hpurged, hnone, happ, hstill⟩ := hemptied
  have hsofar := hs.purged.trans hpurged
  have hactive' : active ⊆ emptied.book.drafted := by
    have hdrafted : emptied.book.drafted = before.book.drafted := by
      rw [← hs.drafted]
      change {name | (upstreamOf emptied.app.draft name).isSome = true} = _
      rw [happ]
      rfl
    rwa [hdrafted]
  refine Runs.attempt_bind (runs_recover hpurged.coherent hstill hactive') (fun _ ↦ ?_)
    (fun error ↦ Runs.fail fun _ h ↦ hsofar.trans h) fun _ h ↦ hsofar.trans h
  refine Runs.update fun last hlast ↦ ?_
  refine ⟨(hsofar.trans hlast.purged).of_files rfl rfl, ?_, hlast.journaled⟩
  have hbinned : last.book.binned ⊆ emptied.book.binned := hlast.purged.binned
  exact Set.subset_empty_iff.mp (hnone ▸ hbinned)

end Parts

end Purged

/-! ## Any number of purges -/

/-- The state that a purge leaves on disk, from an application that was just started. -/
def purgeAttempt (host : ProviderHost) (s : DesktopState) (attempt : AppInner × List Fate) :
    DesktopState :=
  (purgeDeletedProviders host ⟨{ s with app := attempt.1 }, attempt.2⟩).2.state

/-- An application that was just started, with these providers in its draft. -/
structure Started (active : Set String) (app : AppInner) : Prop where
  keys : app.pendingProviderKeys = ∅
  removals : app.pendingProviderKeyRemovals = ∅
  active : ∀ name ∈ active, (upstreamOf app.draft name).isSome = true

theorem purged_purgeAttempt (host : ProviderHost) {active : Set String} {s : DesktopState}
    {attempt : AppInner × List Fate} (hcoherent : s.Coherent) (halone : s.others = [])
    (hstarted : Started active attempt.1) :
    Purged active s (purgeAttempt host s attempt) ∧
      ((purgeDeletedProviders host ⟨{ s with app := attempt.1 }, attempt.2⟩).1 = .ok () →
        (purgeAttempt host s attempt).book.binned = ∅ ∧
          (purgeAttempt host s attempt).journaled = ∅) := by
  have hruns := (@Purged.runs_purgeDeletedProviders host (fun _ ↦ True) { s with app := attempt.1 }
    active hcoherent ⟨halone, hstarted.keys, hstarted.removals⟩ hstarted.active).ends rfl
    fun (fate : Fate) (_ : fate ∈ attempt.2) ↦ trivial
  have hwas : ∀ {last}, Purged active { s with app := attempt.1 } last → Purged active s last :=
    fun h ↦ ⟨h.coherent, h.binned, h.journaled, h.traced, h.kept, h.alone⟩
  rw [purgeAttempt]
  generalize purgeDeletedProviders host ⟨{ s with app := attempt.1 }, attempt.2⟩ = result at hruns ⊢
  obtain ⟨stop | ⟨⟩, last⟩ := result
  · exact ⟨hwas hruns, fun h ↦ nomatch h⟩
  · exact ⟨hwas hruns.1, fun _ ↦ hruns.2⟩

/-- **A purge survives crashes.** Each purge may fail at any write or be cut short after any. The
next one can always tell what happened: the journal agrees with the bin. Providers of the drafts
and providers that can be restored keep their keys, and once a purge returns there is no key left
of any provider that was in the bin. -/
theorem purge_survivesCrashes (host : ProviderHost) (active : Set String) (start : DesktopState)
    (attempts : List (AppInner × List Fate)) (hcoherent : start.Coherent)
    (halone : start.others = []) (hstarted : ∀ attempt ∈ attempts, Started active attempt.1) :
    Purged active start (runSteps (purgeAttempt host) start attempts) ∧
      ∀ attempt, Started active attempt.1 →
        (purgeDeletedProviders host ⟨{ runSteps (purgeAttempt host) start attempts with
          app := attempt.1 }, attempt.2⟩).1 = .ok () →
        ∀ name ∈ start.book.binned ∪ start.journaled,
          (runSteps (purgeAttempt host) start (attempts ++ [attempt])).key name = .ok none := by
  have hrun : Purged active start (runSteps (purgeAttempt host) start attempts) := by
    refine prefix_induction
      (motive := fun steps ↦ Purged active start (runSteps (purgeAttempt host) start steps))
      (.refl hcoherent halone) (fun before attempt hprefix ih ↦ ?_)
      (List.prefix_refl attempts)
    rw [runSteps_concat]
    refine ih.trans (purged_purgeAttempt host ih.coherent ih.alone (hstarted attempt ?_)).1
    exact hprefix.subset (List.mem_append_right _ List.mem_cons_self)
  refine ⟨hrun, fun attempt hattempt hok name hname ↦ ?_⟩
  rw [runSteps_concat]
  obtain ⟨hlast, hdone⟩ := purged_purgeAttempt host hrun.coherent hrun.alone hattempt
  obtain ⟨hbinned, hjournaled⟩ := hdone hok
  refine ((hrun.trans hlast).traced name hname).resolve_left ?_
  rw [hbinned, hjournaled, Set.union_empty]
  exact Set.notMem_empty name

/-- A provider in the bin, with its key. -/
def binnedCloud : DesktopState := { emptyDesktop with files := {
  secrets := .holds (Finmap.insert "cloud/provider_api_key" "old" ∅)
  tombstones := .holds { providers := AList.insert "cloud" ⟨0, .null⟩ ∅ } } }

theorem purge_survivesCrashes_binnedCloud :
    (runSteps (purgeAttempt accountHost) binnedCloud
      [(emptyDesktop.app, [.succeeds, .crashes]), (emptyDesktop.app, [])]).key "cloud" =
        .ok none := by
  have hstarted : Started ∅ emptyDesktop.app := ⟨rfl, rfl, fun _ h ↦ h.elim⟩
  -- the first purge is cut short when the bin is empty
  refine (purge_survivesCrashes accountHost ∅ binnedCloud
    [(emptyDesktop.app, [.succeeds, .crashes])] (.inl fun _ ⟨_, hpurge, _⟩ ↦ nomatch hpurge) rfl
    (List.forall_mem_singleton.mpr hstarted)).2 (emptyDesktop.app, []) hstarted ?_ "cloud"
    (.inl ⟨_, rfl, by decide +kernel⟩)
  rfl

end TokenStation
