import TokenStation.Client.KeySteps

/-!
# The last key entered

A run of successful provider commands from a fresh desktop, with the log of the keys that were
given. A save leaves every provider of the saved configuration its last key if the run was careful:
`lastKeyWins_of_careful`. Otherwise an older key can come back: `not_lastKeyWins_editedKey`.
-/

namespace TokenStation

open Library Command SecretStore

/-! ## Commands -/

inductive ProviderOp where
  | add (input : NewProvider)
  | addFree (input : ValidatedFree)
  | extend (provider baseUrl apiKey model : String)
  | edit (input : ProviderEdit)
  | remove (name : String) (nowMs : ℕ)
  | restore (name : String) (nowMs : ℕ)
  | save

namespace ProviderOp

variable (host : ProviderHost)

def run : ProviderOp → Command Unit
  | add input => addProvider host input
  | addFree input => commitFree host input
  | extend provider baseUrl apiKey model => extendManagedRoute host provider baseUrl apiKey model
  | edit input => editProvider host input
  | remove name nowMs => removeProvider host name nowMs
  | restore name nowMs => restoreProvider host name nowMs
  | save => do
    let _ ← saveDraft host.toDesktopHost
    return ()

/-- The state in which the command finds the providers. -/
def found (s : DesktopState) : ProviderOp → DesktopState
  | add _ | extend _ _ _ _ | remove _ _ | restore _ _ => settled host s
  | addFree _ | edit _ | save => s

/-- What the command does to the keys. -/
def change (s : DesktopState) : ProviderOp → KeyChange
  | add input => .add (trimmed input.name) (entered input.apiKey)
      (legacyNames (settled host s).app.draft (trimmed input.name) input.managedRoute)
  | addFree input => .addFree input.preset.upstreamName input.apiKey
  | extend provider _ apiKey _ => .extend provider (trimmed apiKey)
  | edit input => .edit (trimmed input.name) (entered input.apiKey)
  | remove name _ => .remove (trimmed name)
  | restore name _ => .restore (trimmed name)
  | save => .save

/-- A command that does not look for a purge. -/
theorem yields_unsettled {before : DesktopState} {m : Command Unit}
    {q : Unit → DesktopState → Prop} (h : Yields (fun s ↦ s = before) m q) :
    Yields (fun s ↦ s = before) m fun a s ↦ before.book.Settles before.book ∧ q a s :=
  Runs.weaken h (fun _ h ↦ h) (fun _ _ h ↦ ⟨.purged (.refl _), h⟩) fun _ _ h ↦ h

/-- Each command that returns refines its change of the book. -/
theorem yields_run {host : ProviderHost} (op : ProviderOp) {before : DesktopState}
    (hready : before.Ready) :
    Yields (fun s ↦ s = before) (op.run host) fun _ s ↦
      before.book.Settles (op.found host before).book ∧ s.Ready ∧
      (op.change host before).Step (op.found host before).book s.book := by
  cases op with
  | add input => exact @yields_addProvider host before input hready
  | addFree input =>
    exact @yields_unsettled before _ _ (@yields_commitFree host before input hready)
  | extend provider baseUrl apiKey model =>
    exact @yields_extendManagedRoute host before provider baseUrl apiKey model hready
  | edit input =>
    exact @yields_unsettled before _ _ (@yields_editProvider host before input hready)
  | remove name nowMs => exact @yields_removeProvider host before name nowMs hready
  | restore name nowMs => exact @yields_restoreProvider host before name nowMs hready
  | save =>
    refine @yields_unsettled before _ _ (Runs.bind
      (@yields_saveDraft host.toDesktopHost before hready) fun _ ↦ Runs.pure fun _ h ↦ ?_)
    exact ⟨h.1, .save h.2.1⟩

end ProviderOp

/-! ## Runs -/

/-- A desktop that has just started, and is the only one. -/
structure DesktopState.Fresh (s : DesktopState) : Prop where
  ready : s.Ready
  noKeys : s.app.pendingProviderKeys = ∅
  noRemovals : s.app.pendingProviderKeyRemovals = ∅

/-- At the start every provider has the key that is stored for it. -/
def KeyLog.start (s : DesktopState) : KeyLog where
  submitted name := stored s.files.secrets name "provider_api_key"
  dropped := ∅

/-- The states that successful commands reach when no call fails, each with the log of the keys. A
command is performed where it is allowed. -/
inductive Performs (host : ProviderHost) (allowed : KeyLog → KeyBook → KeyChange → Prop)
    (start : DesktopState) : DesktopState → KeyLog → Prop where
  | start : Performs host allowed start start (.start start)
  | step {s : DesktopState} {log : KeyLog} (op : ProviderOp)
      (hbefore : Performs host allowed start s log)
      (hallowed : allowed log (op.found host s).book (op.change host s))
      (hok : (op.run host ⟨s, []⟩).1.isOk = true) :
      Performs host allowed start (calmState (op.run host) s)
        (log.record (op.found host s).book (op.change host s))

/-- Every upstream of the saved configuration with a stored key has the one it was given last. -/
def LastKeyWins (log : KeyLog) (s : DesktopState) : Prop :=
  ∀ config, s.files.config = .holds config → ∀ name upstream,
    config.upstreams.lookup name = some upstream → upstream.auth.any AuthConfig.store = true →
      ∀ key, log.submitted name = some key →
        stored s.files.secrets name "provider_api_key" = some key

section Runs

variable {host : ProviderHost} {start s : DesktopState} {log : KeyLog}

theorem honours_start (hfresh : start.Fresh) : Honours (.start start) start.book := by
  have hremovals : ∀ name, name ∉ start.book.removing := by
    intro name hname
    change (start.app.pendingProviderKeyRemovals.lookup name).isSome = true at hname
    rw [hfresh.noRemovals] at hname
    nomatch hname
  refine ⟨fun name hname ↦ absurd hname (hremovals name), fun name _ hdropped ↦ hdropped.elim,
    fun name _ _ key hkey ↦ .inr ⟨?_, hremovals name, hkey⟩⟩
  change start.app.pendingProviderKeys.lookup name = none
  rw [hfresh.noKeys]
  rfl

/-- Every careful run keeps the invariant. -/
theorem Performs.honours (hfresh : start.Fresh)
    (hrun : Performs host KeyLog.Careful start s log) : s.Ready ∧ Honours log s.book := by
  induction hrun with
  | start => exact ⟨hfresh.ready, honours_start hfresh⟩
  | @step s log op hbefore hallowed hok ih =>
    obtain ⟨hready, hhonours⟩ := ih
    obtain ⟨a, ha⟩ : ∃ a, (op.run host ⟨s, []⟩).1 = .ok a := by
      rcases hresult : (op.run host ⟨s, []⟩).1 with stop | a
      · rw [hresult] at hok
        nomatch hok
      · exact ⟨a, rfl⟩
    obtain ⟨hsettles, hafter, hstep⟩ := (op.yields_run hready).of_ok rfl (by simp) ha
    exact ⟨hafter, (hhonours.settles hsettles).record hstep hallowed⟩

/-- **The last key wins.** After a save that ends a careful run, every upstream with a stored key
has the key it was given last. -/
theorem lastKeyWins_of_careful (hnames : ∀ draft config, host.fromValue draft = .ok config →
      ∀ name upstream, config.upstreams.lookup name = some upstream →
        (upstreamOf draft name).isSome = true)
    (hfresh : start.Fresh) (hrun : Performs host KeyLog.Careful start s log)
    (hsaved : (saveDraft host.toDesktopHost ⟨s, []⟩).1.isOk = true) :
    LastKeyWins log (calmState (saveDraft host.toDesktopHost) s) := by
  obtain ⟨hready, hhonours⟩ := hrun.honours hfresh
  obtain ⟨revision, hrevision⟩ : ∃ revision,
      (saveDraft host.toDesktopHost ⟨s, []⟩).1 = .ok revision := by
    rcases hresult : (saveDraft host.toDesktopHost ⟨s, []⟩).1 with stop | revision
    · rw [hresult] at hsaved
      nomatch hsaved
    · exact ⟨revision, rfl⟩
  obtain ⟨-, hsaves, config, hconfig, hholds⟩ :=
    (yields_saveDraft hready).of_ok rfl (by simp) hrevision
  intro config' hconfig' name upstream hupstream _ key hkey
  obtain rfl : config = config' := StoredFile.holds.inj (hholds.symm.trans hconfig')
  -- the saved configuration names providers of the draft
  have hvalue : host.fromValue s.app.draft = .ok config := by
    rw [materializeDraft, except_seq_eq_ok] at hconfig
    exact mapError_eq_ok.mp hconfig.2
  have hdrafted : name ∈ s.book.drafted := hnames _ _ hvalue name upstream hupstream
  exact (hhonours.stored_of_saves hsaves (hhonours.has_drafted hdrafted hkey)).2

end Runs

/-! ### One provider -/

def accountConfig : ClientConfig where
  listen := "127.0.0.1:8787"
  plugins := { agents := ["openai"] }
  upstreams := AList.singleton "cloud"
    { provider := "openai-compatible", baseUrl := testEndpoint,
      auth := some { slot := "provider_api_key", store := true } }

/-- A desktop whose only configuration is that of one provider. -/
def accountHost : ProviderHost where
  hash _ := ""
  parsers := loopbackParsers
  fromValue draft :=
    if (upstreamOf draft "cloud").isSome then .ok accountConfig else .error "missing provider"
  presets := []
  storedModels _ _ := .ok ()
  configPath := "token-station.json"
  priceTable _ := .ok {}
  priceValue _ := .null
  egressOf _ := .ok {}
  endpointError _ := "not an endpoint"
  isAbsolutePath _ := false
  sameValue _ _ := true
  modelValues _ _ _ _ _ := .array []
  withoutProbes value := value
  references _ _ := []
  rebuiltRouter value := value

theorem accountHost_names : ∀ draft config, accountHost.fromValue draft = .ok config →
    ∀ name upstream, config.upstreams.lookup name = some upstream →
      (upstreamOf draft name).isSome = true := by
  intro draft config hvalue name upstream hupstream
  change (if (upstreamOf draft "cloud").isSome then _ else _) = _ at hvalue
  split at hvalue
  next hcloud =>
    obtain rfl := Except.ok.inj hvalue
    have hname : name ∈ accountConfig.upstreams :=
      AList.lookup_isSome.mp (Option.isSome_iff_exists.mpr ⟨upstream, hupstream⟩)
    rwa [List.mem_singleton.mp (AList.mem_keys.mp hname)]
  · nomatch hvalue

def emptyDesktop : DesktopState where
  app :=
    { draft := .object [("upstreams", .object [])]
      configState := ⟨.null, .null, "", "", 0, 0, {}⟩ }
  files := {}

theorem fresh_emptyDesktop : emptyDesktop.Fresh := ⟨⟨⟨rfl, rfl⟩, rfl⟩, rfl, rfl⟩

def addCloud (key : String) : ProviderOp :=
  .add { name := "cloud", baseUrl := "https://api.test", models := ["m"], apiKey := some key,
         credentialSource := "store" }

def editCloud (key : String) : ProviderOp :=
  .edit { name := "cloud", baseUrl := "https://api.test", apiKey := some key }

/-- The provider was added, but not saved. -/
def addedCloud : DesktopState := calmState ((addCloud "old").run accountHost) emptyDesktop

def savedCloud : DesktopState := calmState (ProviderOp.save.run accountHost) addedCloud

/-- A new key after the save. -/
def editedCloud : DesktopState := calmState ((editCloud "new").run accountHost) savedCloud

theorem lastKeyWins_of_careful_savedKey :
    stored (calmState (saveDraft accountHost.toDesktopHost) editedCloud).files.secrets "cloud"
      "provider_api_key" = some "new" := by
  have hadded : Performs accountHost KeyLog.Careful emptyDesktop addedCloud _ :=
    .step (addCloud "old") .start trivial (by decide +kernel)
  have hsaved : Performs accountHost KeyLog.Careful emptyDesktop savedCloud _ :=
    .step .save hadded trivial (by decide +kernel)
  -- the key that waited was saved
  have hcareful : ∀ log, KeyLog.Careful log ((editCloud "new").found accountHost savedCloud).book
      ((editCloud "new").change accountHost savedCloud) := by
    intro log
    have hname : trimmed "cloud" = "cloud" := by decide +kernel
    have hkey : entered (some "new") = some "new" := by decide +kernel
    simp only [editCloud, ProviderOp.change, ProviderOp.found, hname, hkey, KeyLog.Careful]
    have hremovals : savedCloud.app.pendingProviderKeyRemovals.lookup "cloud" = none := by
      decide +kernel
    refine ⟨.inl (by decide +kernel), ?_⟩
    change ¬ (savedCloud.app.pendingProviderKeyRemovals.lookup "cloud").isSome = true
    rw [hremovals]
    decide
  have hedited : Performs accountHost KeyLog.Careful emptyDesktop editedCloud _ :=
    .step (editCloud "new") hsaved (hcareful _) (by decide +kernel)
  refine lastKeyWins_of_careful accountHost_names fresh_emptyDesktop hedited (by decide +kernel)
    accountConfig (by rfl) "cloud" _ rfl rfl "new" ?_
  decide +kernel

/-- The new key is entered before the save. -/
def rotatedCloud : DesktopState := calmState ((editCloud "new").run accountHost) addedCloud

/-- The key that waited since the provider was added replaces the one that was entered after it. -/
theorem not_lastKeyWins_editedKey : emptyDesktop.Fresh ∧
    ∃ log, Performs accountHost (fun _ _ _ ↦ True) emptyDesktop rotatedCloud log ∧
      (saveDraft accountHost.toDesktopHost ⟨rotatedCloud, []⟩).1.isOk = true ∧
      ¬ LastKeyWins log (calmState (saveDraft accountHost.toDesktopHost) rotatedCloud) := by
  have hadded : Performs accountHost (fun _ _ _ ↦ True) emptyDesktop addedCloud _ :=
    .step (addCloud "old") .start trivial (by decide +kernel)
  refine ⟨fresh_emptyDesktop, _, .step (editCloud "new") hadded trivial (by decide +kernel),
    by decide +kernel, fun h ↦ ?_⟩
  have hnew := h accountConfig (by rfl) "cloud" _ rfl rfl "new" (by decide +kernel)
  revert hnew
  decide +kernel

end TokenStation
