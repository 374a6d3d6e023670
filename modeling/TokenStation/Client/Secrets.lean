import TokenStation.Client.Validation
import TokenStation.Library.Cells

/-!
# Credentials

The secrets file is one flat map from `"<owner>/<slot>"` to values, shared by every upstream and the
proxy. An owner is the name of an upstream or the proxy's own name, and no owner contains a slash,
so the keys separate the owners: `separates_storeKey`.

A configured credential resolves to the trimmed value of its own source, `resolve_eq_ok`, and
writing one owner's credential leaves those of every other owner, `stored_storeSet`. Reading and
writing the file can fail; a failed write leaves the file as it was.
-/

namespace TokenStation

open Library

/-! ## The secrets file -/

/-- The owner under which the proxy's credential is stored. -/
def egressSecretOwner : String := "egress-proxy"

def storeKey (upstream slot : String) : String := upstream ++ "/" ++ slot

abbrev Secrets : Type := Finmap fun _ : String ↦ String

/-- What reading the secrets file finds. A file that was written holds the map it was written
with: the JSON writer and reader of string maps are inverse to each other. -/
inductive SecretsFile where
  | absent
  | unreadable (error : String)
  | malformed (error : String)
  | holds (map : Secrets)

/-- What can go wrong with a mutation of the file: each error is the text of the failing call. -/
structure StoreFaults where
  lock : Option String := none
  write : Option String := none

/-- A missing file is an empty store; any other failure is reported. -/
def loadStore : SecretsFile → Except String Secrets
  | .absent => .ok ∅
  | .unreadable error => .error ("secrets store read: " ++ error)
  | .malformed error => .error ("secrets store parse: " ++ error)
  | .holds map => .ok map

def writeStore (fault : Option String) (map : Secrets) (file : SecretsFile) :
    Except String Unit × SecretsFile :=
  match fault with
  | some error => (.error ("secrets store write: " ++ error), file)
  | none => (.ok (), .holds map)

/-- A step on the map under the lock; the file is written if the step reports a change. -/
def mutateStore (faults : StoreFaults) (operation : Secrets → Secrets × Bool)
    (file : SecretsFile) : Except String Unit × SecretsFile :=
  match faults.lock, loadStore file with
  | some error, _ => (.error error, file)
  | none, .error error => (.error error, file)
  | none, .ok map =>
    let (map', changed) := operation map
    if changed then writeStore faults.write map' file else (.ok (), file)

def storeSet (faults : StoreFaults) (upstream slot value : String) :
    SecretsFile → Except String Unit × SecretsFile :=
  mutateStore faults fun map ↦ (map.insert (storeKey upstream slot) value, true)

/-- `BTreeMap::remove`, and whether there was something to remove. -/
def removeKey (key : String) (map : Secrets) : Secrets × Bool :=
  (map.erase key, (map.lookup key).isSome)

def storeRemove (faults : StoreFaults) (upstream slot : String) :
    SecretsFile → Except String Unit × SecretsFile :=
  mutateStore faults (removeKey (storeKey upstream slot))

/-- The loop over several upstreams; `changed` holds whether something was removed. -/
def removeKeys : List String → Secrets × Bool → Secrets × Bool
  | [], result => result
  | upstream :: rest, (map, changed) =>
    let (map', removed) := removeKey (storeKey upstream "provider_api_key") map
    removeKeys rest (map', changed || removed)

def storeRemoveProviderApiKeys (faults : StoreFaults) (upstreams : List String) :
    SecretsFile → Except String Unit × SecretsFile :=
  mutateStore faults fun map ↦ removeKeys upstreams (map, false)

/-- The stored value of an owner's slot. -/
def stored (file : SecretsFile) (owner slot : String) : Option String :=
  match loadStore file with
  | .ok map => map.lookup (storeKey owner slot)
  | .error _ => none

/-! ## Owners -/

/-- An upstream's name, or the proxy's own name. -/
def secretOwners : Set String := {owner | isReferenceName owner = true ∨ owner = egressSecretOwner}

theorem slash_notMem_of_owner {owner : String} (h : owner ∈ secretOwners) :
    '/' ∉ owner.toList := by
  rcases h with h | rfl
  · intro hmem
    rw [isReferenceName] at h
    split at h
    · nomatch h
    next first rest heq =>
      rw [heq] at hmem
      rw [Bool.and_eq_true, List.all_eq_true] at h
      -- neither the first character nor a later one can be a slash
      rcases List.mem_cons.mp hmem with rfl | hmem
      · exact absurd h.1 (by decide)
      · exact absurd (h.2 _ hmem) (by decide)
  · decide

/-- The owner of a key ends at its first slash. -/
theorem separates_storeKey : Separates storeKey secretOwners := by
  intro owner howner other hother slot slot' heq
  have hcut : ∀ {o s : String}, '/' ∉ o.toList →
      (storeKey o s).toList.takeWhile (· != '/') = o.toList := by
    intro o s ho
    rw [storeKey, String.toList_append, String.toList_append, List.append_assoc,
      List.takeWhile_append_of_pos]
    · simp
    · intro c hc
      simpa using fun h : c = '/' ↦ ho (h ▸ hc)
  have howner' := hcut (s := slot) (slash_notMem_of_owner howner)
  rw [heq, hcut (slash_notMem_of_owner hother)] at howner'
  obtain rfl : other = owner := String.toList_injective howner'
  have htext := congrArg String.toList heq
  rw [storeKey, storeKey, String.toList_append, String.toList_append, String.toList_append,
    String.toList_append, List.append_cancel_left_eq] at htext
  exact ⟨rfl, String.toList_injective htext⟩

/-! ## Mutations -/

section Mutations

variable {faults : StoreFaults} {file : SecretsFile}
  {operation : Secrets → Secrets × Bool} {owner other slot slot' value : String}

/-- A mutation either leaves the file, or replaces its map by the changed one. -/
theorem mutateStore_file (faults : StoreFaults) (operation : Secrets → Secrets × Bool)
    (file : SecretsFile) :
    (mutateStore faults operation file).2 = file ∨ ∃ map, loadStore file = .ok map ∧
      loadStore (mutateStore faults operation file).2 = .ok (operation map).1 := by
  rw [mutateStore]
  split
  · exact .inl rfl
  · exact .inl rfl
  next map _ hload =>
    by_cases hchanged : (operation map).2 = true
    · simp only [hchanged, if_true]
      unfold writeStore
      split
      · exact .inl rfl
      · exact .inr ⟨map, hload, rfl⟩
    · simp only [hchanged]
      exact .inl rfl

/-- A mutation that keeps an entry of the map keeps the stored value of it. -/
theorem stored_mutateStore
    (h : ∀ map, (operation map).1.lookup (storeKey owner slot) = map.lookup (storeKey owner slot)) :
    stored (mutateStore faults operation file).2 owner slot =
      stored file owner slot := by
  rcases mutateStore_file faults operation file with heq | ⟨map, hload, hload'⟩
  · rw [heq]
  · rw [stored, stored, hload, hload']
    exact h map

theorem lookup_removeKeys (howner : owner ∈ secretOwners) {upstreams : List String}
    (hupstreams : ∀ upstream ∈ upstreams, upstream ∈ secretOwners ∧ upstream ≠ owner)
    (map : Secrets) (changed : Bool) :
    (removeKeys upstreams (map, changed)).1.lookup (storeKey owner slot) =
      map.lookup (storeKey owner slot) := by
  induction upstreams generalizing map changed with
  | nil => rfl
  | cons upstream rest ih =>
    obtain ⟨hupstream, hrest⟩ := List.forall_mem_cons.mp hupstreams
    rw [removeKeys, removeKey, ih hrest]
    exact separates_storeKey.lookup_erase hupstream.1 howner hupstream.2

variable (howner : owner ∈ secretOwners) (hother : other ∈ secretOwners) (hne : owner ≠ other)
include howner hother hne

/-- Storing one owner's secret leaves every other owner's. -/
theorem stored_storeSet :
    stored (storeSet faults owner slot value file).2 other slot' =
      stored file other slot' :=
  stored_mutateStore fun _ ↦ separates_storeKey.lookup_insert howner hother hne

/-- Removing one owner's secret leaves every other owner's. -/
theorem stored_storeRemove :
    stored (storeRemove faults owner slot file).2 other slot' =
      stored file other slot' :=
  stored_mutateStore fun _ ↦ separates_storeKey.lookup_erase howner hother hne

end Mutations

/-! ## Resolving -/

/-- Where a slot's value lives. -/
inductive Source where
  | store
  | env (name : String)
  | file (path : String)
  deriving DecidableEq

def sourceOf (auth : AuthConfig) : Option Source :=
  if auth.store then some .store
  else match auth.env, auth.file with
    | some name, _ => some (.env name)
    | none, some path => some (.file path)
    | none, none => none

/-- What a lookup of a source can read, at one moment. -/
structure SecretHost where
  secretsFile : SecretsFile
  env : String → Option String
  readFile : String → Except String String

/-- The slots of the upstreams, in the order of their names, and then the proxy's. -/
def ClientConfig.credentials (config : ClientConfig) : List (String × AuthConfig) :=
  (ClientConfig.members config.upstreams).filterMap
      (fun entry ↦ entry.2.auth.map fun auth ↦ (entry.1, auth)) ++
    config.egress.auth.toList.map fun auth ↦ (egressSecretOwner, auth.credential)

structure SecretStore where
  sources : Finmap fun _ : String × String ↦ Source := ∅
  store : Secrets := ∅
  storeError : Option String := none

namespace SecretStore

def fromConfig (config : ClientConfig) (file : SecretsFile) : SecretStore :=
  let sources := insertAll ∅ (config.credentials.filterMap fun entry ↦
    (sourceOf entry.2).map fun source ↦ ((entry.1, entry.2.slot), source))
  match loadStore file with
  | .ok store => { sources, store }
  | .error error => { sources, storeError := some error }

/-- The value of a source, before it is trimmed. -/
def read (secrets : SecretStore) (host : SecretHost) (upstream slot : String) :
    Source → Except String String
  | .store =>
    match secrets.storeError with
    | some error => .error error
    | none => EgressConfig.require (secrets.store.lookup (storeKey upstream slot))
      ("upstream `" ++ upstream ++ "` secret `" ++ slot
        ++ "`: not in the local store (re-enter the key)")
  | .env name => EgressConfig.require (host.env name) ("upstream `" ++ upstream ++ "` secret `"
      ++ slot ++ "`: environment variable `" ++ name ++ "` is not set")
  | .file path => (host.readFile path).mapError fun error ↦ "upstream `" ++ upstream
      ++ "` secret `" ++ slot ++ "`: cannot read `" ++ path ++ "`: " ++ error

/-- `str::trim`. -/
def trimmed (value : String) : String := String.ofList (trim value.toList)

def resolve (secrets : SecretStore) (host : SecretHost) (upstream slot : String) :
    Except String String := do
  let source ← EgressConfig.require (secrets.sources.lookup (upstream, slot))
    ("upstream `" ++ upstream ++ "` has no source configured for secret `" ++ slot ++ "`")
  let value ← secrets.read host upstream slot source
  ensure (trimmed value ≠ "")
    ("upstream `" ++ upstream ++ "` secret `" ++ slot ++ "` resolved to an empty value")
  return trimmed value

def resolveEgress (secrets : SecretStore) (host : SecretHost) (slot : String) :
    Except String String :=
  secrets.resolve host egressSecretOwner slot

/-- The loop over the configured slots. -/
def freeze (live : SecretStore) (host : SecretHost) :
    List (String × AuthConfig) → SecretStore → Except String SecretStore
  | [], frozen => .ok frozen
  | (owner, auth) :: rest, frozen => do
    ensure (auth.sourceCount = 1) "A snapshot credential must have exactly one source"
    let value ← live.resolve host owner auth.slot
    freeze live host rest { frozen with
      sources := frozen.sources.insert (owner, auth.slot) .store
      store := frozen.store.insert (storeKey owner auth.slot) value }

/-- An immutable resolver for the slots of a configuration. -/
def snapshotForConfig (config : ClientConfig) (host : SecretHost) :
    Except String SecretStore :=
  freeze (fromConfig config host.secretsFile) host config.credentials {}

end SecretStore

/-! ## Every credential resolves to its own source -/

/-- What an owner's own source holds: its own stored slot, its variable, or its file. -/
inductive OwnSource (host : SecretHost) (owner : String)
    (auth : AuthConfig) (raw : String) : Prop
  | store (hsource : auth.store = true)
    (hstored : stored host.secretsFile owner auth.slot = some raw)
  | env {name} (hsource : auth.env = some name) (hvariable : host.env name = some raw)
  | file {path} (hsource : auth.file = some path) (hread : host.readFile path = .ok raw)

namespace AuthConfig

/-- The three ways of having exactly one source. -/
theorem sourceCount_eq_one {auth : AuthConfig} (h : auth.sourceCount = 1) :
    (auth.store = true ∧ auth.env = none ∧ auth.file = none) ∨
      (∃ name, auth.store = false ∧ auth.env = some name ∧ auth.file = none) ∨
      ∃ path, auth.store = false ∧ auth.env = none ∧ auth.file = some path := by
  obtain ⟨slot, store, env, file⟩ := auth
  rcases store with - | - <;> rcases env with - | name <;> rcases file with - | path <;>
    simp_all [sourceCount]

end AuthConfig

theorem require_eq_ok {α : Type} {value : Option α} {error : String} {a : α} :
    EgressConfig.require value error = .ok a ↔ value = some a := by
  rcases value with - | b <;> simp [EgressConfig.require]

theorem mapError_eq_ok {ε ε' α : Type} {x : Except ε α} {f : ε → ε'} {a : α} :
    x.mapError f = .ok a ↔ x = .ok a := by
  rcases x with e | b <;> simp [Except.mapError]

namespace ClientConfig

variable {config : ClientConfig} {parsers : Parsers}

theorem mem_credentials {owner : String} {auth : AuthConfig} :
    (owner, auth) ∈ config.credentials ↔
      (∃ upstream, config.upstreams.lookup owner = some upstream ∧ upstream.auth = some auth) ∨
        owner = egressSecretOwner ∧
          ∃ proxy, config.egress.auth = some proxy ∧ proxy.credential = auth := by
  rw [credentials, List.mem_append, List.mem_filterMap, List.mem_map]
  refine or_congr ⟨?_, ?_⟩ ⟨?_, ?_⟩
  · rintro ⟨⟨name, upstream⟩, hmem, hauth⟩
    obtain ⟨found, hfound, heq⟩ := Option.map_eq_some_iff.mp hauth
    obtain ⟨rfl, rfl⟩ := Prod.mk.inj heq
    exact ⟨upstream, mem_members.mp hmem, hfound⟩
  · rintro ⟨upstream, hlookup, hauth⟩
    exact ⟨(owner, upstream), mem_members.mpr hlookup, by rw [hauth]; rfl⟩
  · rintro ⟨proxy, hproxy, heq⟩
    obtain ⟨rfl, rfl⟩ := Prod.mk.inj heq
    exact ⟨rfl, proxy, Option.mem_toList.mp hproxy, rfl⟩
  · rintro ⟨rfl, proxy, hproxy, rfl⟩
    exact ⟨proxy, Option.mem_toList.mpr hproxy, rfl⟩

/-- An accepted credential belongs to an owner and has one source. -/
theorem credential_spec (haccepted : config.validate parsers = .ok ()) {owner : String}
    {auth : AuthConfig} (hmem : (owner, auth) ∈ config.credentials) :
    owner ∈ secretOwners ∧ auth.sourceCount = 1 := by
  obtain ⟨hupstreams, hegress⟩ := validate_credentials haccepted
  rcases mem_credentials.mp hmem with ⟨upstream, hlookup, hauth⟩ | ⟨rfl, proxy, hproxy, rfl⟩
  · obtain ⟨hname, hcount⟩ := hupstreams owner upstream hlookup
    exact ⟨.inl hname, hcount auth hauth⟩
  · exact ⟨.inr rfl, hegress proxy hproxy⟩

/-- An owner has one credential. -/
theorem credential_unique (haccepted : config.validate parsers = .ok ()) {owner : String}
    {auth auth' : AuthConfig} (hmem : (owner, auth) ∈ config.credentials)
    (hmem' : (owner, auth') ∈ config.credentials) : auth = auth' := by
  obtain ⟨hupstreams, -⟩ := validate_credentials haccepted
  -- the proxy's own name is not the name of an upstream
  have hproxy : ∀ upstream, config.upstreams.lookup egressSecretOwner ≠ some upstream := by
    intro upstream hlookup
    exact absurd (hupstreams _ upstream hlookup).1 (by decide)
  rcases mem_credentials.mp hmem with ⟨upstream, hlookup, hauth⟩ | ⟨rfl, proxy, hegress, rfl⟩
  · rcases mem_credentials.mp hmem' with ⟨upstream', hlookup', hauth'⟩ | ⟨rfl, -⟩
    · obtain rfl := Option.some.inj (hlookup.symm.trans hlookup')
      exact Option.some.inj (hauth.symm.trans hauth')
    · exact absurd hlookup (hproxy _)
  · rcases mem_credentials.mp hmem' with ⟨upstream', hlookup', -⟩ | ⟨-, proxy', hegress', rfl⟩
    · exact absurd hlookup' (hproxy _)
    · rw [Option.some.inj (hegress.symm.trans hegress')]

end ClientConfig

namespace SecretStore

variable {config : ClientConfig} {parsers : Parsers} {host : SecretHost}
  {owner : String} {auth : AuthConfig} {value : String}

theorem resolve_eq_ok {secrets : SecretStore} {slot : String} {source : Source}
    (hsource : secrets.sources.lookup (owner, slot) = some source) :
    secrets.resolve host owner slot = .ok value ↔
      ∃ raw, secrets.read host owner slot source = .ok raw ∧ value = trimmed raw ∧ value ≠ "" := by
  rw [resolve, except_bind_eq_ok]
  constructor
  · rintro ⟨source', hsource', h⟩
    obtain rfl := Option.some.inj (hsource.symm.trans (require_eq_ok.mp hsource'))
    obtain ⟨raw, hraw, h⟩ := except_bind_eq_ok.mp h
    obtain ⟨hne, heq⟩ := except_seq_eq_ok.mp h
    obtain rfl := Except.ok.inj heq
    exact ⟨raw, hraw, rfl, ensure_eq_ok.mp hne⟩
  · rintro ⟨raw, hraw, rfl, hne⟩
    refine ⟨source, require_eq_ok.mpr hsource, except_bind_eq_ok.mpr ⟨raw, hraw, ?_⟩⟩
    exact except_seq_eq_ok.mpr ⟨ensure_eq_ok.mpr hne, rfl⟩

/-- The source built for a credential is its own. -/
theorem sources_fromConfig (haccepted : config.validate parsers = .ok ())
    (hmem : (owner, auth) ∈ config.credentials) {source : Source}
    (hsource : sourceOf auth = some source) (file : SecretsFile) :
    (fromConfig config file).sources.lookup (owner, auth.slot) = some source := by
  have hsources : (fromConfig config file).sources = insertAll ∅
      (config.credentials.filterMap fun entry ↦
        (sourceOf entry.2).map fun source ↦ ((entry.1, entry.2.slot), source)) := by
    rw [fromConfig]
    split <;> rfl
  rw [hsources]
  refine lookup_insertAll ?_ ?_
  · exact List.mem_filterMap.mpr ⟨(owner, auth), hmem, by rw [hsource]; rfl⟩
  · intro other hother
    obtain ⟨⟨owner', auth'⟩, hmem', hother⟩ := List.mem_filterMap.mp hother
    obtain ⟨source', hsource', heq⟩ := Option.map_eq_some_iff.mp hother
    obtain ⟨hkey, rfl⟩ := Prod.mk.inj heq
    obtain ⟨rfl, -⟩ := Prod.mk.inj hkey
    obtain rfl := ClientConfig.credential_unique haccepted hmem hmem'
    exact Option.some.inj (hsource'.symm.trans hsource)

/-- What the store reads for a stored slot is what the file holds under the owner's key. -/
theorem read_store {slot raw : String} (file : SecretsFile) :
    (fromConfig config file).read host owner slot .store = .ok raw ↔
      stored file owner slot = some raw := by
  rcases hload : loadStore file with error | map
  · simp [read, fromConfig, stored, hload]
  · simp [read, fromConfig, stored, hload, require_eq_ok]

/-- An accepted credential resolves to the trimmed value of its own source, and to nothing else. -/
theorem resolve_fromConfig (haccepted : config.validate parsers = .ok ())
    (hmem : (owner, auth) ∈ config.credentials) :
    (fromConfig config host.secretsFile).resolve host owner auth.slot = .ok value ↔
      ∃ raw, OwnSource host owner auth raw ∧ value = trimmed raw ∧ value ≠ "" := by
  have hcount := (ClientConfig.credential_spec haccepted hmem).2
  obtain ⟨source, hsource, hread⟩ : ∃ source, sourceOf auth = some source ∧ ∀ raw,
      (fromConfig config host.secretsFile).read host owner auth.slot source = .ok raw ↔
        OwnSource host owner auth raw := by
    rcases AuthConfig.sourceCount_eq_one hcount with ⟨hstore, henv, hfile⟩ |
      ⟨name, hstore, henv, hfile⟩ | ⟨path, hstore, henv, hfile⟩
    · refine ⟨.store, by rw [sourceOf, if_pos hstore], fun raw ↦ (read_store _).trans ?_⟩
      constructor
      · exact .store hstore
      · rintro (⟨-, h⟩ | ⟨h, -⟩ | ⟨h, -⟩)
        · exact h
        · nomatch henv.symm.trans h
        · nomatch hfile.symm.trans h
    · refine ⟨.env name, by simp [sourceOf, hstore, henv], fun raw ↦ ?_⟩
      rw [read, require_eq_ok]
      constructor
      · exact .env henv
      · rintro (⟨h, -⟩ | ⟨h, hvariable⟩ | ⟨h, -⟩)
        · nomatch hstore.symm.trans h
        · rwa [Option.some.inj (henv.symm.trans h)]
        · nomatch hfile.symm.trans h
    · refine ⟨.file path, by simp [sourceOf, hstore, henv, hfile], fun raw ↦ ?_⟩
      rw [read, mapError_eq_ok]
      constructor
      · exact .file hfile
      · rintro (⟨h, -⟩ | ⟨h, -⟩ | ⟨h, hread⟩)
        · nomatch hstore.symm.trans h
        · nomatch henv.symm.trans h
        · rwa [Option.some.inj (hfile.symm.trans h)]
  rw [resolve_eq_ok (sources_fromConfig haccepted hmem hsource host.secretsFile)]
  simp only [hread]

/-! ### Snapshots -/

theorem trimmed_trimmed (text : String) : trimmed (trimmed text) = trimmed text := by
  rw [trimmed, trimmed, String.toList_ofList, trim_trim]

/-- What the loop collects: for each slot, the value it resolved to. -/
theorem freeze_spec {live frozen final : SecretStore} {credentials : List (String × AuthConfig)}
    (h : freeze live host credentials frozen = .ok final) :
    ∃ values : List (String × String), final.storeError = frozen.storeError ∧
      final.sources = insertAll frozen.sources
        (credentials.map fun entry ↦ ((entry.1, entry.2.slot), .store)) ∧
      final.store = insertAll frozen.store values ∧
      (∀ entry ∈ credentials, ∃ value, live.resolve host entry.1 entry.2.slot = .ok value ∧
        (storeKey entry.1 entry.2.slot, value) ∈ values) ∧
      ∀ pair ∈ values, ∃ entry ∈ credentials, pair.1 = storeKey entry.1 entry.2.slot ∧
        live.resolve host entry.1 entry.2.slot = .ok pair.2 := by
  induction credentials generalizing frozen with
  | nil =>
    obtain rfl := Except.ok.inj h
    exact ⟨[], rfl, rfl, rfl, by simp, by simp⟩
  | cons entry rest ih =>
    obtain ⟨-, h⟩ := except_seq_eq_ok.mp h
    obtain ⟨value, hvalue, h⟩ := except_bind_eq_ok.mp h
    obtain ⟨values, herror, hsources, hstore, hall, honly⟩ := ih h
    refine ⟨(storeKey entry.1 entry.2.slot, value) :: values, herror, hsources, hstore, ?_, ?_⟩
    · intro entry' hentry'
      rcases List.mem_cons.mp hentry' with rfl | hentry'
      · exact ⟨value, hvalue, List.mem_cons_self⟩
      · obtain ⟨value', hvalue', hmem⟩ := hall entry' hentry'
        exact ⟨value', hvalue', List.mem_cons_of_mem _ hmem⟩
    · intro pair hpair
      rcases List.mem_cons.mp hpair with rfl | hpair
      · exact ⟨entry, List.mem_cons_self, rfl, hvalue⟩
      · obtain ⟨entry', hentry', h⟩ := honly pair hpair
        exact ⟨entry', List.mem_cons_of_mem _ hentry', h⟩

/-- A snapshot resolves every configured slot to the value it had, whatever happens to the sources
afterwards. -/
theorem resolve_snapshotForConfig (haccepted : config.validate parsers = .ok ())
    {snapshot : SecretStore} (h : snapshotForConfig config host = .ok snapshot)
    (hmem : (owner, auth) ∈ config.credentials) (later : SecretHost) :
    ∃ value, (fromConfig config host.secretsFile).resolve host owner auth.slot = .ok value ∧
      snapshot.resolve later owner auth.slot = .ok value := by
  obtain ⟨values, herror, hsources, hstore, hall, honly⟩ := freeze_spec h
  obtain ⟨value, hvalue, hpair⟩ := hall _ hmem
  refine ⟨value, hvalue, ?_⟩
  have hsource : snapshot.sources.lookup (owner, auth.slot) = some .store := by
    rw [hsources]
    refine lookup_insertAll (List.mem_map.mpr ⟨(owner, auth), hmem, rfl⟩) fun other hother ↦ ?_
    obtain ⟨entry, -, heq⟩ := List.mem_map.mp hother
    exact (Prod.mk.inj heq).2.symm
  have hlookup : snapshot.store.lookup (storeKey owner auth.slot) = some value := by
    rw [hstore]
    refine lookup_insertAll hpair fun other hother ↦ ?_
    obtain ⟨⟨owner', auth'⟩, hmem', hkey, hresolve⟩ := honly _ hother
    obtain ⟨rfl, hslot⟩ := separates_storeKey _ (ClientConfig.credential_spec haccepted hmem).1 _
      (ClientConfig.credential_spec haccepted hmem').1 _ _ hkey
    rw [hslot] at hvalue
    exact Except.ok.inj (hresolve.symm.trans hvalue)
  obtain ⟨raw, -, rfl, hne⟩ := (resolve_fromConfig haccepted hmem).mp hvalue
  refine (resolve_eq_ok hsource).mpr ⟨trimmed raw, ?_, (trimmed_trimmed raw).symm, hne⟩
  rw [read, herror]
  exact require_eq_ok.mpr hlookup

end SecretStore

/-! ## Owners do not share credentials -/

/-- **Credential isolation.** Under an accepted configuration, every credential of an upstream and
of the proxy resolves to the trimmed value of its own source, whatever other sources hold; a
snapshot freezes exactly these values; and no two owners share a stored slot, so writing or removing
one owner's secrets leaves those of every other owner. -/
theorem credentials_isolated {parsers : Parsers} {config : ClientConfig}
    (haccepted : config.validate parsers = .ok ()) (host : SecretHost) :
    (∀ name upstream, config.upstreams.lookup name = some upstream → ∀ auth ∈ upstream.auth,
      ∀ value, (SecretStore.fromConfig config host.secretsFile).resolve host name auth.slot =
          .ok value ↔
        ∃ raw, OwnSource host name auth raw ∧ value = SecretStore.trimmed raw ∧ value ≠ "") ∧
    (∀ proxy ∈ config.egress.auth, ∀ value,
      (SecretStore.fromConfig config host.secretsFile).resolveEgress host proxy.credential.slot =
          .ok value ↔
        ∃ raw, OwnSource host egressSecretOwner proxy.credential raw ∧
          value = SecretStore.trimmed raw ∧ value ≠ "") ∧
    (∀ snapshot, SecretStore.snapshotForConfig config host = .ok snapshot →
      ∀ owner auth, (owner, auth) ∈ config.credentials → ∀ later, ∃ value,
        (SecretStore.fromConfig config host.secretsFile).resolve host owner auth.slot = .ok value ∧
          snapshot.resolve later owner auth.slot = .ok value) ∧
    (∀ name ∈ config.upstreams, name ∈ secretOwners) ∧
    ∀ owner ∈ secretOwners, ∀ other ∈ secretOwners, owner ≠ other → ∀ slot slot',
      storeKey owner slot ≠ storeKey other slot' ∧ ∀ faults file,
        (∀ value, stored (storeSet faults owner slot value file).2 other slot' =
          stored file other slot') ∧
        stored (storeRemove faults owner slot file).2 other slot' = stored file other slot' ∧
        ∀ upstreams : List String, (∀ upstream ∈ upstreams, upstream ∈ secretOwners) →
          other ∉ upstreams →
          stored (storeRemoveProviderApiKeys faults upstreams file).2 other slot' =
            stored file other slot' := by
  refine ⟨?_, ?_, ?_, ?_, ?_⟩
  · intro name upstream hlookup auth hauth value
    exact SecretStore.resolve_fromConfig haccepted
      (ClientConfig.mem_credentials.mpr (.inl ⟨upstream, hlookup, hauth⟩))
  · intro proxy hproxy value
    exact SecretStore.resolve_fromConfig haccepted
      (ClientConfig.mem_credentials.mpr (.inr ⟨rfl, proxy, hproxy, rfl⟩))
  · intro snapshot hsnapshot owner auth hmem later
    exact SecretStore.resolve_snapshotForConfig haccepted hsnapshot hmem later
  · intro name hname
    obtain ⟨upstream, hlookup⟩ := AList.lookup_isSome.mpr hname |> Option.isSome_iff_exists.mp
    exact .inl ((ClientConfig.validate_credentials haccepted).1 name upstream hlookup).1
  · intro owner howner other hother hne slot slot'
    refine ⟨separates_storeKey.ne howner hother hne, fun faults file ↦ ⟨?_, ?_, ?_⟩⟩
    · exact fun value ↦ stored_storeSet howner hother hne
    · exact stored_storeRemove howner hother hne
    · intro upstreams hupstreams hnotMem
      refine stored_mutateStore fun map ↦ lookup_removeKeys hother ?_ map false
      exact fun upstream hmem ↦ ⟨hupstreams upstream hmem, fun heq ↦ hnotMem (heq ▸ hmem)⟩

/-! ### A store-backed upstream behind a proxy with a variable -/

/-- The parsers on the addresses of `proxiedConfig`. -/
def loopbackParsers : Parsers where
  socketAddr text :=
    if text = "127.0.0.1:8787" then .ok (text, true) else .error "invalid socket address syntax"
  ipIsLoopback text := text == "127.0.0.1"
  uri text :=
    if text = "http://127.0.0.1:3128" then
      some ⟨some "http", some "127.0.0.1:3128", some "/", some "127.0.0.1", some 3128⟩
    else none
  isNoProxy _ _ _ := .ok false

/-- `https://api.test`. -/
def testEndpoint : ProviderEndpoint where
  origin := "https://api.test".toList
  path := []
  rooted := .inl rfl
  unambiguous := rfl
  trimmed := by decide

def proxiedConfig : ClientConfig where
  listen := "127.0.0.1:8787"
  plugins := { agents := ["openai"] }
  upstreams := AList.singleton "cloud"
    { provider := "openai-compatible", baseUrl := testEndpoint,
      auth := some { slot := "key/main", store := true } }
  egress :=
    { mode := .http, proxyUrl := some "http://127.0.0.1:3128",
      auth := some ⟨"user", { slot := "key/main", env := some "PROXY_KEY" }⟩ }

/-- A file with a stored key for the upstream, and an unset variable. -/
def storedHost : SecretHost where
  secretsFile := .holds (.singleton "cloud/key/main" " sk\n")
  env _ := none
  readFile _ := .error "not found"

/-- Both credentials of `proxiedConfig` use one slot name; the upstream's resolves to its stored key
and the proxy's to nothing. -/
theorem credentials_isolated_proxiedConfig :
    (SecretStore.fromConfig proxiedConfig storedHost.secretsFile).resolve storedHost "cloud"
        "key/main" = .ok "sk" ∧
      ∀ value, (SecretStore.fromConfig proxiedConfig storedHost.secretsFile).resolveEgress
        storedHost "key/main" ≠ .ok value := by
  have haccepted : proxiedConfig.validate loopbackParsers = .ok () := by rfl
  obtain ⟨hupstream, hproxy, -⟩ := credentials_isolated haccepted storedHost
  constructor
  · refine (hupstream "cloud" _ rfl _ rfl "sk").mpr ⟨" sk\n", .store rfl ?_, by decide, by decide⟩
    exact Finmap.lookup_singleton_eq
  · intro value hvalue
    obtain ⟨raw, hsource, -⟩ := (hproxy _ rfl value).mp hvalue
    rcases hsource with ⟨h, -⟩ | ⟨-, h⟩ | ⟨h, -⟩ <;> nomatch h

end TokenStation
