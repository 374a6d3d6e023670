import TokenStation.Client.Validation
import TokenStation.Library.Outcome
import TokenStation.Library.Runs

/-!
# Prices that are synchronized

Prices are fetched from the channels and from a public catalog, and merged into the price table of
the configuration. What a synchronization wrote is remembered in a second file, with the provider it
was fetched for; a row that is not as it is remembered there is the operator's. An edit of the
operator first forgets what is remembered of the row, and a deletion leaves a mark. The two files
are written one after the other, and either write can fail.

Whoever wrote a row last is found out from the two files alone. `respected_of_spared` says that this
is enough, as long as no row is lost that the operator deleted and then failed to write again.
-/

namespace TokenStation

open Library

/-! ## Price tables -/

def maxPricePerMtok : ℕ := 9000000000000000

def maxPricingModelIdBytes : ℕ := 1024

namespace ModelPrice

def rates (price : ModelPrice) : List (String × Option ℕ) :=
  [("input_per_mtok", some price.inputPerMtok), ("output_per_mtok", some price.outputPerMtok),
    ("cache_read_per_mtok", some price.cacheReadPerMtok),
    ("cache_write_per_mtok", some price.cacheWritePerMtok),
    ("cache_write_5m_per_mtok", price.cacheWrite5mPerMtok),
    ("cache_write_1h_per_mtok", price.cacheWrite1hPerMtok),
    ("reasoning_per_mtok", price.reasoningPerMtok)]

def validate (price : ModelPrice) : Except String Unit :=
  match price.rates.find? fun rate ↦ rate.2.any (maxPricePerMtok < ·) with
  | some rate => .error (rate.1 ++ " must not exceed " ++ toString maxPricePerMtok ++
      " micro-units per million tokens")
  | none => .ok ()

end ModelPrice

def validateModelId (model : String) : Except String Unit :=
  if model = "" ∨ maxPricingModelIdBytes < model.utf8ByteSize ∨ trim model.toList ≠ model.toList ∨
      model.toList.any EgressConfig.isControl then
    .error ("pricing model id must be 1-" ++ toString maxPricingModelIdBytes ++
      " bytes, trimmed, and non-control")
  else .ok ()

namespace PricingConfig

abbrev Prices : Type := AList fun _ : String ↦ ModelPrice

/-- Every model id and every price is checked, in the order of the ids. -/
def validateModels (models : Prices) : Except String Unit :=
  (ClientConfig.members models).forM fun (model, price) ↦ do
    validateModelId model
    price.validate.mapError fun error ↦ "model `" ++ model ++ "` price: " ++ error

def validate (table : PricingConfig) : Except String Unit := validateModels table.models

def nextVersion (table : PricingConfig) : Except String ℕ :=
  if table.version + 1 < 2 ^ 32 then .ok (table.version + 1)
  else .error "pricing version exhausted; start a new configuration"

def nextWithModel (table : PricingConfig) (model : String) (price : ModelPrice) :
    Except String PricingConfig := do
  table.validate
  validateModelId model
  price.validate
  if table.models.lookup model = some price then
    .error ("model `" ++ model ++ "` price is unchanged")
  else
    let version ← table.nextVersion
    pure { version, models := table.models.insert model price }

def nextWithModels (table : PricingConfig) (additions : Prices) : Except String PricingConfig := do
  table.validate
  if additions.entries.isEmpty then .error "price batch must contain at least one model"
  else
    validateModels additions
    if (ClientConfig.members additions).all fun entry ↦
        table.models.lookup entry.1 = some entry.2 then
      .error "model prices are unchanged"
    else
      let version ← table.nextVersion
      pure { version, models := additions ∪ table.models }

def nextWithoutModel (table : PricingConfig) (model : String) : Except String PricingConfig := do
  table.validate
  validateModelId model
  if (table.models.lookup model).isNone then
    .error ("model `" ++ model ++ "` has no configured price")
  else
    let version ← table.nextVersion
    pure { version, models := table.models.erase model }

end PricingConfig

namespace PriceSync

/-! ## The merge -/

structure SyncedPrice where
  price : ModelPrice
  /-- The channel itself is `provider`. -/
  source : String
  identity : String
  fetchedAtMs : ℕ
  deriving DecidableEq

abbrev SyncedPrices : Type := AList fun _ : String ↦ SyncedPrice

structure SyncMetadata where
  enabled : Bool := false
  lastAttemptMs : Option ℕ := none
  lastSyncMs : Option ℕ := none
  lastInventory : String := ""
  errors : List String := []
  records : SyncedPrices := ∅
  suppressed : Finset String := ∅

/-- Whether a row that is there may be updated: it is as it is remembered, for the same provider,
and not to be taken from the channel. -/
def isOwned (records : SyncedPrices) (key : String) (existing : ModelPrice)
    (incoming : SyncedPrice) : Bool :=
  (records.lookup key).any fun record ↦
    record.price == existing && record.identity == incoming.identity &&
      !(record.source == "provider" && incoming.source != "provider")

/-- Whether a row is merged. -/
def isMerged (current : PricingConfig) (suppressed : Finset String) (records : SyncedPrices)
    (key : String) (incoming : SyncedPrice) : Bool :=
  key ∉ suppressed &&
    (current.models.lookup key).all fun existing ↦ isOwned records key existing incoming

/-- The loop of `merge_prices`: the changes and the records. -/
def mergeRows (current : PricingConfig) (suppressed : Finset String) :
    PricingConfig.Prices → SyncedPrices → List (String × SyncedPrice) →
      Except String (PricingConfig.Prices × SyncedPrices)
  | changes, records, [] => .ok (changes, records)
  | changes, records, (key, incoming) :: rows =>
    if isMerged current suppressed records key incoming then do
      incoming.price.validate
      let changes := if current.models.lookup key ≠ some incoming.price then
        changes.insert key incoming.price else changes
      mergeRows current suppressed changes (records.insert key incoming) rows
    else mergeRows current suppressed changes records rows

/-- `merge_prices`, with the metadata as it leaves it. -/
def mergePrices (current : PricingConfig) (metadata : SyncMetadata) (incoming : SyncedPrices) :
    Except String PricingConfig × SyncMetadata :=
  match mergeRows current metadata.suppressed ∅ metadata.records
      (ClientConfig.members incoming) with
  | .error error => (.error error, metadata)
  | .ok (changes, records) =>
    match if changes.entries.isEmpty then .ok current else current.nextWithModels changes with
    | .error error => (.error error, metadata)
    | .ok next => (.ok next, { metadata with records })

/-! ## The two files -/

/-- The price table of the configuration, and the metadata. -/
structure PriceFiles where
  table : PricingConfig
  metadata : SyncMetadata

/-- A round of synchronization. A crash is a write that does not come about. -/
structure Round where
  incoming : SyncedPrices
  errors : List String
  inventory : String
  nowMs : ℕ
  tableIsSaved : Bool
  metadataIsSaved : Bool

/-- An edit of the operator, or a deletion. -/
structure ManualEdit where
  key : String
  price : Option ModelPrice
  /-- Whether the metadata can be written. -/
  isMarked : Bool
  /-- Whether the configuration is saved. -/
  isCommitted : Bool
  /-- Whether the metadata can be written back. -/
  isRestored : Bool

inductive Step where
  | synchronize (round : Round)
  | manual (edit : ManualEdit)

attribute [ext] PricingConfig

instance : DecidableEq PricingConfig := fun table other ↦
  decidable_of_iff (table.version = other.version ∧ table.models.entries = other.models.entries)
    ⟨fun ⟨hversion, hmodels⟩ ↦ PricingConfig.ext hversion (AList.ext hmodels),
      fun h ↦ h ▸ ⟨rfl, rfl⟩⟩

/-- The commit of `synchronize`. -/
def synchronize (files : PriceFiles) (round : Round) : PriceFiles :=
  match mergePrices files.table files.metadata round.incoming with
  | (.error _, _) => files
  | (.ok next, metadata) =>
    if next ≠ files.table ∧ round.tableIsSaved = false then files
    else
      let metadata := { metadata with
        errors := round.errors
        lastInventory := round.inventory
        lastSyncMs := if round.errors = [] then some round.nowMs else metadata.lastSyncMs }
      { table := next, metadata := if round.metadataIsSaved then metadata else files.metadata }

/-- `mark_manual` of an edit, where `next` is the table it is to save. -/
def markManual (files : PriceFiles) (edit : ManualEdit) (next : PricingConfig) : PriceFiles :=
  let previous := files.metadata
  let metadata := { previous with
    records := previous.records.erase edit.key
    suppressed := if edit.price.isNone then insert edit.key previous.suppressed
      else previous.suppressed.erase edit.key }
  if edit.isMarked then
    if edit.isCommitted then { table := next, metadata }
    else if edit.isRestored then files
    else { files with metadata }
  else files

/-- The table an edit is to save. -/
def ManualEdit.next (edit : ManualEdit) (table : PricingConfig) : Except String PricingConfig :=
  match edit.price with
  | some price => table.nextWithModel edit.key price
  | none => table.nextWithoutModel edit.key

/-- `set_model_price` and `remove_model_price`. -/
def editManually (files : PriceFiles) (edit : ManualEdit) : PriceFiles :=
  match edit.next files.table with
  | .error _ => files
  | .ok next => markManual files edit next

def PriceFiles.step (files : PriceFiles) : Step → PriceFiles
  | .synchronize round => synchronize files round
  | .manual edit => editManually files edit

/-! ## What a merge does -/

section Merge

variable {current next : PricingConfig} {metadata merged : SyncMetadata} {incoming : SyncedPrices}
variable {key : String}

theorem members_keys_nodup {α : Type} (map : AList fun _ : String ↦ α) :
    ((ClientConfig.members map).map Prod.fst).Nodup := by
  have hkeys : (ClientConfig.members map).map Prod.fst =
      (sortByKey Sigma.fst map.entries).map Sigma.fst := by
    rw [ClientConfig.members, List.map_map]
    rfl
  rw [hkeys]
  exact ((sortByKey_perm _ _).map _).nodup_iff.mpr map.nodupKeys

/-- Only the row and its record count. -/
theorem isMerged_congr {suppressed : Finset String} {records records' : SyncedPrices}
    (htable : current.models.lookup key = next.models.lookup key)
    (h : records.lookup key = records'.lookup key) (row : SyncedPrice) :
    isMerged current suppressed records key row = isMerged next suppressed records' key row := by
  rw [isMerged, isMerged, htable]
  simp only [isOwned, h]

/-- What the loop makes of a row: it is merged, or nothing is changed of it. -/
theorem mergeRows_spec {suppressed : Finset String} {changes changes' : PricingConfig.Prices}
    {records records' : SyncedPrices} {rows : List (String × SyncedPrice)}
    (hrows : (rows.map Prod.fst).Nodup)
    (h : mergeRows current suppressed changes records rows = .ok (changes', records'))
    (key : String) :
    (∃ row, (key, row) ∈ rows ∧ isMerged current suppressed records key row = true ∧
      row.price.validate = .ok () ∧ records'.lookup key = some row ∧
      changes'.lookup key = if current.models.lookup key = some row.price then changes.lookup key
        else some row.price) ∨
    ((∀ row, (key, row) ∈ rows → isMerged current suppressed records key row = false) ∧
      records'.lookup key = records.lookup key ∧ changes'.lookup key = changes.lookup key) := by
  induction rows generalizing changes records with
  | nil =>
    obtain ⟨rfl, rfl⟩ := Prod.mk.inj (Except.ok.inj h)
    exact Or.inr ⟨fun row hmem ↦ (nomatch hmem), rfl, rfl⟩
  | cons first rows ih =>
    obtain ⟨name, row⟩ := first
    rw [List.map_cons, List.nodup_cons] at hrows
    have hfresh (other : SyncedPrice) : (name, other) ∉ rows :=
      fun hmem ↦ hrows.1 (List.mem_map.mpr ⟨_, hmem, rfl⟩)
    rw [mergeRows] at h
    by_cases hmerged : isMerged current suppressed records name row = true
    · rw [if_pos hmerged] at h
      obtain ⟨⟨⟩, hvalid, h⟩ := except_bind_eq_ok.mp h
      by_cases hkey : key = name
      · subst hkey
        obtain ⟨other, hmem, -⟩ | ⟨-, hrecords, hchanges⟩ := ih hrows.2 h
        · exact absurd hmem (hfresh other)
        · refine Or.inl ⟨row, List.mem_cons_self, hmerged, hvalid, ?_, ?_⟩
          · rw [hrecords, AList.lookup_insert]
          · rw [hchanges]
            by_cases hsame : current.models.lookup key = some row.price
            · rw [if_neg (not_not.mpr hsame), if_pos hsame]
            · rw [if_pos hsame, if_neg hsame, AList.lookup_insert]
      · have hrecord : (records.insert name row).lookup key = records.lookup key :=
          AList.lookup_insert_ne hkey
        have hchange : (if current.models.lookup name ≠ some row.price then
            changes.insert name row.price else changes).lookup key = changes.lookup key := by
          split
          · exact AList.lookup_insert_ne hkey
          · rfl
        obtain ⟨other, hmem, hother, hothervalid, hrecords, hchanges⟩ |
            ⟨hnone, hrecords, hchanges⟩ := ih hrows.2 h
        · rw [isMerged_congr rfl hrecord] at hother
          rw [hchange] at hchanges
          exact Or.inl ⟨other, List.mem_cons_of_mem _ hmem, hother, hothervalid, hrecords, hchanges⟩
        · refine Or.inr ⟨fun other hmem ↦ ?_, hrecords.trans hrecord, hchanges.trans hchange⟩
          obtain heq | hmem := List.mem_cons.mp hmem
          · exact absurd (congrArg Prod.fst heq) hkey
          · rw [← isMerged_congr rfl hrecord]
            exact hnone other hmem
    · rw [if_neg hmerged] at h
      obtain ⟨other, hmem, hother⟩ | ⟨hnone, hrest⟩ := ih hrows.2 h
      · exact Or.inl ⟨other, List.mem_cons_of_mem _ hmem, hother⟩
      · refine Or.inr ⟨fun other hmem ↦ ?_, hrest⟩
        obtain heq | hmem := List.mem_cons.mp hmem
        · obtain ⟨rfl, rfl⟩ := Prod.mk.inj heq
          exact Bool.eq_false_iff.mpr hmerged
        · exact hnone other hmem

/-- What a batch of prices makes of a row. -/
theorem lookup_nextWithModels {additions : PricingConfig.Prices}
    (h : current.nextWithModels additions = .ok next) (key : String) :
    next.models.lookup key = (additions.lookup key).or (current.models.lookup key) := by
  rw [PricingConfig.nextWithModels] at h
  obtain ⟨⟨⟩, -, h⟩ := except_bind_eq_ok.mp h
  split at h
  · nomatch h
  obtain ⟨⟨⟩, -, h⟩ := except_bind_eq_ok.mp h
  split at h
  · nomatch h
  obtain ⟨version, -, h⟩ := except_bind_eq_ok.mp h
  obtain rfl := Except.ok.inj h
  by_cases hkey : key ∈ additions
  · obtain ⟨price, hprice⟩ := Option.isSome_iff_exists.mp (AList.lookup_isSome.mpr hkey)
    rw [AList.lookup_union_left hkey, hprice, Option.some_or]
  · rw [AList.lookup_union_right hkey, AList.lookup_eq_none.mpr hkey, Option.none_or]

/-- What a merge makes of a row: the row is as it came, and remembered so, or nothing is changed
of it. -/
theorem mergePrices_spec (h : mergePrices current metadata incoming = (.ok next, merged))
    (key : String) :
    (∃ row, incoming.lookup key = some row ∧
      isMerged current metadata.suppressed metadata.records key row = true ∧
      row.price.validate = .ok () ∧
      next.models.lookup key = some row.price ∧ merged.records.lookup key = some row) ∨
    ((∀ row, incoming.lookup key = some row →
        isMerged current metadata.suppressed metadata.records key row = false) ∧
      next.models.lookup key = current.models.lookup key ∧
      merged.records.lookup key = metadata.records.lookup key) := by
  rw [mergePrices] at h
  split at h
  · nomatch congrArg Prod.fst h
  next changes records hrows =>
    have hspec := mergeRows_spec (members_keys_nodup incoming) hrows key
    simp only [ClientConfig.mem_members, AList.lookup_empty] at hspec
    split at h
    · nomatch congrArg Prod.fst h
    next table htable =>
      obtain ⟨hnext, rfl⟩ := Prod.mk.inj h
      obtain rfl := Except.ok.inj hnext
      have hlookup : table.models.lookup key =
          (changes.lookup key).or (current.models.lookup key) := by
        split at htable
        next hempty =>
          have hchanges : changes = ∅ := AList.ext (List.isEmpty_iff.mp hempty)
          rw [← Except.ok.inj htable, hchanges, AList.lookup_empty, Option.none_or]
        next => exact lookup_nextWithModels htable key
      obtain ⟨row, hrow, hmerged, hvalid, hrecords, hchanges⟩ | ⟨hnone, hrecords, hchanges⟩ :=
        hspec
      · refine Or.inl ⟨row, hrow, hmerged, hvalid, ?_, hrecords⟩
        rw [hlookup, hchanges]
        by_cases hsame : current.models.lookup key = some row.price
        · rw [if_pos hsame, hsame, Option.none_or]
        · rw [if_neg hsame, Option.some_or]
      · exact Or.inr ⟨hnone, by rw [hlookup, hchanges, Option.none_or], hrecords⟩

theorem suppressed_of_mergePrices (h : mergePrices current metadata incoming = (.ok next, merged)) :
    merged.suppressed = metadata.suppressed := by
  rw [mergePrices] at h
  split at h
  · nomatch congrArg Prod.fst h
  split at h
  · nomatch congrArg Prod.fst h
  exact (congrArg SyncMetadata.suppressed (Prod.mk.inj h).2).symm

/-- A merge that fails leaves the metadata. -/
theorem mergePrices_error {error : String}
    (h : mergePrices current metadata incoming = (.error error, merged)) : merged = metadata := by
  rw [mergePrices] at h
  split at h
  · exact (Prod.mk.inj h).2.symm
  split at h
  · exact (Prod.mk.inj h).2.symm
  · nomatch congrArg Prod.fst h

/-- Rows that are as they came change nothing. -/
theorem mergeRows_of_same {suppressed : Finset String} {changes : PricingConfig.Prices}
    {records : SyncedPrices} {rows : List (String × SyncedPrice)}
    (hrows : (rows.map Prod.fst).Nodup)
    (hsame : ∀ key row, (key, row) ∈ rows → isMerged current suppressed records key row = true →
      row.price.validate = .ok () ∧ current.models.lookup key = some row.price) :
    ∃ records', mergeRows current suppressed changes records rows = .ok (changes, records') := by
  induction rows generalizing records with
  | nil => exact ⟨records, rfl⟩
  | cons first rows ih =>
    obtain ⟨name, row⟩ := first
    rw [List.map_cons, List.nodup_cons] at hrows
    rw [mergeRows]
    by_cases hmerged : isMerged current suppressed records name row = true
    · obtain ⟨hvalid, hlookup⟩ := hsame name row List.mem_cons_self hmerged
      rw [if_pos hmerged, hvalid]
      dsimp only [Bind.bind, Except.bind]
      rw [if_neg (not_not.mpr hlookup)]
      refine ih hrows.2 fun key other hmem hother ↦ ?_
      have hne : key ≠ name := by
        rintro rfl
        exact hrows.1 (List.mem_map.mpr ⟨_, hmem, rfl⟩)
      refine hsame key other (List.mem_cons_of_mem _ hmem) ?_
      rw [← isMerged_congr rfl (AList.lookup_insert_ne hne)]
      exact hother
    · rw [if_neg hmerged]
      exact ih hrows.2 fun key other hmem ↦ hsame key other (List.mem_cons_of_mem _ hmem)

/-- A merge that is repeated leaves the table, whether or not the first was remembered. -/
theorem mergePrices_repeated (h : mergePrices current metadata incoming = (.ok next, merged))
    {remembered : SyncMetadata} (hsuppressed : remembered.suppressed = metadata.suppressed)
    (hrecords : remembered.records = merged.records ∨ remembered.records = metadata.records) :
    (mergePrices next remembered incoming).1 = .ok next := by
  have hsame : ∀ key row, (key, row) ∈ ClientConfig.members incoming →
      isMerged next remembered.suppressed remembered.records key row = true →
        row.price.validate = .ok () ∧ next.models.lookup key = some row.price := by
    intro key row hmem hmerged
    have hrow := ClientConfig.mem_members.mp hmem
    obtain ⟨other, hother, -, hvalid, hlookup, -⟩ | ⟨hnone, hlookup, hrecord⟩ :=
      mergePrices_spec h key
    · obtain rfl := Option.some.inj (hrow.symm.trans hother)
      exact ⟨hvalid, hlookup⟩
    · -- what was not merged is not merged now
      have hkept : remembered.records.lookup key = metadata.records.lookup key := by
        obtain heq | heq := hrecords
        · rw [heq, hrecord]
        · rw [heq]
      rw [hsuppressed, isMerged_congr hlookup hkept, hnone row hrow] at hmerged
      nomatch hmerged
  obtain ⟨records, hrows⟩ := mergeRows_of_same (members_keys_nodup incoming) hsame
  rw [mergePrices, hrows]
  rfl

end Merge

/-! ## Who wrote a row last -/

inductive Writer where
  | operator
  | deletion
  | synced (source identity : String)
  deriving DecidableEq

/-- Who changes a row by a step. -/
def Step.writer (step : Step) (key : String) : Option Writer :=
  match step with
  | .synchronize round =>
    (round.incoming.lookup key).map fun row ↦ .synced row.source row.identity
  | .manual edit => some (if edit.price.isSome then .operator else .deletion)

/-- The files, and who changed each row last. -/
structure History where
  files : PriceFiles
  writer : String → Option Writer

/-- Without metadata every row is the operator's. -/
def History.start (table : PricingConfig) : History where
  files := { table, metadata := {} }
  writer key := (table.models.lookup key).map fun _ ↦ .operator

def History.next (history : History) (step : Step) : History where
  files := history.files.step step
  writer key :=
    if (history.files.step step).table.models.lookup key = history.files.table.models.lookup key
    then history.writer key
    else step.writer key

/-- What a round does to the rows of the operator and of others. -/
structure Respects (history : History) (round : Round) : Prop where
  operator : ∀ key, history.writer key = some .operator →
    (synchronize history.files round).table.models.lookup key =
      history.files.table.models.lookup key
  deletion : ∀ key, history.writer key = some .deletion →
    (synchronize history.files round).table.models.lookup key = none
  /-- A row of the channel itself is replaced by the channel only. -/
  channel : ∀ key identity, history.writer key = some (.synced "provider" identity) →
    (synchronize history.files round).table.models.lookup key =
        history.files.table.models.lookup key ∨
      ∃ row, round.incoming.lookup key = some row ∧ row.source = "provider"
  identity : ∀ key source identity, history.writer key = some (.synced source identity) →
    (synchronize history.files round).table.models.lookup key =
        history.files.table.models.lookup key ∨
      ∃ row, round.incoming.lookup key = some row ∧ row.identity = identity

/-- What the files say of the writer of a row. -/
structure TrackedRow (writer : Option Writer) (price : Option ModelPrice)
    (record : Option SyncedPrice) (isSuppressed : Prop) : Prop where
  recorded : record.isSome → price.isSome
  operator : writer = some .operator → record = none ∧ price.isSome
  deletion : writer = some .deletion → isSuppressed ∧ price = none
  synced : ∀ source identity, writer = some (.synced source identity) → price.isSome ∧
    ∀ row, record = some row → price = some row.price →
      row.identity = identity ∧ (source = "provider" → row.source = "provider")

def Tracked (history : History) : Prop :=
  ∀ key, TrackedRow (history.writer key) (history.files.table.models.lookup key)
    (history.files.metadata.records.lookup key) (key ∈ history.files.metadata.suppressed)

/-- An edit of a row that was deleted is not lost together with the mark of the deletion. -/
def Spares (files : PriceFiles) : Step → Prop
  | .synchronize _ => True
  | .manual edit => edit.price.isSome → edit.key ∈ files.metadata.suppressed →
      files.table.models.lookup edit.key = none →
        ¬ (edit.isMarked = true ∧ edit.isCommitted = false ∧ edit.isRestored = false)

/-! ## What a step does -/

/-- A round commits a merge, whose metadata may be lost, or does nothing. -/
theorem synchronize_cases (files : PriceFiles) (round : Round) :
    synchronize files round = files ∨
    ∃ next merged, mergePrices files.table files.metadata round.incoming = (.ok next, merged) ∧
      (synchronize files round).table = next ∧
      (synchronize files round).metadata.suppressed = files.metadata.suppressed ∧
      ((synchronize files round).metadata.records = merged.records ∨
        (synchronize files round).metadata.records = files.metadata.records) := by
  rw [synchronize]
  split
  next => exact Or.inl rfl
  next next merged hmerge =>
    split
    · exact Or.inl rfl
    · refine Or.inr ⟨next, merged, hmerge, rfl, ?_⟩
      by_cases hsaved : round.metadataIsSaved = true
      · dsimp only
        rw [if_pos hsaved]
        have hsuppressed : merged.suppressed = _ := suppressed_of_mergePrices hmerge
        exact ⟨hsuppressed, Or.inl rfl⟩
      · dsimp only
        rw [if_neg hsaved]
        exact ⟨rfl, Or.inr rfl⟩

/-- The table an edit saves differs in the one row. -/
theorem lookup_next {edit : ManualEdit} {table next : PricingConfig}
    (h : edit.next table = .ok next) :
    next.models.lookup edit.key = edit.price ∧
      next.models.lookup edit.key ≠ table.models.lookup edit.key ∧
      ∀ key, key ≠ edit.key → next.models.lookup key = table.models.lookup key := by
  rw [ManualEdit.next] at h
  split at h
  next price hprice =>
    rw [PricingConfig.nextWithModel] at h
    obtain ⟨⟨⟩, -, h⟩ := except_bind_eq_ok.mp h
    obtain ⟨⟨⟩, -, h⟩ := except_bind_eq_ok.mp h
    obtain ⟨⟨⟩, -, h⟩ := except_bind_eq_ok.mp h
    split at h
    · nomatch h
    next hchanged =>
      obtain ⟨version, -, h⟩ := except_bind_eq_ok.mp h
      obtain rfl := Except.ok.inj h
      rw [AList.lookup_insert, hprice]
      exact ⟨rfl, fun heq ↦ hchanged heq.symm, fun key hkey ↦ AList.lookup_insert_ne hkey⟩
  next hprice =>
    rw [PricingConfig.nextWithoutModel] at h
    obtain ⟨⟨⟩, -, h⟩ := except_bind_eq_ok.mp h
    obtain ⟨⟨⟩, -, h⟩ := except_bind_eq_ok.mp h
    split at h
    · nomatch h
    next hpresent =>
      obtain ⟨version, -, h⟩ := except_bind_eq_ok.mp h
      obtain rfl := Except.ok.inj h
      rw [AList.lookup_erase, hprice]
      refine ⟨rfl, fun heq ↦ hpresent ?_, fun key hkey ↦ AList.lookup_erase_ne hkey⟩
      rw [← heq]
      rfl

/-- An edit commits, or is lost with the row's record, or does nothing. -/
theorem editManually_cases (files : PriceFiles) (edit : ManualEdit) :
    editManually files edit = files ∨
    ∃ next, edit.next files.table = .ok next ∧ edit.isMarked = true ∧
      (editManually files edit).metadata.records = files.metadata.records.erase edit.key ∧
      (editManually files edit).metadata.suppressed =
        (if edit.price.isNone then insert edit.key files.metadata.suppressed
          else files.metadata.suppressed.erase edit.key) ∧
      ((editManually files edit).table = next ∨
        (editManually files edit).table = files.table ∧
          edit.isCommitted = false ∧ edit.isRestored = false) := by
  rw [editManually]
  split
  · exact Or.inl rfl
  next next hnext =>
    rw [markManual]
    by_cases hmarked : edit.isMarked = true
    · rw [if_pos hmarked]
      by_cases hcommitted : edit.isCommitted = true
      · rw [if_pos hcommitted]
        exact Or.inr ⟨next, hnext, hmarked, rfl, rfl, Or.inl rfl⟩
      · rw [if_neg hcommitted]
        by_cases hrestored : edit.isRestored = true
        · exact Or.inl (if_pos hrestored)
        · rw [if_neg hrestored]
          exact Or.inr ⟨next, hnext, hmarked, rfl, rfl, Or.inr ⟨rfl,
            Bool.eq_false_iff.mpr hcommitted, Bool.eq_false_iff.mpr hrestored⟩⟩
    · exact Or.inl (if_neg hmarked)

/-! ## The writers are tracked -/

theorem tracked_start (table : PricingConfig) : Tracked (History.start table) := by
  intro key
  obtain hwriter | ⟨hwriter, hprice⟩ : (History.start table).writer key = none ∨
      (History.start table).writer key = some .operator ∧ (table.models.lookup key).isSome := by
    change (table.models.lookup key).map _ = none ∨ (table.models.lookup key).map _ = _ ∧ _
    cases table.models.lookup key with
    | none => exact Or.inl rfl
    | some price => exact Or.inr ⟨rfl, rfl⟩
  · rw [hwriter]
    exact ⟨fun h ↦ by simp [History.start] at h, (nomatch ·), (nomatch ·), nofun⟩
  · rw [hwriter]
    exact ⟨fun h ↦ by simp [History.start] at h, fun _ ↦ ⟨AList.lookup_empty key, hprice⟩,
      nofun, nofun⟩

/-- What is owned is remembered, with the price it has. -/
theorem isOwned_eq_true {records : SyncedPrices} {key : String} {existing : ModelPrice}
    {incoming : SyncedPrice} (h : isOwned records key existing incoming = true) :
    ∃ record, records.lookup key = some record ∧ record.price = existing ∧
      record.identity = incoming.identity ∧
      (record.source = "provider" → incoming.source = "provider") := by
  obtain ⟨record, hrecord, howned⟩ := (Option.any_eq_true _ _).mp h
  refine ⟨record, hrecord, ?_⟩
  simp only [Bool.and_eq_true, beq_iff_eq, Bool.not_eq_true', Bool.and_eq_false_iff,
    bne_eq_false_iff_eq, beq_eq_false_iff_ne] at howned
  obtain ⟨⟨hprice, hidentity⟩, hsource⟩ := howned
  exact ⟨hprice, hidentity, fun hprovider ↦ hsource.resolve_left (absurd hprovider)⟩

/-- What is merged is not deleted, and not of another. -/
theorem isMerged_eq_true {current : PricingConfig} {suppressed : Finset String}
    {records : SyncedPrices} {key : String} {incoming : SyncedPrice}
    (h : isMerged current suppressed records key incoming = true) :
    key ∉ suppressed ∧ ∀ existing, current.models.lookup key = some existing →
      isOwned records key existing incoming = true := by
  rw [isMerged, Bool.and_eq_true, decide_eq_true_eq, Option.all_eq_true] at h
  exact h

section Tracking

variable {history : History}

/-- What a round merges of a row that somebody wrote. -/
theorem Tracked.merged (htracked : Tracked history) {key : String} {incoming : SyncedPrice}
    {writer : Writer} (hwriter : history.writer key = some writer)
    (h : isMerged history.files.table history.files.metadata.suppressed
      history.files.metadata.records key incoming = true) :
    ∃ source, writer = .synced source incoming.identity ∧
      (source = "provider" → incoming.source = "provider") := by
  obtain ⟨hsuppressed, howned⟩ := isMerged_eq_true h
  cases writer with
  | operator =>
    obtain ⟨hrecord, hpresent⟩ := (htracked key).operator hwriter
    obtain ⟨existing, hexisting⟩ := Option.isSome_iff_exists.mp hpresent
    obtain ⟨record, hlookup, -⟩ := isOwned_eq_true (howned existing hexisting)
    nomatch hrecord.symm.trans hlookup
  | deletion => exact absurd ((htracked key).deletion hwriter).1 hsuppressed
  | synced source identity =>
    obtain ⟨hpresent, hrecords⟩ := (htracked key).synced source identity hwriter
    obtain ⟨existing, hexisting⟩ := Option.isSome_iff_exists.mp hpresent
    obtain ⟨record, hlookup, hprice, hidentity, hsource⟩ :=
      isOwned_eq_true (howned existing hexisting)
    obtain ⟨hsame, hprovider⟩ := hrecords record hlookup (hprice ▸ hexisting)
    rw [← hsame, hidentity]
    exact ⟨source, rfl, fun h ↦ hsource (hprovider h)⟩

/-- A round leaves a row, or it was the channel's to write. -/
theorem Tracked.synchronized (htracked : Tracked history) {round : Round} {key : String}
    {writer : Writer} (hwriter : history.writer key = some writer) :
    (synchronize history.files round).table.models.lookup key =
        history.files.table.models.lookup key ∨
      ∃ source row, writer = .synced source row.identity ∧
        round.incoming.lookup key = some row ∧ (source = "provider" → row.source = "provider") := by
  obtain heq | ⟨next, merged, hmerge, htable, -⟩ := synchronize_cases history.files round
  · exact Or.inl (by rw [heq])
  rw [htable]
  obtain ⟨row, hrow, hmerged, -⟩ | ⟨-, hkept, -⟩ := mergePrices_spec hmerge key
  · obtain ⟨source, hsynced, hprovider⟩ := htracked.merged hwriter hmerged
    exact Or.inr ⟨source, row, hsynced, hrow, hprovider⟩
  · exact Or.inl hkept

theorem Tracked.respects (htracked : Tracked history) (round : Round) :
    Respects history round where
  operator key hwriter := by
    obtain hkept | ⟨source, row, hsynced, -⟩ := htracked.synchronized hwriter
    · exact hkept
    · nomatch hsynced
  deletion key hwriter := by
    obtain hkept | ⟨source, row, hsynced, -⟩ := htracked.synchronized hwriter
    · exact hkept.trans ((htracked key).deletion hwriter).2
    · nomatch hsynced
  channel key identity hwriter := by
    obtain hkept | ⟨source, row, hsynced, hrow, hprovider⟩ := htracked.synchronized hwriter
    · exact Or.inl hkept
    · exact Or.inr ⟨row, hrow, hprovider (Writer.synced.inj hsynced).1.symm⟩
  identity key source identity hwriter := by
    obtain hkept | ⟨source, row, hsynced, hrow, -⟩ := htracked.synchronized hwriter
    · exact Or.inl hkept
    · exact Or.inr ⟨row, hrow, (Writer.synced.inj hsynced).2.symm⟩

/-- A row is tracked after a step, by its writer if the step left it, by the step if not. -/
theorem tracked_next {step : Step} (h : ∀ key,
    let files := history.files.step step
    let price := files.table.models.lookup key
    let record := files.metadata.records.lookup key
    (price = history.files.table.models.lookup key ∧
      TrackedRow (history.writer key) price record (key ∈ files.metadata.suppressed)) ∨
    (price ≠ history.files.table.models.lookup key ∧
      TrackedRow (step.writer key) price record (key ∈ files.metadata.suppressed))) :
    Tracked (history.next step) := by
  intro key
  rw [History.next]
  dsimp only
  obtain ⟨hsame, hrow⟩ | ⟨hchanged, hrow⟩ := h key
  · rw [if_pos hsame]
    exact hrow
  · rw [if_neg hchanged]
    exact hrow

theorem Tracked.synchronize (htracked : Tracked history) (round : Round) :
    Tracked (history.next (.synchronize round)) := by
  refine tracked_next fun key ↦ ?_
  have hrow := htracked key
  dsimp only [PriceFiles.step]
  obtain heq | ⟨next, merged, hmerge, htable, hsuppressed, hrecords⟩ :=
    synchronize_cases history.files round
  · rw [heq]
    exact Or.inl ⟨rfl, hrow⟩
  rw [htable, hsuppressed]
  obtain ⟨row, hincoming, hmerged, -, hprice, hrecord⟩ | ⟨-, hprice, hrecord⟩ :=
    mergePrices_spec hmerge key
  · have hwriter : Step.writer (.synchronize round) key = some (.synced row.source row.identity) :=
      congrArg (Option.map _) hincoming
    rw [hprice]
    by_cases hsame : some row.price = history.files.table.models.lookup key
    · refine Or.inl ⟨hsame, fun _ ↦ rfl, fun hoperator ↦ ?_, fun hdeletion ↦ ?_, ?_⟩
      · obtain ⟨source, hsynced, -⟩ := htracked.merged hoperator hmerged
        nomatch hsynced
      · obtain ⟨source, hsynced, -⟩ := htracked.merged hdeletion hmerged
        nomatch hsynced
      · intro source identity hsynced
        refine ⟨rfl, fun record hlookup hrecordprice ↦ ?_⟩
        obtain ⟨origin, hwritten, hprovider⟩ := htracked.merged hsynced hmerged
        obtain ⟨rfl, rfl⟩ := Writer.synced.inj hwritten
        obtain heq | heq := hrecords
        · rw [heq, hrecord] at hlookup
          obtain rfl := Option.some.inj hlookup
          exact ⟨rfl, hprovider⟩
        · rw [heq] at hlookup
          exact (hrow.synced _ _ hsynced).2 record hlookup (hsame ▸ hrecordprice)
    · refine Or.inr ⟨hsame, fun _ ↦ rfl, ?_, ?_, ?_⟩
      · rw [hwriter]
        exact nofun
      · rw [hwriter]
        exact nofun
      · rw [hwriter]
        intro source identity hsynced
        obtain ⟨rfl, rfl⟩ := Writer.synced.inj (Option.some.inj hsynced)
        refine ⟨rfl, fun record hlookup hrecordprice ↦ ?_⟩
        obtain heq | heq := hrecords
        · rw [heq, hrecord] at hlookup
          obtain rfl := Option.some.inj hlookup
          exact ⟨rfl, id⟩
        · -- what was remembered of the row was as the row, which is no more
          rw [heq] at hlookup
          obtain ⟨existing, hexisting⟩ :=
            Option.isSome_iff_exists.mp (hrow.recorded (by rw [hlookup]; rfl))
          obtain ⟨other, hother, hotherprice, -⟩ :=
            isOwned_eq_true ((isMerged_eq_true hmerged).2 existing hexisting)
          obtain rfl := Option.some.inj (hlookup.symm.trans hother)
          exact absurd (hrecordprice.trans (by rw [hotherprice, hexisting])) hsame
  · -- neither the row nor what is remembered of it is changed
    have hkept : (PriceSync.synchronize history.files round).metadata.records.lookup key =
        history.files.metadata.records.lookup key := by
      obtain heq | heq := hrecords
      · rw [heq, hrecord]
      · rw [heq]
    rw [hprice, hkept]
    exact Or.inl ⟨rfl, hrow⟩

theorem Tracked.edited (htracked : Tracked history) {edit : ManualEdit}
    (hspares : Spares history.files (.manual edit)) :
    Tracked (history.next (.manual edit)) := by
  refine tracked_next fun key ↦ ?_
  have hrow := htracked key
  dsimp only [PriceFiles.step]
  obtain heq | ⟨next, hnext, hmarked, hrecords, hsuppressed, htable⟩ :=
    editManually_cases history.files edit
  · rw [heq]
    exact Or.inl ⟨rfl, hrow⟩
  obtain ⟨hprice, hchanged, hothers⟩ := lookup_next hnext
  rw [hrecords, hsuppressed]
  by_cases hkey : key = edit.key
  · subst hkey
    rw [AList.lookup_erase]
    obtain htable | ⟨htable, hlost⟩ := htable
    · rw [htable]
      refine Or.inr ⟨hchanged, nofun, ?_, ?_, ?_⟩
      · intro hwriter
        rw [Step.writer] at hwriter
        rw [hprice]
        split at hwriter
        next hsome => exact ⟨rfl, hsome⟩
        next => nomatch hwriter
      · intro hwriter
        rw [Step.writer] at hwriter
        rw [hprice]
        split at hwriter
        next => nomatch hwriter
        next hnone =>
          rw [Option.not_isSome_iff_eq_none] at hnone
          rw [hnone]
          exact ⟨Finset.mem_insert_self _ _, rfl⟩
      · intro source identity hwriter
        rw [Step.writer] at hwriter
        split at hwriter
        next => nomatch hwriter
        next => nomatch hwriter
    · rw [htable]
      refine Or.inl ⟨rfl, nofun, fun hwriter ↦ ⟨rfl, (hrow.operator hwriter).2⟩, ?_, ?_⟩
      · intro hwriter
        obtain ⟨hmem, habsent⟩ := hrow.deletion hwriter
        refine ⟨?_, habsent⟩
        split
        next => exact Finset.mem_insert_self _ _
        next hsome =>
          exact absurd ⟨hmarked, hlost⟩
            (hspares (Option.isSome_iff_ne_none.mpr fun h ↦ hsome (by rw [h]; rfl)) hmem habsent)
      · intro source identity hwriter
        exact ⟨(hrow.synced source identity hwriter).1, nofun⟩
  · have hsame : (editManually history.files edit).table.models.lookup key =
        history.files.table.models.lookup key := by
      obtain htable | ⟨htable, -⟩ := htable
      · rw [htable, hothers key hkey]
      · rw [htable]
    have hmem : (key ∈ if edit.price.isNone then insert edit.key history.files.metadata.suppressed
        else history.files.metadata.suppressed.erase edit.key) ↔
          key ∈ history.files.metadata.suppressed := by
      split
      · rw [Finset.mem_insert, or_iff_right hkey]
      · rw [Finset.mem_erase, and_iff_right hkey]
    rw [hsame, hmem, AList.lookup_erase_ne hkey]
    exact Or.inl ⟨rfl, hrow⟩

theorem Tracked.step (htracked : Tracked history) {step : Step}
    (hspares : Spares history.files step) : Tracked (history.next step) := by
  cases step with
  | synchronize round => exact htracked.synchronize round
  | manual edit => exact htracked.edited hspares

end Tracking

/-! ## Runs -/

/-- What is asked of the rounds of a run. -/
structure PricesRespected (table : PricingConfig) (steps : List Step) : Prop where
  rounds : ∀ before round, before ++ [.synchronize round] <+: steps →
    Respects (runSteps History.next (History.start table) before) round
  /-- A merge that fails changes nothing. -/
  failed : ∀ before round, before ++ [.synchronize round] <+: steps →
    let files := (runSteps History.next (History.start table) before).files
    ∀ error merged, mergePrices files.table files.metadata round.incoming = (.error error, merged) →
      merged = files.metadata ∧ synchronize files round = files
  /-- A round that is repeated leaves the table and its version. -/
  repeated : ∀ before round again, before ++ [.synchronize round] <+: steps →
    let files := (runSteps History.next (History.start table) before).files
    again.incoming = round.incoming → round.tableIsSaved = true →
      (synchronize (synchronize files round) again).table = (synchronize files round).table

/-- The table after a round is the table of the merge, or the table before. -/
theorem table_synchronize {files : PriceFiles} {round : Round} {next : PricingConfig}
    {merged : SyncMetadata}
    (h : mergePrices files.table files.metadata round.incoming = (.ok next, merged)) :
    (synchronize files round).table = next ∨
      round.tableIsSaved = false ∧ (synchronize files round).table = files.table := by
  rw [synchronize, h]
  dsimp only
  split
  next hlost => exact Or.inr ⟨hlost.2, rfl⟩
  next => exact Or.inl rfl

theorem synchronize_error {files : PriceFiles} {round : Round} {error : String}
    {merged : SyncMetadata}
    (h : mergePrices files.table files.metadata round.incoming = (.error error, merged)) :
    synchronize files round = files := by
  rw [synchronize, h]

theorem synchronize_repeated {files : PriceFiles} {round again : Round}
    (hincoming : again.incoming = round.incoming) (hsaved : round.tableIsSaved = true) :
    (synchronize (synchronize files round) again).table = (synchronize files round).table := by
  cases hmerge : mergePrices files.table files.metadata round.incoming with
  | mk result merged =>
    cases result with
    | error error =>
      -- what failed fails again
      rw [synchronize_error hmerge, synchronize_error (hincoming ▸ hmerge)]
    | ok next =>
      have htable : (synchronize files round).table = next := by
        obtain htable | ⟨hlost, -⟩ := table_synchronize hmerge
        · exact htable
        · rw [hsaved] at hlost
          nomatch hlost
      have hremembered : (synchronize files round).metadata.suppressed =
            files.metadata.suppressed ∧
          ((synchronize files round).metadata.records = merged.records ∨
            (synchronize files round).metadata.records = files.metadata.records) := by
        obtain heq | ⟨other, othermerged, hother, -, hremembered⟩ := synchronize_cases files round
        · rw [heq]
          exact ⟨rfl, Or.inr rfl⟩
        · obtain ⟨-, rfl⟩ := Prod.mk.inj (hmerge.symm.trans hother)
          exact hremembered
      have hagain := mergePrices_repeated hmerge hremembered.1 hremembered.2
      rw [← hincoming, ← htable] at hagain
      obtain htable' | ⟨-, htable'⟩ := table_synchronize (Prod.ext hagain rfl)
      · exact htable'
      · exact htable'

/-- The rounds of a run respect who wrote a row, if no edit of a row that was deleted is lost
together with the mark. -/
theorem respected_of_spared (table : PricingConfig) (steps : List Step)
    (hspared : ∀ before step, before ++ [step] <+: steps →
      Spares (runSteps History.next (History.start table) before).files step) :
    PricesRespected table steps := by
  have htracked : ∀ {before}, before <+: steps →
      Tracked (runSteps History.next (History.start table) before) := by
    intro before hbefore
    refine prefix_induction (motive := fun before ↦
      Tracked (runSteps History.next (History.start table) before)) ?nil ?snoc hbefore
    case nil => exact tracked_start table
    case snoc =>
      intro before step hstep ih
      rw [runSteps_concat]
      exact ih.step (hspared before step hstep)
  exact {
    rounds := fun before round hround ↦
      (htracked ((List.prefix_append _ _).trans hround)).respects round
    failed := fun before round _ error merged hmerge ↦
      ⟨mergePrices_error hmerge, synchronize_error hmerge⟩
    repeated := fun before round again _ ↦ synchronize_repeated }

/-- A table with one row. -/
def oneRow : PricingConfig where
  version := 1
  models := AList.singleton "relay/fast" { inputPerMtok := 1, outputPerMtok := 2 }

def deleteRow : ManualEdit where
  key := "relay/fast"
  price := none
  isMarked := true
  isCommitted := true
  isRestored := true

/-- The row is written again, but only the mark of the deletion is taken off. -/
def lostEdit : ManualEdit where
  key := "relay/fast"
  price := some { inputPerMtok := 3, outputPerMtok := 4 }
  isMarked := true
  isCommitted := false
  isRestored := false

def catalogRound : Round where
  incoming := AList.singleton "relay/fast"
    { price := { inputPerMtok := 5, outputPerMtok := 6 }, source := "public", identity := "",
      fetchedAtMs := 0 }
  errors := []
  inventory := ""
  nowMs := 0
  tableIsSaved := true
  metadataIsSaved := true

/-- A row that was deleted stays away. -/
theorem respected_of_spared_deletion :
    PricesRespected oneRow [.manual deleteRow, .synchronize catalogRound] := by
  refine respected_of_spared oneRow _ fun before step hstep ↦ ?_
  have hmem : step ∈ [Step.manual deleteRow, .synchronize catalogRound] :=
    hstep.subset (List.mem_append_right _ List.mem_cons_self)
  simp only [List.mem_cons, List.not_mem_nil, or_false] at hmem
  obtain rfl | rfl := hmem
  · exact nofun
  · trivial

/-- After a lost edit the row is there again. -/
theorem not_respected_lostEdit :
    ¬ PricesRespected oneRow
      [.manual deleteRow, .manual lostEdit, .synchronize catalogRound] := by
  intro h
  have hround := (h.rounds [.manual deleteRow, .manual lostEdit] catalogRound
    (List.prefix_refl _)).deletion "relay/fast"
  revert hround
  decide +kernel

end PriceSync

end TokenStation
