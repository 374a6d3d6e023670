import TokenStation.Gateway.Accounting
import TokenStation.Library.Keyset
import TokenStation.Pricing.Cost
import TokenStation.Pricing.PriceLookup

/-!
# Costs that were not known

A request is priced when it settles, from the usage in memory. A request that has no price then is
stored without a cost; once there is a price for it, the ledger is read again page by page, and the
cost is computed from the columns of the row. The ledger keeps five counts, and beside them what was
observed of the usage.

`RateTable.backfilled_eq_settled` says when the two costs are the same, and that one pass over the
ledger is enough.
-/

namespace TokenStation

open Library

/-! ## Tables of prices -/

/-- The rates are `u64`. -/
structure ModelPrice.IsWord (price : ModelPrice) : Prop where
  input : price.inputPerMtok < 2 ^ 64
  output : price.outputPerMtok < 2 ^ 64
  cacheRead : price.cacheReadPerMtok < 2 ^ 64
  cacheWrite : price.cacheWritePerMtok < 2 ^ 64
  short : price.shortRate < 2 ^ 64
  long : price.longRate < 2 ^ 64
  reasoning : price.reasoningRate < 2 ^ 64

theorem ModelPrice.weighted_eq_of_lt (tokens : UInt64) {rate : ℕ} (h : rate < 2 ^ 64) :
    weighted tokens rate = .ok (tokens.toNat * rate) := by
  have hproduct : tokens.toNat * rate ≤ (2 ^ 64 - 1) * (2 ^ 64 - 1) :=
    Nat.mul_le_mul (Nat.le_pred_of_lt tokens.toNat_lt) (Nat.le_pred_of_lt h)
  rw [weighted, if_pos (hproduct.trans (by decide))]

/-- Words are priced without a panic. -/
theorem ModelPrice.costMicros_ne_panic {price : ModelPrice} (h : price.IsWord) (usage : Usage) :
    price.costMicros usage ≠ .panic := by
  rw [costMicros, Usage.cacheWrites_eq, Outcome.ok_bind, weighted_eq_of_lt _ h.short,
    Outcome.ok_bind, weighted_eq_of_lt _ h.long, Outcome.ok_bind,
    weighted_eq_of_lt _ h.cacheWrite, Outcome.ok_bind]
  rintro ⟨⟩

/-- `PriceTable`: every rate is a word. -/
structure RateTable extends PricingConfig where
  words : ∀ key price, models.lookup key = some price → price.IsWord

namespace RateTable

/-- The cost under an entry of the table, and the version that priced it. -/
def costUnder (table : RateTable) (usage : Usage) (found : Option (String × ModelPrice))
    (h : ∀ entry ∈ found, table.models.lookup entry.1 = some entry.2) : Option (ℕ × ℕ) :=
  found.pmap (fun entry hentry ↦
    ((entry.2.costMicros usage).get (ModelPrice.costMicros_ne_panic
      (table.words entry.1 entry.2 hentry) usage), table.version)) h

/-- `PriceTable::price` -/
def price (table : RateTable) (model : String) (usage : Usage) : Option (ℕ × ℕ) :=
  table.costUnder usage (table.modelPrice model) fun _ ↦ PricingConfig.modelPrice_stored

/-- `PriceTable::price_for_upstream` -/
def priceForUpstream (table : RateTable) (upstream model : String) (usage : Usage) :
    Option (ℕ × ℕ) :=
  table.costUnder usage (table.modelPriceForUpstream upstream model)
    fun _ h ↦ (PricingConfig.modelPriceForUpstream_source h).1

end RateTable

/-! ## Settling -/

/-- `can_estimate` -/
def canEstimate (usage : Usage) (observation : Option UsageObservation) : Bool :=
  let complete := observation.all fun observed ↦
    !observed.incomplete && observed.inputTokens.isSome && observed.outputTokens.isSome
  let usage := observation.elim usage (·.apply usage)
  complete
    && (Word.checkedAdd usage.cacheReadTokens usage.cacheWriteTokens).any
      (fun cache ↦ decide (cache ≤ usage.inputTokens))
    && (Word.checkedAdd usage.cacheWrite5mTokens usage.cacheWrite1hTokens).any
      (fun tiers ↦ decide (tiers ≤ usage.cacheWriteTokens))
    && decide (usage.reasoningTokens ≤ usage.outputTokens)

/-- `CostKind` -/
inductive CostKind where
  | actual
  | estimated
  | unknown
  deriving DecidableEq

/-- What `RequestRecord` holds of the cost. -/
structure CostRecord where
  /-- The target that the route decided on. -/
  routing : Option UpstreamModel
  usage : Option Usage
  usageObservation : Option UsageObservation
  costKind : CostKind
  costMicros : Option ℤ
  priceVersion : Option ℕ
  deriving DecidableEq

/-- `settle_estimated_cost` -/
def RateTable.settleEstimatedCost (table : RateTable) (record : CostRecord)
    (served : UpstreamModel) : CostRecord :=
  if record.costKind = .actual then record
  else
    match record.usage with
    | none => record
    | some usage =>
      if canEstimate usage record.usageObservation then
        match table.priceForUpstream served.upstream.name served.model usage with
        | some (cost, version) =>
          { record with
            costKind := .estimated
            costMicros := some cost
            priceVersion := some version }
        | none => record
      else record

/-! ## The ledger -/

inductive UsageSemantics where
  | providerReportedV1
  | canonicalTotalV2
  deriving DecidableEq

/-- The columns of `requests` that a cost is read from and written to. -/
structure LedgerRow where
  id : ℤ
  upstream : Option String
  model : Option String
  inputTokens : Option ℤ
  outputTokens : Option ℤ
  cacheReadTokens : Option ℤ
  cacheWriteTokens : Option ℤ
  reasoningTokens : Option ℤ
  usageSemantics : UsageSemantics
  usageObservation : Option UsageObservation
  costKind : CostKind
  costMicros : Option ℤ
  priceVersion : Option ℕ
  deriving DecidableEq

/-- `wide` -/
def wide (value : UInt64) : ℤ := min value.toNat i64Max

/-- `narrow` -/
def narrow (value : ℤ) : UInt64 := UInt64.ofNat value.toNat

/-- `normalized_cost`: a cost without what it rests on is not stored. -/
def CostRecord.normalizedCost (record : CostRecord) : CostKind × Option ℤ × Option ℕ :=
  match record.costKind, record.costMicros with
  | .actual, some cost =>
    if 0 ≤ cost then (.actual, some cost, record.priceVersion) else (.unknown, none, none)
  | .estimated, some cost =>
    if 0 ≤ cost ∧ record.priceVersion.isSome then (.estimated, some cost, record.priceVersion)
    else (.unknown, none, none)
  | _, _ => (.unknown, none, none)

/-- The row that a record is stored in. -/
def CostRecord.stored (record : CostRecord) (id : ℤ) : LedgerRow where
  id := id
  upstream := record.routing.map (·.upstream.name)
  model := record.routing.map (·.model)
  inputTokens := record.usage.map (wide ·.inputTokens)
  outputTokens := record.usage.map (wide ·.outputTokens)
  cacheReadTokens := record.usage.map (wide ·.cacheReadTokens)
  cacheWriteTokens := record.usage.map (wide ·.cacheWriteTokens)
  reasoningTokens := record.usage.map (wide ·.reasoningTokens)
  usageSemantics := .canonicalTotalV2
  usageObservation := record.usageObservation
  costKind := record.normalizedCost.1
  costMicros := record.normalizedCost.2.1
  priceVersion := record.normalizedCost.2.2

/-- The table, in the order of its primary key. -/
structure Ledger where
  rows : List LedgerRow
  positive : ∀ row ∈ rows, 0 < row.id
  ascending : rows.Pairwise fun row row' ↦ row.id < row'.id

/-! ## The pass over the ledger -/

namespace LedgerRow

/-- The rows that the query selects. -/
def eligible (row : LedgerRow) : Bool :=
  decide (row.costKind = .unknown) && decide (row.usageSemantics = .canonicalTotalV2)
    && row.model.isSome && row.inputTokens.isSome && row.outputTokens.isSome

/-- The usage as far as the columns tell it. -/
def usage (row : LedgerRow) : Usage where
  inputTokens := narrow (row.inputTokens.getD 0)
  outputTokens := narrow (row.outputTokens.getD 0)
  cacheReadTokens := narrow (row.cacheReadTokens.getD 0)
  cacheWriteTokens := narrow (row.cacheWriteTokens.getD 0)
  reasoningTokens := narrow (row.reasoningTokens.getD 0)

/-- `UPDATE requests SET cost_kind = 'estimated', …` -/
def withCost (row : LedgerRow) (cost version : ℕ) : LedgerRow :=
  { row with costKind := .estimated, costMicros := some cost, priceVersion := some version }

end LedgerRow

/-- Where the pass over the ledger is. -/
structure BackfillRun where
  rows : List LedgerRow
  lastId : ℤ := 0
  updated : ℕ := 0
  /-- The rows that were visited so far; no function reads it. -/
  visited : List ℤ := []

namespace RateTable

/-- What a candidate costs. -/
def estimate (table : RateTable) (row : LedgerRow) : Option (ℕ × ℕ) :=
  if canEstimate row.usage row.usageObservation then
    let usage := row.usageObservation.elim row.usage (·.apply row.usage)
    row.model.bind fun model ↦
      match row.upstream with
      | none => table.price model usage
      | some upstream => table.priceForUpstream upstream model usage
  else none

/-- One candidate of a page. -/
def visit (table : RateTable) (run : BackfillRun) (row : LedgerRow) : BackfillRun :=
  let run := { run with lastId := row.id, visited := run.visited ++ [row.id] }
  match table.estimate row with
  | none => run
  | some (cost, version) =>
    -- `WHERE id = ?3 AND cost_kind = 'unknown'`
    let matching (stored : LedgerRow) : Bool :=
      decide (stored.id = row.id) && decide (stored.costKind = .unknown)
    { run with
      rows := run.rows.map fun stored ↦
        if matching stored then stored.withCost cost version else stored
      updated := run.updated + (run.rows.filter matching).length }

def batchSize : ℕ := 500

end RateTable

/-- The next page. -/
def BackfillRun.candidates (run : BackfillRun) : List LedgerRow :=
  pageAfter LedgerRow.id LedgerRow.eligible RateTable.batchSize run.rows run.lastId

namespace RateTable

variable {table : RateTable} {run : BackfillRun}

/-- The row once the pass is over. -/
def revalue (table : RateTable) (row : LedgerRow) : LedgerRow :=
  if row.eligible then
    match table.estimate row with
    | none => row
    | some (cost, version) => row.withCost cost version
  else row

/-! ### One candidate -/

@[simp] theorem id_revalue (row : LedgerRow) : (table.revalue row).id = row.id := by
  rw [revalue]
  split
  · split <;> rfl
  · rfl

theorem revalue_of_not_eligible {row : LedgerRow} (h : row.eligible = false) :
    table.revalue row = row := by
  rw [revalue, h, if_neg Bool.false_ne_true]

theorem unknown_of_eligible {row : LedgerRow} (h : row.eligible = true) :
    row.costKind = .unknown := by
  simp only [LedgerRow.eligible, Bool.and_eq_true, decide_eq_true_iff] at h
  exact h.1.1.1.1

/-- A candidate is the one row of its id. -/
structure IsCandidateOf (rows : List LedgerRow) (row : LedgerRow) : Prop where
  stored : row ∈ rows
  eligible : row.eligible = true
  only : ∀ other ∈ rows, other.id = row.id → other = row

@[simp] theorem visit_lastId (row : LedgerRow) : (table.visit run row).lastId = row.id := by
  rw [visit]
  split <;> rfl

@[simp] theorem visit_visited (row : LedgerRow) :
    (table.visit run row).visited = run.visited ++ [row.id] := by
  rw [visit]
  split <;> rfl

/-- The update of a candidate matches it alone. -/
theorem matching_iff {row stored : LedgerRow} (h : IsCandidateOf run.rows row)
    (hstored : stored ∈ run.rows) :
    (decide (stored.id = row.id) && decide (stored.costKind = .unknown)) = true ↔
      stored = row := by
  rw [Bool.and_eq_true, decide_eq_true_iff, decide_eq_true_iff]
  constructor
  · exact fun hmatch ↦ h.only stored hstored hmatch.1
  · rintro rfl
    exact ⟨rfl, unknown_of_eligible h.eligible⟩

theorem visit_rows {row : LedgerRow} (h : IsCandidateOf run.rows row) :
    (table.visit run row).rows =
      run.rows.map fun stored ↦ if stored = row then table.revalue stored else stored := by
  rw [visit]
  split
  next hnone =>
    refine (List.map_id'' ?_ run.rows).symm
    intro stored
    split
    next heq => rw [heq, revalue, hnone, ite_self]
    next => rfl
  next cost version hsome =>
    refine List.map_congr_left fun stored hstored ↦ ?_
    by_cases heq : stored = row
    · rw [if_pos ((matching_iff h hstored).mpr heq), if_pos heq, heq, revalue, if_pos h.eligible,
        hsome]
    · rw [if_neg (mt (matching_iff h hstored).mp heq), if_neg heq]

/-- Whether there is a price for a row. -/
def isPriced (table : RateTable) (row : LedgerRow) : Bool := (table.estimate row).isSome

theorem visit_updated {row : LedgerRow} (h : IsCandidateOf run.rows row)
    (hnodup : run.rows.Nodup) :
    (table.visit run row).updated = run.updated + if table.isPriced row then 1 else 0 := by
  rw [visit, isPriced]
  split
  next hnone =>
    rw [hnone]
    rfl
  next cost version hsome =>
    have hfilter : (run.rows.filter fun stored ↦ decide (stored.id = row.id) &&
        decide (stored.costKind = .unknown)) = run.rows.filter (· = row) := by
      refine List.filter_congr fun stored hstored ↦ ?_
      rw [Bool.eq_iff_iff, matching_iff h hstored, decide_eq_true_iff]
    dsimp only
    rw [hfilter, List.filter_eq, List.length_replicate, List.count_eq_one_of_mem hnodup h.stored,
      hsome]
    rfl

/-- No id changes. -/
theorem visit_ids (row : LedgerRow) :
    (table.visit run row).rows.map LedgerRow.id = run.rows.map LedgerRow.id := by
  rw [visit]
  split
  · rfl
  · dsimp only
    rw [List.map_map]
    refine List.map_congr_left fun stored _ ↦ ?_
    rw [Function.comp_apply]
    split <;> rfl

/-- Another candidate is left as it was. -/
theorem IsCandidateOf.visit {row other : LedgerRow} (h : IsCandidateOf run.rows other)
    (hrow : IsCandidateOf run.rows row) (hne : other.id ≠ row.id) :
    IsCandidateOf (table.visit run row).rows other := by
  have hother : other ≠ row := fun heq ↦ hne (congrArg LedgerRow.id heq)
  rw [visit_rows hrow]
  refine ⟨List.mem_map.mpr ⟨other, h.stored, if_neg hother⟩, h.eligible,
    fun stored hstored hid ↦ ?_⟩
  obtain ⟨source, hsource, rfl⟩ := List.mem_map.mp hstored
  by_cases heq : source = row
  · rw [if_pos heq, id_revalue, heq] at hid
    exact absurd hid.symm hne
  · rw [if_neg heq] at hid ⊢
    exact h.only source hsource hid

/-! ### One page -/

/-- The candidates of a page, in order. -/
def visitAll (table : RateTable) (run : BackfillRun) (page : List LedgerRow) : BackfillRun :=
  page.foldl table.visit run

theorem visitAll_ids (page : List LedgerRow) :
    (table.visitAll run page).rows.map LedgerRow.id = run.rows.map LedgerRow.id := by
  induction page generalizing run with
  | nil => rfl
  | cons row page ih =>
    rw [visitAll, List.foldl_cons, ← visitAll, ih, visit_ids]

theorem visitAll_lastId (page : List LedgerRow) :
    (table.visitAll run page).lastId = lastKey LedgerRow.id page run.lastId := by
  induction page generalizing run with
  | nil => rfl
  | cons row page ih =>
    rw [visitAll, List.foldl_cons, ← visitAll, ih, visit_lastId, lastKey_cons]

theorem visitAll_visited (page : List LedgerRow) :
    (table.visitAll run page).visited = run.visited ++ page.map LedgerRow.id := by
  induction page generalizing run with
  | nil => exact (List.append_nil _).symm
  | cons row page ih =>
    rw [visitAll, List.foldl_cons, ← visitAll, ih, visit_visited, List.append_assoc]
    rfl

/-- A page revalues its rows, and counts those that it has a price for. -/
theorem visitAll_spec {page : List LedgerRow}
    (hpage : page.Pairwise fun row row' ↦ row.id < row'.id)
    (hcandidates : ∀ row ∈ page, IsCandidateOf run.rows row)
    (hascending : (run.rows.map LedgerRow.id).Pairwise (· < ·)) :
    (table.visitAll run page).rows =
        run.rows.map (fun stored ↦ if stored ∈ page then table.revalue stored else stored) ∧
      (table.visitAll run page).updated =
        run.updated + (page.filter table.isPriced).length := by
  induction page generalizing run with
  | nil => exact ⟨by simp [visitAll], rfl⟩
  | cons row page ih =>
    obtain ⟨hfirst, hpage⟩ := List.pairwise_cons.mp hpage
    obtain ⟨hrow, hrest⟩ := List.forall_mem_cons.mp hcandidates
    have hnodup : run.rows.Nodup := List.Nodup.of_map LedgerRow.id (hascending.imp ne_of_lt)
    obtain ⟨hrows, hupdated⟩ := @ih (table.visit run row) hpage
      (fun other hother ↦ (hrest other hother).visit hrow (hfirst other hother).ne')
      (by rw [visit_ids]; exact hascending)
    rw [visitAll, List.foldl_cons, ← visitAll, hrows, hupdated, visit_rows hrow,
      visit_updated hrow hnodup, List.map_map]
    constructor
    · refine List.map_congr_left fun stored _ ↦ ?_
      rw [Function.comp_apply]
      by_cases heq : stored = row
      · -- the revalued row is not one of the others
        have hnot : table.revalue row ∉ page := by
          intro hmem
          have hlt := hfirst _ hmem
          rw [id_revalue] at hlt
          exact lt_irrefl _ hlt
        rw [if_pos heq, heq, if_neg hnot, if_pos List.mem_cons_self]
      · rw [if_neg heq]
        simp only [List.mem_cons, heq, false_or]
    · rw [List.filter_cons]
      split
      · rw [List.length_cons, Nat.add_assoc, Nat.add_comm 1]
      · rfl

/-! ### The pass -/

/-- Pages of `batchSize` rows, until one is short. -/
def backfillFrom (table : RateTable) (run : BackfillRun) : BackfillRun :=
  if run.candidates.length < batchSize then table.visitAll run run.candidates
  else table.backfillFrom (table.visitAll run run.candidates)
termination_by ((run.rows.map LedgerRow.id).filter (run.lastId < ·)).length
decreasing_by
  have hfull : run.candidates ≠ [] := by
    intro hempty
    have hshort : run.candidates.length < batchSize := by
      rw [hempty]
      decide
    contradiction
  obtain ⟨row, hrow, hkey⟩ := @exists_lastKey _ _ LedgerRow.id run.lastId _ hfull
  rw [visitAll_ids, visitAll_lastId]
  refine length_after_lt (lt_lastKey hfull) (hkey ▸ ?_)
  exact List.mem_map_of_mem (mem_of_mem_pageAfter hrow).1

/-- `backfill_unknown_costs`, on a ledger that exists. -/
def backfill (table : RateTable) (ledger : Ledger) : BackfillRun :=
  if table.models.entries.isEmpty then { rows := ledger.rows }
  else table.backfillFrom { rows := ledger.rows }

/-- What is left to do when the pass is somewhere. -/
structure Completes (table : RateTable) (run result : BackfillRun) : Prop where
  rows : result.rows = run.rows.map fun row ↦
    if run.lastId < row.id then table.revalue row else row
  updated : result.updated = run.updated +
    ((selectedAfter LedgerRow.id LedgerRow.eligible run.rows run.lastId).filter
      table.isPriced).length
  visited : result.visited = run.visited ++
    (selectedAfter LedgerRow.id LedgerRow.eligible run.rows run.lastId).map LedgerRow.id

/-- A selected row is the one row of its id. -/
theorem isCandidateOf_of_mem_selectedAfter {row : LedgerRow}
    (hascending : (run.rows.map LedgerRow.id).Pairwise (· < ·))
    (h : row ∈ selectedAfter LedgerRow.id LedgerRow.eligible run.rows run.lastId) :
    IsCandidateOf run.rows row := by
  obtain ⟨hstored, -, heligible⟩ := mem_selectedAfter.mp h
  have hnodup : (run.rows.map LedgerRow.id).Nodup := hascending.imp ne_of_lt
  exact ⟨hstored, heligible, fun other hother ↦ List.inj_on_of_nodup_map hnodup hother hstored⟩

/-- The rows that a page revalues are the selected ones. -/
theorem visitAll_candidates
    (hascending : (run.rows.map LedgerRow.id).Pairwise (· < ·)) :
    (table.visitAll run run.candidates).rows = run.rows.map (fun stored ↦
        if stored ∈ run.candidates then table.revalue stored else stored) ∧
      (table.visitAll run run.candidates).updated =
        run.updated + (run.candidates.filter table.isPriced).length := by
  have hselected := (List.pairwise_map.mp hascending).filter fun row ↦
    decide (run.lastId < row.id) && row.eligible
  exact visitAll_spec (hselected.sublist (List.take_sublist _ _))
    (fun row hrow ↦ isCandidateOf_of_mem_selectedAfter hascending (List.mem_of_mem_take hrow))
    hascending

/-- A page takes the rows up to its last id through. -/
theorem visited_eq (hascending : (run.rows.map LedgerRow.id).Pairwise (· < ·)) {row : LedgerRow}
    (hrow : row ∈ run.rows) :
    (if row ∈ run.candidates then table.revalue row else row) =
      if run.lastId < row.id ∧ row.id ≤ lastKey LedgerRow.id run.candidates run.lastId then
        table.revalue row else row := by
  have hmem : row ∈ run.candidates ↔ (row ∈ run.rows ∧ run.lastId < row.id ∧
      row.eligible = true) ∧ row.id ≤ lastKey LedgerRow.id run.candidates run.lastId :=
    mem_pageAfter_iff (List.pairwise_map.mp hascending)
  by_cases heligible : row.eligible = true
  · exact if_congr (hmem.trans
      ⟨fun h ↦ ⟨h.1.2.1, h.2⟩, fun h ↦ ⟨⟨hrow, h.1, heligible⟩, h.2⟩⟩) rfl rfl
  · rw [revalue_of_not_eligible (Bool.eq_false_iff.mpr heligible), ite_self, ite_self]

/-- The rows after a page are as they were. -/
theorem visited_eq_self (hascending : (run.rows.map LedgerRow.id).Pairwise (· < ·))
    {row : LedgerRow} (hrow : row ∈ run.rows)
    (hlast : lastKey LedgerRow.id run.candidates run.lastId < row.id) :
    (if row ∈ run.candidates then table.revalue row else row) = row := by
  rw [visited_eq hascending hrow, if_neg fun h ↦ not_le.mpr hlast h.2]

/-- What is selected of the rows once a page was revalued. -/
theorem selectedAfter_visitAll (hascending : (run.rows.map LedgerRow.id).Pairwise (· < ·)) :
    selectedAfter LedgerRow.id LedgerRow.eligible (table.visitAll run run.candidates).rows
        (table.visitAll run run.candidates).lastId =
      selectedAfter LedgerRow.id LedgerRow.eligible run.rows
        (lastKey LedgerRow.id run.candidates run.lastId) := by
  rw [(visitAll_candidates hascending).1, visitAll_lastId, selectedAfter, List.filter_map,
    selectedAfter]
  generalize hlast : lastKey LedgerRow.id run.candidates run.lastId = last
  have hkeeps : ∀ row ∈ run.rows, ((fun row ↦ decide (last < row.id) && row.eligible) ∘
      fun row ↦ if row ∈ run.candidates then table.revalue row else row) row =
        (decide (last < row.id) && row.eligible) := by
    intro row hrow
    rw [Function.comp_apply]
    by_cases hlater : last < row.id
    · rw [visited_eq_self hascending hrow (hlast ▸ hlater)]
    · have hid : (if row ∈ run.candidates then table.revalue row else row).id = row.id := by
        split
        · exact id_revalue row
        · rfl
      rw [hid, decide_eq_false hlater, Bool.false_and, Bool.false_and]
  rw [List.filter_congr hkeeps]
  refine (List.map_congr_left fun row hrow ↦ ?_).trans (List.map_id _)
  obtain ⟨hstored, hselected⟩ := List.mem_filter.mp hrow
  rw [Bool.and_eq_true, decide_eq_true_iff] at hselected
  exact visited_eq_self hascending hstored (hlast ▸ hselected.1)

/-- The pass, from wherever it is. -/
theorem completes_backfillFrom (hascending : (run.rows.map LedgerRow.id).Pairwise (· < ·)) :
    table.Completes run (table.backfillFrom run) := by
  induction run using backfillFrom.induct table with
  | case1 run hshort =>
    rw [backfillFrom, if_pos hshort]
    obtain ⟨hrows, hupdated⟩ := @visitAll_candidates table run hascending
    have hlast : run.candidates =
        selectedAfter LedgerRow.id LedgerRow.eligible run.rows run.lastId :=
      pageAfter_of_short hshort
    constructor
    · rw [hrows]
      refine List.map_congr_left fun row hrow ↦ ?_
      by_cases heligible : row.eligible = true
      · refine if_congr ?_ rfl rfl
        rw [hlast, mem_selectedAfter]
        exact ⟨fun h ↦ h.2.1, fun h ↦ ⟨hrow, h, heligible⟩⟩
      · rw [revalue_of_not_eligible (Bool.eq_false_iff.mpr heligible), ite_self, ite_self]
    · rw [hupdated, hlast]
    · rw [visitAll_visited, hlast]
  | case2 run hfull ih =>
    rw [backfillFrom, if_neg hfull]
    obtain ⟨hrows, hupdated⟩ := @visitAll_candidates table run hascending
    have hrest := ih (by rw [visitAll_ids]; exact hascending)
    have hselected : selectedAfter LedgerRow.id LedgerRow.eligible run.rows run.lastId =
        run.candidates ++ selectedAfter LedgerRow.id LedgerRow.eligible run.rows
          (lastKey LedgerRow.id run.candidates run.lastId) :=
      selectedAfter_eq_append (List.pairwise_map.mp hascending)
    constructor
    · rw [hrest.rows, hrows, visitAll_lastId, List.map_map]
      refine List.map_congr_left fun row hrow ↦ ?_
      rw [Function.comp_apply]
      have hle : run.lastId ≤ lastKey LedgerRow.id run.candidates run.lastId :=
        le_lastKey_pageAfter
      by_cases hlater : lastKey LedgerRow.id run.candidates run.lastId < row.id
      · rw [visited_eq_self hascending hrow hlater, if_pos hlater, if_pos (hle.trans_lt hlater)]
      · rw [visited_eq hascending hrow]
        by_cases hafter : run.lastId < row.id
        · have hpage : run.lastId < row.id ∧
              row.id ≤ lastKey LedgerRow.id run.candidates run.lastId :=
            ⟨hafter, not_lt.mp hlater⟩
          rw [if_pos hpage, id_revalue, if_neg hlater, if_pos hafter]
        · have hpage : ¬ (run.lastId < row.id ∧
              row.id ≤ lastKey LedgerRow.id run.candidates run.lastId) := fun h ↦ hafter h.1
          rw [if_neg hpage, if_neg hlater, if_neg hafter]
    · rw [hrest.updated, selectedAfter_visitAll hascending, hupdated, hselected, List.filter_append,
        List.length_append, Nat.add_assoc]
    · rw [hrest.visited, selectedAfter_visitAll hascending, visitAll_visited, hselected,
        List.map_append, List.append_assoc]

/-! ### The ledger after the pass -/

theorem costUnder_eq_none {usage : Usage} {found : Option (String × ModelPrice)}
    {h : ∀ entry ∈ found, table.models.lookup entry.1 = some entry.2}
    (hempty : table.models.entries.isEmpty = true) : table.costUnder usage found h = none := by
  cases found with
  | none => rfl
  | some entry =>
    have hentry := AList.mem_lookup_iff.mp (h entry rfl)
    rw [List.isEmpty_iff.mp hempty] at hentry
    nomatch hentry

theorem estimate_eq_none {row : LedgerRow} (hempty : table.models.entries.isEmpty = true) :
    table.estimate row = none := by
  rw [estimate]
  split
  · refine Option.bind_eq_none_iff.mpr fun model _ ↦ ?_
    split
    · exact costUnder_eq_none hempty
    · exact costUnder_eq_none hempty
  · rfl

theorem selectedAfter_zero (ledger : Ledger) :
    selectedAfter LedgerRow.id LedgerRow.eligible ledger.rows 0 =
      ledger.rows.filter LedgerRow.eligible := by
  refine List.filter_congr fun row hrow ↦ ?_
  rw [decide_eq_true (ledger.positive row hrow), Bool.true_and]

theorem completes_backfill (ledger : Ledger) :
    table.Completes { rows := ledger.rows } (table.backfillFrom { rows := ledger.rows }) :=
  completes_backfillFrom (List.pairwise_map.mpr ledger.ascending)

/-- Every row is revalued. -/
theorem backfill_rows (ledger : Ledger) :
    (table.backfill ledger).rows = ledger.rows.map table.revalue := by
  rw [backfill]
  split
  next hempty =>
    refine (List.map_id'' (fun row ↦ ?_) _).symm
    rw [revalue, estimate_eq_none hempty, ite_self]
  next =>
    rw [(completes_backfill ledger).rows]
    exact List.map_congr_left fun row hrow ↦ if_pos (ledger.positive row hrow)

theorem backfill_ids (ledger : Ledger) :
    (table.backfill ledger).rows.map LedgerRow.id = ledger.rows.map LedgerRow.id := by
  rw [backfill_rows, List.map_map]
  exact List.map_congr_left fun row _ ↦ id_revalue row

theorem backfill_visited {ledger : Ledger} (h : table.models.entries.isEmpty = false) :
    (table.backfill ledger).visited =
      (ledger.rows.filter LedgerRow.eligible).map LedgerRow.id := by
  rw [backfill, h, if_neg Bool.false_ne_true, (completes_backfill ledger).visited,
    selectedAfter_zero]
  rfl

/-- A revalued row that is still selected has no price. -/
theorem isPriced_of_eligible_revalue {row : LedgerRow}
    (h : (table.revalue row).eligible = true) : table.isPriced (table.revalue row) = false := by
  rw [revalue] at h ⊢
  split at h
  next heligible =>
    rw [if_pos heligible]
    split at h
    next hnone =>
      rw [isPriced, hnone]
      rfl
    next => nomatch unknown_of_eligible h
  next hnot => exact absurd h hnot

/-- What was revalued stays. -/
theorem revalue_revalue (row : LedgerRow) :
    table.revalue (table.revalue row) = table.revalue row := by
  by_cases heligible : (table.revalue row).eligible = true
  · have hnone := isPriced_of_eligible_revalue heligible
    rw [isPriced, Option.isSome_eq_false_iff, Option.isNone_iff_eq_none] at hnone
    rw [revalue, if_pos heligible, hnone]
  · exact revalue_of_not_eligible (Bool.eq_false_iff.mpr heligible)

/-- The ledger after the pass. -/
def backfilled (table : RateTable) (ledger : Ledger) : Ledger where
  rows := (table.backfill ledger).rows
  positive row hrow := by
    rw [backfill_rows] at hrow
    obtain ⟨source, hsource, rfl⟩ := List.mem_map.mp hrow
    rw [id_revalue]
    exact ledger.positive source hsource
  ascending := by
    rw [← List.pairwise_map, backfill_ids]
    exact List.pairwise_map.mpr ledger.ascending

theorem backfilled_rows (ledger : Ledger) :
    (table.backfilled ledger).rows = ledger.rows.map table.revalue := backfill_rows ledger

theorem backfill_backfilled (ledger : Ledger) :
    (table.backfill (table.backfilled ledger)).rows = (table.backfill ledger).rows ∧
      (table.backfill (table.backfilled ledger)).updated = 0 := by
  constructor
  · rw [backfill_rows, backfilled_rows, backfill_rows, List.map_map]
    exact List.map_congr_left fun row _ ↦ revalue_revalue row
  · rw [backfill]
    split
    next => rfl
    next =>
      rw [(completes_backfill (table.backfilled ledger)).updated, selectedAfter_zero]
      refine (Nat.zero_add _).trans (List.length_eq_zero_iff.mpr (List.filter_eq_nil_iff.mpr ?_))
      intro row hrow
      obtain ⟨hstored, heligible⟩ := List.mem_filter.mp hrow
      rw [backfilled_rows] at hstored
      obtain ⟨source, -, rfl⟩ := List.mem_map.mp hstored
      rw [isPriced_of_eligible_revalue heligible]
      exact Bool.false_ne_true

end RateTable

/-! ### A settled record -/

namespace CostRecord

/-- The record was settled for a target, and stored without a cost. -/
structure Unpriced (record : CostRecord) (served : UpstreamModel) : Prop where
  routing : record.routing = some served
  notActual : record.costKind ≠ .actual
  noCost : record.normalizedCost = (.unknown, none, none)

/-- The ledger keeps the whole usage: a count is observed, or it has a column that it fits into. -/
structure Keeps (observation : Option UsageObservation) (usage : Usage) : Prop where
  agrees : ∀ observed ∈ observation, observed.apply usage = usage
  input : observation.bind (·.inputTokens) = none → usage.inputTokens.toNat ≤ i64Max
  output : observation.bind (·.outputTokens) = none → usage.outputTokens.toNat ≤ i64Max
  cacheRead : observation.bind (·.cacheReadTokens) = none → usage.cacheReadTokens.toNat ≤ i64Max
  cacheWrite : observation.bind (·.cacheWriteTokens) = none →
    usage.cacheWriteTokens.toNat ≤ i64Max
  short : observation.bind (·.cacheWrite5mTokens) = none → usage.cacheWrite5mTokens = 0
  long : observation.bind (·.cacheWrite1hTokens) = none → usage.cacheWrite1hTokens = 0
  reasoning : observation.bind (·.reasoningTokens) = none → usage.reasoningTokens.toNat ≤ i64Max

theorem narrow_wide {count : UInt64} (h : count.toNat ≤ i64Max) : narrow (wide count) = count := by
  rw [narrow, wide, min_eq_left (by exact_mod_cast h), Int.toNat_natCast, UInt64.ofNat_toNat]

/-- A count that was observed, or that fits, is read back. -/
theorem getD_narrow_wide {observed : Option UInt64} {count : UInt64}
    (hagrees : observed.getD count = count) (hfits : observed = none → count.toNat ≤ i64Max) :
    observed.getD (narrow (wide count)) = count := by
  cases observed with
  | none => exact narrow_wide (hfits rfl)
  | some value => exact hagrees

theorem getD_zero {observed : Option UInt64} {count : UInt64}
    (hagrees : observed.getD count = count) (hzero : observed = none → count = 0) :
    observed.getD 0 = count := by
  cases observed with
  | none => exact (hzero rfl).symm
  | some value => exact hagrees

variable {record : CostRecord} {served : UpstreamModel} {usage : Usage} {id : ℤ}

/-- The usage is read back, but for a count that no price uses. -/
theorem apply_usage_stored (husage : record.usage = some usage)
    (h : Keeps record.usageObservation usage) :
    record.usageObservation.elim (record.stored id).usage (·.apply (record.stored id).usage) =
      { usage with explicitCacheReadTokens := 0 } := by
  have hcolumns : (record.stored id).usage =
      { inputTokens := narrow (wide usage.inputTokens)
        outputTokens := narrow (wide usage.outputTokens)
        cacheReadTokens := narrow (wide usage.cacheReadTokens)
        cacheWriteTokens := narrow (wide usage.cacheWriteTokens)
        reasoningTokens := narrow (wide usage.reasoningTokens) } := by
    rw [LedgerRow.usage, stored, husage]
    rfl
  rw [hcolumns]
  cases hobservation : record.usageObservation with
  | none =>
    rw [hobservation] at h
    rw [Option.elim_none, narrow_wide (h.input rfl), narrow_wide (h.output rfl),
      narrow_wide (h.cacheRead rfl), narrow_wide (h.cacheWrite rfl), narrow_wide (h.reasoning rfl),
      h.short rfl, h.long rfl]
  | some observed =>
    rw [hobservation] at h
    have hagrees := h.agrees observed rfl
    have hfield : ∀ count : Usage → UInt64, count (observed.apply usage) = count usage :=
      fun count ↦ congrArg count hagrees
    rw [Option.elim_some, UsageObservation.apply]
    dsimp only
    rw [getD_narrow_wide (hfield Usage.inputTokens) h.input,
      getD_narrow_wide (hfield Usage.outputTokens) h.output,
      getD_narrow_wide (hfield Usage.cacheReadTokens) h.cacheRead,
      getD_narrow_wide (hfield Usage.cacheWriteTokens) h.cacheWrite,
      getD_narrow_wide (hfield Usage.reasoningTokens) h.reasoning,
      getD_zero (hfield Usage.cacheWrite5mTokens) h.short,
      getD_zero (hfield Usage.cacheWrite1hTokens) h.long]

/-- What is checked is the usage with what was observed of it. -/
theorem canEstimate_congr {usage' : Usage} {observation : Option UsageObservation}
    (h : observation.elim usage' (·.apply usage') =
      { observation.elim usage (·.apply usage) with explicitCacheReadTokens := 0 }) :
    canEstimate usage' observation = canEstimate usage observation := by
  rw [canEstimate, h]
  rfl

theorem elim_apply_of_keeps (h : Keeps record.usageObservation usage) :
    record.usageObservation.elim usage (·.apply usage) = usage := by
  cases hobservation : record.usageObservation with
  | none => rfl
  | some observed => exact h.agrees observed hobservation

/-- No price uses the explicit cache reads. -/
theorem priceForUpstream_explicit (table : RateTable) (upstream model : String) (usage : Usage) :
    table.priceForUpstream upstream model { usage with explicitCacheReadTokens := 0 } =
      table.priceForUpstream upstream model usage := by
  rw [RateTable.priceForUpstream, RateTable.priceForUpstream, RateTable.costUnder,
    RateTable.costUnder]
  rfl

theorem eligible_stored (h : record.Unpriced served) :
    (record.stored id).eligible = record.usage.isSome := by
  rw [LedgerRow.eligible, stored, h.noCost, h.routing]
  cases record.usage <;> rfl

/-- What a candidate costs is what it would have settled for. -/
theorem estimate_stored {table : RateTable} (h : record.Unpriced served)
    (husage : record.usage = some usage) (hkeeps : Keeps record.usageObservation usage) :
    table.estimate (record.stored id) =
      if canEstimate usage record.usageObservation then
        table.priceForUpstream served.upstream.name served.model usage
      else none := by
  have happly := @apply_usage_stored record usage id husage hkeeps
  have hcan : canEstimate (record.stored id).usage record.usageObservation =
      canEstimate usage record.usageObservation := by
    apply canEstimate_congr
    rw [happly, elim_apply_of_keeps hkeeps]
  have hobservation : (record.stored id).usageObservation = record.usageObservation := rfl
  have hmodel : (record.stored id).model = some served.model := by
    rw [stored, h.routing]
    rfl
  have hupstream : (record.stored id).upstream = some served.upstream.name := by
    rw [stored, h.routing]
    rfl
  rw [RateTable.estimate, hobservation, hcan, happly, hmodel, hupstream, Option.bind_some]
  exact if_congr Iff.rfl (priceForUpstream_explicit table _ _ usage) rfl

/-- The row of a record is revalued as the record would have been settled. -/
theorem revalue_stored {table : RateTable} (h : record.Unpriced served)
    (hkeeps : ∀ usage ∈ record.usage, Keeps record.usageObservation usage) :
    table.revalue (record.stored id) = (table.settleEstimatedCost record served).stored id := by
  rw [RateTable.revalue, eligible_stored h, RateTable.settleEstimatedCost, if_neg h.notActual]
  cases husage : record.usage with
  | none => rfl
  | some usage =>
    rw [estimate_stored h husage (hkeeps usage husage)]
    dsimp only [Option.isSome_some]
    rw [if_pos rfl]
    by_cases hcan : canEstimate usage record.usageObservation = true
    · rw [if_pos hcan, if_pos hcan]
      cases table.priceForUpstream served.upstream.name served.model usage with
      | none => rfl
      | some priced => simp [stored, LedgerRow.withCost, normalizedCost, husage]
    · rw [if_neg hcan, if_neg hcan]

end CostRecord

namespace RateTable

/-! ### The law -/

/-- What is asked of the pass over a ledger. -/
structure BackfilledAsSettled (table : RateTable) (ledger : Ledger) : Prop where
  /-- The row is the one that the record would have been stored in with these prices. -/
  settled : ∀ (record : CostRecord) (served : UpstreamModel) (id : ℤ),
    record.Unpriced served →
    (∀ usage ∈ record.usage, CostRecord.Keeps record.usageObservation usage) →
    record.stored id ∈ ledger.rows →
      (table.settleEstimatedCost record served).stored id ∈ (table.backfill ledger).rows
  kept : ∀ row ∈ ledger.rows,
    row.costKind ≠ .unknown ∨ row.usageSemantics = .providerReportedV1 →
      row ∈ (table.backfill ledger).rows
  ids : (table.backfill ledger).rows.map LedgerRow.id = ledger.rows.map LedgerRow.id
  visited : table.models.entries.isEmpty = false →
    (table.backfill ledger).visited = (ledger.rows.filter LedgerRow.eligible).map LedgerRow.id
  once : (table.backfill ledger).visited.Nodup
  repeated : (table.backfill (table.backfilled ledger)).rows = (table.backfill ledger).rows ∧
    (table.backfill (table.backfilled ledger)).updated = 0

/-- A cost that is written later is the one that would have been settled. -/
theorem backfilled_eq_settled (table : RateTable) (ledger : Ledger) :
    table.BackfilledAsSettled ledger := by
  refine ⟨fun record served id hunpriced hkeeps hmem ↦ ?_, fun row hrow hkind ↦ ?_,
    backfill_ids ledger, backfill_visited, ?_, backfill_backfilled ledger⟩
  · rw [backfill_rows, ← CostRecord.revalue_stored hunpriced hkeeps]
    exact List.mem_map_of_mem hmem
  · have hnot : row.eligible = false := by
      rw [LedgerRow.eligible]
      obtain hknown | hsemantics := hkind
      · rw [decide_eq_false hknown]
        rfl
      · rw [hsemantics]
        simp only [reduceCtorEq, decide_false, Bool.and_false, Bool.false_and]
    rw [backfill_rows]
    exact List.mem_map.mpr ⟨row, hrow, revalue_of_not_eligible hnot⟩
  · cases hempty : table.models.entries.isEmpty with
    | false =>
      have hids := (List.pairwise_map.mpr ledger.ascending).sublist
        ((@List.filter_sublist _ LedgerRow.eligible ledger.rows).map LedgerRow.id)
      rw [backfill_visited hempty]
      exact hids.imp ne_of_lt
    | true =>
      rw [backfill, if_pos hempty]
      exact List.nodup_nil

/-- A price with a rate of its own for the shorter cache. -/
def shortTierTable : RateTable where
  version := 1
  models := AList.singleton "model"
    { cacheWritePerMtok := 1000000, cacheWrite5mPerMtok := some 2000000 }
  words key price h := by
    have hentry := List.mem_singleton.mp (AList.mem_lookup_iff.mp h)
    obtain ⟨-, hprice⟩ := Sigma.mk.inj hentry
    obtain rfl := eq_of_heq hprice
    constructor <;> decide

/-- A record with a count that has no column and was not observed. -/
def shortTierRecord : CostRecord where
  routing := some ⟨⟨"relay", by decide +kernel⟩, "model"⟩
  usage := some { inputTokens := 10, cacheWriteTokens := 10, cacheWrite5mTokens := 10 }
  usageObservation := none
  costKind := .unknown
  costMicros := none
  priceVersion := none

def shortTierLedger : Ledger where
  rows := [shortTierRecord.stored 1]
  positive := by decide
  ascending := by decide

theorem not_backfilled_eq_settled :
    shortTierRecord.Unpriced ⟨⟨"relay", by decide +kernel⟩, "model"⟩ ∧
      shortTierRecord.stored 1 ∈ shortTierLedger.rows ∧
      (shortTierTable.settleEstimatedCost shortTierRecord
        ⟨⟨"relay", by decide +kernel⟩, "model"⟩).stored 1 ∉
          (shortTierTable.backfill shortTierLedger).rows := by
  refine ⟨⟨rfl, by decide, rfl⟩, List.mem_cons_self, ?_⟩
  rw [backfill_rows]
  decide +kernel

end RateTable

end TokenStation
