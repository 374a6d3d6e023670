import TokenStation.Library.Saturating
import TokenStation.Library.TwoBucket

/-!
# Self-counted quota accounting

A `SlidingWindow` keeps two saturating counts, the current bucket's and the previous one's, and the
bucket a timestamp falls in is `now / lenMs`. It is a two-bucket counter over the saturating monoid
(`toTwoBucket_record`), so the result of a run of records is a summary of the records and does not
depend on their order. An `AccountLedger` records into several windows at once and inherits that.
-/

namespace TokenStation

open Library

/-! ## Sliding windows -/

/-- A two-bucket sliding-window counter over a fixed period. -/
structure SlidingWindow where
  lenMs : UInt64
  lenMs_pos : 0 < lenMs
  /-- The allowance for one window. -/
  limit : UInt64
  /-- Index of the bucket that `curr` counts. -/
  index : UInt64
  curr : UInt64
  /-- Count in the immediately preceding bucket. -/
  prev : UInt64
  deriving DecidableEq

namespace SlidingWindow

/-- A fresh counter for a window of `lenMs`, at least one. -/
def new (lenMs limit : UInt64) : SlidingWindow where
  lenMs := max lenMs 1
  lenMs_pos := by
    change 0 < if lenMs ≤ 1 then 1 else lenMs
    split
    · decide
    next h => exact UInt64.lt_trans (by decide) (UInt64.not_le.mp h)
  limit := limit
  index := 0
  curr := 0
  prev := 0

def indexAt (window : SlidingWindow) (nowMs : UInt64) : UInt64 := nowMs / window.lenMs

/-- Roll the buckets forward to `nowMs`. -/
def advance (window : SlidingWindow) (nowMs : UInt64) : SlidingWindow :=
  let idx := window.indexAt nowMs
  if idx ≤ window.index then window
  else
    { window with
      prev := if some idx = Word.checkedAdd window.index 1 then window.curr else 0
      curr := 0
      index := idx }

/-- Record `amount` of consumption at `nowMs`. -/
def record (window : SlidingWindow) (nowMs amount : UInt64) : SlidingWindow :=
  let window := window.advance nowMs
  let index := window.indexAt nowMs
  if index = window.index then { window with curr := Word.satAdd window.curr amount }
  else if Word.checkedAdd index 1 = some window.index then
    { window with prev := Word.satAdd window.prev amount }
  else window

/-- The window after a list of records, each a timestamp and an amount. -/
def recordAll (window : SlidingWindow) (records : List (UInt64 × UInt64)) : SlidingWindow :=
  records.foldl (fun window r ↦ window.record r.1 r.2) window

/-! ### The abstract counter -/

/-- The abstract counter of a window. -/
def toTwoBucket (window : SlidingWindow) : TwoBucket Word.Sat :=
  ⟨window.index.toNat, ⟨window.curr⟩, ⟨window.prev⟩⟩

/-- What a record is to the abstract counter of a window of length `lenMs`. -/
def entry (lenMs : UInt64) (r : UInt64 × UInt64) : ℕ × Word.Sat := ((r.1 / lenMs).toNat, ⟨r.2⟩)

@[simp] theorem advance_lenMs (window : SlidingWindow) (nowMs : UInt64) :
    (window.advance nowMs).lenMs = window.lenMs := by
  rw [advance]
  split <;> rfl

@[simp] theorem record_lenMs (window : SlidingWindow) (nowMs amount : UInt64) :
    (window.record nowMs amount).lenMs = window.lenMs := by
  rw [record]
  split_ifs <;> exact window.advance_lenMs nowMs

@[simp] theorem record_limit (window : SlidingWindow) (nowMs amount : UInt64) :
    (window.record nowMs amount).limit = window.limit := by
  rw [record, advance]
  split_ifs <;> rfl

/-- A window is determined by its period, its allowance and its abstract counter. -/
theorem ext_toTwoBucket {window other : SlidingWindow} (hlen : window.lenMs = other.lenMs)
    (hlimit : window.limit = other.limit) (h : window.toTwoBucket = other.toTwoBucket) :
    window = other := by
  obtain ⟨lenMs, pos, limit, index, curr, prev⟩ := window
  obtain ⟨lenMs', pos', limit', index', curr', prev'⟩ := other
  simp only [toTwoBucket, TwoBucket.mk.injEq, UInt64.toNat_inj, Word.Sat.mk.injEq] at h
  obtain ⟨rfl, rfl, rfl⟩ := h
  cases hlen
  cases hlimit
  rfl

/-- Rolling forward refines the abstract counter. -/
theorem toTwoBucket_advance (window : SlidingWindow) (nowMs : UInt64) :
    (window.advance nowMs).toTwoBucket =
      window.toTwoBucket.advance (window.indexAt nowMs).toNat := by
  have hle : window.indexAt nowMs ≤ window.index ↔
      (window.indexAt nowMs).toNat ≤ window.toTwoBucket.index := UInt64.le_iff_toNat_le
  have hnext : some (window.indexAt nowMs) = Word.checkedAdd window.index 1 ↔
      (window.indexAt nowMs).toNat = window.toTwoBucket.index + 1 := by
    rw [eq_comm, Word.checkedAdd_one_eq_some, toTwoBucket]
  rw [advance, TwoBucket.advance]
  by_cases h : window.indexAt nowMs ≤ window.index
  · rw [if_pos h, if_pos (hle.mp h)]
  · rw [if_neg h, if_neg (mt hle.mpr h)]
    by_cases h' : some (window.indexAt nowMs) = Word.checkedAdd window.index 1
    · rw [if_pos h', if_pos (hnext.mp h')]
      rfl
    · rw [if_neg h', if_neg (mt hnext.mpr h')]
      rfl

/-- **Refinement.** A record is a record of the abstract counter. -/
theorem toTwoBucket_record (window : SlidingWindow) (nowMs amount : UInt64) :
    (window.record nowMs amount).toTwoBucket =
      window.toTwoBucket.record (window.indexAt nowMs).toNat ⟨amount⟩ := by
  rw [TwoBucket.record, ← toTwoBucket_advance, record, TwoBucket.file]
  have hindex : (window.advance nowMs).indexAt nowMs = window.indexAt nowMs := by
    rw [indexAt, indexAt, advance_lenMs]
  have hsame : window.indexAt nowMs = (window.advance nowMs).index ↔
      (window.indexAt nowMs).toNat = (window.advance nowMs).toTwoBucket.index :=
    UInt64.toNat_inj.symm
  have hlate : Word.checkedAdd (window.indexAt nowMs) 1 = some (window.advance nowMs).index ↔
      (window.indexAt nowMs).toNat + 1 = (window.advance nowMs).toTwoBucket.index := by
    rw [Word.checkedAdd_one_eq_some, eq_comm, toTwoBucket]
  rw [hindex]
  by_cases h : window.indexAt nowMs = (window.advance nowMs).index
  · rw [if_pos h, if_pos (hsame.mp h)]
    rfl
  · rw [if_neg h, if_neg (mt hsame.mpr h)]
    by_cases h' : Word.checkedAdd (window.indexAt nowMs) 1 = some (window.advance nowMs).index
    · rw [if_pos h', if_pos (hlate.mp h')]
      rfl
    · rw [if_neg h', if_neg (mt hlate.mpr h')]

/-- A run keeps the period and the allowance, and is a run of the abstract counter. -/
theorem recordAll_spec (window : SlidingWindow) (records : List (UInt64 × UInt64)) :
    (window.recordAll records).lenMs = window.lenMs ∧
      (window.recordAll records).limit = window.limit ∧
      (window.recordAll records).toTwoBucket =
        window.toTwoBucket.recordAll (records.map (entry window.lenMs)) := by
  induction records generalizing window with
  | nil => exact ⟨rfl, rfl, rfl⟩
  | cons r records ih =>
    obtain ⟨hlen, hlimit, hrun⟩ := ih (window.record r.1 r.2)
    rw [record_lenMs] at hlen
    rw [record_limit] at hlimit
    refine ⟨hlen, hlimit, ?_⟩
    rw [recordAll, List.foldl_cons, ← recordAll, hrun, toTwoBucket_record, record_lenMs]
    rfl

theorem recordAll_new_toTwoBucket (lenMs limit : UInt64) (records : List (UInt64 × UInt64)) :
    ((new lenMs limit).recordAll records).toTwoBucket =
      TwoBucket.summary (records.map (entry (max lenMs 1))) := by
  rw [(recordAll_spec (new lenMs limit) records).2.2, ← TwoBucket.recordAll_empty]
  rfl

/-- Records in any order leave a fresh window in one state. -/
theorem recordAll_new_perm (lenMs limit : UInt64) {records records' : List (UInt64 × UInt64)}
    (h : records.Perm records') :
    (new lenMs limit).recordAll records = (new lenMs limit).recordAll records' := by
  obtain ⟨hlen, hlimit, -⟩ := recordAll_spec (new lenMs limit) records
  obtain ⟨hlen', hlimit', -⟩ := recordAll_spec (new lenMs limit) records'
  refine ext_toTwoBucket (hlen.trans hlen'.symm) (hlimit.trans hlimit'.symm) ?_
  rw [recordAll_new_toTwoBucket, recordAll_new_toTwoBucket]
  exact TwoBucket.summary_perm (h.map _)

/-- The total of a set of buckets is the saturating sum of the amounts filed there. -/
theorem spent_entry (lenMs : UInt64) (records : List (UInt64 × UInt64)) (p : ℕ → Bool) :
    (TwoBucket.spent (records.map (entry lenMs)) p).word =
      Word.satSum ((records.filter fun r ↦ p (r.1 / lenMs).toNat).map Prod.snd) := by
  rw [TwoBucket.spent, List.filter_map, List.map_map, ← Word.Sat.word_sum, List.map_map]
  rfl

/-- What a fresh window holds after a list of records: the largest bucket number, and the saturating
sums of the amounts in that bucket and in the one just before it. -/
structure Summarizes (window : SlidingWindow) (records : List (UInt64 × UInt64)) : Prop where
  index_zero : records = [] → window.index = 0
  index_mem : records ≠ [] → ∃ r ∈ records, r.1 / window.lenMs = window.index
  index_max : ∀ r ∈ records, r.1 / window.lenMs ≤ window.index
  curr : window.curr =
    Word.satSum ((records.filter fun r ↦ r.1 / window.lenMs = window.index).map Prod.snd)
  prev : window.prev = Word.satSum ((records.filter fun r ↦
    (r.1 / window.lenMs).toNat + 1 = window.index.toNat).map Prod.snd)

theorem recordAll_new_summarizes (lenMs limit : UInt64) (records : List (UInt64 × UInt64)) :
    ((new lenMs limit).recordAll records).Summarizes records := by
  have hlen : ((new lenMs limit).recordAll records).lenMs = max lenMs 1 :=
    (recordAll_spec (new lenMs limit) records).1
  have h := recordAll_new_toTwoBucket lenMs limit records
  generalize (new lenMs limit).recordAll records = window at hlen h
  have hindex : window.index.toNat =
      TwoBucket.lastBucket (records.map (entry (max lenMs 1))) := congrArg TwoBucket.index h
  have hcurr := congrArg (fun s ↦ s.curr.word) h
  have hprev := congrArg (fun s ↦ s.prev.word) h
  simp only [toTwoBucket, TwoBucket.summary, spent_entry, ← hindex] at hcurr hprev
  refine ⟨?_, fun hne ↦ ?_, fun r hr ↦ ?_, ?_, ?_⟩
  · rintro rfl
    rw [← UInt64.toNat_inj, hindex]
    rfl
  · have hentries : records.map (entry (max lenMs 1)) ≠ [] := by simpa using hne
    obtain ⟨s, hs, heq⟩ := TwoBucket.exists_lastBucket hentries
    obtain ⟨r, hr, rfl⟩ := List.mem_map.mp hs
    exact ⟨r, hr, by rw [← UInt64.toNat_inj, hlen, hindex, ← heq, entry]⟩
  · rw [UInt64.le_iff_toNat_le, hindex, hlen]
    exact TwoBucket.le_lastBucket (List.mem_map_of_mem (f := entry (max lenMs 1)) hr)
  · simp only [hcurr, hlen, ← UInt64.toNat_inj]
  · simp only [hprev, hlen]

end SlidingWindow

/-! ## Account ledgers -/

/-- The instantaneous-rate window. -/
def rateWindowMs : UInt64 := 60000

/-- One account's self-counted quota: its reset windows and its rate window. -/
structure AccountLedger where
  windows : List SlidingWindow
  rate : Option SlidingWindow
  deriving DecidableEq

namespace AccountLedger

/-- A ledger with the given reset windows and an optional per-minute rate limit. -/
def new (windows : List SlidingWindow) (rateLimitPerMin : Option UInt64) : AccountLedger where
  windows := windows
  rate := rateLimitPerMin.map fun limit ↦ SlidingWindow.new rateWindowMs limit

/-- Record one exchange: `amount` against every reset window, and one unit against the rate. -/
def record (ledger : AccountLedger) (nowMs amount : UInt64) : AccountLedger where
  windows := ledger.windows.map fun window ↦ window.record nowMs amount
  rate := ledger.rate.map fun rate ↦ rate.record nowMs 1

/-- Whether the ledger counts the same windows as `expected`: periods and allowances agree. -/
def compatibleWith (ledger expected : AccountLedger) : Bool :=
  let sameWindow (left right : SlidingWindow) : Bool :=
    left.lenMs = right.lenMs && left.limit = right.limit
  ledger.windows.length = expected.windows.length
    && (ledger.windows.zip expected.windows).all (fun pair ↦ sameWindow pair.1 pair.2)
    && match ledger.rate, expected.rate with
      | some a, some b => sameWindow a b
      | none, none => true
      | _, _ => false

def recordAll (ledger : AccountLedger) (records : List (UInt64 × UInt64)) : AccountLedger :=
  records.foldl (fun ledger r ↦ ledger.record r.1 r.2) ledger

theorem recordAll_append (ledger : AccountLedger) (records records' : List (UInt64 × UInt64)) :
    ledger.recordAll (records ++ records') = (ledger.recordAll records).recordAll records' :=
  List.foldl_append

/-- A ledger runs its windows side by side. -/
theorem recordAll_eq (ledger : AccountLedger) (records : List (UInt64 × UInt64)) :
    ledger.recordAll records =
      { windows := ledger.windows.map fun window ↦ window.recordAll records
        rate := ledger.rate.map fun rate ↦ rate.recordAll (records.map fun r ↦ (r.1, 1)) } := by
  induction records generalizing ledger with
  | nil => simp [recordAll, SlidingWindow.recordAll]
  | cons r records ih =>
    rw [recordAll, List.foldl_cons, ← recordAll, ih, record]
    simp [SlidingWindow.recordAll, Function.comp_def]

/-- A plan's ledger: fresh windows of the given periods and allowances. -/
def ofPlan (plan : List (UInt64 × UInt64)) (rateLimitPerMin : Option UInt64) : AccountLedger :=
  new (plan.map fun spec ↦ SlidingWindow.new spec.1 spec.2) rateLimitPerMin

theorem recordAll_ofPlan_perm (plan : List (UInt64 × UInt64)) (rateLimitPerMin : Option UInt64)
    {records records' : List (UInt64 × UInt64)} (h : records.Perm records') :
    (ofPlan plan rateLimitPerMin).recordAll records =
      (ofPlan plan rateLimitPerMin).recordAll records' := by
  rw [recordAll_eq, recordAll_eq, ofPlan, new]
  simp only [List.map_map, Option.map_map, Function.comp_def,
    SlidingWindow.recordAll_new_perm _ _ h, SlidingWindow.recordAll_new_perm _ _ (h.map _)]

/-- **Order-independent quota counting.** A window built by `new` summarizes the records it was
given, records in any order leave it in one state, and so `record` commutes on every ledger that
fresh windows and records can reach. -/
theorem quota_counting :
    (∀ (lenMs limit : UInt64) (records : List (UInt64 × UInt64)),
      ((SlidingWindow.new lenMs limit).recordAll records).lenMs = max lenMs 1 ∧
      ((SlidingWindow.new lenMs limit).recordAll records).limit = limit ∧
      ((SlidingWindow.new lenMs limit).recordAll records).Summarizes records) ∧
    (∀ (lenMs limit : UInt64) (records records' : List (UInt64 × UInt64)),
      records.Perm records' →
        (SlidingWindow.new lenMs limit).recordAll records =
          (SlidingWindow.new lenMs limit).recordAll records') ∧
    (∀ (plan : List (UInt64 × UInt64)) (rateLimitPerMin : Option UInt64)
      (records records' : List (UInt64 × UInt64)), records.Perm records' →
        (ofPlan plan rateLimitPerMin).recordAll records =
          (ofPlan plan rateLimitPerMin).recordAll records') ∧
    ∀ (plan : List (UInt64 × UInt64)) (rateLimitPerMin : Option UInt64)
      (records : List (UInt64 × UInt64)) (r s : UInt64 × UInt64),
        (((ofPlan plan rateLimitPerMin).recordAll records).record r.1 r.2).record s.1 s.2 =
          (((ofPlan plan rateLimitPerMin).recordAll records).record s.1 s.2).record r.1 r.2 := by
  refine ⟨fun lenMs limit records ↦ ?_, fun lenMs limit _ _ h ↦ ?_, fun plan rate _ _ h ↦ ?_,
    fun plan rate records r s ↦ ?_⟩
  · obtain ⟨hlen, hlimit, -⟩ := SlidingWindow.recordAll_spec (.new lenMs limit) records
    exact ⟨hlen, hlimit, SlidingWindow.recordAll_new_summarizes lenMs limit records⟩
  · exact SlidingWindow.recordAll_new_perm lenMs limit h
  · exact recordAll_ofPlan_perm plan rate h
  · have hswap : (records ++ [r, s]).Perm (records ++ [s, r]) :=
      (List.Perm.swap s r []).append_left records
    have h := recordAll_ofPlan_perm plan rate hswap
    rwa [recordAll_append, recordAll_append] at h

end AccountLedger

end TokenStation
