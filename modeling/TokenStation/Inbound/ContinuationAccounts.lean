import TokenStation.Inbound.Retention
import TokenStation.Library.Weights

/-!
# The accounts of the store

The store keeps a running total of what it remembers, and compares it with a limit before it takes
anything in. The total is right after any operations, at any readings of the clock: every removal
subtracts what is there. What is in flight goes only by its own end or its own age, and histories
make room in the order of their sequence numbers.
-/

namespace TokenStation

namespace ContinuationStore

open Library

/-! ## Right accounts -/

def historyWeight (entry : Sigma fun _ : String × String ↦ ContinuationHistory) : ℕ := entry.2.bytes

def pendingWeight (entry : Sigma fun _ : String ↦ PendingContinuation) : ℕ := entry.2.bytes

def historyBytes (store : ContinuationStore) : ℕ := weight historyWeight store.history

def pendingBytes (store : ContinuationStore) : ℕ := weight pendingWeight store.pending

/-- The total is what is remembered, and every limit is kept. -/
structure Accounted (store : ContinuationStore) : Prop where
  total : store.totalBytes = store.historyBytes + store.pendingBytes
  fits : store.totalBytes ≤ maxContinuationTotalBytes
  historyEntry : ∀ {key entry}, store.history.lookup key = some entry →
    entry.bytes ≤ maxContinuationEntryBytes
  pendingEntry : ∀ {key entry}, store.pending.lookup key = some entry →
    entry.bytes ≤ maxContinuationEntryBytes
  histories : store.history.entries.length ≤ maxContinuationEntries
  pendings : store.pending.entries.length ≤ maxPendingContinuations

variable {store : ContinuationStore}

theorem accounted_empty : Accounted {} where
  total := rfl
  fits := Nat.zero_le _
  historyEntry := nofun
  pendingEntry := nofun
  histories := Nat.zero_le _
  pendings := Nat.zero_le _

theorem Accounted.bytes_le_of_history (h : Accounted store) {key : String × String}
    {entry : ContinuationHistory} (hentry : store.history.lookup key = some entry) :
    entry.bytes ≤ store.totalBytes := by
  have hle : entry.bytes ≤ store.historyBytes := le_weight historyWeight hentry
  rw [h.total]
  exact hle.trans (Nat.le_add_right _ _)

theorem Accounted.bytes_le_of_pending (h : Accounted store) {key : String}
    {entry : PendingContinuation} (hentry : store.pending.lookup key = some entry) :
    entry.bytes ≤ store.totalBytes := by
  have hle : entry.bytes ≤ store.pendingBytes := le_weight pendingWeight hentry
  rw [h.total]
  exact hle.trans (Nat.le_add_left _ _)

theorem Accounted.removeHistory (h : Accounted store) (key : String × String) :
    Accounted (store.removeHistory key) := by
  rw [ContinuationStore.removeHistory]
  split
  next => exact h
  next entry hentry =>
    have hweight : store.historyBytes = entry.bytes +
        weight historyWeight (store.history.erase key) :=
      weight_erase historyWeight hentry
    have hlength := length_erase_of_lookup hentry
    have htotal := h.total
    have hfits := h.fits
    have hhistories := h.histories
    refine ⟨?_, ?_, fun hlookup ↦ h.historyEntry (lookup_erase_eq_some hlookup).2, h.pendingEntry,
      ?_, h.pendings⟩
    · change store.totalBytes - entry.bytes =
        weight historyWeight (store.history.erase key) + store.pendingBytes
      omega
    · change store.totalBytes - entry.bytes ≤ maxContinuationTotalBytes
      omega
    · change (store.history.erase key).entries.length ≤ maxContinuationEntries
      omega

theorem Accounted.abandon (h : Accounted store) (key : String) : Accounted (store.abandon key) := by
  rw [ContinuationStore.abandon]
  split
  next => exact h
  next entry hentry =>
    have hweight : store.pendingBytes = entry.bytes +
        weight pendingWeight (store.pending.erase key) :=
      weight_erase pendingWeight hentry
    have hlength := length_erase_of_lookup hentry
    have htotal := h.total
    have hfits := h.fits
    have hpendings := h.pendings
    refine ⟨?_, ?_, h.historyEntry, fun hlookup ↦ h.pendingEntry (lookup_erase_eq_some hlookup).2,
      h.histories, ?_⟩
    · change store.totalBytes - entry.bytes =
        store.historyBytes + weight pendingWeight (store.pending.erase key)
      omega
    · change store.totalBytes - entry.bytes ≤ maxContinuationTotalBytes
      omega
    · change (store.pending.erase key).entries.length ≤ maxPendingContinuations
      omega

theorem Accounted.foldl {κ : Type} {op : ContinuationStore → κ → ContinuationStore}
    (hop : ∀ {store}, Accounted store → ∀ key, Accounted (op store key)) (h : Accounted store)
    (keys : List κ) : Accounted (keys.foldl op store) := by
  induction keys generalizing store with
  | nil => exact h
  | cons key keys ih => exact ih (hop h key)

theorem Accounted.prune (h : Accounted store) (now : ℕ) : Accounted (store.prune now) :=
  (h.foldl Accounted.removeHistory _).foldl Accounted.abandon _

theorem Accounted.makeRoom (h : Accounted store) (bytes fuel : ℕ) :
    Accounted (makeRoom bytes fuel store) := by
  induction fuel generalizing store with
  | zero => exact h
  | succ fuel ih =>
    rw [ContinuationStore.makeRoom]
    split_ifs
    · split
      next => exact h
      next key _ => exact ih (h.removeHistory key)
    · exact h

/-- What is reserved is what is in flight. -/
theorem Accounted.reservedBytes (h : Accounted store) :
    store.reservedBytes = store.pendingBytes := by
  have htotal := h.total
  change store.totalBytes - store.historyBytes = store.pendingBytes
  omega

/-! ### Making room -/

theorem pending_removeHistory (store : ContinuationStore) (key : String × String) :
    (store.removeHistory key).pending = store.pending := by
  rw [removeHistory]
  split <;> rfl

theorem oldestHistory_eq_none (h : store.oldestHistory = none) : store.history.entries = [] := by
  rw [oldestHistory, Option.map_eq_none_iff, List.argmin_eq_none] at h
  exact h

theorem oldestHistory_eq_some {key : String × String} (h : store.oldestHistory = some key) :
    ∃ entry, store.history.lookup key = some entry ∧
      ∀ {other kept}, store.history.lookup other = some kept →
        entry.sequence.toNat ≤ kept.sequence.toNat := by
  rw [oldestHistory, Option.map_eq_some_iff] at h
  obtain ⟨⟨key', entry⟩, hmin, rfl⟩ := h
  refine ⟨entry, AList.mem_lookup_iff.mpr (List.argmin_mem hmin), fun {other kept} hkept ↦ ?_⟩
  have hmem : (⟨other, kept⟩ : Sigma fun _ : String × String ↦ ContinuationHistory) ∈
      store.history.entries := AList.mem_lookup_iff.mp hkept
  have hle := List.le_of_mem_argmin hmem hmin
  exact Prod.Lex.monotone_fst _ _ hle

theorem pendingBytes_makeRoom {bytes fuel : ℕ} :
    (makeRoom bytes fuel store).pendingBytes = store.pendingBytes := by
  induction fuel generalizing store with
  | zero => rfl
  | succ fuel ih =>
    rw [makeRoom]
    split_ifs
    · split
      next => rfl
      next key _ =>
        rw [ih, pendingBytes, pendingBytes, pending_removeHistory]
    · rfl

/-- There is room, or nothing is left to make room with. -/
theorem makeRoom_spec {bytes fuel : ℕ} (hfuel : store.history.entries.length ≤ fuel) :
    ((makeRoom bytes fuel store).history.entries.length < maxContinuationEntries ∧
        (makeRoom bytes fuel store).totalBytes + bytes ≤ maxContinuationTotalBytes) ∨
      (makeRoom bytes fuel store).history.entries = [] := by
  induction fuel generalizing store with
  | zero => exact .inr (List.length_eq_zero_iff.mp (Nat.le_zero.mp hfuel))
  | succ fuel ih =>
    rw [makeRoom]
    split_ifs with hfull
    · rcases hold : store.oldestHistory with - | key
      · exact .inr (oldestHistory_eq_none hold)
      · obtain ⟨entry, hentry, -⟩ := oldestHistory_eq_some hold
        have hlength := length_erase_of_lookup hentry
        have hremoved : (store.removeHistory key).history = store.history.erase key := by
          rw [removeHistory, hentry]
        refine ih ?_
        rw [hremoved]
        omega
    · rw [not_or, not_le, not_lt] at hfull
      exact .inl hfull

/-! ### Retaining -/

section Retain

variable {codec : ResponsesCodec} {now : ℕ} {scope responseId : String}
  {messages : List CanonicalMessage} {nativeItems : Option (List JsonValue)}

/-- The store before a turn is taken in: pruned, and without an older turn of the same id. -/
def cleared (store : ContinuationStore) (now : ℕ) (scope responseId : String) :
    ContinuationStore :=
  (store.prune now).removeHistory (scope, responseId)

/-- The turn is not taken in for want of room among the reservations. -/
def Crowded (codec : ResponsesCodec) (store : ContinuationStore) (now : ℕ)
    (scope responseId : String) (messages : List CanonicalMessage)
    (nativeItems : Option (List JsonValue)) : Prop :=
  maxContinuationTotalBytes <
    (store.cleared now scope responseId).pendingBytes + continuationBytes codec messages nativeItems

/-- A turn is too large, or crowded out, or taken in where room was made for it. -/
theorem retain_cases (h : Accounted store) :
    (maxContinuationEntryBytes < continuationBytes codec messages nativeItems ∧
        store.retain codec now scope responseId messages nativeItems = store) ∨
      (continuationBytes codec messages nativeItems ≤ maxContinuationEntryBytes ∧
        Crowded codec store now scope responseId messages nativeItems ∧
        store.retain codec now scope responseId messages nativeItems =
          store.cleared now scope responseId) ∨
      (continuationBytes codec messages nativeItems ≤ maxContinuationEntryBytes ∧
        ¬ Crowded codec store now scope responseId messages nativeItems ∧
        ∃ room, room = makeRoom (continuationBytes codec messages nativeItems)
            (store.cleared now scope responseId).history.entries.length
            (store.cleared now scope responseId) ∧
          room.history.entries.length < maxContinuationEntries ∧
          room.totalBytes + continuationBytes codec messages nativeItems ≤
            maxContinuationTotalBytes ∧
          store.retain codec now scope responseId messages nativeItems = { room with
            nextSequence := room.allocateSequence
            totalBytes := room.totalBytes + continuationBytes codec messages nativeItems
            history := room.history.insert (scope, responseId)
              { messages, nativeItems, createdAtMs := now, sequence := room.allocateSequence
                bytes := continuationBytes codec messages nativeItems } }) := by
  have hcleared : Accounted (store.cleared now scope responseId) := (h.prune now).removeHistory _
  -- what is in flight cannot be evicted, and nothing else is left when room was made
  have hroom := @makeRoom_spec (store.cleared now scope responseId)
    (continuationBytes codec messages nativeItems) _ le_rfl
  have haccounted := hcleared.makeRoom (continuationBytes codec messages nativeItems)
    (store.cleared now scope responseId).history.entries.length
  have hreserved := @pendingBytes_makeRoom (store.cleared now scope responseId)
    (continuationBytes codec messages nativeItems)
    (store.cleared now scope responseId).history.entries.length
  rw [retain]
  dsimp only
  rw [← cleared, hcleared.reservedBytes]
  split_ifs with hlarge hcrowded hstill
  · exact .inl ⟨hlarge, rfl⟩
  · exact .inr (.inl ⟨not_lt.mp hlarge, hcrowded, rfl⟩)
  · obtain ⟨-, hfits⟩ | hempty := hroom
    · exact absurd hfits (not_le.mpr hstill)
    · have hnone : historyBytes (makeRoom (continuationBytes codec messages nativeItems)
          (store.cleared now scope responseId).history.entries.length
          (store.cleared now scope responseId)) = 0 := by
        rw [historyBytes, weight, hempty]
        rfl
      rw [haccounted.total, hnone, hreserved, Nat.zero_add] at hstill
      exact absurd hstill hcrowded
  · refine .inr (.inr ⟨not_lt.mp hlarge, hcrowded, _, rfl, ?_, not_lt.mp hstill, rfl⟩)
    obtain ⟨hlength, -⟩ | hempty := hroom
    · exact hlength
    · rw [hempty]
      decide

theorem Accounted.retain (h : Accounted store) :
    Accounted (store.retain codec now scope responseId messages nativeItems) := by
  have hcleared : Accounted (store.cleared now scope responseId) := (h.prune now).removeHistory _
  obtain ⟨-, hsame⟩ | ⟨-, -, hsame⟩ | ⟨hsmall, -, room, hroom, hlength, hfits, hsame⟩ :=
    @retain_cases store codec now scope responseId messages nativeItems h
  · rw [hsame]
    exact h
  · rw [hsame]
    exact hcleared
  · have haccounted : Accounted room := hroom ▸ hcleared.makeRoom _ _
    -- the turn with this id is gone, and nothing brings it back
    have hnew : room.history.lookup (scope, responseId) = none := by
      rcases hlookup : room.history.lookup (scope, responseId) with - | entry
      · rfl
      · have hkept := (within_makeRoom _ _ _).history (hroom ▸ hlookup)
        nomatch (lookup_removeHistory (store.prune now) (scope, responseId)).symm.trans hkept
    have htotal := haccounted.total
    rw [hsame]
    refine ⟨?_, hfits, fun {key entry} hlookup ↦ ?_, haccounted.pendingEntry, ?_,
      haccounted.pendings⟩
    · rw [historyBytes, weight_insert _ hnew]
      change room.totalBytes + continuationBytes codec messages nativeItems =
        continuationBytes codec messages nativeItems + room.historyBytes + room.pendingBytes
      omega
    · by_cases hkey : key = (scope, responseId)
      · subst hkey
        rw [AList.lookup_insert] at hlookup
        obtain rfl := Option.some.inj hlookup
        exact hsmall
      · rw [AList.lookup_insert_ne hkey] at hlookup
        exact haccounted.historyEntry hlookup
    · rw [length_insert_of_lookup hnew]
      exact hlength

end Retain

theorem Accounted.begin (h : Accounted store) (codec : ResponsesCodec) (now : ℕ)
    (key scope : String) (messages : List CanonicalMessage)
    (nativeItems : Option (List JsonValue)) :
    Accounted (store.begin codec now key scope messages nativeItems).2 := by
  have hpruned := h.prune now
  rw [ContinuationStore.begin]
  split_ifs with hflight hlarge hfull
  · exact hpruned
  · exact hpruned
  · exact hpruned
  · rw [not_or, not_le, not_lt] at hfull
    have hnew : (store.prune now).pending.lookup key = none := by
      rw [Bool.not_eq_true, Option.isSome_eq_false_iff, Option.isNone_iff_eq_none] at hflight
      exact hflight
    have htotal := hpruned.total
    refine ⟨?_, hfull.2, hpruned.historyEntry, fun {given entry} hlookup ↦ ?_,
      hpruned.histories, ?_⟩
    · rw [pendingBytes, weight_insert _ hnew]
      change (store.prune now).totalBytes + continuationBytes codec messages nativeItems =
        (store.prune now).historyBytes +
          (continuationBytes codec messages nativeItems + (store.prune now).pendingBytes)
      omega
    · by_cases hgiven : given = key
      · subst hgiven
        rw [AList.lookup_insert] at hlookup
        obtain rfl := Option.some.inj hlookup
        exact not_lt.mp hlarge
      · rw [AList.lookup_insert_ne hgiven] at hlookup
        exact hpruned.pendingEntry hlookup
    · rw [length_insert_of_lookup hnew]
      exact hfull.1

end ContinuationStore

end TokenStation
