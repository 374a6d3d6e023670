import TokenStation.Inbound.ContinuationAccounts

/-!
# Runs of the store

Any operations, with any keys, scopes, sizes and readings of the clock. The accounts hold after each
of them, every subtraction on the way is exact, and a reservation goes only by its own end or its
own age. Histories are evicted oldest first, and for a turn that is then taken in, unless a turn
that is crowded out had an older one of the same id.
-/

namespace TokenStation

namespace ContinuationStore

open Library JsonValue

/-! ## Operations -/

/-- A call of the store's methods. -/
inductive Operation where
  | history (scope responseId : String)
  | begin (key scope : String) (messages : List CanonicalMessage)
      (nativeItems : Option (List JsonValue))
  | abandon (key : String)
  | complete (key responseId : String) (assistantMessages : List CanonicalMessage)
      (nativeOutput : Option (List JsonValue))
  | completeNative (key : String) (response : JsonValue)

/-- What a call that is completed is to be remembered as. -/
structure CompletedTurn where
  scope : String
  responseId : String
  messages : List CanonicalMessage
  nativeItems : Option (List JsonValue)

def completedTurn (store : ContinuationStore) (key responseId : String)
    (assistantMessages : List CanonicalMessage) (nativeOutput : Option (List JsonValue)) :
    Option CompletedTurn :=
  (store.pending.lookup key).map fun pending ↦
    { scope := pending.scope, responseId
      messages := lasting pending.messages ++ assistantMessages
      nativeItems := extendNative pending.nativeItems nativeOutput }

namespace Operation

def run (codec : ResponsesCodec) (now : ℕ) (operation : Operation) (store : ContinuationStore) :
    ContinuationStore :=
  match operation with
  | history scope responseId => (store.find now scope responseId).2
  | begin key scope messages nativeItems => (store.begin codec now key scope messages nativeItems).2
  | abandon key => store.abandon key
  | complete key responseId assistantMessages nativeOutput =>
    store.complete codec now key responseId assistantMessages nativeOutput
  | completeNative key response => store.completeNative codec now key response

/-- The reservation that the operation ends. -/
def ends : Operation → Option String
  | history .. | begin .. => none
  | abandon key | complete key .. | completeNative key _ => some key

/-- The turn that it completes. -/
def turn (codec : ResponsesCodec) (store : ContinuationStore) : Operation → Option CompletedTurn
  | history .. | begin .. | abandon _ => none
  | complete key responseId assistantMessages nativeOutput =>
    store.completedTurn key responseId assistantMessages nativeOutput
  | completeNative key response =>
    match nativeReply response with
    | none => none
    | some (id, output) =>
      match inputMessages codec (array output) with
      | .error _ => none
      | .ok messages => store.completedTurn key id messages (some output)

end Operation

/-- Retain what a turn is to be remembered as. -/
def retainTurn (codec : ResponsesCodec) (now : ℕ) (store : ContinuationStore)
    (turn : CompletedTurn) : ContinuationStore :=
  store.retain codec now turn.scope turn.responseId turn.messages turn.nativeItems

section Operations

variable {codec : ResponsesCodec} {store : ContinuationStore} {now : ℕ} {operation : Operation}

theorem complete_eq (key responseId : String) (assistantMessages : List CanonicalMessage)
    (nativeOutput : Option (List JsonValue)) :
    store.complete codec now key responseId assistantMessages nativeOutput =
      match store.completedTurn key responseId assistantMessages nativeOutput with
      | none => store.abandon key
      | some turn => (store.abandon key).retainTurn codec now turn := by
  rw [complete, completedTurn]
  rcases hpending : store.pending.lookup key with - | pending
  · rw [abandon, hpending]
    rfl
  · rfl

/-- The end of a reservation gives it up, and then retains the turn that it completes. -/
theorem run_of_ends {key : String} (h : operation.ends = some key) :
    operation.run codec now store = match operation.turn codec store with
      | none => store.abandon key
      | some turn => (store.abandon key).retainTurn codec now turn := by
  cases operation with
  | history | begin => nomatch h
  | abandon =>
    obtain rfl := Option.some.inj h
    rfl
  | complete =>
    obtain rfl := Option.some.inj h
    exact complete_eq ..
  | completeNative _ response =>
    obtain rfl := Option.some.inj h
    rw [Operation.run, completeNative, Operation.turn]
    rcases nativeReply response with - | ⟨id, output⟩
    · rfl
    · dsimp only
      rcases inputMessages codec (array output) with error | messages
      · rfl
      · exact complete_eq ..

theorem run_of_not_ends (h : operation.ends = none) :
    operation.run codec now store = store.prune now ∨
      ∃ key entry, (store.prune now).pending.lookup key = none ∧
        (operation.run codec now store).pending = (store.prune now).pending.insert key entry ∧
        (operation.run codec now store).history = (store.prune now).history ∧
        (operation.run codec now store).nextSequence = (store.prune now).nextSequence := by
  cases operation with
  | history => exact .inl rfl
  | begin key scope messages nativeItems =>
    rw [Operation.run, begin]
    split_ifs with hflight hlarge hfull
    · exact .inl rfl
    · exact .inl rfl
    · exact .inl rfl
    · rw [Bool.not_eq_true, Option.isSome_eq_false_iff, Option.isNone_iff_eq_none] at hflight
      exact .inr ⟨key, _, hflight, rfl, rfl, rfl⟩
  | abandon | complete | completeNative => cases h

theorem Accounted.run (h : Accounted store) : Accounted (operation.run codec now store) := by
  rcases hends : operation.ends with - | key
  · cases operation with
    | history => exact h.prune now
    | begin => exact h.begin ..
    | abandon | complete | completeNative => nomatch hends
  · rw [run_of_ends hends]
    rcases operation.turn codec store with - | turn
    · exact h.abandon key
    · exact (h.abandon key).retain

end Operations

/-! ## Pruning -/

section Prune

variable {store : ContinuationStore} {now : ℕ}

theorem history_abandon (store : ContinuationStore) (key : String) :
    (store.abandon key).history = store.history := by
  rw [abandon]
  split <;> rfl

theorem nextSequence_abandon (store : ContinuationStore) (key : String) :
    (store.abandon key).nextSequence = store.nextSequence := by
  rw [abandon]
  split <;> rfl

theorem nextSequence_removeHistory (store : ContinuationStore) (key : String × String) :
    (store.removeHistory key).nextSequence = store.nextSequence := by
  rw [removeHistory]
  split <;> rfl

theorem lookup_abandon_ne {key other : String} (h : other ≠ key) :
    (store.abandon key).pending.lookup other = store.pending.lookup other := by
  rw [abandon]
  split
  · rfl
  · exact AList.lookup_erase_ne h

theorem lookup_removeHistory_ne {key other : String × String} (h : other ≠ key) :
    (store.removeHistory key).history.lookup other = store.history.lookup other := by
  rw [removeHistory]
  split
  · rfl
  · exact AList.lookup_erase_ne h

/-- A field that one operation leaves alone is left alone by many. -/
theorem foldl_frame {κ α : Type} {op : ContinuationStore → κ → ContinuationStore}
    {field : ContinuationStore → α} {keys : List κ}
    (hop : ∀ store, ∀ key ∈ keys, field (op store key) = field store) (store : ContinuationStore) :
    field (keys.foldl op store) = field store := by
  induction keys generalizing store with
  | nil => rfl
  | cons key keys ih =>
    rw [List.foldl_cons, ih fun store other hmem ↦ hop store other (List.mem_cons_of_mem key hmem),
      hop store key List.mem_cons_self]

theorem nextSequence_prune (store : ContinuationStore) (now : ℕ) :
    (store.prune now).nextSequence = store.nextSequence := by
  rw [prune, foldl_frame fun store key _ ↦ nextSequence_abandon store key,
    foldl_frame fun store key _ ↦ nextSequence_removeHistory store key]

theorem lookup_foldl_removeHistory (keys : List (String × String)) (store : ContinuationStore)
    (key : String × String) : (keys.foldl removeHistory store).history.lookup key =
      if key ∈ keys then none else store.history.lookup key := by
  induction keys generalizing store with
  | nil => rfl
  | cons first keys ih =>
    rw [List.foldl_cons, ih]
    by_cases hrest : key ∈ keys
    · rw [if_pos hrest, if_pos (List.mem_cons_of_mem first hrest)]
    · by_cases hfirst : key = first
      · subst hfirst
        rw [if_neg hrest, if_pos List.mem_cons_self, lookup_removeHistory]
      · rw [if_neg hrest, if_neg (by simp [hfirst, hrest]), lookup_removeHistory_ne hfirst]

theorem lookup_abandon (store : ContinuationStore) (key : String) :
    (store.abandon key).pending.lookup key = none := by
  rw [abandon]
  split
  next hnone => exact hnone
  next => exact AList.lookup_erase key store.pending

theorem lookup_foldl_abandon (keys : List String) (store : ContinuationStore) (key : String) :
    (keys.foldl abandon store).pending.lookup key =
      if key ∈ keys then none else store.pending.lookup key := by
  induction keys generalizing store with
  | nil => rfl
  | cons first keys ih =>
    rw [List.foldl_cons, ih]
    by_cases hrest : key ∈ keys
    · rw [if_pos hrest, if_pos (List.mem_cons_of_mem first hrest)]
    · by_cases hfirst : key = first
      · subst hfirst
        rw [if_neg hrest, if_pos List.mem_cons_self, lookup_abandon]
      · rw [if_neg hrest, if_neg (by simp [hfirst, hrest]), lookup_abandon_ne hfirst]

/-- The keys of a map whose entries are so. -/
theorem mem_keys_filter_iff {κ V : Type} [DecidableEq κ] {map : AList fun _ : κ ↦ V} {key : κ}
    {entry : V} {test : (Sigma fun _ : κ ↦ V) → Bool} (h : map.lookup key = some entry) :
    key ∈ (map.entries.filter test).map Sigma.fst ↔ test ⟨key, entry⟩ = true := by
  have hmem := AList.mem_lookup_iff.mp h
  rw [List.mem_map]
  constructor
  · rintro ⟨⟨other, found⟩, hfound, rfl⟩
    obtain ⟨hentries, htest⟩ := List.mem_filter.mp hfound
    obtain rfl := Option.some.inj (h.symm.trans (AList.mem_lookup_iff.mpr hentries))
    exact htest
  · exact fun htest ↦ ⟨_, List.mem_filter.mpr ⟨hmem, htest⟩, rfl⟩

theorem mem_expiredHistory {key : String × String} {entry : ContinuationHistory}
    (h : store.history.lookup key = some entry) :
    key ∈ store.expiredHistory now ↔ continuationTtlMs ≤ now - entry.createdAtMs :=
  (mem_keys_filter_iff h).trans decide_eq_true_iff

theorem mem_expiredPending {key : String} {entry : PendingContinuation}
    (h : store.pending.lookup key = some entry) :
    key ∈ store.expiredPending now ↔ pendingContinuationTtlMs ≤ now - entry.createdAtMs :=
  (mem_keys_filter_iff h).trans decide_eq_true_iff

/-- What is young enough is left. -/
theorem lookup_prune_history (store : ContinuationStore) (now : ℕ) (key : String × String) :
    (store.prune now).history.lookup key =
      (store.history.lookup key).filter fun entry ↦
        decide (now - entry.createdAtMs < continuationTtlMs) := by
  have hframe : (store.prune now).history =
      ((store.expiredHistory now).foldl removeHistory store).history :=
    foldl_frame (fun store key _ ↦ history_abandon store key) _
  rw [hframe, lookup_foldl_removeHistory]
  rcases hlookup : store.history.lookup key with - | entry
  · exact ite_self _
  · rw [Option.filter_some]
    by_cases hold : continuationTtlMs ≤ now - entry.createdAtMs
    · rw [if_pos ((mem_expiredHistory hlookup).mpr hold), if_neg (by simpa using hold)]
    · rw [if_neg (mt (mem_expiredHistory hlookup).mp hold), if_pos (by simpa using hold)]

theorem lookup_prune_pending (store : ContinuationStore) (now : ℕ) (key : String) :
    (store.prune now).pending.lookup key =
      (store.pending.lookup key).filter fun entry ↦
        decide (now - entry.createdAtMs < pendingContinuationTtlMs) := by
  have hframe : ((store.expiredHistory now).foldl removeHistory store).pending = store.pending :=
    foldl_frame (fun store key _ ↦ pending_removeHistory store key) _
  rw [prune, lookup_foldl_abandon, hframe]
  rcases hlookup : store.pending.lookup key with - | entry
  · exact ite_self _
  · rw [Option.filter_some]
    by_cases hold : pendingContinuationTtlMs ≤ now - entry.createdAtMs
    · rw [if_pos ((mem_expiredPending hlookup).mpr hold), if_neg (by simpa using hold)]
    · rw [if_neg (mt (mem_expiredPending hlookup).mp hold), if_pos (by simpa using hold)]

end Prune

/-! ## Subtractions -/

/-- The operands of subtractions, none of which saturates. -/
def Exact (subtractions : List (ℕ × ℕ)) : Prop := ∀ pair ∈ subtractions, pair.2 ≤ pair.1

def historySubtraction (store : ContinuationStore) (key : String × String) : List (ℕ × ℕ) :=
  ((store.history.lookup key).map fun entry ↦ (store.totalBytes, entry.bytes)).toList

def pendingSubtraction (store : ContinuationStore) (key : String) : List (ℕ × ℕ) :=
  ((store.pending.lookup key).map fun entry ↦ (store.totalBytes, entry.bytes)).toList

/-- The subtractions of operations one after another. -/
def subtractionsOf {κ : Type} (op : ContinuationStore → κ → ContinuationStore)
    (subtraction : ContinuationStore → κ → List (ℕ × ℕ)) :
    List κ → ContinuationStore → List (ℕ × ℕ)
  | [], _ => []
  | key :: keys, store =>
    subtraction store key ++ subtractionsOf op subtraction keys (op store key)

def pruneSubtractions (now : ℕ) (store : ContinuationStore) : List (ℕ × ℕ) :=
  subtractionsOf removeHistory historySubtraction (store.expiredHistory now) store ++
    subtractionsOf abandon pendingSubtraction (store.expiredPending now)
      ((store.expiredHistory now).foldl removeHistory store)

def roomSubtractions (bytes : ℕ) : ℕ → ContinuationStore → List (ℕ × ℕ)
  | 0, _ => []
  | fuel + 1, store =>
    if maxContinuationEntries ≤ store.history.entries.length ∨
        maxContinuationTotalBytes < store.totalBytes + bytes then
      match store.oldestHistory with
      | none => []
      | some key =>
        store.historySubtraction key ++ roomSubtractions bytes fuel (store.removeHistory key)
    else []

def retainSubtractions (codec : ResponsesCodec) (now : ℕ) (store : ContinuationStore)
    (turn : CompletedTurn) : List (ℕ × ℕ) :=
  let bytes := continuationBytes codec turn.messages turn.nativeItems
  if maxContinuationEntryBytes < bytes then []
  else
    let cleared := store.cleared now turn.scope turn.responseId
    store.pruneSubtractions now ++
      (store.prune now).historySubtraction (turn.scope, turn.responseId) ++
      [(cleared.totalBytes, cleared.historyBytes)] ++
      if maxContinuationTotalBytes < cleared.reservedBytes + bytes then []
      else roomSubtractions bytes cleared.history.entries.length cleared

/-- The subtractions of the running total that an operation makes, in their order. -/
def Operation.subtractions (codec : ResponsesCodec) (now : ℕ) (operation : Operation)
    (store : ContinuationStore) : List (ℕ × ℕ) :=
  match operation.ends with
  | none => store.pruneSubtractions now
  | some key =>
    store.pendingSubtraction key ++
      ((operation.turn codec store).map (retainSubtractions codec now (store.abandon key))).getD []

section Exactness

variable {store : ContinuationStore} {now : ℕ} {codec : ResponsesCodec}

theorem Exact.append {first second : List (ℕ × ℕ)} (h : Exact first) (h' : Exact second) :
    Exact (first ++ second) := fun pair hpair ↦
  (List.mem_append.mp hpair).elim (h pair) (h' pair)

theorem Accounted.exact_history (h : Accounted store) (key : String × String) :
    Exact (store.historySubtraction key) := by
  rw [historySubtraction]
  rcases hlookup : store.history.lookup key with - | entry
  · exact fun pair hpair ↦ nomatch hpair
  · intro pair hpair
    obtain rfl := List.mem_singleton.mp hpair
    exact h.bytes_le_of_history hlookup

theorem Accounted.exact_pending (h : Accounted store) (key : String) :
    Exact (store.pendingSubtraction key) := by
  rw [pendingSubtraction]
  rcases hlookup : store.pending.lookup key with - | entry
  · exact fun pair hpair ↦ nomatch hpair
  · intro pair hpair
    obtain rfl := List.mem_singleton.mp hpair
    exact h.bytes_le_of_pending hlookup

theorem Accounted.exact_subtractionsOf {κ : Type} {op : ContinuationStore → κ → ContinuationStore}
    {subtraction : ContinuationStore → κ → List (ℕ × ℕ)}
    (hop : ∀ {store}, Accounted store → ∀ key, Accounted (op store key))
    (hexact : ∀ {store}, Accounted store → ∀ key, Exact (subtraction store key))
    (h : Accounted store) (keys : List κ) : Exact (subtractionsOf op subtraction keys store) := by
  induction keys generalizing store with
  | nil => exact fun pair hpair ↦ nomatch hpair
  | cons key keys ih => exact (hexact h key).append (ih (hop h key))

theorem Accounted.exact_prune (h : Accounted store) (now : ℕ) :
    Exact (store.pruneSubtractions now) :=
  (h.exact_subtractionsOf Accounted.removeHistory Accounted.exact_history _).append
    ((h.foldl Accounted.removeHistory _).exact_subtractionsOf Accounted.abandon
      Accounted.exact_pending _)

theorem Accounted.exact_room (h : Accounted store) (bytes fuel : ℕ) :
    Exact (roomSubtractions bytes fuel store) := by
  induction fuel generalizing store with
  | zero => exact fun pair hpair ↦ nomatch hpair
  | succ fuel ih =>
    rw [roomSubtractions]
    split_ifs
    · split
      next => exact fun pair hpair ↦ nomatch hpair
      next key _ => exact (h.exact_history key).append (ih (h.removeHistory key))
    · exact fun pair hpair ↦ nomatch hpair

theorem Accounted.exact_retain (h : Accounted store) (turn : CompletedTurn) :
    Exact (store.retainSubtractions codec now turn) := by
  have hcleared : Accounted (store.cleared now turn.scope turn.responseId) :=
    (h.prune now).removeHistory _
  have hnone : Exact [] := fun pair hpair ↦ nomatch hpair
  have hhistories : Exact [((store.cleared now turn.scope turn.responseId).totalBytes,
      (store.cleared now turn.scope turn.responseId).historyBytes)] := by
    intro pair hpair
    obtain rfl := List.mem_singleton.mp hpair
    rw [hcleared.total]
    exact Nat.le_add_right _ _
  rw [retainSubtractions]
  dsimp only
  split_ifs
  · exact hnone
  · exact (((h.exact_prune now).append ((h.prune now).exact_history _)).append hhistories).append
      hnone
  · exact (((h.exact_prune now).append ((h.prune now).exact_history _)).append hhistories).append
      (hcleared.exact_room _ _)

theorem Accounted.exact_run (h : Accounted store) (operation : Operation) :
    Exact (operation.subtractions codec now store) := by
  rw [Operation.subtractions]
  rcases operation.ends with - | key
  · exact h.exact_prune now
  · refine (h.exact_pending key).append ?_
    rcases operation.turn codec store with - | turn
    · exact fun pair hpair ↦ nomatch hpair
    · exact (h.abandon key).exact_retain turn

end Exactness

/-! ## What is in flight -/

section InFlight

variable {codec : ResponsesCodec} {now : ℕ} {operation : Operation} {store : ContinuationStore}

/-- A reservation is left alone, unless it is its end or it is too old. -/
def KeepsInFlight (codec : ResponsesCodec) (now : ℕ) (operation : Operation)
    (store : ContinuationStore) : Prop :=
  ∀ key entry, store.pending.lookup key = some entry →
    (operation.run codec now store).pending.lookup key = some entry ∨
      operation.ends = some key ∨ pendingContinuationTtlMs ≤ now - entry.createdAtMs

theorem pending_makeRoom {bytes fuel : ℕ} (store : ContinuationStore) :
    (makeRoom bytes fuel store).pending = store.pending := by
  induction fuel generalizing store with
  | zero => rfl
  | succ fuel ih =>
    rw [makeRoom]
    split_ifs
    · split
      next => rfl
      next key _ => rw [ih, pending_removeHistory]
    · rfl

/-- Retaining a turn leaves what is in flight alone, or prunes it. -/
theorem pending_retain (h : Accounted store) (turn : CompletedTurn) :
    (store.retainTurn codec now turn).pending = store.pending ∨
      (store.retainTurn codec now turn).pending = (store.prune now).pending := by
  have hcleared := pending_removeHistory (store.prune now) (turn.scope, turn.responseId)
  obtain ⟨-, hsame⟩ | ⟨-, -, hsame⟩ | ⟨-, -, room, hroom, -, -, hsame⟩ :=
    @retain_cases store codec now turn.scope turn.responseId turn.messages turn.nativeItems h
  · exact .inl (congrArg pending hsame)
  · exact .inr ((congrArg pending hsame).trans hcleared)
  · refine .inr ((congrArg pending hsame).trans ?_)
    change room.pending = (store.prune now).pending
    rw [hroom, pending_makeRoom, cleared, hcleared]

theorem lookup_prune_of_young {key : String} {entry : PendingContinuation}
    (h : store.pending.lookup key = some entry) :
    (store.prune now).pending.lookup key = some entry ∨
      pendingContinuationTtlMs ≤ now - entry.createdAtMs := by
  rw [lookup_prune_pending, h, Option.filter_some]
  by_cases hold : now - entry.createdAtMs < pendingContinuationTtlMs
  · exact .inl (if_pos (decide_eq_true hold))
  · exact .inr (not_lt.mp hold)

theorem keepsInFlight (h : Accounted store) : KeepsInFlight codec now operation store := by
  intro key entry hentry
  have hprune := @lookup_prune_of_young now store key entry hentry
  rcases hends : operation.ends with - | ended
  · obtain hkept | hold := hprune
    · obtain hrun | ⟨new, added, hnew, hrun, -⟩ := @run_of_not_ends codec store now operation hends
      · exact .inl (hrun ▸ hkept)
      · refine .inl ?_
        have hne : key ≠ new := by
          rintro rfl
          nomatch hkept.symm.trans hnew
        rw [hrun, AList.lookup_insert_ne hne, hkept]
    · exact .inr (.inr hold)
  · by_cases hkey : key = ended
    · exact .inr (.inl (congrArg some hkey.symm))
    · have habandoned : (store.abandon ended).pending.lookup key = some entry := by
        rw [lookup_abandon_ne hkey, hentry]
      rw [run_of_ends hends]
      rcases operation.turn codec store with - | turn
      · exact .inl habandoned
      · obtain hsame | hpruned := @pending_retain codec now _ (h.abandon ended) turn
        · exact .inl ((congrArg (AList.lookup key) hsame).trans habandoned)
        · obtain hkept | hold := @lookup_prune_of_young now _ key entry habandoned
          · exact .inl ((congrArg (AList.lookup key) hpruned).trans hkept)
          · exact .inr (.inr hold)

end InFlight

/-! ## Evictions -/

/-- Another sequence number can be handed out. -/
def NoWrap (store : ContinuationStore) : Prop := store.nextSequence.toNat + 1 < 2 ^ 64

/-- Sequence numbers are not above the last one, and no two histories have the same. -/
structure Sequenced (store : ContinuationStore) : Prop where
  below : ∀ {key entry}, store.history.lookup key = some entry →
    entry.sequence.toNat ≤ store.nextSequence.toNat
  distinct : ∀ {key other entry kept}, store.history.lookup key = some entry →
    store.history.lookup other = some kept → entry.sequence.toNat = kept.sequence.toNat →
    key = other

/-- A young history goes only for a turn that is then remembered: it is the one with the same id, or
older than every history that stays. What is new has a sequence number above all that were there. -/
structure EvictsOldestFirst (codec : ResponsesCodec) (now : ℕ) (operation : Operation)
    (store : ContinuationStore) : Prop where
  orderly : ∀ {key entry}, store.history.lookup key = some entry →
    (operation.run codec now store).history.lookup key ≠ some entry →
    now - entry.createdAtMs < continuationTtlMs →
    ∃ newKey new, (operation.run codec now store).history.lookup newKey = some new ∧
      store.history.lookup newKey ≠ some new ∧
      (key = newKey ∨ ∀ other kept, other ≠ newKey →
        (operation.run codec now store).history.lookup other = some kept →
          entry.sequence.toNat < kept.sequence.toNat)
  aged : ∀ {key entry}, (operation.run codec now store).history.lookup key = some entry →
    store.history.lookup key = some entry ∨ ∀ other older,
      store.history.lookup other = some older → older.sequence.toNat < entry.sequence.toNat

/-- A turn that is not too large is crowded out by reservations, and there is an older one of the
same id. -/
def LosesPrevious (codec : ResponsesCodec) (now : ℕ) (operation : Operation)
    (store : ContinuationStore) : Prop :=
  ∃ key turn, operation.ends = some key ∧ operation.turn codec store = some turn ∧
    continuationBytes codec turn.messages turn.nativeItems ≤ maxContinuationEntryBytes ∧
    (((store.abandon key).prune now).history.lookup (turn.scope, turn.responseId)).isSome ∧
    Crowded codec (store.abandon key) now turn.scope turn.responseId turn.messages turn.nativeItems

section Evictions

variable {codec : ResponsesCodec} {now : ℕ} {operation : Operation} {store : ContinuationStore}

theorem toNat_allocateSequence (h : NoWrap store) :
    store.allocateSequence.toNat = store.nextSequence.toNat + 1 := by
  have hsum : (store.nextSequence + 1).toNat = store.nextSequence.toNat + 1 := by
    rw [UInt64.toNat_add, UInt64.toNat_one]
    exact Nat.mod_eq_of_lt h
  change (if store.nextSequence + 1 ≤ 1 then 1 else store.nextSequence + 1).toNat = _
  split
  next hle =>
    rw [UInt64.le_iff_toNat_le, hsum, UInt64.toNat_one] at hle
    rw [UInt64.toNat_one]
    omega
  next => exact hsum

theorem Sequenced.of_kept {store' : ContinuationStore} (h : Sequenced store')
    (hkept : ∀ {key entry}, store.history.lookup key = some entry →
      store'.history.lookup key = some entry)
    (hnext : store.nextSequence = store'.nextSequence) : Sequenced store where
  below hkey := hnext ▸ h.below (hkept hkey)
  distinct hkey hother := h.distinct (hkept hkey) (hkept hother)

theorem nextSequence_makeRoom {bytes fuel : ℕ} (store : ContinuationStore) :
    (makeRoom bytes fuel store).nextSequence = store.nextSequence := by
  induction fuel generalizing store with
  | zero => rfl
  | succ fuel ih =>
    rw [makeRoom]
    split_ifs
    · split
      next => rfl
      next key _ => rw [ih, nextSequence_removeHistory]
    · rfl

/-- Room is made in the order of the sequence numbers. -/
theorem Sequenced.makeRoom_oldest (h : Sequenced store) {bytes fuel : ℕ}
    {key other : String × String} {entry kept : ContinuationHistory}
    (hentry : store.history.lookup key = some entry)
    (hgone : (makeRoom bytes fuel store).history.lookup key ≠ some entry)
    (hkept : (makeRoom bytes fuel store).history.lookup other = some kept) :
    entry.sequence.toNat < kept.sequence.toNat := by
  induction fuel generalizing store with
  | zero => exact absurd hentry hgone
  | succ fuel ih =>
    rw [makeRoom] at hgone hkept
    split_ifs at hgone hkept with hfull
    · rcases hold : store.oldestHistory with - | first
      · rw [hold] at hgone
        exact absurd hentry hgone
      · rw [hold] at hgone hkept
        have hremoved := within_removeHistory store first
        by_cases hkey : key = first
        · subst hkey
          obtain ⟨oldest, holdest, hmin⟩ := oldestHistory_eq_some hold
          obtain rfl := Option.some.inj (hentry.symm.trans holdest)
          have hthere := (within_makeRoom bytes fuel _).history hkept
          refine lt_of_le_of_ne (hmin (hremoved.history hthere)) fun hsame ↦ ?_
          obtain rfl := h.distinct hentry (hremoved.history hthere) hsame
          cases (lookup_removeHistory store key).symm.trans hthere
        · have hseq := h.of_kept hremoved.history (nextSequence_removeHistory store first)
          refine ih hseq ?_ hgone hkept
          rw [lookup_removeHistory_ne hkey, hentry]
    · exact absurd hentry hgone

theorem lookup_cleared_eq_some {ended scope responseId : String} {key : String × String}
    {entry : ContinuationHistory} :
    ((store.abandon ended).cleared now scope responseId).history.lookup key = some entry ↔
      key ≠ (scope, responseId) ∧ store.history.lookup key = some entry ∧
        now - entry.createdAtMs < continuationTtlMs := by
  rw [cleared]
  by_cases hkey : key = (scope, responseId)
  · subst hkey
    rw [lookup_removeHistory]
    exact iff_of_false (by rintro ⟨⟩) fun h ↦ h.1 rfl
  · rw [lookup_removeHistory_ne hkey, lookup_prune_history, history_abandon,
      Option.filter_eq_some_iff, decide_eq_true_iff, and_iff_right hkey]

/-- What an operation does to the histories: nothing, or it only prunes them, or it completes a turn
that is crowded out, or one that is taken in. -/
theorem history_run (h : Accounted store) :
    (operation.run codec now store).history = store.history ∧
        (operation.run codec now store).nextSequence = store.nextSequence ∨
      (operation.run codec now store).history = (store.prune now).history ∧
        (operation.run codec now store).nextSequence = store.nextSequence ∨
      ∃ key turn, operation.ends = some key ∧ operation.turn codec store = some turn ∧
        continuationBytes codec turn.messages turn.nativeItems ≤ maxContinuationEntryBytes ∧
        (Crowded codec (store.abandon key) now turn.scope turn.responseId turn.messages
              turn.nativeItems ∧
            (operation.run codec now store).history =
              ((store.abandon key).cleared now turn.scope turn.responseId).history ∧
            (operation.run codec now store).nextSequence = store.nextSequence ∨
          ¬ Crowded codec (store.abandon key) now turn.scope turn.responseId turn.messages
              turn.nativeItems ∧
            ∃ bytes fuel new, new.sequence = store.allocateSequence ∧
              (operation.run codec now store).history =
                (makeRoom bytes fuel ((store.abandon key).cleared now turn.scope
                  turn.responseId)).history.insert (turn.scope, turn.responseId) new ∧
              (operation.run codec now store).nextSequence = store.allocateSequence) := by
  rcases hends : operation.ends with - | key
  · obtain hrun | ⟨-, -, -, -, hhistory, hnext⟩ :=
      @run_of_not_ends codec store now operation hends
    · exact .inr (.inl ⟨congrArg history hrun,
        (congrArg nextSequence hrun).trans (nextSequence_prune store now)⟩)
    · exact .inr (.inl ⟨hhistory, hnext.trans (nextSequence_prune store now)⟩)
  · have hclearedNext (turn : CompletedTurn) : ((store.abandon key).cleared now turn.scope
        turn.responseId).nextSequence = store.nextSequence := by
      rw [cleared, nextSequence_removeHistory, nextSequence_prune, nextSequence_abandon]
    rcases hturn : operation.turn codec store with - | turn
    · have hrun : operation.run codec now store = store.abandon key := by
        rw [run_of_ends hends, hturn]
      exact .inl ⟨hrun ▸ history_abandon store key, hrun ▸ nextSequence_abandon store key⟩
    · have hrun : operation.run codec now store = (store.abandon key).retain codec now turn.scope
          turn.responseId turn.messages turn.nativeItems := by
        rw [run_of_ends hends, hturn]
        rfl
      obtain ⟨-, hsame⟩ | ⟨hsmall, hcrowded, hsame⟩ |
          ⟨hsmall, hcrowded, room, hroom, -, -, hsame⟩ :=
        @retain_cases (store.abandon key) codec now turn.scope turn.responseId turn.messages
          turn.nativeItems (h.abandon key)
      · rw [hsame] at hrun
        exact .inl ⟨hrun ▸ history_abandon store key, hrun ▸ nextSequence_abandon store key⟩
      · rw [hsame] at hrun
        exact .inr (.inr ⟨key, turn, rfl, rfl, hsmall,
          .inl ⟨hcrowded, congrArg history hrun, hrun ▸ hclearedNext turn⟩⟩)
      · rw [hsame] at hrun
        have hnext : room.allocateSequence = store.allocateSequence := by
          rw [allocateSequence, allocateSequence, hroom, nextSequence_makeRoom, hclearedNext]
        rw [hroom] at hrun hnext
        exact .inr (.inr ⟨key, turn, rfl, rfl, hsmall,
          .inr ⟨hcrowded, _, _, _, hnext, congrArg history hrun,
            (congrArg nextSequence hrun).trans hnext⟩⟩)

/-- What stays when room was made was there before, under another id than the new turn's. -/
theorem kept_of_makeRoom {bytes fuel : ℕ} {ended scope responseId : String}
    {key : String × String} {entry : ContinuationHistory}
    (h : (makeRoom bytes fuel ((store.abandon ended).cleared now scope responseId)).history.lookup
      key = some entry) : key ≠ (scope, responseId) ∧ store.history.lookup key = some entry := by
  obtain ⟨hne, hentry, -⟩ := lookup_cleared_eq_some.mp ((within_makeRoom bytes fuel _).history h)
  exact ⟨hne, hentry⟩

theorem Sequenced.run (hseq : Sequenced store) (h : Accounted store) (hwrap : NoWrap store) :
    Sequenced (operation.run codec now store) := by
  obtain ⟨hhistory, hnext⟩ | ⟨hhistory, hnext⟩ | ⟨key, turn, -, -, -, hturn⟩ :=
    @history_run codec now operation store h
  · exact hseq.of_kept (fun hkey ↦ hhistory ▸ hkey) hnext
  · exact hseq.of_kept (fun hkey ↦ (within_prune store now).history (hhistory ▸ hkey)) hnext
  · obtain ⟨-, hhistory, hnext⟩ | ⟨-, bytes, fuel, new, hnew, hhistory, hnext⟩ := hturn
    · exact hseq.of_kept (fun hkey ↦ (lookup_cleared_eq_some.mp (hhistory ▸ hkey)).2.1) hnext
    · have hnumber := toNat_allocateSequence hwrap
      -- a history is the new one, or an old one with an old number
      have hcases {other : String × String} {entry : ContinuationHistory}
          (hother : (operation.run codec now store).history.lookup other = some entry) :
          other = (turn.scope, turn.responseId) ∧ entry = new ∨
            store.history.lookup other = some entry ∧
              entry.sequence.toNat ≤ store.nextSequence.toNat := by
        rw [hhistory] at hother
        by_cases hid : other = (turn.scope, turn.responseId)
        · rw [hid, AList.lookup_insert] at hother
          exact .inl ⟨hid, (Option.some.inj hother).symm⟩
        · rw [AList.lookup_insert_ne hid] at hother
          have hentry := (kept_of_makeRoom hother).2
          exact .inr ⟨hentry, hseq.below hentry⟩
      refine ⟨fun hother ↦ ?_, fun hother hkept hsame ↦ ?_⟩
      · rw [hnext, hnumber]
        obtain ⟨-, rfl⟩ | ⟨-, hle⟩ := hcases hother
        · rw [hnew, hnumber]
        · omega
      · obtain ⟨hid, rfl⟩ | ⟨hentry, hle⟩ := hcases hother
        · obtain ⟨hid', -⟩ | ⟨-, hle⟩ := hcases hkept
          · exact hid.trans hid'.symm
          · rw [hnew, hnumber] at hsame
            omega
        · obtain ⟨-, rfl⟩ | ⟨hentry', -⟩ := hcases hkept
          · rw [hnew, hnumber] at hsame
            omega
          · exact hseq.distinct hentry hentry' hsame

/-- An older turn that is lost goes for nothing. -/
theorem not_evictsOldestFirst (h : Accounted store)
    (hloses : LosesPrevious codec now operation store) :
    ¬ EvictsOldestFirst codec now operation store := by
  intro hevicts
  obtain ⟨key, turn, hends, hturn, hsmall, hprevious, hcrowded⟩ := hloses
  have hrun : operation.run codec now store =
      (store.abandon key).cleared now turn.scope turn.responseId := by
    rw [run_of_ends hends, hturn]
    obtain ⟨hlarge, -⟩ | ⟨-, -, hsame⟩ | ⟨-, hroom, -⟩ :=
      @retain_cases (store.abandon key) codec now turn.scope turn.responseId turn.messages
        turn.nativeItems (h.abandon key)
    · exact absurd hlarge (not_lt.mpr hsmall)
    · exact hsame
    · exact absurd hcrowded hroom
  obtain ⟨previous, hlookup⟩ := Option.isSome_iff_exists.mp hprevious
  rw [lookup_prune_history, history_abandon, Option.filter_eq_some_iff,
    decide_eq_true_iff] at hlookup
  obtain ⟨hthere, hyoung⟩ := hlookup
  have hgone : (operation.run codec now store).history.lookup (turn.scope, turn.responseId) ≠
      some previous := by
    rw [hrun, cleared, lookup_removeHistory]
    rintro ⟨⟩
  -- nothing is there that was not there before
  obtain ⟨newKey, new, hnew, hadded, -⟩ := hevicts.orderly hthere hgone hyoung
  rw [hrun, lookup_cleared_eq_some] at hnew
  exact hadded hnew.2.1

/-- **When an operation evicts oldest first.** -/
theorem evictsOldestFirst_iff (hseq : Sequenced store) (h : Accounted store)
    (hwrap : NoWrap store) :
    EvictsOldestFirst codec now operation store ↔ ¬ LosesPrevious codec now operation store := by
  refine ⟨fun hevicts hloses ↦ not_evictsOldestFirst h hloses hevicts, fun hloses ↦ ?_⟩
  obtain ⟨hhistory, -⟩ | ⟨hhistory, -⟩ | ⟨key, turn, hends, hturn, hsmall, hcompleted⟩ :=
    @history_run codec now operation store h
  · refine ⟨fun hentry hgone ↦ ?_, fun hentry ↦ .inl (hhistory ▸ hentry)⟩
    exact absurd (hhistory ▸ hentry) hgone
  · refine ⟨fun hentry hgone hyoung ↦ ?_, fun hentry ↦ .inl ?_⟩
    · rw [hhistory, lookup_prune_history, hentry, Option.filter_some,
        if_pos (decide_eq_true hyoung)] at hgone
      exact absurd rfl hgone
    · exact (within_prune store now).history (hhistory ▸ hentry)
  · obtain ⟨hcrowded, hhistory, -⟩ | ⟨-, bytes, fuel, new, hnew, hhistory, -⟩ := hcompleted
    · refine ⟨fun {lost entry} hentry hgone hyoung ↦ ?_, fun hentry ↦ .inl ?_⟩
      · -- only an older turn of the same id can be lost here
        by_cases hid : lost = (turn.scope, turn.responseId)
        · subst hid
          refine absurd ⟨key, turn, hends, hturn, hsmall, ?_, hcrowded⟩ hloses
          rw [lookup_prune_history, history_abandon, hentry, Option.filter_some,
            if_pos (decide_eq_true hyoung)]
          rfl
        · rw [hhistory] at hgone
          exact absurd (lookup_cleared_eq_some.mpr ⟨hid, hentry, hyoung⟩) hgone
      · exact (lookup_cleared_eq_some.mp (hhistory ▸ hentry)).2.1
    · have hnumber := toNat_allocateSequence hwrap
      have hadded : (operation.run codec now store).history.lookup
          (turn.scope, turn.responseId) = some new := by
        rw [hhistory, AList.lookup_insert]
      have hyounger {other : String × String} {older : ContinuationHistory}
          (hother : store.history.lookup other = some older) :
          older.sequence.toNat < new.sequence.toNat := by
        have hle := hseq.below hother
        rw [hnew, hnumber]
        omega
      have hclearedSeq : Sequenced
          ((store.abandon key).cleared now turn.scope turn.responseId) := by
        refine hseq.of_kept (fun hkept ↦ (lookup_cleared_eq_some.mp hkept).2.1) ?_
        rw [cleared, nextSequence_removeHistory, nextSequence_prune, nextSequence_abandon]
      refine ⟨fun {lost entry} hentry hgone hyoung ↦ ?_, fun {other entry} hentry ↦ ?_⟩
      · refine ⟨_, new, hadded, fun hsame ↦ (hyounger hsame).false, ?_⟩
        by_cases hid : lost = (turn.scope, turn.responseId)
        · exact .inl hid
        · refine .inr fun other kept hother hkept ↦ ?_
          rw [hhistory, AList.lookup_insert_ne hid] at hgone
          rw [hhistory, AList.lookup_insert_ne hother] at hkept
          exact hclearedSeq.makeRoom_oldest
            (lookup_cleared_eq_some.mpr ⟨hid, hentry, hyoung⟩) hgone hkept
      · by_cases hid : other = (turn.scope, turn.responseId)
        · rw [hid, hadded] at hentry
          obtain rfl := Option.some.inj hentry
          exact .inr fun _ _ hother ↦ hyounger hother
        · rw [hhistory, AList.lookup_insert_ne hid] at hentry
          exact .inl (kept_of_makeRoom hentry).2

end Evictions

/-! ## Runs -/

section Runs

variable {codec : ResponsesCodec}

/-- The store after some operations, each with what the clock read. -/
def after (codec : ResponsesCodec) (operations : List (ℕ × Operation)) : ContinuationStore :=
  operations.foldl (fun store timed ↦ timed.2.run codec timed.1 store) {}

/-- Every operation of a run does, in the store that it finds. -/
def Every (codec : ResponsesCodec) (operations : List (ℕ × Operation))
    (does : ℕ → Operation → ContinuationStore → Prop) : Prop :=
  ∀ earlier now operation later, operations = earlier ++ (now, operation) :: later →
    does now operation (after codec earlier)

theorem after_concat (codec : ResponsesCodec) (operations : List (ℕ × Operation)) (now : ℕ)
    (operation : Operation) : after codec (operations ++ [(now, operation)]) =
      operation.run codec now (after codec operations) :=
  List.foldl_concat ..

theorem accounted_after (codec : ResponsesCodec) (operations : List (ℕ × Operation)) :
    Accounted (after codec operations) := by
  induction operations using List.reverseRecOn with
  | nil => exact accounted_empty
  | append_singleton operations timed ih =>
    rw [after_concat]
    exact ih.run

theorem sequenced_after {operations : List (ℕ × Operation)}
    (hwrap : Every codec operations fun _ _ store ↦ NoWrap store) :
    Sequenced (after codec operations) := by
  induction operations using List.reverseRecOn with
  | nil => exact ⟨fun h ↦ (nomatch h), fun h ↦ (nomatch h)⟩
  | append_singleton operations timed ih =>
    rw [after_concat]
    refine (ih fun earlier now operation later hrun ↦ ?_).run (accounted_after codec operations)
      (hwrap operations timed.1 timed.2 [] rfl)
    refine hwrap earlier now operation (later ++ [timed]) ?_
    rw [hrun, List.append_assoc, List.cons_append]

/-! ### A turn that is lost on the way -/

theorem prune_zero (store : ContinuationStore) : store.prune 0 = store := by
  have hhistory : store.expiredHistory 0 = [] := by
    rw [expiredHistory, List.map_eq_nil_iff, List.filter_eq_nil_iff]
    intro entry _
    rw [decide_eq_true_iff, Nat.zero_sub]
    decide
  have hpending : store.expiredPending 0 = [] := by
    rw [expiredPending, List.map_eq_nil_iff, List.filter_eq_nil_iff]
    intro entry _
    rw [decide_eq_true_iff, Nat.zero_sub]
    decide
  rw [prune, hhistory, hpending]
  rfl

theorem pendingBytes_abandon {store : ContinuationStore} {key : String}
    {entry : PendingContinuation} (h : store.pending.lookup key = some entry) :
    store.pendingBytes = entry.bytes + (store.abandon key).pendingBytes := by
  rw [abandon, h]
  exact weight_erase pendingWeight h

/-- As many reservations as there is room for. -/
theorem reserve_many {messages : List CanonicalMessage} {size : ℕ}
    (hbytes : continuationBytes codec messages none = size)
    (hsize : size ≤ maxContinuationEntryBytes)
    {keys : List String} (hnodup : keys.Nodup) {store : ContinuationStore}
    (hfresh : ∀ key ∈ keys, store.pending.lookup key = none)
    (hroom : store.pending.entries.length + keys.length ≤ maxPendingContinuations)
    (hfits : store.totalBytes + keys.length * size ≤ maxContinuationTotalBytes) :
    ∃ grown, grown = keys.foldl (fun store key ↦ (store.begin codec 0 key "s" messages none).2)
        store ∧ grown.pendingBytes = store.pendingBytes + keys.length * size ∧
      grown.history = store.history ∧
      ∀ key, key ∉ keys → grown.pending.lookup key = store.pending.lookup key := by
  induction keys generalizing store with
  | nil =>
    refine ⟨store, rfl, ?_, rfl, fun _ _ ↦ rfl⟩
    rw [List.length_nil, Nat.zero_mul, Nat.add_zero]
  | cons key keys ih =>
    rw [List.length_cons] at hroom hfits
    rw [Nat.add_mul, Nat.one_mul] at hfits
    obtain ⟨hnotMem, hnodup⟩ := List.nodup_cons.mp hnodup
    have hnew := hfresh key List.mem_cons_self
    have hbegin : (store.begin codec 0 key "s" messages none).2 = { store with
        totalBytes := store.totalBytes + size
        pending := store.pending.insert key
          { scope := "s", messages, nativeItems := none, createdAtMs := 0, bytes := size } } := by
      rw [begin, prune_zero, hbytes, if_neg (by rw [hnew]; exact Bool.false_ne_true),
        if_neg (not_lt.mpr hsize), if_neg]
      rw [not_or, not_le, not_lt]
      omega
    have hfresh' : ∀ other ∈ keys,
        (store.begin codec 0 key "s" messages none).2.pending.lookup other = none := by
      intro other hother
      have hne : other ≠ key := fun heq ↦ hnotMem (heq ▸ hother)
      rw [hbegin]
      exact (AList.lookup_insert_ne hne).trans (hfresh other (List.mem_cons_of_mem key hother))
    have hroom' : (store.begin codec 0 key "s" messages none).2.pending.entries.length +
        keys.length ≤ maxPendingContinuations := by
      rw [hbegin]
      change (store.pending.insert key _).entries.length + keys.length ≤ _
      rw [length_insert_of_lookup hnew]
      omega
    have hfits' : (store.begin codec 0 key "s" messages none).2.totalBytes +
        keys.length * size ≤ maxContinuationTotalBytes := by
      rw [hbegin]
      change store.totalBytes + size + keys.length * size ≤ _
      omega
    obtain ⟨grown, hgrown, hpending, hhistory, hothers⟩ := ih hnodup hfresh' hroom' hfits'
    refine ⟨grown, hgrown, ?_, ?_, fun other hother ↦ ?_⟩
    · rw [hpending, hbegin, List.length_cons, Nat.add_mul, Nat.one_mul]
      change weight pendingWeight (store.pending.insert key _) + keys.length * size = _
      rw [weight_insert _ hnew]
      change size + store.pendingBytes + keys.length * size = _
      omega
    · rw [hhistory, hbegin]
    · obtain ⟨hne, hnot⟩ := not_or.mp (mt List.mem_cons.mpr hother)
      rw [hothers other hnot, hbegin]
      exact AList.lookup_insert_ne hne

end Runs

/-- A codec that counts the bytes of plain messages, whose texts need no escapes. -/
def plainCodec : ResponsesCodec where
  chatRequestFromResponses _ := .error (invalid "unread")
  messagesBytes messages := 2 + (messages.length - 1) + (messages.map fun message ↦
    match message.role, message.content with
    | .assistant, some (.text text) => 33 + text.length
    | _, some (.text text) => 28 + text.length
    | _, _ => 0).sum
  itemsBytes items := (compact (array items)).utf8ByteSize

/-- A text of one letter. -/
def repeated (count : ℕ) : String := String.ofList (List.replicate count 'a')

theorem length_repeated (count : ℕ) : (repeated count).length = count := by
  rw [repeated, String.length_ofList, List.length_replicate]

/-- Almost two mebibytes. -/
def longText : String := repeated 1900000

/-- A turn is remembered under an id, and another one is begun. -/
def rememberedRun : List (ℕ × Operation) :=
  [(0, .begin "k" "s" [.text .user "hi"] none), (0, .complete "k" "r" [] none),
    (0, .begin "l" "s" [.text .user "hi"] none)]

def otherKeys : List String := ["a", "b", "c", "d", "e", "f", "g", "h"]

/-- Long turns are begun meanwhile, and then the other one is completed under the same id, with a
long reply. -/
def crowdedRun : List (ℕ × Operation) :=
  rememberedRun ++ otherKeys.map (fun key ↦ (0, .begin key "s" [.text .user longText] none)) ++
    [(0, .complete "l" "r" [.text .assistant longText] none)]

theorem length_longText : longText.length = 1900000 := length_repeated 1900000

theorem bytes_plain (text reply : String) :
    continuationBytes plainCodec [.text .user text] none = 30 + text.length ∧
      continuationBytes plainCodec [.text .user text, .text .assistant reply] none =
        64 + text.length + reply.length := by
  constructor
  · change 2 + 0 + ((28 + text.length) + 0) + 0 = _
    omega
  · change 2 + 1 + ((28 + text.length) + ((33 + reply.length) + 0)) + 0 = _
    omega

/-- What the first turns leave: a history, and a reservation. -/
theorem after_rememberedRun :
    (after plainCodec rememberedRun).totalBytes = 64 ∧
      (after plainCodec rememberedRun).pendingBytes = 32 ∧
      (after plainCodec rememberedRun).pending.keys = ["l"] ∧
      (after plainCodec rememberedRun).pending.lookup "l" = some
        { scope := "s", messages := [.text .user "hi"], nativeItems := none, createdAtMs := 0
          bytes := 32 } ∧
      ((after plainCodec rememberedRun).history.lookup ("s", "r")).isSome = true :=
  ⟨rfl, rfl, rfl, rfl, rfl⟩

/-- **The accounts of every run.** They are right after every operation, every subtraction is exact
and what is in flight is kept; and as long as there are sequence numbers, every operation evicts
oldest first, and for a turn that is remembered, if and only if none loses an older turn of the same
id to one that is crowded out. -/
theorem accounts_kept_iff (codec : ResponsesCodec) (operations : List (ℕ × Operation)) :
    Accounted (after codec operations) ∧
    Every codec operations (fun now operation store ↦
      Exact (operation.subtractions codec now store)) ∧
    Every codec operations (KeepsInFlight codec) ∧
    (Every codec operations (fun _ _ store ↦ NoWrap store) →
      (Every codec operations (EvictsOldestFirst codec) ↔
        Every codec operations fun now operation store ↦
          ¬ LosesPrevious codec now operation store)) := by
  refine ⟨accounted_after codec operations, fun earlier now operation later _ ↦ ?_,
    fun earlier now operation later _ ↦ ?_, fun hwrap ↦ ?_⟩
  · exact (accounted_after codec earlier).exact_run operation
  · exact keepsInFlight (accounted_after codec earlier)
  · refine forall_congr' fun earlier ↦ forall_congr' fun now ↦ forall_congr' fun operation ↦
      forall_congr' fun later ↦ forall_congr' fun hrun ↦ ?_
    refine evictsOldestFirst_iff (sequenced_after fun first at_ op rest hfirst ↦ ?_)
      (accounted_after codec earlier) (hwrap earlier now operation later hrun)
    refine hwrap first at_ op (rest ++ (now, operation) :: later) ?_
    rw [hrun, hfirst, List.append_assoc, List.cons_append]

/-- **A turn that is crowded out takes the older one of its id with it.** -/
theorem not_evictsOldestFirst_crowded :
    ¬ Every plainCodec crowdedRun (EvictsOldestFirst plainCodec) := by
  obtain ⟨htotal, hpending, hkeys, hlast, hprevious⟩ := after_rememberedRun
  have hlong : continuationBytes plainCodec [.text .user longText] none = 1900030 := by
    rw [(bytes_plain longText "").1, length_longText]
  have hreply : continuationBytes plainCodec
      [.text .user "hi", .text .assistant longText] none = 1900066 := by
    rw [(bytes_plain "hi" longText).2, length_longText]
    rfl
  have hlengths : (after plainCodec rememberedRun).pending.entries.length = 1 := by
    rw [← List.length_map Sigma.fst]
    exact congrArg List.length hkeys
  have hfresh : ∀ key ∈ otherKeys, (after plainCodec rememberedRun).pending.lookup key = none := by
    intro key hkey
    rw [AList.lookup_eq_none, AList.mem_keys, hkeys, List.mem_singleton]
    rintro rfl
    exact absurd hkey (by decide)
  obtain ⟨grown, hgrown, hbytes, hhistory, hothers⟩ := reserve_many hlong (by decide)
    (show otherKeys.Nodup by decide) hfresh (by rw [hlengths]; decide) (by rw [htotal]; decide)
  have hafter : after plainCodec (rememberedRun ++ otherKeys.map fun key ↦
      (0, .begin key "s" [.text .user longText] none)) = grown := by
    rw [hgrown, after, List.foldl_append, List.foldl_map]
    rfl
  intro hevery
  have hlookup : grown.pending.lookup "l" = some _ := (hothers "l" (by decide)).trans hlast
  -- the reply does not fit beside the other reservations
  have hloses : grown.LosesPrevious plainCodec 0
      (.complete "l" "r" [.text .assistant longText] none) := by
    refine ⟨"l", ⟨"s", "r", [.text .user "hi", .text .assistant longText], none⟩, rfl, ?_, ?_, ?_,
      ?_⟩
    · rw [Operation.turn, completedTurn, hlookup]
      rfl
    · rw [hreply]
      decide
    · rw [prune_zero, history_abandon, hhistory]
      exact hprevious
    · have hcleared : ((grown.abandon "l").cleared 0 "s" "r").pendingBytes =
          (grown.abandon "l").pendingBytes := by
        rw [cleared, pendingBytes, pending_removeHistory, prune_zero, pendingBytes]
      have habandoned := pendingBytes_abandon hlookup
      have hcount : otherKeys.length = 8 := rfl
      rw [hbytes, hpending, hcount] at habandoned
      rw [Crowded, hcleared, hreply, maxContinuationTotalBytes]
      dsimp only at habandoned
      omega
  refine not_evictsOldestFirst (accounted_after plainCodec _) ?_ (hevery _ _ _ [] rfl)
  rw [hafter]
  exact hloses

end ContinuationStore

end TokenStation
