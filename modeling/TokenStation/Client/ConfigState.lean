import TokenStation.Library.Saturating
import TokenStation.Library.SortByKey
import TokenStation.Protocol.Error
import Mathlib.Data.String.Basic

/-!
# The identities of a configuration's contents

The desktop numbers the contents of its configuration. The numbers are in a sidecar next to the
configuration file; a content is recognized by the digest of its canonical JSON. A new number is
reserved in the sidecar before it is shown in memory, and a save journals its number as pending
before the configuration file is replaced.

Every call that writes the sidecar takes whether that write succeeds; a failed write leaves the
file.
-/

namespace TokenStation

open Library

/-! ## Fingerprints -/

mutual

/-- Every object in the order of its keys. -/
def canonicalize : JsonValue → JsonValue
  | .object members => .object (sortByKey Prod.fst (canonicalizeMembers members))
  | .array items => .array (canonicalizeItems items)
  | .null => .null
  | .bool value => .bool value
  | .number literal => .number literal
  | .string text => .string text

def canonicalizeItems : List JsonValue → List JsonValue
  | [] => []
  | item :: rest => canonicalize item :: canonicalizeItems rest

def canonicalizeMembers : List (String × JsonValue) → List (String × JsonValue)
  | [] => []
  | (key, value) :: rest => (key, canonicalize value) :: canonicalizeMembers rest

end

/-- Two documents with the same content: the order of keys does not count. -/
def SameContent (a b : JsonValue) : Prop := canonicalize a = canonicalize b

/-! ## The sidecar -/

def ledgerVersion : ℕ := 1

structure RevisionLedger where
  version : ℕ := ledgerVersion
  lastAllocatedRevision : UInt64 := 0
  committedRevision : UInt64 := 0
  committedFingerprint : String := ""
  pendingRevision : Option UInt64 := none
  pendingFingerprint : Option String := none
  deriving DecidableEq

namespace RevisionLedger

/-- `saturating_add(1).max(1)`. -/
def nextRevision (ledger : RevisionLedger) : UInt64 :=
  max (Word.satAdd ledger.lastAllocatedRevision 1) 1

theorem nextRevision_ne_zero (ledger : RevisionLedger) : ledger.nextRevision ≠ 0 := by
  rw [nextRevision, show max (Word.satAdd ledger.lastAllocatedRevision 1) 1 =
    if Word.satAdd ledger.lastAllocatedRevision 1 ≤ 1 then 1
    else Word.satAdd ledger.lastAllocatedRevision 1 from rfl]
  split
  · decide
  next hgt =>
    intro hzero
    rw [hzero] at hgt
    exact hgt (by decide)

/-- Below the top word, the next revision is the successor. -/
theorem toNat_nextRevision {ledger : RevisionLedger}
    (h : ledger.lastAllocatedRevision.toNat < 2 ^ 64 - 1) :
    ledger.nextRevision.toNat = ledger.lastAllocatedRevision.toNat + 1 := by
  have hsat : (Word.satAdd ledger.lastAllocatedRevision 1).toNat =
      ledger.lastAllocatedRevision.toNat + 1 := by
    rw [Word.toNat_satAdd, UInt64.toNat_one]
    omega
  have hone : ¬ Word.satAdd ledger.lastAllocatedRevision 1 ≤ 1 ∨
      Word.satAdd ledger.lastAllocatedRevision 1 = 1 := by
    by_cases hle : Word.satAdd ledger.lastAllocatedRevision 1 ≤ 1
    · rw [UInt64.le_iff_toNat_le, hsat, UInt64.toNat_one] at hle
      refine .inr (UInt64.toNat_inj.mp ?_)
      rw [hsat, UInt64.toNat_one]
      omega
    · exact .inl hle
  rw [nextRevision, ← hsat]
  rcases hone with hone | hone
  · exact congrArg UInt64.toNat (if_neg hone)
  · rw [hone]
    rfl

def reserve (ledger : RevisionLedger) : RevisionLedger :=
  { ledger with lastAllocatedRevision := ledger.nextRevision }

def withoutPending (ledger : RevisionLedger) : RevisionLedger :=
  { ledger with pendingRevision := none, pendingFingerprint := none }

def commit (ledger : RevisionLedger) (revision : UInt64) (fingerprint : String) : RevisionLedger :=
  { ledger.withoutPending with
    committedRevision := revision
    committedFingerprint := fingerprint }

end RevisionLedger

/-- The ledger of the sidecar file, if it is well formed. -/
def readLedger (sidecar : Option RevisionLedger) : Option RevisionLedger :=
  sidecar.filter fun ledger ↦ decide (ledger.version = ledgerVersion)
    && decide (ledger.committedFingerprint.utf8ByteSize ≤ 64)
    && ledger.pendingFingerprint.all fun fingerprint ↦ decide (fingerprint.utf8ByteSize = 64)

def writeLedger (succeeds : Bool) (ledger : RevisionLedger) (sidecar : Option RevisionLedger) :
    Except String Unit × Option RevisionLedger :=
  if succeeds then (.ok (), some ledger) else (.error "提交 revision sidecar 失败", sidecar)

/-! ## The state of a session -/

structure ConfigState where
  saved : JsonValue
  draft : JsonValue
  draftFingerprint : String
  savedFingerprint : String
  draftRevision : UInt64
  savedRevision : UInt64
  ledger : RevisionLedger

namespace ConfigState

section Calls

-- `hash` is the digest of a document as it is written
variable (hash : JsonValue → String)

def fingerprint (value : JsonValue) : String := hash (canonicalize value)

/-- The ledger after a configuration was loaded, and the revision of what was loaded. -/
def reconcile (ledger : RevisionLedger) (found : String) (configExists : Bool) :
    RevisionLedger × UInt64 :=
  if !configExists then (ledger.withoutPending, 0)
  else if ledger.pendingFingerprint = some found then
    let revision := ledger.pendingRevision.getD (Word.satAdd ledger.lastAllocatedRevision 1)
    ({ ledger.commit revision found with
        lastAllocatedRevision := max ledger.lastAllocatedRevision revision }, revision)
  else if ledger.committedFingerprint = found then
    (ledger.withoutPending, ledger.committedRevision)
  else (ledger.reserve.commit ledger.nextRevision found, ledger.nextRevision)

/-- `draft` is what was loaded from the configuration file, or stands in for a missing one. -/
def load (draft : JsonValue) (configExists writes : Bool) (sidecar : Option RevisionLedger) :
    Except String ConfigState × Option RevisionLedger :=
  let (ledger, revision) :=
    reconcile ((readLedger sidecar).getD {}) (fingerprint hash draft) configExists
  let state : ConfigState :=
    { saved := draft
      draft := draft
      draftFingerprint := fingerprint hash draft
      savedFingerprint := fingerprint hash draft
      draftRevision := revision
      savedRevision := revision
      ledger := ledger }
  if configExists then
    match writeLedger writes ledger sidecar with
    | (.ok (), sidecar) => (.ok state, sidecar)
    | (.error error, sidecar) => (.error error, sidecar)
  else (.ok state, sidecar)

/-- The draft was edited in memory. The result is the outcome, the state and the sidecar. -/
def observeDraft (draft : JsonValue) (writes : Bool) (state : ConfigState)
    (sidecar : Option RevisionLedger) :
    Except String Unit × ConfigState × Option RevisionLedger :=
  let next := fingerprint hash draft
  if next = state.draftFingerprint then (.ok (), state, sidecar)
  else if next = state.savedFingerprint then
    (.ok (), { state with
      draft := draft, draftFingerprint := next, draftRevision := state.savedRevision }, sidecar)
  else
    -- the revision is reserved in the sidecar before it is shown in memory
    match writeLedger writes state.ledger.reserve sidecar with
    | (.error error, sidecar) => (.error error, state, sidecar)
    | (.ok (), sidecar) => (.ok (), { state with
        draft := draft
        draftFingerprint := next
        draftRevision := state.ledger.nextRevision
        ledger := state.ledger.reserve }, sidecar)

/-- The journal of a save, in memory: a draft without a revision gets one here. -/
def withPending (state : ConfigState) : ConfigState :=
  let state :=
    if state.draftRevision = 0 then
      { state with ledger := state.ledger.reserve, draftRevision := state.ledger.nextRevision }
    else state
  { state with ledger := { state.ledger with
      pendingRevision := some state.draftRevision
      pendingFingerprint := some state.draftFingerprint } }

def prepareSave (draft : JsonValue) (reserves writes : Bool) (state : ConfigState)
    (sidecar : Option RevisionLedger) :
    Except String UInt64 × ConfigState × Option RevisionLedger :=
  match observeDraft hash draft reserves state sidecar with
  | (.error error, state, sidecar) => (.error error, state, sidecar)
  | (.ok (), state, sidecar) =>
    -- the memory is changed before the sidecar is written
    let state := state.withPending
    match writeLedger writes state.ledger sidecar with
    | (.error error, sidecar) => (.error error, state, sidecar)
    | (.ok (), sidecar) => (.ok state.draftRevision, state, sidecar)

/-- The configuration file was replaced. -/
def finishSave (draft : JsonValue) (writes : Bool) (state : ConfigState)
    (sidecar : Option RevisionLedger) :
    Except String Unit × ConfigState × Option RevisionLedger :=
  let state := { state with
    saved := draft
    savedFingerprint := state.draftFingerprint
    savedRevision := state.draftRevision
    ledger := state.ledger.commit state.draftRevision state.draftFingerprint }
  match writeLedger writes state.ledger sidecar with
  | (outcome, sidecar) => (outcome, state, sidecar)

end Calls

/-! ## What the calls do -/

variable {hash : JsonValue → String} {draft : JsonValue} {writes : Bool} {state : ConfigState}
  {sidecar : Option RevisionLedger}

/-- The four things that observing a draft can do. -/
theorem observeDraft_cases (hash : JsonValue → String) (draft : JsonValue) (writes : Bool)
    (state : ConfigState) (sidecar : Option RevisionLedger) :
    (fingerprint hash draft = state.draftFingerprint ∧
      observeDraft hash draft writes state sidecar = (.ok (), state, sidecar)) ∨
    (fingerprint hash draft ≠ state.draftFingerprint ∧
      fingerprint hash draft = state.savedFingerprint ∧
      observeDraft hash draft writes state sidecar = (.ok (), { state with
        draft := draft
        draftFingerprint := fingerprint hash draft
        draftRevision := state.savedRevision }, sidecar)) ∨
    (fingerprint hash draft ≠ state.draftFingerprint ∧
      fingerprint hash draft ≠ state.savedFingerprint ∧ writes = false ∧
      ∃ error, observeDraft hash draft writes state sidecar = (.error error, state, sidecar)) ∨
    (fingerprint hash draft ≠ state.draftFingerprint ∧
      fingerprint hash draft ≠ state.savedFingerprint ∧ writes = true ∧
      observeDraft hash draft writes state sidecar = (.ok (), { state with
        draft := draft
        draftFingerprint := fingerprint hash draft
        draftRevision := state.ledger.nextRevision
        ledger := state.ledger.reserve }, some state.ledger.reserve)) := by
  by_cases hdraft : fingerprint hash draft = state.draftFingerprint
  · exact .inl ⟨hdraft, by simp [observeDraft, hdraft]⟩
  by_cases hsaved : fingerprint hash draft = state.savedFingerprint
  · exact .inr (.inl ⟨hdraft, hsaved, by
      simp only [observeDraft, if_neg hdraft, if_pos hsaved]⟩)
  rcases hwrites : writes with - | -
  · exact .inr (.inr (.inl ⟨hdraft, hsaved, rfl, _, by
      simp only [observeDraft, if_neg hdraft, if_neg hsaved, writeLedger]; rfl⟩))
  · exact .inr (.inr (.inr ⟨hdraft, hsaved, rfl, by
      simp only [observeDraft, if_neg hdraft, if_neg hsaved, writeLedger]; rfl⟩))

/-- A save that is journaled already is not journaled again. -/
theorem withPending_eq_self (hrevision : state.draftRevision ≠ 0)
    (hpending : state.ledger.pendingRevision = some state.draftRevision)
    (hfound : state.ledger.pendingFingerprint = some state.draftFingerprint) :
    state.withPending = state := by
  rw [withPending, if_neg hrevision, ← hpending, ← hfound]

end ConfigState

end TokenStation
