import Mathlib.Data.List.Induction
import TokenStation.Library.NestedTables
import TokenStation.Library.Saturating

/-!
# In-flight leases

A request takes a lease on its account when it is dispatched and releases it when it settles. A
lease has an expiry, so one that is never released stops counting by itself. Expired leases are
pruned from an account's table when the next lease on it is granted.

A `LeaseBook` says which leases there are: one record for each grant, and whether it was released.
The table refines the book (`Tracks`): a cell of the table is an unreleased lease of the book, and
an unreleased lease that has not expired has its cell. Serials count the grants, so they tell leases
apart as long as they do not wrap.
-/

namespace TokenStation

open Library

/-- A handle to one granted lease. -/
structure InflightLeases.LeaseId where
  account : String
  serial : UInt64
  deriving DecidableEq

/-- Per-account leases: for each account the expiry of each serial. -/
structure InflightLeases where
  leaseMs : UInt64
  nextSerial : UInt64
  byAccount : NestedTable String UInt64 UInt64

namespace InflightLeases

/-- A tracker whose leases expire after `leaseMs`. -/
def new (leaseMs : UInt64) : InflightLeases := ⟨max leaseMs 1, 0, ∅⟩

/-- Take a lease that lasts at least `lifetimeMs`, and drop the account's expired ones. -/
def grantFor (leases : InflightLeases) (nowMs : UInt64) (account : String) (lifetimeMs : UInt64) :
    InflightLeases × LeaseId :=
  let expiry := Word.satAdd nowMs (max lifetimeMs leases.leaseMs)
  let serial := leases.nextSerial
  let live := retain (leases.byAccount.row account) fun expiresAt ↦ expiresAt > nowMs
  ({ leases with
      nextSerial := leases.nextSerial + 1
      byAccount := leases.byAccount.insert account (live.insert serial expiry) },
    ⟨account, serial⟩)

def grant (leases : InflightLeases) (nowMs : UInt64) (account : String) :
    InflightLeases × LeaseId :=
  leases.grantFor nowMs account leases.leaseMs

/-- Release a lease. An unknown one, or one that is gone already, changes nothing. -/
def release (leases : InflightLeases) (lease : LeaseId) : InflightLeases :=
  match leases.byAccount.lookup lease.account with
  | none => leases
  | some account =>
    let account := account.erase lease.serial
    { leases with
      byAccount :=
        if account.entries.isEmpty then leases.byAccount.erase lease.account
        else leases.byAccount.insert lease.account account }

/-- Live in-flight count for an account, in a `u32`. -/
def inflight (leases : InflightLeases) (nowMs : UInt64) (account : String) : ℕ :=
  match leases.byAccount.lookup account with
  | none => 0
  | some account =>
    clampTo u32Max (account.entries.countP fun lease ↦ lease.2 > nowMs)

/-- When a lease that is in the table expires. -/
def expiryOf (leases : InflightLeases) (lease : LeaseId) : Option UInt64 :=
  leases.byAccount.cell lease.account lease.serial

theorem expiryOf_grantFor_self (leases : InflightLeases) (nowMs : UInt64) (account : String)
    (lifetimeMs : UInt64) :
    (leases.grantFor nowMs account lifetimeMs).1.expiryOf ⟨account, leases.nextSerial⟩ =
      some (Word.satAdd nowMs (max lifetimeMs leases.leaseMs)) := by
  rw [expiryOf, grantFor, NestedTable.cell_insert_self, AList.lookup_insert]

/-- A grant leaves the other leases, except the expired ones of its account. -/
theorem expiryOf_grantFor_ne (leases : InflightLeases) (nowMs : UInt64) (account : String)
    (lifetimeMs : UInt64) {lease : LeaseId} (h : lease ≠ ⟨account, leases.nextSerial⟩) :
    (leases.grantFor nowMs account lifetimeMs).1.expiryOf lease =
      if lease.account = account then
        (leases.expiryOf lease).filter fun expiresAt ↦ expiresAt > nowMs
      else leases.expiryOf lease := by
  obtain ⟨name, serial⟩ := lease
  rw [expiryOf, grantFor]
  dsimp only
  split
  next hname =>
    subst hname
    have hserial : serial ≠ leases.nextSerial := fun heq ↦ h (by rw [heq])
    rw [NestedTable.cell_insert_self, AList.lookup_insert_ne hserial, lookup_retain]
    rfl
  next hname => exact NestedTable.cell_insert_ne _ hname _ _

theorem expiryOf_release_self (leases : InflightLeases) (lease : LeaseId) :
    (leases.release lease).expiryOf lease = none := by
  rw [release, expiryOf]
  rcases hrow : leases.byAccount.lookup lease.account with - | account
  · dsimp only
    rw [NestedTable.cell, NestedTable.row, hrow]
    rfl
  · dsimp only
    split
    · exact NestedTable.cell_erase_self _ _ _
    · rw [NestedTable.cell_insert_self, AList.lookup_erase]

/-- A release leaves every other lease. -/
theorem expiryOf_release_ne (leases : InflightLeases) {lease other : LeaseId} (h : other ≠ lease) :
    (leases.release lease).expiryOf other = leases.expiryOf other := by
  obtain ⟨name, serial⟩ := other
  rw [release, expiryOf, expiryOf]
  rcases hrow : leases.byAccount.lookup lease.account with - | account
  · rfl
  · by_cases hname : name = lease.account
    · -- in the same row: another serial
      subst hname
      have hserial : serial ≠ lease.serial := fun heq ↦ h (by rw [heq])
      have hcell : leases.byAccount.cell lease.account serial = account.lookup serial := by
        rw [NestedTable.cell, NestedTable.row, hrow, Option.getD_some]
      dsimp only
      rw [hcell, ← AList.lookup_erase_ne hserial]
      split
      next hempty =>
        rw [List.isEmpty_iff] at hempty
        rw [NestedTable.cell_erase_self, eq_comm, AList.lookup_eq_none, AList.mem_keys, AList.keys,
          hempty]
        exact List.not_mem_nil
      next => rw [NestedTable.cell_insert_self]
    · dsimp only
      split
      · exact NestedTable.cell_erase_ne _ hname _
      · exact NestedTable.cell_insert_ne _ hname _ _

/-- The count is that of any list of the live serials, cut off at the largest `u32`. -/
theorem inflight_eq {leases : InflightLeases} {nowMs : UInt64} {account : String}
    {serials : List UInt64} (hserials : serials.Nodup)
    (hmem : ∀ serial, serial ∈ serials ↔
      ∃ expiry, leases.expiryOf ⟨account, serial⟩ = some expiry ∧ nowMs < expiry) :
    leases.inflight nowMs account = clampTo u32Max serials.length := by
  have hrow : ∀ serial, serial ∈ serials ↔ ∃ expiry,
      (leases.byAccount.row account).lookup serial = some expiry ∧
        decide (expiry > nowMs) = true := by
    intro serial
    rw [hmem]
    simp only [decide_eq_true_eq]
    rfl
  rw [← countP_entries_eq hserials hrow, inflight, NestedTable.row]
  rcases leases.byAccount.lookup account with - | row
  · rfl
  · rfl

end InflightLeases

/-! ## The book of leases -/

/-- What callers do with the leases of one table. A release names the lease by the number of its
grant. -/
inductive LeaseOp where
  | grant (nowMs : UInt64) (account : String)
  | grantFor (nowMs : UInt64) (account : String) (lifetimeMs : UInt64)
  | release (lease : ℕ)

/-- The time of a grant. -/
def LeaseOp.time? : LeaseOp → Option UInt64
  | .grant nowMs _ => some nowMs
  | .grantFor nowMs _ _ => some nowMs
  | .release _ => none

/-- One lease of the book. -/
structure BookedLease where
  account : String
  expiry : UInt64
  released : Bool

/-- The lease counts for an account: it is neither released nor expired. -/
def BookedLease.live (nowMs : UInt64) (account : String) (lease : BookedLease) : Bool :=
  lease.account = account && !lease.released && nowMs < lease.expiry

/-- The leases granted so far, in order. -/
abbrev LeaseBook : Type := List BookedLease

namespace LeaseBook

/-- What an operation is to the book, when leases last at least `leaseMs`. -/
def step (leaseMs : UInt64) (book : LeaseBook) : LeaseOp → LeaseBook
  | .grant nowMs account => book ++ [⟨account, Word.satAdd nowMs leaseMs, false⟩]
  | .grantFor nowMs account lifetimeMs =>
    book ++ [⟨account, Word.satAdd nowMs (max lifetimeMs leaseMs), false⟩]
  | .release lease => book.modify lease fun booked ↦ { booked with released := true }

def after (leaseMs : UInt64) (ops : List LeaseOp) : LeaseBook := ops.foldl (step leaseMs) []

end LeaseBook

/-- A table and the handles that its grants returned. -/
structure LeaseRun where
  table : InflightLeases
  handles : List InflightLeases.LeaseId

namespace LeaseRun

/-- One operation. A release of a grant that has not happened is none. -/
def step (run : LeaseRun) : LeaseOp → LeaseRun
  | .grant nowMs account =>
    let granted := run.table.grant nowMs account
    ⟨granted.1, run.handles ++ [granted.2]⟩
  | .grantFor nowMs account lifetimeMs =>
    let granted := run.table.grantFor nowMs account lifetimeMs
    ⟨granted.1, run.handles ++ [granted.2]⟩
  | .release lease =>
    match run.handles[lease]? with
    | some lease => { run with table := run.table.release lease }
    | none => run

/-- The run of some operations from a fresh table. -/
def after (leaseMs : UInt64) (ops : List LeaseOp) : LeaseRun :=
  ops.foldl step ⟨.new leaseMs, []⟩

/-- The table refines the book, for reads that are not before `since`. -/
structure Tracks (leaseMs : UInt64) (run : LeaseRun) (book : LeaseBook) (since : UInt64) :
    Prop where
  leaseMs : run.table.leaseMs = leaseMs
  next : run.table.nextSerial = UInt64.ofNat book.length
  handles : ∀ k, run.handles[k]? =
    book[k]?.map fun booked ↦ InflightLeases.LeaseId.mk booked.account (UInt64.ofNat k)
  /-- What is in the table is in the book, and not released. -/
  booked : ∀ lease expiry, run.table.expiryOf lease = some expiry →
    ∃ k : ℕ, book[k]? = some ⟨lease.account, expiry, false⟩ ∧ lease.serial = UInt64.ofNat k
  /-- A lease of the book that is neither released nor expired is in the table. -/
  live : ∀ (k : ℕ) (booked : BookedLease), book[k]? = some booked → booked.released = false →
    since < booked.expiry →
    run.table.expiryOf ⟨booked.account, UInt64.ofNat k⟩ = some booked.expiry

variable {leaseMs since nowMs : UInt64} {run : LeaseRun} {book : LeaseBook}

theorem tracks_new (leaseMs since : UInt64) :
    Tracks (max leaseMs 1) ⟨.new leaseMs, []⟩ [] since where
  leaseMs := rfl
  next := rfl
  handles _ := rfl
  booked _ _ h := nomatch h
  live _ _ h := nomatch h

/-- A later reader sees less. -/
theorem Tracks.mono (h : Tracks leaseMs run book since) (hle : since ≤ nowMs) :
    Tracks leaseMs run book nowMs :=
  { h with live := fun k booked hk hreleased hlt ↦
      h.live k booked hk hreleased (UInt64.lt_of_le_of_lt hle hlt) }

/-- Serials below the wrap tell leases apart. -/
theorem ofNat_inj_of_lt {k j : ℕ} (hk : k < 2 ^ 64) (hj : j < 2 ^ 64)
    (h : UInt64.ofNat k = UInt64.ofNat j) : k = j := by
  have htoNat := congrArg UInt64.toNat h
  rwa [UInt64.toNat_ofNat', UInt64.toNat_ofNat', Nat.mod_eq_of_lt hk, Nat.mod_eq_of_lt hj]
    at htoNat

theorem lt_length {l : LeaseBook} {k : ℕ} {booked : BookedLease} (h : l[k]? = some booked) :
    k < l.length := (List.getElem?_eq_some_iff.mp h).1

theorem getElem?_concat {α : Type} (l : List α) (a : α) (k : ℕ) :
    (l ++ [a])[k]? = if k = l.length then some a else l[k]? := by
  split
  next hk => rw [hk, List.getElem?_concat_length]
  next hk =>
    rcases Nat.lt_or_ge k l.length with hlt | hge
    · rw [List.getElem?_append_left hlt]
    · rw [List.getElem?_eq_none hge, List.getElem?_eq_none]
      rw [List.length_append, List.length_singleton]
      omega

theorem Tracks.length_handles (h : Tracks leaseMs run book since) :
    run.handles.length = book.length := by
  have hiff : ∀ k, run.handles.length ≤ k ↔ book.length ≤ k := by
    intro k
    rw [← List.getElem?_eq_none_iff, h.handles, Option.map_eq_none_iff,
      List.getElem?_eq_none_iff]
  exact le_antisymm ((hiff _).mpr le_rfl) ((hiff _).mp le_rfl)

/-- A grant books its lease. -/
theorem Tracks.grantFor (h : Tracks leaseMs run book nowMs) (hlength : book.length < 2 ^ 64)
    (account : String) (lifetimeMs : UInt64) :
    Tracks leaseMs (run.step (.grantFor nowMs account lifetimeMs))
      (book ++ [⟨account, Word.satAdd nowMs (max lifetimeMs leaseMs), false⟩]) nowMs where
  leaseMs := h.leaseMs
  next := by
    rw [List.length_append, List.length_singleton, UInt64.ofNat_add]
    exact congrArg (· + 1) h.next
  handles k := by
    rw [step, InflightLeases.grantFor]
    dsimp only
    rw [getElem?_concat, getElem?_concat, h.length_handles]
    by_cases hk : k = book.length
    · rw [if_pos hk, if_pos hk, h.next, hk]
      rfl
    · rw [if_neg hk, if_neg hk, h.handles]
  booked lease expiry hcell := by
    rw [step] at hcell
    by_cases hlease : lease = ⟨account, run.table.nextSerial⟩
    · subst hlease
      rw [InflightLeases.expiryOf_grantFor_self, h.leaseMs] at hcell
      refine ⟨book.length, ?_, h.next⟩
      rw [getElem?_concat, if_pos rfl, Option.some.inj hcell]
    · have hold : run.table.expiryOf lease = some expiry := by
        rw [InflightLeases.expiryOf_grantFor_ne _ _ _ _ hlease] at hcell
        split at hcell
        · exact (Option.filter_eq_some_iff.mp hcell).1
        · exact hcell
      obtain ⟨k, hk, hserial⟩ := h.booked lease expiry hold
      exact ⟨k, by rw [getElem?_concat, if_neg (lt_length hk).ne, hk], hserial⟩
  live k booked hk hreleased hlt := by
    rw [step]
    rw [getElem?_concat] at hk
    split at hk
    next hlast =>
      obtain rfl := Option.some.inj hk
      have hcell := InflightLeases.expiryOf_grantFor_self run.table nowMs account lifetimeMs
      rwa [h.next, h.leaseMs, ← hlast] at hcell
    next =>
      have hne : (⟨booked.account, UInt64.ofNat k⟩ : InflightLeases.LeaseId) ≠
          ⟨account, run.table.nextSerial⟩ := by
        intro heq
        rw [h.next] at heq
        have hbefore := lt_length hk
        have hserial := (InflightLeases.LeaseId.mk.inj heq).2
        have hindex := ofNat_inj_of_lt (hbefore.trans hlength) hlength hserial
        omega
      have hold := h.live k booked hk hreleased hlt
      rw [InflightLeases.expiryOf_grantFor_ne _ _ _ _ hne, hold]
      split
      · rw [Option.filter_some, if_pos (decide_eq_true hlt)]
      · rfl

theorem Tracks.grant (h : Tracks leaseMs run book nowMs) (hlength : book.length < 2 ^ 64)
    (account : String) :
    Tracks leaseMs (run.step (.grant nowMs account))
      (book ++ [⟨account, Word.satAdd nowMs leaseMs, false⟩]) nowMs := by
  have hmax : max leaseMs leaseMs = leaseMs := ite_self leaseMs
  have hgrant := h.grantFor hlength account leaseMs
  rw [hmax] at hgrant
  rwa [step, InflightLeases.grant, h.leaseMs]

/-- A release marks one lease of the book. -/
theorem Tracks.release (h : Tracks leaseMs run book since) (hlength : book.length < 2 ^ 64)
    (lease : ℕ) :
    Tracks leaseMs (run.step (.release lease))
      (book.modify lease fun booked ↦ { booked with released := true }) since := by
  have hmodify := List.getElem?_modify
    (fun booked : BookedLease ↦ { booked with released := true }) lease book
  rcases hlease : run.handles[lease]? with - | id
  · -- there is no such grant: the book stays as it is
    have hnone : book.length ≤ lease := by
      have hhandle := h.handles lease
      rw [hlease, eq_comm, Option.map_eq_none_iff, List.getElem?_eq_none_iff] at hhandle
      exact hhandle
    rw [step, hlease, List.modify_eq_self hnone]
    exact h
  · rw [step, hlease]
    dsimp only
    have hid : ∃ booked, book[lease]? = some booked ∧
        id = ⟨booked.account, UInt64.ofNat lease⟩ := by
      have hhandle := h.handles lease
      rw [hlease, eq_comm, Option.map_eq_some_iff] at hhandle
      obtain ⟨booked, hbooked, rfl⟩ := hhandle
      exact ⟨booked, hbooked, rfl⟩
    obtain ⟨released, hreleased, rfl⟩ := hid
    refine ⟨?_, ?_, fun k ↦ ?_, fun other expiry hcell ↦ ?_, fun k booked hk hopen hlt ↦ ?_⟩
    · rw [← h.leaseMs, InflightLeases.release]
      split <;> rfl
    · rw [List.length_modify, ← h.next, InflightLeases.release]
      split <;> rfl
    · rw [h.handles, hmodify]
      rcases book[k]? with - | booked
      · rfl
      · by_cases hk : lease = k <;> simp [hk]
    · -- the released lease is no longer in the table
      have hother : other ≠ ⟨released.account, UInt64.ofNat lease⟩ := by
        rintro rfl
        rw [InflightLeases.expiryOf_release_self] at hcell
        nomatch hcell
      rw [InflightLeases.expiryOf_release_ne _ hother] at hcell
      obtain ⟨k, hk, hserial⟩ := h.booked other expiry hcell
      have hne : lease ≠ k := by
        rintro rfl
        obtain rfl := Option.some.inj (hreleased.symm.trans hk)
        exact hother (by rw [← hserial])
      exact ⟨k, by rw [hmodify, hk]; simp [hne], hserial⟩
    · -- a lease that is not released is not the released one
      rw [hmodify, Option.map_eq_map, Option.map_eq_some_iff] at hk
      obtain ⟨before, hbefore, hbooked⟩ := hk
      have hne : lease ≠ k := by
        rintro rfl
        rw [if_pos rfl] at hbooked
        rw [← hbooked] at hopen
        nomatch hopen
      rw [if_neg hne] at hbooked
      subst hbooked
      have hid : (⟨before.account, UInt64.ofNat k⟩ : InflightLeases.LeaseId) ≠
          ⟨released.account, UInt64.ofNat lease⟩ := by
        intro heq
        have hk := (lt_length hbefore).trans hlength
        have hl := (lt_length hreleased).trans hlength
        exact hne (ofNat_inj_of_lt hk hl (InflightLeases.LeaseId.mk.inj heq).2).symm
      rw [InflightLeases.expiryOf_release_ne _ hid]
      exact h.live k before hbefore hopen hlt

/-! ## Runs -/

theorem length_step_le (leaseMs : UInt64) (book : LeaseBook) (op : LeaseOp) :
    (book.step leaseMs op).length ≤ book.length + 1 := by
  rcases op with ⟨_, _⟩ | ⟨_, _, _⟩ | _
  · rw [LeaseBook.step, List.length_append, List.length_singleton]
  · rw [LeaseBook.step, List.length_append, List.length_singleton]
  · rw [LeaseBook.step, List.length_modify]
    exact Nat.le_succ _

/-- There are at most as many leases as operations. -/
theorem length_after_le (leaseMs : UInt64) (ops : List LeaseOp) :
    (LeaseBook.after leaseMs ops).length ≤ ops.length := by
  induction ops using List.reverseRecOn with
  | nil => exact le_rfl
  | append_singleton ops op ih =>
    have hstep := length_step_le leaseMs (LeaseBook.after leaseMs ops) op
    rw [LeaseBook.after, List.foldl_append, List.length_append, List.length_singleton]
    exact hstep.trans (Nat.succ_le_succ ih)

/-- The times of the grants, in order. -/
def times (ops : List LeaseOp) : List UInt64 := ops.filterMap LeaseOp.time?

/-- **Run.** As long as serials do not wrap and the clock does not go back, the table refines the
book. -/
theorem tracks_after (leaseMs : UInt64) {ops : List LeaseOp} (hops : ops.length < 2 ^ 64)
    (htimes : (times ops).Pairwise (· ≤ ·)) (hsince : ∀ t ∈ times ops, t ≤ since) :
    Tracks (max leaseMs 1) (after leaseMs ops) (LeaseBook.after (max leaseMs 1) ops) since := by
  induction ops using List.reverseRecOn generalizing since with
  | nil => exact tracks_new leaseMs since
  | append_singleton ops op ih =>
    rw [List.length_append, List.length_singleton] at hops
    rw [times, List.filterMap_append] at htimes hsince
    obtain ⟨hbefore, -, hlast⟩ := List.pairwise_append.mp htimes
    have hlength := (length_after_le (max leaseMs 1) ops).trans_lt (Nat.lt_of_succ_lt hops)
    rw [after, LeaseBook.after, List.foldl_append, List.foldl_append]
    rcases op with ⟨nowMs, account⟩ | ⟨nowMs, account, lifetimeMs⟩ | lease
    · -- everything before a grant is no later than it
      have hold := ih (Nat.lt_of_succ_lt hops) hbefore fun t ht ↦
        hlast t ht nowMs (by simp [LeaseOp.time?])
      exact (hold.grant hlength account).mono (hsince nowMs (by simp [LeaseOp.time?]))
    · have hold := ih (Nat.lt_of_succ_lt hops) hbefore fun t ht ↦
        hlast t ht nowMs (by simp [LeaseOp.time?])
      exact (hold.grantFor hlength account lifetimeMs).mono (hsince nowMs (by simp [LeaseOp.time?]))
    · have hold := ih (Nat.lt_of_succ_lt hops) hbefore fun t ht ↦
        hsince t (List.mem_append_left _ ht)
      exact hold.release hlength lease

/-- The indices of the records that pass a test are as many as these records. -/
theorem length_filter_range {α : Type} (l : List α) (p : α → Bool) :
    ((List.range l.length).filter fun k ↦ l[k]?.any p).length = l.countP p := by
  induction l using List.reverseRecOn with
  | nil => rfl
  | append_singleton l a ih =>
    have hbefore : (List.range l.length).filter (fun k ↦ (l ++ [a])[k]?.any p) =
        (List.range l.length).filter fun k ↦ l[k]?.any p := by
      refine List.filter_congr fun k hk ↦ ?_
      rw [getElem?_concat, if_neg (List.mem_range.mp hk).ne]
    rw [List.length_append, List.length_singleton, List.range_succ, List.filter_append,
      List.length_append, hbefore, ih, List.countP_append, List.filter_singleton,
      getElem?_concat, if_pos rfl, Option.any_some, List.countP_singleton]
    cases p a <;> rfl

theorem live_iff {nowMs : UInt64} {account : String} {booked : BookedLease} :
    booked.live nowMs account = true ↔
      booked.account = account ∧ booked.released = false ∧ nowMs < booked.expiry := by
  rw [BookedLease.live, Bool.and_eq_true, Bool.and_eq_true, decide_eq_true_eq, decide_eq_true_eq,
    Bool.not_eq_true', and_assoc]

/-- The table counts the live leases of the book, up to the largest `u32`. -/
theorem Tracks.inflight_eq (h : Tracks leaseMs run book since) (hlength : book.length < 2 ^ 64)
    (account : String) :
    run.table.inflight since account = min (book.countP (·.live since account)) u32Max := by
  -- the serials of the live leases are the indices of the live records
  have hserials : (((List.range book.length).filter fun k ↦
      book[k]?.any (·.live since account)).map UInt64.ofNat).Nodup := by
    refine List.Nodup.map_on (fun k hk j hj heq ↦ ?_) (List.nodup_range.filter _)
    have hk := List.mem_range.mp (List.mem_filter.mp hk).1
    have hj := List.mem_range.mp (List.mem_filter.mp hj).1
    exact ofNat_inj_of_lt (hk.trans hlength) (hj.trans hlength) heq
  rw [InflightLeases.inflight_eq hserials, List.length_map, length_filter_range, clampTo]
  intro serial
  rw [List.mem_map]
  constructor
  · rintro ⟨k, hk, rfl⟩
    obtain ⟨booked, hbooked, hlive⟩ := (Option.any_eq_true _ _).mp (List.mem_filter.mp hk).2
    obtain ⟨rfl, hreleased, hexpiry⟩ := live_iff.mp hlive
    exact ⟨booked.expiry, h.live k booked hbooked hreleased hexpiry, hexpiry⟩
  · rintro ⟨expiry, hcell, hexpiry⟩
    obtain ⟨k, hk, hserial⟩ := h.booked _ expiry hcell
    refine ⟨k, List.mem_filter.mpr ⟨List.mem_range.mpr (lt_length hk), ?_⟩, hserial.symm⟩
    rw [hk, Option.any_some]
    exact live_iff.mpr ⟨rfl, rfl, hexpiry⟩

/-- Two grants return two handles. -/
theorem Tracks.handles_ne (h : Tracks leaseMs run book since) (hlength : book.length < 2 ^ 64)
    {k j : ℕ} {lease other : InflightLeases.LeaseId} (hk : run.handles[k]? = some lease)
    (hj : run.handles[j]? = some other) (hne : j ≠ k) : other ≠ lease := by
  rw [h.handles, Option.map_eq_some_iff] at hk hj
  obtain ⟨booked, hk, rfl⟩ := hk
  obtain ⟨booked', hj, rfl⟩ := hj
  intro heq
  have hserial := (InflightLeases.LeaseId.mk.inj heq).2
  exact hne (ofNat_inj_of_lt ((lt_length hj).trans hlength) ((lt_length hk).trans hlength) hserial)

/-- **Leases are counted exactly.** Below the wrap of the serials, and with a clock that does not go
back, the in-flight count of an account is the number of its leases that are neither released nor
expired, up to the largest `u32`; a release leaves every other lease in the table; and when every
lease is released or expired, every count is zero. -/
theorem inflight_exact (leaseMs : UInt64) (ops : List LeaseOp) (nowMs : UInt64)
    (hops : ops.length < 2 ^ 64) (htimes : (times ops).Pairwise (· ≤ ·))
    (hnow : ∀ t ∈ times ops, t ≤ nowMs) :
    (∀ account, (after leaseMs ops).table.inflight nowMs account =
      min ((LeaseBook.after (max leaseMs 1) ops).countP (·.live nowMs account)) u32Max) ∧
    (∀ (k j : ℕ) (lease other : InflightLeases.LeaseId),
      (after leaseMs ops).handles[k]? = some lease →
      (after leaseMs ops).handles[j]? = some other → j ≠ k →
        ((after leaseMs ops).table.release lease).expiryOf other =
          (after leaseMs ops).table.expiryOf other) ∧
    ((∀ booked ∈ LeaseBook.after (max leaseMs 1) ops,
        booked.released = true ∨ booked.expiry ≤ nowMs) →
      ∀ account, (after leaseMs ops).table.inflight nowMs account = 0) := by
  have htracks := tracks_after leaseMs hops htimes hnow
  have hlength := (length_after_le (max leaseMs 1) ops).trans_lt hops
  have hcount := htracks.inflight_eq hlength
  refine ⟨hcount, fun k j lease other hk hj hne ↦ ?_, fun hdone account ↦ ?_⟩
  · exact InflightLeases.expiryOf_release_ne _ (htracks.handles_ne hlength hk hj hne)
  · have hnone : (LeaseBook.after (max leaseMs 1) ops).countP (·.live nowMs account) = 0 := by
      rw [List.countP_eq_zero]
      intro booked hbooked hlive
      obtain ⟨-, hreleased, hexpiry⟩ := live_iff.mp hlive
      rcases hdone booked hbooked with hdone | hdone
      · rw [hreleased] at hdone
        nomatch hdone
      · exact absurd hexpiry (UInt64.not_lt.mpr hdone)
    rw [hcount, hnone, Nat.zero_min]

/-- Two leases, one of them released twice. -/
theorem inflight_exact_twoLeases :
    (after 120000 [.grant 0 "a", .grantFor 5 "a" 600000, .release 0, .release 0]).table.inflight
      300000 "a" = 1 :=
  (inflight_exact 120000 [.grant 0 "a", .grantFor 5 "a" 600000, .release 0, .release 0] 300000
    (by decide) (by decide) (by simp [times, LeaseOp.time?])).1 "a"

/-- A run of grants books as many live leases. -/
theorem countP_replicate (n : ℕ) :
    (LeaseBook.after 1 (List.replicate n (.grant 0 "a"))).countP (·.live 0 "a") = n := by
  induction n with
  | zero => rfl
  | succ n ih =>
    rw [List.replicate_succ', LeaseBook.after, List.foldl_append, ← LeaseBook.after,
      List.foldl_cons, List.foldl_nil, LeaseBook.step, List.countP_append, ih]
    rfl

/-- One lease more than the largest `u32` is not counted. -/
theorem inflight_ne_live_full :
    (after 1 (List.replicate (u32Max + 1) (.grant 0 "a"))).table.inflight 0 "a" ≠
      (LeaseBook.after 1 (List.replicate (u32Max + 1) (.grant 0 "a"))).countP (·.live 0 "a") := by
  have htimes : ∀ n, times (List.replicate n (.grant 0 "a")) = List.replicate n 0 := by
    intro n
    induction n with
    | zero => rfl
    | succ n ih =>
      rw [List.replicate_succ, List.replicate_succ, ← ih]
      rfl
  have hlength : (List.replicate (u32Max + 1) (LeaseOp.grant 0 "a")).length < 2 ^ 64 := by
    rw [List.length_replicate, u32Max]
    omega
  have htracks : Tracks 1 _ _ 0 := tracks_after 1 hlength
    (by rw [htimes]; exact List.pairwise_replicate.mpr (Or.inr (UInt64.le_refl 0)))
    (by rw [htimes]; exact fun t ht ↦ List.eq_of_mem_replicate ht ▸ UInt64.le_refl 0)
  have hcount := htracks.inflight_eq ((length_after_le _ _).trans_lt hlength) "a"
  rw [hcount, countP_replicate]
  omega

end LeaseRun

end TokenStation
