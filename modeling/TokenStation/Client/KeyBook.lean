import Mathlib.Data.Set.Insert
import Mathlib.Logic.Function.Basic
import Mathlib.Order.BooleanAlgebra.Set

/-!
# Where the keys of providers are

What the provider commands do to keys, apart from how they do it. A key waits for the next save, or
it is stored, or the next save removes it; a provider is in the draft, or in the recycle bin, or
gone. A log beside this state says which key each provider was given last.

A save gives every provider of the draft the key of the log, provided that no key is written for a
provider while another one waits for it, and that no provider is restored whose key was dropped when
it was removed: `Honours.record`, `Honours.saves`.
-/

namespace TokenStation

@[ext] structure KeyBook where
  drafted : Set String
  binned : Set String
  /-- Keys that wait for the next save. -/
  pending : String → Option String
  /-- Providers whose keys the next save removes. -/
  removing : Set String
  stored : String → Option String

namespace KeyBook

/-- The key a provider has, from the next save on at the latest. -/
def Has (book : KeyBook) (name key : String) : Prop :=
  book.pending name = some key ∨
    book.pending name = none ∧ name ∉ book.removing ∧ book.stored name = some key

/-! ## Changes -/

def submit (name key : String) (book : KeyBook) : KeyBook :=
  { book with
    pending := Function.update book.pending name (some key)
    removing := book.removing \ {name} }

def store (name key : String) (book : KeyBook) : KeyBook :=
  { book with stored := Function.update book.stored name (some key) }

/-- A new provider, in the place of others. -/
def enter (name : String) (legacy : List String) (book : KeyBook) : KeyBook :=
  { book with drafted := insert name (book.drafted \ {other | other ∈ legacy}) }

/-- The keys of the replaced providers. -/
def retire (legacy : List String) (book : KeyBook) : KeyBook :=
  { book with
    pending := fun name ↦ if name ∈ legacy then none else book.pending name
    removing := book.removing ∪ {name | name ∈ legacy} }

def remove (name : String) (book : KeyBook) : KeyBook :=
  { book with
    drafted := book.drafted \ {name}
    binned := insert name book.binned
    pending := Function.update book.pending name none }

def restore (name : String) (book : KeyBook) : KeyBook :=
  { book with drafted := insert name book.drafted, binned := book.binned \ {name} }

section Fields

variable {book : KeyBook} {name other key : String} {legacy : List String}

theorem pending_submit_self : (book.submit name key).pending name = some key :=
  Function.update_self ..

theorem pending_submit_ne (h : other ≠ name) :
    (book.submit name key).pending other = book.pending other :=
  Function.update_of_ne h ..

theorem stored_store_self : (book.store name key).stored name = some key :=
  Function.update_self ..

theorem stored_store_ne (h : other ≠ name) :
    (book.store name key).stored other = book.stored other :=
  Function.update_of_ne h ..

theorem pending_remove_self : (book.remove name).pending name = none :=
  Function.update_self ..

theorem pending_remove_ne (h : other ≠ name) :
    (book.remove name).pending other = book.pending other :=
  Function.update_of_ne h ..

theorem pending_retire (h : other ∉ legacy) :
    (book.retire legacy).pending other = book.pending other :=
  if_neg h

end Fields

/-- A save: keys that wait are stored, and keys that are to be removed are gone. -/
structure Saves (before after : KeyBook) : Prop where
  drafted : after.drafted = before.drafted
  binned : after.binned ⊆ before.binned
  pending : ∀ name, after.pending name = none
  removing : after.removing ⊆ before.removing
  stores : ∀ name key, before.pending name = some key → name ∉ before.removing →
    after.stored name = some key
  keeps : ∀ name, before.pending name = none → name ∉ before.removing →
    after.stored name = before.stored name

/-- A purge removes the stored keys of some providers that are gone. -/
structure Purges (before after : KeyBook) : Prop where
  drafted : after.drafted = before.drafted
  binned : after.binned = before.binned
  pending : after.pending = before.pending
  removing : after.removing = before.removing
  keeps : ∀ name, name ∈ before.drafted ∪ before.binned → after.stored name = before.stored name

/-- What a purge that was interrupted is finished with. -/
inductive Settles (before : KeyBook) : KeyBook → Prop where
  | purged {after : KeyBook} (h : before.Purges after) : Settles before after
  | saved {middle after : KeyBook} (h : before.Purges middle) (hsaves : middle.Saves after) :
      Settles before after

theorem Purges.refl (book : KeyBook) : book.Purges book := ⟨rfl, rfl, rfl, rfl, fun _ _ ↦ rfl⟩

end KeyBook

/-! ## Commands -/

/-- What a command does to the keys. -/
inductive KeyChange where
  | add (name : String) (key : Option String) (legacy : List String)
  | addFree (name key : String)
  | extend (name key : String)
  | edit (name : String) (key : Option String)
  | remove (name : String)
  | restore (name : String)
  | save

open KeyBook in
/-- The change of the book. -/
inductive KeyChange.Step : KeyChange → KeyBook → KeyBook → Prop where
  | add {book : KeyBook} {name : String} {legacy : List String} (hnew : name ∉ book.drafted)
      (hbin : name ∉ book.binned) : Step (.add name none legacy) book (enter name legacy book)
  | addKey {book : KeyBook} {name key : String} {legacy : List String} (hnew : name ∉ book.drafted)
      (hbin : name ∉ book.binned) (hlegacy : name ∉ legacy) :
      Step (.add name (some key) legacy) book
        (retire legacy (submit name key (enter name legacy book)))
  | addFree {book : KeyBook} {name key : String} (hnew : name ∉ book.drafted) :
      Step (.addFree name key) book (submit name key (enter name [] book))
  | extend {book : KeyBook} {name key : String} (hold : name ∈ book.drafted) :
      Step (.extend name key) book (submit name key book)
  | edit {book : KeyBook} {name : String} (hold : name ∈ book.drafted) :
      Step (.edit name none) book book
  | editKey {book : KeyBook} {name key : String} (hold : name ∈ book.drafted) :
      Step (.edit name (some key)) book (store name key book)
  | remove {book : KeyBook} {name : String} (hold : name ∈ book.drafted) :
      Step (.remove name) book (KeyBook.remove name book)
  | restore {book : KeyBook} {name : String} (hbin : name ∈ book.binned) :
      Step (.restore name) book (KeyBook.restore name book)
  | save {before after : KeyBook} (h : before.Saves after) : Step .save before after

/-! ## The log -/

structure KeyLog where
  /-- The key each provider was given last, if it was given one. -/
  submitted : String → Option String
  /-- Providers that lost the key they were given. -/
  dropped : Set String

namespace KeyLog

def submit (name : String) (key : Option String) (log : KeyLog) : KeyLog where
  submitted := Function.update log.submitted name key
  dropped := log.dropped \ {name}

section Fields

variable {log : KeyLog} {name other : String} {key key' : Option String}

theorem submitted_submit_self : (log.submit name key).submitted name = key :=
  Function.update_self ..

theorem submitted_submit_ne (h : other ≠ name) :
    (log.submit name key).submitted other = log.submitted other :=
  Function.update_of_ne h ..

theorem submit_submit : (log.submit name key).submit name key' = log.submit name key' := by
  simp only [submit, Function.update_idem, sdiff_sdiff_left, sup_idem]

end Fields

/-- A removal drops a key that waits, unless it is also the stored one; the key of a replaced
provider is removed. -/
def record (log : KeyLog) (book : KeyBook) : KeyChange → KeyLog
  | .add name none _ => log.submit name none
  | .add name (some key) legacy =>
    { log.submit name key with dropped := (log.dropped \ {name}) ∪ {other | other ∈ legacy} }
  | .addFree name key | .extend name key | .edit name (some key) => log.submit name key
  | .remove name =>
    { log with dropped := log.dropped ∪
        {other | other = name ∧ book.pending name ≠ none ∧ book.stored name ≠ book.pending name} }
  | .edit _ none | .restore _ | .save => log

/-- No key is written while another one waits or a removal does, and no provider is restored that
lost its key. -/
def Careful (log : KeyLog) (book : KeyBook) : KeyChange → Prop
  | .edit name (some key) =>
    (book.pending name = none ∨ book.pending name = some key) ∧ name ∉ book.removing
  | .restore name => name ∈ log.dropped → log.submitted name = none
  | _ => True

end KeyLog

/-! ## The invariant -/

/-- Every provider that can be used or restored has the key it was given last. -/
structure Honours (log : KeyLog) (book : KeyBook) : Prop where
  disjoint : ∀ name ∈ book.removing, book.pending name = none
  /-- A provider of the draft has not lost a key it was given. -/
  intact : ∀ name ∈ book.drafted, name ∈ log.dropped → log.submitted name = none
  has : ∀ name ∈ book.drafted ∪ book.binned, name ∉ log.dropped →
    ∀ key, log.submitted name = some key → book.Has name key

namespace Honours

variable {log : KeyLog} {book after : KeyBook} {name key : String}

theorem has_drafted (h : Honours log book) (hname : name ∈ book.drafted)
    (hkey : log.submitted name = some key) : book.Has name key := by
  refine h.has name (.inl hname) (fun hdropped ↦ ?_) key hkey
  rw [h.intact name hname hdropped] at hkey
  nomatch hkey

/-- A purge is only of providers that are gone. -/
theorem purges (h : Honours log book) (hpurges : book.Purges after) : Honours log after := by
  refine ⟨fun name hname ↦ ?_, fun name hname ↦ ?_, fun name hname hdropped key hkey ↦ ?_⟩
  · rw [hpurges.pending]
    exact h.disjoint name (hpurges.removing ▸ hname)
  · exact h.intact name (hpurges.drafted ▸ hname)
  · rw [hpurges.drafted, hpurges.binned] at hname
    rw [KeyBook.Has, hpurges.pending, hpurges.removing, hpurges.keeps name hname]
    exact h.has name hname hdropped key hkey

/-- After a save a key that a provider has is the stored one. -/
theorem stored_of_saves (h : Honours log book) (hsaves : book.Saves after)
    (hhas : book.Has name key) : name ∉ after.removing ∧ after.stored name = some key := by
  rcases hhas with hpending | ⟨hpending, hremoving, hstored⟩
  · have hremoving : name ∉ book.removing := by
      intro hmem
      rw [h.disjoint name hmem] at hpending
      nomatch hpending
    exact ⟨fun hmem ↦ hremoving (hsaves.removing hmem), hsaves.stores name key hpending hremoving⟩
  · refine ⟨fun hmem ↦ hremoving (hsaves.removing hmem), ?_⟩
    rw [hsaves.keeps name hpending hremoving, hstored]

theorem saves (h : Honours log book) (hsaves : book.Saves after) : Honours log after := by
  refine ⟨fun name _ ↦ hsaves.pending name, fun name hname ↦ ?_,
    fun name hname hdropped key hkey ↦ ?_⟩
  · exact h.intact name (hsaves.drafted ▸ hname)
  · have hbefore : name ∈ book.drafted ∪ book.binned :=
      hname.imp (fun hdrafted ↦ hsaves.drafted ▸ hdrafted) fun hbinned ↦ hsaves.binned hbinned
    have hstored := h.stored_of_saves hsaves (h.has name hbefore hdropped key hkey)
    exact .inr ⟨hsaves.pending name, hstored⟩

theorem settles (h : Honours log book) (hsettles : book.Settles after) : Honours log after := by
  rcases hsettles with hpurges | ⟨hpurges, hsaves⟩
  · exact h.purges hpurges
  · exact (h.purges hpurges).saves hsaves

/-- A provider is given a key that waits. -/
theorem submit (h : Honours log book) :
    Honours (log.submit name (some key)) (book.submit name key) := by
  refine ⟨fun other hother ↦ ?_, fun other hother hdropped ↦ ?_,
    fun other hother hdropped given hgiven ↦ ?_⟩
  · rw [KeyBook.pending_submit_ne hother.2]
    exact h.disjoint other hother.1
  · rw [KeyLog.submitted_submit_ne hdropped.2]
    exact h.intact other hother hdropped.1
  · by_cases hname : other = name
    · subst hname
      rw [KeyLog.submitted_submit_self] at hgiven
      exact .inl (KeyBook.pending_submit_self.trans hgiven)
    · rw [KeyLog.submitted_submit_ne hname] at hgiven
      have hhas := h.has other hother (fun hmem ↦ hdropped ⟨hmem, hname⟩) given hgiven
      rw [KeyBook.Has, KeyBook.pending_submit_ne hname]
      exact hhas.imp_right fun ⟨hpending, hremoving, hstored⟩ ↦
        ⟨hpending, fun hmem ↦ hremoving hmem.1, hstored⟩

/-- A new provider has not been given a key. -/
theorem enter (h : Honours log book) (legacy : List String) :
    Honours (log.submit name none) (book.enter name legacy) := by
  refine ⟨h.disjoint, fun other hother hdropped ↦ ?_, fun other hother hdropped given hgiven ↦ ?_⟩
  · rw [KeyLog.submitted_submit_ne hdropped.2]
    exact h.intact other (hother.resolve_left hdropped.2).1 hdropped.1
  · by_cases hname : other = name
    · subst hname
      rw [KeyLog.submitted_submit_self] at hgiven
      nomatch hgiven
    · rw [KeyLog.submitted_submit_ne hname] at hgiven
      refine h.has other ?_ (fun hmem ↦ hdropped ⟨hmem, hname⟩) given hgiven
      exact hother.imp_left fun hdrafted ↦ (hdrafted.resolve_left hname).1

/-- Replaced providers lose their keys; they are in the draft no longer. -/
theorem retire (h : Honours log book) {legacy : List String}
    (hlegacy : ∀ other ∈ legacy, other ∉ book.drafted) :
    Honours { log with dropped := log.dropped ∪ {other | other ∈ legacy} }
      (book.retire legacy) := by
  refine ⟨fun other hother ↦ ?_, fun other hother hdropped ↦ ?_,
    fun other hother hdropped given hgiven ↦ ?_⟩
  · by_cases hmem : other ∈ legacy
    · exact if_pos hmem
    · rw [KeyBook.pending_retire hmem]
      exact h.disjoint other (hother.resolve_right hmem)
  · exact h.intact other hother (hdropped.resolve_right fun hmem ↦ hlegacy other hmem hother)
  · have hnot : other ∉ legacy := fun hmem ↦ hdropped (.inr hmem)
    have hhas := h.has other hother (fun hmem ↦ hdropped (.inl hmem)) given hgiven
    rw [KeyBook.Has, KeyBook.pending_retire hnot]
    exact hhas.imp_right fun ⟨hpending, hremoving, hstored⟩ ↦
      ⟨hpending, fun hmem ↦ hmem.elim hremoving hnot, hstored⟩

/-- A key is written at once, and the next save leaves it. -/
theorem store (h : Honours log book)
    (hpending : book.pending name = none ∨ book.pending name = some key)
    (hremoving : name ∉ book.removing) :
    Honours (log.submit name (some key)) (book.store name key) := by
  refine ⟨h.disjoint, fun other hother hdropped ↦ ?_, fun other hother hdropped given hgiven ↦ ?_⟩
  · rw [KeyLog.submitted_submit_ne hdropped.2]
    exact h.intact other hother hdropped.1
  · by_cases hname : other = name
    · subst hname
      rw [KeyLog.submitted_submit_self] at hgiven
      obtain rfl := Option.some.inj hgiven
      exact hpending.symm.imp_right fun hnone ↦ ⟨hnone, hremoving, KeyBook.stored_store_self⟩
    · rw [KeyLog.submitted_submit_ne hname] at hgiven
      have hhas := h.has other hother (fun hmem ↦ hdropped ⟨hmem, hname⟩) given hgiven
      rw [KeyBook.Has, KeyBook.stored_store_ne hname]
      exact hhas

/-- A removed provider keeps a stored key; a key that waits is dropped. -/
theorem remove (h : Honours log book) (hname : name ∈ book.drafted) :
    Honours (log.record book (.remove name)) (book.remove name) := by
  refine ⟨fun other hother ↦ ?_, fun other hother hdropped ↦ ?_,
    fun other hother hdropped given hgiven ↦ ?_⟩
  · by_cases heq : other = name
    · rw [heq, KeyBook.pending_remove_self]
    · rw [KeyBook.pending_remove_ne heq]
      exact h.disjoint other hother
  · exact h.intact other hother.1 (hdropped.resolve_right fun hnow ↦ hother.2 hnow.1)
  · have hold : other ∉ log.dropped := fun hmem ↦ hdropped (.inl hmem)
    by_cases heq : other = name
    · subst heq
      -- what waited is stored as well, or the provider would have lost its key
      have hstored : book.pending other ≠ none → book.stored other = book.pending other :=
        fun hsome ↦ by_contra fun hne ↦ hdropped (.inr ⟨rfl, hsome, hne⟩)
      rcases h.has_drafted hname hgiven with hpending | hhas
      · refine .inr ⟨KeyBook.pending_remove_self, fun hmem ↦ ?_, ?_⟩
        · rw [h.disjoint other hmem] at hpending
          nomatch hpending
        · exact (hstored (by simp [hpending])).trans hpending
      · exact .inr ⟨KeyBook.pending_remove_self, hhas.2⟩
    · rw [KeyBook.Has, KeyBook.pending_remove_ne heq]
      refine h.has other ?_ hold given hgiven
      exact hother.imp (fun hdrafted ↦ hdrafted.1) fun hbinned ↦ hbinned.resolve_left heq

/-- A restored provider has the key it had. -/
theorem restore (h : Honours log book) (hbin : name ∈ book.binned)
    (hkept : name ∈ log.dropped → log.submitted name = none) :
    Honours log (book.restore name) := by
  refine ⟨h.disjoint, fun other hother hdropped ↦ ?_, fun other hother hdropped given hgiven ↦ ?_⟩
  · rcases hother with rfl | hother
    · exact hkept hdropped
    · exact h.intact other hother hdropped
  · refine h.has other ?_ hdropped given hgiven
    rcases hother with (rfl | hother) | hother
    · exact .inr hbin
    · exact .inl hother
    · exact .inr hother.1

/-- A careful command keeps the invariant, with what the log records of it. -/
theorem record (h : Honours log book) {change : KeyChange} (hstep : change.Step book after)
    (hcareful : log.Careful book change) : Honours (log.record book change) after := by
  induction hstep with
  | @add book name legacy hnew hbin => exact h.enter legacy
  | @addKey book name key legacy hnew hbin hlegacy =>
    have hentered : Honours ((log.submit name none).submit name (some key))
        ((book.enter name legacy).submit name key) := (h.enter legacy).submit
    rw [KeyLog.submit_submit] at hentered
    refine hentered.retire fun other hmem hother ↦ ?_
    rcases hother with rfl | hother
    · exact hlegacy hmem
    · exact hother.2 hmem
  | @addFree book name key hnew =>
    have hentered : Honours ((log.submit name none).submit name (some key))
        ((book.enter name []).submit name key) := (h.enter []).submit
    rw [KeyLog.submit_submit] at hentered
    exact hentered
  | extend hold => exact h.submit
  | edit hold => exact h
  | editKey hold => exact h.store hcareful.1 hcareful.2
  | remove hold => exact h.remove hold
  | restore hbin => exact h.restore hbin hcareful
  | save hsaves => exact h.saves hsaves

end Honours

end TokenStation
