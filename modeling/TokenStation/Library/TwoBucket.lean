import Mathlib.Algebra.BigOperators.Group.List.Basic
import Mathlib.Tactic.Common
import Mathlib.Tactic.Ring

/-!
# Two-bucket counters

A counter that keeps the amounts of the newest bucket and of the one just before it. Recording rolls
the buckets forward when the time has moved on, and files a late amount in the bucket it belongs
to if that bucket is still kept.

The counter is a summary of the multiset of records: `recordAll_empty` says which, for amounts in
any commutative monoid, so the order of the records does not matter (`recordAll_perm`).

Over the naturals a counter is read at a time: the previous bucket's share decays over the current
period. A reading never grows while nothing is recorded (`reading_antitone`).
-/

namespace Library

/-- The newest bucket's number, its amount, and the amount of the bucket before it. -/
@[ext] structure TwoBucket (M : Type*) where
  index : ℕ
  curr : M
  prev : M

namespace TwoBucket

variable {M : Type*} [AddCommMonoid M]

def empty : TwoBucket M := ⟨0, 0, 0⟩

/-- Roll the buckets forward: an adjacent bucket keeps the old current one as previous. -/
def advance (s : TwoBucket M) (bucket : ℕ) : TwoBucket M :=
  if bucket ≤ s.index then s
  else ⟨bucket, 0, if bucket = s.index + 1 then s.curr else 0⟩

/-- File an amount under a bucket that is still kept. -/
def file (s : TwoBucket M) (bucket : ℕ) (amount : M) : TwoBucket M :=
  if bucket = s.index then { s with curr := s.curr + amount }
  else if bucket + 1 = s.index then { s with prev := s.prev + amount }
  else s

def record (s : TwoBucket M) (bucket : ℕ) (amount : M) : TwoBucket M :=
  (s.advance bucket).file bucket amount

def recordAll (s : TwoBucket M) (records : List (ℕ × M)) : TwoBucket M :=
  records.foldl (fun s r ↦ s.record r.1 r.2) s

/-! ## The summary of a list of records -/

/-- The largest bucket number, or 0 when there are no records. -/
def lastBucket (records : List (ℕ × M)) : ℕ := (records.map Prod.fst).foldr max 0

/-- The total of the amounts whose bucket satisfies a test. -/
def spent (records : List (ℕ × M)) (p : ℕ → Bool) : M :=
  ((records.filter fun r ↦ p r.1).map Prod.snd).sum

def summary (records : List (ℕ × M)) : TwoBucket M where
  index := lastBucket records
  curr := spent records fun bucket ↦ bucket = lastBucket records
  prev := spent records fun bucket ↦ bucket + 1 = lastBucket records

omit [AddCommMonoid M] in
theorem le_lastBucket {records : List (ℕ × M)} {r : ℕ × M} (h : r ∈ records) :
    r.1 ≤ lastBucket records := by
  induction records with
  | nil => cases h
  | cons s records ih =>
    rw [lastBucket, List.map_cons, List.foldr_cons, ← lastBucket]
    rcases List.mem_cons.mp h with rfl | h
    · exact le_max_left _ _
    · exact (ih h).trans (le_max_right _ _)

omit [AddCommMonoid M] in
/-- With records, the largest bucket number is the bucket of one of them. -/
theorem exists_lastBucket {records : List (ℕ × M)} (h : records ≠ []) :
    ∃ r ∈ records, r.1 = lastBucket records := by
  induction records with
  | nil => exact absurd rfl h
  | cons s records ih =>
    rw [lastBucket, List.map_cons, List.foldr_cons, ← lastBucket]
    rcases le_total (lastBucket records) s.1 with hle | hle
    · exact ⟨s, List.mem_cons_self, (max_eq_left hle).symm⟩
    · rcases records with - | ⟨r, records⟩
      · exact ⟨s, List.mem_cons_self, (max_eq_left (Nat.zero_le _)).symm⟩
      · obtain ⟨r', hr', heq⟩ := ih (List.cons_ne_nil _ _)
        exact ⟨r', List.mem_cons_of_mem _ hr', by rw [heq, max_eq_right hle]⟩

theorem spent_cons (bucket : ℕ) (amount : M) (records : List (ℕ × M)) (p : ℕ → Bool) :
    spent ((bucket, amount) :: records) p =
      (if p bucket then amount else 0) + spent records p := by
  rw [spent, List.filter_cons]
  split
  · rw [List.map_cons, List.sum_cons, spent]
  · rw [zero_add, spent]

theorem spent_eq_zero {records : List (ℕ × M)} {p : ℕ → Bool}
    (h : ∀ r ∈ records, p r.1 = false) : spent records p = 0 := by
  rw [spent, List.filter_eq_nil_iff.mpr fun r hr ↦ by simp [h r hr]]
  rfl

theorem spent_perm {records records' : List (ℕ × M)} (h : records.Perm records')
    (p : ℕ → Bool) : spent records p = spent records' p :=
  ((h.filter _).map _).sum_eq

theorem summary_perm {records records' : List (ℕ × M)} (h : records.Perm records') :
    summary records = summary records' := by
  have hlast : lastBucket records = lastBucket records' := (h.map Prod.fst).foldr_eq 0
  simp only [summary, hlast, spent_perm h]

/-- Recording keeps the counter a summary: one step. -/
theorem record_summary (records : List (ℕ × M)) (bucket : ℕ) (amount : M) :
    (summary records).record bucket amount = summary ((bucket, amount) :: records) := by
  have hlast : lastBucket ((bucket, amount) :: records) = max bucket (lastBucket records) := rfl
  have hle := fun r (hr : r ∈ records) ↦ le_lastBucket hr
  rcases lt_trichotomy bucket (lastBucket records) with hlt | rfl | hgt
  · -- a late record: the buckets stay, and the amount goes to the previous one or nowhere
    by_cases hprev : bucket + 1 = lastBucket records
    · simp [record, advance, file, summary, hlast, hlt.le, hlt.ne, hprev, spent_cons, add_comm]
    · simp [record, advance, file, summary, hlast, hlt.le, hlt.ne, hprev, spent_cons]
  · simp [record, advance, file, summary, hlast, spent_cons, add_comm]
  · -- a new bucket: nothing recorded is in it, and only an adjacent one is remembered
    have hmax : max bucket (lastBucket records) = bucket := max_eq_left hgt.le
    have hcurr : spent records (fun b ↦ decide (b = bucket)) = 0 :=
      spent_eq_zero fun r hr ↦ by have := hle r hr; simp; omega
    by_cases hnext : bucket = lastBucket records + 1
    · subst hnext
      simp [record, advance, file, summary, hlast, hcurr, spent_cons]
    · have hprev : spent records (fun b ↦ decide (b + 1 = bucket)) = 0 :=
        spent_eq_zero fun r hr ↦ by have := hle r hr; simp; omega
      simp [record, advance, file, summary, hlast, hmax, not_le.mpr hgt, hcurr, hprev, hnext,
        spent_cons]

/-- **The counter is the summary of its records**, after any run from empty. -/
theorem recordAll_empty (records : List (ℕ × M)) :
    (empty : TwoBucket M).recordAll records = summary records := by
  have hrun : ∀ earlier : List (ℕ × M),
      (summary earlier).recordAll records = summary (records.reverse ++ earlier) := by
    induction records with
    | nil => intro earlier; rfl
    | cons r records ih =>
      intro earlier
      rw [recordAll, List.foldl_cons, ← recordAll, record_summary, ih, List.reverse_cons,
        List.append_assoc, List.singleton_append]
  rw [← summary_perm records.reverse_perm, ← List.append_nil records.reverse, ← hrun []]
  rfl

/-! ## Readings -/

/-- What is left of an amount when `elapsed` of a period of length `len` has gone by. -/
def decayed (len amount elapsed : ℕ) : ℕ := amount * (len - elapsed) / len

theorem decayed_le (len amount elapsed : ℕ) : decayed len amount elapsed ≤ amount := by
  rw [decayed]
  refine Nat.div_le_of_le_mul ?_
  rw [mul_comm len amount]
  exact Nat.mul_le_mul_left amount (Nat.sub_le len elapsed)

theorem decayed_antitone (len amount : ℕ) {elapsed elapsed' : ℕ} (h : elapsed ≤ elapsed') :
    decayed len amount elapsed' ≤ decayed len amount elapsed :=
  Nat.div_le_div_right (Nat.mul_le_mul_left amount (Nat.sub_le_sub_left h len))

/-- The counter read at `now`, for buckets of length `len`. Before its newest bucket a counter shows
all it holds. -/
def reading (s : TwoBucket ℕ) (len now : ℕ) : ℕ :=
  if now / len < s.index then s.curr + s.prev
  else if now / len = s.index then s.curr + decayed len s.prev (now % len)
  else if now / len = s.index + 1 then decayed len s.curr (now % len)
  else 0

theorem reading_le (s : TwoBucket ℕ) (len now : ℕ) : s.reading len now ≤ s.curr + s.prev := by
  have hcurr := decayed_le len s.curr (now % len)
  have hprev := decayed_le len s.prev (now % len)
  rw [reading]
  split_ifs <;> omega

/-- In one bucket, a later time is further into it. -/
theorem mod_le_mod {len now now' : ℕ} (h : now ≤ now') (hdiv : now / len = now' / len) :
    now % len ≤ now' % len := by
  have hnow := Nat.div_add_mod now len
  have hnow' := Nat.div_add_mod now' len
  rw [hdiv] at hnow
  omega

/-- **A reading never grows with time.** -/
theorem reading_antitone (s : TwoBucket ℕ) (len : ℕ) : Antitone (s.reading len) := by
  intro now now' h
  have hdiv : now / len ≤ now' / len := Nat.div_le_div_right h
  by_cases hbefore : now / len < s.index
  · have hnow : s.reading len now = s.curr + s.prev := if_pos hbefore
    rw [hnow]
    exact reading_le s len now'
  · by_cases hsame : now / len = now' / len
    · -- both in one bucket: only the elapsed part differs
      have hcurr := decayed_antitone len s.curr (mod_le_mod h hsame)
      have hprev := decayed_antitone len s.prev (mod_le_mod h hsame)
      rw [reading, reading, ← hsame]
      split_ifs <;> omega
    · -- a later bucket: the newest amount counts in full before it, and at most in full in it
      have hcurr := decayed_le len s.curr (now' % len)
      rw [reading, reading]
      split_ifs <;> omega

end TwoBucket

end Library
