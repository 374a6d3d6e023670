import Mathlib.Algebra.Order.Ring.Int
import Mathlib.Logic.Function.Iterate

/-!
# The proleptic Gregorian calendar

A `CivilDate` is a year, a month and a day that exists in that month. The calendar is given by
`CivilDate.next` alone: the next day of the month, or else the first of the next month, or else the
first of the next year. Counting days is counting steps, `count_iterate_next`, and from the first
of a year every later date is some number of steps away, `exists_iterate_next`.
-/

namespace Library

/-- Every fourth year, but of the full centuries only every fourth one. -/
def isLeapYear (year : ℤ) : Bool :=
  decide (year % 4 = 0) && (decide (year % 100 ≠ 0) || decide (year % 400 = 0))

def monthLength (year : ℤ) (month : ℕ) : ℕ :=
  match month with
  | 2 => if isLeapYear year then 29 else 28
  | 4 | 6 | 9 | 11 => 30
  | _ => 31

theorem monthLength_pos (year : ℤ) (month : ℕ) : 1 ≤ monthLength year month := by
  unfold monthLength
  split
  · split <;> omega
  all_goals omega

theorem monthLength_le (year : ℤ) (month : ℕ) : monthLength year month ≤ 31 := by
  unfold monthLength
  split
  · split <;> omega
  all_goals omega

/-- A date of the calendar. -/
structure CivilDate where
  year : ℤ
  month : ℕ
  day : ℕ
  month_pos : 1 ≤ month
  month_le : month ≤ 12
  day_pos : 1 ≤ day
  day_le : day ≤ monthLength year month
  deriving DecidableEq

namespace CivilDate

/-- The first of a month. -/
def first (year : ℤ) (month : ℕ) (hpos : 1 ≤ month) (hle : month ≤ 12) : CivilDate where
  year
  month
  day := 1
  month_pos := hpos
  month_le := hle
  day_pos := le_rfl
  day_le := monthLength_pos year month

/-- The day after. -/
def next (date : CivilDate) : CivilDate :=
  if hday : date.day < monthLength date.year date.month then
    { date with
      day := date.day + 1
      day_pos := Nat.le_add_left 1 _
      day_le := hday }
  else if hmonth : date.month < 12 then
    first date.year (date.month + 1) (Nat.le_add_left 1 _) hmonth
  else first (date.year + 1) 1 le_rfl (by omega)

/-- What grows by one from each day to the next counts the days. -/
theorem count_iterate_next {count : CivilDate → ℤ}
    (hnext : ∀ date : CivilDate, count date.next = count date + 1) (n : ℕ) (date : CivilDate) :
    count (next^[n] date) = count date + n := by
  induction n with
  | zero => simp
  | succ n ih =>
    rw [Function.iterate_succ_apply', hnext, ih, Nat.cast_succ, add_assoc]

/-! ## Every later date is reached -/

/-- Some number of days later. -/
def Later (date later : CivilDate) : Prop := ∃ n, next^[n] date = later

variable {date later : CivilDate}

theorem Later.next (h : Later date later) : Later date later.next := by
  obtain ⟨n, rfl⟩ := h
  exact ⟨n + 1, Function.iterate_succ_apply' _ _ _⟩

/-- From the first of a month, every day of the month is reached. -/
theorem Later.day {year : ℤ} {month : ℕ} (hpos : 1 ≤ month) (hle : month ≤ 12)
    (h : Later date (first year month hpos hle)) {day : ℕ} (hday : 1 ≤ day)
    (hlast : day ≤ monthLength year month) :
    Later date ⟨year, month, day, hpos, hle, hday, hlast⟩ := by
  induction day, hday using Nat.le_induction with
  | base => exact h
  | succ day hday ih =>
    have hstep := (ih (by omega)).next
    rw [CivilDate.next, dif_pos (show day < monthLength year month by omega)] at hstep
    exact hstep

/-- The last day of a month leads to the next one. -/
theorem Later.month {year : ℤ} {month : ℕ} (hpos : 1 ≤ month) (hle : month ≤ 12)
    (h : Later date (first year 1 le_rfl (by omega))) : Later date (first year month hpos hle) := by
  induction month, hpos using Nat.le_induction with
  | base => exact h
  | succ month hpos ih =>
    have hlast := (Later.day hpos (by omega) (ih (by omega) h) (monthLength_pos year month)
      le_rfl).next
    rw [CivilDate.next, dif_neg (Nat.lt_irrefl _), dif_pos (show month < 12 by omega)] at hlast
    exact hlast

/-- December leads to the next year. -/
theorem Later.year {year : ℤ} (h : Later date (first year 1 le_rfl (by omega))) (n : ℕ) :
    Later date (first (year + n) 1 le_rfl (by omega)) := by
  induction n with
  | zero => simpa using h
  | succ n ih =>
    have hdecember : Later date (first (year + n) 12 (by omega) le_rfl) :=
      Later.month (by omega) le_rfl ih
    have hlast := (Later.day (by omega) le_rfl hdecember (monthLength_pos _ 12) le_rfl).next
    rw [CivilDate.next, dif_neg (Nat.lt_irrefl _), dif_neg (Nat.lt_irrefl _)] at hlast
    simpa [add_assoc] using hlast

/-- From the first of a year, every date from then on is some number of days later. -/
theorem exists_iterate_next {year : ℤ} (hyear : year ≤ date.year) :
    ∃ n, next^[n] (first year 1 le_rfl (by omega)) = date := by
  obtain ⟨n, hn⟩ := Int.le.dest hyear
  have hstart : Later (first year 1 le_rfl (by omega)) (first year 1 le_rfl (by omega)) := ⟨0, rfl⟩
  have hyears := hstart.year n
  rw [hn] at hyears
  exact Later.day date.month_pos date.month_le (Later.month date.month_pos date.month_le hyears)
    date.day_pos date.day_le

end CivilDate

end Library
