import Mathlib.Data.List.AList
import TokenStation.Protocol.Text
import TokenStation.Quota.Reading

/-!
# Quota headers

Providers stamp their remaining allowance and reset time on every response. A family of headers
reports one window with three fields: a limit, what remains of it and when it resets. A reset comes
as an absolute timestamp, as a number of seconds, or as a duration such as `6m0s`.

A window is taken from a family whose limit and remaining count parse. The reset is not asked for:
where it is missing or malformed the window says that it resets now (`takenWhenComplete_iff`).
-/

namespace TokenStation

open Library

/-- The header names of one token-quota family. -/
structure QuotaFamily where
  limitKey : String
  remainingKey : String
  resetKey : String
  deriving DecidableEq

/-- The families that are read, in order. -/
def quotaFamilies : List QuotaFamily := [
  { limitKey := "x-ratelimit-limit-tokens"
    remainingKey := "x-ratelimit-remaining-tokens"
    resetKey := "x-ratelimit-reset-tokens" },
  { limitKey := "anthropic-ratelimit-tokens-limit"
    remainingKey := "anthropic-ratelimit-tokens-remaining"
    resetKey := "anthropic-ratelimit-tokens-reset" },
  { limitKey := "anthropic-ratelimit-unified-limit"
    remainingKey := "anthropic-ratelimit-unified-remaining"
    resetKey := "anthropic-ratelimit-unified-reset" }]

/-- The normalized header map of a response. -/
abbrev Headers : Type := AList fun _ : String ↦ String

/-! ## Timestamps -/

/-- Days since the Unix epoch for a civil date of the proleptic Gregorian calendar. -/
def daysFromCivil (year month day : ℤ) : ℤ :=
  let y := if month ≤ 2 then year - 1 else year
  let era := (if y ≥ 0 then y else y - 399).tdiv 400
  let yoe := y - era * 400
  let doy := (153 * (if month > 2 then month - 3 else month + 9) + 2).tdiv 5 + day - 1
  let doe := yoe * 365 + yoe.tdiv 4 - yoe.tdiv 100 + doy
  era * 146097 + doe - 719468

/-- A timestamp such as `2026-07-29T12:34:56Z` in epoch milliseconds. Offsets and fractions are
ignored. -/
def parseRfc3339Ms (value : List Char) : Option UInt64 := do
  if (String.ofList value).utf8ByteSize < 19 then none
  let year ← (byteGet value 0 4).bind parseI64
  let month ← (byteGet value 5 7).bind parseI64
  let day ← (byteGet value 8 10).bind parseI64
  let hour ← (byteGet value 11 13).bind parseI64
  let minute ← (byteGet value 14 16).bind parseI64
  let second ← (byteGet value 17 19).bind parseI64
  if ¬(1 ≤ month ∧ month ≤ 12) ∨ ¬(1 ≤ day ∧ day ≤ 31) ∨ hour > 23 ∨ minute > 59 ∨ second > 60 then
    none
  let secs := daysFromCivil year month day * 86400 + hour * 3600 + minute * 60 + second
  if secs < 0 then none
  Word.tryFrom (secs.toNat * 1000)

/-! ## Durations -/

/-- The `f64` arithmetic that a duration is added up in. -/
structure Floats where
  F64 : Type
  /-- The value nearest to `digits / 10 ^ places`. -/
  decimal : (digits places : ℕ) → F64
  add : F64 → F64 → F64
  mul : F64 → F64 → F64
  /-- `value.max(0.0) as u64`. -/
  toU64 : F64 → UInt64

/-- The host's floating-point numbers. -/
def Floats.host : Floats where
  F64 := Float
  decimal digits places := Float.ofScientific digits true places
  add := (· + ·)
  mul := (· * ·)
  toU64 value := (max value 0).toUInt64

variable (floats : Floats)

/-- `str::parse::<f64>` of digits and points: at most one point, and a digit. -/
def parseDecimal (text : List Char) : Option floats.F64 :=
  let (whole, rest) := text.span (· ≠ '.')
  let fraction := rest.drop 1
  if '.' ∈ fraction then none
  else (parseDigits (whole ++ fraction)).map fun digits ↦ floats.decimal digits fraction.length

/-- How many milliseconds a unit of a duration has. -/
def unitMs (unit : List Char) : Option ℕ :=
  if unit = "ms".toList then some 1
  else if unit = "s".toList then some 1000
  else if unit = "m".toList then some 60000
  else if unit = "h".toList then some 3600000
  else none

/-- Add up the components of a duration: each a number and its unit. -/
def sumDuration (total : floats.F64) (value : List Char) : Option floats.F64 :=
  if value = [] then some total
  else
    let number := value.takeWhile fun c ↦ c.isDigit || c = '.'
    let rest := value.dropWhile fun c ↦ c.isDigit || c = '.'
    if h : number = [] then none
    else
      match parseDecimal floats number, unitMs (rest.takeWhile Char.isAlpha) with
      | some amount, some perUnitMs =>
        sumDuration (floats.add total (floats.mul amount (floats.decimal perUnitMs 0)))
          (rest.dropWhile Char.isAlpha)
      | _, _ => none
termination_by value.length
decreasing_by
  have hparts : number ++ rest = value := List.takeWhile_append_dropWhile
  have hnumber : 0 < number.length := List.length_pos_iff.mpr h
  have hrest : (rest.dropWhile Char.isAlpha).length ≤ rest.length :=
    (List.dropWhile_sublist Char.isAlpha).length_le
  have hlength := congrArg List.length hparts
  rw [List.length_append] at hlength
  change (rest.dropWhile Char.isAlpha).length < value.length
  omega

/-- A duration such as `1h`, `6m0s`, `88ms` or `1.5s`, in milliseconds. -/
def parseDurationMs (value : List Char) : Option UInt64 :=
  if value = [] then none else (sumDuration floats (floats.decimal 0 0) value).map floats.toU64

/-! ## Windows -/

/-- Milliseconds until a reset in any of the forms that providers use. -/
def parseResetMs (value : String) (nowMs : UInt64) : Option UInt64 :=
  let value := trim value.toList
  if value = [] then none
  else if 'T' ∈ value ∧ '-' ∈ value then
    (parseRfc3339Ms value).map fun epochMs ↦ Word.satSub epochMs nowMs
  else if value.all Char.isDigit then (parseU64 value).map fun s ↦ Word.satMul s 1000
  else parseDurationMs floats value

def getU64 (headers : Headers) (key : String) : Option UInt64 :=
  (headers.lookup key).bind fun value ↦ parseU64 (trim value.toList)

/-- The reset that a family's header gives, if it is there and parses. -/
def resetMs (headers : Headers) (family : QuotaFamily) (nowMs : UInt64) : Option UInt64 :=
  (headers.lookup family.resetKey).bind fun value ↦ parseResetMs floats value nowMs

def windowFrom (headers : Headers) (family : QuotaFamily) (nowMs : UInt64) :
    Option WindowSnapshot := do
  let limit ← getU64 headers family.limitKey
  if limit = 0 then none
  let remaining ← (getU64 headers family.remainingKey).map (min · limit)
  -- a reset that is missing or malformed counts as one that is due
  let msUntilReset := (resetMs floats headers family nowMs).getD 0
  some {
    lenMs := 0
    limit
    used := limit - remaining
    remainingPermille := permille remaining limit
    msUntilReset }

/-- Every recognized token-quota window that the headers report, in family order. -/
def parseQuotaWindows (headers : Headers) (nowMs : UInt64) : List WindowSnapshot :=
  quotaFamilies.filterMap fun family ↦ windowFrom floats headers family nowMs

/-! ## Complete families -/

/-- The family's limit is a positive integer, and its remaining count an integer. -/
def counted (headers : Headers) (family : QuotaFamily) : Bool :=
  (getU64 headers family.limitKey).any (· ≠ 0) && (getU64 headers family.remainingKey).isSome

/-- The family's reset is there and parses. -/
def timed (headers : Headers) (nowMs : UInt64) (family : QuotaFamily) : Bool :=
  (resetMs floats headers family nowMs).isSome

/-- The window says what the three headers of its family say. -/
structure Reports (headers : Headers) (nowMs : UInt64) (family : QuotaFamily)
    (window : WindowSnapshot) : Prop where
  limit : getU64 headers family.limitKey = some window.limit
  positive : window.limit ≠ 0
  used : ∃ remaining, getU64 headers family.remainingKey = some remaining ∧
    window.used.toNat + min remaining.toNat window.limit.toNat = window.limit.toNat
  reset : resetMs floats headers family nowMs = some window.msUntilReset

/-- The windows of a response are those of its complete families, in family order. -/
def TakenWhenComplete (headers : Headers) (nowMs : UInt64) : Prop :=
  List.Forall₂ (Reports floats headers nowMs)
    ((quotaFamilies.filter (counted headers)).filter (timed floats headers nowMs))
    (parseQuotaWindows floats headers nowMs)

variable {floats} {headers : Headers} {nowMs : UInt64} {family : QuotaFamily}

theorem exists_of_counted (h : counted headers family = true) :
    ∃ limit remaining, getU64 headers family.limitKey = some limit ∧ limit ≠ 0 ∧
      getU64 headers family.remainingKey = some remaining := by
  rw [counted, Bool.and_eq_true] at h
  obtain ⟨hlimit, hremaining⟩ := h
  obtain ⟨limit, hlimit, hpos⟩ := (Option.any_eq_true _ _).mp hlimit
  obtain ⟨remaining, hremaining⟩ := Option.isSome_iff_exists.mp hremaining
  exact ⟨limit, remaining, hlimit, of_decide_eq_true hpos, hremaining⟩

/-- A counted family gives a window, whatever its reset. -/
theorem windowFrom_of_counted {limit remaining : UInt64}
    (hlimit : getU64 headers family.limitKey = some limit) (hpos : limit ≠ 0)
    (hremaining : getU64 headers family.remainingKey = some remaining) :
    windowFrom floats headers family nowMs = some {
      lenMs := 0
      limit
      used := limit - min remaining limit
      remainingPermille := permille (min remaining limit) limit
      msUntilReset := (resetMs floats headers family nowMs).getD 0 } := by
  rw [windowFrom, hlimit, hremaining]
  simp [hpos]

theorem windowFrom_eq_none (h : counted headers family = false) :
    windowFrom floats headers family nowMs = none := by
  rw [counted, Bool.and_eq_false_iff] at h
  rw [windowFrom]
  rcases hlimit : getU64 headers family.limitKey with - | limit
  · rfl
  · by_cases hzero : limit = 0
    · simp [hzero]
    · rcases h with h | h
      · simp [hlimit, hzero] at h
      · rw [Option.isSome_eq_false_iff, Option.isNone_iff_eq_none] at h
        simp [h]

/-- The window of a complete family says what its headers say. -/
theorem exists_reports (hcounted : counted headers family = true)
    (htimed : timed floats headers nowMs family = true) :
    ∃ window, windowFrom floats headers family nowMs = some window ∧
      Reports floats headers nowMs family window := by
  obtain ⟨limit, remaining, hlimit, hpos, hremaining⟩ := exists_of_counted hcounted
  obtain ⟨reset, hreset⟩ := Option.isSome_iff_exists.mp htimed
  refine ⟨_, windowFrom_of_counted hlimit hpos hremaining, hlimit, hpos,
    ⟨remaining, hremaining, ?_⟩, ?_⟩
  · have hmin : (min remaining limit).toNat = min remaining.toNat limit.toNat :=
      Word.toNat_min remaining limit
    rw [UInt64.toNat_sub_of_le _ _ (UInt64.le_iff_toNat_le.mpr (by omega)), hmin]
    dsimp only
    omega
  · rw [hreset, Option.getD_some]

/-- Filtering and mapping a list side by side. -/
theorem forall₂_filter_filterMap {α β : Type} {R : α → β → Prop} {p : α → Bool}
    {f : α → Option β} {l : List α} (hsome : ∀ a ∈ l, p a = true → ∃ b, f a = some b ∧ R a b)
    (hnone : ∀ a ∈ l, p a = false → f a = none) :
    List.Forall₂ R (l.filter p) (l.filterMap f) := by
  induction l with
  | nil => exact .nil
  | cons a l ih =>
    have htail := ih (fun a' ha' ↦ hsome a' (List.mem_cons_of_mem a ha'))
      (fun a' ha' ↦ hnone a' (List.mem_cons_of_mem a ha'))
    by_cases hp : p a = true
    · obtain ⟨b, hb, hR⟩ := hsome a List.mem_cons_self hp
      rw [List.filter_cons_of_pos hp, List.filterMap_cons_some hb]
      exact .cons hR htail
    · have hfalse : p a = false := Bool.eq_false_iff.mpr hp
      rw [List.filter_cons_of_neg hp,
        List.filterMap_cons_none (hnone a List.mem_cons_self hfalse)]
      exact htail

variable (floats headers nowMs) in
/-- There is a window for each counted family. -/
theorem length_parseQuotaWindows :
    (parseQuotaWindows floats headers nowMs).length =
      (quotaFamilies.filter (counted headers)).length := by
  have h : List.Forall₂ (fun _ _ ↦ True) (quotaFamilies.filter (counted headers))
      (parseQuotaWindows floats headers nowMs) := by
    refine forall₂_filter_filterMap (fun family _ hcounted ↦ ?_)
      fun family _ hcounted ↦ windowFrom_eq_none hcounted
    obtain ⟨limit, remaining, hlimit, hpos, hremaining⟩ := exists_of_counted hcounted
    exact ⟨_, windowFrom_of_counted hlimit hpos hremaining, trivial⟩
  exact h.length_eq.symm

/-- **When quota headers are taken only when complete.** The windows of a response are those of its
complete families exactly when every family that counts also says when it resets. -/
theorem takenWhenComplete_iff (floats : Floats) (headers : Headers) (nowMs : UInt64) :
    TakenWhenComplete floats headers nowMs ↔
      ∀ family ∈ quotaFamilies, counted headers family = true →
        timed floats headers nowMs family = true := by
  constructor
  · -- a window for each counted family leaves no room for an incomplete one
    intro h family hfamily hcounted
    have hlength := h.length_eq
    rw [length_parseQuotaWindows, List.length_filter_eq_length_iff] at hlength
    exact hlength family (List.mem_filter.mpr ⟨hfamily, hcounted⟩)
  · intro h
    rw [TakenWhenComplete, List.filter_filter]
    refine forall₂_filter_filterMap (fun family _ hcomplete ↦ ?_)
      fun family hfamily hincomplete ↦ ?_
    · rw [Bool.and_eq_true] at hcomplete
      exact exists_reports hcomplete.2 hcomplete.1
    · refine windowFrom_eq_none (Bool.eq_false_iff.mpr fun hcounted ↦ ?_)
      rw [hcounted, h family hfamily hcounted] at hincomplete
      nomatch hincomplete

/-- A response that counts its tokens but does not say when they reset. -/
def unresetHeaders : Headers :=
  (AList.insert "x-ratelimit-limit-tokens" "1000" ∅).insert "x-ratelimit-remaining-tokens" "250"

theorem not_takenWhenComplete_unreset :
    ¬ TakenWhenComplete Floats.host unresetHeaders 0 := by
  intro h
  have hlength := h.length_eq
  rw [length_parseQuotaWindows] at hlength
  revert hlength
  decide +kernel

end TokenStation
