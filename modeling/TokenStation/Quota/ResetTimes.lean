import TokenStation.Library.Calendar
import TokenStation.Library.Checked
import TokenStation.Quota.Headers

/-!
# Absolute reset times

A timestamp is turned into epoch milliseconds by counting the days of the calendar up to its date.
`daysFromCivil` counts them with divisions alone, over months that begin with March and eras of
four centuries; `civilDay_next` is the comparison with the calendar, one day at a time.
-/

namespace TokenStation

open Library

/-! ## Days -/

/-- The division of the source rounds towards zero, and takes 399 off a negative year first. -/
theorem era_eq (y : ℤ) : (if y ≥ 0 then y else y - 399).tdiv 400 = y / 400 := by
  by_cases hy : y ≥ 0
  · rw [if_pos hy, Int.tdiv_eq_ediv_of_nonneg hy]
  · rw [if_neg hy]
    have hneg : (y - 399).tdiv 400 = -((399 - y).tdiv 400) := by
      rw [← Int.neg_tdiv, neg_sub]
    rw [hneg, Int.tdiv_eq_ediv_of_nonneg (by omega)]
    omega

/-- Days since the Unix epoch, with floor divisions. -/
theorem daysFromCivil_eq {year month day : ℤ} (hpos : 1 ≤ month) :
    daysFromCivil year month day =
      let y := if month ≤ 2 then year - 1 else year
      let shifted := if month > 2 then month - 3 else month + 9
      y / 400 * 146097 + (y % 400 * 365 + y % 400 / 4 - y % 400 / 100
        + ((153 * shifted + 2) / 5 + day - 1)) - 719468 := by
  unfold daysFromCivil
  simp only [era_eq]
  generalize (if month ≤ 2 then year - 1 else year) = y
  have hyoe : y - y / 400 * 400 = y % 400 := by omega
  have hnonneg : 0 ≤ y % 400 := Int.emod_nonneg y (by decide)
  have hshifted : 0 ≤ 153 * (if month > 2 then month - 3 else month + 9) + 2 := by
    split <;> omega
  rw [hyoe, Int.tdiv_eq_ediv_of_nonneg hnonneg, Int.tdiv_eq_ediv_of_nonneg hnonneg,
    Int.tdiv_eq_ediv_of_nonneg hshifted]

/-- The day number of a date. -/
def civilDay (date : CivilDate) : ℤ := daysFromCivil date.year date.month date.day

/-- February and the years end where the calendar says. -/
theorem daysFromCivil_month (year : ℤ) {month : ℕ} (hpos : 1 ≤ month) (hle : month ≤ 11) :
    daysFromCivil year (month + 1) 1 = daysFromCivil year month (monthLength year month) + 1 := by
  rw [daysFromCivil_eq (by omega), daysFromCivil_eq (by omega)]
  by_cases hfebruary : month = 2
  · -- March belongs to the next shifted year, and the leap day is the last day of the old one
    subst hfebruary
    simp only [monthLength, isLeapYear]
    norm_num
    split <;> omega
  · obtain rfl | rfl | rfl | rfl | rfl | rfl | rfl | rfl | rfl | rfl : month = 1 ∨ month = 3 ∨
        month = 4 ∨ month = 5 ∨ month = 6 ∨ month = 7 ∨ month = 8 ∨ month = 9 ∨ month = 10 ∨
        month = 11 := by omega
    all_goals
      simp only [monthLength]
      norm_num
      omega

theorem daysFromCivil_year (year : ℤ) :
    daysFromCivil (year + 1) 1 1 = daysFromCivil year 12 31 + 1 := by
  rw [daysFromCivil_eq (by decide), daysFromCivil_eq (by decide)]
  norm_num
  omega

theorem daysFromCivil_day {year month day : ℤ} (hpos : 1 ≤ month) :
    daysFromCivil year month (day + 1) = daysFromCivil year month day + 1 := by
  rw [daysFromCivil_eq hpos, daysFromCivil_eq hpos]
  dsimp only
  omega

/-- The day number grows by one from each day of the calendar to the next. -/
theorem civilDay_next (date : CivilDate) : civilDay date.next = civilDay date + 1 := by
  have hpos := date.month_pos
  have hmonth : (1 : ℤ) ≤ date.month := by exact_mod_cast hpos
  rw [CivilDate.next]
  by_cases hday : date.day < monthLength date.year date.month
  · rw [dif_pos hday]
    change daysFromCivil date.year date.month ((date.day + 1 : ℕ) : ℤ) = civilDay date + 1
    rw [Nat.cast_succ]
    exact daysFromCivil_day hmonth
  · have hlast : date.day = monthLength date.year date.month :=
      le_antisymm date.day_le (not_lt.mp hday)
    rw [dif_neg hday]
    by_cases hmonth : date.month < 12
    · rw [dif_pos hmonth, civilDay, civilDay, hlast]
      exact_mod_cast daysFromCivil_month date.year hpos (by omega)
    · have hdecember : date.month = 12 := le_antisymm date.month_le (not_lt.mp hmonth)
      rw [dif_neg hmonth, civilDay, civilDay, hlast, hdecember]
      exact daysFromCivil_year date.year

/-- The first day of the Unix time. -/
def unixEpoch : CivilDate := CivilDate.first 1970 1 Nat.one_pos (by decide)

/-- The date of a day of the Unix time. -/
def dateOf (day : ℕ) : CivilDate := CivilDate.next^[day] unixEpoch

theorem civilDay_dateOf (day : ℕ) : civilDay (dateOf day) = day := by
  rw [dateOf, CivilDate.count_iterate_next civilDay_next]
  have hepoch : civilDay unixEpoch = 0 := by decide
  rw [hepoch, zero_add]

/-- The days of the four-digit years are the first 2932897 ones. -/
theorem civilDay_lt {date : CivilDate} (hyear : date.year ≤ 9999) : civilDay date < 2932897 := by
  have hmonth : (1 : ℤ) ≤ date.month := by exact_mod_cast date.month_pos
  have hlast : (date.month : ℤ) ≤ 12 := by exact_mod_cast date.month_le
  have hday : (date.day : ℤ) ≤ 31 := by
    exact_mod_cast date.day_le.trans (monthLength_le date.year date.month)
  rw [civilDay, daysFromCivil_eq hmonth]
  dsimp only
  split <;> split <;> omega

/-! ## Text -/

theorem digitChar_isDigit {n : ℕ} (h : n < 10) :
    n.digitChar.isDigit = true ∧ n.digitChar.toNat - '0'.toNat = n ∧ n.digitChar.utf8Size = 1 ∧
      n.digitChar ≠ '-' ∧ n.digitChar ≠ '+' := by
  revert n
  decide

/-- A number of at most two digits, with a leading zero. -/
def twoDigits (n : ℕ) : List Char := [(n / 10).digitChar, (n % 10).digitChar]

/-- The canonical rendering `YYYY-MM-DDTHH:MM:SSZ`. -/
def renderUtc (date : CivilDate) (hour minute second : ℕ) : List Char :=
  twoDigits (date.year.toNat / 100) ++ twoDigits (date.year.toNat % 100) ++ '-' ::
    twoDigits date.month ++ '-' :: twoDigits date.day ++ 'T' ::
    twoDigits hour ++ ':' :: twoDigits minute ++ ':' :: twoDigits second ++ ['Z']

/-- On text of one-byte characters, byte offsets are positions. -/
theorem byteDrop_eq {text : List Char} (hsize : ∀ c ∈ text, c.utf8Size = 1) {n : ℕ}
    (hn : n ≤ text.length) : byteDrop text n = some (text.drop n) := by
  induction text generalizing n with
  | nil =>
    obtain rfl : n = 0 := Nat.le_zero.mp hn
    rfl
  | cons c rest ih =>
    rcases n with - | n
    · rfl
    · rw [List.length_cons, Nat.add_le_add_iff_right] at hn
      rw [byteDrop, hsize c List.mem_cons_self, if_pos (Nat.le_add_left 1 n), Nat.add_sub_cancel,
        List.drop_succ_cons]
      exact ih (fun other hother ↦ hsize other (List.mem_cons_of_mem c hother)) hn

theorem byteTake_eq {text : List Char} (hsize : ∀ c ∈ text, c.utf8Size = 1) {n : ℕ}
    (hn : n ≤ text.length) : byteTake text n = some (text.take n) := by
  induction text generalizing n with
  | nil =>
    obtain rfl : n = 0 := Nat.le_zero.mp hn
    rfl
  | cons c rest ih =>
    rcases n with - | n
    · rfl
    · rw [List.length_cons, Nat.add_le_add_iff_right] at hn
      rw [byteTake, hsize c List.mem_cons_self, if_pos (Nat.le_add_left 1 n), Nat.add_sub_cancel,
        ih (fun other hother ↦ hsize other (List.mem_cons_of_mem c hother)) hn,
        List.take_succ_cons, Option.map_some]

theorem byteGet_eq {text : List Char} (hsize : ∀ c ∈ text, c.utf8Size = 1) {start stop : ℕ}
    (hle : start ≤ stop) (hstop : stop ≤ text.length) :
    byteGet text start stop = some ((text.drop start).take (stop - start)) := by
  rw [byteGet, byteDrop_eq hsize (hle.trans hstop), Option.bind_some]
  refine byteTake_eq (fun c hc ↦ hsize c (List.mem_of_mem_drop hc)) ?_
  rw [List.length_drop]
  omega

theorem utf8ByteSize_ofList_eq {text : List Char} (hsize : ∀ c ∈ text, c.utf8Size = 1) :
    (String.ofList text).utf8ByteSize = text.length := by
  induction text with
  | nil => rfl
  | cons c rest ih =>
    have hrest := ih fun other hother ↦ hsize other (List.mem_cons_of_mem c hother)
    rw [String.ofList_cons, String.utf8ByteSize_append, String.utf8ByteSize_singleton,
      hsize c List.mem_cons_self, hrest, List.length_cons, Nat.add_comm]

/-- Digits without a sign are read as their value. -/
theorem parseI64_digits {digits : List Char} (hne : digits ≠ [])
    (hdigits : ∀ c ∈ digits, c.isDigit = true ∧ c ≠ '-' ∧ c ≠ '+')
    (hsmall : decimalValue digits < 10000) : parseI64 digits = some (decimalValue digits : ℤ) := by
  obtain ⟨c, rest, rfl⟩ := List.exists_cons_of_ne_nil hne
  obtain ⟨-, hminus, hplus⟩ := hdigits c List.mem_cons_self
  have hnoMinus : stripPrefix ['-'] (c :: rest) = none := by
    simp [stripPrefix, Ne.symm hminus]
  have hnoPlus : stripPrefix ['+'] (c :: rest) = none := by
    simp [stripPrefix, Ne.symm hplus]
  have hparse := parseDigits_eq hne fun other hother ↦ (hdigits other hother).1
  unfold parseI64
  rw [hnoMinus]
  dsimp only
  rw [hnoPlus, Option.getD_none, hparse]
  generalize decimalValue (c :: rest) = value at hsmall ⊢
  have hvalue : Option.map (fun n : ℤ ↦ n) (do let n ← some value; pure (n : ℤ)) =
      some (value : ℤ) := rfl
  rw [hvalue, Option.bind_eq_bind, Option.bind_some]
  exact if_pos (by omega)

/-- Reading back what `twoDigits` wrote. -/
theorem decimalValue_twoDigits {n : ℕ} (h : n < 100) : decimalValue (twoDigits n) = n := by
  have htens := (digitChar_isDigit (show n / 10 < 10 by omega)).2.1
  have hones := (digitChar_isDigit (show n % 10 < 10 by omega)).2.1
  simp only [decimalValue, twoDigits, List.foldl_cons, List.foldl_nil, htens, hones]
  omega

theorem decimalValue_append_twoDigits {high low : ℕ} (hhigh : high < 100) (hlow : low < 100) :
    decimalValue (twoDigits high ++ twoDigits low) = 100 * high + low := by
  have htens := (digitChar_isDigit (show low / 10 < 10 by omega)).2.1
  have hones := (digitChar_isDigit (show low % 10 < 10 by omega)).2.1
  have hfirst := decimalValue_twoDigits hhigh
  rw [decimalValue] at hfirst ⊢
  rw [List.foldl_append, hfirst]
  simp only [twoDigits, List.foldl_cons, List.foldl_nil, htens, hones]
  omega

theorem mem_twoDigits {n : ℕ} (h : n < 100) {c : Char} (hc : c ∈ twoDigits n) :
    c.isDigit = true ∧ c.utf8Size = 1 ∧ c ≠ '-' ∧ c ≠ '+' := by
  have htens := digitChar_isDigit (show n / 10 < 10 by omega)
  have hones := digitChar_isDigit (show n % 10 < 10 by omega)
  rcases List.mem_pair.mp hc with rfl | rfl
  · exact ⟨htens.1, htens.2.2⟩
  · exact ⟨hones.1, hones.2.2⟩

theorem parseI64_twoDigits {n : ℕ} (h : n < 100) : parseI64 (twoDigits n) = some (n : ℤ) := by
  have hvalue := decimalValue_twoDigits h
  have hparse : parseI64 (twoDigits n) = some (decimalValue (twoDigits n) : ℤ) := by
    refine parseI64_digits (List.cons_ne_nil _ _) (fun c hc ↦ ?_) (by omega)
    obtain ⟨hdigit, -, hsigns⟩ := mem_twoDigits h hc
    exact ⟨hdigit, hsigns⟩
  rw [hparse, hvalue]

theorem parseI64_fourDigits {high low : ℕ} (hhigh : high < 100) (hlow : low < 100) :
    parseI64 (twoDigits high ++ twoDigits low) = some ((100 * high + low : ℕ) : ℤ) := by
  have hvalue := decimalValue_append_twoDigits hhigh hlow
  have hparse : parseI64 (twoDigits high ++ twoDigits low) =
      some (decimalValue (twoDigits high ++ twoDigits low) : ℤ) := by
    refine parseI64_digits (List.cons_ne_nil _ _) (fun c hc ↦ ?_) (by omega)
    rcases List.mem_append.mp hc with hc | hc
    · obtain ⟨hdigit, -, hsigns⟩ := mem_twoDigits hhigh hc
      exact ⟨hdigit, hsigns⟩
    · obtain ⟨hdigit, -, hsigns⟩ := mem_twoDigits hlow hc
      exact ⟨hdigit, hsigns⟩
  rw [hparse, hvalue]

/-! ## The canonical rendering -/

section

variable {date : CivilDate} {hour minute second : ℕ}

theorem length_renderUtc : (renderUtc date hour minute second).length = 20 := rfl

/-- Digits and separators are one-byte characters. -/
theorem mem_renderUtc (hyear : date.year ≤ 9999) (hhour : hour < 24) (hminute : minute < 60)
    (hsecond : second < 60) {c : Char} (hc : c ∈ renderUtc date hour minute second) :
    c.utf8Size = 1 := by
  have hmonth := date.month_le
  have hday := date.day_le.trans (monthLength_le date.year date.month)
  have hdigits {n : ℕ} (h : n < 100) (hc : c ∈ twoDigits n) : c.utf8Size = 1 :=
    (mem_twoDigits h hc).2.1
  simp only [renderUtc, List.mem_append, List.mem_cons, List.not_mem_nil, or_false] at hc
  rcases hc with ((((((hc | hc) | rfl | hc) | rfl | hc) | rfl | hc) | rfl | hc) | rfl | hc) | rfl
  all_goals first | rfl | exact hdigits (by omega) hc

/-- The fields of the rendering, at their byte offsets. -/
theorem byteGet_renderUtc (hyear : date.year ≤ 9999) (hhour : hour < 24) (hminute : minute < 60)
    (hsecond : second < 60) :
    let text := renderUtc date hour minute second
    byteGet text 0 4 =
        some (twoDigits (date.year.toNat / 100) ++ twoDigits (date.year.toNat % 100)) ∧
      byteGet text 5 7 = some (twoDigits date.month) ∧
      byteGet text 8 10 = some (twoDigits date.day) ∧
      byteGet text 11 13 = some (twoDigits hour) ∧
      byteGet text 14 16 = some (twoDigits minute) ∧
      byteGet text 17 19 = some (twoDigits second) := by
  have hsize := fun c ↦ @mem_renderUtc date hour minute second hyear hhour hminute hsecond c
  refine ⟨?_, ?_, ?_, ?_, ?_, ?_⟩
  all_goals
    rw [byteGet_eq hsize (by omega) (by rw [length_renderUtc]; omega)]
    rfl

/-- A rendering is read back as the days up to its date and the time of its day. -/
theorem parseRfc3339Ms_renderUtc (hday : 0 ≤ civilDay date) (hyear : 0 ≤ date.year)
    (hlast : date.year ≤ 9999) (hhour : hour < 24) (hminute : minute < 60) (hsecond : second < 60) :
    parseRfc3339Ms (renderUtc date hour minute second) =
      Word.tryFrom ((civilDay date * 86400 + hour * 3600 + minute * 60 + second).toNat * 1000) := by
  have hmonth := date.month_le
  have hmonthPos := date.month_pos
  have hdayLe := date.day_le.trans (monthLength_le date.year date.month)
  have hdayPos := date.day_pos
  obtain ⟨hyearText, hmonthText, hdayText, hhourText, hminuteText, hsecondText⟩ :=
    byteGet_renderUtc hlast hhour hminute hsecond
  have hlength : ¬(String.ofList (renderUtc date hour minute second)).utf8ByteSize < 19 := by
    rw [utf8ByteSize_ofList_eq fun c hc ↦ mem_renderUtc hlast hhour hminute hsecond hc,
      length_renderUtc]
    decide
  have hyearValue : ((100 * (date.year.toNat / 100) + date.year.toNat % 100 : ℕ) : ℤ) =
      date.year := by omega
  have hfields : ¬(¬(1 ≤ (date.month : ℤ) ∧ (date.month : ℤ) ≤ 12) ∨
      ¬(1 ≤ (date.day : ℤ) ∧ (date.day : ℤ) ≤ 31) ∨ (hour : ℤ) > 23 ∨ (minute : ℤ) > 59 ∨
      (second : ℤ) > 60) := by omega
  have hsecs : ¬civilDay date * 86400 + hour * 3600 + minute * 60 + second < 0 := by omega
  rw [parseRfc3339Ms, if_neg hlength, hyearText, hmonthText, hdayText, hhourText, hminuteText,
    hsecondText]
  simp only [Option.bind_some, Option.bind_eq_bind, parseI64_fourDigits (show
    date.year.toNat / 100 < 100 by omega) (show date.year.toNat % 100 < 100 by omega),
    parseI64_twoDigits (show date.month < 100 by omega),
    parseI64_twoDigits (show date.day < 100 by omega),
    parseI64_twoDigits (show hour < 100 by omega), parseI64_twoDigits (show minute < 100 by omega),
    parseI64_twoDigits (show second < 100 by omega), hyearValue]
  rw [if_neg hfields, ← civilDay, if_neg hsecs]

end

/-! ## Machine arithmetic -/

theorem i64_eq {value : ℤ} (h : -1000000000000 ≤ value ∧ value ≤ 1000000000000) :
    i64 value = some value := checked_eq (by omega)

/-- A checked operation whose result is small goes on with it. -/
theorem i64_bind {value result : ℤ} {next : ℤ → Option ℤ} (hnext : next value = some result)
    (h : -1000000000000 ≤ value ∧ value ≤ 1000000000000) :
    (i64 value).bind next = some result := by
  rw [i64_eq h, Option.bind_some, hnext]

/-- `daysFromCivil` with every operation checked, in the order of the source. -/
def checkedDaysFromCivil (year month day : ℤ) : Option ℤ :=
  (if month ≤ 2 then i64 (year - 1) else some year).bind fun y ↦
  (if y ≥ 0 then some y else i64 (y - 399)).bind fun numerator ↦
  (i64 (numerator.tdiv 400)).bind fun era ↦
  (i64 (era * 400)).bind fun eraYears ↦
  (i64 (y - eraYears)).bind fun yoe ↦
  (if month > 2 then i64 (month - 3) else i64 (month + 9)).bind fun shifted ↦
  (i64 (153 * shifted)).bind fun fifths ↦
  (i64 (fifths + 2)).bind fun fifths ↦
  (i64 (fifths.tdiv 5)).bind fun monthDays ↦
  (i64 (monthDays + day)).bind fun doy ↦
  (i64 (doy - 1)).bind fun doy ↦
  (i64 (yoe * 365)).bind fun yearDays ↦
  (i64 (yoe.tdiv 4)).bind fun fourth ↦
  (i64 (yearDays + fourth)).bind fun yearDays ↦
  (i64 (yoe.tdiv 100)).bind fun century ↦
  (i64 (yearDays - century)).bind fun yearDays ↦
  (i64 (yearDays + doy)).bind fun doe ↦
  (i64 (era * 146097)).bind fun eraDays ↦
  (i64 (eraDays + doe)).bind fun days ↦
  i64 (days - 719468)

/-- The seconds of a timestamp with every operation checked, and the milliseconds. -/
def checkedSecs (year month day hour minute second : ℤ) : Option ℤ :=
  (checkedDaysFromCivil year month day).bind fun days ↦
  (i64 (days * 86400)).bind fun daySecs ↦
  (i64 (hour * 3600)).bind fun hourSecs ↦
  (i64 (daySecs + hourSecs)).bind fun secs ↦
  (i64 (minute * 60)).bind fun minuteSecs ↦
  (i64 (secs + minuteSecs)).bind fun secs ↦
  i64 (secs + second)

/-- No operation on a date of these years overflows. -/
theorem checkedDaysFromCivil_eq {year month day : ℤ} (hyear : 1 ≤ year ∧ year ≤ 9999)
    (hmonth : 1 ≤ month ∧ month ≤ 12) (hday : 1 ≤ day ∧ day ≤ 31) :
    checkedDaysFromCivil year month day = some (daysFromCivil year month day) := by
  have hy : (if month ≤ 2 then i64 (year - 1) else some year) =
      some (if month ≤ 2 then year - 1 else year) := by
    split
    · exact i64_eq (by omega)
    · rfl
  have hshifted : (if month > 2 then i64 (month - 3) else i64 (month + 9)) =
      some (if month > 2 then month - 3 else month + 9) := by
    split <;> exact i64_eq (by omega)
  have hyRange : 0 ≤ (if month ≤ 2 then year - 1 else year) ∧
      (if month ≤ 2 then year - 1 else year) ≤ 9999 := by
    split <;> omega
  have hshiftedRange : 0 ≤ (if month > 2 then month - 3 else month + 9) ∧
      (if month > 2 then month - 3 else month + 9) ≤ 11 := by
    split <;> omega
  rw [daysFromCivil_eq hmonth.1, checkedDaysFromCivil, hy, hshifted]
  dsimp only
  generalize (if month ≤ 2 then year - 1 else year) = y at hyRange ⊢
  generalize (if month > 2 then month - 3 else month + 9) = shifted at hshiftedRange ⊢
  -- the truncating divisions are floor divisions here, and every term is small
  have hmonthDays : (153 * shifted + 2).tdiv 5 = (153 * shifted + 2) / 5 :=
    Int.tdiv_eq_ediv_of_nonneg (by omega)
  have hyoe : y - y / 400 * 400 = y % 400 := by omega
  have hyoeRange : 0 ≤ y % 400 ∧ y % 400 < 400 := by omega
  rw [Option.bind_some, if_pos hyRange.1, Option.bind_some,
    Int.tdiv_eq_ediv_of_nonneg hyRange.1]
  refine i64_bind ?_ (by omega)
  refine i64_bind ?_ (by omega)
  rw [hyoe]
  generalize y % 400 = yoe at hyoeRange ⊢
  -- the days of the year
  refine i64_bind ?_ (by omega)
  refine i64_bind ?_ (by omega)
  refine i64_bind ?_ (by omega)
  rw [hmonthDays]
  refine i64_bind ?_ (by omega)
  refine i64_bind ?_ (by omega)
  refine i64_bind ?_ (by omega)
  -- the days of the era
  refine i64_bind ?_ (by omega)
  rw [Int.tdiv_eq_ediv_of_nonneg hyoeRange.1, Int.tdiv_eq_ediv_of_nonneg hyoeRange.1]
  refine i64_bind ?_ (by omega)
  refine i64_bind ?_ (by omega)
  refine i64_bind ?_ (by omega)
  refine i64_bind ?_ (by omega)
  refine i64_bind ?_ (by omega)
  refine i64_bind ?_ (by omega)
  refine i64_bind ?_ (by omega)
  exact i64_eq (by omega)

/-- No operation on a timestamp of these years overflows. -/
theorem checkedSecs_eq {date : CivilDate} (hyear : 1 ≤ date.year) (hlast : date.year ≤ 9999)
    (hday : 0 ≤ civilDay date) {hour minute second : ℕ} (hhour : hour < 24) (hminute : minute < 60)
    (hsecond : second < 60) :
    checkedSecs date.year date.month date.day hour minute second =
      some (civilDay date * 86400 + hour * 3600 + minute * 60 + second) := by
  have hmonthPos := date.month_pos
  have hmonth := date.month_le
  have hdayPos := date.day_pos
  have hdayLe := date.day_le.trans (monthLength_le date.year date.month)
  have hdays := civilDay_lt hlast
  rw [checkedSecs, checkedDaysFromCivil_eq ⟨hyear, hlast⟩ (by omega) (by omega), ← civilDay,
    Option.bind_some]
  refine i64_bind ?_ (by omega)
  refine i64_bind ?_ (by omega)
  refine i64_bind ?_ (by omega)
  refine i64_bind ?_ (by omega)
  refine i64_bind ?_ (by omega)
  exact i64_eq (by omega)

/-! ## The conversion -/

/-- The days are those of the calendar, and every instant of the four-digit years is converted to
its Unix time, without an overflow on the way. -/
theorem parseRfc3339Ms_exact :
    (civilDay unixEpoch = 0 ∧ ∀ date : CivilDate, civilDay date.next = civilDay date + 1) ∧
      ∀ (date : CivilDate) (hour minute second : ℕ), 1970 ≤ date.year → date.year ≤ 9999 →
        hour < 24 → minute < 60 → second < 60 →
        ∃ (day : ℕ) (ms : UInt64), dateOf day = date ∧
          daysFromCivil date.year date.month date.day = day ∧
          parseRfc3339Ms (renderUtc date hour minute second) = some ms ∧
          ms.toNat = (((day * 24 + hour) * 60 + minute) * 60 + second) * 1000 ∧
          checkedSecs date.year date.month date.day hour minute second =
            some ((((day * 24 + hour) * 60 + minute) * 60 + second : ℕ) : ℤ) := by
  refine ⟨⟨by decide, civilDay_next⟩, ?_⟩
  intro date hour minute second hfirst hlast hhour hminute hsecond
  obtain ⟨day, hdate⟩ := CivilDate.exists_iterate_next hfirst
  have hcount : civilDay date = day := by
    rw [← hdate]
    exact civilDay_dateOf day
  have hday : 0 ≤ civilDay date := by
    rw [hcount]
    exact Int.natCast_nonneg day
  have hsecs : civilDay date * 86400 + hour * 3600 + minute * 60 + second =
      ((((day * 24 + hour) * 60 + minute) * 60 + second : ℕ) : ℤ) := by
    rw [hcount]
    omega
  have hbound := civilDay_lt hlast
  have hparse := parseRfc3339Ms_renderUtc hday (by omega) hlast hhour hminute hsecond
  have hchecked := checkedSecs_eq (by omega) hlast hday hhour hminute hsecond
  rw [hsecs, Int.toNat_natCast] at hparse
  rw [hsecs] at hchecked
  have hsmall : (((day * 24 + hour) * 60 + minute) * 60 + second) * 1000 < 2 ^ 64 := by
    rw [hcount] at hbound
    omega
  refine ⟨day, _, hdate, hcount, hparse.trans (if_pos hsmall), ?_, hchecked⟩
  exact UInt64.toNat_ofNat_of_lt' hsmall

theorem parseRfc3339Ms_exact_leapDay :
    ∃ (day : ℕ) (ms : UInt64),
      parseRfc3339Ms "2000-02-29T23:59:59Z".toList = some ms ∧
        ms.toNat = (((day * 24 + 23) * 60 + 59) * 60 + 59) * 1000 := by
  obtain ⟨day, ms, -, -, hparse, hms, -⟩ := parseRfc3339Ms_exact.2
    ⟨2000, 2, 29, by decide, by decide, by decide, by decide⟩ 23 59 59
    (by decide) (by decide) (by decide) (by decide) (by decide)
  exact ⟨day, ms, hparse, hms⟩

end TokenStation
