import Likeness.Calendar
import Likeness.Proofs.Except
import Likeness.Proofs.Text.Digits
import Mathlib.Data.List.Induction
import Mathlib.Tactic.IntervalCases

/-!
# Likeness.Proofs.Calendar

Moments and their RFC 3339 text. Every day number has one date (`Moment.dayNumber_dateOf`), and a
moment in the years that moments can lie in is read back from its text (`Moment.parse_text`). What
is read from any text is such a moment (`Moment.valid_of_parse`).
-/

namespace Likeness.Moment

/-! ### Days and dates -/

/-- A day of the era, by its century, the span of four years within the century, the year within the
span and the day of that year. Only the last year of a span has a leap day, and the last span of a
century has none, unless the century is the last one. -/
structure EraDay (day c s y d : Int) : Prop where
  eq : day = 36524 * c + 1461 * s + 365 * y + d
  century : 0 ≤ c ∧ c ≤ 3
  span : 0 ≤ s ∧ s ≤ 24
  year : 0 ≤ y ∧ y ≤ 3
  rest : 0 ≤ d ∧ d ≤ 365
  leap : d = 365 → y = 3 ∧ (s = 24 → c = 3)

theorem exists_eraDay {day : Int} (hlow : 0 ≤ day) (hhigh : day < 146097) :
    ∃ c s y d, EraDay day c s y d := by
  obtain ⟨c, hc⟩ : ∃ c, c = min 3 (day / 36524) := ⟨_, rfl⟩
  obtain ⟨r, hr⟩ : ∃ r, r = day - 36524 * c := ⟨_, rfl⟩
  obtain ⟨y, hy⟩ : ∃ y, y = min 3 (r % 1461 / 365) := ⟨_, rfl⟩
  exact ⟨c, r / 1461, y, r % 1461 - 365 * y, by omega, by omega, by omega, by omega, by omega,
    fun h => ⟨by omega, by omega⟩⟩

/-- Only the last century has one more day. -/
theorem EraDay.of_century {day c s y d : Int} (h : EraDay day c s y d) :
    1461 * s + 365 * y + d < 36524 ∨ c = 3 ∧ 1461 * s + 365 * y + d = 36524 := by
  obtain ⟨-, hc, hs, hy, hd, hleap⟩ := h
  by_cases hlast : d = 365
  · obtain ⟨rfl, hcentury⟩ := hleap hlast
    by_cases hspan : s = 24
    · exact .inr ⟨hcentury hspan, by omega⟩
    · exact .inl (by omega)
  · exact .inl (by omega)

/-- The year of the era that is computed for a day. -/
theorem EraDay.yearOfEra {day c s y d : Int} (h : EraDay day c s y d) :
    (day - day / 1460 + day / 36524 - day / 146096) / 365 = 100 * c + 4 * s + y := by
  have hlast := h.of_century
  obtain ⟨hday, hc, hs, hy, hd, hleap⟩ := h
  have hcentury : day / 36524 - day / 146096 = c := by
    rw [Int.add_assoc, Int.add_assoc, ← Int.add_assoc (1461 * s)] at hday
    have hrest : 0 ≤ 1461 * s + 365 * y + d := by omega
    generalize 1461 * s + 365 * y + d = r at *
    rcases hlast with hless | ⟨rfl, hsame⟩ <;> omega
  have hspan : day / 1460 = 25 * c + s + (24 * c + s + 365 * y + d) / 1460 := by omega
  -- The leap days counted too early are made up for on the leap day itself.
  have hyear : (24 * c + s + 365 * y + d) / 1460 = 0 ∧ d ≤ 364 ∨
      (24 * c + s + 365 * y + d) / 1460 = 1 ∧ 1 ≤ d := by omega
  omega

/-- A date of the calendar. -/
structure IsDate (year : Int) (month day : Nat) : Prop where
  one_le_month : 1 ≤ month
  month_le : month ≤ 12
  one_le_day : 1 ≤ day
  day_le : day ≤ daysInMonth year month

theorem daysInMonth_le (year : Int) (month : Nat) : daysInMonth year month ≤ 31 := by
  unfold daysInMonth
  split <;> (try split) <;> omega

theorem EraDay.leapYears {day c s y d : Int} (h : EraDay day c s y d) :
    (100 * c + 4 * s + y) / 4 = 25 * c + s ∧ (100 * c + 4 * s + y) / 100 = c := by
  obtain ⟨-, hc, hs, hy, -, -⟩ := h
  omega

/-- The last day of February comes in leap years only. -/
theorem EraDay.isLeapYear {day c s y d : Int} (h : EraDay day c s y d) (hd : d = 365) (era : Int) :
    isLeapYear (100 * c + 4 * s + y + era * 400 + 1) = true := by
  obtain ⟨-, hc, hs, hy, -, hleap⟩ := h
  obtain ⟨rfl, hcentury⟩ := hleap hd
  simp only [Moment.isLeapYear, Bool.and_eq_true, Bool.or_eq_true, decide_eq_true_eq]
  omega

/-- **Every day number has a date, and that date has the day number.** -/
theorem dayNumber_dateOf (days : Int) :
    IsDate (dateOf days).1 (dateOf days).2.1 (dateOf days).2.2 ∧
      dayNumber (dateOf days).1 (dateOf days).2.1 (dateOf days).2.2 = days := by
  have hlow : 0 ≤ (days + 719468) % 146097 := Int.emod_nonneg _ (by decide)
  have hhigh : (days + 719468) % 146097 < 146097 := Int.emod_lt_of_pos _ (by decide)
  obtain ⟨c, s, y, d, h⟩ := exists_eraDay hlow hhigh
  have hera := Int.mul_ediv_add_emod (days + 719468) 146097
  unfold dateOf
  dsimp only
  rw [h.yearOfEra, h.leapYears.1, h.leapYears.2]
  have hleap := h.isLeapYear
  have hquarter := h.leapYears.1
  have hhundred := h.leapYears.2
  obtain ⟨hday, hc, hs, hy, hd, -⟩ := h
  have hrest : (days + 719468) % 146097 - (365 * (100 * c + 4 * s + y) + (25 * c + s) - c) = d := by
    omega
  rw [hrest]
  generalize (days + 719468) / 146097 = era at *
  generalize (days + 719468) % 146097 = dayOfEra at *
  obtain ⟨m, hm⟩ : ∃ m, m = (5 * d + 2) / 153 := ⟨_, rfl⟩
  obtain ⟨hlow, hhigh⟩ : 0 ≤ m ∧ m ≤ 11 := by omega
  rw [← hm]
  have hyear : 0 ≤ 100 * c + 4 * s + y ∧ 100 * c + 4 * s + y < 400 := by omega
  generalize 100 * c + 4 * s + y = yearOfEra at *
  have hera400 : (yearOfEra + era * 400) / 4 = 25 * c + s + 100 * era ∧
      (yearOfEra + era * 400) / 100 = c + 4 * era ∧ (yearOfEra + era * 400) / 400 = era := by omega
  generalize 25 * c + s = quarter at *
  interval_cases m
  -- February, the last month that is counted, is the one whose length is not known.
  case «11» =>
    norm_num
    refine ⟨⟨by decide, by decide, by omega, ?_⟩, ?_⟩
    · by_cases hlast : d = 365
      · simp [daysInMonth, hleap hlast]
        omega
      · have hshort (year : Int) : 28 ≤ daysInMonth year 2 := by
          simp only [daysInMonth]
          split <;> decide
        exact le_trans (by omega) (hshort _)
    · simp [dayNumber]
      omega
  all_goals
    norm_num
    refine ⟨⟨by decide, by decide, by omega, by simp [daysInMonth]; omega⟩, ?_⟩
    simp [dayNumber]
    omega

/-! ### The years that moments lie in -/

theorem dayNumber_bounds {year : Int} {month day : Nat} (h : IsDate year month day) :
    dayNumber year 1 1 ≤ dayNumber year month day ∧
      dayNumber year month day ≤ dayNumber year 12 31 := by
  obtain ⟨hlow, hhigh, hone, hday⟩ := h
  have hlast := hday.trans (daysInMonth_le year month)
  unfold dayNumber
  dsimp only
  constructor <;> split <;> omega

/-- The year of a day that can be reached. -/
theorem year_bounds {days : Int} (hlow : dayNumber firstYear 1 1 ≤ days)
    (hhigh : days ≤ dayNumber lastYear 12 31) :
    firstYear ≤ (dateOf days).1 ∧ (dateOf days).1 ≤ lastYear := by
  obtain ⟨hdate, hnumber⟩ := dayNumber_dateOf days
  obtain ⟨hfirst, hlast⟩ := dayNumber_bounds hdate
  rw [hnumber] at hfirst hlast
  generalize (dateOf days).1 = year at *
  rw [show dayNumber firstYear 1 1 = -96465292 by decide] at hlow
  rw [show dayNumber lastYear 12 31 = 95026236 by decide] at hhigh
  norm_num [dayNumber] at hfirst hlast
  unfold firstYear lastYear
  constructor
  · by_contra hbefore
    omega
  · by_contra hafter
    obtain rfl | hmore : year = 262143 ∨ 262144 ≤ year := by omega
    · omega
    · omega

/-- The year that a moment lies in. -/
def year (t : Moment) : Int := (dateOf (t.seconds / 86400)).1

/-- A moment of these years can be reached. -/
theorem reachable_of_year {t : Moment} (hfirst : firstYear ≤ t.year) (hlast : t.year ≤ lastYear) :
    reachable t.seconds = true := by
  obtain ⟨hdate, hnumber⟩ := dayNumber_dateOf (t.seconds / 86400)
  obtain ⟨hlow, hhigh⟩ := dayNumber_bounds hdate
  rw [hnumber] at hlow hhigh
  change dayNumber t.year 1 1 ≤ _ at hlow
  change _ ≤ dayNumber t.year 12 31 at hhigh
  generalize t.year = year at *
  rw [reachable, Bool.and_eq_true, decide_eq_true_eq, decide_eq_true_eq]
  unfold firstYear at hfirst ⊢
  unfold lastYear at hlast ⊢
  norm_num [dayNumber] at hlow hhigh ⊢
  omega

/-! ### Readers of the parts of a text -/

open Text (AllDigits NoDigit takeWhile_digits)

section

variable {ds rest : List Char}

theorem isSpace_of_isDigit {c : Char} (h : c.isDigit = true) : Text.isSpace c = false := by
  obtain ⟨hlow, hhigh⟩ := Text.toNat_bounds_of_isDigit h
  have hblank : c.isWhitespace = false := by
    simp only [Char.isWhitespace, Bool.or_eq_false_iff, decide_eq_false_iff_not]
    refine ⟨⟨⟨?_, ?_⟩, ?_⟩, ?_⟩
    all_goals
      rintro rfl
      exact absurd hlow (by decide)
  simp [Text.isSpace, hblank]
  omega

theorem trimStart_digits (hds : AllDigits ds) (hne : ds ≠ []) :
    Text.trimStart (ds ++ rest) = ds ++ rest := by
  cases ds with
  | nil => exact absurd rfl hne
  | cons d ds => simp [Text.trimStart, isSpace_of_isDigit (hds d (by simp))]

/-- A run of digits is read up to its end, or up to as many digits as may be read. -/
theorem number_digits {most : Nat} (hds : AllDigits ds) (hne : ds ≠ [])
    (hmost : ds.length = most ∨ ds.length ≤ most ∧ NoDigit rest) :
    number most (ds ++ rest) = .ok (digitsValue ds, rest) := by
  have hrest : NoDigit (rest.take (most - ds.length)) := by
    rcases hmost with rfl | ⟨-, hrest⟩
    · rw [Nat.sub_self, List.take_zero]
      rintro c ⟨⟩
    · intro c hc
      rw [List.head?_take] at hc
      split at hc
      · exact absurd hc (by simp)
      · exact hrest c hc
  have hdigits : ((ds ++ rest).take most).takeWhile isDigit = ds := by
    rw [List.take_append, List.take_of_length_le (by omega), isDigit_eq, takeWhile_digits hds hrest]
  unfold number
  simp only [hdigits, if_neg hne, List.drop_left]

/-! #### Padded numbers -/

variable (width n : Nat)

theorem toList_padded : (padded width n).toList =
    List.replicate (width - (Nat.toDigits 10 n).length) '0' ++ Nat.toDigits 10 n := by
  have htext : (toString n).toList = Nat.toDigits 10 n := Nat.toList_repr
  rw [padded, String.toList_append, String.toList_ofList, ← String.length_toList, htext]

theorem allDigits_padded : AllDigits (padded width n).toList := by
  rw [toList_padded]
  exact (AllDigits.zeros _).append (.toDigits n)

theorem padded_ne_nil : (padded width n).toList ≠ [] := by
  rw [toList_padded]
  simp [Nat.toDigits_ne_nil]

theorem digitsValue_padded : digitsValue (padded width n).toList = n := by
  rw [toList_padded]
  exact (Json.digitsValue_zeros_append _ _).trans (Json.digitsValue_toDigits n)

variable {width n}

theorem length_padded (h : n < 10 ^ width) (hwidth : 0 < width) :
    (padded width n).toList.length = width := by
  have hlength := (Nat.length_toDigits_le_iff (b := 10) (by decide) hwidth).mpr h
  rw [toList_padded, List.length_append, List.length_replicate]
  omega

/-- A padded number of two digits is read inside its bounds. -/
theorem bounded_padded {low high : Nat} (hlow : low ≤ n) (hhigh : n ≤ high) (hn : n < 100) :
    bounded low high ((padded 2 n).toList ++ rest) = .ok (n, rest) := by
  have hinside : ¬ (n < low ∨ high < n) := by omega
  unfold bounded
  rw [trimStart_digits (allDigits_padded 2 n) (padded_ne_nil 2 n),
    number_digits (allDigits_padded 2 n) (padded_ne_nil 2 n) (.inl (length_padded hn (by decide))),
    digitsValue_padded]
  simp [bind, Except.bind, hinside]
  rfl

theorem separator_cons {c : Char} (h : Text.isSpace c = false) :
    separator c (c :: rest) = .ok ((), rest) := by
  simp [separator, Text.trimStart, h]

/-- A year without a sign is read from four digits. -/
theorem scanYear_digits (hds : AllDigits ds) (hlength : ds.length = 4)
    (hvalue : digitsValue ds < 0x80000000) :
    scanYear (ds ++ rest) = .ok ((digitsValue ds : Int), rest) := by
  have hne : ds ≠ [] := by
    rintro rfl
    cases hlength
  have hnumber : number 4 (ds ++ rest) = .ok (digitsValue ds, rest) :=
    number_digits hds hne (.inl hlength)
  unfold scanYear
  rw [trimStart_digits hds hne]
  obtain ⟨d, ds, rfl⟩ := List.exists_cons_of_ne_nil hne
  have hminus : d ≠ '-' := by
    rintro rfl
    exact absurd (hds '-' (by simp)) (by decide)
  have hplus : d ≠ '+' := by
    rintro rfl
    exact absurd (hds '+' (by simp)) (by decide)
  rw [List.cons_append] at hnumber ⊢
  simp [hminus, hplus, hnumber, bind, Except.bind, pure, Except.pure, hvalue]

/-- A year with a sign is read from all digits that follow. -/
theorem scanYear_sign {sign : Char} (hds : AllDigits ds) (hne : ds ≠ []) (hrest : NoDigit rest)
    (hsign : sign = '-' ∨ sign = '+') (hvalue : digitsValue ds < 0x80000000) :
    scanYear (sign :: (ds ++ rest)) =
      .ok (if sign = '-' then -(digitsValue ds : Int) else digitsValue ds, rest) := by
  have hlength : ds.length ≤ (ds ++ rest).length.succ := by
    rw [List.length_append]
    omega
  have hnumber : number (ds ++ rest).length.succ (ds ++ rest) = .ok (digitsValue ds, rest) :=
    number_digits hds hne (.inr ⟨hlength, hrest⟩)
  have hpositive : ¬ ((digitsValue ds : Int) < -0x80000000 ∨ 0x80000000 ≤ (digitsValue ds : Int)) := by
    omega
  have hnegative : ¬ (-(digitsValue ds : Int) < -0x80000000 ∨ 0x80000000 ≤ -(digitsValue ds : Int)) := by
    omega
  unfold scanYear
  rcases hsign with rfl | rfl
  · rw [show Text.trimStart ('-' :: (ds ++ rest)) = '-' :: (ds ++ rest) from rfl]
    simp only [hnumber, bind, Except.bind, pure, Except.pure, hnegative]
    rfl
  · rw [show Text.trimStart ('+' :: (ds ++ rest)) = '+' :: (ds ++ rest) from rfl]
    simp only [hnumber, bind, Except.bind, pure, Except.pure, hpositive]
    rfl

/-- A year is read up to the dash after it. -/
theorem scanYear_yearText {year : Int} (hyear : year.natAbs < 0x80000000) :
    scanYear ((yearText year).toList ++ '-' :: rest) = .ok (year, '-' :: rest) := by
  have hdash : NoDigit ('-' :: rest) := by
    rintro c ⟨⟩
    rfl
  unfold yearText
  split_ifs with hplain hnegative
  · have hlength : (padded 4 year.toNat).toList.length = 4 := length_padded (by omega) (by decide)
    have hvalue : digitsValue (padded 4 year.toNat).toList < 0x80000000 := by
      rw [digitsValue_padded]
      omega
    rw [scanYear_digits (allDigits_padded 4 year.toNat) hlength hvalue, digitsValue_padded,
      Int.toNat_of_nonneg hplain.1]
  · have hread := scanYear_sign (allDigits_padded 4 year.natAbs) (padded_ne_nil 4 year.natAbs) hdash
      (.inl rfl) (by rw [digitsValue_padded]; exact hyear)
    have hvalue : -(year.natAbs : Int) = year := by omega
    rw [digitsValue_padded, if_pos rfl, hvalue] at hread
    rw [String.toList_append]
    exact hread
  · have hread := scanYear_sign (allDigits_padded 4 year.natAbs) (padded_ne_nil 4 year.natAbs) hdash
      (.inr rfl) (by rw [digitsValue_padded]; exact hyear)
    have hvalue : (year.natAbs : Int) = year := by omega
    rw [digitsValue_padded, if_neg (by decide), hvalue] at hread
    rw [String.toList_append]
    exact hread

/-- A fraction is read with as many zeros behind it as it lacks digits. -/
theorem scanFraction_digits (hds : AllDigits ds) (hne : ds ≠ []) (hlength : ds.length ≤ 9)
    (hrest : NoDigit rest) :
    scanFraction ('.' :: (ds ++ rest)) = .ok (digitsValue ds * 10 ^ (9 - ds.length), rest) := by
  have hnumber : number 9 (ds ++ rest) = .ok (digitsValue ds, rest) :=
    number_digits hds hne (.inr ⟨hlength, hrest⟩)
  have htake : ((ds ++ rest).take 9).takeWhile isDigit = ds := by
    have hhead : NoDigit (rest.take (9 - ds.length)) := by
      intro c hc
      rw [List.head?_take] at hc
      split at hc
      · exact absurd hc (by simp)
      · exact hrest c hc
    rw [List.take_append, List.take_of_length_le hlength, isDigit_eq, takeWhile_digits hds hhead]
  have hdrop : rest.dropWhile isDigit = rest := Text.dropWhile_of_noDigit hrest
  simp only [scanFraction, hnumber, bind, Except.bind, htake, hdrop]
  rfl

/-- A fraction of a second is read from its text. -/
theorem scanFraction_fractionText {n : Nat} (h : n < 1000000000) :
    scanFraction ((fractionText n).toList ++ 'Z' :: rest) = .ok (n, 'Z' :: rest) := by
  have hzone : NoDigit ('Z' :: rest) := by
    rintro c ⟨⟩
    rfl
  have hread {width m : Nat} (hm : m < 10 ^ width) (hpos : 0 < width) (hwidth : width ≤ 9)
      (hvalue : m * 10 ^ (9 - width) = n) :
      scanFraction (("." ++ padded width m).toList ++ 'Z' :: rest) = .ok (n, 'Z' :: rest) := by
    have hlength := length_padded hm hpos
    have hscan := scanFraction_digits (allDigits_padded width m) (padded_ne_nil width m)
      (by omega) hzone
    rw [hlength, digitsValue_padded, hvalue] at hscan
    rw [String.toList_append]
    exact hscan
  unfold fractionText
  split_ifs with hzero hthree hsix
  · rw [hzero]
    rfl
  · exact hread (by omega) (by decide) (by decide) (by omega)
  · exact hread (by omega) (by decide) (by decide) (by omega)
  · exact hread (by omega) (by decide) (by decide) (by omega)

end

/-! ### Whole texts -/

/-- A moment that a text can name: it lies in the years that moments can lie in, and a leap second
is the last one of its minute. -/
structure Valid (t : Moment) : Prop where
  reachable : reachable t.seconds = true
  leap : t.nanoseconds < 1000000000 ∨ t.nanoseconds < 2000000000 ∧ t.seconds % 60 = 59

/-- A moment of the years 0 to 9999, which are written with four digits and no sign. A leap second is
the last one of its minute. -/
structure FourDigit (t : Moment) : Prop where
  zero_le_year : 0 ≤ t.year
  year_le : t.year ≤ 9999
  leap : t.nanoseconds < 1000000000 ∨ t.nanoseconds < 2000000000 ∧ t.seconds % 60 = 59

theorem FourDigit.valid {t : Moment} (h : t.FourDigit) : t.Valid :=
  ⟨reachable_of_year (le_trans (by decide) h.zero_le_year) (h.year_le.trans (by decide)), h.leap⟩

/-- The parts of a text, in front of each other. -/
theorem toList_text (t : Moment) : t.text.toList =
    (yearText (dateOf (t.seconds / 86400)).1).toList ++ '-' ::
      ((padded 2 (dateOf (t.seconds / 86400)).2.1).toList ++ '-' ::
      ((padded 2 (dateOf (t.seconds / 86400)).2.2).toList ++ 'T' ::
      ((padded 2 ((t.seconds % 86400).toNat / 3600)).toList ++ ':' ::
      ((padded 2 ((t.seconds % 86400).toNat / 60 % 60)).toList ++ ':' ::
      ((padded 2 ((t.seconds % 86400).toNat % 60 + t.nanoseconds / 1000000000)).toList ++
      ((fractionText (t.nanoseconds % 1000000000)).toList ++ ['Z'])))))) := by
  simp [text, textWith, String.toList_append]

/-- **A moment is read back from its text.** -/
theorem parse_text {t : Moment} (h : t.Valid) : parse t.text = .ok t := by
  obtain ⟨seconds, nanoseconds⟩ := t
  obtain ⟨hreach, hleap⟩ := h
  dsimp only at hreach hleap
  have hdays := hreach
  rw [reachable, Bool.and_eq_true, decide_eq_true_eq, decide_eq_true_eq] at hdays
  obtain ⟨hfirst, hlast⟩ := year_bounds hdays.1 hdays.2
  obtain ⟨⟨hmonthLow, hmonthHigh, hdayLow, hday⟩, hnumber⟩ := dayNumber_dateOf (seconds / 86400)
  have hdayHigh := hday.trans (daysInMonth_le _ _)
  have hyear : (dateOf (seconds / 86400)).1.natAbs < 0x80000000 := by
    unfold firstYear at hfirst
    unfold lastYear at hlast
    omega
  unfold parse
  rw [toList_text]
  dsimp only
  generalize (dateOf (seconds / 86400)).1 = year at *
  generalize (dateOf (seconds / 86400)).2.1 = month at *
  generalize (dateOf (seconds / 86400)).2.2 = day at *
  have hdash : Text.isSpace '-' = false := by decide
  have hcolon : Text.isSpace ':' = false := by decide
  have hvalid : ¬ (year < firstYear ∨ lastYear < year ∨ daysInMonth year month < day) := by omega
  obtain ⟨ofDay, hofDay⟩ : ∃ n : Nat, (seconds % 86400).toNat = n := ⟨_, rfl⟩
  rw [hofDay]
  have hcarried : nanoseconds / 1000000000 = 0 ∨
      nanoseconds / 1000000000 = 1 ∧ ofDay % 60 = 59 := by omega
  obtain ⟨second, hsecond⟩ : ∃ n, ofDay % 60 + nanoseconds / 1000000000 = n := ⟨_, rfl⟩
  rw [hsecond]
  have hzone : scanOffset (Text.trimStart ['Z']) = .ok (0, []) := rfl
  have hseconds : dayNumber year month day * 86400 + (ofDay / 3600 : Nat) * 3600 +
      (ofDay / 60 % 60 : Nat) * 60 + second - (second / 60 : Nat) - 0 = seconds := by
    rw [hnumber]
    omega
  have hnanoseconds : nanoseconds % 1000000000 + second / 60 * 1000000000 = nanoseconds := by omega
  have hrest : ¬ Text.trimStart [] ≠ [] := by simp [Text.trimStart]
  have hoffset : ¬ ((0 : Int) ≤ -86400 ∨ (86400 : Int) ≤ 0) := by decide
  simp only [scanYear_yearText hyear, separator_cons hdash, separator_cons hcolon,
    bounded_padded hmonthLow hmonthHigh (by omega), bounded_padded hdayLow hdayHigh (by omega),
    bounded_padded (Nat.zero_le (ofDay / 3600)) (show ofDay / 3600 ≤ 23 by omega) (by omega),
    bounded_padded (Nat.zero_le (ofDay / 60 % 60)) (show ofDay / 60 % 60 ≤ 59 by omega) (by omega),
    bounded_padded (Nat.zero_le second) (show second ≤ 60 by omega) (by omega),
    scanFraction_fractionText (Nat.mod_lt nanoseconds (by decide)), hzone, if_neg hvalid,
    if_neg hrest, if_neg hoffset, hseconds, hreach, hnanoseconds, bind, Except.bind, pure,
    Except.pure, true_or, if_true, Bool.not_true, Bool.false_eq_true, if_false]

/-! ### What is read from a text -/

theorem le_of_bounded {low high n : Nat} {cs rest : List Char}
    (h : bounded low high cs = .ok (n, rest)) : n ≤ high := by
  obtain ⟨⟨m, after⟩, -, h⟩ := Except.bind_eq_ok.mp h
  dsimp only at h
  split at h
  next => cases h
  next hinside =>
    cases h
    omega

theorem digitsValue_lt {ds : List Char} (hds : AllDigits ds) : digitsValue ds < 10 ^ ds.length := by
  induction ds using List.reverseRecOn with
  | nil => decide
  | append_singleton ds d ih =>
      have hd : d.toNat ≤ 57 := (Text.toNat_bounds_of_isDigit (hds d (by simp))).2
      have hlast : digitsValue (ds ++ [d]) = 10 * digitsValue ds + (d.toNat - 48) := by
        simp [digitsValue]
      have hbefore := ih fun c hc => hds c (List.mem_append_left _ hc)
      rw [hlast, List.length_append, List.length_singleton, Nat.pow_succ]
      omega

theorem lt_of_scanFraction {n : Nat} {cs rest : List Char}
    (h : scanFraction cs = .ok (n, rest)) : n < 1000000000 := by
  unfold scanFraction at h
  split at h
  next after =>
    obtain ⟨⟨m, rest'⟩, hnumber, h⟩ := Except.bind_eq_ok.mp h
    cases h
    unfold number at hnumber
    dsimp only at hnumber
    split at hnumber
    next => cases hnumber
    next hne =>
      cases hnumber
      have hdigits : AllDigits ((after.take 9).takeWhile isDigit) := fun c hc =>
        List.all_eq_true.mp List.all_takeWhile c hc
      have hlength : ((after.take 9).takeWhile isDigit).length ≤ 9 :=
        (List.takeWhile_sublist _).length_le.trans (by simp)
      have hvalue := digitsValue_lt hdigits
      generalize (after.take 9).takeWhile isDigit = ds at *
      calc digitsValue ds * 10 ^ (9 - ds.length) < 10 ^ ds.length * 10 ^ (9 - ds.length) :=
            Nat.mul_lt_mul_of_pos_right hvalue (Nat.pow_pos (by decide))
        _ = 10 ^ 9 := by rw [← Nat.pow_add, Nat.add_sub_cancel' hlength]
  next =>
    cases h
    decide

/-- Offsets are whole minutes. -/
theorem minutes_of_scanOffset {offset : Int} {cs rest : List Char}
    (h : scanOffset cs = .ok (offset, rest)) : offset % 60 = 0 := by
  unfold scanOffset at h
  simp only [bind, Except.bind, pure, Except.pure, throw, throwThe, MonadExceptOf.throw] at h
  repeat' split at h
  all_goals first
    | cases h; omega
    | cases h

/-- The moment of a date and a time of day. -/
theorem valid_of_parts {minutes offset : Int} {second fraction : Nat} (hminutes : minutes % 60 = 0)
    (hoffset : offset % 60 = 0) (hsecond : second ≤ 60) (hfraction : fraction < 1000000000)
    (hreach : Moment.reachable (minutes + second - (second / 60 : Nat) - offset) = true) :
    Valid ⟨minutes + second - (second / 60 : Nat) - offset, fraction + second / 60 * 1000000000⟩ := by
  refine ⟨hreach, ?_⟩
  dsimp only
  obtain rfl | hless : second = 60 ∨ second < 60 := by omega
  · exact .inr ⟨by omega, by omega⟩
  · exact .inl (by omega)

/-- **What is read from a text is a moment that a text can name.** -/
theorem valid_of_parse {text : String} {t : Moment} (h : parse text = .ok t) : t.Valid := by
  unfold parse at h
  simp only [bind, Except.bind, pure, Except.pure, throw, throwThe, MonadExceptOf.throw] at h
  repeat' split at h
  all_goals cases h
  next _ _ hsecond _ _ hfraction _ _ hoffset _ _ _ hreach =>
    exact valid_of_parts (by omega) (minutes_of_scanOffset hoffset) (le_of_bounded hsecond)
      (lt_of_scanFraction hfraction) (by simpa using hreach)

end Likeness.Moment
