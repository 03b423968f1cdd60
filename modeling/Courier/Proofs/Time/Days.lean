import Courier.Time.Calendar

/-!
# Days and their numbers

Every number is that of a day which the calendar has: `Date.ofDayNumber` gives a valid day
(`Date.valid_ofDayNumber`), and the number of that day is the number that it was made from
(**`Date.dayNumber_ofDayNumber`**).

The four hundred years after which the calendar repeats are four centuries of 36524 days and one
more day; a century is made of periods of four years with 1461 days, of which the last is a day
short. `CycleDay` takes a day apart along these lines. In such terms all quotients that the
numbering goes through are linear, so that arithmetic does the rest.
-/

namespace Courier.Time

/-! ## Within four hundred years -/

/-- Day `d` of four hundred years is day `day` of year `year` of the period `period` of a century.
Years begin in March. -/
structure CycleDay (d century period year day : Nat) : Prop where
  century_le : century ≤ 3
  period_le : period ≤ 24
  year_le : year ≤ 3
  /-- The last year of a period has a day more, but in the last period of a century that has no
  such day itself. -/
  day_le : day ≤ 364 ∨ day = 365 ∧ year = 3 ∧ (period < 24 ∨ century = 3)
  sum : d = 36524 * century + 1461 * period + 365 * year + day

/-- Every day of four hundred years can be taken apart. -/
theorem exists_cycleDay {d : Nat} (h : d < cycleDays) :
    ∃ century period year day, CycleDay d century period year day := by
  unfold cycleDays at h
  -- The last day of all belongs to the fourth century, and that of a period to its fourth year.
  let century := min 3 (d / 36524)
  let period := (d - 36524 * century) / 1461
  let year := min 3 ((d - 36524 * century) % 1461 / 365)
  refine ⟨century, period, year, (d - 36524 * century) % 1461 - 365 * year, ?_⟩
  have hcentury : 36524 * century ≤ d ∧ (d - 36524 * century < 36524 ∨
      d - 36524 * century = 36524 ∧ century = 3) := by omega
  constructor <;> omega

namespace CycleDay

variable {d century period year day : Nat}

/-- The year of a day. -/
theorem yearOfCycle (h : CycleDay d century period year day) :
    (d - d / 1460 + d / 36524 - d / 146096) / 365 = 100 * century + 4 * period + year := by
  obtain ⟨hcentury, hperiod, hyear, hday, hsum⟩ := h
  have hlast : d < 36524 * (century + 1) ∨ d = 146096 ∧ century = 3 := by omega
  have hlong : d / 36524 - d / 146096 = century := by omega
  -- Whether the last day of a period has been taken off already depends on the day.
  have hshort : d / 1460 = 25 * century + period ∧ day ≤ 364 ∨
      d / 1460 = 25 * century + period + 1 ∧ 1 ≤ day := by omega
  have hdays : d - d / 1460 + d / 36524 - d / 146096 + d / 1460 = d + century := by omega
  generalize d - d / 1460 + d / 36524 - d / 146096 = days at hdays ⊢
  rcases hshort with ⟨hshort, hday⟩ | ⟨hshort, hday⟩ <;> omega

/-- The first day of that year. -/
theorem yearStart_eq (h : CycleDay d century period year day) :
    yearStart (100 * century + 4 * period + year) =
      36524 * century + 1461 * period + 365 * year := by
  obtain ⟨hcentury, hperiod, hyear, -, -⟩ := h
  unfold yearStart
  omega

/-- No year has more than 366 days. -/
theorem day_lt (h : CycleDay d century period year day) : day < 366 := by
  have := h.day_le
  omega

end CycleDay

/-! ## Within a year -/

/-- The month of a day, counted from March. -/
def monthOfYear (day : Nat) : Nat :=
  (5 * day + 2) / 153

/-- A year has twelve months, and a day lies between the first one of its month and that of the
next. -/
theorem monthOfYear_spec {day : Nat} (h : day < 366) :
    monthOfYear day ≤ 11 ∧ monthStart (monthOfYear day) ≤ day ∧
      day < monthStart (monthOfYear day + 1) := by
  unfold monthOfYear monthStart
  omega

/-! ## Days of the calendar -/

/-- The day that is day `day` of a year that begins in March. -/
def Date.ofYearDay (year : Int) (day : Nat) : Date :=
  let month := monthOfYear day
  let dayOfMonth := day - monthStart month + 1
  if month < 10 then ⟨year, month + 3, dayOfMonth⟩ else ⟨year + 1, month - 9, dayOfMonth⟩

/-- The day with a number, from what it is taken apart into. -/
theorem Date.ofDayNumber_eq {n cycle : Int} {d century period year day : Nat}
    (h : CycleDay d century period year day) (hn : n + epochOffset = cycle * cycleDays + d) :
    Date.ofDayNumber n =
      .ofYearDay (cycle * 400 + (100 * century + 4 * period + year : Nat)) day := by
  have hd : d < cycleDays := by
    have := h.sum
    have := h.day_le
    have := h.century_le
    have := h.period_le
    have := h.year_le
    unfold cycleDays
    omega
  have hquotient : (n + epochOffset) / cycleDays = cycle := by
    unfold cycleDays at *
    omega
  have hremainder : ((n + epochOffset) % cycleDays).toNat = d := by
    unfold cycleDays at *
    omega
  have hday : d - (36524 * century + 1461 * period + 365 * year) = day := by
    have := h.sum
    omega
  simp only [Date.ofDayNumber, hquotient, hremainder, h.yearOfCycle, h.yearStart_eq, hday]
  rfl

/-- A day of a year is one that the calendar has, if the year has that many days. -/
theorem Date.valid_ofYearDay {year : Int} {day : Nat}
    (h : day < 365 ∨ day = 365 ∧ isLeap (year + 1) = true) : (Date.ofYearDay year day).Valid := by
  have hday : day < 366 := by omega
  obtain ⟨hmonth, hstart, hend⟩ := monthOfYear_spec hday
  have hcases : monthOfYear day < 10 ∨ monthOfYear day = 10 ∨ monthOfYear day = 11 := by omega
  rcases hcases with hlow | hjanuary | hfebruary
  · have hlength : day - monthStart (monthOfYear day) + 1 ≤
        monthLength year (monthOfYear day + 3) := by
      unfold monthLength
      unfold monthStart at *
      split
      · omega
      · split <;> omega
    unfold Date.ofYearDay
    simp only [if_pos hlow]
    refine ⟨?_, ?_, ?_, hlength⟩
    · show 1 ≤ monthOfYear day + 3
      omega
    · show monthOfYear day + 3 ≤ 12
      omega
    · show 1 ≤ day - monthStart (monthOfYear day) + 1
      omega
  · unfold Date.ofYearDay
    simp [hjanuary, Date.Valid, monthLength, monthStart] at *
    omega
  · unfold Date.ofYearDay
    simp [hfebruary, Date.Valid, monthLength, monthStart] at *
    split <;> rename_i hleap
    · omega
    · simp [hleap] at h
      omega

/-- The number of a day of a year that begins in March. -/
theorem Date.dayNumber_ofYearDay {year : Int} {day : Nat} (h : day < 366) :
    (Date.ofYearDay year day).dayNumber =
      year / 400 * cycleDays + (yearStart (year % 400).toNat + day : Nat) - epochOffset := by
  obtain ⟨hmonth, hstart, -⟩ := monthOfYear_spec h
  have hday : monthStart (monthOfYear day) + (day - monthStart (monthOfYear day)) = day := by omega
  unfold Date.ofYearDay Date.dayNumber
  by_cases hlow : monthOfYear day < 10
  · have hlate : ¬ monthOfYear day + 3 ≤ 2 := by omega
    have hback : (monthOfYear day + 3 + 9) % 12 = monthOfYear day := by omega
    simp only [if_pos hlow, if_neg hlate, hback, Nat.add_sub_cancel, Nat.add_assoc, hday]
  · have hearly : monthOfYear day - 9 ≤ 2 := by omega
    have hback : (monthOfYear day - 9 + 9) % 12 = monthOfYear day := by omega
    have hyear : year + 1 - 1 = year := by omega
    simp only [if_neg hlow, if_pos hearly, hback, hyear, Nat.add_sub_cancel, Nat.add_assoc, hday]

theorem Date.Valid.month_le {d : Date} (h : d.Valid) : d.month ≤ 12 :=
  h.2.1

/-- No month has more than 31 days. -/
theorem Date.Valid.day_le {d : Date} (h : d.Valid) : d.day ≤ 31 := by
  have hlength : monthLength d.year d.month ≤ 31 := by
    unfold monthLength
    split
    · split <;> omega
    · split <;> omega
  exact Nat.le_trans h.2.2.2 hlength

/-! ## From a number to a day and back -/

/-- Every number can be taken apart. -/
theorem exists_cycleDay_of_dayNumber (n : Int) :
    ∃ (cycle : Int) (d century period year day : Nat),
      n + epochOffset = cycle * cycleDays + d ∧ CycleDay d century period year day := by
  have hlt : ((n + epochOffset) % cycleDays).toNat < cycleDays := by
    unfold cycleDays
    omega
  obtain ⟨century, period, year, day, h⟩ := exists_cycleDay hlt
  refine ⟨(n + epochOffset) / cycleDays, _, century, period, year, day, ?_, h⟩
  unfold cycleDays
  omega

/-- **Every number is that of a day which the calendar has.** -/
theorem Date.valid_ofDayNumber (n : Int) : (Date.ofDayNumber n).Valid := by
  obtain ⟨cycle, d, century, period, year, day, hn, h⟩ := exists_cycleDay_of_dayNumber n
  rw [Date.ofDayNumber_eq h hn]
  apply Date.valid_ofYearDay
  obtain ⟨hcentury, hperiod, hyear, hday, -⟩ := h
  rcases hday with hday | ⟨hday, hyear', hlast⟩
  · exact .inl (by omega)
  · refine .inr ⟨hday, ?_⟩
    -- The year that begins in the January of such a year is a leap year.
    simp only [isLeap, Bool.and_eq_true, Bool.or_eq_true, beq_iff_eq, bne_iff_ne]
    omega

/-- **The day that a number is made into has that number.** -/
theorem Date.dayNumber_ofDayNumber (n : Int) : (Date.ofDayNumber n).dayNumber = n := by
  obtain ⟨cycle, d, century, period, year, day, hn, h⟩ := exists_cycleDay_of_dayNumber n
  have hyear : 100 * century + 4 * period + year < 400 := by
    have := h.century_le
    have := h.period_le
    have := h.year_le
    omega
  have hquotient : (cycle * 400 + (100 * century + 4 * period + year : Nat)) / 400 = cycle := by
    omega
  have hremainder : ((cycle * 400 + (100 * century + 4 * period + year : Nat)) % 400).toNat =
      100 * century + 4 * period + year := by
    omega
  rw [Date.ofDayNumber_eq h hn, Date.dayNumber_ofYearDay h.day_lt, hquotient, hremainder,
    h.yearStart_eq, ← h.sum]
  omega

/-- The year that a day of a year which begins in March lies in. -/
theorem Date.year_ofYearDay (year : Int) (day : Nat) :
    (Date.ofYearDay year day).year = if day < 306 then year else year + 1 := by
  have hmonth : monthOfYear day < 10 ↔ day < 306 := by
    unfold monthOfYear
    omega
  unfold Date.ofYearDay
  by_cases hday : day < 306
  · simp [hmonth, hday]
  · simp [hmonth, hday]

/-- A later day does not lie in an earlier year. -/
theorem Date.year_ofDayNumber_mono {m n : Int} (hmn : m ≤ n) :
    (Date.ofDayNumber m).year ≤ (Date.ofDayNumber n).year := by
  obtain ⟨cycle, d, century, period, year, day, hm, h⟩ := exists_cycleDay_of_dayNumber m
  obtain ⟨cycle', d', century', period', year', day', hn, h'⟩ := exists_cycleDay_of_dayNumber n
  rw [Date.ofDayNumber_eq h hm, Date.ofDayNumber_eq h' hn, Date.year_ofYearDay,
    Date.year_ofYearDay]
  obtain ⟨hcentury, hperiod, hyear, hday, hsum⟩ := h
  obtain ⟨hcentury', hperiod', hyear', hday', hsum'⟩ := h'
  unfold cycleDays at hm hn
  have horder : cycle < cycle' ∨ cycle = cycle' ∧ (century < century' ∨ century = century' ∧
      (period < period' ∨ period = period' ∧ (year < year' ∨ year = year' ∧ day ≤ day'))) := by
    omega
  split <;> split <;> omega

end Courier.Time
