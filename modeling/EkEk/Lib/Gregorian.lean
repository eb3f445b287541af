import Mathlib.Data.Int.Init

/-!
# The Gregorian calendar

The calendar goes on before its first year and has a year 0. `daysFromCivil` counts the days since
1970-01-01 in eras of 400 years, which begin with a March, and `ofDays` is the date of a day. The one takes
the other back (`days_ofDays`, `ofDays_days`). The day after a date has the following number (`days_next`),
and nothing else numbers the dates in their order (`ofDays_unique`).
-/

namespace Gregorian

/-! ## Dates -/

/-- Whether a year has a 29th of February. -/
def IsLeap (year : ℤ) : Prop := 4 ∣ year ∧ (¬ 100 ∣ year ∨ 400 ∣ year)

instance (year : ℤ) : Decidable (IsLeap year) :=
  inferInstanceAs (Decidable (4 ∣ year ∧ (¬ 100 ∣ year ∨ 400 ∣ year)))

def daysInMonth (year month : ℤ) : ℤ :=
  if month = 2 then if IsLeap year then 29 else 28
  else if month = 4 ∨ month = 6 ∨ month = 9 ∨ month = 11 then 30
  else 31

@[ext] structure Date where
  year : ℤ
  month : ℤ
  day : ℤ
  month_mem : 1 ≤ month ∧ month ≤ 12
  day_mem : 1 ≤ day ∧ day ≤ daysInMonth year month
deriving DecidableEq

/-- 1970-01-01. -/
def epoch : Date := ⟨1970, 1, 1, by decide, by decide⟩

theorem one_le_daysInMonth (year month : ℤ) : 1 ≤ daysInMonth year month := by
  unfold daysInMonth
  split
  · split <;> omega
  · split <;> omega

/-- The date of the following day. -/
def Date.next (date : Date) : Date :=
  if h : date.day < daysInMonth date.year date.month then
    ⟨date.year, date.month, date.day + 1, date.month_mem, by have := date.day_mem; omega⟩
  else if hmonth : date.month < 12 then
    ⟨date.year, date.month + 1, 1, by have := date.month_mem; omega, Int.le_refl 1, one_le_daysInMonth _ _⟩
  else ⟨date.year + 1, 1, 1, by omega, Int.le_refl 1, one_le_daysInMonth _ _⟩

/-! ## Counting days -/

/-- The months of a year that begins with March. -/
def monthIndex (month : ℤ) : ℤ := if 2 < month then month - 3 else month + 9

/-- The days of a year that begins with March before one of its months. -/
def monthStart (index : ℤ) : ℤ := (153 * index + 2) / 5

/-- The days of an era before one of its years. -/
def yearStart (yearOfEra : ℤ) : ℤ := 365 * yearOfEra + yearOfEra / 4 - yearOfEra / 100

/-- How many days after 1970-01-01 a date is. -/
def daysFromCivil (year month day : ℤ) : ℤ :=
  let shifted := if month ≤ 2 then year - 1 else year
  let era := shifted / 400
  let yearOfEra := shifted - era * 400
  let dayOfYear := monthStart (monthIndex month) + day - 1
  era * 146097 + (yearStart yearOfEra + dayOfYear) - 719468

def Date.days (date : Date) : ℤ := daysFromCivil date.year date.month date.day

/-! ## The year of a day -/

/-- The year of an era that a day of it is in. -/
def yearOfEra (dayOfEra : ℤ) : ℤ :=
  (dayOfEra - dayOfEra / 1460 + dayOfEra / 36524 - dayOfEra / 146096) / 365

/-- A day of a year of an era, which has 366 of them when the next February has 29. -/
structure DayOf (year day : ℤ) : Prop where
  year_mem : 0 ≤ year ∧ year < 400
  day_mem : 0 ≤ day ∧ day ≤ 365
  leap : day = 365 → IsLeap (year + 1)

theorem yearStart_add {century leap rest : ℤ} (hleap : 0 ≤ leap ∧ leap ≤ 24) (hrest : 0 ≤ rest ∧ rest ≤ 3) :
    yearStart (100 * century + 4 * leap + rest) = 36524 * century + 1461 * leap + 365 * rest := by
  unfold yearStart
  omega

/-- A day is in the year that its count begins with. -/
theorem yearOfEra_add {year day : ℤ} (h : DayOf year day) : yearOfEra (yearStart year + day) = year := by
  obtain ⟨hyear, hday, hlast⟩ := h
  obtain ⟨century, leap, rest, hcentury, hleap, hrest, rfl⟩ : ∃ century leap rest : ℤ,
      (0 ≤ century ∧ century ≤ 3) ∧ (0 ≤ leap ∧ leap ≤ 24) ∧ (0 ≤ rest ∧ rest ≤ 3) ∧
        year = 100 * century + 4 * leap + rest :=
    ⟨year / 100, year % 100 / 4, year % 4, by omega, by omega, by omega, by omega⟩
  have hlast : day = 365 → rest = 3 ∧ (leap ≤ 23 ∨ century = 3) := by
    intro h
    have := hlast h
    unfold IsLeap at this
    omega
  rw [yearStart_add hleap hrest]
  generalize hd : 36524 * century + 1461 * leap + 365 * rest + day = dayOfEra
  by_cases hend : dayOfEra = 146096
  · -- The last day of the era.
    have : century = 3 ∧ leap = 24 ∧ rest = 3 := by omega
    obtain ⟨rfl, rfl, rfl⟩ := this
    subst hend
    rfl
  · have hera : dayOfEra / 146096 = 0 := by omega
    have hcenturies : dayOfEra / 36524 = century := by omega
    rw [yearOfEra, hera, hcenturies]
    -- A leap cycle has 1461 days, and one of 1460 ends before it.
    by_cases hcycle : 24 * century + leap + 365 * rest + day < 1460
    · have hcycles : dayOfEra / 1460 = 25 * century + leap := by omega
      rw [hcycles]
      omega
    · have hcycles : dayOfEra / 1460 = 25 * century + leap + 1 := by omega
      rw [hcycles]
      omega

/-- Every day of an era is in a year of it. -/
theorem exists_dayOf {dayOfEra : ℤ} (h : 0 ≤ dayOfEra ∧ dayOfEra < 146097) :
    ∃ year day, DayOf year day ∧ dayOfEra = yearStart year + day := by
  obtain ⟨century, ofCentury, hcentury, hd, hofCentury⟩ : ∃ century ofCentury : ℤ,
      (0 ≤ century ∧ century ≤ 3) ∧ dayOfEra = 36524 * century + ofCentury ∧
        (0 ≤ ofCentury ∧ (ofCentury < 36524 ∨ century = 3 ∧ ofCentury = 36524)) :=
    ⟨min (dayOfEra / 36524) 3, dayOfEra - 36524 * min (dayOfEra / 36524) 3, by omega, by omega, by omega⟩
  obtain ⟨leap, ofLeap, hleap, hc, hofLeap⟩ : ∃ leap ofLeap : ℤ,
      (0 ≤ leap ∧ leap ≤ 24) ∧ ofCentury = 1461 * leap + ofLeap ∧ (0 ≤ ofLeap ∧ ofLeap ≤ 1460) :=
    ⟨ofCentury / 1461, ofCentury % 1461, by omega, by omega, by omega⟩
  obtain ⟨rest, day, hrest, hl, hday⟩ : ∃ rest day : ℤ, (0 ≤ rest ∧ rest ≤ 3) ∧ ofLeap = 365 * rest + day ∧
      (0 ≤ day ∧ (day ≤ 364 ∨ rest = 3 ∧ day = 365)) :=
    ⟨min (ofLeap / 365) 3, ofLeap - 365 * min (ofLeap / 365) 3, by omega, by omega, by omega⟩
  refine ⟨100 * century + 4 * leap + rest, day, ⟨by omega, by omega, fun hlast => ?_⟩, ?_⟩
  · unfold IsLeap
    omega
  · rw [yearStart_add hleap hrest]
    omega

/-! ## The date of a day -/

/-- The month of a year that begins with March that a day of it is in. -/
def indexOfDay (dayOfYear : ℤ) : ℤ := (5 * dayOfYear + 2) / 153

/-- The month of a year that begins with January. -/
def monthOfIndex (index : ℤ) : ℤ := if index < 10 then index + 3 else index - 9

/-- The year a month of a year that begins with March is in. -/
def yearOfMonth (year month : ℤ) : ℤ := if month ≤ 2 then year + 1 else year

theorem monthIndex_monthOfIndex {index : ℤ} (h : 0 ≤ index ∧ index ≤ 11) :
    monthIndex (monthOfIndex index) = index := by
  unfold monthIndex monthOfIndex
  split <;> split <;> omega

theorem monthOfIndex_monthIndex {month : ℤ} (h : 1 ≤ month ∧ month ≤ 12) :
    monthOfIndex (monthIndex month) = month := by
  unfold monthIndex monthOfIndex
  split <;> split <;> omega

theorem monthOfIndex_mem {index : ℤ} (h : 0 ≤ index ∧ index ≤ 11) :
    1 ≤ monthOfIndex index ∧ monthOfIndex index ≤ 12 := by
  unfold monthOfIndex
  split <;> omega

/-- A month ends where the next one begins, and February with its year. -/
theorem monthStart_add_daysInMonth (year : ℤ) {index : ℤ} (h : 0 ≤ index ∧ index ≤ 11) :
    monthStart index + daysInMonth (yearOfMonth year (monthOfIndex index)) (monthOfIndex index) =
      if index = 11 then if IsLeap (year + 1) then 366 else 365 else monthStart (index + 1) := by
  by_cases hlast : index = 11
  · subst hlast
    show monthStart 11 + (if IsLeap (year + 1) then 29 else 28) = if IsLeap (year + 1) then 366 else 365
    split <;> rfl
  · have hcases : index = 0 ∨ index = 1 ∨ index = 2 ∨ index = 3 ∨ index = 4 ∨ index = 5 ∨ index = 6 ∨
        index = 7 ∨ index = 8 ∨ index = 9 ∨ index = 10 := by omega
    rw [if_neg hlast]
    obtain rfl | rfl | rfl | rfl | rfl | rfl | rfl | rfl | rfl | rfl | rfl := hcases <;> rfl

/-- A day is in the month that its count begins with. -/
theorem indexOfDay_add {index day : ℤ} (hday : 0 ≤ day ∧ monthStart index + day < monthStart (index + 1)) :
    indexOfDay (monthStart index + day) = index := by
  unfold indexOfDay monthStart at *
  omega

/-- The month of a day begins before it and the next one behind it. -/
theorem indexOfDay_mem (dayOfYear : ℤ) : monthStart (indexOfDay dayOfYear) ≤ dayOfYear ∧
    dayOfYear < monthStart (indexOfDay dayOfYear + 1) := by
  unfold indexOfDay monthStart
  omega

theorem isLeap_add (year era : ℤ) : IsLeap (year + era * 400 + 1) ↔ IsLeap (year + 1) := by
  unfold IsLeap
  omega

/-- A day of a year that begins with March is a day of its month. -/
theorem DayOf.mem_month {year day : ℤ} (h : DayOf year day) (era : ℤ) :
    (0 ≤ indexOfDay day ∧ indexOfDay day ≤ 11) ∧ 1 ≤ day - monthStart (indexOfDay day) + 1 ∧
      day - monthStart (indexOfDay day) + 1 ≤ daysInMonth
        (yearOfMonth (year + era * 400) (monthOfIndex (indexOfDay day))) (monthOfIndex (indexOfDay day)) := by
  obtain ⟨hle, hlt⟩ := indexOfDay_mem day
  have hday := h.day_mem
  have hindex : 0 ≤ indexOfDay day ∧ indexOfDay day ≤ 11 := by
    unfold indexOfDay
    omega
  have hlength := monthStart_add_daysInMonth (year + era * 400) hindex
  refine ⟨hindex, by omega, ?_⟩
  split at hlength
  · split at hlength <;> rename_i hleap
    · omega
    · have hlast : day ≠ 365 := fun hlast => hleap ((isLeap_add year era).mpr (h.leap hlast))
      omega
  · omega

/-- A day of a year is a day of its era. -/
theorem DayOf.mem_era {year day : ℤ} (h : DayOf year day) :
    0 ≤ yearStart year + day ∧ yearStart year + day < 146097 := by
  obtain ⟨hyear, hday, -⟩ := h
  unfold yearStart
  omega

section

variable (days : ℤ)

/-- The era of a day. -/
def eraOf : ℤ := (days + 719468) / 146097

def dayOfEra : ℤ := (days + 719468) % 146097

def dayOfYear : ℤ := dayOfEra days - yearStart (yearOfEra (dayOfEra days))

theorem dayOf_dayOfYear : DayOf (yearOfEra (dayOfEra days)) (dayOfYear days) := by
  have hmem : 0 ≤ dayOfEra days ∧ dayOfEra days < 146097 := by
    unfold dayOfEra
    omega
  obtain ⟨year, day, hday, heq⟩ := exists_dayOf hmem
  have hrest : yearStart year + day - yearStart year = day := by omega
  rwa [dayOfYear, heq, yearOfEra_add hday, hrest]

/-- The date so many days after 1970-01-01. -/
def ofDays : Date where
  year := yearOfMonth (yearOfEra (dayOfEra days) + eraOf days * 400)
    (monthOfIndex (indexOfDay (dayOfYear days)))
  month := monthOfIndex (indexOfDay (dayOfYear days))
  day := dayOfYear days - monthStart (indexOfDay (dayOfYear days)) + 1
  month_mem := monthOfIndex_mem ((dayOf_dayOfYear days).mem_month 0).1
  day_mem := ((dayOf_dayOfYear days).mem_month (eraOf days)).2

end

/-- The year that begins with March that a month of a year is in. -/
def marchYear (year month : ℤ) : ℤ := if month ≤ 2 then year - 1 else year

theorem marchYear_yearOfMonth (year month : ℤ) : marchYear (yearOfMonth year month) month = year := by
  unfold marchYear yearOfMonth
  split <;> omega

theorem yearOfMonth_marchYear (year month : ℤ) : yearOfMonth (marchYear year month) month = year := by
  unfold marchYear yearOfMonth
  split <;> omega

theorem daysFromCivil_eq (year month day : ℤ) : daysFromCivil year month day =
    marchYear year month / 400 * 146097 +
      (yearStart (marchYear year month - marchYear year month / 400 * 400) +
        (monthStart (monthIndex month) + day - 1)) - 719468 := rfl

/-- The date of a day is as many days after 1970-01-01. -/
theorem days_ofDays (days : ℤ) : (ofDays days).days = days := by
  have hday := dayOf_dayOfYear days
  have hyear := hday.year_mem
  have hera : (yearOfEra (dayOfEra days) + eraOf days * 400) / 400 = eraOf days := by omega
  rw [Date.days, daysFromCivil_eq, ofDays]
  dsimp only
  rw [marchYear_yearOfMonth, hera, monthIndex_monthOfIndex (hday.mem_month 0).1, Int.add_sub_cancel]
  unfold dayOfYear dayOfEra eraOf
  omega

theorem monthIndex_mem {month : ℤ} (h : 1 ≤ month ∧ month ≤ 12) :
    0 ≤ monthIndex month ∧ monthIndex month ≤ 11 := by
  unfold monthIndex
  split <;> omega

/-- A month of a year is one of the year that begins with March. -/
theorem monthStart_monthIndex_add (year : ℤ) {month : ℤ} (h : 1 ≤ month ∧ month ≤ 12) :
    monthStart (monthIndex month) + daysInMonth year month =
      if monthIndex month = 11 then if IsLeap (marchYear year month + 1) then 366 else 365
      else monthStart (monthIndex month + 1) := by
  have hlength := monthStart_add_daysInMonth (marchYear year month) (monthIndex_mem h)
  rwa [monthOfIndex_monthIndex h, yearOfMonth_marchYear] at hlength

section

variable (date : Date)

/-- A date is a day of the year that begins with March. -/
theorem Date.dayOf : DayOf (marchYear date.year date.month % 400)
    (monthStart (monthIndex date.month) + date.day - 1) := by
  have hday := date.day_mem
  have hindex := monthIndex_mem date.month_mem
  have hlength := monthStart_monthIndex_add date.year date.month_mem
  have hleap := isLeap_add (marchYear date.year date.month % 400) (marchYear date.year date.month / 400)
  rw [Int.emod_add_ediv_mul (marchYear date.year date.month) 400] at hleap
  have hstart : 0 ≤ monthStart (monthIndex date.month) := by
    unfold monthStart
    omega
  refine ⟨by omega, ?_, fun hlast => ?_⟩
  · split at hlength
    · split at hlength <;> omega
    · unfold monthStart at *
      omega
  · split at hlength
    · split at hlength <;> rename_i hyear
      · exact hleap.mp hyear
      · omega
    · unfold monthStart at *
      omega

/-- The month of a date is that of its day. -/
theorem Date.indexOfDay_eq :
    indexOfDay (monthStart (monthIndex date.month) + date.day - 1) = monthIndex date.month := by
  have hday := date.day_mem
  have hlength := monthStart_monthIndex_add date.year date.month_mem
  rw [Int.add_sub_assoc]
  refine indexOfDay_add ⟨by omega, ?_⟩
  split at hlength <;> rename_i hlast
  · rw [hlast] at hlength ⊢
    have : monthStart (11 + 1) = 367 := rfl
    split at hlength <;> omega
  · omega

end

/-- A date is the one of its day. -/
theorem ofDays_days (date : Date) : ofDays date.days = date := by
  have hday := date.dayOf
  have hyear : marchYear date.year date.month - marchYear date.year date.month / 400 * 400 =
      marchYear date.year date.month % 400 := by omega
  obtain ⟨hnonneg, hlt⟩ := hday.mem_era
  have hdays : date.days + 719468 = marchYear date.year date.month / 400 * 146097 +
      (yearStart (marchYear date.year date.month % 400) +
        (monthStart (monthIndex date.month) + date.day - 1)) := by
    rw [Date.days, daysFromCivil_eq, hyear]
    omega
  have hera : eraOf date.days = marchYear date.year date.month / 400 := by
    rw [eraOf, hdays]
    omega
  have hdayOfEra : dayOfEra date.days = yearStart (marchYear date.year date.month % 400) +
      (monthStart (monthIndex date.month) + date.day - 1) := by
    rw [dayOfEra, hdays]
    omega
  have hyearOfEra : yearOfEra (dayOfEra date.days) = marchYear date.year date.month % 400 := by
    rw [hdayOfEra, yearOfEra_add hday]
  have hdayOfYear : dayOfYear date.days = monthStart (monthIndex date.month) + date.day - 1 := by
    rw [dayOfYear, hyearOfEra, hdayOfEra]
    omega
  have hindex : indexOfDay (dayOfYear date.days) = monthIndex date.month := by
    rw [hdayOfYear, date.indexOfDay_eq]
  have hmonth : (ofDays date.days).month = date.month := by
    rw [ofDays]
    dsimp only
    rw [hindex, monthOfIndex_monthIndex date.month_mem]
  ext
  · rw [ofDays]
    dsimp only
    rw [hindex, monthOfIndex_monthIndex date.month_mem, hyearOfEra, hera, Int.emod_add_ediv_mul,
      yearOfMonth_marchYear]
  · exact hmonth
  · rw [ofDays]
    dsimp only
    rw [hindex, hdayOfYear]
    omega

/-! ## The following day -/

theorem days_epoch : epoch.days = 0 := rfl

/-- A day of the same month. -/
theorem daysFromCivil_add (year month day : ℤ) :
    daysFromCivil year month (day + 1) = daysFromCivil year month day + 1 := by
  rw [daysFromCivil_eq, daysFromCivil_eq]
  omega

/-- The first of March follows the last of February. -/
theorem daysFromCivil_march (year : ℤ) :
    daysFromCivil year 3 1 = daysFromCivil year 2 (daysInMonth year 2) + 1 := by
  have hlength : daysInMonth year 2 = if IsLeap year then 29 else 28 := rfl
  have hmarch : daysFromCivil year 3 1 =
      year / 400 * 146097 + yearStart (year - year / 400 * 400) - 719468 := by
    rw [daysFromCivil_eq]
    show year / 400 * 146097 + (yearStart (year - year / 400 * 400) + 0) - 719468 = _
    rw [Int.add_zero]
  rw [hmarch, daysFromCivil_eq]
  show _ = (year - 1) / 400 * 146097 + (yearStart (year - 1 - (year - 1) / 400 * 400) +
    (337 + daysInMonth year 2 - 1)) - 719468 + 1
  rw [hlength]
  unfold yearStart
  split <;> rename_i hleap <;> unfold IsLeap at hleap <;> omega

/-- The first of a month follows the last of the one before, in the same year that begins with March. -/
theorem daysFromCivil_first {year month nextYear nextMonth : ℤ} (h : 1 ≤ month ∧ month ≤ 12)
    (hyear : marchYear nextYear nextMonth = marchYear year month)
    (hindex : monthIndex nextMonth = monthIndex month + 1) (hlast : monthIndex month ≠ 11) :
    daysFromCivil nextYear nextMonth 1 = daysFromCivil year month (daysInMonth year month) + 1 := by
  have hlength := monthStart_monthIndex_add year h
  rw [if_neg hlast] at hlength
  rw [daysFromCivil_eq, daysFromCivil_eq, hyear, hindex]
  omega

/-- The day after a date has the following number. -/
theorem days_next (date : Date) : date.next.days = date.days + 1 := by
  have hday := date.day_mem
  have hmem := date.month_mem
  unfold Date.next
  split
  · exact daysFromCivil_add _ _ _
  · rename_i hlast
    have hend : date.days =
        daysFromCivil date.year date.month (daysInMonth date.year date.month) := by
      rw [Date.days, show date.day = daysInMonth date.year date.month by omega]
    rw [hend]
    split
    · rename_i hmonth
      show daysFromCivil date.year (date.month + 1) 1 = _
      by_cases hfebruary : date.month = 2
      · rw [hfebruary]
        exact daysFromCivil_march date.year
      · refine daysFromCivil_first hmem ?_ ?_ ?_
        · unfold marchYear
          split <;> split <;> omega
        · unfold monthIndex
          split <;> split <;> omega
        · unfold monthIndex
          split <;> omega
    · have hdecember : date.month = 12 := by omega
      show daysFromCivil (date.year + 1) 1 1 = _
      rw [hdecember]
      refine daysFromCivil_first ⟨by decide, by decide⟩ ?_ rfl (by decide)
      show date.year + 1 - 1 = date.year
      omega

/-- A sequence of dates in which 1970-01-01 has the number 0 and each date is followed by the next one is
`ofDays`. -/
theorem ofDays_unique {date : ℤ → Date} (hepoch : date 0 = epoch)
    (hnext : ∀ days, date (days + 1) = (date days).next) (days : ℤ) : date days = ofDays days := by
  have hdays : (date days).days = days := by
    induction days using Int.induction_on with
    | zero => rw [hepoch, days_epoch]
    | succ n ih => rw [hnext, days_next, ih]
    | pred n ih =>
      have hstep := hnext (-n - 1)
      rw [Int.sub_add_cancel] at hstep
      rw [hstep, days_next] at ih
      omega
  rw [← ofDays_days (date days), hdays]

end Gregorian
