import EkEk.Lib.Gregorian
import EkEk.Lib.Overflow

/-!
# The date of a time

Reference: `crates/ek-ek-config/src/i18n.rs`, `civil`.

The interface shows a time as a date without a calendar library. No step of the conversion leaves a word of
64 bits, and the date is the one of the calendar, also before 1970 and at the ends of what a word counts.
-/

namespace EkEk.I18n

open Overflow (Fits add sub mul add_of_fits sub_of_fits add_bind sub_bind mul_bind)
open Gregorian

/-- Splits a Unix timestamp into year, month, day, hour and minute in UTC. There is no result where an
operation overflows; `/` and `%` are `div_euclid` and `rem_euclid`. -/
def civil (unixSeconds : ℤ) : Option (ℤ × ℤ × ℤ × ℤ × ℤ) := do
  let days := unixSeconds / 86400
  let timeOfDay := unixSeconds % 86400
  -- The epoch is shifted to 0000-03-01, so that a leap day is the last of a cycle.
  let shifted ← add 63 days 719468
  let era := shifted / 146097
  let dayOfEra := shifted % 146097
  let yearOfEra := (← sub 63 (← add 63 (← sub 63 dayOfEra (dayOfEra.tdiv 1460)) (dayOfEra.tdiv 36524))
    (dayOfEra.tdiv 146096)).tdiv 365
  let year ← add 63 yearOfEra (← mul 63 era 400)
  let dayOfYear ← sub 63 dayOfEra
    (← sub 63 (← add 63 (← mul 63 365 yearOfEra) (yearOfEra.tdiv 4)) (yearOfEra.tdiv 100))
  let monthIndex := (← add 63 (← mul 63 5 dayOfYear) 2).tdiv 153
  let day ← add 63 (← sub 63 dayOfYear ((← add 63 (← mul 63 153 monthIndex) 2).tdiv 5)) 1
  let month ← (if monthIndex < 10 then add 63 monthIndex 3 else sub 63 monthIndex 9)
  let year ← (if month ≤ 2 then add 63 year 1 else some year)
  some (year, month, day, timeOfDay.tdiv 3600, (timeOfDay.tmod 3600).tdiv 60)

/-- The conversion goes through, and its date is the one of the calendar. -/
theorem civil_ofDays {unixSeconds : ℤ} (h : Fits 63 unixSeconds) :
    civil unixSeconds = some ((ofDays (unixSeconds / 86400)).year, (ofDays (unixSeconds / 86400)).month,
      (ofDays (unixSeconds / 86400)).day, unixSeconds % 86400 / 3600, unixSeconds % 86400 % 3600 / 60) := by
  obtain ⟨hlow, hhigh⟩ := h
  have hdays : -2 ^ 50 ≤ unixSeconds / 86400 ∧ unixSeconds / 86400 ≤ 2 ^ 50 := by omega
  have htime : 0 ≤ unixSeconds % 86400 := by omega
  unfold civil
  dsimp only
  generalize unixSeconds / 86400 = days at hdays
  generalize unixSeconds % 86400 = timeOfDay at htime
  have hday := dayOf_dayOfYear days
  have hmonths := (hday.mem_month 0).1
  obtain ⟨hyears, hdaysOfYear, -⟩ := hday
  have heras : -2 ^ 50 ≤ eraOf days ∧ eraOf days ≤ 2 ^ 50 := by
    unfold eraOf
    omega
  have hera : 0 ≤ dayOfEra days ∧ dayOfEra days < 146097 := by
    unfold dayOfEra
    omega
  -- The era and its day.
  rw [add_bind ⟨by omega, by omega⟩, show (days + 719468) / 146097 = eraOf days from rfl,
    show (days + 719468) % 146097 = dayOfEra days from rfl]
  -- The year of the era.
  rw [Int.tdiv_eq_ediv_of_nonneg hera.1, Int.tdiv_eq_ediv_of_nonneg hera.1,
    Int.tdiv_eq_ediv_of_nonneg hera.1, sub_bind ⟨by omega, by omega⟩, add_bind ⟨by omega, by omega⟩,
    sub_bind ⟨by omega, by omega⟩, Int.tdiv_eq_ediv_of_nonneg (by omega)]
  rw [← yearOfEra, mul_bind ⟨by omega, by omega⟩, add_bind ⟨by omega, by omega⟩]
  -- The day of the year.
  rw [Int.tdiv_eq_ediv_of_nonneg hyears.1, Int.tdiv_eq_ediv_of_nonneg hyears.1,
    mul_bind ⟨by omega, by omega⟩, add_bind ⟨by omega, by omega⟩, sub_bind ⟨by omega, by omega⟩,
    sub_bind ⟨by omega, by omega⟩, ← yearStart, ← dayOfYear]
  -- The month and its day.
  rw [mul_bind ⟨by omega, by omega⟩, add_bind ⟨by omega, by omega⟩,
    Int.tdiv_eq_ediv_of_nonneg (by omega), ← indexOfDay]
  rw [mul_bind ⟨by omega, by omega⟩, add_bind ⟨by omega, by omega⟩,
    Int.tdiv_eq_ediv_of_nonneg (by omega), sub_bind ⟨by omega, by omega⟩,
    add_bind ⟨by omega, by omega⟩, ← monthStart]
  -- The time of the day.
  rw [Int.tmod_eq_emod_of_nonneg htime, Int.tdiv_eq_ediv_of_nonneg htime,
    Int.tdiv_eq_ediv_of_nonneg (by omega)]
  -- The month and the year that begin with January.
  have hmonth : (if indexOfDay (dayOfYear days) < 10 then add 63 (indexOfDay (dayOfYear days)) 3
      else sub 63 (indexOfDay (dayOfYear days)) 9) = some (monthOfIndex (indexOfDay (dayOfYear days))) := by
    unfold monthOfIndex
    split
    · exact add_of_fits ⟨by omega, by omega⟩
    · exact sub_of_fits ⟨by omega, by omega⟩
  have hyear (month : ℤ) : (if month ≤ 2 then add 63 (yearOfEra (dayOfEra days) + eraOf days * 400) 1
      else some (yearOfEra (dayOfEra days) + eraOf days * 400)) =
        some (yearOfMonth (yearOfEra (dayOfEra days) + eraOf days * 400) month) := by
    unfold yearOfMonth
    split
    · exact add_of_fits ⟨by omega, by omega⟩
    · rfl
  rw [hmonth, Option.bind_eq_bind, Option.bind_some, hyear, Option.bind_some]
  rfl

/-- The dates are those of any calendar in which 1970-01-01 is day 0 and each date is followed by the next. -/
theorem civil_calendar {date : ℤ → Date} (hepoch : date 0 = epoch)
    (hnext : ∀ days, date (days + 1) = (date days).next) {unixSeconds : ℤ} (h : Fits 63 unixSeconds) :
    civil unixSeconds = some ((date (unixSeconds / 86400)).year, (date (unixSeconds / 86400)).month,
      (date (unixSeconds / 86400)).day, unixSeconds % 86400 / 3600, unixSeconds % 86400 % 3600 / 60) := by
  rw [ofDays_unique hepoch hnext, civil_ofDays h]

/-- No step of the conversion overflows, and it gives the date and the time of the instant: the month is one
of the year, the day one of the month, the days up to the date are the days up to the instant, and the hour
and the minute are those of the rest. -/
theorem civil_spec {unixSeconds : ℤ} (h : Fits 63 unixSeconds) : ∃ year month day : ℤ,
    civil unixSeconds =
      some (year, month, day, unixSeconds % 86400 / 3600, unixSeconds % 86400 % 3600 / 60) ∧
    (1 ≤ month ∧ month ≤ 12) ∧ (1 ≤ day ∧ day ≤ daysInMonth year month) ∧
    daysFromCivil year month day = unixSeconds / 86400 :=
  ⟨_, _, _, civil_ofDays h, (ofDays _).month_mem, (ofDays _).day_mem, days_ofDays _⟩

example : civil (-1) = some (1969, 12, 31, 23, 59) := by decide

example : civil (-2 ^ 63) = some (-292277022657, 1, 27, 8, 29) := by decide

/-- The last second of the year before 1970. -/
theorem civil_before_epoch : Fits 63 (-1) ∧ ∃ year month day : ℤ,
    civil (-1) = some (year, month, day, -1 % 86400 / 3600, -1 % 86400 % 3600 / 60) ∧
    (1 ≤ month ∧ month ≤ 12) ∧ (1 ≤ day ∧ day ≤ daysInMonth year month) ∧
    daysFromCivil year month day = -1 / 86400 :=
  ⟨by decide, civil_spec (by decide)⟩

end EkEk.I18n
