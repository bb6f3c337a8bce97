import Mathlib.Data.List.Basic

/-! Days since the Unix epoch and civil dates, both ways. The decoders turn a
printed date into a day number and the renderer turns it back, over eras of 400
years that begin in March; going from a day number to its date and back again
changes nothing. -/
namespace QueryHive.Core

/-- `days_from_civil`, of which every driver keeps the same copy. -/
def daysFromCivil (year : Int) (month day : Nat) : Int :=
  let year := if month ≤ 2 then year - 1 else year
  let era := (if 0 ≤ year then year else year - 399).tdiv 400
  let yearOfEra := year - era * 400
  let monthPrime : Int := if month > 2 then (month : Int) - 3 else month + 9
  let dayOfYear := (153 * monthPrime + 2) / 5 + day - 1
  let dayOfEra := yearOfEra * 365 + yearOfEra / 4 - yearOfEra / 100 + dayOfYear
  era * 146097 + dayOfEra - 719468

/-- `civil_from_days`: the year, month and day of a day number. -/
def civilFromDays (days : Int) : Int × Nat × Nat :=
  let days := days + 719468
  let era := (if 0 ≤ days then days else days - 146096).tdiv 146097
  let dayOfEra := days - era * 146097
  let yearOfEra := (dayOfEra - dayOfEra / 1460 + dayOfEra / 36524 - dayOfEra / 146096) / 365
  let year := yearOfEra + era * 400
  let dayOfYear := dayOfEra - (365 * yearOfEra + yearOfEra / 4 - yearOfEra / 100)
  let monthPrime := (5 * dayOfYear + 2) / 153
  let day := dayOfYear - (153 * monthPrime + 2) / 5 + 1
  let month := if monthPrime < 10 then monthPrime + 3 else monthPrime - 9
  (if month ≤ 2 then year + 1 else year, month.toNat, day.toNat)

/-- Truncating a negative number after the shift rounds it down. -/
private theorem era_of_year (year : Int) : (if 0 ≤ year then year else year - 399).tdiv 400 = year / 400 := by
  rw [Int.tdiv_eq_ediv]
  have sign : Int.sign 400 = 1 := rfl
  split <;> split <;> omega

theorem era_of_days (days : Int) :
    (if 0 ≤ days then days else days - 146096).tdiv 146097 = days / 146097 := by
  rw [Int.tdiv_eq_ediv]
  have sign : Int.sign 146097 = 1 := rfl
  split <;> split <;> omega

def yearOfEra (dayOfEra : Int) : Int :=
  (dayOfEra - dayOfEra / 1460 + dayOfEra / 36524 - dayOfEra / 146096) / 365

variable {dayOfEra : Int}

private theorem century_of_day (lower : 0 ≤ dayOfEra) (upper : dayOfEra < 146096) :
    dayOfEra / 36524 = 0 ∨ dayOfEra / 36524 = 1 ∨ dayOfEra / 36524 = 2 ∨ dayOfEra / 36524 = 3 := by
  omega

private theorem yearOfEra_eq (lower : 0 ≤ dayOfEra) (upper : dayOfEra < 146096) :
    yearOfEra dayOfEra = (dayOfEra - dayOfEra / 1460 + dayOfEra / 36524) / 365 := by
  rw [yearOfEra, Int.ediv_eq_zero_of_lt lower upper, Int.sub_zero]

private theorem centuries_agree (lower : 0 ≤ dayOfEra) (upper : dayOfEra < 146096) :
    yearOfEra dayOfEra / 100 = dayOfEra / 36524 := by
  have year := yearOfEra_eq lower upper
  rcases century_of_day lower upper with century | century | century | century <;>
    rw [century] at year ⊢ <;> omega

private theorem leap_years_agree (lower : 0 ≤ dayOfEra) (upper : dayOfEra < 146096) :
    yearOfEra dayOfEra / 4 ≤ dayOfEra / 1460 ∧ dayOfEra / 1460 ≤ yearOfEra dayOfEra / 4 + 1 := by
  have year := yearOfEra_eq lower upper
  rcases century_of_day lower upper with century | century | century | century <;>
    rw [century] at year <;> omega

theorem dayOfYear_bounds (lower : 0 ≤ dayOfEra) (upper : dayOfEra ≤ 146096) :
    let year := yearOfEra dayOfEra
    let day := dayOfEra - (365 * year + year / 4 - year / 100)
    0 ≤ year ∧ year ≤ 399 ∧ 0 ≤ day ∧ day ≤ 365 := by
  rcases Int.lt_or_eq_of_le upper with inside | last
  · have year := yearOfEra_eq lower inside
    have centuries := centuries_agree lower inside
    have leaps := leap_years_agree lower inside
    refine ⟨?_, ?_, ?_, ?_⟩ <;> omega
  · subst last
    decide

/-- The date of a day inside its era: the year counted from March, and the
month and day made of what is left. -/
private theorem civilFromDays_in_era (days : Int) :
    ∃ era year day monthPrime, days + 719468 = era * 146097 + (365 * year + year / 4 - year / 100) + day ∧
      0 ≤ year ∧ year ≤ 399 ∧ 0 ≤ day ∧ day ≤ 365 ∧ monthPrime = (5 * day + 2) / 153 ∧
      civilFromDays days =
        (if monthPrime < 10 then year + era * 400 else year + era * 400 + 1,
          (if monthPrime < 10 then monthPrime + 3 else monthPrime - 9).toNat,
          (day - (153 * monthPrime + 2) / 5 + 1).toNat) := by
  have bounds := dayOfYear_bounds (by omega : 0 ≤ days + 719468 - (days + 719468) / 146097 * 146097)
    (by omega)
  refine ⟨(days + 719468) / 146097, yearOfEra _, _, _, ?_, bounds.1, bounds.2.1, bounds.2.2.1, bounds.2.2.2, rfl, ?_⟩
  · omega
  · have fold : ∀ day : Int, (day - day / 1460 + day / 36524 - day / 146096) / 365 = yearOfEra day := fun _ => rfl
    simp only [civilFromDays, era_of_days, fold]
    refine Prod.ext ?_ rfl
    have month := bounds.2.2
    generalize days + 719468 - (days + 719468) / 146097 * 146097 -
      (365 * yearOfEra _ + yearOfEra _ / 4 - yearOfEra _ / 100) = day at month ⊢
    simp only
    split <;> split <;> omega

/-- The month counted from March is one of twelve and its day one of 31. -/
theorem civilFromDays_bounds (days : Int) :
    1 ≤ (civilFromDays days).2.1 ∧ (civilFromDays days).2.1 ≤ 12 ∧
      1 ≤ (civilFromDays days).2.2 ∧ (civilFromDays days).2.2 ≤ 31 := by
  obtain ⟨era, year, day, monthPrime, -, -, -, lower, upper, month, date⟩ := civilFromDays_in_era days
  rw [date]
  refine ⟨?_, ?_, ?_, ?_⟩ <;> simp only <;> omega

theorem days_civil_days (days : Int) :
    daysFromCivil (civilFromDays days).1 (civilFromDays days).2.1 (civilFromDays days).2.2 = days := by
  obtain ⟨era, year, day, monthPrime, whole, first, last, lower, upper, month, date⟩ := civilFromDays_in_era days
  rw [date]
  clear date
  by_cases early : monthPrime < 10
  · simp only [daysFromCivil, era_of_year, if_pos early]
    split <;> split <;> omega
  · simp only [daysFromCivil, era_of_year, if_neg early]
    split <;> split <;> omega

end QueryHive.Core
