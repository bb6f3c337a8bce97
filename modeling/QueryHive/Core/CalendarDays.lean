import QueryHive.Core.Calendar
import QueryHive.Library.Machine
import QueryHive.Library.MarchYear

/-! Consecutive day numbers are consecutive days of the Gregorian calendar. `civil_from_days` finds
the year of a day by taking the leap days off the days of its era; that this is the right year to
the last day of each is what makes its dates those of the calendar. -/
namespace QueryHive.Core
open QueryHive.Library.MarchYear QueryHive.Library.Machine

/-- The day number of the first of March. -/
def gregorianStart (year : Int) : Int := 365 * year + year / 4 - year / 100 + year / 400 - 719468

theorem gregorianLeap_iff (year : Int) :
    gregorianLeap year = true ↔ year % 4 = 0 ∧ (year % 100 ≠ 0 ∨ year % 400 = 0) := by
  simp [gregorianLeap]

/-- The leap days counted in a day of the era are those of the years before its own: the end of
the year can reach the next multiple of 1460, and then the day before it is left out too. -/
theorem yearOfEra_of_day {year dayOfYear : Int} (first : 0 ≤ year) (last : year ≤ 399) (lower : 0 ≤ dayOfYear)
    (upper : dayOfYear ≤ lastDay gregorianLeap year) :
    yearOfEra (365 * year + year / 4 - year / 100 + dayOfYear) = year := by
  obtain ⟨century, fourth, rest, rfl, hc, hf, hr⟩ : ∃ century fourth rest : Int,
      year = 100 * century + 4 * fourth + rest ∧ (0 ≤ century ∧ century ≤ 3) ∧ (0 ≤ fourth ∧ fourth ≤ 24) ∧
      0 ≤ rest ∧ rest ≤ 3 :=
    ⟨year / 100, year % 100 / 4, year % 4, by omega, by omega, by omega, by omega⟩
  have days : 365 * (100 * century + 4 * fourth + rest) + (100 * century + 4 * fourth + rest) / 4 -
      (100 * century + 4 * fourth + rest) / 100 + dayOfYear =
      36524 * century + 1461 * fourth + 365 * rest + dayOfYear := by omega
  have leap : dayOfYear ≤ 364 ∨ dayOfYear = 365 ∧ rest = 3 ∧ (fourth < 24 ∨ century = 3) := by
    rw [lastDay] at upper
    by_cases leap : gregorianLeap (100 * century + 4 * fourth + rest + 1) = true
    · rw [if_pos leap] at upper
      rw [gregorianLeap_iff] at leap
      omega
    · rw [if_neg leap] at upper
      exact .inl upper
  rw [days, yearOfEra]
  by_cases end_of_era : dayOfYear = 365 ∧ rest = 3 ∧ fourth = 24 ∧ century = 3
  · obtain ⟨rfl, rfl, rfl, rfl⟩ := end_of_era
    rfl
  · have centuries : (36524 * century + 1461 * fourth + 365 * rest + dayOfYear) / 36524 = century := by omega
    have era : (36524 * century + 1461 * fourth + 365 * rest + dayOfYear) / 146096 = 0 := by omega
    rw [centuries, era]
    rcases Int.lt_or_le (24 * century + fourth + 365 * rest + dayOfYear) 1460 with inside | past
    · have leaps : (36524 * century + 1461 * fourth + 365 * rest + dayOfYear) / 1460 = 25 * century + fourth := by
        omega
      omega
    · have leaps : (36524 * century + 1461 * fourth + 365 * rest + dayOfYear) / 1460 = 25 * century + fourth + 1 := by
        omega
      omega

theorem civilFromDays_of_march {year dayOfYear : Int} (lower : 0 ≤ dayOfYear)
    (upper : dayOfYear ≤ lastDay gregorianLeap year) :
    civilFromDays (gregorianStart year + dayOfYear) = marchDate year dayOfYear := by
  have bounds := lastDay_bounds gregorianLeap year
  have same_length : lastDay gregorianLeap (year % 400) = lastDay gregorianLeap year := by
    have leap : gregorianLeap (year % 400 + 1) = gregorianLeap (year + 1) := by
      rw [Bool.eq_iff_iff, gregorianLeap_iff, gregorianLeap_iff]
      omega
    rw [lastDay, lastDay, leap]
  have ofEra := yearOfEra_of_day (by omega : 0 ≤ year % 400) (by omega) lower (by rw [same_length]; exact upper)
  have inside : 0 ≤ 365 * (year % 400) + year % 400 / 4 - year % 400 / 100 + dayOfYear ∧
      365 * (year % 400) + year % 400 / 4 - year % 400 / 100 + dayOfYear < 146097 := by
    rw [lastDay] at upper
    by_cases leap : gregorianLeap (year + 1) = true
    · rw [if_pos leap] at upper
      rw [gregorianLeap_iff] at leap
      omega
    · rw [if_neg leap] at upper
      omega
  have days : gregorianStart year + dayOfYear + 719468 = year / 400 * 146097 +
      (365 * (year % 400) + year % 400 / 4 - year % 400 / 100 + dayOfYear) := by
    have fourths : year / 4 = 100 * (year / 400) + year % 400 / 4 := by omega
    have centuries : year / 100 = 4 * (year / 400) + year % 400 / 100 := by omega
    rw [gregorianStart]
    omega
  have era : (gregorianStart year + dayOfYear + 719468) / 146097 = year / 400 := by omega
  have fold : ∀ day : Int, (day - day / 1460 + day / 36524 - day / 146096) / 365 = yearOfEra day := fun _ => rfl
  have dayOfEra : gregorianStart year + dayOfYear + 719468 - year / 400 * 146097 =
      365 * (year % 400) + year % 400 / 4 - year % 400 / 100 + dayOfYear := by omega
  have day : 365 * (year % 400) + year % 400 / 4 - year % 400 / 100 + dayOfYear -
      (365 * (year % 400) + year % 400 / 4 - year % 400 / 100) = dayOfYear := by omega
  simp only [civilFromDays, era_of_days, era, dayOfEra, fold, ofEra, day, marchDate]
  refine Prod.ext ?_ rfl
  simp only
  split <;> split <;> omega

theorem gregorian_numbers : Numbers gregorianLeap gregorianStart civilFromDays where
  whole := by
    intro year
    simp only [gregorianStart, lastDay]
    by_cases leap : gregorianLeap (year + 1) = true
    · rw [if_pos leap]
      rw [gregorianLeap_iff] at leap
      omega
    · rw [if_neg leap]
      rw [gregorianLeap_iff] at leap
      omega
  dated _ _ := civilFromDays_of_march

/-- `civil_from_days`, in the arithmetic of the code. -/
def civilFromDays64 (days : Int64) : Int64 × UInt32 × UInt32 :=
  let days := days + 719468
  let era := (if days ≥ 0 then days else days - 146096) / 146097
  let dayOfEra := days - era * 146097
  let yearOfEra := (dayOfEra - dayOfEra / 1460 + dayOfEra / 36524 - dayOfEra / 146096) / 365
  let year := yearOfEra + era * 400
  let dayOfYear := dayOfEra - (365 * yearOfEra + yearOfEra / 4 - yearOfEra / 100)
  let monthPrime := (5 * dayOfYear + 2) / 153
  let day := dayOfYear - (153 * monthPrime + 2) / 5 + 1
  let month := if monthPrime < 10 then monthPrime + 3 else monthPrime - 9
  (if month ≤ 2 then year + 1 else year, asU32 month, asU32 day)

def numbersOf (date : Int64 × UInt32 × UInt32) : Int × Nat × Nat :=
  (date.1.toInt, date.2.1.toNat, date.2.2.toNat)

theorem civilFromDays64_eq {days : Int64} (room : days.toInt + 719468 < 9223372036854775808) :
    numbersOf (civilFromDays64 days) = civilFromDays days.toInt := by
  obtain ⟨least, most⟩ := inRange_toInt days
  unfold civilFromDays64 civilFromDays
  extract_lets shifted era dayOfEra ofEra year dayOfYear monthPrime day month
    nShifted nEra nDayOfEra nOfEra nYear nDayOfYear nMonthPrime nDay nMonth
  have floor : nEra = nShifted / 146097 := era_of_days nShifted
  have inEra : 0 ≤ nDayOfEra ∧ nDayOfEra ≤ 146096 := by
    have split : nDayOfEra = nShifted - nEra * 146097 := rfl
    omega
  have bounds : 0 ≤ nOfEra ∧ nOfEra ≤ 399 ∧ 0 ≤ nDayOfYear ∧ nDayOfYear ≤ 365 := dayOfYear_bounds inEra.1 inEra.2
  have shifted_holds : Holds shifted nShifted := holds_add rfl (holds_literal 719468 719468 rfl) ⟨by omega, room⟩
  have era_holds : Holds era nEra := by
    refine holds_tdiv (holds_ite (le_iff rfl shifted_holds) (fun _ => shifted_holds) fun negative => ?_) rfl (by decide)
    exact holds_sub shifted_holds rfl ⟨by omega, by omega⟩
  have dayOfEra_holds : Holds dayOfEra nDayOfEra :=
    holds_sub shifted_holds (holds_mul era_holds rfl ⟨by omega, by omega⟩) ⟨by omega, by omega⟩
  have ofEra_holds : Holds ofEra nOfEra := by
    have leaps := holds_sub dayOfEra_holds (holds_div dayOfEra_holds (holds_literal 1460 1460 rfl) inEra.1 (by decide))
      ⟨by omega, by omega⟩
    have centuries := holds_add leaps (holds_div dayOfEra_holds (holds_literal 36524 36524 rfl) inEra.1 (by decide))
      ⟨by omega, by omega⟩
    have era := holds_sub centuries (holds_div dayOfEra_holds (holds_literal 146096 146096 rfl) inEra.1 (by decide))
      ⟨by omega, by omega⟩
    exact holds_div era rfl (by omega) (by decide)
  have year_holds : Holds year nYear :=
    holds_add ofEra_holds (holds_mul era_holds rfl ⟨by omega, by omega⟩) ⟨by omega, by omega⟩
  have dayOfYear_holds : Holds dayOfYear nDayOfYear := by
    have whole := holds_mul (holds_literal 365 365 rfl) ofEra_holds ⟨by omega, by omega⟩
    have leaps := holds_add whole
      (holds_div ofEra_holds (holds_literal 4 4 rfl) bounds.1 (by decide)) ⟨by omega, by omega⟩
    have centuries := holds_sub leaps (holds_div ofEra_holds (holds_literal 100 100 rfl) bounds.1 (by decide))
      ⟨by omega, by omega⟩
    exact holds_sub dayOfEra_holds centuries ⟨by omega, by omega⟩
  have monthPrime_holds : Holds monthPrime nMonthPrime := by
    have numerator := holds_add (holds_mul (holds_literal 5 5 rfl) dayOfYear_holds ⟨by omega, by omega⟩)
      (holds_literal 2 2 rfl) ⟨by omega, by omega⟩
    exact holds_div numerator rfl (by omega) (by decide)
  have prime : 0 ≤ nMonthPrime ∧ nMonthPrime ≤ 11 := by omega
  have day_holds : Holds day nDay := by
    have numerator := holds_add (holds_mul (holds_literal 153 153 rfl) monthPrime_holds ⟨by omega, by omega⟩)
      (holds_literal 2 2 rfl) ⟨by omega, by omega⟩
    have first := holds_div numerator (holds_literal 5 5 rfl) (by omega) (by decide)
    exact holds_add (holds_sub dayOfYear_holds first ⟨by omega, by omega⟩) rfl ⟨by omega, by omega⟩
  have month_holds : Holds month nMonth :=
    holds_ite (lt_iff monthPrime_holds rfl) (fun _ => holds_add monthPrime_holds rfl ⟨by omega, by omega⟩)
      (fun _ => holds_sub monthPrime_holds rfl ⟨by omega, by omega⟩)
  have month_bounds : 0 ≤ nMonth ∧ nMonth ≤ 12 := by
    have cases : nMonth = if nMonthPrime < 10 then nMonthPrime + 3 else nMonthPrime - 9 := rfl
    split at cases <;> omega
  have day_bounds : 0 ≤ nDay ∧ nDay ≤ 400 := by
    have cases : nDay = nDayOfYear - (153 * nMonthPrime + 2) / 5 + 1 := rfl
    omega
  have years : -9223372036854775808 ≤ nYear ∧ nYear < 9223372036854775807 := by
    have split : nYear = nOfEra + nEra * 400 := rfl
    omega
  clear_value year month day nYear nMonth nDay
  refine Prod.ext ?_ (Prod.ext ?_ ?_)
  · exact holds_ite (le_iff month_holds rfl) (fun _ => holds_add year_holds rfl ⟨by omega, by omega⟩)
      (fun _ => year_holds)
  · exact toNat_asU32 month_holds month_bounds.1 (by omega)
  · exact toNat_asU32 day_holds day_bounds.1 (by omega)

end QueryHive.Core
