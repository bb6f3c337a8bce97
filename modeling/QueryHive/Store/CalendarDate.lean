import QueryHive.Core.CalendarDays

/-! The date a timestamp shows: Gregorian from 1582-10-15 on and Julian before it, with the years
of an era counted from one. -/
namespace QueryHive.Store.CalendarDate
open QueryHive.Core QueryHive.Library.MarchYear QueryHive.Library.Machine

/-- `GREGORIAN_START_DAYS`: 1582-10-15. -/
def gregorianStartDays : Int64 := -141427

/-- `calendar_date`. -/
def calendarDate (days : Int64) : Int64 × UInt32 × UInt32 :=
  if days ≥ gregorianStartDays then civilFromDays64 days
  else
    let e := 4 * (days + 2440588 + 1401) + 3
    let h := 5 * (remEuclid e 1461 / 4) + 2
    let month := remEuclid (divEuclid h 153 + 2) 12 + 1
    let year := divEuclid e 1461 - 4716 + divEuclid (14 - month) 12
    (if year > 0 then year else 1 - year, asU32 month, asU32 (remEuclid h 153 / 5 + 1))

def julianFromDays (days : Int) : Int × Nat × Nat :=
  let e := 4 * (days + 2440588 + 1401) + 3
  let h := 5 * (e % 1461 / 4) + 2
  let month := (h / 153 + 2) % 12 + 1
  (e / 1461 - 4716 + (14 - month) / 12, month.toNat, (h % 153 / 5 + 1).toNat)

/-- The day number of the first of March. -/
def julianStart (year : Int) : Int := 365 * year + year / 4 - 719470

theorem julianLeap_iff (year : Int) : julianLeap year = true ↔ year % 4 = 0 := by
  simp [julianLeap]

theorem julianFromDays_of_march {year dayOfYear : Int} (lower : 0 ≤ dayOfYear)
    (upper : dayOfYear ≤ lastDay julianLeap year) :
    julianFromDays (julianStart year + dayOfYear) = marchDate year dayOfYear := by
  have leap : dayOfYear ≤ 364 ∨ dayOfYear = 365 ∧ year % 4 = 3 := by
    rw [lastDay] at upper
    by_cases leap : julianLeap (year + 1) = true
    · rw [if_pos leap] at upper
      rw [julianLeap_iff] at leap
      omega
    · rw [if_neg leap] at upper
      exact .inl upper
  have years : (4 * (julianStart year + dayOfYear + 2440588 + 1401) + 3) / 1461 = year + 4716 := by
    rw [julianStart]
    omega
  have day : (4 * (julianStart year + dayOfYear + 2440588 + 1401) + 3) % 1461 / 4 = dayOfYear := by
    rw [julianStart] at years ⊢
    omega
  obtain ⟨month, inside, prime, -, -⟩ := month_of_day lower (by omega : dayOfYear ≤ 365)
  have shown : ((month : Int) + 2) % 12 + 1 = if (month : Int) < 10 then (month : Int) + 3 else month - 9 := by
    split <;> omega
  simp only [julianFromDays, years, day, marchDate, prime, shown]
  refine Prod.ext ?_ (Prod.ext rfl ?_)
  · simp only
    split <;> omega
  · simp only
    omega

theorem julian_numbers : Numbers julianLeap julianStart julianFromDays where
  whole := by
    intro year
    simp only [julianStart, lastDay]
    by_cases leap : julianLeap (year + 1) = true
    · rw [if_pos leap]
      rw [julianLeap_iff] at leap
      omega
    · rw [if_neg leap]
      rw [julianLeap_iff] at leap
      omega
  dated _ _ := julianFromDays_of_march

/-- The year of the era in place of the year: 1 BC comes before AD 1. -/
def eraDate : Int × Nat × Nat → Int × Nat × Nat
  | (year, month, day) => (if year > 0 then year else 1 - year, month, day)

theorem calendarDate_of_before {days : Int64} (before : days < gregorianStartDays)
    (room : -1000000000000000000 ≤ days.toInt) :
    numbersOf (calendarDate days) = eraDate (julianFromDays days.toInt) := by
  have most : days.toInt < -141427 := (lt_iff rfl (holds_literal gregorianStartDays (-141427) rfl)).mp before
  have later : ¬days ≥ gregorianStartDays := by
    intro later
    have reached : -141427 ≤ days.toInt := (le_iff (holds_literal gregorianStartDays (-141427) rfl) rfl).mp later
    omega
  rw [calendarDate, if_neg later]
  unfold julianFromDays
  extract_lets e h month year nE nH nMonth
  have e_holds : Holds e nE := by
    have first := holds_add (holds_literal days _ rfl) (holds_literal 2440588 2440588 rfl) ⟨by omega, by omega⟩
    have second := holds_add first (holds_literal 1401 1401 rfl) ⟨by omega, by omega⟩
    exact holds_add (holds_mul (holds_literal 4 4 rfl) second ⟨by omega, by omega⟩) rfl ⟨by omega, by omega⟩
  have rest : 0 ≤ nE % 1461 / 4 ∧ nE % 1461 / 4 ≤ 365 := by omega
  have h_holds : Holds h nH := by
    have quarter := holds_div (holds_remEuclid e_holds (holds_literal 1461 1461 rfl) (by decide))
      (holds_literal 4 4 rfl) (by omega) (by decide)
    exact holds_add (holds_mul (holds_literal 5 5 rfl) quarter ⟨by omega, by omega⟩) rfl ⟨by omega, by omega⟩
  have month_holds : Holds month nMonth := by
    have prime := holds_add (holds_divEuclid h_holds (holds_literal 153 153 rfl) (by decide)) (holds_literal 2 2 rfl)
      ⟨by omega, by omega⟩
    exact holds_add (holds_remEuclid prime (holds_literal 12 12 rfl) (by decide)) rfl ⟨by omega, by omega⟩
  have year_holds : Holds year (nE / 1461 - 4716 + (14 - nMonth) / 12) := by
    have years := holds_sub (holds_divEuclid e_holds (holds_literal 1461 1461 rfl) (by decide))
      (holds_literal 4716 4716 rfl) ⟨by omega, by omega⟩
    have back := holds_sub (holds_literal 14 14 rfl) month_holds ⟨by omega, by omega⟩
    exact holds_add years (holds_divEuclid back rfl (by decide)) ⟨by omega, by omega⟩
  have day_holds := holds_add (holds_div (holds_remEuclid h_holds (holds_literal 153 153 rfl) (by decide))
    (holds_literal 5 5 rfl) (by omega) (by decide)) (holds_literal 1 1 rfl) ⟨by omega, by omega⟩
  have years : -1000000000000000000 ≤ nE / 1461 - 4716 + (14 - nMonth) / 12 := by omega
  have months : 1 ≤ nMonth ∧ nMonth ≤ 12 := by omega
  clear_value year month h e nMonth nH nE
  refine Prod.ext ?_ (Prod.ext ?_ ?_)
  · exact holds_ite (lt_iff (holds_literal 0 0 rfl) year_holds) (fun _ => year_holds)
      (fun _ => holds_sub (holds_literal 1 1 rfl) year_holds ⟨by omega, by omega⟩)
  · exact toNat_asU32 month_holds (by omega) (by omega)
  · exact toNat_asU32 day_holds (by omega) (by omega)

/-- `DATE_MIN_SECONDS` and `DATE_MAX_SECONDS`. -/
def dateMinSeconds : Int := -184303902528000
def dateMaxSeconds : Int := 183882168921600

/-- The day `unix_timestamp` finds for an instant in whole milliseconds. -/
def unixDays (millis : Int64) : Int64 := divEuclid (divEuclid millis 1000) 86400

/-- The days `unix_timestamp` passes to `calendar_date`. Its number of seconds is a double within
the limits; a thousand times a limit is a double too, so rounding the product keeps it between. -/
def Passed (days : Int64) : Prop :=
  ∃ millis : Int64, dateMinSeconds * 1000 ≤ millis.toInt ∧ millis.toInt ≤ dateMaxSeconds * 1000 ∧ days = unixDays millis

theorem passed_bounds (passed : Passed days) : -2133147020 ≤ days.toInt ∧ days.toInt ≤ 2128265844 := by
  obtain ⟨millis, least, most, rfl⟩ := passed
  have whole : (unixDays millis).toInt = millis.toInt / 1000 / 86400 :=
    holds_divEuclid (holds_divEuclid rfl (holds_literal 1000 1000 rfl) (by decide)) (holds_literal 86400 86400 rfl)
      (by decide)
  rw [dateMinSeconds] at least
  rw [dateMaxSeconds] at most
  omega

theorem calendarDate_counts_back {days : Int64} (before : days < gregorianStartDays)
    (room : -1000000000000000000 ≤ days.toInt) :
    numbersOf (calendarDate days) =
      eraDate ((previousDay julianLeap)^[(-141428 - days.toInt).toNat] (1582, 10, 4)) := by
  have most : days.toInt < -141427 := (lt_iff rfl (holds_literal gregorianStartDays (-141427) rfl)).mp before
  have back := previous_days (-141428) (previous_date julian_numbers) (-141428 - days.toInt).toNat
  have there : -141428 - ((-141428 - days.toInt).toNat : Int) = days.toInt := by omega
  have eve : julianFromDays (-141428) = (1582, 10, 4) := by decide
  rw [calendarDate_of_before before room, ← eve, ← back, there]

/-- Day numbers are calendar dates: one after the other in the Gregorian calendar, and for a
timestamp before 1582-10-15 one before the other in the Julian. -/
theorem day_numbers_are_dates :
    numbersOf (civilFromDays64 0) = (1970, 1, 1) ∧
    (∀ days : Int64, days.toInt + 719469 < 9223372036854775808 →
      ValidDate gregorianLeap (numbersOf (civilFromDays64 days)) ∧
      numbersOf (civilFromDays64 (days + 1)) = nextDay gregorianLeap (numbersOf (civilFromDays64 days))) ∧
    (∀ days, gregorianStartDays ≤ days → calendarDate days = civilFromDays64 days) ∧
    numbersOf (calendarDate gregorianStartDays) = (1582, 10, 15) ∧
    numbersOf (calendarDate (gregorianStartDays - 1)) = (1582, 10, 4) ∧
    ∀ days, Passed days → days < gregorianStartDays → numbersOf (calendarDate days) =
      eraDate ((previousDay julianLeap)^[(gregorianStartDays.toInt - 1 - days.toInt).toNat] (1582, 10, 4)) := by
  refine ⟨by decide, ?_, ?_, by decide, by decide, ?_⟩
  · intro days room
    have next : (days + 1).toInt = days.toInt + 1 :=
      holds_add rfl (holds_literal 1 1 rfl) ⟨by have := (inRange_toInt days).1; omega, by omega⟩
    rw [civilFromDays64_eq (by omega), civilFromDays64_eq (by omega), next]
    exact ⟨valid_date gregorian_numbers _, (next_date gregorian_numbers _).symm⟩
  · intro days reached
    rw [calendarDate, if_pos reached]
  · intro days passed before
    obtain ⟨least, -⟩ := passed_bounds passed
    exact calendarDate_counts_back before (by omega)

/-- 176,268 days before the last Julian one was a 29th of February that the Gregorian calendar does not have. -/
theorem day_numbers_are_dates_leap :
    Passed (-317696) ∧ eraDate ((previousDay julianLeap)^[176268] (1582, 10, 4)) = (1100, 2, 29) := by
  obtain ⟨-, -, -, -, -, julian⟩ := day_numbers_are_dates
  have passed : Passed (-317696) := ⟨-27448934400000, by decide, by decide, by decide⟩
  exact ⟨passed, (julian (-317696) passed (by decide)).symm.trans (by decide)⟩

end QueryHive.Store.CalendarDate
