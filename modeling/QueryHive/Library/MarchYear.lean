import Mathlib.Data.Int.Init
import Mathlib.Logic.Function.Iterate

/-! Calendars of twelve months that differ in their leap years only, and the year that begins in
March: its leap day comes last, so that month and day follow from the day of the year alone. -/
namespace QueryHive.Library.MarchYear

def julianLeap (year : Int) : Bool := year % 4 == 0

/-- Every fourth year, but only every fourth century. -/
def gregorianLeap (year : Int) : Bool := year % 4 == 0 && (year % 100 != 0 || year % 400 == 0)

section
variable (leap : Int → Bool)

def daysInMonth (year : Int) : Nat → Nat
  | 2 => if leap year then 29 else 28
  | 4 | 6 | 9 | 11 => 30
  | _ => 31

def nextDay : Int × Nat × Nat → Int × Nat × Nat
  | (year, month, day) =>
    if day < daysInMonth leap year month then (year, month, day + 1)
    else if month < 12 then (year, month + 1, 1)
    else (year + 1, 1, 1)

def previousDay : Int × Nat × Nat → Int × Nat × Nat
  | (year, month, day) =>
    if 1 < day then (year, month, day - 1)
    else if 1 < month then (year, month - 1, daysInMonth leap year (month - 1))
    else (year - 1, 12, 31)

/-- A day that the calendar has. -/
def ValidDate : Int × Nat × Nat → Prop
  | (year, month, day) => 1 ≤ month ∧ month ≤ 12 ∧ 1 ≤ day ∧ day ≤ daysInMonth leap year month

theorem previousDay_nextDay {leap : Int → Bool} (valid : ValidDate leap date) :
    previousDay leap (nextDay leap date) = date := by
  obtain ⟨year, month, day⟩ := date
  obtain ⟨first, last, lower, upper⟩ := valid
  rw [nextDay]
  split
  · simp only [previousDay, Nat.add_sub_cancel]
    rw [if_pos (by omega)]
  · have whole : daysInMonth leap year month = day := by omega
    split
    · simp only [previousDay, Nat.add_sub_cancel]
      rw [if_neg (by omega), if_pos (by omega), whole]
    · have december : month = 12 := by omega
      subst december
      have end_of_year : day = 31 := whole.symm
      subst end_of_year
      simp only [previousDay]
      rw [if_neg (by omega), if_neg (by omega), Int.add_sub_cancel]

/-- A numbering of days that takes back one day at a time counts back from any of its dates. -/
theorem previous_days {leap : Int → Bool} {date : Int → Int × Nat × Nat} (last : Int)
    (step : ∀ days, previousDay leap (date (days + 1)) = date days) (n : Nat) :
    date (last - n) = (previousDay leap)^[n] (date last) := by
  induction n with
  | zero => simp
  | succ n ih =>
    have back := step (last - (n + 1 : Nat))
    have up : last - ((n + 1 : Nat) : Int) + 1 = last - n := by omega
    rw [Function.iterate_succ_apply', ← ih, ← back, up]

/-- The last day of the year that begins in March of `year`, counted from zero. -/
def lastDay (year : Int) : Int := if leap (year + 1) then 365 else 364

end

/-- The date of a day of the year that begins in March of `year`. -/
def marchDate (year dayOfYear : Int) : Int × Nat × Nat :=
  let monthPrime := (5 * dayOfYear + 2) / 153
  (if monthPrime < 10 then year else year + 1,
    (if monthPrime < 10 then monthPrime + 3 else monthPrime - 9).toNat,
    (dayOfYear - (153 * monthPrime + 2) / 5 + 1).toNat)

variable {leap : Int → Bool} {year dayOfYear : Int}

theorem month_of_day (lower : 0 ≤ dayOfYear) (upper : dayOfYear ≤ 365) : ∃ month : Nat, month < 12 ∧
    (5 * dayOfYear + 2) / 153 = month ∧ (153 * (month : Int) + 2) / 5 ≤ dayOfYear ∧
    dayOfYear < (153 * (month + 1 : Int) + 2) / 5 :=
  ⟨((5 * dayOfYear + 2) / 153).toNat, by omega, by omega, by omega, by omega⟩

theorem marchDate_of_month (month : Nat) (first : (153 * (month : Int) + 2) / 5 ≤ dayOfYear)
    (last : dayOfYear < (153 * (month + 1 : Int) + 2) / 5) :
    marchDate year dayOfYear = (if month < 10 then year else year + 1, if month < 10 then month + 3 else month - 9,
      (dayOfYear - (153 * (month : Int) + 2) / 5 + 1).toNat) := by
  have prime : (5 * dayOfYear + 2) / 153 = month := by omega
  simp only [marchDate, prime]
  refine Prod.ext ?_ (Prod.ext ?_ rfl)
  · simp only
    split <;> split <;> omega
  · simp only
    split <;> split <;> omega

theorem daysInMonth_march (leap : Int → Bool) (month : Nat) (inside : month < 11) (any : Int) :
    (daysInMonth leap any (if month < 10 then month + 3 else month - 9) : Int) =
      (153 * (month + 1 : Int) + 2) / 5 - (153 * (month : Int) + 2) / 5 := by
  match month, inside with
  | 0, _ | 1, _ | 2, _ | 3, _ | 4, _ | 5, _ | 6, _ | 7, _ | 8, _ | 9, _ | 10, _ => rfl

theorem lastDay_bounds (leap : Int → Bool) (year : Int) : 364 ≤ lastDay leap year ∧ lastDay leap year ≤ 365 := by
  rw [lastDay]
  split <;> omega

theorem daysInMonth_february (leap : Int → Bool) (year : Int) :
    (daysInMonth leap (year + 1) 2 : Int) = lastDay leap year - 336 := by
  simp only [daysInMonth, lastDay]
  split <;> rfl

theorem marchDate_february (first : 337 ≤ dayOfYear) (last : dayOfYear ≤ 365) :
    marchDate year dayOfYear = (year + 1, 2, (dayOfYear - 336).toNat) := by
  have day : dayOfYear - 337 + 1 = dayOfYear - 336 := by omega
  rw [marchDate_of_month 11 (by omega) (by omega), ← day]
  rfl

theorem next_marchDate (lower : 0 ≤ dayOfYear) (upper : dayOfYear < lastDay leap year) :
    nextDay leap (marchDate year dayOfYear) = marchDate year (dayOfYear + 1) := by
  have whole := lastDay_bounds leap year
  obtain ⟨month, inside, -, first, last⟩ := month_of_day lower (by omega : dayOfYear ≤ 365)
  rcases Nat.lt_or_ge month 11 with ordinary | february
  · have length := daysInMonth_march leap month ordinary (if month < 10 then year else year + 1)
    rw [marchDate_of_month month first last]
    rcases Int.lt_or_le (dayOfYear + 1) ((153 * (month + 1 : Int) + 2) / 5) with same | next
    · rw [marchDate_of_month month (by omega) same, nextDay, if_pos (by omega)]
      refine Prod.ext rfl (Prod.ext rfl ?_)
      simp only
      omega
    · have opens : ((dayOfYear + 1) - (153 * ((month + 1 : Nat) : Int) + 2) / 5 + 1).toNat = 1 := by omega
      rw [marchDate_of_month (month + 1) (by omega) (by omega), nextDay, if_neg (by omega), opens]
      rcases Nat.lt_trichotomy month 9 with early | december | late
      · simp only [if_pos (by omega : month < 10), if_pos (by omega : month + 3 < 12),
          if_pos (by omega : month + 1 < 10)]
      · subst december
        rfl
      · have january : month = 10 := by omega
        subst january
        rfl
  · have length := daysInMonth_february leap year
    rw [marchDate_february (by omega) (by omega), marchDate_february (by omega) (by omega), nextDay,
      if_pos (by omega)]
    refine Prod.ext rfl (Prod.ext rfl ?_)
    simp only
    omega

theorem next_marchDate_last (leap : Int → Bool) (year : Int) :
    nextDay leap (marchDate year (lastDay leap year)) = marchDate (year + 1) 0 := by
  have whole := lastDay_bounds leap year
  have length := daysInMonth_february leap year
  rw [marchDate_february (by omega) (by omega), nextDay, if_neg (by omega), if_pos (by decide)]
  rfl

theorem valid_marchDate (lower : 0 ≤ dayOfYear) (upper : dayOfYear ≤ lastDay leap year) :
    ValidDate leap (marchDate year dayOfYear) := by
  have whole := lastDay_bounds leap year
  obtain ⟨month, inside, -, first, last⟩ := month_of_day lower (by omega : dayOfYear ≤ 365)
  rcases Nat.lt_or_ge month 11 with ordinary | february
  · have length := daysInMonth_march leap month ordinary (if month < 10 then year else year + 1)
    rw [marchDate_of_month month first last]
    refine ⟨?_, ?_, by omega, by omega⟩
    · split <;> omega
    · split <;> omega
  · have length := daysInMonth_february leap year
    rw [marchDate_february (by omega) (by omega)]
    exact ⟨by decide, by decide, by omega, by omega⟩

/-- Day numbers and dates that agree: the year that begins in March of `year` has its first day
at `start year` and is as long as the calendar says. -/
structure Numbers (leap : Int → Bool) (start : Int → Int) (date : Int → Int × Nat × Nat) : Prop where
  whole : ∀ year, start (year + 1) = start year + lastDay leap year + 1
  dated : ∀ year dayOfYear, 0 ≤ dayOfYear → dayOfYear ≤ lastDay leap year →
    date (start year + dayOfYear) = marchDate year dayOfYear

variable {start : Int → Int} {date : Int → Int × Nat × Nat}

theorem year_of_day (numbers : Numbers leap start date) (days : Int) :
    ∃ year dayOfYear, 0 ≤ dayOfYear ∧ dayOfYear ≤ lastDay leap year ∧ days = start year + dayOfYear := by
  refine Int.inductionOn' days (start 0) ?_ ?_ ?_
  · have bounds := lastDay_bounds leap 0
    exact ⟨0, 0, Int.le_refl 0, by omega, (Int.add_zero _).symm⟩
  · intro days _ ih
    obtain ⟨year, dayOfYear, lower, upper, there⟩ := ih
    rcases Int.lt_or_eq_of_le upper with inside | last
    · exact ⟨year, dayOfYear + 1, by omega, inside, by omega⟩
    · have bounds := lastDay_bounds leap (year + 1)
      have next := numbers.whole year
      exact ⟨year + 1, 0, Int.le_refl 0, by omega, by omega⟩
  · intro days _ ih
    obtain ⟨year, dayOfYear, lower, upper, there⟩ := ih
    rcases Int.lt_or_eq_of_le lower with inside | first
    · exact ⟨year, dayOfYear - 1, by omega, by omega, by omega⟩
    · have bounds := lastDay_bounds leap (year - 1)
      have before := numbers.whole (year - 1)
      rw [Int.sub_add_cancel] at before
      exact ⟨year - 1, lastDay leap (year - 1), by omega, Int.le_refl _, by omega⟩

theorem next_date (numbers : Numbers leap start date) (days : Int) : nextDay leap (date days) = date (days + 1) := by
  obtain ⟨year, dayOfYear, lower, upper, rfl⟩ := year_of_day numbers days
  rw [numbers.dated year dayOfYear lower upper]
  rcases Int.lt_or_eq_of_le upper with inside | last
  · rw [next_marchDate lower inside, Int.add_assoc, numbers.dated year (dayOfYear + 1) (by omega) inside]
  · have bounds := lastDay_bounds leap (year + 1)
    have first := numbers.dated (year + 1) 0 (Int.le_refl 0) (by omega)
    rw [Int.add_zero, numbers.whole year] at first
    rw [last, next_marchDate_last, first]

theorem valid_date (numbers : Numbers leap start date) (days : Int) : ValidDate leap (date days) := by
  obtain ⟨year, dayOfYear, lower, upper, rfl⟩ := year_of_day numbers days
  rw [numbers.dated year dayOfYear lower upper]
  exact valid_marchDate lower upper

theorem previous_date (numbers : Numbers leap start date) (days : Int) :
    previousDay leap (date (days + 1)) = date days := by
  rw [← next_date numbers, previousDay_nextDay (valid_date numbers days)]

end QueryHive.Library.MarchYear
