import Mathlib.Algebra.Order.Field.Power
import Mathlib.Data.Nat.Cast.Order.Field
import Mathlib.Tactic.FieldSimp
import Mathlib.Tactic.Linarith
import Mathlib.Tactic.Positivity
import Mathlib.Tactic.Ring

/-! Decimal fractions and their order. The digits behind the point are a list; without zeros at
its end the lists are ordered as their fractions are, digit by digit and a shorter list before
a longer one. Scaled by powers of ten, fractions whose first digit is not zero are ordered by
the power first. -/
namespace QueryHive.Library.Decimal

variable {α : Type} (digit : α → Nat)

/-- The number `0.d₁d₂…`. -/
def fraction : List α → ℚ
  | [] => 0
  | d :: rest => (digit d + fraction rest) / 10

def Digits (digits : List α) : Prop := ∀ d ∈ digits, digit d < 10

def Trimmed (digits : List α) : Prop := ∀ d ∈ digits.getLast?, digit d ≠ 0

/-- There is a first digit, and it is not zero. -/
def Leads (digits : List α) : Prop := ∃ d rest, digits = d :: rest ∧ digit d ≠ 0

variable {digit} {digits : List α}

theorem trimmed_tail (trimmed : Trimmed digit (d :: rest)) (more : rest ≠ []) : Trimmed digit rest := by
  intro last member
  exact trimmed last (by rw [List.getLast?_cons]; simp_all [List.getLast?_eq_some_getLast more])

theorem digits_tail (valid : Digits digit (d :: rest)) : Digits digit rest :=
  fun other member => valid other (List.mem_cons_of_mem _ member)

theorem fraction_nonneg (digits : List α) : 0 ≤ fraction digit digits := by
  induction digits with
  | nil => exact le_refl _
  | cons d rest ih =>
    rw [fraction]
    positivity

theorem digit_le_nine (valid : Digits digit (d :: rest)) : (digit d : ℚ) ≤ 9 := by
  have small : digit d ≤ 9 := Nat.le_of_lt_succ (valid d List.mem_cons_self)
  exact_mod_cast small

theorem fraction_lt_one (valid : Digits digit digits) : fraction digit digits < 1 := by
  induction digits with
  | nil => exact one_pos
  | cons d rest ih =>
    have below := ih (digits_tail valid)
    have small := digit_le_nine valid
    rw [fraction, div_lt_one (by norm_num)]
    linarith

theorem one_le_digit (d : α) (nonzero : digit d ≠ 0) : (1 : ℚ) ≤ digit d := by
  exact_mod_cast Nat.one_le_iff_ne_zero.mpr nonzero

theorem fraction_pos (trimmed : Trimmed digit digits) (some : digits ≠ []) : 0 < fraction digit digits := by
  induction digits with
  | nil => exact absurd rfl some
  | cons d rest ih =>
    rw [fraction]
    have rest_nonneg := @fraction_nonneg _ digit rest
    by_cases more : rest = []
    · have last : digit d ≠ 0 := trimmed d (by simp [more])
      have positive := one_le_digit d last
      exact div_pos (by linarith) (by norm_num)
    · have positive := ih (trimmed_tail trimmed more) more
      exact div_pos (by positivity) (by norm_num)

theorem tenth_le_fraction (leads : Leads digit digits) : 1 / 10 ≤ fraction digit digits := by
  obtain ⟨d, rest, rfl, nonzero⟩ := leads
  have first := one_le_digit d nonzero
  have later := @fraction_nonneg _ digit rest
  rw [fraction]
  exact div_le_div_of_nonneg_right (by linarith) (by norm_num)

/-- A smaller first digit makes a smaller fraction, whatever follows. -/
theorem fraction_lt_of_digit (valid : Digits digit (d :: rest)) (less : digit d < digit e) :
    fraction digit (d :: rest) < fraction digit (e :: other) := by
  have below := fraction_lt_one (digits_tail valid)
  have above := @fraction_nonneg _ digit other
  have step : (digit d : ℚ) + 1 ≤ digit e := by exact_mod_cast less
  rw [fraction, fraction, div_lt_div_iff_of_pos_right (by norm_num)]
  linarith

section
variable [Ord α] {first second : List α}

theorem compare_fraction (order : ∀ d ∈ first, ∀ e ∈ second, compare d e = compare (digit d) (digit e))
    (valid : Digits digit first) (valid' : Digits digit second)
    (trimmed : Trimmed digit first) (trimmed' : Trimmed digit second) :
    compare first second = cmp (fraction digit first) (fraction digit second) := by
  induction first generalizing second with
  | nil =>
    cases second with
    | nil => rw [cmp_self_eq_eq]; rfl
    | cons e other =>
      rw [List.compare_nil_cons]
      exact (cmp_eq_lt_iff _ _ |>.mpr (fraction_pos trimmed' (List.cons_ne_nil _ _))).symm
  | cons d rest ih =>
    cases second with
    | nil =>
      rw [List.compare_cons_nil]
      exact (cmp_eq_gt_iff _ _ |>.mpr (fraction_pos trimmed (List.cons_ne_nil _ _))).symm
    | cons e other =>
      rw [List.compare_cons_cons, order d List.mem_cons_self e List.mem_cons_self]
      rcases Nat.lt_trichotomy (digit d) (digit e) with less | same | greater
      · rw [Nat.compare_eq_lt.mpr less]
        exact (cmp_eq_lt_iff _ _ |>.mpr (fraction_lt_of_digit valid less)).symm
      · have later : compare rest other = cmp (fraction digit rest) (fraction digit other) := by
          by_cases none : rest = []
          · by_cases none' : other = []
            · rw [none, none', cmp_self_eq_eq]; rfl
            · exact ih (fun d m e m' => order d (List.mem_cons_of_mem _ m) e (List.mem_cons_of_mem _ m'))
                (digits_tail valid) (digits_tail valid') (by simp [none, Trimmed]) (trimmed_tail trimmed' none')
          · by_cases none' : other = []
            · exact ih (fun d m e m' => order d (List.mem_cons_of_mem _ m) e (List.mem_cons_of_mem _ m'))
                (digits_tail valid) (digits_tail valid') (trimmed_tail trimmed none) (by simp [none', Trimmed])
            · exact ih (fun d m e m' => order d (List.mem_cons_of_mem _ m) e (List.mem_cons_of_mem _ m'))
                (digits_tail valid) (digits_tail valid') (trimmed_tail trimmed none) (trimmed_tail trimmed' none')
        rw [same, Nat.compare_eq_eq.mpr rfl, Ordering.eq_then, later, fraction, fraction, same]
        rcases lt_trichotomy (fraction digit rest) (fraction digit other) with less | equal | greater
        · rw [(cmp_eq_lt_iff _ _).mpr less, eq_comm, cmp_eq_lt_iff, div_lt_div_iff_of_pos_right (by norm_num)]
          linarith
        · rw [equal, cmp_self_eq_eq, cmp_self_eq_eq]
        · rw [(cmp_eq_gt_iff _ _).mpr greater, eq_comm, cmp_eq_gt_iff, div_lt_div_iff_of_pos_right (by norm_num)]
          linarith
      · rw [Nat.compare_eq_gt.mpr greater]
        exact (cmp_eq_gt_iff _ _ |>.mpr (fraction_lt_of_digit valid' greater)).symm

end

theorem scaled_lt (valid : Digits digit first) (leads : Leads digit second) {low high : ℤ} (less : low < high) :
    fraction digit first * (10 : ℚ) ^ low < fraction digit second * (10 : ℚ) ^ high := by
  have above := tenth_le_fraction leads
  have positive : (0 : ℚ) < 10 ^ low := by positivity
  have step : (10 : ℚ) ^ (low + 1) ≤ 10 ^ high := zpow_le_zpow_right₀ (by norm_num) less
  rw [zpow_add_one₀ (by norm_num)] at step
  calc fraction digit first * (10 : ℚ) ^ low
      < 1 * 10 ^ low := mul_lt_mul_of_pos_right (fraction_lt_one valid) positive
    _ = 1 / 10 * (10 ^ low * 10) := by ring
    _ ≤ 1 / 10 * 10 ^ high := by linarith
    _ ≤ fraction digit second * 10 ^ high := mul_le_mul_of_nonneg_right above (by positivity)

theorem cmp_scaled [Ord α] (order : ∀ d ∈ first, ∀ e ∈ second, compare d e = compare (digit d) (digit e))
    (valid : Digits digit first) (valid' : Digits digit second) (trimmed : Trimmed digit first)
    (trimmed' : Trimmed digit second) (leads : Leads digit first) (leads' : Leads digit second) (low high : ℤ) :
    cmp (fraction digit first * (10 : ℚ) ^ low) (fraction digit second * (10 : ℚ) ^ high) =
      (compare low high).then (compare first second) := by
  rcases lt_trichotomy low high with less | rfl | greater
  · rw [compare_lt_iff_lt.mpr less, (cmp_eq_lt_iff _ _).mpr (scaled_lt valid leads' less)]
    rfl
  · rw [compare_eq_iff_eq.mpr rfl, Ordering.eq_then, compare_fraction order valid valid' trimmed trimmed']
    exact cmp_mul_pos_right (by positivity) _ _
  · rw [compare_gt_iff_gt.mpr greater, (cmp_eq_gt_iff _ _).mpr (scaled_lt valid' leads greater)]
    rfl

end QueryHive.Library.Decimal
