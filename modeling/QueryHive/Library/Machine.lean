import Mathlib.Algebra.Ring.Int.Defs
import Mathlib.Algebra.Ring.Nat

/-! Signed 64-bit arithmetic that stays in range is the arithmetic of the integers, and the
division that rounds down, made from the one that rounds towards zero. -/
namespace QueryHive.Library.Machine

/-- The integers a signed 64-bit word holds. -/
def InRange (n : Int) : Prop := -9223372036854775808 ≤ n ∧ n < 9223372036854775808

variable {a b : Int64}

private theorem bmod_of_inRange (range : InRange n) : n.bmod (2 ^ 64) = n := by
  obtain ⟨lower, upper⟩ := range
  exact Int.bmod_eq_of_le (by omega) (by omega)

theorem inRange_toInt (a : Int64) : InRange a.toInt := ⟨a.le_toInt, a.toInt_lt⟩

theorem toInt_add (range : InRange (a.toInt + b.toInt)) : (a + b).toInt = a.toInt + b.toInt := by
  rw [Int64.toInt_add, bmod_of_inRange range]

theorem toInt_sub (range : InRange (a.toInt - b.toInt)) : (a - b).toInt = a.toInt - b.toInt := by
  rw [Int64.toInt_sub, bmod_of_inRange range]

theorem toInt_mul (range : InRange (a.toInt * b.toInt)) : (a * b).toInt = a.toInt * b.toInt := by
  rw [Int64.toInt_mul, bmod_of_inRange range]

theorem toInt_div (positive : 0 < b.toInt) : (a / b).toInt = a.toInt.tdiv b.toInt := by
  apply Int64.toInt_div_of_ne_right
  rintro rfl
  exact absurd positive (by decide)

theorem toInt_div_nonneg (nonneg : 0 ≤ a.toInt) (positive : 0 < b.toInt) : (a / b).toInt = a.toInt / b.toInt := by
  rw [toInt_div positive, Int.tdiv_eq_ediv_of_nonneg nonneg]

/-- `i64::div_euclid`. -/
def divEuclid (a b : Int64) : Int64 :=
  let quotient := a / b
  if a % b < 0 then if 0 < b then quotient - 1 else quotient + 1 else quotient

/-- `i64::rem_euclid`. -/
def remEuclid (a b : Int64) : Int64 :=
  let rest := a % b
  if rest < 0 then rest + (if b < 0 then -b else b) else rest

/-- What is left of a number that does not divide exactly has its sign. -/
private theorem rest_neg_iff (positive : 0 < b.toInt) :
    a.toInt.tmod b.toInt < 0 ↔ ¬(0 ≤ a.toInt ∨ b.toInt ∣ a.toInt) := by
  have lower := Int.emod_nonneg a.toInt (by omega : b.toInt ≠ 0)
  have upper := Int.emod_lt_of_pos a.toInt positive
  rw [Int.tmod_eq_emod]
  split
  · next whole => simp only [whole, not_true_eq_false, iff_false]; omega
  · next whole => simp only [whole, not_false_eq_true, iff_true]; omega

theorem toInt_divEuclid (positive : 0 < b.toInt) : (divEuclid a b).toInt = a.toInt / b.toInt := by
  have above : (0 : Int64) < b := Int64.lt_iff_toInt_lt.mpr positive
  have lower : -9223372036854775808 ≤ a.toInt / b.toInt := by
    have least := (inRange_toInt a).1
    exact (Int.le_ediv_iff_mul_le positive).mpr (by omega)
  have quotient : (a / b).toInt = a.toInt / b.toInt + if 0 ≤ a.toInt ∨ b.toInt ∣ a.toInt then 0 else 1 := by
    rw [toInt_div positive, Int.tdiv_eq_ediv, Int.sign_eq_one_of_pos positive]
  simp only [divEuclid, Int64.lt_iff_toInt_lt, Int64.toInt_mod, Int64.toInt_zero, rest_neg_iff positive, positive,
    if_true]
  split
  · next left =>
    rw [if_neg left] at quotient
    have range : InRange ((a / b).toInt - 1) := by
      obtain ⟨-, most⟩ := inRange_toInt (a / b)
      exact ⟨by omega, by omega⟩
    rw [toInt_sub range, quotient]
    exact Int.add_sub_cancel _ _
  · next whole =>
    rw [if_pos (Classical.not_not.mp whole)] at quotient
    rw [quotient, Int.add_zero]

theorem toInt_remEuclid (positive : 0 < b.toInt) : (remEuclid a b).toInt = a.toInt % b.toInt := by
  have lower := Int.emod_nonneg a.toInt (by omega : b.toInt ≠ 0)
  have upper := Int.emod_lt_of_pos a.toInt positive
  have range := inRange_toInt b
  have above : ¬b < 0 := by
    rw [Int64.lt_iff_toInt_lt]
    exact Int.not_lt.mpr (Int.le_of_lt positive)
  have rest : (a % b).toInt = a.toInt % b.toInt - if 0 ≤ a.toInt ∨ b.toInt ∣ a.toInt then 0 else b.toInt := by
    rw [Int64.toInt_mod, Int.tmod_eq_emod]
    split <;> omega
  rw [remEuclid, if_neg above]
  simp only [Int64.lt_iff_toInt_lt, Int64.toInt_mod, Int64.toInt_zero, rest_neg_iff positive]
  split
  · next left =>
    rw [if_neg left] at rest
    have fits : InRange ((a % b).toInt + b.toInt) := by
      obtain ⟨-, most⟩ := range
      exact ⟨by omega, by omega⟩
    rw [toInt_add fits, rest]
    exact Int.sub_add_cancel _ _
  · next whole =>
    rw [if_pos (Classical.not_not.mp whole)] at rest
    rw [rest, Int.sub_zero]

/-- The word `a` holds the integer `n`. -/
def Holds (a : Int64) (n : Int) : Prop := a.toInt = n

theorem holds_literal (a : Int64) (n : Int) (same : a.toInt = n) : Holds a n := same

theorem holds_add (left : Holds a m) (right : Holds b n) (range : InRange (m + n)) : Holds (a + b) (m + n) := by
  subst left right
  exact toInt_add range

theorem holds_sub (left : Holds a m) (right : Holds b n) (range : InRange (m - n)) : Holds (a - b) (m - n) := by
  subst left right
  exact toInt_sub range

theorem holds_mul (left : Holds a m) (right : Holds b n) (range : InRange (m * n)) : Holds (a * b) (m * n) := by
  subst left right
  exact toInt_mul range

theorem holds_tdiv (left : Holds a m) (right : Holds b n) (positive : 0 < n) : Holds (a / b) (m.tdiv n) := by
  subst left right
  exact toInt_div positive

theorem holds_div (left : Holds a m) (right : Holds b n) (nonneg : 0 ≤ m) (positive : 0 < n) :
    Holds (a / b) (m / n) := by
  subst left right
  exact toInt_div_nonneg nonneg positive

theorem holds_divEuclid (left : Holds a m) (right : Holds b n) (positive : 0 < n) : Holds (divEuclid a b) (m / n) := by
  subst left right
  exact toInt_divEuclid positive

theorem holds_remEuclid (left : Holds a m) (right : Holds b n) (positive : 0 < n) : Holds (remEuclid a b) (m % n) := by
  subst left right
  exact toInt_remEuclid positive

theorem le_iff (left : Holds a m) (right : Holds b n) : a ≤ b ↔ m ≤ n := by
  subst left right
  exact Int64.le_iff_toInt_le

theorem lt_iff (left : Holds a m) (right : Holds b n) : a < b ↔ m < n := by
  subst left right
  exact Int64.lt_iff_toInt_lt

theorem holds_ite [Decidable p] [Decidable q] (test : p ↔ q) (yes : q → Holds a m) (no : ¬q → Holds b n) :
    Holds (if p then a else b) (if q then m else n) := by
  by_cases condition : q
  · rw [if_pos condition, if_pos (test.mpr condition)]
    exact yes condition
  · rw [if_neg condition, if_neg (fun p => condition (test.mp p))]
    exact no condition

/-- `as u32`. -/
def asU32 (a : Int64) : UInt32 := a.toUInt64.toUInt32

theorem toNat_asU32 (held : Holds a n) (nonneg : 0 ≤ n) (small : n < 4294967296) : (asU32 a).toNat = n.toNat := by
  subst held
  have above : 0 ≤ a := Int64.le_iff_toInt_le.mpr nonneg
  rw [asU32, UInt64.toNat_toUInt32, Int64.toNat_toUInt64_of_le above, ← Int64.toNat_toInt]
  exact Nat.mod_eq_of_lt (by omega)

end QueryHive.Library.Machine
