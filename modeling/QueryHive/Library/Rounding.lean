import Mathlib.Tactic.FieldSimp
import Mathlib.Tactic.Linarith
import Mathlib.Tactic.Positivity

/-! Rounding to the nearest integer, half to even. A quotient towards zero is put right by a
look at its remainder. -/
namespace QueryHive.Library.Rounding

/-- `n` is nearest to `x`, and the even one where two are. -/
def NearestEven (x : ℚ) (n : ℤ) : Prop := |x - n| ≤ 1 / 2 ∧ (|x - n| = 1 / 2 → Even n)

theorem nearestEven_self (n : ℤ) : NearestEven n n := by
  rw [NearestEven, sub_self, abs_zero]
  exact ⟨by norm_num, fun half => absurd half (by norm_num)⟩

/-- Two different integers are a step apart, so at most one is nearest and even. -/
theorem nearestEven_unique (first : NearestEven x m) (second : NearestEven x n) : m = n := by
  obtain ⟨near, even⟩ := first
  obtain ⟨near', even'⟩ := second
  by_contra other
  have apart : (1 : ℚ) ≤ |(m : ℚ) - n| := by exact_mod_cast Int.one_le_abs (sub_ne_zero.mpr other)
  have triangle : |(m : ℚ) - n| ≤ |x - m| + |x - n| := by
    have := abs_sub_le (m : ℚ) x n
    rwa [abs_sub_comm (m : ℚ) x] at this
  have half : |x - m| = 1 / 2 := by linarith
  have half' : |x - n| = 1 / 2 := by linarith
  have step : |(m : ℚ) - n| = 1 := by linarith
  have step : |m - n| = 1 := by exact_mod_cast step
  have parity := (even half).sub (even' half')
  rw [← even_abs, step] at parity
  exact absurd parity (by decide)

theorem nearestEven_zero (small : |x| ≤ 1 / 2) : NearestEven x 0 := by
  rw [NearestEven, Int.cast_zero, sub_zero]
  exact ⟨small, fun _ => Even.zero⟩

/-- The quotient towards zero, moved a step away from zero where the remainder is more than half of
the divisor, or half of it and the quotient odd. -/
def divideHalfEven (a b : ℤ) : ℤ :=
  let away := a.tdiv b + if a < 0 then -1 else 1
  match compare (2 * (a.tmod b).natAbs) b.natAbs with
  | .gt => away
  | .lt => a.tdiv b
  | .eq => if a.tdiv b % 2 = 0 then a.tdiv b else away

/-- The step goes towards the number that is divided. -/
theorem nearestEven_divideHalfEven {a b : ℤ} (positive : 0 < b) : NearestEven ((a : ℚ) / b) (divideHalfEven a b) := by
  have scaled : (0 : ℚ) < b := by exact_mod_cast positive
  have parts := Int.mul_tdiv_add_tmod a b
  have below : (a.tmod b).natAbs < b.natAbs := by
    rw [Int.natAbs_tmod]
    exact Nat.mod_lt _ (Int.natAbs_pos.mpr positive.ne')
  have sign : if a < 0 then a.tmod b ≤ 0 else 0 ≤ a.tmod b := by
    split
    · next negative =>
      have opposite := Int.neg_tmod (-a) b
      rw [neg_neg] at opposite
      have nonneg := Int.tmod_nonneg b (by omega : 0 ≤ -a)
      omega
    · next nonneg => exact Int.tmod_nonneg b (Int.not_lt.mp nonneg)
  have distance : ∀ n : ℤ, |(a : ℚ) / b - n| = |((a - n * b : ℤ) : ℚ)| / b := by
    intro n
    have shape : (a : ℚ) / b - n = ((a - n * b : ℤ) : ℚ) / b := by
      push_cast
      field_simp
    rw [shape, abs_div, abs_of_pos scaled]
  have near : ∀ n : ℤ, 2 * |a - n * b| < b → NearestEven ((a : ℚ) / b) n := by
    intro n close
    have close : 2 * |((a - n * b : ℤ) : ℚ)| < b := by exact_mod_cast close
    rw [NearestEven, distance]
    have strict : |((a - n * b : ℤ) : ℚ)| / b < 1 / 2 := by
      rw [div_lt_iff₀ scaled]
      linarith
    exact ⟨le_of_lt strict, fun half => absurd half (ne_of_lt strict)⟩
  have tie : ∀ n : ℤ, 2 * |a - n * b| = b → Even n → NearestEven ((a : ℚ) / b) n := by
    intro n close even
    have close : 2 * |((a - n * b : ℤ) : ℚ)| = b := by exact_mod_cast close
    rw [NearestEven, distance]
    have half : |((a - n * b : ℤ) : ℚ)| / b = 1 / 2 := by
      rw [div_eq_iff scaled.ne']
      linarith
    exact ⟨le_of_eq half, fun _ => even⟩
  have here : a - a.tdiv b * b = a.tmod b := by linarith
  have next' : a - (a.tdiv b + if a < 0 then -1 else 1) * b = a.tmod b - (if a < 0 then -1 else 1) * b := by linarith
  unfold divideHalfEven
  dsimp only
  split
  · next more =>
    have more := Nat.compare_eq_gt.mp more
    apply near
    rw [next']
    split at sign
    · rw [if_pos ‹_›, abs_of_nonneg (by omega)]
      omega
    · rw [if_neg ‹_›, abs_of_nonpos (by omega)]
      omega
  · next less =>
    have less := Nat.compare_eq_lt.mp less
    apply near
    rw [here, Int.abs_eq_natAbs]
    omega
  · next half =>
    have half := Nat.compare_eq_eq.mp half
    split
    · next even =>
      apply tie
      · rw [here, Int.abs_eq_natAbs]
        omega
      · exact Int.even_iff.mpr even
    · next odd =>
      have parity : Even (a.tdiv b + if a < 0 then -1 else 1) := by
        rw [Int.even_iff]
        split <;> omega
      apply tie _ _ parity
      rw [next']
      split at sign
      · rw [if_pos ‹_›, abs_of_nonneg (by omega)]
        omega
      · rw [if_neg ‹_›, abs_of_nonpos (by omega)]
        omega

end QueryHive.Library.Rounding
