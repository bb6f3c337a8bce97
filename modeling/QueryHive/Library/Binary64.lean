import Mathlib.Data.Int.Log
import Mathlib.Data.Rat.Floor
import QueryHive.Library.Rounding

/-! Doubles as the numbers they are. The doubles around a number are the multiples of a power of two, and a number is
rounded to the nearest of them, on a tie to an even multiple. -/
namespace QueryHive.Library.Binary64
open Rounding

/-- The distance of the doubles around a number. -/
def spacing (x : ℚ) : ℚ := 2 ^ (max (Int.log 2 |x|) (-1022) - 52)

/-- A number is rounded to this multiple of the distance. -/
def Rounds (x y : ℚ) : Prop := ∃ n : ℤ, y = n * spacing x ∧ NearestEven (x / spacing x) n

def rounded (x : ℚ) : ℚ := divideHalfEven (x / spacing x).num (x / spacing x).den * spacing x

/-- The double nearest to a number; there is none past the largest one. -/
def nearest (x : ℚ) : Option ℚ := if |rounded x| < 2 ^ 1024 then some (rounded x) else none

theorem spacing_pos (x : ℚ) : 0 < spacing x := zpow_pos (by norm_num) _

theorem rounds_rounded (x : ℚ) : Rounds x (rounded x) := by
  refine ⟨_, rfl, ?_⟩
  have positive : (0 : ℤ) < (x / spacing x).den := by exact_mod_cast (x / spacing x).pos
  have near := nearestEven_divideHalfEven (a := (x / spacing x).num) positive
  rwa [Int.cast_natCast, Rat.num_div_den] at near

theorem rounded_eq_iff : rounded x = y ↔ Rounds x y := by
  constructor
  · rintro rfl
    exact rounds_rounded x
  · rintro ⟨n, rfl, near⟩
    obtain ⟨m, same, near'⟩ := rounds_rounded x
    rw [same, nearestEven_unique near' near]

/-- A whole number of at most 53 bits is a double. -/
theorem rounded_whole {n : ℤ} (small : |n| < 2 ^ 53) : rounded n = n := by
  obtain ⟨k, unit⟩ : ∃ k : ℕ, spacing n = 1 / 2 ^ k := by
    have low : max (Int.log 2 |(n : ℚ)|) (-1022) ≤ 52 := by
      refine max_le ?_ (by decide)
      by_cases zero : n = 0
      · rw [zero, Int.cast_zero, abs_zero, Int.log_zero_right]
        decide
      · have positive : (0 : ℚ) < |(n : ℚ)| := abs_pos.mpr (Int.cast_ne_zero.mpr zero)
        refine Int.lt_add_one_iff.mp ((Int.lt_zpow_iff_log_lt (by decide) positive).mp ?_)
        exact_mod_cast small
    refine ⟨(52 - max (Int.log 2 |(n : ℚ)|) (-1022)).toNat, ?_⟩
    have exponent : max (Int.log 2 |(n : ℚ)|) (-1022) - 52 =
        -((52 - max (Int.log 2 |(n : ℚ)|) (-1022)).toNat : ℤ) := by
      omega
    rw [spacing, exponent, zpow_neg, zpow_natCast, one_div]
  refine rounded_eq_iff.mpr ⟨n * 2 ^ k, ?_, ?_⟩
  · rw [unit]
    push_cast
    field_simp
  · have scaled : (n : ℚ) / spacing n = ((n * 2 ^ k : ℤ) : ℚ) := by
      rw [unit]
      push_cast
      field_simp
    rw [scaled]
    exact nearestEven_self _

/-- A double as its text is read. -/
inductive Double where
  | finite (x : ℚ)
  | infinite
  | nan
  deriving DecidableEq

end QueryHive.Library.Binary64
