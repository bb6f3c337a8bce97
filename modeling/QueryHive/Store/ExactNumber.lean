import QueryHive.Library.FixedPoint
import QueryHive.Store.Render

/-! The number an exact decimal stands for, and its text, which reads as that number. -/
namespace QueryHive.Store
open QueryHive.Library

/-- `unscaled / 10^scale`. -/
def decimalNumber (unscaled : BitVec 128) (scale : UInt8) : ℚ := (unscaled.toInt : ℚ) / 10 ^ scale.toNat

/-- `write_decimal` prints the digits with the point at the scale. -/
theorem writeDecimal_eq_printed (unscaled : BitVec 128) (scale : UInt8) :
    (writeDecimal unscaled scale).toList = FixedPoint.printed scale.toNat unscaled.toInt := by
  have zero : scale = 0 ↔ scale.toNat = 0 := by rw [← UInt8.toNat_inj]; rfl
  unfold writeDecimal FixedPoint.printed FixedPoint.magnitude
  by_cases none : scale = 0
  · rw [if_pos none, if_pos (zero.mp none), intText]
    split <;> simp [natText]
  · rw [if_neg none, if_neg fun h => none (zero.mpr h)]
    dsimp only
    generalize digits : Nat.toDigits 10 unscaled.toInt.natAbs = text
    have sign : (if unscaled.toInt < 0 then "-" else "").toList = if unscaled.toInt < 0 then ['-'] else [] := by
      split <;> rfl
    split
    · next short =>
      -- All digits are decimals: one zero before the point, the others fill the scale.
      have split : Numeral.padded (scale.toNat + 1) unscaled.toInt.natAbs =
          '0' :: (List.replicate (scale.toNat - text.length) '0' ++ text) := by
        rw [Numeral.padded, digits, Nat.succ_sub short, List.replicate_succ, List.cons_append]
      have length : ('0' :: (List.replicate (scale.toNat - text.length) '0' ++ text)).length - scale.toNat = 1 := by
        rw [List.length_cons, List.length_append, List.length_replicate]
        omega
      rw [split, length]
      simp [sign]
    · next long =>
      have split : Numeral.padded (scale.toNat + 1) unscaled.toInt.natAbs = text := by
        have none : scale.toNat + 1 - text.length = 0 := by omega
        rw [Numeral.padded, digits, none, List.replicate_zero, List.nil_append]
      rw [split]
      simp [sign]

theorem read_writeDecimal (unscaled : BitVec 128) (scale : UInt8) :
    FixedPoint.read (writeDecimal unscaled scale).toList = some (decimalNumber unscaled scale) := by
  rw [writeDecimal_eq_printed, FixedPoint.read_printed, decimalNumber]

theorem abs_decimalNumber_lt_iff (unscaled : BitVec 128) (scale : UInt8) (places : Nat) :
    |decimalNumber unscaled scale| < 10 ^ places ↔ unscaled.toInt.natAbs < 10 ^ (places + scale.toNat) := by
  have amount : |(unscaled.toInt : ℚ)| = (unscaled.toInt.natAbs : ℚ) := by rw [Nat.cast_natAbs, Int.cast_abs]
  rw [decimalNumber, abs_div, amount, abs_of_pos (by positivity : (0 : ℚ) < 10 ^ scale.toNat),
    div_lt_iff₀ (by positivity),
    ← pow_add]
  exact_mod_cast Iff.rfl

end QueryHive.Store
