import Mathlib.Data.List.TakeWhile
import Mathlib.Data.Rat.Cast.Order
import Mathlib.Tactic.FieldSimp
import Mathlib.Tactic.Positivity
import Mathlib.Tactic.Ring
import QueryHive.Library.Numeral

/-! Numbers with a fixed count of decimals as text. A number is printed as a whole
count of its last decimal, with a point before the decimals; reading it gives that
count divided by a power of ten. -/
namespace QueryHive.Library.FixedPoint
open Numeral

/-- Digits, and after a point the digits of the fraction. -/
def readMagnitude (text : List Char) : Option ℚ :=
  match text.dropWhile (· ≠ '.') with
  | [] => (readNat text).map fun whole : Nat => (whole : ℚ)
  | _ :: fraction =>
    (readNat (text.takeWhile (· ≠ '.'))).bind fun whole : Nat =>
      (readNat fraction).map fun part : Nat => (whole : ℚ) + part / 10 ^ fraction.length

/-- A number with an optional minus sign. -/
def read : List Char → Option ℚ
  | '-' :: rest => (readMagnitude rest).map fun number => -number
  | text => readMagnitude text

/-- The digits of a count of the last of `scale` decimals. -/
def magnitude (scale n : Nat) : List Char :=
  if scale = 0 then Nat.toDigits 10 n
  else
    let digits := padded (scale + 1) n
    digits.take (digits.length - scale) ++ '.' :: digits.drop (digits.length - scale)

/-- A count of the last of `scale` decimals. -/
def printed (scale : Nat) (n : Int) : List Char := (if n < 0 then ['-'] else []) ++ magnitude scale n.natAbs

theorem not_point_of_digits (digits : allDigits text) : ∀ c ∈ text, decide (c ≠ '.') = true := by
  intro c inside
  have digit := digit_of_allDigits digits inside
  rw [decide_eq_true_iff]
  rintro rfl
  exact absurd digit (by decide)

theorem readMagnitude_whole (nonempty : text ≠ []) (digits : allDigits text) :
    readMagnitude text = some (value text : ℚ) := by
  rw [readMagnitude, List.dropWhile_eq_nil_iff.mpr (not_point_of_digits digits)]
  dsimp only
  rw [readNat_digits nonempty digits, Option.map_some]

theorem readMagnitude_point (nonempty : whole ≠ []) (digits : allDigits whole)
    (nonempty' : fraction ≠ []) (digits' : allDigits fraction) :
    readMagnitude (whole ++ '.' :: fraction) = some ((value whole : ℚ) + value fraction / 10 ^ fraction.length) := by
  have front := not_point_of_digits digits
  have rest : (whole ++ '.' :: fraction).dropWhile (· ≠ '.') = '.' :: fraction := by
    rw [List.dropWhile_append_of_pos front, List.dropWhile_cons_of_neg (by decide)]
  have start : (whole ++ '.' :: fraction).takeWhile (· ≠ '.') = whole := by
    rw [List.takeWhile_append_of_pos front, List.takeWhile_cons_of_neg (by decide), List.append_nil]
  rw [readMagnitude, rest, start]
  dsimp only
  rw [readNat_digits nonempty digits, readNat_digits nonempty' digits', Option.bind_some, Option.map_some]

/-- The digits on both sides of the point. -/
theorem padded_split (scale n : Nat) :
    ∃ whole fraction, padded (scale + 1) n = whole ++ fraction ∧ whole ≠ [] ∧ fraction.length = scale ∧
      whole = (padded (scale + 1) n).take ((padded (scale + 1) n).length - scale) ∧
      fraction = (padded (scale + 1) n).drop ((padded (scale + 1) n).length - scale) := by
  have long : scale + 1 ≤ (padded (scale + 1) n).length := by
    rw [padded, List.length_append, List.length_replicate]
    omega
  refine ⟨_, _, (List.take_append_drop _ _).symm, ?_, ?_, rfl, rfl⟩
  · rw [← List.length_pos_iff, List.length_take]
    omega
  · rw [List.length_drop]
    omega

theorem readMagnitude_magnitude (scale n : Nat) : readMagnitude (magnitude scale n) = some ((n : ℚ) / 10 ^ scale) := by
  unfold magnitude
  split
  · next zero =>
    rw [readMagnitude_whole Nat.toDigits_ne_nil (allDigits_toDigits n), value_toDigits, zero, pow_zero, div_one]
  · next some_decimals =>
    obtain ⟨whole, fraction, split, nonempty, length, first, second⟩ := padded_split scale n
    have digits := allDigits_padded (scale + 1) n
    rw [split, allDigits_append, Bool.and_eq_true] at digits
    have nonempty' : fraction ≠ [] := by
      rw [← List.length_pos_iff, length]
      exact Nat.pos_of_ne_zero some_decimals
    have spelled : value whole * 10 ^ scale + value fraction = n := by
      rw [← length, ← value_append, ← split, value_padded]
    dsimp only
    rw [← first, ← second, readMagnitude_point nonempty digits.1 nonempty' digits.2, length, ← spelled]
    push_cast
    field_simp

theorem magnitude_cons (scale n : Nat) : ∃ first rest, magnitude scale n = first :: rest ∧ first.isDigit := by
  unfold magnitude
  split
  · cases digits : Nat.toDigits 10 n with
    | nil => exact absurd digits Nat.toDigits_ne_nil
    | cons first rest =>
      exact ⟨first, rest, rfl, digit_of_allDigits (allDigits_toDigits n) (digits ▸ List.mem_cons_self)⟩
  · obtain ⟨whole, fraction, split, nonempty, -, first, second⟩ := padded_split scale n
    dsimp only
    rw [← first, ← second]
    cases whole with
    | nil => exact absurd rfl nonempty
    | cons c rest =>
      refine ⟨c, rest ++ '.' :: fraction, rfl, isDigit_of_padded (split ▸ List.mem_append_left _ List.mem_cons_self)⟩

theorem read_unsigned (digit : first.isDigit) : read (first :: rest) = readMagnitude (first :: rest) := by
  unfold read
  split
  · next same =>
    rw [(List.cons.inj same).1] at digit
    exact absurd digit (by decide)
  · rfl

theorem read_printed (scale : Nat) (n : Int) : read (printed scale n) = some ((n : ℚ) / 10 ^ scale) := by
  unfold printed
  split
  · next negative =>
    have amount : ((n.natAbs : ℕ) : ℚ) = -(n : ℚ) := by
      rw [Nat.cast_natAbs, abs_of_neg negative, Int.cast_neg]
    rw [List.singleton_append, read, readMagnitude_magnitude, Option.map_some, amount, neg_div, neg_neg]
  · next positive =>
    have amount : ((n.natAbs : ℕ) : ℚ) = (n : ℚ) := by
      rw [Nat.cast_natAbs, abs_of_nonneg (Int.not_lt.mp positive)]
    obtain ⟨first, rest, spelled, digit⟩ := magnitude_cons scale n.natAbs
    rw [List.nil_append, spelled, read_unsigned digit, ← spelled, readMagnitude_magnitude, amount]

theorem digits_le_iff (n : Nat) (positive : 0 < count) : (Nat.toDigits 10 n).length ≤ count ↔ n < 10 ^ count :=
  Nat.length_toDigits_le_iff (by decide) positive

end QueryHive.Library.FixedPoint
