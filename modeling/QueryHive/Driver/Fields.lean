import Mathlib.Algebra.Ring.Int.Defs
import QueryHive.Library.Numeral
import QueryHive.Library.Text
import QueryHive.Store.Value

/-! The parts of a printed value that both drivers read with the same code: an
exact decimal, a field of seconds with its fraction, a clock. A server's own
spelling of each part stands beside its reader, and reading the spelling gives
the part back. -/
namespace QueryHive.Driver
open QueryHive.Library.Numeral QueryHive.Library.Text QueryHive.Store

/-- `i32::try_from`. -/
def toI32 (n : Int) : Option Int32 :=
  if -2 ^ 31 ≤ n ∧ n < 2 ^ 31 then some (Int32.ofInt n) else none

/-- The mantissa and the power of ten after `e` or `E`. -/
def splitExponent (digits : List Char) : Option (List Char × Int) :=
  match splitOnce (fun c => c == 'e' || c == 'E') digits with
  | some (mantissa, exponent) => (readSigned 32 exponent).map fun power => (mantissa, power)
  | none => some (digits, 0)

/-- `mantle_parts`: the digits before and after the point. -/
def mantleParts (mantissa : List Char) : Option (List Char × List Char) :=
  let (whole, fraction) := (splitOnce (· == '.') mantissa).getD (mantissa, [])
  if whole = [] ∧ fraction = [] then none
  else if !allDigits whole || !allDigits fraction then none
  else some (whole, fraction)

/-- The unscaled number of a decimal and its scale. A negative scale is spelled
out in zeros, at most 64 of them. -/
def scaleDigits (whole fraction : List Char) (exponent : Int) : Option (Nat × Nat) :=
  let scale := (fraction.length : Int) - exponent
  let combined := whole ++ fraction
  if scale < 0 then
    if (-scale).toNat > 64 then none
    else (readSigned 128 (combined ++ List.replicate (-scale).toNat '0')).map fun unscaled => (unscaled.toNat, 0)
  else if scale > 38 then none
  else (readSigned 128 combined).map fun unscaled => (unscaled.toNat, scale.toNat)

/-- The sign and what follows it; one `+` is dropped. -/
def splitSign (text : List Char) : Bool × List Char :=
  match text with
  | '-' :: rest => (true, rest)
  | text => (false, afterPlus text)

/-- `parse_decimal`: an exact decimal, without a float on the way. -/
def parseDecimal (text : List Char) : Option Value := do
  let (negative, digits) := splitSign (trim text)
  let (mantissa, exponent) ← splitExponent digits
  let (whole, fraction) ← mantleParts mantissa
  let (unscaled, scale) ← scaleDigits whole fraction exponent
  let signed : Int := if negative then -unscaled else unscaled
  some (.decimal (BitVec.ofInt 128 signed) (UInt8.ofNat scale))

/-- `parse_fraction`: one to six digits, padded to microseconds. -/
def parseFraction (fraction : List Char) : Option Int :=
  if fraction = [] ∨ fraction.length > 6 then none
  else if !allDigits fraction then none
  else (readSigned 64 fraction).map (· * 10 ^ (6 - fraction.length))

/-- A field of seconds, read with the caller's own integer type, and its fraction
in microseconds. -/
def parseSeconds (read : List Char → Option α) (field : List Char) : Option (α × Int) :=
  match splitOnce (· == '.') field with
  | some (seconds, fraction) => do
    let seconds ← read seconds
    let micros ← parseFraction fraction
    some (seconds, micros)
  | none => (read field).map fun seconds => (seconds, 0)

/-- A fraction of a second as a server holds it: `count` units of the last of
`digits` decimal places, up to six of them. -/
structure Fraction where
  digits : Nat
  count : Nat
  declared : digits ≤ 6
  fits : count < 10 ^ digits

def Fraction.micros (fraction : Fraction) : Nat := fraction.count * 10 ^ (6 - fraction.digits)

/-- The fraction after its point; nothing when no digit is declared. -/
def Fraction.text (fraction : Fraction) : List Char :=
  if fraction.digits = 0 then [] else '.' :: padded fraction.digits fraction.count

/-- `HH:MM:SS[.ffffff]`, with more digits of hours where there are more. -/
def clockText (hours minutes seconds : Nat) (fraction : Fraction) : List Char :=
  padded 2 hours ++ ':' :: (padded 2 minutes ++ ':' :: (padded 2 seconds ++ fraction.text))

/-- `YYYY-MM-DD` with each part in its width. -/
def dateText (year month day : Nat) : List Char :=
  padded 4 year ++ '-' :: (padded 2 month ++ '-' :: padded 2 day)

def signedText (value : Int) : List Char :=
  if value < 0 then '-' :: padded 1 value.natAbs else padded 1 value.natAbs

theorem padded_ne_char (symbol : c.isDigit = false) (inside : d ∈ padded width n) : (d == c) = false := by
  have digit := isDigit_of_padded inside
  exact beq_eq_false_iff_ne.mpr fun same => by simp [same, symbol] at digit

theorem Fraction.micros_lt (fraction : Fraction) : fraction.micros < 1000000 := by
  have bound : fraction.micros < 10 ^ fraction.digits * 10 ^ (6 - fraction.digits) :=
    Nat.mul_lt_mul_of_pos_right fraction.fits (Nat.pow_pos (by decide))
  rwa [← Nat.pow_add, Nat.add_sub_cancel' fraction.declared] at bound

theorem splitSign_of_digit (digit : first.isDigit) : splitSign (first :: rest) = (false, first :: rest) := by
  unfold splitSign
  split
  · next same => exact absurd digit (by simp [(List.cons.inj same).1])
  · unfold afterPlus
    split
    · next same => exact absurd digit (by simp [(List.cons.inj same).1])
    · rfl

theorem parseFraction_text (fraction : Fraction) (declared : 0 < fraction.digits) :
    parseFraction (padded fraction.digits fraction.count) = some (fraction.micros : Int) := by
  have length := length_padded declared fraction.fits
  have small : fraction.count < 2 ^ (64 - 1) :=
    calc fraction.count < 10 ^ fraction.digits := fraction.fits
      _ ≤ 10 ^ 6 := Nat.pow_le_pow_right (by decide) fraction.declared
      _ ≤ 2 ^ (64 - 1) := by decide
  have nonempty : ¬(padded fraction.digits fraction.count = [] ∨
    (padded fraction.digits fraction.count).length > 6) := by
    rw [length]
    exact not_or.mpr ⟨padded_ne_nil _ _, Nat.not_lt.mpr fraction.declared⟩
  rw [parseFraction, if_neg nonempty, allDigits_padded, signed_padded small, length]
  simp [Fraction.micros]

theorem parseSeconds_text {read : List Char → Option α} (fraction : Fraction)
    (whole : read (padded 2 seconds) = some x) :
    parseSeconds read (padded 2 seconds ++ fraction.text) = some (x, (fraction.micros : Int)) := by
  have clear : ∀ c ∈ padded 2 seconds, (c == '.') = false := fun _ inside => padded_ne_char rfl inside
  by_cases undeclared : fraction.digits = 0
  · have zero : fraction.count = 0 := by
      have fits := fraction.fits
      rw [undeclared] at fits
      omega
    rw [parseSeconds, Fraction.text, if_pos undeclared, List.append_nil, splitOnce_none clear]
    simp [whole, Fraction.micros, zero]
  · rw [parseSeconds, Fraction.text, if_neg undeclared, splitOnce_at clear rfl]
    simp [whole, parseFraction_text fraction (Nat.pos_of_ne_zero undeclared)]

/-- A printed clock begins and ends with a digit. -/
theorem clockText_cons (hours minutes seconds : Nat) (fraction : Fraction) :
    ∃ first rest, clockText hours minutes seconds fraction = first :: rest ∧ first.isDigit := by
  obtain ⟨first, rest, printed, digit⟩ := padded_cons 2 hours
  exact ⟨first, _, by rw [clockText, printed, List.cons_append], digit⟩

theorem clockText_concat (hours minutes seconds : Nat) (fraction : Fraction) :
    ∃ start last, clockText hours minutes seconds fraction = start ++ [last] ∧ last.isDigit := by
  by_cases undeclared : fraction.digits = 0
  · obtain ⟨start, last, printed, digit⟩ := padded_concat 2 seconds
    refine ⟨padded 2 hours ++ ':' :: (padded 2 minutes ++ ':' :: start), last, ?_, digit⟩
    simp [clockText, Fraction.text, undeclared, printed]
  · obtain ⟨start, last, printed, digit⟩ := padded_concat fraction.digits fraction.count
    refine ⟨padded 2 hours ++ ':' :: (padded 2 minutes ++ ':' :: (padded 2 seconds ++ '.' :: start)), last, ?_, digit⟩
    simp [clockText, Fraction.text, undeclared, printed]

theorem trim_between_digits (first : ∃ c rest, text = c :: rest ∧ isWhitespace c = false)
    (last : ∃ start d, text = start ++ [d] ∧ d.isDigit) : trim text = text := by
  obtain ⟨c, rest, front, plain⟩ := first
  obtain ⟨start, d, back, digit⟩ := last
  refine trim_of_ends ?_ ?_
  · intro e head
    rw [front, List.head?_cons, Option.some.injEq] at head
    exact head ▸ plain
  · intro e final
    rw [back, List.getLast?_concat, Option.some.injEq] at final
    exact final ▸ digit_not_whitespace digit

theorem seconds_no_colon (seconds : Nat) (fraction : Fraction) : ':' ∉ padded 2 seconds ++ fraction.text := by
  intro inside
  rcases List.mem_append.mp inside with whole | point
  · exact absurd (isDigit_of_padded whole) (by decide)
  · unfold Fraction.text at point
    split at point
    · exact absurd point List.not_mem_nil
    · rcases List.mem_cons.mp point with dot | digit
      · exact absurd dot (by decide)
      · exact absurd (isDigit_of_padded digit) (by decide)

/-- A printed clock splits into its three fields, whatever stands before its hours. -/
theorem clockText_fields_after (lead : List Char) (plain : ':' ∉ lead) (hours minutes seconds : Nat)
    (fraction : Fraction) :
    (lead ++ clockText hours minutes seconds fraction).splitOn ':' =
      [lead ++ padded 2 hours, padded 2 minutes, padded 2 seconds ++ fraction.text] := by
  have digits : ∀ n, ':' ∉ padded 2 n := fun n inside => absurd (isDigit_of_padded inside) (by decide)
  have first : ':' ∉ lead ++ padded 2 hours := fun inside =>
    (List.mem_append.mp inside).elim plain (digits hours)
  rw [clockText, ← List.append_assoc, List.splitOn_append_cons_self_of_not_mem first,
    List.splitOn_append_cons_self_of_not_mem (digits minutes),
    List.splitOn_eq_singleton (seconds_no_colon seconds fraction)]

theorem clockText_fields (hours minutes seconds : Nat) (fraction : Fraction) :
    (clockText hours minutes seconds fraction).splitOn ':' =
      [padded 2 hours, padded 2 minutes, padded 2 seconds ++ fraction.text] :=
  clockText_fields_after [] List.not_mem_nil hours minutes seconds fraction

theorem dateText_parts (year month day : Nat) :
    splitN (· == '-') 3 (dateText year month day) = [padded 4 year, padded 2 month, padded 2 day] := by
  have plain : ∀ width n, ∀ c ∈ padded width n, (c == '-') = false :=
    fun _ _ _ inside => padded_ne_char rfl inside
  rw [dateText, splitN_at (plain _ _) rfl, splitN_at (plain _ _) rfl, splitN]

theorem dateText_clear (year month day : Nat) : ∀ c ∈ dateText year month day, c.isDigit ∨ c = '-' := by
  intro c inside
  simp only [dateText, List.mem_append, List.mem_cons] at inside
  rcases inside with year | dash | month | dash | day
  · exact .inl (isDigit_of_padded year)
  · exact .inr dash
  · exact .inl (isDigit_of_padded month)
  · exact .inr dash
  · exact .inl (isDigit_of_padded day)

theorem dateText_not_whitespace (year month day : Nat) : ∀ c ∈ dateText year month day, isWhitespace c = false := by
  intro c inside
  rcases dateText_clear year month day c inside with digit | dash
  · exact digit_not_whitespace digit
  · rw [dash]
    decide

theorem dateText_no_break (year month day : Nat) :
    ∀ c ∈ dateText year month day, (c == ' ' || c == 'T') = false := by
  intro c inside
  rcases dateText_clear year month day c inside with digit | dash
  · rw [Bool.or_eq_false_iff]
    exact ⟨beq_eq_false_iff_ne.mpr fun same => by simp [same] at digit,
      beq_eq_false_iff_ne.mpr fun same => by simp [same] at digit⟩
  · rw [dash]
    decide

theorem dateText_cons (year month day : Nat) :
    ∃ first rest, dateText year month day = first :: rest ∧ first.isDigit := by
  obtain ⟨first, rest, printed, digit⟩ := padded_cons 4 year
  exact ⟨first, _, by rw [dateText, printed, List.cons_append], digit⟩

theorem readSigned_text (low : -2 ^ 63 ≤ n) (high : n < 2 ^ 63) : readSigned 64 (signedText n) = some n := by
  unfold signedText
  split
  · next negative =>
    rw [signed_negative_padded (by omega)]
    exact congrArg some (by omega)
  · next nonnegative =>
    rw [signed_padded (by omega)]
    exact congrArg some (by omega)

/-- The fraction of a second in so many microseconds, without trailing zeros. -/
def Fraction.ofMicros (micros : Nat) : Fraction :=
  have spec := trimZeros_spec (Nat.mod_lt micros (by decide) : micros % 1000000 < 10 ^ 6)
  ⟨_, _, spec.1, spec.2.1⟩

theorem Fraction.micros_ofMicros (micros : Nat) : (Fraction.ofMicros micros).micros = micros % 1000000 :=
  (trimZeros_spec (Nat.mod_lt micros (by decide) : micros % 1000000 < 10 ^ 6)).2.2

def clockOf (micros : Nat) : List Char :=
  clockText (micros / 3600000000) (micros / 60000000 % 60) (micros / 1000000 % 60) (.ofMicros micros)

/-- A printed clock holds digits, colons and a point. -/
theorem clockText_clear (hours minutes seconds : Nat) (fraction : Fraction) :
    ∀ c ∈ clockText hours minutes seconds fraction, c.isDigit ∨ c = ':' ∨ c = '.' := by
  have ends : ∀ c ∈ fraction.text, c.isDigit ∨ c = ':' ∨ c = '.' := by
    intro c inside
    unfold Fraction.text at inside
    split at inside
    · exact absurd inside List.not_mem_nil
    · rcases List.mem_cons.mp inside with point | digit
      · exact .inr (.inr point)
      · exact .inl (isDigit_of_padded digit)
  intro c inside
  simp only [clockText, List.mem_append, List.mem_cons] at inside
  rcases inside with hours | colon | minutes | colon | seconds | fraction
  · exact .inl (isDigit_of_padded hours)
  · exact .inr (.inl colon)
  · exact .inl (isDigit_of_padded minutes)
  · exact .inr (.inl colon)
  · exact .inl (isDigit_of_padded seconds)
  · exact ends c fraction

theorem clockText_not_whitespace (hours minutes seconds : Nat) (fraction : Fraction) :
    ∀ c ∈ clockText hours minutes seconds fraction, isWhitespace c = false := by
  intro c inside
  rcases clockText_clear hours minutes seconds fraction c inside with digit | colon | point
  · exact digit_not_whitespace digit
  · rw [colon]
    decide
  · rw [point]
    decide

end QueryHive.Driver
