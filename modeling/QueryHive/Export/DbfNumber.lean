import QueryHive.Export.Dbf
import QueryHive.Library.Ascii
import QueryHive.Library.Rounding
import QueryHive.Store.ExactNumber

/-! What a numeric field of a dBase file says. A number that fits its field is right, one that
does not is written as asterisks and counted. Between the two stands the arithmetic of the
rescaling: where it leaves its 128 bits a debug build stops, and a release build goes on with the
digits of another number. -/
namespace QueryHive.Export.Dbf
open QueryHive.Library QueryHive.Store Rounding Ascii

/-- A numeric field as a reader takes it, without the blanks in front. -/
def readNumber (bytes : List UInt8) : Option ℚ := FixedPoint.read ((bytes.map charOf).dropWhile (· = ' '))

/-- The field has its width, ends with a digit's byte and reads as `x` rounded half to even. -/
def Right (width : Nat) (decimals : UInt8) (x : ℚ) (bytes : List UInt8) : Prop :=
  bytes.length = width ∧ bytes.getLast? ≠ some 0x20 ∧
    ∃ n : ℤ, NearestEven (x * 10 ^ decimals.toNat) n ∧ readNumber bytes = some ((n : ℚ) / 10 ^ decimals.toNat)

/-- What is written of `x` is right, or asterisks that are counted; the process does not stop. -/
def RightOrAbsent (width : Nat) (decimals : UInt8) (x : ℚ) : Option (List UInt8 × Bool) → Prop
  | none => False
  | some (bytes, cut) => (cut = false ∧ Right width decimals x bytes) ∨ (cut = true ∧ bytes = List.replicate width 0x2a)

/-- The characters of a number. -/
def Plain (text : List Char) : Prop := text ≠ [] ∧ ∀ c ∈ text, c.isDigit ∨ c = '.' ∨ c = '-'

theorem plain_ascii (plain : Plain text) : IsAscii text := by
  intro c inside
  rcases plain.2 c inside with digit | rfl | rfl
  · exact isAscii_of_digits (List.forall_mem_singleton.mpr digit) c List.mem_cons_self
  · decide
  · decide

theorem plain_not_blank (plain : Plain text) : ∀ c ∈ text, c ≠ ' ' := by
  rintro _ inside rfl
  rcases plain.2 _ inside with digit | point | minus
  · exact absurd digit (by decide)
  · exact absurd point (by decide)
  · exact absurd minus (by decide)

theorem plain_of_digits (nonempty : text ≠ []) (digits : Numeral.allDigits text) : Plain text :=
  ⟨nonempty, fun _ inside => .inl (Numeral.digit_of_allDigits digits inside)⟩

theorem plain_point (first : Plain whole) (second : Numeral.allDigits fraction) : Plain (whole ++ '.' :: fraction) := by
  refine ⟨by simp, ?_⟩
  intro c inside
  rcases List.mem_append.mp inside with front | later
  · exact first.2 c front
  · rcases List.mem_cons.mp later with rfl | digit
    · exact .inr (.inl rfl)
    · exact .inl (Numeral.digit_of_allDigits second digit)

theorem plain_minus (plain : Plain text) : Plain ('-' :: text) :=
  ⟨List.cons_ne_nil _ _, List.forall_mem_cons.mpr ⟨.inr (.inr rfl), plain.2⟩⟩

theorem plain_magnitude (scale n : Nat) : Plain (FixedPoint.magnitude scale n) := by
  unfold FixedPoint.magnitude
  split
  · exact plain_of_digits Nat.toDigits_ne_nil (Numeral.allDigits_toDigits n)
  · obtain ⟨whole, fraction, split, nonempty, -, first, second⟩ := FixedPoint.padded_split scale n
    have digits := Numeral.allDigits_padded (scale + 1) n
    rw [split, Numeral.allDigits_append, Bool.and_eq_true] at digits
    dsimp only
    rw [← first, ← second]
    exact plain_point (plain_of_digits nonempty digits.1) digits.2

theorem plain_printed (scale : Nat) (n : Int) : Plain (FixedPoint.printed scale n) := by
  unfold FixedPoint.printed
  split
  · exact plain_minus (plain_magnitude scale n.natAbs)
  · exact plain_magnitude scale n.natAbs

/-- The last step of a numeric field. -/
def placed (width : Nat) (text : List Char) : List UInt8 × Bool :=
  if width < text.length then (List.replicate width 0x2a, true)
  else (blanks (width - text.length) ++ text.map byteOf, false)

theorem encode_text {field : Field} (numeric : field.kind = .numeric) (some_value : value ≠ .null)
    (plain : Plain text.toList) (spelled : numericText build floats value field.decimals = some (some text)) :
    encode build floats value field codec = some (placed field.width text.toList) := by
  have bytes : Text.utf8 text = text.toList.map byteOf := by
    rw [utf8_eq, encodeUtf8_ascii (plain_ascii plain)]
  unfold encode
  rw [numeric]
  cases value with
  | null => exact absurd rfl some_value
  | _ =>
    dsimp only
    rw [spelled, Option.map_some]
    dsimp only
    rw [bytes, List.length_map, placed]

theorem read_placed (plain : Plain text) (k : Nat) :
    readNumber (blanks k ++ text.map byteOf) = FixedPoint.read text := by
  have front : (blanks k).map charOf = List.replicate k ' ' := by
    rw [blanks, List.map_replicate]
    rfl
  have skipped : ∀ c ∈ List.replicate k ' ', decide (c = ' ') = true := by
    intro c inside
    rw [List.eq_of_mem_replicate inside]
    rfl
  rw [readNumber, List.map_append, front, map_charOf (plain_ascii plain), List.dropWhile_append_of_pos skipped]
  cases text with
  | nil => exact absurd rfl plain.1
  | cons c rest =>
    have other := plain_not_blank plain c List.mem_cons_self
    rw [List.dropWhile_cons_of_neg (by simpa using other)]

/-- The text of `m` in its field is right exactly when `m` is the rounded number or too wide. -/
theorem placed_iff {m : ℤ} (plain : Plain text) (spells : FixedPoint.read text = some ((m : ℚ) / 10 ^ decimals.toNat)) :
    RightOrAbsent width decimals x (some (placed width text)) ↔
      width < text.length ∨ NearestEven (x * 10 ^ decimals.toNat) m := by
  have power : (10 : ℚ) ^ decimals.toNat ≠ 0 := by positivity
  unfold placed
  split
  · next wide => exact iff_of_true (.inr ⟨rfl, rfl⟩) (.inl wide)
  · next fits =>
    constructor
    · rintro (⟨-, -, -, n, nearest, read⟩ | ⟨counted, -⟩)
      · rw [read_placed plain, spells, Option.some.injEq, div_left_inj' power] at read
        have same : m = n := by exact_mod_cast read
        exact .inr (same ▸ nearest)
      · cases counted
    · rintro (wide | nearest)
      · exact absurd wide fits
      · refine .inl ⟨rfl, ?_, ?_, m, nearest, ?_⟩
        · rw [List.length_append, blanks, List.length_replicate, List.length_map]
          omega
        · rw [List.getLast?_append_of_ne_nil _ (by simpa using plain.1), List.getLast?_map]
          intro blank
          obtain ⟨c, last, byte⟩ := Option.map_eq_some_iff.mp blank
          have inside := List.mem_of_getLast? last
          exact plain_not_blank plain c inside (byteOf_inj (plain_ascii plain c inside) (by decide) byte)
        · rw [read_placed plain, spells]

theorem withPlaces_eq (digits : String) (places : Nat) :
    (withPlaces digits places).toList =
      if places = 0 then digits.toList else digits.toList ++ '.' :: List.replicate places '0' := by
  unfold withPlaces
  split <;> simp

theorem zeros_digits (places : Nat) : Numeral.allDigits (List.replicate places '0') := by
  rw [Numeral.allDigits, List.all_eq_true]
  intro c inside
  rw [List.eq_of_mem_replicate inside]
  rfl

theorem value_zeros (places : Nat) : Numeral.value (List.replicate places '0') = 0 :=
  Numeral.value_zeros fun _ inside => List.eq_of_mem_replicate inside

theorem plain_withPlaces (places : Nat) (plain : Plain digits.toList) : Plain (withPlaces digits places).toList := by
  rw [withPlaces_eq]
  split
  · exact plain
  · exact plain_point plain (zeros_digits places)

theorem read_natText (n places : Nat) :
    FixedPoint.readMagnitude (withPlaces (natText n) places).toList = some (n : ℚ) := by
  have digits := Numeral.allDigits_toDigits n
  rw [withPlaces_eq, natText, String.toList_ofList]
  split
  · rw [FixedPoint.readMagnitude_whole Nat.toDigits_ne_nil digits, Numeral.value_toDigits]
  · next some_places =>
    have nonempty : List.replicate places '0' ≠ [] := by simpa using some_places
    rw [FixedPoint.readMagnitude_point Nat.toDigits_ne_nil digits nonempty (zeros_digits places),
      Numeral.value_toDigits, value_zeros]
    simp

theorem natText_plain (n : Nat) : Plain (natText n).toList := by
  rw [natText, String.toList_ofList]
  exact plain_of_digits Nat.toDigits_ne_nil (Numeral.allDigits_toDigits n)

theorem intText_plain (n : Int) : Plain (intText n).toList := by
  unfold intText
  split
  · rw [String.toList_append]
    exact plain_minus (natText_plain n.natAbs)
  · rw [String.toList_append]
    exact natText_plain n.natAbs

theorem natText_cons (n places : Nat) :
    ∃ first rest, (withPlaces (natText n) places).toList = first :: rest ∧ first.isDigit := by
  rw [withPlaces_eq, natText, String.toList_ofList]
  cases digits : Nat.toDigits 10 n with
  | nil => exact absurd digits Nat.toDigits_ne_nil
  | cons first rest =>
    have digit := Numeral.digit_of_allDigits (Numeral.allDigits_toDigits n) (digits ▸ List.mem_cons_self)
    split
    · exact ⟨first, rest, rfl, digit⟩
    · exact ⟨first, _, rfl, digit⟩

theorem read_unsigned_places (n places : Nat) :
    FixedPoint.read (withPlaces (natText n) places).toList = some (n : ℚ) := by
  obtain ⟨first, rest, spelled, digit⟩ := natText_cons n places
  rw [← read_natText n places, spelled, FixedPoint.read_unsigned digit]

theorem read_signed_places (n : Int) (places : Nat) :
    FixedPoint.read (withPlaces (intText n) places).toList = some (n : ℚ) := by
  have amount : ((n.natAbs : ℕ) : ℚ) = |(n : ℚ)| := by rw [Nat.cast_natAbs, Int.cast_abs]
  unfold intText
  split
  · next negative =>
    have front : (withPlaces ("-" ++ natText n.natAbs) places).toList =
        '-' :: (withPlaces (natText n.natAbs) places).toList := by
      rw [withPlaces_eq, withPlaces_eq, String.toList_append]
      split <;> rfl
    have sign : |(n : ℚ)| = -n := abs_of_neg (by exact_mod_cast negative)
    rw [front, FixedPoint.read, read_natText, Option.map_some, amount, sign, neg_neg]
  · next positive =>
    have empty : "" ++ natText n.natAbs = natText n.natAbs := String.empty_append
    have sign : |(n : ℚ)| = n := abs_of_nonneg (by exact_mod_cast Int.not_lt.mp positive)
    rw [empty, read_unsigned_places, amount, sign]

theorem integer_right (plain : Plain text) (spells : FixedPoint.read text = some ((n : ℤ) : ℚ)) :
    RightOrAbsent width decimals n (some (placed width text)) := by
  have scaled : (n : ℚ) = ((n * 10 ^ decimals.toNat : ℤ) : ℚ) / 10 ^ decimals.toNat := by
    push_cast
    field_simp
  refine (placed_iff plain (spells.trans (congrArg some scaled))).mpr (.inr ?_)
  exact_mod_cast nearestEven_self _

/-- The power of ten and the product stay within 128 bits. -/
def Exact (unscaled : Int) (scale places : Nat) : Prop :=
  if scale ≤ places then InI128 (10 ^ (places - scale)) ∧ InI128 (unscaled * 10 ^ (places - scale))
  else scale - places ≤ 38

/-- What wraps around is the number all the same, or too wide for the field to show. -/
def Harmless (width : Nat) (unscaled : Int) (scale places : Nat) : Prop :=
  if scale ≤ places then
    let wrapped := (unscaled * 10 ^ (places - scale)).bmod (2 ^ 128)
    wrapped = unscaled * 10 ^ (places - scale) ∨ width < (FixedPoint.printed places wrapped).length
  else
    let wrapped := divideHalfEven unscaled (Int.bmod (10 ^ (scale - places)) (2 ^ 128))
    scale - places < 128 ∧ (wrapped = 0 ∨ width < (FixedPoint.printed places wrapped).length)

theorem inI128_toInt (unscaled : BitVec 128) : InI128 unscaled.toInt := by
  have low := BitVec.le_two_mul_toInt (x := unscaled)
  have high := BitVec.two_mul_toInt_lt (x := unscaled)
  norm_num at low high
  unfold InI128
  norm_num
  omega

theorem keepI128_some (build : Build) (range : InI128 n) : keepI128 build n = some n := if_pos range

theorem inI128_bmod (n : Int) : InI128 (n.bmod (2 ^ 128)) := by
  have low := Int.le_bmod (x := n) (m := 2 ^ 128) (by decide)
  have high := Int.bmod_lt (x := n) (m := 2 ^ 128) (by decide)
  norm_num at low high
  unfold InI128
  norm_num
  omega

theorem keepI128_release (n : Int) : keepI128 .release n = some (n.bmod (2 ^ 128)) := by
  unfold keepI128
  split
  · next range =>
    unfold InI128 at range
    norm_num at range
    rw [Int.bmod_eq_of_le] <;> norm_num <;> omega
  · rfl

/-- A quotient by two or more is half the number at most, and a step away from zero is in range too. -/
theorem quotient_range (range : InI128 a) (large : 2 ≤ b.natAbs) :
    InI128 (a.tdiv b) ∧ InI128 (a.tdiv b + if a < 0 then -1 else 1) := by
  have bound : 2 * (a.tdiv b).natAbs ≤ a.natAbs := by
    rw [Int.natAbs_tdiv]
    calc 2 * (a.natAbs / b.natAbs) ≤ b.natAbs * (a.natAbs / b.natAbs) := Nat.mul_le_mul_right _ large
      _ ≤ a.natAbs := Nat.mul_div_le _ _
  unfold InI128 at range ⊢
  norm_num at range ⊢
  constructor
  · omega
  · split <;> omega

theorem divideHalfEven_range (range : InI128 a) (large : 2 ≤ b.natAbs) : InI128 (divideHalfEven a b) := by
  obtain ⟨quotient, away⟩ := quotient_range range large
  unfold divideHalfEven
  dsimp only
  split
  · exact away
  · exact quotient
  · split
    · exact quotient
    · exact away

theorem divideRounded_eq (build : Build) (range : InI128 a) (range' : InI128 b) (large : 2 ≤ b.natAbs) :
    divideRounded build a b = some (divideHalfEven a b) := by
  have nonzero : b ≠ 0 := by
    rintro rfl
    exact absurd large (by decide)
  obtain ⟨quotient, away⟩ := quotient_range range large
  have rest : (a.tmod b).natAbs < b.natAbs := by
    rw [Int.natAbs_tmod]
    exact Nat.mod_lt _ (by omega)
  have small : b.natAbs ≤ 2 ^ 127 := by
    unfold InI128 at range'
    norm_num at range' ⊢
    omega
  have twice : doubled build (a.tmod b) = some (2 * (a.tmod b).natAbs) := if_pos (by omega)
  have divided : divI128 a b = some (a.tdiv b) := if_neg (by simp [nonzero, quotient])
  have left : remI128 a b = some (a.tmod b) := if_neg (by simp [nonzero, quotient])
  unfold divideRounded divideHalfEven
  rw [divided, left, Option.bind_eq_bind, Option.bind_some, Option.bind_eq_bind, Option.bind_some, twice]
  dsimp only [Option.bind_some]
  rw [keepI128_some build away]
  cases compare (2 * (a.tmod b).natAbs) b.natAbs with
  | lt => rfl
  | gt => rfl
  | eq =>
    dsimp only
    split <;> rfl

theorem shift_exact (build : Build) (range : InI128 unscaled) (exact_ : Exact unscaled scale places) :
    shift build unscaled scale places =
      if scale ≤ places then some (unscaled * 10 ^ (places - scale))
      else some (divideHalfEven unscaled (10 ^ (scale - places))) := by
  unfold Exact at exact_
  unfold shift
  split
  · next more =>
    rw [if_pos more] at exact_
    rw [powTen, keepI128_some build exact_.1, Option.bind_eq_bind, Option.bind_some, keepI128_some build exact_.2]
  · next fewer =>
    rw [if_neg fewer] at exact_
    have least : (10 : ℤ) ^ 1 ≤ 10 ^ (scale - places) := pow_le_pow_right₀ (by decide) (by omega)
    have most : (10 : ℤ) ^ (scale - places) ≤ 10 ^ 38 := pow_le_pow_right₀ (by decide) exact_
    have divisor : InI128 (10 ^ (scale - places)) := by
      unfold InI128
      norm_num at least most ⊢
      omega
    rw [powTen, keepI128_some build divisor, Option.bind_eq_bind, Option.bind_some,
      divideRounded_eq build range divisor (by omega)]

theorem shift_debug (inexact : ¬Exact unscaled scale places) : shift .debug unscaled scale places = none := by
  unfold Exact at inexact
  unfold shift
  split
  · next more =>
    rw [if_pos more] at inexact
    by_cases power : InI128 (10 ^ (places - scale))
    · have product : ¬InI128 (unscaled * 10 ^ (places - scale)) := fun inside => inexact ⟨power, inside⟩
      rw [powTen, keepI128_some .debug power, Option.bind_eq_bind, Option.bind_some, keepI128, if_neg product]
    · rw [powTen, keepI128, if_neg power]
      rfl
  · next fewer =>
    rw [if_neg fewer] at inexact
    have power : ¬InI128 (10 ^ (scale - places)) := by
      intro inside
      have least : (10 : ℤ) ^ 39 ≤ 10 ^ (scale - places) := pow_le_pow_right₀ (by decide) (by omega)
      have below := inside.2
      norm_num at least below
      omega
    rw [powTen, keepI128, if_neg power]
    rfl

theorem shift_release_more (more : scale ≤ places) :
    shift .release unscaled scale places = some ((unscaled * 10 ^ (places - scale)).bmod (2 ^ 128)) := by
  rw [shift, if_pos more, powTen, keepI128_release, Option.bind_eq_bind, Option.bind_some, keepI128_release,
    Int.mul_bmod_bmod]

/-- From 128 places on the power of ten wraps around to zero, and the division stops every build. -/
theorem shift_release_far (fewer : ¬scale ≤ places) (far : 128 ≤ scale - places) :
    shift .release unscaled scale places = none := by
  have divides : ((2 ^ 128 : ℕ) : ℤ) ∣ 10 ^ (scale - places) := by
    have split : (10 : ℤ) ^ (scale - places) = 2 ^ (scale - places) * 5 ^ (scale - places) := by
      rw [← mul_pow]
      rfl
    rw [split]
    exact Dvd.dvd.mul_right (by exact_mod_cast pow_dvd_pow (2 : ℤ) far) _
  have zero : Int.bmod (10 ^ (scale - places)) (2 ^ 128) = 0 := by
    obtain ⟨k, product⟩ := divides
    rw [product, Int.mul_bmod_right]
  rw [shift, if_neg fewer, powTen, keepI128_release, zero]
  rfl

/-- Up to 127 places the power of ten wraps around to an even number that is not zero. -/
theorem wrapped_power_large (some_places : 0 < k) (near : k < 128) : 2 ≤ (Int.bmod (10 ^ k) (2 ^ 128)).natAbs := by
  have split : (10 : ℤ) ^ k = 2 ^ k * 5 ^ k := by
    rw [← mul_pow]
    rfl
  have whole := Int.bdiv_add_bmod (10 ^ k) (2 ^ 128)
  have nonzero : Int.bmod (10 ^ k) (2 ^ 128) ≠ 0 := by
    intro zero
    rw [zero, add_zero, split] at whole
    have divides : 2 ^ 128 ∣ 2 ^ k * 5 ^ k := by exact_mod_cast Dvd.intro _ whole
    have coprime : Nat.Coprime (2 ^ 128) (5 ^ k) := Nat.Coprime.pow _ _ (by decide)
    have small := Nat.le_of_dvd (by positivity) (coprime.dvd_of_dvd_mul_right divides)
    have less : 2 ^ k < 2 ^ 128 := Nat.pow_lt_pow_right (by decide) near
    omega
  have even : (2 : ℤ) ∣ Int.bmod (10 ^ k) (2 ^ 128) := by
    have first : (2 : ℤ) ∣ 10 ^ k := dvd_pow (by decide) some_places.ne'
    omega
  omega

theorem shift_release_fewer (range : InI128 unscaled) (fewer : ¬scale ≤ places) (near : scale - places < 128) :
    shift .release unscaled scale places =
      some (divideHalfEven unscaled (Int.bmod (10 ^ (scale - places)) (2 ^ 128))) := by
  rw [shift, if_neg fewer, powTen, keepI128_release, Option.bind_eq_bind, Option.bind_some,
    divideRounded_eq .release range (inI128_bmod _) (wrapped_power_large (by omega) near)]

def amount : Value → Option ℚ
  | .int n => some n.toInt
  | .uint n => some n.toNat
  | .decimal unscaled scale => some (decimalNumber unscaled scale)
  | _ => none

/-- When the field of a value is right, or asterisks: always for an integer, and for a decimal when its
rescaling stays in range or, in a release build, leaves nothing that shows. -/
def Representable (build : Build) (field : Field) : Value → Prop
  | .decimal unscaled scale =>
    Exact unscaled.toInt scale.toNat field.decimals.toNat ∨
      build = .release ∧ Harmless field.width unscaled.toInt scale.toNat field.decimals.toNat
  | _ => True

theorem scaled_more (more : scale.toNat ≤ places) :
    decimalNumber unscaled scale * 10 ^ places = ((unscaled.toInt * 10 ^ (places - scale.toNat) : ℤ) : ℚ) := by
  have power : (10 : ℚ) ^ places = 10 ^ (places - scale.toNat) * 10 ^ scale.toNat := by
    rw [← pow_add, Nat.sub_add_cancel more]
  rw [decimalNumber, power]
  push_cast
  field_simp

theorem scaled_fewer (fewer : ¬scale.toNat ≤ places) :
    decimalNumber unscaled scale * 10 ^ places = (unscaled.toInt : ℚ) / ((10 ^ (scale.toNat - places) : ℤ) : ℚ) := by
  have power : (10 : ℚ) ^ scale.toNat = 10 ^ (scale.toNat - places) * 10 ^ places := by
    rw [← pow_add, Nat.sub_add_cancel (Nat.le_of_not_le fewer)]
  rw [decimalNumber, power]
  push_cast
  field_simp

/-- From 39 places on every `i128` is less than half of the last place. -/
theorem scaled_tiny (unscaled : BitVec 128) (far : 38 < scale.toNat - places) :
    NearestEven (decimalNumber unscaled scale * 10 ^ places) 0 := by
  apply nearestEven_zero
  have least : (10 : ℚ) ^ 39 ≤ 10 ^ (scale.toNat - places) := pow_le_pow_right₀ (by norm_num) far
  have range := inI128_toInt unscaled
  have size : |(unscaled.toInt : ℚ)| ≤ 2 ^ 127 := by
    unfold InI128 at range
    have bound : |unscaled.toInt| ≤ 2 ^ 127 := abs_le.mpr ⟨range.1, le_of_lt range.2⟩
    exact_mod_cast bound
  rw [scaled_fewer (by omega), abs_div]
  push_cast
  rw [abs_of_pos (by positivity : (0 : ℚ) < 10 ^ (scale.toNat - places)), div_le_iff₀ (by positivity)]
  norm_num at size least
  linarith

theorem encode_decimal {field : Field} (numeric : field.kind = .numeric)
    (shifted : shift build unscaled.toInt scale.toNat field.decimals.toNat = some m) (range : InI128 m) :
    encode build floats (.decimal unscaled scale) field codec =
      some (placed field.width (FixedPoint.printed field.decimals.toNat m)) := by
  have held : (BitVec.ofInt 128 m).toInt = m := by
    unfold InI128 at range
    norm_num at range
    rw [BitVec.toInt_ofInt, Int.bmod_eq_of_le] <;> norm_num <;> omega
  have text : (writeDecimal (BitVec.ofInt 128 m) field.decimals).toList =
      FixedPoint.printed field.decimals.toNat m := by
    rw [writeDecimal_eq_printed, held]
  have spelled : numericText build floats (.decimal unscaled scale) field.decimals =
      some (some (writeDecimal (BitVec.ofInt 128 m) field.decimals)) := by
    dsimp only [numericText, rescale]
    rw [shifted, Option.map_some, Option.map_some]
  rw [encode_text numeric (by simp) (text ▸ plain_printed _ m) spelled, text]

theorem encode_stopped {field : Field} (numeric : field.kind = .numeric)
    (stopped : shift build unscaled.toInt scale.toNat field.decimals.toNat = none) :
    encode build floats (.decimal unscaled scale) field codec = none := by
  unfold encode
  rw [numeric]
  dsimp only [numericText, rescale]
  rw [stopped]
  rfl

theorem decimal_right_iff {field : Field} {m : ℤ} (numeric : field.kind = .numeric)
    (shifted : shift build unscaled.toInt scale.toNat field.decimals.toNat = some m) (range : InI128 m) :
    RightOrAbsent field.width field.decimals (decimalNumber unscaled scale)
        (encode build floats (.decimal unscaled scale) field codec) ↔
      field.width < (FixedPoint.printed field.decimals.toNat m).length ∨
        NearestEven (decimalNumber unscaled scale * 10 ^ field.decimals.toNat) m := by
  rw [encode_decimal numeric shifted range]
  exact placed_iff (plain_printed _ m) (FixedPoint.read_printed _ m)

theorem exact_right {field : Field} (numeric : field.kind = .numeric)
    (exact_ : Exact unscaled.toInt scale.toNat field.decimals.toNat) :
    RightOrAbsent field.width field.decimals (decimalNumber unscaled scale)
      (encode build floats (.decimal unscaled scale) field codec) := by
  have shifted := shift_exact build (inI128_toInt unscaled) exact_
  unfold Exact at exact_
  split at shifted
  · next more =>
    rw [if_pos more] at exact_
    rw [decimal_right_iff numeric shifted exact_.2, scaled_more more]
    exact .inr (nearestEven_self _)
  · next fewer =>
    have least : (10 : ℤ) ^ 1 ≤ 10 ^ (scale.toNat - field.decimals.toNat) := pow_le_pow_right₀ (by decide) (by omega)
    rw [decimal_right_iff numeric shifted (divideHalfEven_range (inI128_toInt unscaled) (by omega)), scaled_fewer fewer]
    exact .inr (nearestEven_divideHalfEven (by positivity))

/-- Out of range, a release build shows the wrong digits unless what wraps is harmless. -/
theorem inexact_release {field : Field} (numeric : field.kind = .numeric)
    (inexact : ¬Exact unscaled.toInt scale.toNat field.decimals.toNat) :
    RightOrAbsent field.width field.decimals (decimalNumber unscaled scale)
        (encode .release floats (.decimal unscaled scale) field codec) ↔
      Harmless field.width unscaled.toInt scale.toNat field.decimals.toNat := by
  unfold Harmless
  split
  · next more =>
    rw [decimal_right_iff numeric (shift_release_more more) (inI128_bmod _), scaled_more more, or_comm]
    dsimp only
    refine or_congr_left ?_
    constructor
    · exact fun nearest => nearestEven_unique nearest (nearestEven_self _)
    · intro same
      rw [same]
      exact nearestEven_self _
  · next fewer =>
    have far : 38 < scale.toNat - field.decimals.toNat := by
      unfold Exact at inexact
      rw [if_neg fewer] at inexact
      exact Nat.lt_of_not_le inexact
    have zero := scaled_tiny unscaled far
    dsimp only
    by_cases near : scale.toNat - field.decimals.toNat < 128
    · have shifted := shift_release_fewer (inI128_toInt unscaled) fewer near
      have range := divideHalfEven_range (inI128_toInt unscaled) (wrapped_power_large (by omega) near)
      rw [decimal_right_iff numeric shifted range, or_comm]
      refine Iff.trans (or_congr_left ?_) (and_iff_right near).symm
      constructor
      · exact fun nearest => nearestEven_unique nearest zero
      · intro same
        rw [same]
        exact zero
    · rw [encode_stopped numeric (shift_release_far fewer (Nat.le_of_not_lt near))]
      exact iff_of_false id fun harmless => near harmless.1

theorem encodeRow_fields (written : encodeRow build floats codec pairs = some (record, cut)) :
    ∃ fields, pairs.mapM (fun pair => encode build floats pair.1 pair.2 codec) = some fields ∧
      record = fields.flatMap Prod.fst ∧ cut = (fields.filter Prod.snd).length := by
  induction pairs generalizing record cut with
  | nil =>
    cases written
    exact ⟨[], rfl, rfl, rfl⟩
  | cons pair rest ih =>
    obtain ⟨value, field⟩ := pair
    rw [encodeRow, Option.bind_eq_bind] at written
    obtain ⟨⟨encoded, truncated⟩, first, written⟩ := Option.bind_eq_some_iff.mp written
    obtain ⟨⟨later, more⟩, second, written⟩ := Option.bind_eq_some_iff.mp written
    cases written
    obtain ⟨fields, found, rfl, rfl⟩ := ih second
    refine ⟨(encoded, truncated) :: fields, ?_, rfl, ?_⟩
    · simp [first, found]
    · cases truncated
      · simp
      · simp [Nat.add_comm]

/-- The field of an integer or a decimal is right or visibly absent exactly when the value is
representable, and each absent one raises the count of its row by one. -/
theorem numeric_right_or_absent (build : Build) (floats : Floats) (codec : Codec) (field : Field)
    (numeric : field.kind = .numeric) (value : Value) (x : ℚ) (known : amount value = some x) :
    (RightOrAbsent field.width field.decimals x (encode build floats value field codec) ↔
      Representable build field value) ∧
    ∀ writer row writer', DbfWriter.writeRow build floats writer row = some writer' →
      ∃ fields, (row.zip writer.fields).mapM (fun pair => encode build floats pair.1 pair.2 writer.codec) =
          some fields ∧
        writer'.out = writer.out ++ 0x20 :: fields.flatMap Prod.fst ∧
        writer'.truncated = writer.truncated + (fields.filter Prod.snd).length := by
  constructor
  · cases value with
    | int n =>
      cases known
      refine iff_of_true ?_ trivial
      rw [encode_text numeric (by simp) (plain_withPlaces _ (intText_plain _)) rfl]
      exact integer_right (plain_withPlaces _ (intText_plain _)) (read_signed_places _ _)
    | uint n =>
      cases known
      refine iff_of_true ?_ trivial
      rw [encode_text numeric (by simp) (plain_withPlaces _ (natText_plain _)) rfl]
      exact integer_right (plain_withPlaces _ (natText_plain _)) (read_unsigned_places _ _)
    | decimal unscaled scale =>
      cases known
      by_cases exact_ : Exact unscaled.toInt scale.toNat field.decimals.toNat
      · exact iff_of_true (exact_right numeric exact_) (.inl exact_)
      · cases build with
        | debug =>
          rw [encode_stopped numeric (shift_debug exact_)]
          refine iff_of_false id ?_
          rintro (inside | ⟨release, -⟩)
          · exact exact_ inside
          · cases release
        | release =>
          rw [inexact_release numeric exact_]
          exact ⟨fun harmless => .inr ⟨rfl, harmless⟩, fun fits => (fits.resolve_left exact_).2⟩
    | _ => cases known
  · intro writer row writer' written
    unfold DbfWriter.writeRow at written
    rw [Option.bind_eq_bind] at written
    obtain ⟨⟨record, cut⟩, encoded, written⟩ := Option.bind_eq_some_iff.mp written
    obtain ⟨count, -, written⟩ := Option.bind_eq_some_iff.mp written
    cases written
    obtain ⟨fields, found, rfl, rfl⟩ := encodeRow_fields encoded
    exact ⟨fields, found, rfl, rfl⟩

/-- Floats as a run without any needs them. -/
def noFloats : Floats where
  plain _ := ""
  scientific _ := ""
  magnitude _ := 0
  parse _ := none
  fixed _ _ := ""

/-- The field of a `decimal` column. -/
def decimalField : Field := { name := [], kind := .numeric, width := numericWidth, decimals := 6 }

def centsField : Field := { name := [], kind := .numeric, width := numericWidth, decimals := 2 }

def halfway : Value := .decimal (BitVec.ofInt 128 (-1234550)) 4

theorem halfway_right_or_absent :
    RightOrAbsent 20 2 (decimalNumber (BitVec.ofInt 128 (-1234550)) 4)
      (encode .release noFloats halfway centsField .utf8) ∧
      encode .release noFloats halfway centsField .utf8 =
        some (List.replicate 13 0x20 ++ Text.utf8 "-123.46", false) := by
  have inside : Representable .release centsField halfway := .inl (by unfold Exact; decide)
  exact ⟨(numeric_right_or_absent .release noFloats .utf8 centsField rfl halfway _ rfl).1.mpr inside, by decide +kernel⟩

/-- 2^122 has 37 digits, and a release build shows it as zero. -/
theorem huge_decimal_not_right : ¬∀ (build : Build) (floats : Floats) (codec : Codec) (field : Field) (value : Value)
    (x : ℚ), field.kind = .numeric → amount value = some x →
      RightOrAbsent field.width field.decimals x (encode build floats value field codec) := by
  intro always
  have shown := always .release noFloats .utf8 decimalField (.decimal (BitVec.ofNat 128 (2 ^ 122)) 0) _ rfl rfl
  have inexact : ¬Exact (BitVec.ofNat 128 (2 ^ 122)).toInt (0 : UInt8).toNat decimalField.decimals.toNat := by
    unfold Exact
    decide
  rw [inexact_release rfl inexact] at shown
  revert shown
  unfold Harmless
  decide

end QueryHive.Export.Dbf
