import QueryHive.Store.ExactNumber

/-! An exact decimal on its way into a column of a declared size: zeros the column has
no place for are dropped, a digit that is not zero is refused. Every step of the source
that could overflow is checked here. -/
namespace QueryHive.Transfer
open QueryHive.Library QueryHive.Store

/-- Why one value was refused. -/
inductive Rule where
  | wrongKind (expected : String)
  | nul
  | outOfRange (what : String)
  | scale (value target : UInt32)
  | wholeDigits (max : UInt32)
  | tooLong (max : UInt64) (unit : String)
  | nonFinite
  | fraction (max : UInt32)
  | duplicateKey
  | jsonNumber
  | notJson
  | arrayBounds
  | notAnArray
  | notCanonical (what : String)
  | tooDeep
  | arity
  deriving DecidableEq, Repr

/-- `a % b` of two `i128`. -/
def remI128 (a b : BitVec 128) : Option (BitVec 128) :=
  if b = 0 ∨ (a = BitVec.intMin 128 ∧ b = -1) then none else some (a.srem b)

/-- `a / b` of two `i128`. -/
def divI128 (a b : BitVec 128) : Option (BitVec 128) :=
  if b = 0 ∨ (a = BitVec.intMin 128 ∧ b = -1) then none else some (a.sdiv b)

/-- `a - b` of two `u8`. -/
def subU8 (a b : UInt8) : Option UInt8 := if a < b then none else some (a - b)

/-- `saturating_sub` of two `u32`. -/
def saturatingSub (a b : UInt32) : UInt32 := if a < b then 0 else a - b

/-- The `while` of `decimal_text`, as long as `fuel` lasts. -/
def dropZeros (target : UInt32) : Nat → BitVec 128 → UInt8 → Option (BitVec 128 × UInt8)
  | 0, _, _ => none
  | fuel + 1, unscaled, scale =>
    if target < scale.toUInt32 then do
      if (← remI128 unscaled 10) = 0 then
        dropZeros target fuel (← divI128 unscaled 10) (← subU8 scale 1)
      else some (unscaled, scale)
    else some (unscaled, scale)

/-- The check of the digits before the point. -/
def wholeFits (unscaled : BitVec 128) (scale : UInt8) (precision target : UInt32) : Bool :=
  let digits := UInt32.ofNat (Nat.toDigits 10 unscaled.toInt.natAbs).length
  let whole := saturatingSub digits scale.toUInt32
  unscaled = 0 || whole ≤ saturatingSub precision target

/-- `decimal_text`. -/
def decimalText (fuel : Nat) (unscaled : BitVec 128) (scale : UInt8) (precision : Option UInt32) (target : UInt32) :
    Option (Except Rule String) :=
  match precision with
  | none => some (.ok (writeDecimal unscaled scale))
  | some precision => do
    let (unscaled, scale) ← dropZeros target fuel unscaled scale
    if target < scale.toUInt32 then return .error (.scale scale.toUInt32 target)
    if !wholeFits unscaled scale precision target then return .error (.wholeDigits (saturatingSub precision target))
    return .ok (writeDecimal unscaled scale)

theorem toInt_ten : (10 : BitVec 128).toInt = 10 := rfl

theorem toInt_div_ten (unscaled : BitVec 128) : (unscaled.sdiv 10).toInt = unscaled.toInt.tdiv 10 := by
  rw [BitVec.toInt_sdiv_of_ne_or_ne _ _ (Or.inr (by simp)), toInt_ten]

theorem rem_ten_zero_iff (unscaled : BitVec 128) : unscaled.srem 10 = 0 ↔ (10 : ℤ) ∣ unscaled.toInt := by
  rw [← BitVec.toInt_inj, BitVec.toInt_srem, toInt_ten, Int.dvd_iff_tmod_eq_zero]
  rfl

theorem remI128_ten (unscaled : BitVec 128) : remI128 unscaled 10 = some (unscaled.srem 10) :=
  if_neg (by simp)

theorem divI128_ten (unscaled : BitVec 128) : divI128 unscaled 10 = some (unscaled.sdiv 10) :=
  if_neg (by simp)

theorem lt_toUInt32_iff (target : UInt32) (scale : UInt8) : target < scale.toUInt32 ↔ target.toNat < scale.toNat := by
  rw [UInt32.lt_iff_toNat_lt, UInt8.toNat_toUInt32]

/-- One turn of the loop: a zero goes with its decimal, or the loop is over. -/
theorem dropZeros_succ (target : UInt32) (fuel : Nat) (unscaled : BitVec 128) (scale : UInt8) :
    dropZeros target (fuel + 1) unscaled scale =
      if target.toNat < scale.toNat ∧ (10 : ℤ) ∣ unscaled.toInt then
        dropZeros target fuel (unscaled.sdiv 10) (scale - 1)
      else some (unscaled, scale) := by
  rw [dropZeros]
  by_cases more : target < scale.toUInt32
  · have some_decimals : ¬scale < 1 := by
      rw [UInt8.lt_iff_toNat_lt]
      have := (lt_toUInt32_iff target scale).mp more
      exact Nat.not_lt.mpr (Nat.succ_le_of_lt (Nat.zero_lt_of_lt this))
    have step : subU8 scale 1 = some (scale - 1) := if_neg some_decimals
    rw [if_pos more, remI128_ten, divI128_ten, step]
    simp only [Option.bind_eq_bind, Option.bind_some, rem_ten_zero_iff,
      (lt_toUInt32_iff target scale).mp more, true_and]
  · rw [if_neg more, if_neg fun both => more ((lt_toUInt32_iff target scale).mpr both.1)]

/-- The loop ends, the number stays what it is, and what is left over has no zero to drop. -/
theorem dropZeros_spec (target : UInt32) (unscaled : BitVec 128) (scale : UInt8) (enough : scale.toNat < fuel) :
    ∃ unscaled' scale', dropZeros target fuel unscaled scale = some (unscaled', scale') ∧
      scale'.toNat ≤ scale.toNat ∧ unscaled.toInt = unscaled'.toInt * 10 ^ (scale.toNat - scale'.toNat) ∧
      (target.toNat < scale'.toNat → ¬(10 : ℤ) ∣ unscaled'.toInt) := by
  induction fuel generalizing unscaled scale with
  | zero => exact absurd enough (Nat.not_lt_zero _)
  | succ fuel ih =>
    rw [dropZeros_succ]
    by_cases drops : target.toNat < scale.toNat ∧ (10 : ℤ) ∣ unscaled.toInt
    · rw [if_pos drops]
      have shorter : (scale - 1).toNat = scale.toNat - 1 :=
        UInt8.toNat_sub_of_le _ _ (UInt8.le_iff_toNat_le.mpr (Nat.succ_le_of_lt (Nat.zero_lt_of_lt drops.1)))
      obtain ⟨unscaled', scale', found, below, kept, rest⟩ :=
        ih (unscaled.sdiv 10) (scale - 1) (by omega)
      refine ⟨unscaled', scale', found, by omega, ?_, rest⟩
      have exponent : scale.toNat - scale'.toNat = (scale - 1).toNat - scale'.toNat + 1 := by omega
      rw [exponent, pow_succ, ← mul_assoc, ← kept, toInt_div_ten, Int.tdiv_mul_cancel drops.2]
    · rw [if_neg drops]
      refine ⟨unscaled, scale, rfl, Nat.le_refl _, by rw [Nat.sub_self, pow_zero, mul_one], ?_⟩
      intro more divides
      exact drops ⟨more, divides⟩

theorem decimalNumber_of_kept (below : scale'.toNat ≤ scale.toNat)
    (kept : unscaled.toInt = unscaled'.toInt * 10 ^ (scale.toNat - scale'.toNat)) :
    decimalNumber unscaled scale = decimalNumber unscaled' scale' := by
  have power : (10 : ℚ) ^ scale.toNat = 10 ^ (scale.toNat - scale'.toNat) * 10 ^ scale'.toNat := by
    rw [← pow_add, Nat.sub_add_cancel below]
  rw [decimalNumber, decimalNumber, kept, power]
  push_cast
  field_simp

theorem whole_at_iff (rest : target < scale.toNat → ¬(10 : ℤ) ∣ unscaled.toInt) :
    (∃ n : ℤ, decimalNumber unscaled scale * 10 ^ target = n) ↔ scale.toNat ≤ target := by
  constructor
  · rintro ⟨n, whole⟩
    by_contra more
    have long := Nat.lt_of_not_le more
    have power : (10 : ℚ) ^ scale.toNat = 10 ^ (scale.toNat - target) * 10 ^ target := by
      rw [← pow_add, Nat.sub_add_cancel (Nat.le_of_lt long)]
    have product : unscaled.toInt = n * 10 ^ (scale.toNat - target) := by
      rw [decimalNumber, power, div_mul_eq_mul_div, div_eq_iff (by positivity), ← mul_assoc] at whole
      have cancelled := mul_right_cancel₀ (pow_ne_zero target (by norm_num : (10 : ℚ) ≠ 0)) whole
      exact_mod_cast cancelled
    apply rest long
    rw [product]
    exact Dvd.dvd.mul_left (dvd_pow_self 10 (by omega)) n
  · intro short
    refine ⟨unscaled.toInt * 10 ^ (target - scale.toNat), ?_⟩
    have power : (10 : ℚ) ^ target = 10 ^ (target - scale.toNat) * 10 ^ scale.toNat := by
      rw [← pow_add, Nat.sub_add_cancel short]
    rw [decimalNumber, power]
    push_cast
    field_simp

theorem toNat_saturatingSub (a b : UInt32) : (saturatingSub a b).toNat = a.toNat - b.toNat := by
  unfold saturatingSub
  split
  · next less =>
    rw [UInt32.lt_iff_toNat_lt] at less
    rw [Nat.sub_eq_zero_of_le (Nat.le_of_lt less)]
    rfl
  · next more => exact UInt32.toNat_sub_of_le _ _ (UInt32.not_lt.mp more)

theorem digits_short (unscaled : BitVec 128) : (Nat.toDigits 10 unscaled.toInt.natAbs).length < 2 ^ 32 := by
  have low := BitVec.le_two_mul_toInt (x := unscaled)
  have high := BitVec.two_mul_toInt_lt (x := unscaled)
  have small : unscaled.toInt.natAbs < 10 ^ 39 := by
    norm_num at low high ⊢
    omega
  exact Nat.lt_of_le_of_lt ((FixedPoint.digits_le_iff _ (by decide)).mpr small) (by decide)

theorem wholeFits_iff (unscaled : BitVec 128) (scale : UInt8) (precision target : UInt32) :
    wholeFits unscaled scale precision target = true ↔
      |decimalNumber unscaled scale| < 10 ^ (precision.toNat - target.toNat) := by
  have zero : unscaled = 0 ↔ unscaled.toInt.natAbs = 0 := by
    rw [Int.natAbs_eq_zero, ← BitVec.toInt_inj]
    rfl
  have digits : (UInt32.ofNat (Nat.toDigits 10 unscaled.toInt.natAbs).length).toNat =
      (Nat.toDigits 10 unscaled.toInt.natAbs).length :=
    UInt32.toNat_ofNat_of_lt' (digits_short unscaled)
  rw [abs_decimalNumber_lt_iff, wholeFits]
  simp only [Bool.or_eq_true, decide_eq_true_iff, UInt32.le_iff_toNat_le, toNat_saturatingSub, digits,
    UInt8.toNat_toUInt32, zero]
  rw [Nat.sub_le_iff_le_add]
  rcases Nat.eq_zero_or_pos (precision.toNat - target.toNat + scale.toNat) with none | some_digits
  · -- No digit at all: only zero is small enough, and its one digit is one too many.
    have one := List.length_pos_iff.mpr (Nat.toDigits_ne_nil : Nat.toDigits 10 unscaled.toInt.natAbs ≠ [])
    rw [none, pow_zero, Nat.lt_one_iff]
    omega
  · rw [FixedPoint.digits_le_iff _ some_digits]
    refine ⟨?_, Or.inr⟩
    rintro (empty | small)
    · rw [empty]
      exact Nat.pow_pos (by decide)
    · exact small

/-- `decimal_text` takes exactly the numbers the column can hold, and writes them as they are. -/
theorem decimal_text_exact (unscaled : BitVec 128) (scale : UInt8) (target : UInt32) (fuel : Nat)
    (enough : scale.toNat < fuel) :
    (∀ precision, target ≤ precision → ∃ result, decimalText fuel unscaled scale (some precision) target = some result ∧
      ((∃ text, result = .ok text) ↔
        (∃ n : ℤ, decimalNumber unscaled scale * 10 ^ target.toNat = n) ∧
          |decimalNumber unscaled scale| < 10 ^ (precision.toNat - target.toNat))) ∧
    (∃ text, decimalText fuel unscaled scale none target = some (.ok text)) ∧
    ∀ precision text, decimalText fuel unscaled scale precision target = some (.ok text) →
      FixedPoint.read text.toList = some (decimalNumber unscaled scale) := by
  obtain ⟨unscaled', scale', found, below, kept, rest⟩ := dropZeros_spec target unscaled scale enough
  have same := decimalNumber_of_kept below kept
  refine ⟨?_, ⟨_, rfl⟩, ?_⟩
  · intro precision _
    rw [same, whole_at_iff rest, ← wholeFits_iff]
    simp only [decimalText, found, Option.bind_eq_bind, Option.bind_some, lt_toUInt32_iff]
    by_cases more : target.toNat < scale'.toNat
    · simp [more]
    · by_cases fits : wholeFits unscaled' scale' precision target
      · simp [more, fits, Nat.not_lt.mp more]
      · simp [more, fits]
  · intro precision text written
    cases precision with
    | none =>
      simp only [decimalText, Option.some.injEq, Except.ok.injEq] at written
      rw [← written, read_writeDecimal]
    | some precision =>
      simp only [decimalText, found, Option.bind_eq_bind, Option.bind_some] at written
      split at written
      · cases written
      · split at written
        · cases written
        · cases written
          rw [same, read_writeDecimal]

/-- `1.50` in a column of three digits and one decimal. -/
theorem decimal_text_one_and_a_half :
    decimalText 3 150 2 (some 3) 1 = some (.ok "1.5") ∧ FixedPoint.read "1.5".toList = some (decimalNumber 150 2) :=
  ⟨by decide, (decimal_text_exact 150 2 1 3 (by decide)).2.2 (some 3) "1.5" (by decide)⟩

end QueryHive.Transfer
