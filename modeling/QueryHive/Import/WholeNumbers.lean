import QueryHive.Library.Scientific
import QueryHive.Library.Text

/-! Which numbers of an imported row are whole. A number is taken for a whole one exactly when it is, but for one
with an exponent, which is taken for the float nearest to it. -/
namespace QueryHive.Import
open QueryHive.Library Text Numeral Binary64 Scientific Rounding

/-- `is_number`: an integer, or a finite float. -/
def isNumber (text : List Char) : Bool :=
  let trimmed := trim text
  trimmed ≠ [] && ((readSigned 64 trimmed).isSome || match readDouble trimmed with
    | some (.finite _) => true
    | _ => false)

/-- The last way of `is_whole`: the float is whole, and small enough to be exact. -/
def isWholeFloat (text : List Char) : Bool :=
  match readDouble text with
  | some (.finite x) => x.den = 1 && decide (|x| < 9000000000000000)
  | _ => false

def isWholeInteger (text unsigned : List Char) : Bool :=
  if allDigits unsigned then decide (unsigned ≠ []) else isWholeFloat text

/-- `is_whole`. -/
def isWhole (text : List Char) : Bool :=
  let text := trim text
  let unsigned := (splitSign text).2
  match splitOnce (· = '.') unsigned with
  | some (whole, fraction) =>
    if fraction.any fun c => c = 'e' || c = 'E' then isWholeInteger text unsigned
    else allDigits whole && fraction.all (· = '0') && !(whole = [] && fraction = [])
  | none => isWholeInteger text unsigned

def Denotes (text : List Char) (q : ℚ) : Prop := ∃ parts, readParts (trim text) = some parts ∧ parts.number = q

def IsWhole (q : ℚ) : Prop := ∃ n : ℤ, q = n

/-- The bound up to which `is_whole` trusts a float. -/
def trusted : ℤ := 9000000000000000

section
variable {text digits behind fractionText mark : List Char} {parts : Parts}

theorem zeros_of_value (all : allDigits digits = true) (zero : value digits = 0) : ∀ c ∈ digits, c = '0' := by
  induction digits with
  | nil => exact List.forall_mem_nil _
  | cons c rest ih =>
    obtain ⟨digit, later⟩ := List.forall_mem_cons.mp (List.all_eq_true.mp all)
    rw [value_cons, Nat.add_eq_zero_iff] at zero
    have bounds := digit_toNat digit
    have first : c.toNat = 48 := by
      have power : 0 < 10 ^ rest.length := by positivity
      have := (Nat.mul_eq_zero.mp zero.1).resolve_right power.ne'
      omega
    have same : c = '0' := by rw [← Char.ofNat_toNat c, first]
    exact List.forall_mem_cons.mpr ⟨same, ih (List.all_eq_true.mpr later) zero.2⟩

def signOf (parts : Parts) : ℤ := if parts.negative then -1 else 1

theorem number_plain (plain : parts.exponent = 0) :
    parts.number * 10 ^ parts.fraction.length =
      (signOf parts * (value parts.whole * 10 ^ parts.fraction.length + value parts.fraction) : ℤ) := by
  have unit : (10 : ℚ) ^ (-(parts.fraction.length : ℤ)) * 10 ^ parts.fraction.length = 1 := by
    rw [zpow_neg, zpow_natCast, inv_mul_cancel₀ (by positivity)]
  rw [Parts.number, plain, zero_sub, mul_assoc, unit, mul_one, value_append, signOf]
  push_cast
  rfl

theorem signOf_mul_self (parts : Parts) : signOf parts * signOf parts = 1 := by
  unfold signOf
  split <;> rfl

theorem isWhole_number (plain : parts.exponent = 0) (all : allDigits parts.fraction = true) :
    IsWhole parts.number ↔ ∀ c ∈ parts.fraction, c = '0' := by
  have scaled := number_plain plain
  constructor
  · rintro ⟨n, same⟩
    rw [same] at scaled
    have integral : n * 10 ^ parts.fraction.length =
        signOf parts * (value parts.whole * 10 ^ parts.fraction.length + value parts.fraction) := by
      exact_mod_cast scaled
    have rest : (value parts.fraction : ℤ) = (signOf parts * n - value parts.whole) * 10 ^ parts.fraction.length := by
      have twice := congrArg (signOf parts * ·) integral
      simp only [← mul_assoc, signOf_mul_self, one_mul] at twice
      linarith
    have divides : 10 ^ parts.fraction.length ∣ value parts.fraction := by
      have divides : ((10 ^ parts.fraction.length : ℕ) : ℤ) ∣
        (value parts.fraction : ℤ) := ⟨_, by rw [rest, mul_comm]; push_cast; rfl⟩
      exact_mod_cast divides
    exact zeros_of_value all (Nat.eq_zero_of_dvd_of_lt divides (value_lt all))
  · intro zeros
    refine ⟨signOf parts * value parts.whole, ?_⟩
    rw [value_zeros zeros] at scaled
    have power : (10 : ℚ) ^ parts.fraction.length ≠ 0 := by positivity
    refine mul_right_cancel₀ power (scaled.trans ?_)
    push_cast
    ring

theorem not_point_of_exponent (written : Exponent exponent behind) : '.' ∉ behind := by
  cases written with
  | none => exact List.not_mem_nil
  | some letter sign filled all =>
    intro inside
    rcases List.mem_cons.mp inside with same | inside
    · rcases letter with rfl | rfl <;> cases same
    · rcases List.mem_append.mp inside with inside | inside
      · cases sign <;> simp at inside
      · exact absurd (digit_of_allDigits all inside) (by decide)

theorem not_point_of_digits (all : allDigits digits = true) : '.' ∉ digits :=
  fun inside => absurd (digit_of_allDigits all inside) (by decide)

theorem isExponentChar_digits (all : allDigits digits = true) :
    (digits.any fun c => decide (c = 'e') || decide (c = 'E')) = false := by
  refine List.any_eq_false.mpr fun c inside => ?_
  have digit := digit_of_allDigits all inside
  rw [Bool.or_eq_true, decide_eq_true_eq, decide_eq_true_eq]
  rintro (rfl | rfl) <;> cases digit

/-- No numeral in digits has the letter of an exponent. -/
theorem plain_of_digits (sign : Sign negative mark) (whole : allDigits digits = true)
    (point : Point fraction fractionText) :
    'e' ∉ mark ++ (digits ++ fractionText) ∧ 'E' ∉ mark ++ (digits ++ fractionText) := by
  have letters : ∀ c ∈ mark ++ (digits ++ fractionText), c.isDigit = true ∨ c = '+' ∨ c = '-' ∨ c = '.' := by
    intro c inside
    rcases List.mem_append.mp inside with inside | inside
    · cases sign <;> simp at inside <;> simp [inside]
    · rcases List.mem_append.mp inside with inside | inside
      · exact .inl (digit_of_allDigits whole inside)
      · cases point with
        | none => cases inside
        | point all =>
          rcases List.mem_cons.mp inside with rfl | inside
          · exact .inr (.inr (.inr rfl))
          · exact .inl (digit_of_allDigits all inside)
  exact ⟨fun inside => absurd (letters _ inside) (by decide), fun inside => absurd (letters _ inside) (by decide)⟩

/-- A number is whole by its decimals, or with an exponent by its float. -/
theorem isWhole_cases (spells : Spells parts (trim text)) :
    (parts.exponent = 0 ∧ allDigits parts.fraction = true ∧ ('e' ∉ trim text ∧ 'E' ∉ trim text) ∧
        (isWhole text = true ↔ ∀ c ∈ parts.fraction, c = '0')) ∨
      ¬('e' ∉ trim text ∧ 'E' ∉ trim text) ∧ isWhole text = isWholeFloat (trim text) := by
  generalize trimmed : trim text = number at spells
  obtain ⟨negative, digits, fraction, exponent⟩ := parts
  cases spells with
  | @mk mark fractionText behind sign whole point filled written =>
    have clear : ∀ c ∈ digits, decide (c = '.') = false := by
      intro c inside
      rw [decide_eq_false_iff_not]
      rintro rfl
      exact not_point_of_digits whole inside
    have unsigned := splitSign_sign sign (head_body whole point filled behind)
    have lettered : behind ≠ [] → ('e' ∈ behind ∨ 'E' ∈ behind) := by
      intro some
      cases written with
      | none => exact absurd rfl some
      | some letter => rcases letter with rfl | rfl <;> simp
    rw [isWhole, trimmed, unsigned]
    dsimp only
    cases point with
    | none =>
      rw [List.nil_append, splitOnce_none]
      · dsimp only
        by_cases plain : behind = []
        · subst plain
          refine .inl ⟨by cases written; rfl, rfl, by simpa using plain_of_digits sign whole .none, ?_⟩
          rw [List.append_nil, isWholeInteger, if_pos whole, decide_eq_true_eq]
          exact ⟨fun _ => List.forall_mem_nil _, fun _ => filled.resolve_right fun none => none rfl⟩
        · have letter := lettered plain
          refine .inr ⟨fun none => ?_, ?_⟩
          · rcases letter with inside | inside
            · exact none.1 (by simp [inside])
            · exact none.2 (by simp [inside])
          · rw [isWholeInteger, if_neg]
            intro all
            rcases letter with inside | inside
            · exact absurd (digit_of_allDigits all (List.mem_append_right _ inside)) (by decide)
            · exact absurd (digit_of_allDigits all (List.mem_append_right _ inside)) (by decide)
      · intro c inside
        rcases List.mem_append.mp inside with inside | inside
        · exact clear c inside
        · rw [decide_eq_false_iff_not]
          rintro rfl
          exact not_point_of_exponent written inside
    | @point _ decimals =>
      rw [List.cons_append, splitOnce_at clear (decide_eq_true rfl)]
      dsimp only
      by_cases plain : behind = []
      · subst plain
        refine .inl ⟨by cases written; rfl, decimals, by simpa using plain_of_digits sign whole (.point decimals), ?_⟩
        rw [List.append_nil, isExponentChar_digits decimals]
        have some : ¬(digits = [] ∧ fraction = []) := fun empty => filled.elim (fun h => h empty.1) fun h => h empty.2
        have nonempty : (!(decide (digits = []) && decide (fraction = []))) = true := by
          rw [← Bool.decide_and, decide_eq_false some]
          rfl
        rw [if_neg Bool.false_ne_true, whole, nonempty, Bool.true_and, Bool.and_true, List.all_eq_true]
        simp only [decide_eq_true_eq]
      · have letter := lettered plain
        have exponential : ((fraction ++ behind).any fun c => decide (c = 'e') || decide (c = 'E')) = true := by
          rcases letter with inside | inside
          · exact List.any_eq_true.mpr ⟨'e', List.mem_append_right _ inside, by decide⟩
          · exact List.any_eq_true.mpr ⟨'E', List.mem_append_right _ inside, by decide⟩
        refine .inr ⟨fun none => ?_, ?_⟩
        · rcases letter with inside | inside
          · exact none.1 (by simp [inside])
          · exact none.2 (by simp [inside])
        · rw [if_pos exponential, isWholeInteger, if_neg]
          intro all
          exact absurd (digit_of_allDigits all (List.mem_append_right _ List.mem_cons_self)) (by decide)

theorem isWholeFloat_iff (read : readParts text = some parts) :
    isWholeFloat text = true ↔ ∃ n : ℤ, |n| < trusted ∧ Rounds parts.number n := by
  unfold isWholeFloat readDouble
  rw [read]
  dsimp only
  constructor
  · intro accepted
    cases near : nearest parts.number with
    | none =>
      rw [near] at accepted
      cases accepted
    | some x =>
      rw [near] at accepted
      rw [Bool.and_eq_true, decide_eq_true_eq, decide_eq_true_eq] at accepted
      obtain ⟨whole, small⟩ := accepted
      unfold nearest at near
      split_ifs at near
      obtain rfl := Option.some.inj near
      have same : ((rounded parts.number).num : ℚ) = rounded parts.number := Rat.coe_int_num_of_den_eq_one whole
      refine ⟨(rounded parts.number).num, ?_, rounded_eq_iff.mp same.symm⟩
      rw [← same] at small
      exact_mod_cast small
  · rintro ⟨n, small, rounds⟩
    have same := rounded_eq_iff.mpr rounds
    have bounded : |(n : ℚ)| < 9000000000000000 := by exact_mod_cast small
    have finite : nearest parts.number = some (n : ℚ) := by
      have large : (9000000000000000 : ℚ) < 2 ^ 1024 :=
        lt_of_lt_of_le (by norm_num : (9000000000000000 : ℚ) < 2 ^ 64) (pow_le_pow_right₀ (by norm_num) (by norm_num))
      rw [nearest, same, if_pos (lt_trans bounded large)]
    rw [finite]
    simp [bounded]

theorem denotes_of_isNumber (accepted : isNumber text = true) : ∃ parts, readParts (trim text) = some parts := by
  unfold isNumber at accepted
  dsimp only at accepted
  rw [Bool.and_eq_true, Bool.or_eq_true] at accepted
  rcases accepted.2 with integer | float
  · exact readParts_of_readSigned integer
  · unfold readDouble at float
    cases read : readParts (trim text) with
    | some parts => exact ⟨parts, rfl⟩
    | none =>
      rw [read] at float
      dsimp only at float
      split_ifs at float

end

/-- The test for a whole number is exact unless an exponent takes it through a float: it then takes the numbers whose
nearest float is whole and small enough for whole ones. -/
theorem is_whole_exact_iff {text : List Char} (accepted : isNumber text = true) :
    ∃ q, Denotes text q ∧
      (((isWhole text = true → IsWhole q) ∧ (∀ n : ℤ, q = n → |n| < trusted → isWhole text = true)) ↔
        ('e' ∉ trim text ∧ 'E' ∉ trim text) ∨ IsWhole q ∨ ¬∃ n : ℤ, |n| < trusted ∧ Rounds q n) := by
  obtain ⟨parts, read⟩ := denotes_of_isNumber accepted
  refine ⟨parts.number, ⟨parts, read, rfl⟩, ?_⟩
  rcases isWhole_cases (spells_of_readParts read) with ⟨plain, decimals, bare, exact⟩ | ⟨lettered, float⟩
  · have whole := isWhole_number plain decimals
    exact ⟨fun _ => .inl bare, fun _ => ⟨fun is => whole.mpr (exact.mp is),
      fun n same _ => exact.mpr (whole.mp ⟨n, same⟩)⟩⟩
  · have rounded := isWholeFloat_iff read
    rw [float]
    constructor
    · rintro ⟨sound, _⟩
      by_cases near : ∃ n : ℤ, |n| < trusted ∧ Rounds parts.number n
      · exact .inr (.inl (sound (rounded.mpr near)))
      · exact .inr (.inr near)
    · rintro (bare | whole | far)
      · exact absurd bare lettered
      · refine ⟨fun _ => whole, fun n same small => rounded.mpr ⟨n, small, ?_⟩⟩
        have exact := rounded_whole (lt_trans small (by decide : trusted < 2 ^ 53))
        rw [same]
        exact rounded_eq_iff.mp exact
      · refine ⟨fun is => absurd (rounded.mp is) far, fun n same small => absurd ⟨n, small, ?_⟩ far⟩
        have exact := rounded_whole (lt_trans small (by decide : trusted < 2 ^ 53))
        rw [same]
        exact rounded_eq_iff.mp exact

/-- `-1.25e2`. -/
def signed : List Char := ['-', '1', '.', '2', '5', 'e', '2']

def signedParts : Parts := ⟨true, ['1'], ['2', '5'], 2⟩

theorem number_signed : signedParts.number = ((-125 : ℤ) : ℚ) := by
  have digits : value (signedParts.whole ++ signedParts.fraction) = 125 := by decide
  have shift : signedParts.exponent - signedParts.fraction.length = 0 := by decide
  rw [Parts.number, digits, shift]
  simp [signedParts]

theorem is_whole_exact_signed : isWhole signed = true ∧ ∃ q, Denotes signed q ∧ q = ((-125 : ℤ) : ℚ) := by
  have read : readParts (trim signed) = some signedParts := by decide
  have finite : nearest ((-125 : ℤ) : ℚ) = some ((-125 : ℤ) : ℚ) := by
    have large : (125 : ℚ) < 2 ^ 1024 :=
      lt_of_lt_of_le (by norm_num : (125 : ℚ) < 2 ^ 7) (pow_le_pow_right₀ (by norm_num) (by norm_num))
    rw [nearest, rounded_whole (by decide), if_pos (by simpa using large)]
  have accepted : isNumber signed = true := by
    unfold isNumber readDouble
    dsimp only
    rw [read]
    dsimp only
    rw [number_signed, finite]
    decide
  obtain ⟨q, ⟨parts, same, rfl⟩, exact⟩ := is_whole_exact_iff accepted
  rw [read] at same
  cases same
  have whole : IsWhole signedParts.number := ⟨-125, number_signed⟩
  exact ⟨(exact.mpr (.inr (.inl whole))).2 (-125) number_signed (by decide), _, ⟨_, read, rfl⟩, number_signed⟩

/-- A number too small for a double. -/
def tiny : List Char := ['1', 'e', '-', '4', '0', '0']

def tinyParts : Parts := ⟨false, ['1'], [], -400⟩

theorem number_tiny : tinyParts.number = 1 / 10 ^ 400 := by
  have one : value ['1'] = 1 := by decide
  have shift : tinyParts.exponent - tinyParts.fraction.length = -(400 : ℕ) := by decide
  rw [Parts.number, shift, zpow_neg, zpow_natCast, show tinyParts.whole ++ tinyParts.fraction = ['1'] from rfl, one]
  simp [tinyParts]

theorem tiny_below : (2 : ℚ) ^ 1075 ≤ 10 ^ 400 := by
  have fifth : (2 : ℚ) ^ 215 ≤ 10 ^ 80 := by norm_num
  have power := pow_le_pow_left₀ (by positivity) fifth 5
  rw [← pow_mul, ← pow_mul] at power
  exact power

/-- Its nearest double is zero. -/
theorem rounds_tiny : Rounds tinyParts.number (0 : ℤ) := by
  refine ⟨0, by simp, nearestEven_zero ?_⟩
  have positive : 0 < spacing tinyParts.number := spacing_pos _
  rw [abs_div, abs_of_pos positive, div_le_iff₀ positive, number_tiny, abs_of_pos (by positivity)]
  have least : (2 : ℚ) ^ (-1074 : ℤ) ≤ spacing (1 / 10 ^ 400) := by
    apply zpow_le_zpow_right₀ (by norm_num)
    omega
  have half : (1 : ℚ) / 10 ^ 400 ≤ 1 / 2 * 2 ^ (-1074 : ℤ) := by
    have split : (1 : ℚ) / 2 * 2 ^ (-1074 : ℤ) = 1 / 2 ^ 1075 := by
      rw [zpow_neg, show (1074 : ℤ) = (1074 : ℕ) from rfl, zpow_natCast, pow_succ]
      field_simp
    rw [split]
    exact one_div_le_one_div_of_le (by positivity) tiny_below
  exact half.trans (mul_le_mul_of_nonneg_left least (by norm_num))

/-- A fraction is taken for a whole number. -/
theorem is_whole_accepts_fraction : isNumber tiny = true ∧ isWhole tiny = true ∧ ∃ q, Denotes tiny q ∧ ¬IsWhole q := by
  have read : readParts (trim tiny) = some tinyParts := by decide
  have finite : nearest tinyParts.number = some ((0 : ℤ) : ℚ) := by
    rw [nearest, rounded_eq_iff.mpr rounds_tiny, if_pos (by simp)]
  have double : readDouble (trim tiny) = some (.finite (0 : ℤ)) := by
    unfold readDouble
    rw [read]
    dsimp only
    rw [finite]
  have number : isNumber tiny = true := by
    unfold isNumber
    dsimp only
    rw [double]
    decide
  have whole : isWhole tiny = true := by
    rcases isWhole_cases (spells_of_readParts read) with ⟨plain, _⟩ | ⟨_, float⟩
    · cases plain
    · rw [float]
      exact (isWholeFloat_iff read).mpr ⟨0, by decide, rounds_tiny⟩
  refine ⟨number, whole, _, ⟨tinyParts, read, number_tiny⟩, ?_⟩
  rintro ⟨n, same⟩
  have positive : (0 : ℚ) < 1 / 10 ^ 400 := by positivity
  have small : (1 : ℚ) / 10 ^ 400 < 1 := by
    rw [div_lt_one (by positivity)]
    exact one_lt_pow₀ (by norm_num) (by norm_num)
  rw [same] at positive small
  have low : 0 < n := by exact_mod_cast positive
  have high : n < 1 := by exact_mod_cast small
  omega

end QueryHive.Import
