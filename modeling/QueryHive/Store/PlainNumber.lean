import QueryHive.Library.Decimal
import QueryHive.Library.Numeral
import QueryHive.Library.Text
import QueryHive.Store.Filter

/-! The number a cell's text spells, as the grid sorts by it. `swift_plain_number` reads a sign,
digits with an optional dot and an exponent, and builds an exact key: the significant digits
without zeros at either end, and the power of ten of the last one. Keys are compared as the
numbers are. -/
namespace QueryHive.Store
open QueryHive.Library

/-- The parts of a plain number. -/
structure Plain where
  neg : Bool
  int : List Char
  frac : List Char
  exp : Int
  deriving DecidableEq, Repr

/-- The text after one optional sign, and whether it is a minus. -/
def splitSign : List Char → Bool × List Char
  | '-' :: rest => (true, rest)
  | '+' :: rest => (false, rest)
  | text => (false, text)

/-- The exponent's text; it must fit an `i64`. -/
def readExponent : Option (List Char) → Option Int
  | none => some 0
  | some text =>
    let digits := (splitSign text).2
    if digits.isEmpty || !Numeral.allDigits digits then none else Numeral.readSigned 64 text

/-- The two runs of digits around at most one dot. -/
def readMantissa (mantissa : List Char) : Option (List Char × List Char) :=
  let parts : Option (List Char × List Char) :=
    match mantissa.splitOn '.' with
    | [int] => some (int, [])
    | [int, frac] => some (int, frac)
    | _ => none
  parts.bind fun (int, frac) => if Numeral.allDigits int && Numeral.allDigits frac then some (int, frac) else none

def readPlain (text : String) : Option Plain :=
  let body := (trimZsTab text).toList
  if body.isEmpty then none
  else
    let (neg, rest) := splitSign body
    let (mantissa, exponent) :=
      match Text.splitOnce (fun c => c == 'e' || c == 'E') rest with
      | some (mantissa, exponent) => (mantissa, some exponent)
      | none => (rest, none)
    (readExponent exponent).bind fun exp => (readMantissa mantissa).map fun (int, frac) => ⟨neg, int, frac, exp⟩

/-- The digits without the zeros before and after them, and how many were dropped at the end. -/
def significant (digits : List Char) : List Char × Nat :=
  let rest := digits.dropWhile (· == '0')
  (rest.rdropWhile (· == '0'), (rest.rtakeWhile (· == '0')).length)

/-- The exact key: 38 digits at most, and an adjusted exponent a `Decimal` has. -/
def Plain.key (plain : Plain) : Option NumKey :=
  let total := plain.int.length + plain.frac.length
  if total = 0 ∨ 38 < total then none
  else
    let (digits, trailing) := significant (plain.int ++ plain.frac)
    -- An `i64` that wraps here is out of range as well.
    let adjExp := plain.exp - plain.frac.length + trailing
    if adjExp < -166 ∨ 128 < adjExp then none
    else
      let zero := digits.isEmpty
      -- Canonical zero: -0 is 0.
      some
        { neg := plain.neg && !zero
          adjExp := if zero then 0 else adjExp
          digits := digits.map fun c => c.toNat.toUInt8 }

/-- `swift_plain_number`. -/
def swiftPlainNumber (text : String) : Option NumKey := (readPlain text).bind Plain.key

/-- The number that is written: the digits, with the dot where it stands, times the power of ten. -/
def Plain.number (plain : Plain) : ℚ :=
  (if plain.neg then -1 else 1) * Numeral.value (plain.int ++ plain.frac) * (10 : ℚ) ^ (plain.exp - plain.frac.length)

def plainNumber (text : String) : Option ℚ := (readPlain text).map Plain.number

def byteDigit (byte : UInt8) : Nat := byte.toNat - 48

def NumKey.number (key : NumKey) : ℚ :=
  (if key.neg then -1 else 1) * (Decimal.fraction byteDigit key.digits * (10 : ℚ) ^ key.magnitude)

/-- Digits in bytes, none of them a zero at either end; zero has one key. -/
structure NumKey.Canonical (key : NumKey) : Prop where
  digits : ∀ byte ∈ key.digits, 48 ≤ byte.toNat ∧ byte.toNat < 58
  leads : key.digits ≠ [] → Decimal.Leads byteDigit key.digits
  trimmed : Decimal.Trimmed byteDigit key.digits
  zero : key.digits = [] → key.neg = false ∧ key.adjExp = 0

def digitByte (c : Char) : UInt8 := c.toNat.toUInt8

theorem digitByte_toNat (digit : c.isDigit = true) : (digitByte c).toNat = c.toNat ∧ 48 ≤ c.toNat ∧ c.toNat < 58 := by
  have bounds := Numeral.digit_toNat digit
  refine ⟨?_, bounds.1, Nat.lt_succ_of_le bounds.2⟩
  simp only [digitByte, Nat.toUInt8, UInt8.toNat_ofNat']
  omega

theorem value_significant (digits : List Char) :
    Numeral.value digits = Numeral.value (significant digits).1 * 10 ^ (significant digits).2 := by
  have split : (digits.dropWhile (· == '0')).rdropWhile (· == '0') ++
    (digits.dropWhile (· == '0')).rtakeWhile (· == '0') =
      digits.dropWhile (· == '0') := List.rdropWhile_append_rtakeWhile
  have zeros : Numeral.value ((digits.dropWhile (· == '0')).rtakeWhile (· == '0')) = 0 :=
    Numeral.value_zeros fun c member => by simpa using List.mem_rtakeWhile_imp member
  rw [← Numeral.value_dropWhile, ← split, Numeral.value_append, zeros]
  rfl

theorem value_fraction (valid : Numeral.allDigits digits = true) :
    (Numeral.value digits : ℚ) = Decimal.fraction byteDigit (digits.map digitByte) * (10 : ℚ) ^ digits.length := by
  induction digits with
  | nil => simp [Decimal.fraction]
  | cons c rest ih =>
    obtain ⟨first, later⟩ := Bool.and_eq_true_iff.mp (valid : (c.isDigit && Numeral.allDigits rest) = true)
    have digit : byteDigit (digitByte c) = c.toNat - 48 := by rw [byteDigit, (digitByte_toNat first).1]
    rw [Numeral.value_cons, List.map_cons, Decimal.fraction, digit, List.length_cons, pow_succ]
    push_cast
    rw [ih later]
    ring

theorem significant_sublist (digits : List Char) : (significant digits).1 ⊆ digits := by
  intro c member
  exact (List.dropWhile_sublist _).subset ((List.rdropWhile_prefix _ _).subset member)

theorem significant_leads (digits : List Char) (some : (significant digits).1 ≠ []) :
    ∃ c rest, (significant digits).1 = c :: rest ∧ c ≠ '0' := by
  obtain ⟨c, rest, shape⟩ := List.exists_cons_of_ne_nil some
  refine ⟨c, rest, shape, ?_⟩
  rintro rfl
  obtain ⟨tail, whole⟩ : (significant digits).1 <+: digits.dropWhile (· == '0') := List.rdropWhile_prefix _ _
  rw [shape, List.cons_append] at whole
  have kept := List.head?_dropWhile_not (· == '0') digits
  rw [← whole] at kept
  simp at kept

theorem significant_trimmed (digits : List Char) : ∀ c ∈ (significant digits).1.getLast?, c ≠ '0' := by
  intro c member zero
  subst zero
  have some : (significant digits).1 ≠ [] := by
    intro none
    rw [none] at member
    cases member
  have last := List.rdropWhile_last_not (· == '0') _ some
  rw [Option.mem_def, List.getLast?_eq_some_getLast some] at member
  exact last (beq_iff_eq.mpr (Option.some.inj member))

theorem byteDigit_digitByte (digit : c.isDigit = true) (nonzero : c ≠ '0') : byteDigit (digitByte c) ≠ 0 := by
  obtain ⟨same, low, _⟩ := digitByte_toNat digit
  rw [byteDigit, same]
  intro zero
  have is : c.toNat = 48 := by omega
  exact nonzero (Char.toNat_inj.mp is)

theorem NumKey.Canonical.valid {key : NumKey} (canonical : key.Canonical) : Decimal.Digits byteDigit key.digits := by
  intro byte member
  have bounds := canonical.digits byte member
  unfold byteDigit
  omega

/-- The key of a number is canonical and denotes it. -/
theorem key_exact {plain : Plain} (valid : Numeral.allDigits (plain.int ++ plain.frac) = true)
    (keyed : plain.key = some key) : key.Canonical ∧ key.number = plain.number := by
  unfold Plain.key at keyed
  dsimp only at keyed
  split at keyed
  · cases keyed
  split at keyed
  · cases keyed
  cases keyed
  have digit : ∀ c ∈ (significant (plain.int ++ plain.frac)).1, c.isDigit = true := fun c member =>
    Numeral.digit_of_allDigits valid (significant_sublist _ member)
  have whole := value_significant (plain.int ++ plain.frac)
  have leads := significant_leads (plain.int ++ plain.frac)
  have trimmed := significant_trimmed (plain.int ++ plain.frac)
  generalize (significant (plain.int ++ plain.frac)).1 = digits at digit whole leads trimmed ⊢
  generalize (significant (plain.int ++ plain.frac)).2 = trailing at whole ⊢
  constructor
  · refine ⟨?_, ?_, ?_, ?_⟩
    · intro byte member
      obtain ⟨c, within, rfl⟩ := List.mem_map.mp member
      obtain ⟨same, low, high⟩ := digitByte_toNat (digit c within)
      exact ⟨low.trans_eq same.symm, same.trans_lt high⟩
    · intro some
      obtain ⟨c, rest, rfl, nonzero⟩ := leads (by simpa using some)
      exact ⟨digitByte c, rest.map digitByte, rfl, byteDigit_digitByte (digit c List.mem_cons_self) nonzero⟩
    · intro byte member
      obtain ⟨c, within, rfl⟩ : ∃ c, digits.getLast? = some c ∧ digitByte c = byte := by
        simpa [List.getLast?_map, digitByte] using member
      exact byteDigit_digitByte (digit c (List.mem_of_getLast? within)) (trimmed c within)
    · intro none
      have none : digits = [] := by simpa using none
      simp [none]
  · have ten : (10 : ℚ) ≠ 0 := by norm_num
    by_cases zero : digits = []
    · subst zero
      have nothing : Numeral.value (plain.int ++ plain.frac) = 0 := by rw [whole]; simp
      simp [NumKey.number, Plain.number, nothing, Decimal.fraction]
    · have fraction := @value_fraction digits (List.all_eq_true.mpr digit)
      have same : digits.map (fun c => c.toNat.toUInt8) = digits.map digitByte := rfl
      have bool : digits.isEmpty = false := by simpa using zero
      simp only [NumKey.number, NumKey.magnitude, Plain.number, whole, same, bool, Bool.not_false, Bool.and_true,
        List.length_map, Bool.false_eq_true, if_false]
      push_cast
      rw [fraction, zpow_add₀ ten (plain.exp - plain.frac.length + trailing) digits.length,
        zpow_add₀ ten (plain.exp - plain.frac.length) trailing, zpow_natCast, zpow_natCast]
      ring

theorem compare_bytes {d e : UInt8} (low : 48 ≤ d.toNat) (low' : 48 ≤ e.toNat) :
    compare d e = compare (byteDigit d) (byteDigit e) := by
  unfold byteDigit
  rcases Nat.lt_trichotomy d.toNat e.toNat with less | same | greater
  · have bytes : d < e := UInt8.lt_iff_toNat_lt.mpr less
    rw [Nat.compare_eq_lt.mpr (by omega), Std.compare_eq_lt.mpr bytes]
  · have bytes : d = e := UInt8.toNat_inj.mp same
    rw [bytes, Nat.compare_eq_eq.mpr rfl]
    exact Std.ReflCmp.compare_self
  · have bytes : e < d := UInt8.lt_iff_toNat_lt.mpr greater
    rw [Nat.compare_eq_gt.mpr (by omega), Std.compare_eq_gt.mpr bytes]

variable {left right : NumKey}

/-- The key's number without its sign. -/
def NumKey.absolute (key : NumKey) : ℚ := Decimal.fraction byteDigit key.digits * (10 : ℚ) ^ key.magnitude

theorem number_zero {key : NumKey} (zero : key.digits = []) : key.number = 0 := by
  simp [NumKey.number, zero, Decimal.fraction]

theorem absolute_pos (canonical : left.Canonical) (some : left.digits ≠ []) : 0 < left.absolute :=
  mul_pos (Decimal.fraction_pos canonical.trimmed some) (by positivity)

theorem number_neg (neg : left.neg = true) : left.number = -left.absolute := by
  simp [NumKey.number, NumKey.absolute, neg]

theorem number_nonneg (plus : left.neg = false) : left.number = left.absolute := by
  simp [NumKey.number, NumKey.absolute, plus]

theorem sign_zero (zero : left.digits = []) : left.sign = 0 := by simp [NumKey.sign, zero]

theorem sign_neg (some : left.digits ≠ []) (neg : left.neg = true) : left.sign = -1 := by simp [NumKey.sign, some, neg]

theorem sign_pos (some : left.digits ≠ [])
    (plus : left.neg = false) : left.sign = 1 := by simp [NumKey.sign, some, plus]

theorem sign_number (canonical : left.Canonical) :
    (left.sign = 0 ∧ left.digits = [] ∧ left.number = 0) ∨
      (left.sign = -1 ∧ left.digits ≠ [] ∧ left.neg = true ∧ left.number < 0) ∨
      (left.sign = 1 ∧ left.digits ≠ [] ∧ left.neg = false ∧ 0 < left.number) := by
  by_cases zero : left.digits = []
  · exact .inl ⟨sign_zero zero, zero, number_zero zero⟩
  · have positive := absolute_pos canonical zero
    cases neg : left.neg with
    | true => exact .inr (.inl ⟨sign_neg zero neg, zero, rfl, by rw [number_neg neg]; linarith⟩)
    | false => exact .inr (.inr ⟨sign_pos zero neg, zero, rfl, by rw [number_nonneg neg]; exact positive⟩)

/-- Without their signs, canonical keys are compared by magnitude and then by digits. -/
theorem cmp_absolute (canonical : left.Canonical) (canonical' : right.Canonical) (some : left.digits ≠ [])
    (some' : right.digits ≠ []) :
    cmp left.absolute right.absolute =
      (compare left.magnitude right.magnitude).then (compare left.digits right.digits) :=
  Decimal.cmp_scaled
    (fun d m e m' => compare_bytes (canonical.digits d m).1 (canonical'.digits e m').1)
    canonical.valid canonical'.valid canonical.trimmed canonical'.trimmed (canonical.leads some)
      (canonical'.leads some')
    left.magnitude right.magnitude

theorem cmp_of_sign (differ : compare left.sign right.sign ≠ .eq) : left.cmp right = compare left.sign right.sign := by
  simp [NumKey.cmp, differ]

theorem cmp_of_zero (same : left.sign = right.sign) (zero : left.sign = 0) : left.cmp right = .eq := by
  simp [NumKey.cmp, ← same, zero]

theorem cmp_of_same (same : left.sign = right.sign) (nonzero : left.sign ≠ 0) :
    left.cmp right =
      let order := (compare left.magnitude right.magnitude).then (compare left.digits right.digits)
      if left.neg then order.swap else order := by
  simp [NumKey.cmp, ← same, nonzero]

theorem cmp_number (canonical : left.Canonical) (canonical' : right.Canonical) :
    left.cmp right = cmp left.number right.number := by
  rcases sign_number canonical with ⟨sign, empty, number⟩ | ⟨sign, some, neg, number⟩ | ⟨sign, some, plus, number⟩ <;>
    rcases sign_number canonical' with ⟨sign', empty', number'⟩ | ⟨sign', some', neg', number'⟩ |
      ⟨sign', some', plus', number'⟩
  · rw [cmp_of_zero (sign.trans sign'.symm) sign, number, number', cmp_self_eq_eq]
  · rw [cmp_of_sign (by rw [sign, sign']; decide), sign, sign', number, (cmp_eq_gt_iff _ _).mpr number']
    rfl
  · rw [cmp_of_sign (by rw [sign, sign']; decide), sign, sign', number, (cmp_eq_lt_iff _ _).mpr number']
    rfl
  · rw [cmp_of_sign (by rw [sign, sign']; decide), sign, sign', number', (cmp_eq_lt_iff _ _).mpr number]
    rfl
  · rw [cmp_of_same (sign.trans sign'.symm) (by rw [sign]; decide), neg, number_neg neg, number_neg neg']
    rw [if_pos rfl, ← cmp_absolute canonical canonical' some some', cmp_swap]
    rcases lt_trichotomy right.absolute left.absolute with less | same | greater
    · rw [(cmp_eq_lt_iff _ _).mpr less, (cmp_eq_lt_iff _ _).mpr (neg_lt_neg less)]
    · rw [same, cmp_self_eq_eq, cmp_self_eq_eq]
    · rw [(cmp_eq_gt_iff _ _).mpr greater, (cmp_eq_gt_iff _ _).mpr (neg_lt_neg greater)]
  · rw [cmp_of_sign (by rw [sign, sign']; decide), sign, sign', (cmp_eq_lt_iff _ _).mpr (number.trans number')]
    rfl
  · rw [cmp_of_sign (by rw [sign, sign']; decide), sign, sign', number', (cmp_eq_gt_iff _ _).mpr number]
    rfl
  · rw [cmp_of_sign (by rw [sign, sign']; decide), sign, sign', (cmp_eq_gt_iff _ _).mpr (number'.trans number)]
    rfl
  · rw [cmp_of_same (sign.trans sign'.symm) (by rw [sign]; decide), plus, number_nonneg plus, number_nonneg plus']
    exact (cmp_absolute canonical canonical' some some').symm

theorem eq_of_absolute (canonical : left.Canonical) (canonical' : right.Canonical) (some : left.digits ≠ [])
    (some' : right.digits ≠ []) (same : left.absolute = right.absolute) (sign : left.neg = right.neg) :
    left = right := by
  have order := cmp_absolute canonical canonical' some some'
  rw [same, cmp_self_eq_eq, eq_comm, Ordering.then_eq_eq, compare_eq_iff_eq, Std.LawfulEqOrd.compare_eq_iff_eq] at order
  obtain ⟨magnitude, digits⟩ := order
  unfold NumKey.magnitude at magnitude
  rw [digits] at magnitude
  cases left
  cases right
  simp_all

theorem eq_of_number (canonical : left.Canonical) (canonical' : right.Canonical) (same : left.number = right.number) :
    left = right := by
  rcases sign_number canonical with ⟨_, empty, number⟩ | ⟨_, some, neg, number⟩ | ⟨_, some, plus, number⟩ <;>
    rcases sign_number canonical' with ⟨_, empty', number'⟩ | ⟨_, some', neg', number'⟩ | ⟨_, some', plus', number'⟩ <;>
    try exact absurd same (by intro equal; linarith)
  · obtain ⟨plus, exp⟩ := canonical.zero empty
    obtain ⟨plus', exp'⟩ := canonical'.zero empty'
    cases left
    cases right
    simp_all
  · rw [number_neg neg, number_neg neg', neg_inj] at same
    exact eq_of_absolute canonical canonical' some some' same (neg.trans neg'.symm)
  · rw [number_nonneg plus, number_nonneg plus'] at same
    exact eq_of_absolute canonical canonical' some some' same (plus.trans plus'.symm)

theorem allDigits_of_readPlain (read : readPlain text = some plain) :
    Numeral.allDigits (plain.int ++ plain.frac) = true := by
  unfold readPlain at read
  dsimp only at read
  split at read
  · cases read
  obtain ⟨exp, _, read⟩ := Option.bind_eq_some_iff.mp read
  obtain ⟨⟨int, frac⟩, mantissa, rfl⟩ := Option.map_eq_some_iff.mp read
  obtain ⟨⟨int', frac'⟩, _, valid⟩ := Option.bind_eq_some_iff.mp mantissa
  obtain ⟨digits, same⟩ := Option.ite_none_right_eq_some.mp valid
  cases same
  rw [Numeral.allDigits_append]
  exact digits

/-- The keys of two plain numbers compare as the numbers do, and are one key exactly when the
numbers are one number. -/
theorem plain_number_exact (read : swiftPlainNumber a = some left) (read' : swiftPlainNumber b = some right) :
    ∃ x y, plainNumber a = some x ∧ plainNumber b = some y ∧ left.cmp right = cmp x y ∧ (left = right ↔ x = y) := by
  obtain ⟨plain, parsed, keyed⟩ := Option.bind_eq_some_iff.mp read
  obtain ⟨plain', parsed', keyed'⟩ := Option.bind_eq_some_iff.mp read'
  obtain ⟨canonical, number⟩ := key_exact (allDigits_of_readPlain parsed) keyed
  obtain ⟨canonical', number'⟩ := key_exact (allDigits_of_readPlain parsed') keyed'
  refine ⟨plain.number, plain'.number, by rw [plainNumber, parsed]; rfl, by rw [plainNumber, parsed']; rfl, ?_, ?_⟩
  · rw [cmp_number canonical canonical', number, number']
  · rw [← number, ← number']
    exact ⟨congrArg NumKey.number, eq_of_number canonical canonical'⟩

/-- The same number with another dot and exponent, and a smaller one. -/
theorem plain_number_exact_written_twice :
    (∃ x y, plainNumber "-1.50e1" = some x ∧ plainNumber " -15" = some y ∧
      (⟨true, 0, [49, 53]⟩ : NumKey).cmp ⟨true, 0, [49, 53]⟩ = cmp x y ∧
        ((⟨true, 0, [49, 53]⟩ : NumKey) = ⟨true, 0, [49, 53]⟩ ↔ x = y)) :=
  plain_number_exact (by decide +kernel) (by decide +kernel)

end QueryHive.Store
