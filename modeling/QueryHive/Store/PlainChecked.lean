import QueryHive.Store.PlainNumber

/-! The second reading of a plain number, which only says whether there is one, and the arithmetic of the exponent in
its own type: an `i64` that is left stops a debug build and wraps around in a release build. -/
namespace QueryHive.Store
open QueryHive.Library

def trailingZeros (digits : List Char) : Nat :=
  if digits.all (· == '0') then 0 else (digits.rtakeWhile (· == '0')).length

/-- What the fast test looks at before it reads anything. -/
def startsPlain : List Char → Bool
  | c :: _ => c.isDigit || c == '-' || c == '+' || c == '.'
  | [] => false

/-- The bounds of the fast test, on the parts it has read. -/
def inRange (exp : Int) (int frac : List Char) : Bool :=
  let total := int.length + frac.length
  if total = 0 ∨ 38 < total then false
  else
    let adjExp := exp - frac.length + trailingZeros (int ++ frac)
    decide (-166 ≤ adjExp ∧ adjExp ≤ 128)

/-- `is_swift_plain_number`. -/
def isSwiftPlainNumber (text : String) : Bool :=
  let body := (trimZsTab text).toList
  if !startsPlain body then false
  else
    let rest := (splitSign body).2
    let (mantissa, exponent) :=
      match Text.splitOnce (fun c => c == 'e' || c == 'E') rest with
      | some (mantissa, exponent) => (mantissa, some exponent)
      | none => (rest, none)
    (readExponent exponent).any fun exp => (readMantissa mantissa).any fun (int, frac) => inRange exp int frac

/-- Whether a reading has as many digits as a number may. -/
def Plain.Sized (plain : Plain) : Prop :=
  plain.int.length + plain.frac.length ≠ 0 ∧ plain.int.length + plain.frac.length ≤ 38

instance (plain : Plain) : Decidable plain.Sized := inferInstanceAs (Decidable (_ ∧ _))

/-- The exponent of the last digit that is not dropped. -/
def Plain.adjExp (plain : Plain) : Int := plain.exp - plain.frac.length + trailingZeros (plain.int ++ plain.frac)

theorem significant_trailing (digits : List Char) : (significant digits).2 = trailingZeros digits := by
  unfold significant trailingZeros
  dsimp only
  by_cases zeros : (digits.all (· == '0')) = true
  · have none : digits.dropWhile (· == '0') = [] := List.dropWhile_eq_nil_iff.mpr (List.all_eq_true.mp zeros)
    rw [if_pos zeros, none]
    rfl
  · rw [if_neg zeros]
    -- The zeros in front end before those at the end begin.
    have some : digits.dropWhile (· == '0') ≠ [] := fun none =>
      zeros (List.all_eq_true.mpr (List.dropWhile_eq_nil_iff.mp none))
    have first := List.head_dropWhile_not (· == '0') some
    conv_rhs => rw [← List.takeWhile_append_dropWhile (p := (· == '0')) (l := digits)]
    have stops : ¬∀ c ∈ digits.dropWhile (· == '0'), (c == '0') = true := fun all => by
      rw [all _ (List.head_mem some)] at first
      cases first
    rw [List.rtakeWhile, List.rtakeWhile, List.reverse_append, List.takeWhile_append]
    split
    · next whole =>
      refine absurd (fun c inside => ?_) stops
      have every := List.takeWhile_eq_self_iff.mp ((List.takeWhile_prefix _).eq_of_length whole)
      exact every c (List.mem_reverse.mpr inside)
    · rfl

theorem key_isSome (plain : Plain) : plain.key.isSome = true ↔ plain.Sized ∧ -166 ≤ plain.adjExp ∧
    plain.adjExp ≤ 128 := by
  unfold Plain.key Plain.Sized Plain.adjExp
  rw [← significant_trailing]
  dsimp only
  split
  · next wrong =>
    constructor
    · intro some
      cases some
    · rintro ⟨⟨filled, short⟩, -⟩
      omega
  · next right =>
    rw [not_or, Nat.not_lt] at right
    split
    · next out =>
      constructor
      · intro some
        cases some
      · rintro ⟨-, low, high⟩
        omega
    · next within =>
      rw [not_or, Int.not_lt, Int.not_lt] at within
      exact ⟨fun _ => ⟨right, within⟩, fun _ => rfl⟩

theorem readMantissa_shape (read : readMantissa mantissa = some (int, frac)) :
    Numeral.allDigits int = true ∧ (mantissa = int ∧ frac = [] ∨ mantissa = int ++ '.' :: frac) := by
  obtain ⟨⟨int', frac'⟩, parts, checked⟩ := Option.bind_eq_some_iff.mp read
  obtain ⟨digits, same⟩ := Option.ite_none_right_eq_some.mp checked
  cases same
  have glued : ['.'].intercalate (mantissa.splitOn '.') = mantissa := List.intercalate_splitOn '.'
  refine ⟨(Bool.and_eq_true_iff.mp digits).1, ?_⟩
  split at parts
  · next one =>
    cases parts
    rw [one] at glued
    exact .inl ⟨by simpa using glued.symm, rfl⟩
  · next two =>
    cases parts
    rw [two] at glued
    exact .inr (by simpa [List.intercalate] using glued.symm)
  · cases parts

theorem readPlain_mantissa (read : readPlain text = some plain) :
    ∃ mantissa, mantissa <+: (splitSign (trimZsTab text).toList).2 ∧
      readMantissa mantissa = some (plain.int, plain.frac) := by
  unfold readPlain at read
  dsimp only at read
  split at read
  · cases read
  obtain ⟨exp, _, read⟩ := Option.bind_eq_some_iff.mp read
  obtain ⟨⟨int, frac⟩, found, rfl⟩ := Option.map_eq_some_iff.mp read
  refine ⟨_, ?_, found⟩
  split
  · next split =>
    obtain ⟨c, _, whole⟩ := Text.of_splitOnce split
    exact ⟨_, whole.symm⟩
  · exact List.prefix_refl _

/-- A reading with any digits starts as the fast test expects. -/
theorem startsPlain_of_read (read : readPlain text = some plain) (sized : plain.Sized) :
    startsPlain (trimZsTab text).toList = true := by
  obtain ⟨mantissa, ⟨behind, whole⟩, found⟩ := readPlain_mantissa read
  obtain ⟨digits, shape⟩ := readMantissa_shape found
  have filled : ∃ c rest, mantissa = c :: rest ∧ (c.isDigit = true ∨ c = '.') := by
    cases int : plain.int with
    | cons c rest =>
      have digit : c.isDigit = true := Numeral.digit_of_allDigits digits (by rw [int]; exact List.mem_cons_self)
      rcases shape with ⟨same, _⟩ | same
      · exact ⟨c, rest, same.trans int, .inl digit⟩
      · exact ⟨c, rest ++ '.' :: plain.frac, by rw [same, int, List.cons_append], .inl digit⟩
    | nil =>
      rcases shape with ⟨_, none⟩ | same
      · exact absurd (by rw [int, none]; rfl) sized.1
      · exact ⟨'.', plain.frac, by rw [same, int, List.nil_append], .inr rfl⟩
  obtain ⟨c, rest, rfl, starts⟩ := filled
  generalize (trimZsTab text).toList = body at whole
  unfold splitSign at whole
  split at whole
  · rfl
  · rfl
  · dsimp only at whole
    subst whole
    rcases starts with digit | rfl
    · simp [startsPlain, digit]
    · rfl

theorem inRange_iff (plain : Plain) : inRange plain.exp plain.int plain.frac = true ↔
    plain.Sized ∧ -166 ≤ plain.adjExp ∧ plain.adjExp ≤ 128 := by
  unfold inRange Plain.Sized Plain.adjExp
  dsimp only
  split
  · next wrong =>
    simp only [Bool.false_eq_true, false_iff]
    rintro ⟨⟨filled, short⟩, -⟩
    omega
  · next right =>
    rw [not_or, Nat.not_lt] at right
    rw [decide_eq_true_eq]
    exact ⟨fun within => ⟨right, within⟩, fun both => both.2⟩

theorem isSwiftPlainNumber_eq (text : String) : isSwiftPlainNumber text =
    (startsPlain (trimZsTab text).toList &&
      (readPlain text).any fun plain => inRange plain.exp plain.int plain.frac) := by
  unfold isSwiftPlainNumber readPlain
  dsimp only
  generalize (trimZsTab text).toList = body
  cases body with
  | nil => rfl
  | cons c rest =>
    rw [List.isEmpty_cons, if_neg Bool.false_ne_true]
    cases startsPlain (c :: rest) with
    | false => rfl
    | true =>
      rw [Bool.not_true, if_neg Bool.false_ne_true, Bool.true_and]
      cases Text.splitOnce (fun c => c == 'e' || c == 'E') (splitSign (c :: rest)).2 with
      | none =>
        dsimp only
        cases readExponent none with
        | none => rfl
        | some exp => cases readMantissa (splitSign (c :: rest)).2 <;> rfl
      | some parts =>
        dsimp only
        cases readExponent (some parts.2) with
        | none => rfl
        | some exp => cases readMantissa parts.1 <;> rfl

theorem isSwiftPlainNumber_iff (text : String) : isSwiftPlainNumber text = true ↔
    startsPlain (trimZsTab text).toList = true ∧
      ∃ plain, readPlain text = some plain ∧ plain.Sized ∧ -166 ≤ plain.adjExp ∧ plain.adjExp ≤ 128 := by
  rw [isSwiftPlainNumber_eq, Bool.and_eq_true, Option.any_eq_true]
  simp only [inRange_iff]

/-- The fast test says exactly whether the text has a key. -/
theorem is_swift_plain_number_agrees (text : String) :
    isSwiftPlainNumber text = true ↔ (swiftPlainNumber text).isSome = true := by
  rw [isSwiftPlainNumber_iff, swiftPlainNumber]
  cases read : readPlain text with
  | none => simp
  | some plain =>
    rw [Option.bind_some, key_isSome]
    constructor
    · rintro ⟨-, _, same, holds⟩
      cases same
      exact holds
    · exact fun holds => ⟨startsPlain_of_read read holds.1, plain, rfl, holds⟩

/-- A number where it is one of an `i64`. -/
def inI64 (n : Int) : Option Int := if -(2 ^ 63) ≤ n ∧ n < 2 ^ 63 then some n else none

/-- `exp_given - frac.len() as i64 + trailing as i64`, step by step; nothing where a step leaves the type. -/
def adjustExp (exp : Int) (frac trailing : Nat) : Option Int :=
  (inI64 (exp - frac)).bind fun low => inI64 (low + trailing)

/-- `swift_plain_number` behind its checks, with the arithmetic in its type. -/
def Plain.keyChecked (plain : Plain) : Option (Option NumKey) :=
  let total := plain.int.length + plain.frac.length
  if total = 0 ∨ 38 < total then some none
  else
    let (digits, trailing) := significant (plain.int ++ plain.frac)
    (adjustExp plain.exp plain.frac.length trailing).map fun adjExp =>
      if adjExp < -166 ∨ 128 < adjExp then none
      else
        let zero := digits.isEmpty
        some
          { neg := plain.neg && !zero
            adjExp := if zero then 0 else adjExp
            digits := digits.map fun c => c.toNat.toUInt8 }

/-- `swift_plain_number`, with the arithmetic in its type. -/
def swiftPlainNumberChecked (text : String) : Option (Option NumKey) :=
  match readPlain text with
  | none => some none
  | some plain => plain.keyChecked

/-- The bounds of the fast test, with the arithmetic in its type. -/
def inRangeChecked (exp : Int) (int frac : List Char) : Option Bool :=
  let total := int.length + frac.length
  if total = 0 ∨ 38 < total then some false
  else (adjustExp exp frac.length (trailingZeros (int ++ frac))).map fun adjExp => decide (-166 ≤ adjExp ∧ adjExp ≤ 128)

/-- `is_swift_plain_number`, with the arithmetic in its type. -/
def isSwiftPlainNumberChecked (text : String) : Option Bool :=
  let body := (trimZsTab text).toList
  if !startsPlain body then some false
  else
    let rest := (splitSign body).2
    let (mantissa, exponent) :=
      match Text.splitOnce (fun c => c == 'e' || c == 'E') rest with
      | some (mantissa, exponent) => (mantissa, some exponent)
      | none => (rest, none)
    match readExponent exponent with
    | none => some false
    | some exp =>
      match readMantissa mantissa with
      | none => some false
      | some (int, frac) => inRangeChecked exp int frac

/-- The exponent of these parts can be adjusted within its type, step by step. -/
def Plain.Room (plain : Plain) : Prop :=
  -(2 ^ 63) ≤ plain.exp - plain.frac.length ∧ plain.exp - plain.frac.length +
    trailingZeros (plain.int ++ plain.frac) < 2 ^ 63

/-- A text that is read, and has as many digits as a number may, leaves the adjustment its room. -/
def RoomForExponent (text : String) : Prop := ∀ plain, readPlain text = some plain → plain.Sized → plain.Room

theorem adjustExp_some {exp : Int} {frac trailing : Nat} (low : -(2 ^ 63) ≤ exp - frac)
    (high : exp - frac + trailing < 2 ^ 63) : adjustExp exp frac trailing = some (exp - frac + trailing) := by
  have first : inI64 (exp - frac) = some (exp - frac) := if_pos ⟨low, by omega⟩
  have second : inI64 (exp - frac + trailing) = some (exp - frac + trailing) := if_pos ⟨by omega, high⟩
  rw [adjustExp, first, Option.bind_some, second]

theorem adjustExp_isSome {exp : Int} {frac trailing : Nat} : (adjustExp exp frac trailing).isSome = true ↔
    -(2 ^ 63) ≤ exp - frac ∧ exp - frac + trailing < 2 ^ 63 := by
  constructor
  · intro ends
    unfold adjustExp inI64 at ends
    split at ends
    · next first =>
      rw [Option.bind_some] at ends
      split at ends
      · next second => exact ⟨first.1, second.2⟩
      · cases ends
    · cases ends
  · rintro ⟨low, high⟩
    rw [adjustExp_some low high]
    rfl

theorem sized_of_not {plain : Plain} (right : ¬(plain.int.length + plain.frac.length = 0 ∨
    38 < plain.int.length + plain.frac.length)) :
    plain.Sized := by
  rw [not_or, Nat.not_lt] at right
  exact right

theorem not_sized {plain : Plain} (wrong : plain.int.length + plain.frac.length = 0 ∨
    38 < plain.int.length + plain.frac.length) :
    ¬plain.Sized := fun sized => wrong.elim sized.1 (Nat.not_lt.mpr sized.2)

theorem keyChecked_isSome (plain : Plain) : plain.keyChecked.isSome = true ↔ (plain.Sized → plain.Room) := by
  unfold Plain.keyChecked
  dsimp only
  split
  · next wrong => exact ⟨fun _ sized => absurd sized (not_sized wrong), fun _ => rfl⟩
  · next right =>
    rw [Option.isSome_map, significant_trailing, adjustExp_isSome]
    exact ⟨fun room _ => room, fun room => room (sized_of_not right)⟩

theorem inRangeChecked_isSome (plain : Plain) :
    (inRangeChecked plain.exp plain.int plain.frac).isSome = true ↔ (plain.Sized → plain.Room) := by
  unfold inRangeChecked
  dsimp only
  split
  · next wrong => exact ⟨fun _ sized => absurd sized (not_sized wrong), fun _ => rfl⟩
  · next right =>
    rw [Option.isSome_map, adjustExp_isSome]
    exact ⟨fun room _ => room, fun room => room (sized_of_not right)⟩

theorem swiftPlainNumberChecked_isSome (text : String) :
    (swiftPlainNumberChecked text).isSome = true ↔ RoomForExponent text := by
  unfold swiftPlainNumberChecked RoomForExponent
  cases readPlain text with
  | none => simp
  | some plain => simp only [keyChecked_isSome, Option.some.injEq, forall_eq']

theorem isSwiftPlainNumberChecked_eq (text : String) : isSwiftPlainNumberChecked text =
    if !startsPlain (trimZsTab text).toList then some false
    else ((readPlain text).map fun plain => inRangeChecked plain.exp plain.int plain.frac).getD (some false) := by
  unfold isSwiftPlainNumberChecked readPlain
  dsimp only
  generalize (trimZsTab text).toList = body
  cases body with
  | nil => rfl
  | cons c rest =>
    rw [List.isEmpty_cons, if_neg Bool.false_ne_true]
    cases Text.splitOnce (fun c => c == 'e' || c == 'E') (splitSign (c :: rest)).2 with
    | none =>
      dsimp only
      cases readExponent none with
      | none => rfl
      | some exp => cases readMantissa (splitSign (c :: rest)).2 <;> rfl
    | some parts =>
      dsimp only
      cases readExponent (some parts.2) with
      | none => rfl
      | some exp => cases readMantissa parts.1 <;> rfl

theorem isSwiftPlainNumberChecked_isSome (text : String) :
    (isSwiftPlainNumberChecked text).isSome = true ↔ RoomForExponent text := by
  rw [isSwiftPlainNumberChecked_eq]
  unfold RoomForExponent
  split
  · next starts =>
    refine ⟨fun _ plain read sized => ?_, fun _ => rfl⟩
    rw [startsPlain_of_read read sized] at starts
    cases starts
  · cases readPlain text with
    | none => simp
    | some plain => simp only [Option.map_some, Option.getD_some, inRangeChecked_isSome, Option.some.injEq, forall_eq']

/-- Neither reading of the text leaves the type of its exponent. -/
def ExponentFits (text : String) : Prop :=
  (swiftPlainNumberChecked text).isSome ∧ (isSwiftPlainNumberChecked text).isSome

instance (text : String) : Decidable (ExponentFits text) := inferInstanceAs (Decidable (_ ∧ _))

/-- The arithmetic stays in its type exactly where the exponent leaves it room. -/
theorem exponent_fits_iff (text : String) : ExponentFits text ↔ RoomForExponent text := by
  unfold ExponentFits
  rw [swiftPlainNumberChecked_isSome, isSwiftPlainNumberChecked_isSome, and_self]

/-- The least exponent is read, and one digit behind the dot takes it out of its type. -/
theorem exponent_overflows : ¬∀ text, ExponentFits text :=
  fun every => absurd (every "1.5e-9223372036854775808") (by decide +kernel)

end QueryHive.Store
