import Mathlib.Algebra.Ring.Nat
import QueryHive.Library.Lexical

/-! Decimal numerals as text: a number printed with leading zeros up to a width,
and the readers of a standard library, which take an optional sign and a
non-empty run of digits and refuse a number that does not fit its type. Reading
what was printed gives the number back, and appending digits appends them to the
number. -/
namespace QueryHive.Library.Numeral

def allDigits (text : List Char) : Bool := text.all Char.isDigit

def value (digits : List Char) : Nat := Nat.ofDigitChars 10 digits 0

/-- A number in decimal, with leading zeros up to `width` digits. -/
def padded (width n : Nat) : List Char :=
  List.replicate (width - (Nat.toDigits 10 n).length) '0' ++ Nat.toDigits 10 n

/-- A non-empty run of digits and nothing else. -/
def readNat (text : List Char) : Option Nat :=
  if text ≠ [] ∧ allDigits text then some (value text) else none

/-- The text after one optional `+`. -/
def afterPlus : List Char → List Char
  | '+' :: rest => rest
  | text => text

/-- An unsigned integer of `bits` bits: one `+` is allowed before the digits. -/
def readUnsigned (bits : Nat) (text : List Char) : Option Nat :=
  (readNat (afterPlus text)).bind fun n => if n < 2 ^ bits then some n else none

/-- A signed integer of `bits` bits: one `+` or `-` is allowed before the digits. -/
def readSigned (bits : Nat) : List Char → Option Int
  | '-' :: digits => (readNat digits).bind fun n => if n ≤ 2 ^ (bits - 1) then some (-(n : Int)) else none
  | text => (readNat (afterPlus text)).bind fun n => if n < 2 ^ (bits - 1) then some (n : Int) else none

@[simp] theorem value_nil : value [] = 0 := Nat.ofDigitChars_nil

theorem allDigits_append (first second : List Char) :
    allDigits (first ++ second) = (allDigits first && allDigits second) := List.all_append

theorem digit_of_allDigits (digits : allDigits text) (inside : c ∈ text) : c.isDigit :=
  List.all_eq_true.mp digits c inside

theorem value_append (first second : List Char) :
    value (first ++ second) = value first * 10 ^ second.length + value second := by
  rw [value, Nat.ofDigitChars_append, Nat.ofDigitChars_eq_ofDigitChars_zero, Nat.mul_comm]
  rfl

theorem digit_toNat {c : Char} (digit : c.isDigit) : 48 ≤ c.toNat ∧ c.toNat ≤ 57 := by
  simpa [Char.isDigit, UInt32.le_iff_toNat_le] using digit

/-- The first digit counts as often as the digits after it can. -/
theorem value_cons (c : Char) (rest : List Char) :
    value (c :: rest) = (c.toNat - 48) * 10 ^ rest.length + value rest := by
  have split := value_append [c] rest
  simpa [value, Nat.ofDigitChars] using split

theorem value_zeros (zeros : ∀ c ∈ digits, c = '0') : value digits = 0 := by
  induction digits with
  | nil => rfl
  | cons c rest ih =>
    rw [value_cons, zeros c List.mem_cons_self, ih fun c member => zeros c (List.mem_cons_of_mem _ member)]
    simp

theorem value_dropWhile (digits : List Char) : value (digits.dropWhile (· == '0')) = value digits := by
  induction digits with
  | nil => rfl
  | cons c rest ih =>
    by_cases zero : c = '0'
    · rw [List.dropWhile_cons_of_pos (by simp [zero]), ih, value_cons, zero]
      simp
    · rw [List.dropWhile_cons_of_neg (by simp [zero])]

theorem value_lt (digits : allDigits text) : value text < 10 ^ text.length := by
  induction text with
  | nil => exact Nat.one_pos
  | cons c rest ih =>
    obtain ⟨first, later⟩ := Bool.and_eq_true_iff.mp (digits : (c.isDigit && allDigits rest) = true)
    have small : c.toNat - 48 ≤ 9 := Nat.sub_le_sub_right (digit_toNat first).2 48
    have scaled := Nat.mul_le_mul_right (10 ^ rest.length) small
    have tail := ih later
    rw [value_cons, List.length_cons, Nat.pow_succ]
    omega

theorem below_of_value (digits : allDigits first) (digits' : allDigits second) (same : first.length = second.length)
    (less : value first < value second) : Lexical.Below first second := by
  induction first generalizing second with
  | nil =>
    rw [List.length_eq_zero_iff.mp same.symm] at less
    exact absurd less (Nat.lt_irrefl _)
  | cons c rest ih =>
    cases second with
    | nil => cases same
    | cons d other =>
      obtain ⟨one, later⟩ := Bool.and_eq_true_iff.mp (digits : (c.isDigit && allDigits rest) = true)
      obtain ⟨one', later'⟩ := Bool.and_eq_true_iff.mp (digits' : (d.isDigit && allDigits other) = true)
      have length : rest.length = other.length := Nat.succ.inj same
      have bounds := digit_toNat one
      have bounds' := digit_toNat one'
      rw [value_cons, value_cons, ← length] at less
      rcases Nat.lt_trichotomy c.toNat d.toNat with head | head | head
      · exact Lexical.below_head (Char.lt_def.mpr (UInt32.lt_iff_toNat_lt.mpr head)) rest other
      · cases Char.toNat_inj.mp head
        exact (ih later later' length (by omega)).behind [c]
      · have tail := value_lt later'
        rw [← length] at tail
        have scaled : (d.toNat - 48 + 1) * 10 ^ rest.length ≤ (c.toNat - 48) * 10 ^ rest.length :=
          Nat.mul_le_mul_right _ (by omega)
        rw [Nat.succ_mul] at scaled
        omega

/-- Without a zero in front a number is at least the power of ten of its first digit. -/
theorem le_value {c : Char} (digit : c.isDigit) (nonzero : c ≠ '0') : 10 ^ rest.length ≤ value (c :: rest) := by
  have positive : 1 ≤ c.toNat - 48 := by
    have low := (digit_toNat digit).1
    have other : c.toNat ≠ 48 := fun same => nonzero (Char.toNat_inj.mp same)
    omega
  have scaled := Nat.mul_le_mul_right (10 ^ rest.length) positive
  rw [value_cons]
  omega

theorem value_toDigits (n : Nat) : value (Nat.toDigits 10 n) = n := Nat.ofDigitChars_ten_toDigits

theorem allDigits_toDigits (n : Nat) : allDigits (Nat.toDigits 10 n) :=
  List.all_eq_true.mpr fun _ inside => Nat.isDigit_of_mem_toDigits (by decide) (by decide) inside

@[simp] theorem allDigits_padded (width n : Nat) : allDigits (padded width n) := by
  rw [padded, allDigits_append, Bool.and_eq_true]
  refine ⟨List.all_eq_true.mpr ?_, allDigits_toDigits n⟩
  intro c inside
  rw [List.eq_of_mem_replicate inside]
  rfl

@[simp] theorem padded_ne_nil (width n : Nat) : padded width n ≠ [] := by
  intro empty
  exact Nat.toDigits_ne_nil (List.append_eq_nil_iff.mp empty).2

@[simp] theorem value_padded (width n : Nat) : value (padded width n) = n := by
  rw [padded, value_append, value_toDigits, value, Nat.ofDigitChars_replicate_zero]
  simp

theorem length_padded (positive : 0 < width) (fits : n < 10 ^ width) : (padded width n).length = width := by
  have short := (Nat.length_toDigits_le_iff (by decide : 1 < 10) positive).mpr fits
  rw [padded, List.length_append, List.length_replicate]
  omega

theorem isDigit_of_padded (inside : c ∈ padded width n) : c.isDigit :=
  digit_of_allDigits (allDigits_padded width n) inside

theorem padded_cons (width n : Nat) : ∃ first rest, padded width n = first :: rest ∧ first.isDigit := by
  cases printed : padded width n with
  | nil => exact absurd printed (padded_ne_nil width n)
  | cons first rest => exact ⟨first, rest, rfl, isDigit_of_padded (printed ▸ List.mem_cons_self)⟩

theorem padded_concat (width n : Nat) : ∃ start last, padded width n = start ++ [last] ∧ last.isDigit := by
  have nonempty := padded_ne_nil width n
  refine ⟨_, _, (List.dropLast_append_getLast nonempty).symm, ?_⟩
  exact isDigit_of_padded (List.getLast_mem nonempty)

theorem readNat_digits (nonempty : text ≠ []) (digits : allDigits text) : readNat text = some (value text) :=
  if_pos ⟨nonempty, digits⟩

theorem readNat_padded (width n : Nat) : readNat (padded width n) = some n := by
  rw [readNat_digits (padded_ne_nil width n) (allDigits_padded width n), value_padded]

/-- A run of digits has no sign for the readers to take. -/
theorem afterPlus_digits (digits : allDigits text) : afterPlus text = text := by
  unfold afterPlus
  split
  · exact absurd (digit_of_allDigits digits List.mem_cons_self) (by decide)
  · rfl

theorem unsigned_digits (nonempty : text ≠ []) (digits : allDigits text) (fits : value text < 2 ^ bits) :
    readUnsigned bits text = some (value text) := by
  rw [readUnsigned, afterPlus_digits digits, readNat_digits nonempty digits, Option.bind_some, if_pos fits]

theorem signed_of_digits (digits : allDigits text) :
    readSigned bits text =
      (readNat text).bind fun n => if n < 2 ^ (bits - 1) then some (n : Int) else none := by
  unfold readSigned
  split
  · exact absurd (digit_of_allDigits digits List.mem_cons_self) (by decide)
  · rw [afterPlus_digits digits]

theorem signed_digits (nonempty : text ≠ []) (digits : allDigits text) (fits : value text < 2 ^ (bits - 1)) :
    readSigned bits text = some (value text : Int) := by
  rw [signed_of_digits digits, readNat_digits nonempty digits, Option.bind_some, if_pos fits]

theorem signed_digits_none (digits : allDigits text) (large : 2 ^ (bits - 1) ≤ value text) :
    readSigned bits text = none := by
  rw [signed_of_digits digits]
  by_cases nonempty : text = []
  · rw [nonempty]
    rfl
  · rw [readNat_digits nonempty digits, Option.bind_some, if_neg (Nat.not_lt.mpr large)]

theorem signed_negative (nonempty : text ≠ []) (digits : allDigits text) (fits : value text ≤ 2 ^ (bits - 1)) :
    readSigned bits ('-' :: text) = some (-(value text : Int)) := by
  rw [readSigned, readNat_digits nonempty digits, Option.bind_some, if_pos fits]

theorem unsigned_padded (fits : n < 2 ^ bits) : readUnsigned bits (padded width n) = some n := by
  rw [unsigned_digits (padded_ne_nil width n) (allDigits_padded width n) (by simpa using fits), value_padded]

theorem unsigned_padded_eq (bits width n : Nat) :
    readUnsigned bits (padded width n) = if n < 2 ^ bits then some n else none := by
  rw [readUnsigned, afterPlus_digits (allDigits_padded width n), readNat_padded, Option.bind_some]

theorem signed_padded (fits : n < 2 ^ (bits - 1)) : readSigned bits (padded width n) = some (n : Int) := by
  rw [signed_digits (padded_ne_nil width n) (allDigits_padded width n) (by simpa using fits), value_padded]

theorem signed_negative_padded (fits : n ≤ 2 ^ (bits - 1)) :
    readSigned bits ('-' :: padded width n) = some (-(n : Int)) := by
  rw [signed_negative (padded_ne_nil width n) (allDigits_padded width n) (by simpa using fits), value_padded]

theorem unsigned_plus (bits : Nat) (digits : allDigits text) :
    readUnsigned bits ('+' :: text) = readUnsigned bits text := by
  rw [readUnsigned, readUnsigned, afterPlus_digits digits, afterPlus]

theorem signed_plus (bits : Nat) (digits : allDigits text) :
    readSigned bits ('+' :: text) = readSigned bits text := by
  rw [signed_of_digits digits]
  rfl

theorem readNat_none (inside : c ∈ text) (symbol : c.isDigit = false) : readNat text = none := by
  apply if_neg
  rintro ⟨-, digits⟩
  exact absurd (digit_of_allDigits digits inside) (by simp [symbol])

/-- An unsigned reader refuses a minus sign, and anything but digits after the first character. -/
theorem unsigned_none (later : c ∈ rest) (symbol : c.isDigit = false) :
    readUnsigned bits (first :: rest) = none := by
  unfold readUnsigned afterPlus
  split
  · next same => rw [readNat_none ((List.cons.inj same).2 ▸ later) symbol, Option.bind_none]
  · rw [readNat_none (List.mem_cons_of_mem _ later) symbol, Option.bind_none]

theorem unsigned_minus (bits : Nat) (text : List Char) : readUnsigned bits ('-' :: text) = none := by
  have kept : afterPlus ('-' :: text) = '-' :: text := rfl
  rw [readUnsigned, kept, readNat_none List.mem_cons_self rfl, Option.bind_none]

theorem signed_none (later : c ∈ rest) (symbol : c.isDigit = false) : readSigned bits (first :: rest) = none := by
  unfold readSigned
  split
  · next same => rw [readNat_none ((List.cons.inj same).2 ▸ later) symbol, Option.bind_none]
  · unfold afterPlus
    split
    · next same => rw [readNat_none ((List.cons.inj same).2 ▸ later) symbol, Option.bind_none]
    · rw [readNat_none (List.mem_cons_of_mem _ later) symbol, Option.bind_none]

/-- A fraction of `digits` places without its trailing zeros: the places that are
left and the number they spell. -/
def trimZeros : Nat → Nat → Nat × Nat
  | 0, count => (0, count)
  | digits + 1, count => if count % 10 = 0 then trimZeros digits (count / 10) else (digits + 1, count)

/-- Trimming keeps the fraction what it was. -/
theorem trimZeros_spec (fits : count < 10 ^ digits) :
    (trimZeros digits count).1 ≤ digits ∧ (trimZeros digits count).2 < 10 ^ (trimZeros digits count).1 ∧
      (trimZeros digits count).2 * 10 ^ (digits - (trimZeros digits count).1) = count := by
  induction digits generalizing count with
  | zero => exact ⟨Nat.le_refl _, fits, Nat.mul_one _⟩
  | succ digits ih =>
    rw [trimZeros]
    split
    · next zero =>
      have smaller : count / 10 < 10 ^ digits := by
        rw [Nat.pow_succ] at fits
        omega
      obtain ⟨shorter, spelled, kept⟩ := ih smaller
      refine ⟨Nat.le_succ_of_le shorter, spelled, ?_⟩
      rw [Nat.succ_sub shorter, Nat.pow_succ, ← Nat.mul_assoc, kept]
      omega
    · exact ⟨Nat.le_refl _, fits, by rw [Nat.sub_self, Nat.pow_zero, Nat.mul_one]⟩

end QueryHive.Library.Numeral
