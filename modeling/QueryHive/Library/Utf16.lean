import Mathlib.Algebra.Ring.Nat
import Mathlib.Data.List.Basic

/-! UTF-16. A character is one unit, or a pair of surrogates when it lies beyond the first 65536;
units that are no text, a surrogate without its partner among them, are refused. -/
namespace QueryHive.Library.Utf16

def unitsOf (c : Char) : List Nat :=
  if c.toNat < 0x10000 then [c.toNat]
  else [0xD800 + (c.toNat - 0x10000) / 0x400, 0xDC00 + (c.toNat - 0x10000) % 0x400]

def encodeUtf16 (text : List Char) : List Nat := text.flatMap unitsOf

def isHigh (unit : Nat) : Bool := 0xD800 ≤ unit && unit < 0xDC00

def isLow (unit : Nat) : Bool := 0xDC00 ≤ unit && unit < 0xE000

/-- The text that units spell. -/
def decodeUtf16 : List Nat → Option (List Char)
  | [] => some []
  | [unit] => if isHigh unit || isLow unit then none else some [Char.ofNat unit]
  | unit :: next :: rest =>
    if isHigh unit then
      if isLow next then
        (decodeUtf16 rest).map (Char.ofNat (0x10000 + (unit - 0xD800) * 0x400 + (next - 0xDC00)) :: ·)
      else none
    else if isLow unit then none
    else (decodeUtf16 (next :: rest)).map (Char.ofNat unit :: ·)

/-- A character is no surrogate. -/
theorem toNat_range (c : Char) : c.toNat < 0xD800 ∨ 0xE000 ≤ c.toNat ∧ c.toNat < 0x110000 := by
  rcases c.valid with low | ⟨above, high⟩
  · exact .inl low
  · exact .inr ⟨above, high⟩

theorem toNat_ofNat {n : Nat} (valid : n < 0xD800 ∨ 0xE000 ≤ n ∧ n < 0x110000) : (Char.ofNat n).toNat = n := by
  have legal : Nat.isValidChar n := by
    rcases valid with low | ⟨above, high⟩
    · exact .inl low
    · exact .inr ⟨above, high⟩
  rw [Char.ofNat, dif_pos legal]
  rfl

theorem decodeUtf16_single (high : isHigh unit = false) (low : isLow unit = false) (rest : List Nat) :
    decodeUtf16 (unit :: rest) = (decodeUtf16 rest).map (Char.ofNat unit :: ·) := by
  cases rest with
  | nil => simp [decodeUtf16, high, low]
  | cons next rest => simp [decodeUtf16, high, low]

theorem decodeUtf16_unitsOf (c : Char) (rest : List Nat) :
    decodeUtf16 (unitsOf c ++ rest) = (decodeUtf16 rest).map (c :: ·) := by
  have range := toNat_range c
  unfold unitsOf
  split
  · next small =>
    have high : isHigh c.toNat = false := by simp only [isHigh, Bool.and_eq_false_iff, decide_eq_false_iff_not]; omega
    have low : isLow c.toNat = false := by simp only [isLow, Bool.and_eq_false_iff, decide_eq_false_iff_not]; omega
    rw [List.singleton_append, decodeUtf16_single high low, Char.ofNat_toNat]
  · next large =>
    have high : isHigh (0xD800 + (c.toNat - 0x10000) / 0x400) = true := by
      simp only [isHigh, Bool.and_eq_true, decide_eq_true_eq]
      omega
    have low : isLow (0xDC00 + (c.toNat - 0x10000) % 0x400) = true := by
      simp only [isLow, Bool.and_eq_true, decide_eq_true_eq]
      omega
    have joined : 0x10000 + (0xD800 + (c.toNat - 0x10000) / 0x400 - 0xD800) * 0x400 +
        (0xDC00 + (c.toNat - 0x10000) % 0x400 - 0xDC00) = c.toNat := by omega
    rw [List.cons_append, List.singleton_append, decodeUtf16, if_pos high, if_pos low, joined, Char.ofNat_toNat]

theorem decodeUtf16_encodeUtf16 (text : List Char) : decodeUtf16 (encodeUtf16 text) = some text := by
  induction text with
  | nil => rfl
  | cons c text ih =>
    rw [encodeUtf16, List.flatMap_cons, decodeUtf16_unitsOf]
    exact congrArg _ ih

theorem encodeUtf16_of_decode (small : ∀ unit ∈ units, unit < 0x10000) (read : decodeUtf16 units = some text) :
    encodeUtf16 text = units := by
  induction units using decodeUtf16.induct generalizing text with
  | case1 =>
    cases read
    rfl
  | case2 unit surrogate => simp [decodeUtf16, surrogate] at read
  | case3 unit plain =>
    simp only [decodeUtf16, plain, if_false, Bool.false_eq_true, Option.some.injEq] at read
    subst read
    have bound := small unit (List.mem_singleton_self unit)
    simp only [isHigh, isLow, Bool.or_eq_true, Bool.and_eq_true, decide_eq_true_eq] at plain
    have own : (Char.ofNat unit).toNat = unit := toNat_ofNat (by omega)
    simp [encodeUtf16, unitsOf, own, bound]
  | case4 unit next rest high low ih =>
    rw [decodeUtf16, if_pos high, if_pos low] at read
    obtain ⟨later, found, rfl⟩ := Option.map_eq_some_iff.mp read
    have tail := ih (fun other inside => small other (List.mem_cons_of_mem _ (List.mem_cons_of_mem _ inside))) found
    simp only [isHigh, isLow, Bool.and_eq_true, decide_eq_true_eq] at high low
    have own : (Char.ofNat (0x10000 + (unit - 0xD800) * 0x400 + (next - 0xDC00))).toNat =
        0x10000 + (unit - 0xD800) * 0x400 + (next - 0xDC00) := toNat_ofNat (by omega)
    have large : ¬(0x10000 + (unit - 0xD800) * 0x400 + (next - 0xDC00)) < 0x10000 := by omega
    have first : 0xD800 + (0x10000 + (unit - 0xD800) * 0x400 + (next - 0xDC00) - 0x10000) / 0x400 = unit := by omega
    have second : 0xDC00 + (0x10000 + (unit - 0xD800) * 0x400 + (next - 0xDC00) - 0x10000) % 0x400 = next := by omega
    rw [encodeUtf16, List.flatMap_cons, unitsOf, own, if_neg large, first, second]
    exact congrArg _ tail
  | case5 unit next rest high low =>
    rw [decodeUtf16, if_pos high, if_neg low] at read
    cases read
  | case6 unit next rest high low =>
    rw [decodeUtf16, if_neg high, if_pos low] at read
    cases read
  | case7 unit next rest high low ih =>
    rw [decodeUtf16, if_neg high, if_neg low] at read
    obtain ⟨later, found, rfl⟩ := Option.map_eq_some_iff.mp read
    have tail := ih (fun other inside => small other (List.mem_cons_of_mem _ inside)) found
    have bound := small unit List.mem_cons_self
    simp only [isHigh, isLow, Bool.and_eq_true, decide_eq_true_eq] at high low
    have own : (Char.ofNat unit).toNat = unit := toNat_ofNat (by omega)
    rw [encodeUtf16, List.flatMap_cons, unitsOf, own, if_pos bound]
    exact congrArg _ tail

theorem unitsOf_lt (c : Char) : ∀ unit ∈ unitsOf c, unit < 0x10000 := by
  have range := toNat_range c
  unfold unitsOf
  split
  · simpa
  · simp only [List.mem_cons, List.not_mem_nil, or_false, forall_eq_or_imp, forall_eq]
    omega

theorem encodeUtf16_lt (text : List Char) : ∀ unit ∈ encodeUtf16 text, unit < 0x10000 := by
  intro unit inside
  obtain ⟨c, -, own⟩ := List.mem_flatMap.mp inside
  exact unitsOf_lt c unit own

/-- There are as many units as characters, and one more for each character beyond the first 65536. -/
theorem length_encodeUtf16 (text : List Char) :
    (encodeUtf16 text).length = text.length + text.countP (fun c => 0x10000 ≤ c.toNat) := by
  induction text with
  | nil => rfl
  | cons c text ih =>
    rw [encodeUtf16, List.flatMap_cons, List.length_append, List.countP_cons, List.length_cons]
    rw [encodeUtf16] at ih
    rw [ih, unitsOf]
    by_cases small : c.toNat < 0x10000
    · simp [small, Nat.not_le.mpr small]
      omega
    · simp [small, Nat.not_lt.mp small]
      omega

end QueryHive.Library.Utf16
