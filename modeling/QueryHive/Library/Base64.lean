import Mathlib.Data.List.Basic

/-! Base64 with the standard alphabet: what bytes are written as, with padding, and the
reading of exactly what is written so. -/
namespace QueryHive.Library.Base64

/-- The character of six bits. -/
def digit (n : Nat) : Char :=
  if n < 26 then Char.ofNat (65 + n)
  else if n < 52 then Char.ofNat (97 + (n - 26))
  else if n < 62 then Char.ofNat (48 + (n - 52))
  else if n = 62 then '+' else '/'

/-- The six bits of a character. -/
def value (c : Char) : Option Nat :=
  let n := c.toNat
  if 65 ≤ n ∧ n ≤ 90 then some (n - 65)
  else if 97 ≤ n ∧ n ≤ 122 then some (n - 97 + 26)
  else if 48 ≤ n ∧ n ≤ 57 then some (n - 48 + 52)
  else if c = '+' then some 62
  else if c = '/' then some 63
  else none

/-- Three bytes to four characters, the last ones padded with `=`. -/
def encode : List UInt8 → List Char
  | [] => []
  | [a] => [digit (a.toNat / 4), digit (a.toNat % 4 * 16), '=', '=']
  | [a, b] => [digit (a.toNat / 4), digit (a.toNat % 4 * 16 + b.toNat / 16), digit (b.toNat % 16 * 4), '=']
  | a :: b :: c :: rest =>
    digit (a.toNat / 4) :: digit (a.toNat % 4 * 16 + b.toNat / 16) :: digit (b.toNat % 16 * 4 + c.toNat / 64) ::
      digit (c.toNat % 64) :: encode rest

/-- Four characters back to bytes: the padding is required, and the bits it stands for are zero. -/
def decode : List Char → Option (List UInt8)
  | [] => some []
  | x :: y :: z :: w :: rest => do
    let x ← value x
    let y ← value y
    if z = '=' then
      if w = '=' ∧ rest = [] ∧ y % 16 = 0 then some [UInt8.ofNat (x * 4 + y / 16)] else none
    else
      let z ← value z
      if w = '=' then
        if rest = [] ∧ z % 4 = 0 then some [UInt8.ofNat (x * 4 + y / 16), UInt8.ofNat (y % 16 * 16 + z / 4)] else none
      else
        let w ← value w
        let rest ← decode rest
        some (UInt8.ofNat (x * 4 + y / 16) :: UInt8.ofNat (y % 16 * 16 + z / 4) :: UInt8.ofNat (z % 4 * 64 + w) :: rest)
  | _ => none

/-- The reading of what is written without the padding. -/
def decodeNoPad (text : List Char) : Option (List UInt8) :=
  if '=' ∈ text then none else decode (text ++ List.replicate ((4 - text.length % 4) % 4) '=')

/-- Each six bits have a character of their own. -/
theorem value_digit (small : n < 64) : value (digit n) = some n := by
  revert n
  decide

theorem digit_ne_pad (small : n < 64) : digit n ≠ '=' := by
  intro same
  have read := value_digit small
  rw [same] at read
  cases read

theorem ofNat_of_eq {b : UInt8} (same : n = b.toNat) : UInt8.ofNat n = b := by
  rw [same, UInt8.ofNat_toNat]

theorem decode_encode (bytes : List UInt8) : decode (encode bytes) = some bytes := by
  fun_induction encode bytes with
  | case1 => rfl
  | case2 a =>
    have bound := a.toNat_lt
    rw [decode, value_digit (by omega), value_digit (by omega)]
    have whole : UInt8.ofNat (a.toNat / 4 * 4 + a.toNat % 4 * 16 / 16) = a := ofNat_of_eq (by omega)
    have padded : a.toNat % 4 * 16 % 16 = 0 := by omega
    simp only [Option.bind_eq_bind, Option.bind_some, whole, padded, reduceIte, and_self]
  | case3 a b =>
    have bound := a.toNat_lt
    have bound' := b.toNat_lt
    have first : UInt8.ofNat (a.toNat / 4 * 4 + (a.toNat % 4 * 16 + b.toNat / 16) / 16) = a := ofNat_of_eq (by omega)
    have second : UInt8.ofNat ((a.toNat % 4 * 16 + b.toNat / 16) % 16 * 16 + b.toNat % 16 * 4 / 4) = b :=
      ofNat_of_eq (by omega)
    rw [decode, value_digit (by omega), value_digit (by omega), value_digit (by omega)]
    have padded : b.toNat % 16 * 4 % 4 = 0 := by omega
    have shown := digit_ne_pad (show b.toNat % 16 * 4 < 64 by omega)
    simp only [Option.bind_eq_bind, Option.bind_some, first, second, padded, shown, reduceIte, and_self]
  | case4 a b c rest ih =>
    have bound := a.toNat_lt
    have bound' := b.toNat_lt
    have bound'' := c.toNat_lt
    have first : UInt8.ofNat (a.toNat / 4 * 4 + (a.toNat % 4 * 16 + b.toNat / 16) / 16) = a := ofNat_of_eq (by omega)
    have second : UInt8.ofNat ((a.toNat % 4 * 16 + b.toNat / 16) % 16 * 16 +
      (b.toNat % 16 * 4 + c.toNat / 64) / 4) = b :=
      ofNat_of_eq (by omega)
    have third : UInt8.ofNat ((b.toNat % 16 * 4 + c.toNat / 64) % 4 * 64 + c.toNat % 64) = c := ofNat_of_eq (by omega)
    rw [decode, value_digit (by omega), value_digit (by omega), value_digit (by omega), value_digit (by omega), ih]
    have shown := digit_ne_pad (show b.toNat % 16 * 4 + c.toNat / 64 < 64 by omega)
    have shown' := digit_ne_pad (show c.toNat % 64 < 64 by omega)
    simp only [Option.bind_eq_bind, Option.bind_some, first, second, third, shown, shown', reduceIte]

theorem mem_encode (inside : c ∈ encode bytes) : c = '=' ∨ ∃ n < 64, c = digit n := by
  fun_induction encode bytes with
  | case1 => cases inside
  | case2 a =>
    have bound := a.toNat_lt
    simp only [List.mem_cons, List.not_mem_nil, or_false] at inside
    rcases inside with rfl | rfl | rfl | rfl
    · exact .inr ⟨_, by omega, rfl⟩
    · exact .inr ⟨_, by omega, rfl⟩
    · exact .inl rfl
    · exact .inl rfl
  | case3 a b =>
    have bound := a.toNat_lt
    have bound' := b.toNat_lt
    simp only [List.mem_cons, List.not_mem_nil, or_false] at inside
    rcases inside with rfl | rfl | rfl | rfl
    · exact .inr ⟨_, by omega, rfl⟩
    · exact .inr ⟨_, by omega, rfl⟩
    · exact .inr ⟨_, by omega, rfl⟩
    · exact .inl rfl
  | case4 a b c' rest ih =>
    have bound := a.toNat_lt
    have bound' := b.toNat_lt
    have bound'' := c'.toNat_lt
    simp only [List.mem_cons] at inside
    rcases inside with rfl | rfl | rfl | rfl | inside
    · exact .inr ⟨_, by omega, rfl⟩
    · exact .inr ⟨_, by omega, rfl⟩
    · exact .inr ⟨_, by omega, rfl⟩
    · exact .inr ⟨_, by omega, rfl⟩
    · exact ih inside

theorem encode_ne_nil (some_ : bytes ≠ []) : encode bytes ≠ [] := by
  match bytes with
  | [] => exact absurd rfl some_
  | [_] => exact List.cons_ne_nil _ _
  | [_, _] => exact List.cons_ne_nil _ _
  | _ :: _ :: _ :: _ => exact List.cons_ne_nil _ _

end QueryHive.Library.Base64
