import Mathlib.Algebra.Ring.Nat
import Mathlib.Data.List.Basic

/-! SHA-256 on lists of bytes, with 32-bit words as natural numbers, and the hexadecimal
spelling of bytes, from which the bytes can be read back. -/
namespace QueryHive.Library.Sha256

def hexDigit (n : Nat) : Char := if n < 10 then Char.ofNat (48 + n) else Char.ofNat (87 + n)

def hexEncode (bytes : List UInt8) : List Char :=
  bytes.flatMap fun b => [hexDigit (b.toNat / 16), hexDigit (b.toNat % 16)]

theorem hexDigit_injective (small : n < 16) (small' : m < 16) (same : hexDigit n = hexDigit m) : n = m := by
  have each : ∀ n < 16, ∀ m < 16, hexDigit n = hexDigit m → n = m := by decide +kernel
  exact each n small m small' same

theorem hexEncode_length (bytes : List UInt8) : (hexEncode bytes).length = 2 * bytes.length := by
  induction bytes with
  | nil => rfl
  | cons b rest ih =>
    simp only [hexEncode, List.flatMap_cons, List.length_append, List.length_cons, List.length_nil] at ih ⊢
    omega

theorem hexEncode_injective {bytes others : List UInt8} (same : hexEncode bytes = hexEncode others) :
    bytes = others := by
  induction bytes generalizing others with
  | nil =>
    cases others with
    | nil => rfl
    | cons => cases same
  | cons b rest ih =>
    cases others with
    | nil => cases same
    | cons c others =>
      have bound := b.toNat_lt
      have bound' := c.toNat_lt
      simp only [hexEncode, List.flatMap_cons, List.cons_append, List.nil_append, List.cons.injEq] at same
      have high := hexDigit_injective (by omega) (by omega) same.1
      have low := hexDigit_injective (by omega) (by omega) same.2.1
      have first : b = c := UInt8.toNat_inj.mp (by omega)
      rw [first, ih same.2.2]

def word (n : Nat) : Nat := n % 2 ^ 32

def rotr (k x : Nat) : Nat := x >>> k ||| word (x <<< (32 - k))

/-- The first 32 bits of the fractional parts of the cube roots of the first 64 primes. -/
def constants : List Nat := [
  0x428a2f98, 0x71374491, 0xb5c0fbcf, 0xe9b5dba5, 0x3956c25b, 0x59f111f1, 0x923f82a4, 0xab1c5ed5,
  0xd807aa98, 0x12835b01, 0x243185be, 0x550c7dc3, 0x72be5d74, 0x80deb1fe, 0x9bdc06a7, 0xc19bf174,
  0xe49b69c1, 0xefbe4786, 0x0fc19dc6, 0x240ca1cc, 0x2de92c6f, 0x4a7484aa, 0x5cb0a9dc, 0x76f988da,
  0x983e5152, 0xa831c66d, 0xb00327c8, 0xbf597fc7, 0xc6e00bf3, 0xd5a79147, 0x06ca6351, 0x14292967,
  0x27b70a85, 0x2e1b2138, 0x4d2c6dfc, 0x53380d13, 0x650a7354, 0x766a0abb, 0x81c2c92e, 0x92722c85,
  0xa2bfe8a1, 0xa81a664b, 0xc24b8b70, 0xc76c51a3, 0xd192e819, 0xd6990624, 0xf40e3585, 0x106aa070,
  0x19a4c116, 0x1e376c08, 0x2748774c, 0x34b0bcb5, 0x391c0cb3, 0x4ed8aa4a, 0x5b9cca4f, 0x682e6ff3,
  0x748f82ee, 0x78a5636f, 0x84c87814, 0x8cc70208, 0x90befffa, 0xa4506ceb, 0xbef9a3f7, 0xc67178f2]

/-- The eight working words. -/
structure Words where
  (a b c d e f g h : Nat)
  deriving DecidableEq, Repr

/-- The first 32 bits of the fractional parts of the square roots of the first eight primes. -/
def initial : Words :=
  ⟨0x6a09e667, 0xbb67ae85, 0x3c6ef372, 0xa54ff53a, 0x510e527f, 0x9b05688c, 0x1f83d9ab, 0x5be0cd19⟩

/-- So many more words of the schedule, which is kept with its last word first. -/
def extend : Nat → List Nat → List Nat
  | 0, words => words
  | count + 1, words =>
    let x := words.getD 14 0
    let y := words.getD 1 0
    let s0 := rotr 7 x ^^^ rotr 18 x ^^^ (x >>> 3)
    let s1 := rotr 17 y ^^^ rotr 19 y ^^^ (y >>> 10)
    extend count (word (words.getD 15 0 + s0 + words.getD 6 0 + s1) :: words)

def round (s : Words) (constant : Nat × Nat) : Words :=
  let s1 := rotr 6 s.e ^^^ rotr 11 s.e ^^^ rotr 25 s.e
  let choice := (s.e &&& s.f) ^^^ ((2 ^ 32 - 1 - s.e) &&& s.g)
  let t1 := s.h + s1 + choice + constant.1 + constant.2
  let s0 := rotr 2 s.a ^^^ rotr 13 s.a ^^^ rotr 22 s.a
  let majority := (s.a &&& s.b) ^^^ (s.a &&& s.c) ^^^ (s.b &&& s.c)
  ⟨word (t1 + s0 + majority), s.a, s.b, s.c, word (s.d + t1), s.e, s.f, s.g⟩

def bigEndian (bytes : List UInt8) : Nat := bytes.foldl (fun n b => n * 256 + b.toNat) 0

/-- Sixteen words from the front of the bytes. -/
def blockWords : Nat → List UInt8 → List Nat
  | 0, _ => []
  | count + 1, bytes => bigEndian (bytes.take 4) :: blockWords count (bytes.drop 4)

def compress (s : Words) (block : List UInt8) : Words :=
  let schedule := (extend 48 (blockWords 16 block).reverse).reverse
  let t := (constants.zip schedule).foldl round s
  ⟨word (s.a + t.a), word (s.b + t.b), word (s.c + t.c), word (s.d + t.d), word (s.e + t.e), word (s.f + t.f),
    word (s.g + t.g), word (s.h + t.h)⟩

/-- So many blocks from the front of the bytes. -/
def compressAll : Nat → Words → List UInt8 → Words
  | 0, s, _ => s
  | count + 1, s, bytes => compressAll count (compress s (bytes.take 64)) (bytes.drop 64)

def bigEndianBytes : Nat → Nat → List UInt8
  | 0, _ => []
  | count + 1, n => bigEndianBytes count (n / 256) ++ [UInt8.ofNat n]

/-- The message with a one bit, zeros, and its length in bits. -/
def padded (message : List UInt8) : List UInt8 :=
  message ++ 0x80 :: List.replicate ((119 - message.length % 64) % 64) 0 ++ bigEndianBytes 8 (message.length * 8)

def sha256 (message : List UInt8) : List UInt8 :=
  let s := compressAll ((padded message).length / 64) initial (padded message)
  [s.a, s.b, s.c, s.d, s.e, s.f, s.g, s.h].flatMap (bigEndianBytes 4)

end QueryHive.Library.Sha256
