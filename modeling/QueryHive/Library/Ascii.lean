import QueryHive.Library.Text

/-! Text of ASCII characters, one byte each. -/
namespace QueryHive.Library.Ascii
open Text

/-- Every character is one of the first 128. -/
def IsAscii (text : List Char) : Prop := ∀ c ∈ text, c.toNat < 128

def byteOf (c : Char) : UInt8 := UInt8.ofNat c.toNat

def charOf (byte : UInt8) : Char := Char.ofNat byte.toNat

theorem isAscii_cons : IsAscii (c :: rest) ↔ c.toNat < 128 ∧ IsAscii rest := List.forall_mem_cons

theorem isAscii_append : IsAscii (front ++ rest) ↔ IsAscii front ∧ IsAscii rest := List.forall_mem_append

theorem utf8EncodeChar_ascii {c : Char} (ascii : c.toNat < 128) : String.utf8EncodeChar c = [byteOf c] := by
  have small : c.utf8Size = 1 := by
    rw [Char.utf8Size_eq_one_iff, UInt32.le_iff_toNat_le]
    exact Nat.le_of_lt_succ ascii
  rw [String.utf8EncodeChar_eq_singleton small]
  rfl

theorem encodeUtf8_ascii (ascii : IsAscii text) : encodeUtf8 text = text.map byteOf := by
  induction text with
  | nil => rfl
  | cons c rest ih =>
    obtain ⟨first, later⟩ := isAscii_cons.mp ascii
    rw [encodeUtf8, List.flatMap_cons, utf8EncodeChar_ascii first, List.map_cons, ← ih later]
    rfl

theorem length_encodeUtf8 (ascii : IsAscii text) : (encodeUtf8 text).length = text.length := by
  rw [encodeUtf8_ascii ascii, List.length_map]

/-- A text made of its characters has their bytes. -/
theorem utf8_ofList (text : List Char) : utf8 (String.ofList text) = encodeUtf8 text := by
  rw [utf8, String.toUTF8_eq_toByteArray, String.toByteArray_ofList, List.utf8Encode, encodeUtf8]
  simp

theorem fromUtf8_encodeUtf8 (text : List Char) : fromUtf8 (encodeUtf8 text) = some (String.ofList text) := by
  rw [← utf8_ofList, fromUtf8_utf8]

theorem utf8_eq (text : String) : utf8 text = encodeUtf8 text.toList := by
  rw [← utf8_ofList, String.ofList_toList]

theorem charOf_byteOf {c : Char} (ascii : c.toNat < 128) : charOf (byteOf c) = c := by
  rw [charOf, byteOf, UInt8.toNat_ofNat_of_lt' (Nat.lt_trans ascii (by decide)), Char.ofNat_toNat]

theorem map_charOf (ascii : IsAscii text) : (text.map byteOf).map charOf = text := by
  have same : ∀ c ∈ text, (charOf ∘ byteOf) c = id c := fun c inside => charOf_byteOf (ascii c inside)
  rw [List.map_map, List.map_congr_left same, List.map_id]

theorem byteOf_inj {c d : Char} (ascii : c.toNat < 128) (ascii' : d.toNat < 128) (same : byteOf c = byteOf d) :
    c = d := by
  rw [← charOf_byteOf ascii, same, charOf_byteOf ascii']

theorem isAscii_of_digits (digits : ∀ c ∈ text, c.isDigit) : IsAscii text := by
  intro c inside
  have digit : 48 ≤ c.toNat ∧ c.toNat ≤ 57 := by
    simpa [Char.isDigit, UInt32.le_iff_toNat_le] using digits c inside
  omega

end QueryHive.Library.Ascii
