import Mathlib.Data.List.DropRight
import QueryHive.Library.Weights

/-! The string operations of a standard library on lists of characters: trimming
white space, splitting once at a separator, splitting into at most so many
pieces. Splitting at the separator between two parts gives the parts back when
the first one holds none. -/
namespace QueryHive.Library.Text
open Weights

/-- Texts are compared character by character. -/
instance lawfulBEqText : LawfulBEq (List Char) := inferInstance

/-- The Unicode property `White_Space`. -/
def isWhitespace (c : Char) : Bool :=
  let n := c.toNat
  (9 ≤ n && n ≤ 13) || n == 0x20 || n == 0x85 || n == 0xA0 || n == 0x1680 ||
    (0x2000 ≤ n && n ≤ 0x200A) || n == 0x2028 || n == 0x2029 || n == 0x202F || n == 0x205F || n == 0x3000

def trimEnd (text : List Char) : List Char := text.rdropWhile isWhitespace

/-- The text without the white space around it. -/
def trim (text : List Char) : List Char := trimEnd (text.dropWhile isWhitespace)

/-- The text before the first separator and the text after it. -/
def splitOnce (separator : Char → Bool) : List Char → Option (List Char × List Char)
  | [] => none
  | c :: rest =>
    if separator c then some ([], rest)
    else (splitOnce separator rest).map fun (head, tail) => (c :: head, tail)

/-- At most `count` pieces; the last one keeps the separators that are left. -/
def splitN (separator : Char → Bool) : Nat → List Char → List (List Char)
  | 0, _ => []
  | 1, text => [text]
  | count + 2, text =>
    match splitOnce separator text with
    | some (head, rest) => head :: splitN separator (count + 1) rest
    | none => [text]

def splitLast (separator : Char → Bool) : List Char → Option (List Char × Char × List Char)
  | [] => none
  | c :: rest =>
    match splitLast separator rest with
    | some (head, last, tail) => some (c :: head, last, tail)
    | none => if separator c then some ([], c, rest) else none

/-- The runs of characters between white space. -/
def splitWhitespace (text : List Char) : List (List Char) :=
  (text.splitOnP isWhitespace).filter (· ≠ [])

/-- The lines of a text: a line feed ends one, with the carriage return before it, and what
is left after the last line feed is a line when it is not empty. -/
def lines (text : List Char) : List (List Char) :=
  (text.splitOn '\n').dropLast.map (fun line => if line.getLast? = some '\r' then line.dropLast else line) ++
    (text.splitOn '\n').getLast?.toList.filter (· ≠ [])

def encodeUtf8 (text : List Char) : List UInt8 := text.flatMap String.utf8EncodeChar

theorem encodeUtf8_append (front rest : List Char) : encodeUtf8 (front ++ rest) = encodeUtf8 front ++ encodeUtf8 rest :=
  List.flatMap_append

/-- Measured in bytes, a text weighs what its encoding is long. -/
theorem total_utf8Size (text : List Char) : total Char.utf8Size text = (encodeUtf8 text).length := by
  induction text with
  | nil => rfl
  | cons c rest ih =>
    rw [total_cons, ih, encodeUtf8, encodeUtf8, List.flatMap_cons, List.length_append, String.length_utf8EncodeChar]

def utf8 (text : String) : List UInt8 := text.toUTF8.data.toList

def fromUtf8 (bytes : List UInt8) : Option String := String.fromUTF8? ⟨bytes.toArray⟩

@[simp] theorem fromUtf8_utf8 (text : String) : fromUtf8 (utf8 text) = some text := by
  simp only [fromUtf8, utf8, Array.toArray_toList, String.fromUTF8?, String.toUTF8_eq_toByteArray,
    dif_pos text.isValidUTF8]
  rfl

theorem utf8_of_fromUtf8 (spelled : fromUtf8 bytes = some text) : utf8 text = bytes := by
  unfold fromUtf8 String.fromUTF8? at spelled
  split at spelled
  · cases spelled
    rfl
  · cases spelled

theorem ascii_mem_utf8EncodeChar (ascii : b.toNat < 128) :
    b ∈ String.utf8EncodeChar c ↔ c = Char.ofNat b.toNat := by
  have high : ∀ n, 128 ≤ n → n < 256 → b ≠ UInt8.ofNat n := by
    intro n low bound same
    have read : b.toNat = n % 256 := by rw [same, UInt8.toNat_ofNat']
    omega
  have back : c = Char.ofNat b.toNat ↔ c.val.toNat = b.toNat := by
    constructor
    · rintro rfl
      rw [Char.ofNat, dif_pos (Or.inl (by omega))]
      rfl
    · intro same
      rw [← same]
      exact (Char.ofNat_toNat c).symm
  unfold String.utf8EncodeChar
  dsimp only
  split
  · rw [List.mem_singleton, back, ← UInt8.toNat_inj, UInt8.toNat_ofNat']
    omega
  · have wide : c ≠ Char.ofNat b.toNat := fun same => by have := back.mp same; omega
    simp only [wide, iff_false]
    split
    · simp only [List.mem_cons, List.not_mem_nil, or_false, not_or]
      exact ⟨high _ (by omega) (by omega), high _ (by omega) (by omega)⟩
    · split
      · simp only [List.mem_cons, List.not_mem_nil, or_false, not_or]
        exact ⟨high _ (by omega) (by omega), high _ (by omega) (by omega), high _ (by omega) (by omega)⟩
      · simp only [List.mem_cons, List.not_mem_nil, or_false, not_or]
        exact ⟨high _ (by omega) (by omega), high _ (by omega) (by omega), high _ (by omega) (by omega),
          high _ (by omega) (by omega)⟩

theorem ascii_mem_encodeUtf8 (ascii : b.toNat < 128) :
    b ∈ encodeUtf8 text ↔ Char.ofNat b.toNat ∈ text := by
  simp [encodeUtf8, ascii_mem_utf8EncodeChar ascii]

theorem lines_single (nonempty : text ≠ []) (single : '\n' ∉ text) : lines text = [text] := by
  have whole : text.splitOn '\n' = [text] := List.splitOnP_eq_singleton fun c inside => by
    simpa using fun same : c = '\n' => single (same ▸ inside)
  simp [lines, whole, nonempty]

theorem lines_cons (single : '\n' ∉ line) (bare : line.getLast? ≠ some '\r') (rest : List Char) :
    lines (line ++ '\n' :: rest) = line :: lines rest := by
  obtain ⟨first, more, split⟩ := List.exists_cons_of_ne_nil (List.splitOn_ne_nil '\n' rest)
  rw [lines, lines, List.splitOn_append_cons_self_of_not_mem single, split, List.dropLast_cons_cons,
    List.map_cons, if_neg bare,
    List.getLast?_cons_cons, List.cons_append]

theorem toLower_cases (c : Char) : (c.isUpper ∧ c.toLower.isLower) ∨ c.toLower = c := by
  unfold Char.toLower
  split
  · rename_i upper
    refine .inl ⟨decide_eq_true upper, ?_⟩
    simp only [ge_iff_le, UInt32.le_iff_toNat_le] at upper
    have low : 65 ≤ c.val.toNat := upper.1
    have high : c.val.toNat ≤ 90 := upper.2
    have moved : (c.val + ('a'.val - 'A'.val)).toNat = c.val.toNat + 32 := by
      have gap : ('a'.val - 'A'.val).toNat = 32 := by decide
      rw [UInt32.toNat_add, gap]
      exact Nat.mod_eq_of_lt (by omega)
    refine Bool.and_eq_true_iff.mpr ⟨decide_eq_true ?_, decide_eq_true ?_⟩
    · rw [ge_iff_le, UInt32.le_iff_toNat_le, moved]
      exact Nat.le_add_of_sub_le low
    · rw [UInt32.le_iff_toNat_le, moved]
      exact Nat.add_le_add_right high 32
  · exact .inr rfl

theorem mem_map_toLower {d : Char} {text : List Char} (other : d.isAlpha = false) :
    d ∈ text.map Char.toLower ↔ d ∈ text := by
  have letters : d.isUpper = false ∧ d.isLower = false := Bool.or_eq_false_iff.mp other
  rw [List.mem_map]
  constructor
  · rintro ⟨c, inside, rfl⟩
    rcases toLower_cases c with ⟨-, lower⟩ | same
    · exact absurd lower (by simp [letters.2])
    · rwa [same]
  · intro inside
    rcases toLower_cases d with ⟨upper, -⟩ | same
    · exact absurd upper (by simp [letters.1])
    · exact ⟨d, inside, same⟩

theorem digit_not_whitespace (digit : c.isDigit) : isWhitespace c = false := by
  simp only [Char.isDigit, Bool.and_eq_true, decide_eq_true_eq, ge_iff_le, UInt32.le_iff_toNat_le] at digit
  have low : 48 ≤ c.toNat := digit.1
  have high : c.toNat ≤ 57 := digit.2
  simp only [isWhitespace, Bool.or_eq_false_iff, Bool.and_eq_false_iff, decide_eq_false_iff_not, beq_eq_false_iff_ne]
  omega

theorem trimEnd_of_last (last : ∀ c, text.getLast? = some c → isWhitespace c = false) : trimEnd text = text := by
  rw [trimEnd, List.rdropWhile_eq_self_iff]
  intro nonempty space
  rw [last _ (List.getLast?_eq_some_getLast nonempty)] at space
  exact absurd space (by decide)

theorem trim_of_ends (first : ∀ c, text.head? = some c → isWhitespace c = false)
    (last : ∀ c, text.getLast? = some c → isWhitespace c = false) : trim text = text := by
  have whole : text.dropWhile isWhitespace = text := by
    cases text with
    | nil => rfl
    | cons c rest => exact List.dropWhile_cons_of_neg (by simpa using first c rfl)
  rw [trim, whole, trimEnd_of_last last]

theorem trim_of_clear (clear : ∀ c ∈ text, isWhitespace c = false) : trim text = text :=
  trim_of_ends (fun c first => clear c (List.mem_of_head? first)) fun c last => clear c (List.mem_of_getLast? last)

theorem head_trim (head : (trim text).head? = some c) : isWhitespace c = false := by
  obtain ⟨rest, split⟩ : trim text <+: text.dropWhile isWhitespace := List.rdropWhile_prefix _ _
  have first : (text.dropWhile isWhitespace).head? = some c := by
    rw [← split, List.head?_append, head]
    rfl
  have other := List.head?_dropWhile_not isWhitespace text
  rwa [first] at other

theorem last_trim (last : (trim text).getLast? = some c) : isWhitespace c = false := by
  have nonempty : trim text ≠ [] := by
    intro empty
    rw [empty] at last
    cases last
  have other := List.rdropWhile_last_not isWhitespace (text.dropWhile isWhitespace) nonempty
  have same : (trim text).getLast nonempty = c :=
    Option.some.inj ((List.getLast?_eq_some_getLast nonempty).symm.trans last)
  exact Bool.not_eq_true _ ▸ same ▸ other

theorem splitOnce_cons (separator : Char → Bool) (c : Char) (rest : List Char) : splitOnce separator (c :: rest) =
    if separator c then some ([], rest) else (splitOnce separator rest).map fun (head, tail) => (c :: head, tail) := rfl

theorem splitN_succ (separator : Char → Bool) (count : Nat) (text : List Char) : splitN separator (count + 2) text =
    match splitOnce separator text with
    | some (head, rest) => head :: splitN separator (count + 1) rest
    | none => [text] := rfl

theorem splitLast_cons (separator : Char → Bool) (c : Char) (rest : List Char) : splitLast separator (c :: rest) =
    match splitLast separator rest with
    | some (head, last, tail) => some (c :: head, last, tail)
    | none => if separator c then some ([], c, rest) else none := rfl

theorem splitOnce_at (clear : ∀ c ∈ head, separator c = false) (found : separator c) :
    splitOnce separator (head ++ c :: rest) = some (head, rest) := by
  induction head with
  | nil => simp [splitOnce_cons, found]
  | cons first head ih =>
    have later := ih fun c inside => clear c (List.mem_cons_of_mem _ inside)
    simp [splitOnce_cons, clear first List.mem_cons_self, later]

theorem splitOnce_none (clear : ∀ c ∈ text, separator c = false) : splitOnce separator text = none := by
  induction text with
  | nil => rfl
  | cons first text ih =>
    have later := ih fun c inside => clear c (List.mem_cons_of_mem _ inside)
    simp [splitOnce_cons, clear first List.mem_cons_self, later]

theorem of_splitOnce (split : splitOnce separator text = some (head, rest)) :
    ∃ c, separator c = true ∧ text = head ++ c :: rest := by
  induction text generalizing head with
  | nil => cases split
  | cons first text ih =>
    rw [splitOnce_cons] at split
    split at split
    · next found =>
      cases split
      exact ⟨first, found, rfl⟩
    · obtain ⟨⟨head', rest'⟩, later, same⟩ := Option.map_eq_some_iff.mp split
      cases same
      obtain ⟨c, found, rfl⟩ := ih later
      exact ⟨c, found, rfl⟩

theorem splitN_at (clear : ∀ c ∈ head, separator c = false) (found : separator c) :
    splitN separator (count + 2) (head ++ c :: rest) = head :: splitN separator (count + 1) rest := by
  rw [splitN_succ, splitOnce_at clear found]

theorem splitLast_none (clear : ∀ c ∈ text, separator c = false) : splitLast separator text = none := by
  induction text with
  | nil => rfl
  | cons first text ih =>
    have later := ih fun c inside => clear c (List.mem_cons_of_mem _ inside)
    simp [splitLast_cons, clear first List.mem_cons_self, later]

theorem splitLast_at (head : List Char) (found : separator c) (clear : ∀ d ∈ tail, separator d = false) :
    splitLast separator (head ++ c :: tail) = some (head, c, tail) := by
  induction head with
  | nil => simp [splitLast_cons, splitLast_none clear, found]
  | cons first head ih => simp [splitLast_cons, ih]

theorem not_mem_piece {separator : Char} {text piece : List Char} (inside : piece ∈ text.splitOn separator) :
    separator ∉ piece := by
  induction text generalizing piece with
  | nil =>
    rw [List.splitOn_nil, List.mem_singleton] at inside
    simp [inside]
  | cons c text ih =>
    rw [List.splitOn_cons_eq_if_modifyHead] at inside
    split at inside
    · rcases List.mem_cons.mp inside with rfl | later
      · exact List.not_mem_nil
      · exact ih later
    · rename_i other
      cases pieces : text.splitOn separator with
      | nil => exact absurd pieces (List.splitOn_ne_nil separator text)
      | cons first rest =>
        rw [pieces, List.modifyHead_cons] at inside
        rcases List.mem_cons.mp inside with rfl | later
        · have clear := ih (pieces ▸ List.mem_cons_self)
          have differs : separator ≠ c := fun same => other (by simp [same])
          simp [clear, differs]
        · exact ih (pieces ▸ List.mem_cons_of_mem _ later)

/-- Two pieces are what stands on the two sides of the only separator. -/
theorem splitOn_pair {separator : Char} {text left right : List Char} :
    text.splitOn separator = [left, right] ↔ text = left ++ separator :: right ∧ separator ∉ left ∧
      separator ∉ right := by
  constructor
  · intro pieces
    refine ⟨?_, @not_mem_piece _ text _ (by simp [pieces]), @not_mem_piece _ text _ (by simp [pieces])⟩
    have joined : [separator].intercalate (text.splitOn separator) = text := List.intercalate_splitOn separator
    rw [pieces] at joined
    simpa using joined.symm
  · rintro ⟨rfl, before, after⟩
    rw [List.splitOn_append_cons_self_of_not_mem before, List.splitOn_eq_singleton after]

theorem splitWhitespace_word (nonempty : word ≠ []) (clear : ∀ c ∈ word, isWhitespace c = false)
    (space : isWhitespace c) : splitWhitespace (word ++ c :: rest) = word :: splitWhitespace rest := by
  rw [splitWhitespace, List.splitOnP_append_cons_of_forall_mem clear c space,
    List.filter_cons_of_pos (by simpa using nonempty)]
  rfl

theorem splitWhitespace_last (nonempty : word ≠ []) (clear : ∀ c ∈ word, isWhitespace c = false) :
    splitWhitespace word = [word] := by
  rw [splitWhitespace, List.splitOnP_eq_singleton clear, List.filter_cons_of_pos (by simpa using nonempty)]
  rfl

theorem splitWhitespace_intercalate {words : List (List Char)}
    (clear : ∀ word ∈ words, word ≠ [] ∧ ∀ c ∈ word, isWhitespace c = false) :
    splitWhitespace (List.intercalate [' '] words) = words := by
  induction words with
  | nil => rfl
  | cons word words ih =>
    obtain ⟨nonempty, plain⟩ := clear word List.mem_cons_self
    have later := ih fun next inside => clear next (List.mem_cons_of_mem _ inside)
    cases words with
    | nil => simpa using splitWhitespace_last nonempty plain
    | cons next words =>
      have space : isWhitespace ' ' = true := by decide
      rw [List.intercalate_cons_cons, List.append_assoc, List.cons_append, List.nil_append,
        splitWhitespace_word nonempty plain space, later]

end QueryHive.Library.Text
