import QueryHive.Library.JsonText
import QueryHive.Library.Numeral

/-! What the layout of a JSON text may do without a change of its value: blanks in front of items and
members, and blanks at the start of every line. -/
namespace QueryHive.Library.JsonText

instance (text : List Char) : Decidable (Blank text) := decidable_of_iff (text.all isBlank = true) List.all_eq_true

theorem blank_append (first : Blank front) (second : Blank back) : Blank (front ++ back) := by
  intro c mem
  rcases List.mem_append.mp mem with mem | mem
  · exact first c mem
  · exact second c mem

theorem blank_spaces (count : Nat) : Blank (List.replicate count ' ') := by
  intro c mem
  rw [List.eq_of_mem_replicate mem]
  rfl

theorem spells_items_lead (blank : Blank gap) (spells : Spells strict (.items items) text) :
    Spells strict (.items items) (gap ++ text) := by
  cases spells with
  | lastItem lead value trail =>
    rw [← List.append_assoc]
    exact .lastItem (blank_append blank lead) value trail
  | nextItem lead value trail more =>
    rw [← List.append_assoc]
    exact .nextItem (blank_append blank lead) value trail more

theorem spells_members_lead (blank : Blank gap) (spells : Spells strict (.members members) text) :
    Spells strict (.members members) (gap ++ text) := by
  cases spells with
  | lastMember lead chars gap gap' value trail =>
    rw [← List.append_assoc]
    exact .lastMember (blank_append blank lead) chars gap gap' value trail
  | nextMember lead chars gap gap' value trail more =>
    rw [← List.append_assoc]
    exact .nextMember (blank_append blank lead) chars gap gap' value trail more

/-- The text with blanks at the start of each line but the first. -/
def setIn (margin : List Char) (text : List Char) : List Char :=
  text.flatMap fun c => if c = '\n' then '\n' :: margin else [c]

theorem setIn_append (margin front back : List Char) :
    setIn margin (front ++ back) = setIn margin front ++ setIn margin back :=
  List.flatMap_append

theorem setIn_cons (other : c ≠ '\n') (margin rest : List Char) :
    setIn margin (c :: rest) = c :: setIn margin rest := by
  rw [setIn, List.flatMap_cons, if_neg other]
  rfl

theorem setIn_clear (margin : List Char) (clear : '\n' ∉ text) : setIn margin text = text := by
  induction text with
  | nil => rfl
  | cons c rest ih =>
    rw [setIn_cons (fun same => clear (same ▸ List.mem_cons_self)) margin,
      ih fun mem => clear (List.mem_cons_of_mem _ mem)]

theorem blank_setIn (inside : Blank margin) (blank : Blank gap) : Blank (setIn margin gap) := by
  intro c mem
  obtain ⟨d, mem, placed⟩ := List.mem_flatMap.mp mem
  split at placed
  · rcases List.mem_cons.mp placed with rfl | placed
    · rfl
    · exact inside c placed
  · exact List.mem_singleton.mp placed ▸ blank d mem

theorem hexValue_printed (digit : hexValue c = some n) : c ≠ '\n' := by
  rintro rfl
  cases digit

theorem hex4_clear (digits : hex4 a b c d = some code) : a ≠ '\n' ∧ b ≠ '\n' ∧ c ≠ '\n' ∧ d ≠ '\n' := by
  simp only [hex4, Option.bind_eq_bind, Option.bind_eq_some_iff] at digits
  obtain ⟨_, first, _, second, _, third, _, fourth, _⟩ := digits
  exact ⟨hexValue_printed first, hexValue_printed second, hexValue_printed third, hexValue_printed fourth⟩

/-- A string stands on one line. -/
theorem chars_clear (chars : Chars strict text body) : '\n' ∉ body := by
  induction chars with
  | nil => exact List.not_mem_nil
  | plain printed _ _ _ ih =>
    refine List.not_mem_cons_of_ne_of_not_mem ?_ ih
    rintro rfl
    exact absurd printed (by decide)
  | escape known _ ih =>
    refine List.not_mem_cons_of_ne_of_not_mem (by decide) (List.not_mem_cons_of_ne_of_not_mem ?_ ih)
    rintro rfl
    simp [escapes] at known
  | unicode digits _ _ ih =>
    obtain ⟨first, second, third, fourth⟩ := hex4_clear digits
    simp [ih, first.symm, second.symm, third.symm, fourth.symm]
  | pair _ digits digits' _ _ _ ih =>
    obtain ⟨first, second, third, fourth⟩ := hex4_clear digits
    obtain ⟨first', second', third', fourth'⟩ := hex4_clear digits'
    simp [ih, first.symm, second.symm, third.symm, fourth.symm, first'.symm, second'.symm, third'.symm, fourth'.symm]

theorem number_clear (number : isNumber token = true) : '\n' ∉ token :=
  fun mem => absurd (number_parts number '\n' mem) (by decide)

theorem spells_setIn (inside : Blank margin) (spells : Spells strict part text) :
    Spells strict part (setIn margin text) := by
  induction spells with
  | null => exact .null
  | truth => exact .truth
  | falsity => exact .falsity
  | number number =>
    rw [setIn_clear margin (number_clear number)]
    exact .number number
  | @string _ body chars =>
    have clear : '\n' ∉ '"' :: (body ++ ['"']) := by simp [chars_clear chars]
    rw [setIn_clear margin clear]
    exact .string chars
  | emptyArray blank =>
    rw [setIn_cons (by decide), setIn_append]
    exact .emptyArray (blank_setIn inside blank)
  | array _ ih =>
    rw [setIn_cons (by decide), setIn_append]
    exact .array ih
  | emptyObject blank =>
    rw [setIn_cons (by decide), setIn_append]
    exact .emptyObject (blank_setIn inside blank)
  | object _ ih =>
    rw [setIn_cons (by decide), setIn_append]
    exact .object ih
  | lastItem lead _ trail ih =>
    rw [setIn_append, setIn_append]
    exact .lastItem (blank_setIn inside lead) ih (blank_setIn inside trail)
  | nextItem lead _ trail _ ih ihMore =>
    rw [setIn_append, setIn_append, setIn_append, setIn_cons (by decide)]
    exact .nextItem (blank_setIn inside lead) ih (blank_setIn inside trail) ihMore
  | lastMember lead chars gap gap' _ trail ih =>
    rw [setIn_append, setIn_cons (by decide), setIn_append, setIn_clear margin (chars_clear chars),
      setIn_cons (by decide),
      setIn_append, setIn_cons (by decide), setIn_append, setIn_append]
    exact .lastMember (blank_setIn inside lead) chars (blank_setIn inside gap) (blank_setIn inside gap') ih
      (blank_setIn inside trail)
  | nextMember lead chars gap gap' _ trail _ ih ihMore =>
    rw [setIn_append, setIn_cons (by decide), setIn_append, setIn_clear margin (chars_clear chars),
      setIn_cons (by decide),
      setIn_append, setIn_cons (by decide), setIn_append, setIn_append, setIn_append, setIn_cons (by decide)]
    exact .nextMember (blank_setIn inside lead) chars (blank_setIn inside gap) (blank_setIn inside gap') ih
      (blank_setIn inside trail) ihMore

theorem spells_last (spells : Spells strict (.value tree) text) :
    ∃ front c, text = front ++ [c] ∧ isBlank c = false := by
  cases spells with
  | null => exact ⟨['n', 'u', 'l'], 'l', rfl, rfl⟩
  | truth => exact ⟨['t', 'r', 'u'], 'e', rfl, rfl⟩
  | falsity => exact ⟨['f', 'a', 'l', 's'], 'e', rfl, rfl⟩
  | number number =>
    obtain ⟨c, rest, rfl, _⟩ := number_head number
    have filled : c :: rest ≠ [] := List.cons_ne_nil c rest
    exact ⟨_, _, (List.dropLast_concat_getLast filled).symm,
      not_blank_of_parts (number_parts number _ (List.getLast_mem filled))⟩
  | string => exact ⟨_ :: _, '"', rfl, rfl⟩
  | emptyArray => exact ⟨_ :: _, ']', rfl, rfl⟩
  | array => exact ⟨_ :: _, ']', rfl, rfl⟩
  | emptyObject => exact ⟨_ :: _, '}', rfl, rfl⟩
  | object => exact ⟨_ :: _, '}', rfl, rfl⟩

theorem toDigits_whole (n : Nat) : isWhole (Nat.toDigits 10 n) = true := by
  have digits := Numeral.allDigits_toDigits n
  have filled : Nat.toDigits 10 n ≠ [] := Nat.toDigits_ne_nil
  have led : Nat.toDigits 10 n = ['0'] ∨ (Nat.toDigits 10 n).head? ≠ some '0' := by
    by_contra zero
    rw [not_or, not_not] at zero
    obtain ⟨more, led⟩ := zero
    obtain ⟨rest, same⟩ : ∃ rest, Nat.toDigits 10 n = '0' :: rest := List.head?_eq_some_iff.mp led
    cases rest with
    | nil => exact more same
    | cons c rest =>
      -- The number is then below the power of ten that its count of digits stands for.
      have value := Numeral.value_toDigits n
      rw [same, Numeral.value_cons, show ('0' : Char).toNat - 48 = 0 from rfl, Nat.zero_mul, Nat.zero_add] at value
      have later : Numeral.allDigits (c :: rest) = true := by
        rw [same, Numeral.allDigits, List.all_cons] at digits
        exact (Bool.and_eq_true_iff.mp digits).2
      have below : n < 10 ^ (rest.length + 1) := value ▸ Numeral.value_lt later
      have short := (Nat.length_toDigits_le_iff (by decide) (Nat.succ_pos _)).mpr below
      rw [same, List.length_cons, List.length_cons] at short
      omega
  rw [isWhole, isDigits, Bool.and_eq_true_iff, Bool.and_eq_true_iff]
  exact ⟨⟨by simp, digits⟩, by simpa using led⟩

theorem isUnsigned_digits (whole : isWhole text = true) : isUnsigned text = true := by
  have digits : ∀ c ∈ text, c.isDigit = true := by
    have both := (Bool.and_eq_true_iff.mp (Bool.and_eq_true_iff.mp whole).1).2
    exact List.all_eq_true.mp both
  rw [isUnsigned, List.takeWhile_eq_self_iff.mpr digits, List.dropWhile_eq_nil_iff.mpr digits, whole]
  rfl

theorem all_numberChars (digits : Numeral.allDigits text = true) : text.all isNumberChar = true := by
  refine List.all_eq_true.mpr fun c mem => ?_
  simp [isNumberChar, List.all_eq_true.mp digits c mem]

theorem isNumber_nat (n : Nat) : isNumber (Nat.toDigits 10 n) = true := by
  have digits := Numeral.allDigits_toDigits n
  rw [isNumber, all_numberChars digits, Bool.true_and]
  · exact isUnsigned_digits (toDigits_whole n)
  · intro rest same
    rw [same] at digits
    exact absurd (Numeral.digit_of_allDigits digits List.mem_cons_self) (by decide)

theorem isNumber_negative (n : Nat) : isNumber ('-' :: Nat.toDigits 10 n) = true := by
  rw [isNumber, List.all_cons, all_numberChars (Numeral.allDigits_toDigits n)]
  exact isUnsigned_digits (toDigits_whole n)

/-- A character as it stands in a string, escaped when it has to be. -/
def printChar (c : Char) : List Char :=
  if c = '"' then ['\\', '"']
  else if c = '\\' then ['\\', '\\']
  else if c = '\n' then ['\\', 'n']
  else if c = '\r' then ['\\', 'r']
  else if c = '\t' then ['\\', 't']
  else if c = Char.ofNat 8 then ['\\', 'b']
  else if c = Char.ofNat 12 then ['\\', 'f']
  else if c.toNat < 32 then ['\\', 'u', '0', '0', Nat.digitChar (c.toNat / 16), Nat.digitChar (c.toNat % 16)]
  else [c]

theorem hex4_control : ∀ n < 32, hex4 '0' '0' (Nat.digitChar (n / 16)) (Nat.digitChar (n % 16)) = some n := by decide

theorem chars_printed (text : List Char) : Chars true text (text.flatMap printChar) := by
  induction text with
  | nil => exact .nil
  | cons c rest ih =>
    rw [List.flatMap_cons, printChar]
    split_ifs with quoted escaped feed carriage tab backspace form control
    · exact .escape (by rw [quoted]; decide) ih
    · exact .escape (by rw [escaped]; decide) ih
    · exact .escape (by rw [feed]; decide) ih
    · exact .escape (by rw [carriage]; decide) ih
    · exact .escape (by rw [tab]; decide) ih
    · exact .escape (by rw [backspace]; decide) ih
    · exact .escape (by rw [form]; decide) ih
    · have unicode : Chars true _ _ := Chars.unicode (hex4_control c.toNat control) (.inr (.inl (by omega))) ih
      rwa [Char.ofNat_toNat] at unicode
    · exact .plain (Nat.not_lt.mp control) quoted escaped ih

def printString (text : List Char) : List Char := '"' :: (text.flatMap printChar ++ ['"'])

theorem spells_printString (text : List Char) : Spells true (.value (.string text)) (printString text) :=
  .string (chars_printed text)

end QueryHive.Library.JsonText
