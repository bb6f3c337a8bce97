import QueryHive.Columnar.Chunk
import QueryHive.Library.Ascii

/-! The zone of a column as its reader takes it apart. The length is counted in bytes and the digits are cut at
bytes, which panics inside a character; each number is read by a reader that takes a sign of its own. -/
namespace QueryHive.Columnar
open QueryHive.Library Numeral Text Weights Ascii

/-- Two numbers, each in digits of its own. -/
def readFields (hours minutes : List Char) : Option (Int × Int) :=
  (readSigned 32 hours).bind fun h => (readSigned 32 minutes).map fun m => (h, m)

/-- The hours and minutes of the digits; nothing where a slice is cut inside a character. -/
def zoneSlices (digits : List Char) : Option (Option (Int × Int)) :=
  match total Char.utf8Size digits with
  | 2 => some ((readSigned 32 digits).map fun hours => (hours, 0))
  | 4 =>
    (takeTo Char.utf8Size digits 2).bind fun hours =>
      -- The minutes are cut only behind hours that are read.
      if (readSigned 32 hours).isNone then some none
      else (dropTo Char.utf8Size digits 2).map fun minutes => readFields hours minutes
  | 5 =>
    if (encodeUtf8 digits)[2]? = some 58 then
      (takeTo Char.utf8Size digits 2).bind fun hours =>
        if (readSigned 32 hours).isNone then some none
        else (dropTo Char.utf8Size digits 3).map fun minutes => readFields hours minutes
    else some none
  | _ => some none

def secondsSlices (sign : Int) (digits : List Char) : Option (Option Int32) :=
  (zoneSlices digits).map fun parts => parts.bind fun (hours, minutes) =>
    if hours > 23 ∨ minutes > 59 then none else some (Int32.ofInt (sign * (hours * 3600 + minutes * 60)))

/-- `offset_of` with its slices; nothing where it panics. -/
def offsetSlices (zone : String) : Option (Option Int32) :=
  match zone.toList with
  | '+' :: digits => secondsSlices 1 digits
  | '-' :: digits => secondsSlices (-1) digits
  | _ => some none

/-- Four bytes with a character across the middle. -/
def CutInside (digits : List Char) : Prop :=
  total Char.utf8Size digits = 4 ∧ (takeTo Char.utf8Size digits 2).isNone

instance (digits : List Char) : Decidable (CutInside digits) := inferInstanceAs (Decidable (_ ∧ _))

theorem signed_ascii (read : readSigned bits text = some n) : IsAscii text := by
  have natural : ∀ {text n}, readNat text = some n → IsAscii text := by
    intro text n read
    rw [readNat] at read
    split at read
    · next shape => exact isAscii_of_digits fun c inside => digit_of_allDigits shape.2 inside
    · cases read
  unfold readSigned at read
  split at read
  · obtain ⟨m, read, -⟩ := Option.bind_eq_some_iff.mp read
    exact isAscii_cons.mpr ⟨by decide, natural read⟩
  · obtain ⟨m, read, -⟩ := Option.bind_eq_some_iff.mp read
    unfold afterPlus at read
    split at read
    · exact isAscii_cons.mpr ⟨by decide, natural read⟩
    · exact natural read

theorem total_ascii (ascii : IsAscii text) : total Char.utf8Size text = text.length := by
  rw [total_utf8Size, length_encodeUtf8 ascii]

/-- The byte of a colon is a colon, so that the text can be cut before it and behind it. -/
theorem cut_colon (colon : (encodeUtf8 digits)[place]? = some 58) :
    ∃ front rest, digits = front ++ ':' :: rest ∧ total Char.utf8Size front = place := by
  have inside : place < total Char.utf8Size digits := by
    rw [total_utf8Size]
    exact (List.getElem?_eq_some_iff.mp colon).1
  rcases cut_cases digits (Nat.le_of_lt inside) with ⟨front, rest, rfl, rfl⟩ | ⟨front, a, rest, rfl, low, high⟩
  · cases rest with
    | nil => simp at inside
    | cons c rest =>
      rw [encodeUtf8_append, total_utf8Size, List.getElem?_append_right (Nat.le_refl _), Nat.sub_self] at colon
      have first : 58 ∈ String.utf8EncodeChar c := by
        obtain ⟨b, more, bytes⟩ := List.exists_cons_of_ne_nil
          (String.utf8EncodeChar_ne_nil : String.utf8EncodeChar c ≠ [])
        have split : encodeUtf8 (c :: rest) = String.utf8EncodeChar c ++ encodeUtf8 rest := rfl
        rw [split, bytes, List.cons_append, List.getElem?_cons_zero] at colon
        rw [bytes, ← Option.some.inj colon]
        exact List.mem_cons_self
      have same : c = ':' := (ascii_mem_utf8EncodeChar (by decide)).mp first
      exact ⟨front, rest, by rw [same], rfl⟩
  · -- The byte would be inside a character of more than one.
    have bytes : encodeUtf8 (front ++ a :: rest) = encodeUtf8 front ++ (String.utf8EncodeChar a ++ encodeUtf8 rest) :=
      encodeUtf8_append front (a :: rest)
    rw [total_utf8Size] at low high
    rw [bytes, List.getElem?_append_right (Nat.le_of_lt low), List.getElem?_append_left
      (by rw [String.length_utf8EncodeChar]; omega)] at colon
    have same : a = ':' := (ascii_mem_utf8EncodeChar (by decide)).mp (List.mem_of_getElem? colon)
    have size : a.utf8Size = 1 := by rw [same]; rfl
    omega

theorem zoneSlices_none : zoneSlices digits = none ↔ CutInside digits := by
  unfold zoneSlices CutInside
  split
  · next two => simp [two]
  · next four =>
    rw [four, eq_self_iff_true, true_and]
    cases first : takeTo Char.utf8Size digits 2 with
    | none => simp
    | some hours =>
      obtain ⟨minutes, rfl, there⟩ := of_takeTo first
      have behind := dropTo_total Char.utf8Size_pos hours minutes
      rw [there] at behind
      rw [Option.bind_some, behind]
      split <;> simp
  · next five =>
    rw [five]
    simp only [Nat.reduceEqDiff, false_and, iff_false]
    split
    · next colon =>
      obtain ⟨hours, minutes, rfl, there⟩ := cut_colon colon
      have before := takeTo_total Char.utf8Size_pos hours (':' :: minutes)
      have behind := dropTo_total Char.utf8Size_pos (hours ++ [':']) minutes
      have three : total Char.utf8Size (hours ++ [':']) = 3 := by rw [total_append, there]; rfl
      rw [there] at before
      rw [three, List.append_assoc, List.singleton_append] at behind
      rw [before, Option.bind_some, behind]
      split <;> simp
    · simp
  · next other =>
    simp only [reduceCtorEq, false_iff, not_and]
    intro four
    exact absurd four (by assumption)

theorem two_bytes (ascii : IsAscii text) (two : total Char.utf8Size text = 2) : ∃ a b, text = [a, b] :=
  List.length_eq_two.mp (total_ascii ascii ▸ two)

theorem readFields_some : readFields hours minutes = some parts ↔
    readSigned 32 hours = some parts.1 ∧ readSigned 32 minutes = some parts.2 := by
  obtain ⟨h, m⟩ := parts
  unfold readFields
  cases readSigned 32 hours with
  | none => simp
  | some => simp [and_comm]

theorem zoneParts_four (a b c d : Char) : zoneParts [a, b, c, d] = readFields [a, b] [c, d] := by
  change (readSigned 32 [a, b]).bind _ = _
  rw [readFields]
  cases readSigned 32 [a, b] with
  | none => rfl
  | some => cases readSigned 32 [c, d] <;> rfl

theorem zoneParts_five (a b c d : Char) : zoneParts [a, b, ':', c, d] = readFields [a, b] [c, d] := by
  change (readSigned 32 [a, b]).bind _ = _
  rw [readFields]
  cases readSigned 32 [a, b] with
  | none => rfl
  | some => cases readSigned 32 [c, d] <;> rfl

theorem fields_of_read (read : readFields hours minutes = some parts) (first : total Char.utf8Size hours = 2)
    (second : total Char.utf8Size minutes = 2) : ∃ a b c d, hours = [a, b] ∧ minutes = [c, d] := by
  obtain ⟨readHours, readMinutes⟩ := readFields_some.mp read
  obtain ⟨a, b, left⟩ := two_bytes (signed_ascii readHours) first
  obtain ⟨c, d, right⟩ := two_bytes (signed_ascii readMinutes) second
  exact ⟨a, b, c, d, left, right⟩

theorem parts_of_slices (read : zoneSlices digits = some (some parts)) : zoneParts digits = some parts := by
  unfold zoneSlices at read
  split at read
  · next two =>
    obtain ⟨hours, found, rfl⟩ := Option.map_eq_some_iff.mp (Option.some.inj read)
    obtain ⟨a, b, rfl⟩ := two_bytes (signed_ascii found) two
    change (readSigned 32 [a, b]).bind _ = _
    rw [found]
    rfl
  · next four =>
    obtain ⟨hours, first, read⟩ := Option.bind_eq_some_iff.mp read
    split at read
    · cases read
    obtain ⟨minutes, second, fields⟩ := Option.map_eq_some_iff.mp read
    obtain ⟨behind, rfl, two⟩ := of_takeTo first
    have cut := dropTo_total Char.utf8Size_pos hours behind
    rw [two, second] at cut
    cases cut
    obtain ⟨a, b, c, d, rfl, rfl⟩ := fields_of_read fields two (by rw [total_append] at four; omega)
    exact (zoneParts_four a b c d).trans fields
  · next five =>
    split at read
    · next colon =>
      obtain ⟨hours, first, read⟩ := Option.bind_eq_some_iff.mp read
      split at read
      · cases read
      obtain ⟨minutes, second, fields⟩ := Option.map_eq_some_iff.mp read
      obtain ⟨front, rest, rfl, two⟩ := cut_colon colon
      have before := takeTo_total Char.utf8Size_pos front (':' :: rest)
      rw [two, first] at before
      cases before
      have behind := dropTo_total Char.utf8Size_pos (hours ++ [':']) rest
      have three : total Char.utf8Size (hours ++ [':']) = 3 := by rw [total_append, two]; rfl
      rw [three, List.append_assoc, List.singleton_append, second] at behind
      cases behind
      have colonSize : Char.utf8Size ':' = 1 := rfl
      obtain ⟨a, b, c, d, rfl, rfl⟩ := fields_of_read fields two
        (by rw [total_append, total_cons, colonSize] at five; omega)
      exact (zoneParts_five a b c d).trans fields
    · cases read
  · cases read

/-- The number of a field of ASCII characters, one byte each. -/
theorem size_of_signed (read : readSigned 32 [a, b] = some n) : a.utf8Size = 1 ∧ b.utf8Size = 1 := by
  obtain ⟨first, later⟩ := isAscii_cons.mp (signed_ascii read)
  obtain ⟨second, -⟩ := isAscii_cons.mp later
  refine ⟨?_, ?_⟩ <;> rw [Char.utf8Size_eq_one_iff, UInt32.le_iff_toNat_le] <;> exact Nat.le_of_lt_succ (by assumption)

theorem slices_of_parts (spelled : zoneParts digits = some parts) : zoneSlices digits = some (some parts) := by
  unfold zoneParts at spelled
  split at spelled
  · next a b =>
    obtain ⟨hours, found, same⟩ := Option.bind_eq_some_iff.mp spelled
    obtain ⟨first, second⟩ := size_of_signed found
    have two : total Char.utf8Size [a, b] = 2 := by simp [first, second]
    rw [zoneSlices, two, found, ← same]
    rfl
  · next a b c d =>
    have fields := (zoneParts_four a b c d).symm.trans spelled
    obtain ⟨left, right⟩ := readFields_some.mp fields
    have two : total Char.utf8Size [a, b] = 2 := by simp [size_of_signed left]
    have four : total Char.utf8Size [a, b, c, d] = 4 := by simp [size_of_signed left, size_of_signed right]
    have before := takeTo_total Char.utf8Size_pos [a, b] [c, d]
    have behind := dropTo_total Char.utf8Size_pos [a, b] [c, d]
    rw [two] at before behind
    rw [zoneSlices, four]
    change (takeTo Char.utf8Size ([a, b] ++ [c, d]) 2).bind _ = _
    rw [before, Option.bind_some, left, Option.isNone_some, if_neg Bool.false_ne_true]
    exact congrArg _ behind |>.trans (congrArg some fields)
  · next a b c d =>
    have fields := (zoneParts_five a b c d).symm.trans spelled
    obtain ⟨left, right⟩ := readFields_some.mp fields
    have two : total Char.utf8Size [a, b] = 2 := by simp [size_of_signed left]
    have colonSize : Char.utf8Size ':' = 1 := rfl
    have three : total Char.utf8Size [a, b, ':'] = 3 := by simp [size_of_signed left, colonSize]
    have five : total Char.utf8Size [a, b, ':', c, d] = 5 := by
      simp [size_of_signed left, size_of_signed right, colonSize]
    have colon : (encodeUtf8 ([a, b] ++ [':', c, d]))[2]? = some 58 := by
      rw [encodeUtf8_append, ← two, total_utf8Size, List.getElem?_append_right (Nat.le_refl _), Nat.sub_self]
      rfl
    have before := takeTo_total Char.utf8Size_pos [a, b] [':', c, d]
    have behind := dropTo_total Char.utf8Size_pos [a, b, ':'] [c, d]
    rw [two] at before
    rw [three] at behind
    rw [zoneSlices, five]
    change (if (encodeUtf8 ([a, b] ++ [':', c, d]))[2]? = some 58 then
      (takeTo Char.utf8Size ([a, b] ++ [':', c, d]) 2).bind _
      else _) = _
    rw [if_pos colon, before, Option.bind_some, left, Option.isNone_some, if_neg Bool.false_ne_true]
    exact congrArg _ behind |>.trans (congrArg some fields)
  · cases spelled

theorem zoneSlices_eq (digits : List Char) :
    zoneSlices digits = if CutInside digits then none else some (zoneParts digits) := by
  split
  · next cut => exact zoneSlices_none.mpr cut
  · next whole =>
    cases read : zoneSlices digits with
    | none => exact absurd (zoneSlices_none.mp read) whole
    | some result =>
      cases result with
      | some parts => rw [parts_of_slices read]
      | none =>
        cases spelled : zoneParts digits with
        | none => rfl
        | some parts => cases read.symm.trans (slices_of_parts spelled)

/-- The fields of `HH`, `HHMM` or `HH:MM`. -/
def zoneFields : List Char → Option (List Char × List Char)
  | [a, b] => some ([a, b], ['0', '0'])
  | [a, b, c, d] => some ([a, b], [c, d])
  | [a, b, ':', c, d] => some ([a, b], [c, d])
  | _ => none

def DigitsWithin (bound : Nat) (field : List Char) : Prop := allDigits field = true ∧ value field ≤ bound

/-- A sign and a digit, which the reader of a number takes as well. -/
def SignedField (field : List Char) : Prop :=
  ∃ sign ∈ ['+', '-'], ∃ digit : Char, digit.isDigit = true ∧ field = [sign, digit]

theorem zoneFields_two (fields : zoneFields digits = some (hours, minutes)) :
    (∃ a b, hours = [a, b]) ∧ ∃ c d, minutes = [c, d] := by
  unfold zoneFields at fields
  split at fields <;> cases fields <;> exact ⟨⟨_, _, rfl⟩, _, _, rfl⟩

theorem zoneParts_fields : zoneParts digits = (zoneFields digits).bind fun fields => readFields fields.1 fields.2 := by
  unfold zoneFields
  split
  · next a b =>
    change (readSigned 32 [a, b]).bind _ = readFields [a, b] ['0', '0']
    have zero : readSigned 32 ['0', '0'] = some 0 := by decide
    rw [readFields, zero]
    cases readSigned 32 [a, b] <;> rfl
  · exact zoneParts_four _ _ _ _
  · exact zoneParts_five _ _ _ _
  · next two four five =>
    unfold zoneParts
    split
    · exact absurd rfl (two _ _)
    · exact absurd rfl (four _ _ _ _)
    · exact absurd rfl (five _ _ _ _)
    · rfl

theorem value_digit (digit : d.isDigit = true) : readNat [d] = some (value [d]) ∧ value [d] ≤ 9 := by
  have digits : allDigits [d] = true := by simp [allDigits, digit]
  exact ⟨readNat_digits (List.cons_ne_nil _ _) digits, Nat.le_of_lt_succ (value_lt digits)⟩

theorem signed_field (sign : a = '+' ∨ a = '-') (digit : b.isDigit = true) :
    ∃ n ≤ (9 : Int), readSigned 32 [a, b] = some n := by
  obtain ⟨read, small⟩ := value_digit digit
  rcases sign with rfl | rfl
  · refine ⟨value [b], by omega, ?_⟩
    rw [signed_plus 32 (by simp [allDigits, digit]), signed_digits (List.cons_ne_nil _ _) (by simp [allDigits, digit])]
    exact Nat.lt_of_le_of_lt small (by decide)
  · refine ⟨-value [b], by omega, ?_⟩
    rw [readSigned, read, Option.bind_some, if_pos (Nat.le_trans small (by decide))]

theorem field_of_read (read : readSigned 32 [a, b] = some n) :
    allDigits [a, b] = true ∨ (a = '+' ∨ a = '-') ∧ b.isDigit = true := by
  by_cases second : b.isDigit = true
  · by_cases first : a.isDigit = true
    · exact .inl (by simp [allDigits, first, second])
    · refine .inr ⟨?_, second⟩
      by_contra plain
      have refused : readNat [a, b] = none := readNat_none List.mem_cons_self (Bool.not_eq_true _ ▸ first)
      unfold readSigned at read
      split at read
      · next same => exact plain (.inr (List.cons.inj same).1)
      · unfold afterPlus at read
        split at read
        · next same => exact plain (.inl (List.cons.inj same).1)
        · rw [refused] at read
          cases read
  · rw [signed_none List.mem_cons_self (Bool.not_eq_true _ ▸ second)] at read
    cases read

theorem field_taken {bound : Nat} (wide : 9 ≤ bound) : (∃ n, readSigned 32 [a, b] = some n ∧ n ≤ (bound : Int)) ↔
    DigitsWithin bound [a, b] ∨ SignedField [a, b] := by
  have number : allDigits [a, b] = true → readSigned 32 [a, b] = some (value [a, b] : Int) :=
    fun digits => signed_digits (List.cons_ne_nil _ _) digits (Nat.lt_trans (value_lt digits)
      (by change 10 ^ 2 < 2 ^ 31; decide))
  constructor
  · rintro ⟨n, read, within⟩
    rcases field_of_read read with digits | ⟨sign, digit⟩
    · rw [number digits] at read
      cases read
      exact .inl ⟨digits, Int.ofNat_le.mp within⟩
    · exact .inr ⟨a, by simpa using sign, b, digit, rfl⟩
  · rintro (⟨digits, within⟩ | ⟨sign, either, digit, isDigit, same⟩)
    · exact ⟨_, number digits, Int.ofNat_le.mpr within⟩
    · cases same
      obtain ⟨n, small, read⟩ := signed_field (by simpa using either) isDigit
      exact ⟨n, read, by omega⟩

def Behind (zone : String) (digits : List Char) : Prop := ∃ sign ∈ ['+', '-'], zone.toList = sign :: digits

/-- A sign and `HH`, `HHMM` or `HH:MM` in digits of a time of day. -/
def ZoneForm (zone : String) : Prop := ∃ digits hours minutes, Behind zone digits ∧
  zoneFields digits = some (hours, minutes) ∧ DigitsWithin 23 hours ∧ DigitsWithin 59 minutes

def SignInside (zone : String) : Prop := ∃ digits hours minutes, Behind zone digits ∧
  zoneFields digits = some (hours, minutes) ∧ (DigitsWithin 23 hours ∨ SignedField hours) ∧
    (DigitsWithin 59 minutes ∨ SignedField minutes) ∧ (SignedField hours ∨ SignedField minutes)

def CutZone (zone : String) : Prop := ∃ digits, Behind zone digits ∧ CutInside digits

/-- The reader returns, and takes nothing but a zone. -/
def ZoneSound (zone : String) : Prop :=
  (offsetSlices zone).isSome = true ∧ ∀ offset, offsetSlices zone = some (some offset) → ZoneForm zone

/-- Where columns are stored with this offset, the reader takes its text back. -/
def PrintedBack (offset : Int32) : Prop :=
  ∀ column, pickEncoding column = .tsz offset → offsetSlices (formatTz offset) = some (some offset)

theorem secondsSlices_eq (sign : Int) (digits : List Char) :
    secondsSlices sign digits = if CutInside digits then none else some (zoneSeconds sign digits) := by
  rw [secondsSlices, zoneSlices_eq]
  split
  · rfl
  · rw [Option.map_some]
    cases parts : zoneParts digits <;> rw [zoneSeconds, parts] <;> rfl

/-- The slices take a zone apart as its characters do, where they take it apart at all. -/
theorem offsetSlices_behind (zone : String) (sign : Char) (digits : List Char) (signed : sign ∈ ['+', '-'])
    (spelled : zone.toList = sign :: digits) :
    offsetSlices zone = if CutInside digits then none else some (offsetOf zone) := by
  unfold offsetSlices offsetOf
  rw [spelled]
  rcases List.mem_pair.mp signed with rfl | rfl
  · exact secondsSlices_eq 1 digits
  · exact secondsSlices_eq (-1) digits

theorem seconds_taken : (∃ offset, zoneSeconds sign digits = some offset) ↔
    ∃ hours minutes, zoneFields digits = some (hours, minutes) ∧ (DigitsWithin 23 hours ∨ SignedField hours) ∧
      (DigitsWithin 59 minutes ∨ SignedField minutes) := by
  have parts : (∃ offset, zoneSeconds sign digits = some offset) ↔
      ∃ parts, zoneParts digits = some parts ∧ parts.1 ≤ 23 ∧ parts.2 ≤ 59 := by
    rw [zoneSeconds]
    cases zoneParts digits with
    | none => simp
    | some parts =>
      obtain ⟨h, m⟩ := parts
      change (∃ offset, (if h > 23 ∨ m > 59 then none else some _) = some offset) ↔ _
      split
      · next large =>
        simp only [reduceCtorEq, exists_false, Option.some.injEq, exists_eq_left', false_iff, not_and]
        omega
      · next small =>
        simp only [Option.some.injEq, exists_eq', exists_eq_left', true_iff]
        omega
  rw [parts, zoneParts_fields]
  constructor
  · rintro ⟨⟨h, m⟩, found, early, late⟩
    obtain ⟨⟨hours, minutes⟩, fields, read⟩ := Option.bind_eq_some_iff.mp found
    obtain ⟨⟨a, b, rfl⟩, c, d, rfl⟩ := zoneFields_two fields
    obtain ⟨left, right⟩ := readFields_some.mp read
    exact ⟨_, _, fields, (field_taken (by decide)).mp ⟨h, left, early⟩, (field_taken (by decide)).mp ⟨m, right, late⟩⟩
  · rintro ⟨hours, minutes, fields, first, second⟩
    obtain ⟨⟨a, b, rfl⟩, c, d, rfl⟩ := zoneFields_two fields
    obtain ⟨h, left, early⟩ := (field_taken (by decide)).mpr first
    obtain ⟨m, right, late⟩ := (field_taken (by decide)).mpr second
    refine ⟨(h, m), ?_, early, late⟩
    rw [fields, Option.bind_some, readFields_some]
    exact ⟨left, right⟩

theorem offsetSlices_other (other : ∀ digits, ¬Behind zone digits) : offsetSlices zone = some none := by
  unfold offsetSlices
  split
  · next spelled => exact absurd ⟨'+', List.mem_cons_self, spelled⟩ (other _)
  · next spelled => exact absurd ⟨'-', List.mem_cons_of_mem _ List.mem_cons_self, spelled⟩ (other _)
  · rfl

theorem behind_unique (one : Behind zone digits) (two : Behind zone digits') : digits' = digits := by
  obtain ⟨_, _, first⟩ := one
  obtain ⟨_, _, second⟩ := two
  exact (List.cons.inj (second.symm.trans first)).2

theorem digits_not_signed (digits : DigitsWithin bound field) : ¬SignedField field := by
  rintro ⟨sign, either, digit, _, rfl⟩
  have first := digit_of_allDigits digits.1 List.mem_cons_self
  rcases List.mem_pair.mp either with rfl | rfl <;> cases first

theorem offsetSlices_taken (behind : Behind zone digits) (whole : ¬CutInside digits) :
    (∃ offset, offsetSlices zone = some (some offset)) ↔
      ∃ hours minutes, zoneFields digits = some (hours, minutes) ∧ (DigitsWithin 23 hours ∨ SignedField hours) ∧
        (DigitsWithin 59 minutes ∨ SignedField minutes) := by
  obtain ⟨sign, signed, spelled⟩ := behind
  simp only [offsetSlices_behind zone sign digits signed spelled, if_neg whole, Option.some.injEq]
  unfold offsetOf
  rw [spelled]
  rcases List.mem_pair.mp signed with rfl | rfl <;> exact seconds_taken

theorem zoneSound_iff (zone : String) : ZoneSound zone ↔ ¬CutZone zone ∧ ¬SignInside zone := by
  by_cases behind : ∃ digits, Behind zone digits
  · obtain ⟨digits, behind⟩ := behind
    by_cases cut : CutInside digits
    · have panics : offsetSlices zone = none := by
        obtain ⟨sign, signed, spelled⟩ := behind
        rw [offsetSlices_behind zone sign digits signed spelled, if_pos cut]
      constructor
      · rintro ⟨returns, -⟩
        rw [panics] at returns
        cases returns
      · exact fun sound => absurd ⟨digits, behind, cut⟩ sound.1
    · have taken := offsetSlices_taken behind cut
      constructor
      · rintro ⟨-, form⟩
        refine ⟨?_, ?_⟩
        · rintro ⟨digits', behind', cut'⟩
          exact cut (behind_unique behind behind' ▸ cut')
        · rintro ⟨digits', hours, minutes, behind', fields, first, second, sign⟩
          rw [behind_unique behind behind'] at fields
          obtain ⟨offset, read⟩ := taken.mpr ⟨hours, minutes, fields, first, second⟩
          obtain ⟨other, h, m, there, spelled, early, late⟩ := form offset read
          rw [behind_unique behind there, fields] at spelled
          cases spelled
          exact sign.elim (digits_not_signed early) (digits_not_signed late)
      · rintro ⟨-, plain⟩
        constructor
        · obtain ⟨sign, signed, spelled⟩ := behind
          rw [offsetSlices_behind zone sign digits signed spelled, if_neg cut]
          rfl
        · intro offset read
          obtain ⟨hours, minutes, fields, first, second⟩ := taken.mp ⟨offset, read⟩
          have unsigned : ¬(SignedField hours ∨ SignedField minutes) :=
            fun sign => plain ⟨digits, hours, minutes, behind, fields, first, second, sign⟩
          rw [not_or] at unsigned
          exact ⟨digits, hours, minutes, behind, fields, first.resolve_right unsigned.1,
            second.resolve_right unsigned.2⟩
  · have other : ∀ digits, ¬Behind zone digits := fun digits there => behind ⟨digits, there⟩
    have none := offsetSlices_other other
    refine ⟨fun _ => ⟨fun ⟨digits, there, _⟩ => other digits there, fun ⟨digits, _, _, there, _⟩ =>
      other digits there⟩, fun _ => ?_⟩
    refine ⟨by rw [none]; rfl, fun offset read => ?_⟩
    rw [none] at read
    cases read

theorem stored_iff (offset : Int32) : (∃ column, pickEncoding column = .tsz offset) ↔ offset.toInt % 60 = 0 := by
  constructor
  · rintro ⟨column, picked⟩
    obtain ⟨cell, _, single⟩ := pick_some (by rw [picked]; exact ColumnKind.noConfusion)
      (by rw [picked]; exact ColumnKind.noConfusion)
    exact (single_tsz_iff.mp (single.trans (congrArg some picked))).1
  · intro whole
    refine ⟨[.timestamp 0 (some offset)], ?_⟩
    have own : single (.timestamp 0 (some offset)) = some (.tsz offset) := single_tsz_iff.mpr ⟨whole, 0, rfl⟩
    simp only [pickEncoding, List.foldl_cons, List.foldl_nil, addKind, own, Option.getD_some]

theorem padded_ascii (width n : Nat) : IsAscii (padded width n) :=
  isAscii_of_digits fun _ inside => digit_of_allDigits (allDigits_padded width n) inside

theorem width_le_padded (width n : Nat) : width ≤ (padded width n).length := by
  rw [padded, List.length_append, List.length_replicate]
  omega

theorem printed_whole (hours minutes : Nat) : ¬CutInside (padded 2 hours ++ ':' :: padded 2 minutes) := by
  rintro ⟨four, -⟩
  have ascii : IsAscii (padded 2 hours ++ ':' :: padded 2 minutes) :=
    isAscii_append.mpr ⟨padded_ascii 2 hours, isAscii_cons.mpr ⟨by decide, padded_ascii 2 minutes⟩⟩
  have first := width_le_padded 2 hours
  have second := width_le_padded 2 minutes
  rw [total_ascii ascii, List.length_append, List.length_cons] at four
  omega

theorem offsetSlices_formatTz (offset : Int32) :
    offsetSlices (formatTz offset) = some (offsetOf (formatTz offset)) := by
  have spelled : (formatTz offset).toList = (if offset < 0 then '-' else '+') ::
      (padded 2 (offset.toInt.natAbs / 3600) ++ ':' :: padded 2 (offset.toInt.natAbs % 3600 / 60)) :=
    String.toList_ofList
  rw [offsetSlices_behind _ _ _ (by split <;> decide) spelled, if_neg (printed_whole _ _)]

/-- The zone of a stored column is read back exactly where the offset is below a day. -/
theorem printedBack_iff (offset : Int32) :
    PrintedBack offset ↔ (offset.toInt % 60 = 0 → offset.toInt.natAbs < 86400) := by
  unfold PrintedBack
  rw [← forall_exists_index (p := fun column => pickEncoding column = .tsz offset)
    (q := fun _ => offsetSlices (formatTz offset) = some (some offset)), stored_iff, offsetSlices_formatTz,
    Option.some.injEq]
  refine forall_congr' fun whole => ?_
  rw [offsetOf_formatTz whole]
  split
  · next small => simp [small]
  · next large => simp [large]

/-- The reader of zones returns and takes only zones where no character is cut and no sign is inside; it inverts the
writer below a day. -/
theorem zone_parsing_iff (zone : String) (offset : Int32) :
    (ZoneSound zone ↔ ¬CutZone zone ∧ ¬SignInside zone) ∧
      (PrintedBack offset ↔ (offset.toInt % 60 = 0 → offset.toInt.natAbs < 86400)) :=
  ⟨zoneSound_iff zone, printedBack_iff offset⟩

/-- A character across the cut stops the reader, a second sign is taken, and a day is not read back. -/
theorem zone_parsing_fails : ¬ZoneSound "+1é1" ∧ ¬ZoneSound "+-5" ∧ ¬PrintedBack 86400 := by
  refine ⟨fun sound => absurd sound.1 (by decide), fun sound => ?_, fun back => ?_⟩
  · have five : SignedField ['-', '5'] := ⟨'-', by decide, '5', by decide, rfl⟩
    exact ((zoneSound_iff "+-5").mp sound).2
      ⟨['-', '5'], ['-', '5'], ['0', '0'], ⟨'+', by decide, rfl⟩, rfl,
        .inr five, .inl ⟨by decide, by decide⟩, .inl five⟩
  · exact absurd ((printedBack_iff 86400).mp back (by decide)) (by decide)

end QueryHive.Columnar
