import QueryHive.Export.Dbf
import QueryHive.Library.Ascii
import QueryHive.Library.FixedPoint
import QueryHive.Library.Sections

/-! How a dBase file is laid out. The names of its fields are made unique by numbers, a search
among more candidates than there are names; the header says how long a record is, and every record
has that length whatever its values are. The header also counts the records, in 32 bits. -/
namespace QueryHive.Export.Dbf
open QueryHive.Library QueryHive.Store Ascii

/-- The names the search tries in order: the base, then the base with each number. -/
def candidate (base : List Char) : Nat → List Char
  | 0 => base
  | suffix + 1 => suffixed base (suffix + 1)

theorem candidate_zero (base : List Char) : candidate base 0 = base := rfl

/-- A field name as it may be written. -/
def GoodName (name : List Char) : Prop := name ≠ [] ∧ name.length ≤ 10 ∧ ∀ c ∈ name, isNameChar c

theorem isNameChar_nameChar (c : Char) : isNameChar (nameChar c) := by
  unfold nameChar
  split
  · assumption
  · decide

theorem isNameChar_digit (digit : c.isDigit) : isNameChar c := by
  have range : 48 ≤ c.toNat ∧ c.toNat ≤ 57 := Numeral.digit_toNat digit
  simp [isNameChar, range]

theorem ascii_of_isNameChar (good : isNameChar c) : 0 < c.toNat ∧ c.toNat < 128 := by
  simp only [isNameChar, Bool.or_eq_true, Bool.and_eq_true, decide_eq_true_iff, beq_iff_eq] at good
  rcases good with (range | range) | rfl
  · omega
  · omega
  · decide

theorem good_baseName (column : ColumnMeta) : GoodName (baseName column) := by
  unfold baseName
  dsimp only
  split
  · exact ⟨by decide, by decide, List.all_eq_true.mp (by decide)⟩
  · next nonempty =>
    refine ⟨nonempty, by simp, ?_⟩
    intro c inside
    obtain ⟨d, -, rfl⟩ := List.mem_map.mp (List.mem_of_mem_take inside)
    exact isNameChar_nameChar d

theorem good_candidate (good : GoodName base) (small : k < 1000) : GoodName (candidate base k) := by
  cases k with
  | zero => exact good
  | succ suffix =>
    have digits : (Nat.toDigits 10 (suffix + 1)).length ≤ 3 := (FixedPoint.digits_le_iff _ (by decide)).mpr small
    refine ⟨?_, ?_, ?_⟩
    · intro empty
      exact Nat.toDigits_ne_nil (List.append_eq_nil_iff.mp empty).2
    · rw [candidate, suffixed, List.length_append, List.length_take]
      omega
    · intro c inside
      rcases List.mem_append.mp inside with front | digit
      · exact good.2.2 c (List.mem_of_mem_take front)
      · exact isNameChar_digit (Numeral.digit_of_allDigits (Numeral.allDigits_toDigits _) digit)

theorem candidate_inj (base : List Char) (low : 100 ≤ m) (high : m < 1000) (low' : 100 ≤ n) (high' : n < 1000)
    (same : candidate base m = candidate base n) : m = n := by
  have three : ∀ k, 100 ≤ k → k < 1000 → (Nat.toDigits 10 k).length = 3 := by
    intro k below above
    have most := (FixedPoint.digits_le_iff k (by decide : 0 < 3)).mpr above
    have least := mt (FixedPoint.digits_le_iff k (by decide : 0 < 2)).mp (Nat.not_lt.mpr below)
    omega
  have spelled : ∀ k, 100 ≤ k → candidate base k = suffixed base k := by
    intro k below
    cases k with
    | zero => exact absurd below (by decide)
    | succ k => rfl
  rw [spelled m low, spelled n low', suffixed, suffixed, three m low high, three n low' high'] at same
  have digits := congrArg Numeral.value (List.append_cancel_left same)
  rwa [Numeral.value_toDigits, Numeral.value_toDigits] at digits

/-- Among nine hundred different candidates one is free as long as fewer names are taken. -/
theorem candidate_free {seen : List (List Char)} (base : List Char) (few : seen.length < 900) :
    ∃ k, k < 1000 ∧ candidate base k ∉ seen := by
  by_contra taken
  have all : ∀ k, k < 1000 → candidate base k ∈ seen := by
    intro k small
    by_contra free
    exact taken ⟨k, small, free⟩
  have distinct : ((List.range' 100 900).map (candidate base)).Nodup := by
    refine List.Nodup.map_on ?_ (List.nodup_range')
    intro m inside n inside' same
    have bounds := List.mem_range'_1.mp inside
    have bounds' := List.mem_range'_1.mp inside'
    exact candidate_inj base bounds.1 bounds.2 bounds'.1 bounds'.2 same
  have contained : (List.range' 100 900).map (candidate base) ⊆ seen := by
    intro name inside
    obtain ⟨k, ranged, rfl⟩ := List.mem_map.mp inside
    have bounds := List.mem_range'_1.mp ranged
    exact all k (by omega)
  have long := (List.subperm_of_subset distinct contained).length_le
  rw [List.length_map, List.length_range'] at long
  omega

theorem freshName_spec (before : start ≤ k) (enough : k < start + fuel) (free : candidate base k ∉ seen) :
    ∃ j, j ≤ k ∧ freshName seen base fuel (candidate base start) (start + 1) = some (candidate base j) ∧
      candidate base j ∉ seen := by
  induction fuel generalizing start with
  | zero => omega
  | succ fuel ih =>
    rw [freshName]
    by_cases taken : candidate base start ∈ seen
    · rw [if_pos taken]
      have later : start ≠ k := by
        rintro rfl
        exact free taken
      exact @ih (start + 1) (by omega) (by omega)
    · rw [if_neg taken]
      exact ⟨start, before, rfl, taken⟩

theorem namesFrom_spec {seen : List (List Char)} (enough : 1000 ≤ fuel) (columns : List ColumnMeta)
    (few : seen.length + columns.length < 900) :
    ∃ names, namesFrom fuel seen columns = some names ∧ names.length = columns.length ∧ names.Nodup ∧
      ∀ name ∈ names, name ∉ seen ∧ GoodName name := by
  induction columns generalizing seen with
  | nil => exact ⟨[], rfl, rfl, List.nodup_nil, fun _ inside => absurd inside List.not_mem_nil⟩
  | cons column rest ih =>
    rw [List.length_cons] at few
    obtain ⟨k, small, free⟩ := @candidate_free seen (baseName column) (by omega)
    obtain ⟨j, least, found, fresh⟩ := freshName_spec (Nat.zero_le k) (by omega : k < 0 + fuel) free
    obtain ⟨names, later, length, distinct, others⟩ :=
      @ih (seen ++ [candidate (baseName column) j]) (by rw [List.length_append, List.length_singleton]; omega)
    refine ⟨candidate (baseName column) j :: names, ?_, by rw [List.length_cons, length, List.length_cons], ?_, ?_⟩
    · rw [namesFrom]
      rw [candidate_zero] at found
      rw [found, Option.bind_eq_bind, Option.bind_some, later]
      rfl
    · refine List.nodup_cons.mpr ⟨?_, distinct⟩
      intro again
      exact (others _ again).1 (List.mem_append_right _ List.mem_cons_self)
    · intro name inside
      rcases List.mem_cons.mp inside with rfl | later
      · exact ⟨fresh, good_candidate (good_baseName column) (by omega)⟩
      · exact ⟨fun old => (others name later).1 (List.mem_append_left _ old), (others name later).2⟩

def readName (bytes : List UInt8) : List UInt8 := bytes.takeWhile (· ≠ 0)

theorem good_ascii (good : GoodName name) : IsAscii name :=
  fun c inside => (ascii_of_isNameChar (good.2.2 c inside)).2

theorem nameBytes_eq (good : GoodName name) :
    nameBytes name = name.map byteOf ++ List.replicate (11 - name.length) 0 := by
  have short := good.2.1
  have first : (name.map byteOf).take 10 = name.map byteOf :=
    List.take_of_length_le (by rw [List.length_map]; exact short)
  have whole : (name.map byteOf).take 11 = name.map byteOf := List.take_of_length_le (by rw [List.length_map]; omega)
  rw [nameBytes, encodeUtf8_ascii (good_ascii good), first, resize, whole, List.length_map]

theorem length_nameBytes (good : GoodName name) : (nameBytes name).length = 11 := by
  have short := good.2.1
  rw [nameBytes_eq good, List.length_append, List.length_map, List.length_replicate]
  omega

theorem readName_nameBytes (good : GoodName name) : readName (nameBytes name) = name.map byteOf := by
  have visible : ∀ byte ∈ name.map byteOf, decide (byte ≠ 0) = true := by
    intro byte inside
    obtain ⟨c, member, rfl⟩ := List.mem_map.mp inside
    have range := ascii_of_isNameChar (good.2.2 c member)
    rw [decide_eq_true_iff, byteOf, ← UInt8.toNat_inj.ne, UInt8.toNat_ofNat_of_lt' (Nat.lt_trans range.2 (by decide))]
    exact range.1.ne'
  have more : 11 - name.length = 10 - name.length + 1 := by
    have short := good.2.1
    omega
  rw [readName, nameBytes_eq good, List.takeWhile_append_of_pos visible, more, List.replicate_succ,
    List.takeWhile_cons_of_neg (by decide), List.append_nil]

theorem readName_inj (good : GoodName name) (good' : GoodName other)
    (same : readName (nameBytes name) = readName (nameBytes other)) : name = other := by
  rw [readName_nameBytes good, readName_nameBytes good'] at same
  rw [← map_charOf (good_ascii good), same, map_charOf (good_ascii good')]

/-- A field as the plan makes it. -/
structure Planned (field : Field) : Prop where
  eleven : field.name.length = 11
  named : readName field.name ≠ [] ∧ (readName field.name).length ≤ 10
  narrow : field.width < 256
  logical : field.kind = .logical → field.width = 1
  date : field.kind = .date → field.width = dateWidth

theorem length_resize (width : Nat) (fill : UInt8) (bytes : List UInt8) : (resize width fill bytes).length = width := by
  rw [resize, List.length_append, List.length_take, List.length_replicate]
  omega

theorem length_encode {field : Field} (plan : Planned field)
    (encoded : encode build floats value field codec = some (bytes, cut)) : bytes.length = field.width := by
  unfold encode at encoded
  split at encoded
  · next kind =>
    rw [plan.logical kind]
    split at encoded
    · cases encoded
      rfl
    · cases encoded
      rfl
  · next kind =>
    rw [plan.date kind]
    split at encoded
    · cases encoded
      rfl
    · cases encoded
      exact length_resize _ _ _
  · split at encoded
    · cases encoded
      exact List.length_replicate
    · obtain ⟨text, -, placed⟩ := Option.map_eq_some_iff.mp encoded
      cases text with
      | none =>
        cases placed
        exact List.length_replicate
      | some text =>
        dsimp only at placed
        split at placed
        · cases placed
          exact List.length_replicate
        · next fits =>
          cases placed
          rw [List.length_append, blanks, List.length_replicate]
          omega
  · split at encoded
    · cases encoded
      exact List.length_replicate
    · cases encoded
      exact length_resize _ _ _

theorem length_encodeRow (plan : ∀ pair ∈ pairs, Planned pair.2)
    (written : encodeRow build floats codec pairs = some (record, cut)) :
    record.length = (pairs.map fun pair => pair.2.width).sum := by
  induction pairs generalizing record cut with
  | nil =>
    cases written
    rfl
  | cons pair rest ih =>
    obtain ⟨value, field⟩ := pair
    obtain ⟨first, later⟩ := List.forall_mem_cons.mp plan
    rw [encodeRow, Option.bind_eq_bind] at written
    obtain ⟨⟨bytes, truncated⟩, encoded, written⟩ := Option.bind_eq_some_iff.mp written
    obtain ⟨⟨others, more⟩, written', written⟩ := Option.bind_eq_some_iff.mp written
    cases written
    rw [List.length_append, length_encode first encoded, ih later written', List.map_cons, List.sum_cons]

theorem planned_cases (column : ColumnMeta) :
    planned column = (.logical, 0, some 1) ∨ planned column = (.date, 0, some dateWidth) ∨
      planned column = (.numeric, 0, some numericWidth) ∨ planned column = (.numeric, 6, some numericWidth) ∨
        planned column = (.character, 0, none) := by
  unfold planned
  dsimp only
  split_ifs <;> simp

theorem characterWidth_narrow (columns : List ColumnMeta) (charWidth : Nat) :
    characterWidth columns charWidth ≤ 254 := by
  unfold characterWidth defaultCharWidth
  dsimp only
  omega

theorem planFields_planned {names : List (List Char)} (good : ∀ name ∈ names, GoodName name) :
    ∀ field ∈ planFields columns (names.map nameBytes) charWidth, Planned field := by
  intro field inside
  obtain ⟨⟨column, bytes⟩, zipped, rfl⟩ := List.mem_map.mp inside
  obtain ⟨name, member, rfl⟩ := List.mem_map.mp (List.of_mem_zip zipped).2
  have narrow := characterWidth_narrow columns charWidth
  have read := readName_nameBytes (good name member)
  obtain ⟨nonempty, short, -⟩ := good name member
  have named : readName (nameBytes name) ≠ [] ∧ (readName (nameBytes name)).length ≤ 10 := by
    rw [read, List.length_map]
    exact ⟨by simpa using nonempty, short⟩
  have eleven := length_nameBytes (good name member)
  dsimp only
  rcases planned_cases column with plan | plan | plan | plan | plan <;> rw [plan]
  · exact ⟨eleven, named, (by decide : 1 < 256), fun _ => rfl, fun other => by cases other⟩
  · exact ⟨eleven, named, (by decide : 8 < 256), fun other => (by cases other), fun _ => rfl⟩
  · exact ⟨eleven, named, (by decide : 20 < 256), fun other => (by cases other), fun other => by cases other⟩
  · exact ⟨eleven, named, (by decide : 20 < 256), fun other => (by cases other), fun other => by cases other⟩
  · exact ⟨eleven, named, Nat.lt_of_le_of_lt narrow (by decide), fun other => (by cases other),
      fun other => by cases other⟩

theorem planFields_names (charWidth : Nat) {columns : List ColumnMeta} {names : List (List UInt8)}
    (length : names.length = columns.length) : (planFields columns names charWidth).map Field.name = names := by
  have second : ((columns.zip names).map Prod.snd) = names := List.map_snd_zip (Nat.le_of_eq length)
  rw [planFields, List.map_map]
  exact second

theorem length_fieldDescriptor (plan : Planned field) : (fieldDescriptor field).length = 32 := by
  simp [fieldDescriptor, plan.eleven]

open Sections Bytes

def headerFront (today : Today) : List UInt8 := [0x03, UInt8.ofInt (today.year - 1900), today.month, today.day]

theorem length_headerFront (today : Today) : (headerFront today).length = 4 := rfl

/-- The bytes of a header behind the length of a record. -/
def headerBack (languageDriver : UInt8) : List UInt8 :=
  [0, 0] ++ [0, 0] ++ List.replicate 12 0 ++ [0, languageDriver] ++ [0, 0]

def fileOf (today : Today) (languageDriver : UInt8) (count : Nat) (fields : List Field) (recordLen : Nat)
    (content : List UInt8) : List UInt8 :=
  headerFront today ++ leBytes 4 count ++ leBytes 2 (33 + 32 * fields.length) ++ leBytes 2 recordLen ++
    headerBack languageDriver ++ (fields.map fieldDescriptor).flatten ++ [0x0d] ++ content

section
variable (today : Today) (languageDriver : UInt8) (count : Nat) (fields : List Field) (recordLen : Nat)
  (content : List UInt8)

def recordCount (file : List UInt8) : Option Nat := readAt 4 file 4

/-- Where the first record starts. -/
def headerLength (file : List UInt8) : Option Nat := readAt 2 file 8

def recordLength (file : List UInt8) : Option Nat := readAt 2 file 10

def fieldName (file : List UInt8) (i : Nat) : Option (List UInt8) :=
  (slice file (32 + 32 * i) (32 + 32 * i + 11)).map readName

/-- The length in a descriptor. -/
def fieldWidth (file : List UInt8) (i : Nat) : Option Nat := readAt 1 file (32 + 32 * i + 16)

theorem recordCount_fileOf : recordCount (fileOf today languageDriver count fields recordLen content) =
    some (count % 2 ^ 32) := by
  have found := readAt_front (headerFront today) 4 count
    (leBytes 2 (33 + 32 * fields.length) ++ leBytes 2 recordLen ++ headerBack languageDriver ++
      (fields.map fieldDescriptor).flatten ++ [0x0d] ++ content)
  rw [length_headerFront, (by decide : 256 ^ 4 = 2 ^ 32)] at found
  simpa only [recordCount, fileOf, List.append_assoc] using found

theorem headerLength_fileOf (few : fields.length ≤ 255) :
    headerLength (fileOf today languageDriver count fields recordLen content) = some (33 + 32 * fields.length) := by
  have found := readAt_front (headerFront today ++ leBytes 4 count) 2 (33 + 32 * fields.length)
    (leBytes 2 recordLen ++ headerBack languageDriver ++ (fields.map fieldDescriptor).flatten ++ [0x0d] ++ content)
  rw [Nat.mod_eq_of_lt (by omega : 33 + 32 * fields.length < 256 ^ 2)] at found
  simpa only [headerLength, fileOf, List.append_assoc, List.length_append, length_leBytes,
    length_headerFront] using found

theorem recordLength_fileOf (short : recordLen ≤ maxRecordBytes) :
    recordLength (fileOf today languageDriver count fields recordLen content) = some recordLen := by
  have found := readAt_front (headerFront today ++ leBytes 4 count ++ leBytes 2 (33 + 32 * fields.length)) 2 recordLen
    (headerBack languageDriver ++ (fields.map fieldDescriptor).flatten ++ [0x0d] ++ content)
  rw [Nat.mod_eq_of_lt (Nat.lt_of_le_of_lt short (by decide) : recordLen < 256 ^ 2)] at found
  simpa only [recordLength, fileOf, List.append_assoc, List.length_append, length_leBytes,
    length_headerFront] using found

/-- What stands in front of the descriptors. -/
def headerBytes : List UInt8 :=
  headerFront today ++ leBytes 4 count ++ leBytes 2 (33 + 32 * fields.length) ++ leBytes 2 recordLen ++
    headerBack languageDriver

theorem length_headerBytes : (headerBytes today languageDriver count fields recordLen).length = 32 := by
  simp only [headerBytes, List.length_append, length_leBytes, length_headerFront, headerBack, List.length_replicate,
    List.length_cons, List.length_nil]

variable {fields}

theorem length_descriptors (plan : ∀ field ∈ fields, Planned field) :
    (fields.map fieldDescriptor).flatten.length = 32 * fields.length := by
  induction fields with
  | nil => rfl
  | cons field rest ih =>
    obtain ⟨first, later⟩ := List.forall_mem_cons.mp plan
    rw [List.map_cons, List.flatten_cons, List.length_append, length_fieldDescriptor first, ih later, List.length_cons]
    omega

theorem at_descriptor (plan : ∀ field ∈ fields, Planned field) (place : fields[i]? = some field) :
    ∃ front back, fileOf today languageDriver count fields recordLen content = front ++
      (fieldDescriptor field ++ back) ∧
      front.length = 32 + 32 * i := by
  obtain ⟨inside, rfl⟩ := List.getElem?_eq_some_iff.mp place
  refine ⟨headerBytes today languageDriver count fields recordLen ++ ((fields.take i).map fieldDescriptor).flatten,
    ((fields.drop (i + 1)).map fieldDescriptor).flatten ++ [0x0d] ++ content, ?_, ?_⟩
  · have split : (fields.map fieldDescriptor).flatten = ((fields.take i).map fieldDescriptor).flatten ++
        (fieldDescriptor fields[i] ++ ((fields.drop (i + 1)).map fieldDescriptor).flatten) := by
      rw [← List.flatten_cons, ← List.map_cons, List.getElem_cons_drop, ← List.flatten_append, ← List.map_append,
        List.take_append_drop]
    rw [fileOf, split]
    simp only [headerBytes, List.append_assoc]
  · rw [List.length_append, length_headerBytes, length_descriptors fun field member =>
      plan field (List.mem_of_mem_take member),
      List.length_take, Nat.min_eq_left (Nat.le_of_lt inside)]

theorem fieldName_fileOf (plan : ∀ field ∈ fields, Planned field) (place : fields[i]? = some field) :
    fieldName (fileOf today languageDriver count fields recordLen content) i = some (readName field.name) := by
  obtain ⟨front, back, split, length⟩ := at_descriptor today languageDriver count recordLen content plan place
  have found := slice_front front field.name ([field.kind.byte] ++ List.replicate 4 0 ++ [UInt8.ofNat field.width] ++
    [field.decimals] ++ List.replicate 14 0 ++ back)
  rw [length, (plan field (List.mem_of_getElem? place)).eleven] at found
  have whole : fileOf today languageDriver count fields recordLen content = front ++ (field.name ++
      ([field.kind.byte] ++ List.replicate 4 0 ++ [UInt8.ofNat field.width] ++ [field.decimals] ++
        List.replicate 14 0 ++ back)) := by
    rw [split]
    simp only [fieldDescriptor, List.append_assoc]
  rw [fieldName, whole, found, Option.map_some]

theorem fieldWidth_fileOf (plan : ∀ field ∈ fields, Planned field) (place : fields[i]? = some field) :
    fieldWidth (fileOf today languageDriver count fields recordLen content) i = some field.width := by
  obtain ⟨front, back, split, length⟩ := at_descriptor today languageDriver count recordLen content plan place
  have planned_field := plan field (List.mem_of_getElem? place)
  have found := readAt_front (front ++ field.name ++ [field.kind.byte] ++ List.replicate 4 0) 1 field.width
    ([field.decimals] ++ List.replicate 14 0 ++ back)
  rw [Nat.mod_eq_of_lt (by simpa using planned_field.narrow)] at found
  have start : (front ++ field.name ++ [field.kind.byte] ++ List.replicate 4 0).length = 32 + 32 * i + 16 := by
    simp only [List.length_append, length, planned_field.eleven, List.length_singleton, List.length_replicate]
  have whole : fileOf today languageDriver count fields recordLen content =
      front ++ field.name ++ [field.kind.byte] ++ List.replicate 4 0 ++ (leBytes 1 field.width ++
        ([field.decimals] ++ List.replicate 14 0 ++ back)) := by
    rw [split]
    simp only [fieldDescriptor, leBytes, List.append_assoc]
  rw [fieldWidth, whole, ← start, found]

theorem slice_record {records : List (List UInt8)} (plan : ∀ field ∈ fields, Planned field)
    (sizes : ∀ record ∈ records, record.length = recordLen) (place : records[i]? = some record) :
    slice (fileOf today languageDriver count fields recordLen (records.flatten ++ [0x1a]))
      (33 + 32 * fields.length + i * recordLen) (33 + 32 * fields.length + (i + 1) * recordLen) = some record := by
  have front : (headerBytes today languageDriver count fields recordLen ++ (fields.map fieldDescriptor).flatten ++
      [0x0d]).length = 33 + 32 * fields.length := by
    rw [List.length_append, List.length_append, length_headerBytes, length_descriptors plan, List.length_singleton]
    omega
  have found := slice_equal (headerBytes today languageDriver count fields recordLen ++
    (fields.map fieldDescriptor).flatten ++ [0x0d]) [0x1a] sizes place
  rw [front] at found
  simpa only [fileOf, headerBytes, List.append_assoc] using found

end

/-- An open writer: its fields are the plan's, and what it has written is the header. -/
structure Opened (today : Today) (columns : List ColumnMeta) (writer : DbfWriter) : Prop where
  few : columns.length ≤ 255
  fields : writer.fields.length = columns.length
  planned : ∀ field ∈ writer.fields, Planned field
  distinct : (writer.fields.map fun field => readName field.name).Nodup
  record : writer.recordLen = 1 + (writer.fields.map Field.width).sum
  short : writer.recordLen ≤ maxRecordBytes
  out : writer.out = fileOf today writer.codec.languageDriver 0 writer.fields writer.recordLen []
  count : writer.count = 0

theorem readNames_nodup {names : List (List Char)} (good : ∀ name ∈ names, GoodName name) (distinct : names.Nodup) :
    (names.map fun name => readName (nameBytes name)).Nodup := by
  refine List.Nodup.map_on ?_ distinct
  intro name inside other inside' same
  exact readName_inj (good name inside) (good other inside') same

/-- Opening does not loop, and opens a writer with the header its fields ask for. -/
theorem new_spec (alphanumeric : Char → Bool) (enough : 1000 ≤ fuel) (today : Today) (columns : List ColumnMeta)
    (options : Options) :
    ∃ result, DbfWriter.new alphanumeric fuel today columns options = some result ∧
      ∀ writer, result = .ok writer → Opened today columns writer := by
  unfold DbfWriter.new
  split
  · exact ⟨_, rfl, fun writer same => by cases same⟩
  · next few =>
    obtain ⟨names, found, length, distinct, each⟩ := @namesFrom_spec fuel [] enough columns (by simp; omega)
    have named : fieldNames fuel columns = some (names.map nameBytes) := by rw [fieldNames, found, Option.map_some]
    have good : ∀ name ∈ names, GoodName name := fun name inside => (each name inside).2
    rw [named, Option.bind_eq_bind, Option.bind_some]
    dsimp only
    split
    · exact ⟨_, rfl, fun writer same => by cases same⟩
    · next codec resolved =>
      split
      · exact ⟨_, rfl, fun writer same => by cases same⟩
      · next short =>
        refine ⟨_, rfl, ?_⟩
        intro writer same
        cases same
        have kept := planFields_names options.dbfCharWidth ((List.length_map nameBytes).trans length)
        have fields : (planFields columns (names.map nameBytes) options.dbfCharWidth).length = columns.length := by
          rw [← List.length_map Field.name, kept, List.length_map, length]
        refine ⟨Nat.le_of_not_lt few, fields, planFields_planned good, ?_, rfl, Nat.le_of_not_lt short, ?_, rfl⟩
        · have names_of : (planFields columns (names.map nameBytes) options.dbfCharWidth).map
            (fun field => readName field.name) =
              names.map fun name => readName (nameBytes name) := by
            have read := congrArg (List.map readName) kept
            rwa [List.map_map, List.map_map] at read
          rw [names_of]
          exact readNames_nodup good distinct
        · have start : 32 + 32 * (planFields columns (names.map nameBytes) options.dbfCharWidth).length + 1 =
              33 + 32 * (planFields columns (names.map nameBytes) options.dbfCharWidth).length := by omega
          rw [start, fileOf, header, headerFront, headerBack, List.flatMap_def]
          simp only [List.append_assoc, List.append_nil]

def recordOf (build : Build) (floats : Floats) (writer : DbfWriter) (row : List Value) : Option (List UInt8) :=
  (encodeRow build floats writer.codec (row.zip writer.fields)).map fun encoded => 0x20 :: encoded.1

theorem countOne_spec (counted : countOne build count = some count') : count' = count + 1 := by
  unfold countOne at counted
  split at counted
  · cases counted
    rfl
  · cases build with
    | debug => cases counted
    | release =>
      cases counted
      rfl

theorem writeRow_spec (written : DbfWriter.writeRow build floats writer row = some writer') :
    ∃ record, recordOf build floats writer row = some record ∧ writer'.out = writer.out ++ record ∧
      writer'.count = writer.count + 1 ∧ writer'.fields = writer.fields ∧ writer'.codec = writer.codec := by
  unfold DbfWriter.writeRow at written
  rw [Option.bind_eq_bind] at written
  obtain ⟨⟨record, cut⟩, encoded, written⟩ := Option.bind_eq_some_iff.mp written
  obtain ⟨count, counted, written⟩ := Option.bind_eq_some_iff.mp written
  cases written
  exact ⟨0x20 :: record, by rw [recordOf, encoded, Option.map_some], rfl, countOne_spec counted, rfl, rfl⟩

theorem writeRows_spec (written : DbfWriter.writeRows build floats writer rows = some writer') :
    ∃ records, rows.mapM (recordOf build floats writer) = some records ∧
      writer'.out = writer.out ++ records.flatten ∧ records.length = rows.length ∧
        writer'.count = writer.count + UInt32.ofNat rows.length ∧
          ∀ record ∈ records, ∃ row ∈ rows, recordOf build floats writer row = some record := by
  induction rows generalizing writer with
  | nil =>
    cases written
    exact ⟨[], rfl, by simp, rfl, by simp, fun _ inside => absurd inside List.not_mem_nil⟩
  | cons row rest ih =>
    obtain ⟨next, first, later⟩ := Option.bind_eq_some_iff.mp written
    obtain ⟨record, recorded, out, count, fields, codec⟩ := writeRow_spec first
    obtain ⟨records, others, out', length, count', each⟩ := ih later
    have same : recordOf build floats next = recordOf build floats writer := by
      funext row
      rw [recordOf, recordOf, fields, codec]
    rw [same] at others each
    refine ⟨record :: records, by simp [recorded, others], ?_, by rw [List.length_cons, length, List.length_cons],
    ?_, ?_⟩
    · rw [out', out, List.flatten_cons, List.append_assoc]
    · rw [count', count, List.length_cons, UInt32.ofNat_add, UInt32.add_assoc, UInt32.add_comm 1]
      rfl
    · intro made inside
      rcases List.mem_cons.mp inside with rfl | later
      · exact ⟨row, List.mem_cons_self, recorded⟩
      · obtain ⟨other, member, found⟩ := each made later
        exact ⟨other, List.mem_cons_of_mem _ member, found⟩

/-- What the header says is what the file holds: the fields with their names and widths, and these records. -/
structure LaidOut (columns : Nat) (records : List (List UInt8)) (file : List UInt8) : Prop where
  names : ∃ names : List (List UInt8), names.length = columns ∧ names.Nodup ∧
    (∀ name ∈ names, name ≠ [] ∧ name.length ≤ 10) ∧ ∀ i name, names[i]? = some name → fieldName file i = some name
  places : ∃ (widths : List Nat) (start length : Nat), widths.length = columns ∧
    (∀ i width, widths[i]? = some width → fieldWidth file i = some width) ∧
    headerLength file = some start ∧ recordLength file = some length ∧ length = 1 + widths.sum ∧
    (∀ record ∈ records, record.length = length) ∧
    ∀ i record, records[i]? = some record → slice file (start + i * length) (start + (i + 1) * length) = some record
  count : recordCount file = some records.length

theorem finish_eq {writer writer' : DbfWriter} {records : List (List UInt8)} (opened : Opened today columns writer)
    (out : writer'.out = writer.out ++ records.flatten) :
    writer'.finish = fileOf today writer.codec.languageDriver writer'.count.toNat writer.fields writer.recordLen
      (records.flatten ++ [0x1a]) := by
  obtain ⟨rest, after⟩ : ∃ rest, rest = leBytes 2 (33 + 32 * writer.fields.length) ++ leBytes 2 writer.recordLen ++
      headerBack writer.codec.languageDriver ++ (writer.fields.map fieldDescriptor).flatten ++ [0x0d] ++
        (records.flatten ++ [0x1a]) := ⟨_, rfl⟩
  have front : writer'.out ++ [0x1a] = headerFront today ++ (leBytes 4 0 ++ rest) := by
    rw [out, opened.out, after]
    simp only [fileOf, List.append_assoc, List.nil_append]
  have eight : (headerFront today ++ leBytes 4 0).length = 8 := by
    rw [List.length_append, length_headerFront, length_leBytes]
  unfold DbfWriter.finish
  dsimp only
  rw [front, List.take_left' (length_headerFront today), ← List.append_assoc _ _ rest, List.drop_left' eight, after]
  simp only [fileOf, List.append_assoc]

theorem length_record (opened : Opened today columns writer) (wide : row.length = columns.length)
    (recorded : recordOf build floats writer row = some record) : record.length = writer.recordLen := by
  obtain ⟨⟨encoded, cut⟩, found, rfl⟩ := Option.map_eq_some_iff.mp recorded
  have plan : ∀ pair ∈ row.zip writer.fields, Planned pair.2 := fun pair inside =>
    opened.planned _ (List.of_mem_zip inside).2
  have second : (row.zip writer.fields).map Prod.snd = writer.fields :=
    List.map_snd_zip (by rw [opened.fields, wide])
  have widths : (row.zip writer.fields).map (fun pair => pair.2.width) = writer.fields.map Field.width := by
    rw [← congrArg (List.map Field.width) second, List.map_map]
    rfl
  dsimp only
  rw [List.length_cons, length_encodeRow plan found, widths, opened.record]
  omega

/-- A file with any number of records is laid out as its header says, but for the count, which is that
number modulo 2^32. -/
theorem laidOut_iff (opened : Opened today columns writer) (wide : ∀ row ∈ rows, row.length = columns.length)
    (written : DbfWriter.writeRows build floats writer rows = some writer') :
    ∃ records, rows.mapM (recordOf build floats writer) = some records ∧ records.length = rows.length ∧
      (LaidOut columns.length records writer'.finish ↔ rows.length < 2 ^ 32) := by
  obtain ⟨records, recorded, out, length, count, each⟩ := writeRows_spec written
  refine ⟨records, recorded, length, ?_⟩
  have counted : writer'.count.toNat = rows.length % 2 ^ 32 := by
    rw [count, opened.count, UInt32.zero_add, UInt32.toNat_ofNat']
  have file := finish_eq opened out
  have header_count : recordCount writer'.finish = some (rows.length % 2 ^ 32) := by
    rw [file, recordCount_fileOf, counted, Nat.mod_mod]
  constructor
  · intro laid
    have same := header_count.symm.trans laid.count
    rw [Option.some.injEq, length] at same
    rw [← same]
    exact Nat.mod_lt _ (by decide)
  · intro few
    have sizes : ∀ record ∈ records, record.length = writer.recordLen := by
      intro record inside
      obtain ⟨row, member, found⟩ := each record inside
      exact length_record opened (wide row member) found
    refine ⟨?_, ?_, ?_⟩
    · refine ⟨writer.fields.map fun field =>
        readName field.name, by rw [List.length_map, opened.fields], opened.distinct, ?_, ?_⟩
      · intro name inside
        obtain ⟨field, member, rfl⟩ := List.mem_map.mp inside
        exact (opened.planned field member).named
      · intro i name place
        rw [List.getElem?_map] at place
        obtain ⟨field, found, rfl⟩ := Option.map_eq_some_iff.mp place
        rw [file]
        exact fieldName_fileOf _ _ _ _ _ opened.planned found
    · refine ⟨writer.fields.map Field.width, 33 + 32 * writer.fields.length, writer.recordLen,
        by rw [List.length_map, opened.fields], ?_, ?_, ?_, opened.record, sizes, ?_⟩
      · intro i width place
        rw [List.getElem?_map] at place
        obtain ⟨field, found, rfl⟩ := Option.map_eq_some_iff.mp place
        rw [file]
        exact fieldWidth_fileOf _ _ _ _ _ opened.planned found
      · rw [file]
        exact headerLength_fileOf _ _ _ _ _ _ (by rw [opened.fields]; exact opened.few)
      · rw [file]
        exact recordLength_fileOf _ _ _ _ _ _ opened.short
      · intro i record place
        rw [file]
        exact slice_record _ _ _ _ opened.planned sizes place
    · rw [header_count, length, Nat.mod_eq_of_lt few]

/-- The writer opens without looping, and with rows of its width the file it finishes is laid out as its
header says exactly when there are fewer than 2^32 of them. -/
theorem dbf_laid_out_iff (build : Build) (floats : Floats) (alphanumeric : Char → Bool) (fuel : Nat)
    (enough : 1000 ≤ fuel) (today : Today) (columns : List ColumnMeta) (options : Options) :
    ∃ result, DbfWriter.new alphanumeric fuel today columns options = some result ∧
      ∀ writer, result = .ok writer → ∀ rows writer', (∀ row ∈ rows, row.length = columns.length) →
        DbfWriter.writeRows build floats writer rows = some writer' →
          ∃ records, rows.mapM (recordOf build floats writer) = some records ∧ records.length = rows.length ∧
            (LaidOut columns.length records writer'.finish ↔ rows.length < 2 ^ 32) := by
  obtain ⟨result, opened, planned⟩ := new_spec alphanumeric enough today columns options
  refine ⟨result, opened, ?_⟩
  intro writer same rows writer' wide written
  exact laidOut_iff (planned writer same) wide written

theorem writeRows_release (each : ∀ row ∈ rows,
    ∃ encoded, encodeRow .release floats writer.codec (row.zip writer.fields) = some encoded) :
    ∃ writer', DbfWriter.writeRows .release floats writer rows = some writer' := by
  induction rows generalizing writer with
  | nil => exact ⟨writer, rfl⟩
  | cons row rest ih =>
    obtain ⟨⟨encoded, found⟩, later⟩ := List.forall_mem_cons.mp each
    have counted : countOne .release writer.count = some (writer.count + 1) := by
      unfold countOne
      split <;> rfl
    have first : DbfWriter.writeRow .release floats writer row = some { writer with
        out := writer.out ++ 0x20 :: encoded.1, count := writer.count + 1, truncated :=
          writer.truncated + encoded.2 } := by
      rw [DbfWriter.writeRow, found, Option.bind_eq_bind, Option.bind_some, counted]
      rfl
    obtain ⟨writer', written⟩ := @ih { writer with
      out := writer.out ++ 0x20 :: encoded.1, count := writer.count + 1, truncated :=
        writer.truncated + encoded.2 } later
    refine ⟨writer', ?_⟩
    rw [DbfWriter.writeRows, List.foldlM_cons, first]
    exact written

def someDay : Today := { year := 2026, month := 1, day := 31 }

def noFloatText : Floats where
  plain _ := ""
  scientific _ := ""
  magnitude _ := 0
  parse _ := none
  fixed _ _ := ""

def truthColumns : List ColumnMeta := [{ name := "on", typeName := "boolean" }]

def defaultOptions : Options := { dbfCharWidth := 254, dbfEncoding := "cp1252" }

def truthWriter : DbfWriter where
  out := fileOf someDay 3 0 [{ name := nameBytes ['O', 'N'], kind := .logical, width := 1, decimals := 0 }] 2 []
  fields := [{ name := nameBytes ['O', 'N'], kind := .logical, width := 1, decimals := 0 }]
  recordLen := 2
  codec := .cp1252
  count := 0
  truncated := 0

theorem truthWriter_opens : DbfWriter.new Char.isAlphanum 1000 someDay truthColumns defaultOptions =
    some (.ok truthWriter) := by
  decide +kernel

/-- Two names that are one when they are cut. -/
def nameColumns : List ColumnMeta := [⟨"customer_name_first", "text"⟩, ⟨"customer_name_last", "varchar(5)"⟩,
    ⟨"paid", "boolean"⟩]

def narrowOptions : Options := { dbfCharWidth := 5, dbfEncoding := "utf-8" }

def nameFields : List Field :=
  [⟨nameBytes "CUSTOMER_N".toList, .character, 5, 0⟩, ⟨nameBytes "CUSTOMER_1".toList, .character, 5, 0⟩,
    ⟨nameBytes "PAID".toList, .logical, 1, 0⟩]

def nameWriter : DbfWriter where
  out := fileOf someDay 0 0 nameFields 12 []
  fields := nameFields
  recordLen := 12
  codec := .utf8
  count := 0
  truncated := 0

theorem nameWriter_opens : DbfWriter.new Char.isAlphanum 1000 someDay nameColumns narrowOptions =
    some (.ok nameWriter) := by
  decide +kernel

/-- The first text is a byte too long, and is cut inside its last character. -/
def nameRows : List (List Value) := [[.text "abcdé", .text "x", .bool true], [.null, .text "né", .bool false]]

theorem names_laid_out : ∃ writer' records,
    DbfWriter.writeRows .release noFloatText nameWriter nameRows = some writer' ∧ writer'.truncated = 1 ∧
      records = [[0x20, 0x61, 0x62, 0x63, 0x64, 0xc3, 0x78, 0x20, 0x20, 0x20, 0x20, 0x54],
        [0x20, 0x20, 0x20, 0x20, 0x20, 0x20, 0x6e, 0xc3, 0xa9, 0x20, 0x20, 0x46]] ∧
      LaidOut 3 records writer'.finish := by
  obtain ⟨result, opened, run⟩ := dbf_laid_out_iff .release noFloatText Char.isAlphanum 1000 (Nat.le_refl _) someDay
    nameColumns narrowOptions
  have same := Option.some.inj (opened.symm.trans nameWriter_opens)
  obtain ⟨records, encoded, -, laid⟩ := run nameWriter same nameRows _ (by decide) rfl
  have shown : nameRows.mapM (recordOf .release noFloatText nameWriter) =
      some [[0x20, 0x61, 0x62, 0x63, 0x64, 0xc3, 0x78, 0x20, 0x20, 0x20, 0x20, 0x54],
        [0x20, 0x20, 0x20, 0x20, 0x20, 0x20, 0x6e, 0xc3, 0xa9, 0x20, 0x20, 0x46]] := by decide +kernel
  exact ⟨_, records, rfl, rfl, Option.some.inj (encoded.symm.trans shown), laid.mpr (by decide)⟩

/-- 2^32 rows leave a record count of zero. -/
theorem many_truths_not_laid_out : ¬∀ (build : Build) (floats : Floats) (alphanumeric : Char → Bool) (fuel : Nat)
    (today : Today) (columns : List ColumnMeta) (options : Options) (writer : DbfWriter) (rows : List (List Value))
    (writer' : DbfWriter) (records : List (List UInt8)), 1000 ≤ fuel →
      DbfWriter.new alphanumeric fuel today columns options = some (.ok writer) →
        (∀ row ∈ rows, row.length = columns.length) → DbfWriter.writeRows build floats writer rows = some writer' →
          rows.mapM (recordOf build floats writer) = some records → LaidOut columns.length records writer'.finish := by
  intro always
  have wide : ∀ row ∈ List.replicate (2 ^ 32) [Value.bool true], row.length = truthColumns.length := by
    intro row inside
    rw [List.eq_of_mem_replicate inside]
    rfl
  obtain ⟨writer', written⟩ := @writeRows_release (List.replicate (2 ^ 32) [.bool true]) noFloatText truthWriter (by
    intro row inside
    rw [List.eq_of_mem_replicate inside]
    exact ⟨_, rfl⟩)
  obtain ⟨result, opens, opened⟩ := new_spec Char.isAlphanum (Nat.le_refl 1000) someDay truthColumns defaultOptions
  have same := Option.some.inj (opens.symm.trans truthWriter_opens)
  obtain ⟨records, recorded, -, laid⟩ := laidOut_iff (opened truthWriter same) wide written
  have few := laid.mp (always .release noFloatText Char.isAlphanum 1000 someDay truthColumns
    defaultOptions truthWriter _
    writer' records (Nat.le_refl _) truthWriter_opens wide written recorded)
  rw [List.length_replicate] at few
  exact absurd few (by decide)

end QueryHive.Export.Dbf
