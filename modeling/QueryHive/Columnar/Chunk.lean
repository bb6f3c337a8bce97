import QueryHive.Library.Numeral
import QueryHive.Columnar.Tagged

/-! Sealing a chunk and reading its cells back. Each column is stored in the
encoding its values agree on, with the decimal scale or the zone as a parameter
of the whole column, and in tagged blobs when they agree on none. A cell reads
back as the value that was pushed but in two cases: a zone of a day or more has
no text the reader takes, and a tagged blob keeps only what its lengths hold. -/
namespace QueryHive.Columnar
open QueryHive.Library.Numeral QueryHive.Library.Result QueryHive.Library.Text QueryHive.Store

/-- `IntervalMonthDayNano`. -/
structure MonthDayNano where
  months : Int32
  days : Int32
  nanoseconds : Int64
  deriving DecidableEq, Repr

/-- An Arrow array: the parameters of its type, and its cells with `none` where
the validity bit is not set. A float is its bits. -/
inductive ArrowArray where
  | null (length : Nat)
  | boolean (cells : List (Option Bool))
  | int64 (cells : List (Option Int64))
  | uint64 (cells : List (Option UInt64))
  | float64 (cells : List (Option UInt64))
  | decimal128 (precision : Nat) (scale : Int8) (cells : List (Option (BitVec 128)))
  | date32 (cells : List (Option Int32))
  | time64Micros (cells : List (Option Int64))
  | timestampMicros (zone : Option String) (cells : List (Option Int64))
  | intervalMonthDayNano (cells : List (Option MonthDayNano))
  | utf8 (cells : List (Option String))
  | binary (cells : List (Option (List UInt8)))
  deriving DecidableEq

/-- `Array::len`. -/
def ArrowArray.length : ArrowArray → Nat
  | .null length => length
  | .boolean cells => cells.length
  | .int64 cells | .time64Micros cells | .timestampMicros _ cells => cells.length
  | .uint64 cells | .float64 cells => cells.length
  | .decimal128 _ _ cells => cells.length
  | .date32 cells => cells.length
  | .intervalMonthDayNano cells => cells.length
  | .utf8 cells => cells.length
  | .binary cells => cells.length

/-- `Array::data_type`. -/
def ArrowArray.dataType : ArrowArray → DataType
  | .null _ => .null
  | .boolean _ => .boolean
  | .int64 _ => .int64
  | .uint64 _ => .uint64
  | .float64 _ => .float64
  | .decimal128 precision scale _ => .decimal128 precision scale
  | .date32 _ => .date32
  | .time64Micros _ => .time64Micros
  | .timestampMicros zone _ => .timestampMicros zone
  | .intervalMonthDayNano _ => .intervalMonthDayNano
  | .utf8 _ => .utf8
  | .binary _ => .binary

/-- `with_precision_and_scale(38, …)`: Arrow takes every scale up to 38. -/
def decimalArray (scale : Int8) (cells : List (Option (BitVec 128))) : Except ColumnarError ArrowArray :=
  if 38 < scale then .error (.arrow s!"scale {scale} is greater than max 38") else .ok (.decimal128 38 scale cells)

/-- `ColumnKind`: the encoding of one chunk-column with the parameters its
builder needs. -/
inductive ColumnKind where
  | null | bool | i64 | u64 | f64
  | dec (scale : UInt8)
  | date | time | ts
  | tsz (offset : Int32)
  | interval | text | json | bytes | tagged
  deriving DecidableEq, Repr

def ColumnKind.encoding : ColumnKind → Encoding
  | .null => .null
  | .bool => .bool
  | .i64 => .i64
  | .u64 => .u64
  | .f64 => .f64
  | .dec _ => .dec
  | .date => .date
  | .time => .time
  | .ts => .ts
  | .tsz _ => .tsz
  | .interval => .interval
  | .text => .text
  | .json => .json
  | .bytes => .bytes
  | .tagged => .tagged

def single : Value → Option ColumnKind
  | .null => none
  | .bool _ => some .bool
  | .int _ => some .i64
  | .uint _ => some .u64
  | .float _ => some .f64
  | .decimal unscaled scale =>
    if 38 < scale ∨ 10 ^ 38 ≤ unscaled.toInt.natAbs then some .tagged else some (.dec scale)
  | .date _ => some .date
  | .time _ => some .time
  | .timestamp _ none => some .ts
  | .timestamp _ (some offset) => if offset.toInt % 60 = 0 then some (.tsz offset) else some .tagged
  | .interval interval => if nanosOverflow interval.micros then some .tagged else some .interval
  | .text _ => some .text
  | .json _ => some .json
  | .bytes _ => some .bytes
  | .array _ | .row _ | .map _ | .unknown _ _ _ => some .tagged

/-- `merge_kinds`: anything that disagrees is tagged. -/
def mergeKinds (current single : ColumnKind) : ColumnKind := if current = single then current else .tagged

/-- The loop body of `pick_encoding`. -/
def addKind (kind : Option ColumnKind) (value : Value) : Option ColumnKind :=
  match single value, kind with
  | none, kind => kind
  | some single, none => some single
  | some single, some current => some (mergeKinds current single)

/-- `pick_encoding`: the kind all cells that are not NULL agree on. -/
def pickEncoding (values : List Value) : ColumnKind := (values.foldl addKind none).getD .null

/-- `format_tz`: `+HH:MM` for a whole-minute offset. -/
def formatTz (offset : Int32) : String :=
  let sign := if offset < 0 then '-' else '+'
  let magnitude := offset.toInt.natAbs
  String.ofList (sign :: (padded 2 (magnitude / 3600) ++ ':' :: padded 2 (magnitude % 3600 / 60)))

/-- `checked_mul(1000)` on the microseconds of an interval. -/
def toNanos (micros : Int64) : Except ColumnarError Int64 :=
  if nanosOverflow micros then .error (.corrupt "interval micros overflow")
  else .ok (.ofInt (micros.toInt * 1000))

/-- `build_column`: the array of the decided kind. A value of another kind would
go in as NULL, like a NULL. -/
def buildColumn (kind : ColumnKind) (values : List Value) : Except ColumnarError ArrowArray :=
  match kind with
  | .null => .ok (.null values.length)
  | .bool => .ok (.boolean (values.map fun | .bool flag => some flag | _ => none))
  | .i64 => .ok (.int64 (values.map fun | .int number => some number | _ => none))
  | .u64 => .ok (.uint64 (values.map fun | .uint number => some number | _ => none))
  | .f64 => .ok (.float64 (values.map fun | .float bits => some bits | _ => none))
  | .dec scale =>
    decimalArray scale.toInt8 (values.map fun | .decimal unscaled _ => some unscaled | _ => none)
  | .date => .ok (.date32 (values.map fun | .date days => some days | _ => none))
  | .time => .ok (.time64Micros (values.map fun | .time micros => some micros | _ => none))
  | .ts => .ok (.timestampMicros none (values.map fun | .timestamp micros _ => some micros | _ => none))
  | .tsz offset =>
    .ok (.timestampMicros (some (formatTz offset)) (values.map fun | .timestamp micros _ => some micros | _ => none))
  | .interval => do
    let cells ← values.mapM fun
      | .interval interval => do
        let nanos ← toNanos interval.micros
        .ok (some ⟨interval.months, interval.days, nanos⟩)
      | _ => .ok none
    .ok (.intervalMonthDayNano cells)
  | .text | .json => .ok (.utf8 (values.map fun | .text text | .json text => some text | _ => none))
  | .bytes => .ok (.binary (values.map fun | .bytes bytes => some bytes | _ => none))
  | .tagged => do
    let cells ← values.mapM fun
      | .null => .ok none
      | other => do
        let blob ← encodeValue other
        .ok (some blob)
    .ok (.binary cells)

/-- `SealedChunk`: the batch's columns and their encodings. -/
structure SealedChunk where
  batch : List ArrowArray
  encodings : List Encoding

/-- `seal_columns`: each column on its own, then one batch of them, which Arrow
refuses when their lengths differ. -/
def sealColumns (columns : List (List Value)) : Except ColumnarError SealedChunk :=
  match columns with
  | [] => .error (.width 1 0)
  | first :: _ => do
    let arrays ← columns.mapM fun column => buildColumn (pickEncoding column) column
    if arrays.all fun array => array.length = first.length then
      .ok ⟨arrays, columns.map fun column => (pickEncoding column).encoding⟩
    else .error (.arrow "all columns in a record batch must have the same length")

/-- `check_compatible`: whether an array of the type can hold the encoding. -/
def checkCompatible : Encoding → DataType → Bool
  | .null, .null | .bool, .boolean | .i64, .int64 | .u64, .uint64 | .f64, .float64 => true
  | .dec, .decimal128 38 _ => true
  | .date, .date32 | .time, .time64Micros => true
  | .ts, .timestampMicros none => true
  | .tsz, .timestampMicros (some _) => true
  | .interval, .intervalMonthDayNano => true
  | .text, .utf8 | .json, .utf8 => true
  | .bytes, .binary | .tagged, .binary => true
  | _, _ => false

/-- The hours and minutes of `HH`, `HHMM` or `HH:MM`. -/
def zoneParts : List Char → Option (Int × Int)
  | [a, b] => do
    let hours ← readSigned 32 [a, b]
    some (hours, 0)
  | [a, b, c, d] => do
    let hours ← readSigned 32 [a, b]
    let minutes ← readSigned 32 [c, d]
    some (hours, minutes)
  | [a, b, ':', c, d] => do
    let hours ← readSigned 32 [a, b]
    let minutes ← readSigned 32 [c, d]
    some (hours, minutes)
  | _ => none

def zoneSeconds (sign : Int) (digits : List Char) : Option Int32 := do
  let (hours, minutes) ← zoneParts digits
  if hours > 23 ∨ minutes > 59 then none else some (Int32.ofInt (sign * (hours * 3600 + minutes * 60)))

/-- `offset_of`: the seconds of `±HH`, `±HHMM` or `±HH:MM`. -/
def offsetOf (zone : String) : Option Int32 :=
  match zone.toList with
  | '+' :: digits => zoneSeconds 1 digits
  | '-' :: digits => zoneSeconds (-1) digits
  | _ => none

/-- A cell: NULL where the validity bit is not set. -/
def readSlot (read : α → Except ColumnarError Value) : Option α → Except ColumnarError Value
  | none => .ok .null
  | some cell => read cell

/-- The cell of an array at a row. The source panics on a row past the end. -/
def readCell (cells : List (Option α)) (row : Nat) (read : α → Except ColumnarError Value) :
    Except ColumnarError Value := readSlot read cells[row]?.join

def readBlob (blob : List UInt8) : Except ColumnarError Value := do
  let (value, reader) ← decodeValue (.ofBlob blob)
  if reader.isEmpty then .ok value else .error (.corrupt "trailing bytes")

/-- `value_at`: one cell as a value. -/
def valueAt (array : ArrowArray) (encoding : Encoding) (row : Nat) : Except ColumnarError Value :=
  if !checkCompatible encoding array.dataType then .error (.mismatch encoding array.dataType)
  else match encoding, array with
    | .null, .null _ => .ok .null
    | .bool, .boolean cells => readCell cells row fun flag => .ok (.bool flag)
    | .i64, .int64 cells => readCell cells row fun number => .ok (.int number)
    | .u64, .uint64 cells => readCell cells row fun number => .ok (.uint number)
    | .f64, .float64 cells => readCell cells row fun bits => .ok (.float bits)
    | .dec, .decimal128 _ scale cells => readCell cells row fun unscaled => .ok (.decimal unscaled scale.toUInt8)
    | .date, .date32 cells => readCell cells row fun days => .ok (.date days)
    | .time, .time64Micros cells => readCell cells row fun micros => .ok (.time micros)
    | .ts, .timestampMicros _ cells => readCell cells row fun micros => .ok (.timestamp micros none)
    | .tsz, .timestampMicros (some zone) cells => readCell cells row fun micros =>
      match offsetOf zone with
      | some offset => .ok (.timestamp micros (some offset))
      | none => .error (.corrupt s!"bad column zone {zone}")
    | .interval, .intervalMonthDayNano cells => readCell cells row fun part =>
      .ok (.interval ⟨part.months, part.days, part.nanoseconds / 1000⟩)
    | .text, .utf8 cells => readCell cells row fun text => .ok (.text text)
    | .json, .utf8 cells => readCell cells row fun text => .ok (.json text)
    | .bytes, .binary cells => readCell cells row fun bytes => .ok (.bytes bytes)
    | .tagged, .binary cells => readCell cells row readBlob
    | _, _ => .error (.mismatch encoding array.dataType)

theorem two_digits (small : n < 100) : ∃ a b, padded 2 n = [a, b] := by
  have length : (padded 2 n).length = 2 := length_padded (by decide) small
  match printed : padded 2 n, length with
  | [a, b], _ => exact ⟨a, b, rfl⟩

theorem many_digits (large : 100 ≤ n) : 2 < (padded 2 n).length := by
  have long : 2 < (Nat.toDigits 10 n).length := by
    by_contra short
    have small := (Nat.length_toDigits_le_iff (by decide : 1 < 10) (by decide)).mp (Nat.le_of_not_lt short)
    omega
  rw [padded, List.length_append]
  omega

theorem signed_two (small : n < 100) (printed : padded 2 n = [a, b]) : readSigned 32 [a, b] = some (n : Int) := by
  rw [← printed]
  exact signed_padded (Nat.lt_trans small (by decide))

theorem zoneParts_long (long : 5 < digits.length) : zoneParts digits = none := by
  unfold zoneParts
  split
  · exact absurd long (by simp)
  · exact absurd long (by simp)
  · exact absurd long (by simp)
  · rfl

theorem zoneParts_padded (hours : Nat) (minutesSmall : minutes < 100) :
    zoneParts (padded 2 hours ++ ':' :: padded 2 minutes) =
      if hours < 100 then some ((hours : Int), (minutes : Int)) else none := by
  obtain ⟨c, d, minuteDigits⟩ := two_digits minutesSmall
  by_cases hoursSmall : hours < 100
  · obtain ⟨a, b, hourDigits⟩ := two_digits hoursSmall
    rw [if_pos hoursSmall, hourDigits, minuteDigits]
    change (do
      let hours ← readSigned 32 [a, b]
      let minutes ← readSigned 32 [c, d]
      some (hours, minutes)) = _
    rw [signed_two hoursSmall hourDigits, signed_two minutesSmall minuteDigits]
    rfl
  · -- Three digits of hours make the text too long for the reader.
    have hourDigits := many_digits (Nat.le_of_not_lt hoursSmall)
    rw [if_neg hoursSmall, minuteDigits]
    apply zoneParts_long
    rw [List.length_append, List.length_cons, List.length_cons, List.length_singleton]
    omega

/-- The reader takes the zone of every whole-minute offset under a day, and of no other. -/
theorem offsetOf_formatTz (whole : offset.toInt % 60 = 0) :
    offsetOf (formatTz offset) = if offset.toInt.natAbs < 86400 then some offset else none := by
  have minutesSmall : offset.toInt.natAbs % 3600 / 60 < 100 := by omega
  have parts := zoneParts_padded (offset.toInt.natAbs / 3600) minutesSmall
  have seconds : ∀ sign : Int, offset.toInt = sign * offset.toInt.natAbs →
      zoneSeconds sign (padded 2 (offset.toInt.natAbs / 3600) ++ ':' :: padded 2 (offset.toInt.natAbs % 3600 / 60)) =
        if offset.toInt.natAbs < 86400 then some offset else none := by
    intro sign signed
    have total : ((offset.toInt.natAbs / 3600 : Nat) : Int) * 3600 + (offset.toInt.natAbs % 3600 / 60 : Nat) * 60 =
        offset.toInt.natAbs := by omega
    rw [zoneSeconds, parts]
    split
    · change (if _ then none else some (Int32.ofInt (sign * (_ + _)))) = _
      rw [total, ← signed, Int32.ofInt_toInt]
      split <;> split <;> first | rfl | omega
    · next large => rw [if_neg (by omega)]; rfl
  have negative : offset < 0 ↔ offset.toInt < 0 := Int32.lt_iff_toInt_lt
  unfold offsetOf formatTz
  rw [String.toList_ofList]
  by_cases below : offset < 0
  · have sign := negative.mp below
    rw [if_pos below]
    exact seconds (-1) (by omega)
  · have sign := mt negative.mpr below
    rw [if_neg below]
    exact seconds 1 (by omega)

theorem single_none (same : single cell = none) : cell = .null := by
  unfold single at same
  split at same <;> first | rfl | cases same | (split at same <;> cases same)

/-- A cell that a column of one kind may hold. -/
def Allows (kind : ColumnKind) (value : Value) : Prop := single value = none ∨ single value = some kind

theorem fold_kind (cells : List Value) (start : Option ColumnKind) (kind : ColumnKind) (plain : kind ≠ .tagged)
    (picked : cells.foldl addKind start = some kind) :
    (start = none ∨ start = some kind) ∧ ∀ value ∈ cells, Allows kind value := by
  induction cells generalizing start with
  | nil => exact ⟨.inr picked, fun _ inside => absurd inside List.not_mem_nil⟩
  | cons value cells ih =>
    obtain ⟨next, later⟩ := ih (addKind start value) picked
    have first : (start = none ∨ start = some kind) ∧ Allows kind value := by
      unfold addKind at next
      cases own : single value with
      | none =>
        simp only [own] at next
        exact ⟨next, .inl own⟩
      | some mine =>
        cases start with
        | none =>
          simp only [own, reduceCtorEq, false_or] at next
          exact ⟨.inl rfl, .inr (own.trans next)⟩
        | some current =>
          simp only [own, reduceCtorEq, false_or, Option.some.injEq] at next
          unfold mergeKinds at next
          split at next
          · next same =>
            subst same next
            exact ⟨.inr rfl, .inr own⟩
          · exact absurd next.symm plain
    exact ⟨first.1, List.forall_mem_cons.mpr ⟨first.2, later⟩⟩

theorem fold_allowed (cells : List Value) (start : Option ColumnKind) (started : start = none ∨ start = some kind)
    (allowed : ∀ value ∈ cells, Allows kind value) :
    cells.foldl addKind start = none ∨ cells.foldl addKind start = some kind := by
  induction cells generalizing start with
  | nil => exact started
  | cons value cells ih =>
    obtain ⟨first, later⟩ := List.forall_mem_cons.mp allowed
    apply ih _ _ later
    unfold addKind
    rcases first with own | own
    · simp only [own]
      exact started
    · rcases started with rfl | rfl
      · simp only [own, or_true]
      · simp only [own, mergeKinds, if_true, or_true]

theorem fold_some (cells : List Value) (start : Option ColumnKind) (started : start ≠ none) :
    cells.foldl addKind start ≠ none := by
  induction cells generalizing start with
  | nil => exact started
  | cons value cells ih =>
    apply ih
    unfold addKind
    cases start with
    | none => exact absurd rfl started
    | some current => cases single value <;> exact Option.some_ne_none _

theorem fold_none (cells : List Value) (picked : cells.foldl addKind none = none) :
    ∀ cell ∈ cells, single cell = none := by
  induction cells with
  | nil => exact fun _ inside => absurd inside List.not_mem_nil
  | cons cell cells ih =>
    rw [List.foldl_cons] at picked
    cases own : single cell with
    | none =>
      have unchanged : addKind none cell = none := by simp only [addKind, own]
      rw [unchanged] at picked
      exact List.forall_mem_cons.mpr ⟨own, ih picked⟩
    | some kind =>
      have left : addKind none cell ≠ none := by
        simp only [addKind, own]
        exact Option.some_ne_none kind
      exact absurd picked (fold_some cells _ left)

/-- The cells that are not NULL are all of one kind, and that kind has a typed array. -/
def Alike (column : List Value) : Prop := ∃ kind, kind ≠ .tagged ∧ ∀ cell ∈ column, Allows kind cell

/-- A column is stored in a typed array exactly when its cells are alike. -/
theorem pick_tagged_iff (column : List Value) : pickEncoding column = .tagged ↔ ¬Alike column := by
  unfold pickEncoding
  constructor
  · rintro tagged ⟨kind, plain, allowed⟩
    rcases fold_allowed column none (.inl rfl) allowed with none | some
    · rw [none] at tagged
      cases tagged
    · rw [some] at tagged
      exact plain tagged
  · intro mixed
    by_contra plain
    cases picked : column.foldl addKind none with
    | none =>
      exact mixed ⟨.null, ColumnKind.noConfusion, fun cell inside => .inl (fold_none column picked cell inside)⟩
    | some kind =>
      rw [picked] at plain
      exact mixed ⟨kind, plain, (fold_kind column none kind plain picked).2⟩

theorem pick_allows (plain : pickEncoding column ≠ .tagged) (inside : cell ∈ column) :
    Allows (pickEncoding column) cell := by
  unfold pickEncoding at plain ⊢
  cases picked : column.foldl addKind none with
  | none => exact .inl (fold_none column picked cell inside)
  | some kind =>
    rw [picked] at plain
    exact (fold_kind column none kind plain picked).2 cell inside

/-- A column's kind is that of one of its cells, unless they are all NULL. -/
theorem pick_some (there : pickEncoding column ≠ .null) (plain : pickEncoding column ≠ .tagged) :
    ∃ cell ∈ column, single cell = some (pickEncoding column) := by
  by_contra absent
  push Not at absent
  have empty : column.foldl addKind none = none ∨ column.foldl addKind none = some .null := by
    apply fold_allowed column none (.inl rfl)
    intro cell inside
    exact .inl ((pick_allows plain inside).resolve_right (absent cell inside))
  apply there
  unfold pickEncoding
  rcases empty with same | same <;> rw [same] <;> rfl

theorem readCell_at {read : α → Except ColumnarError Value} (place : cells[row]? = some cell) :
    readCell cells row read = readSlot read cell := by
  rw [readCell, place]
  rfl

theorem readCell_map {column : List Value} {extract : Value → Option α} {read : α → Except ColumnarError Value}
    (place : column[row]? = some cell) : readCell (column.map extract) row read = readSlot read (extract cell) := by
  apply readCell_at
  rw [List.getElem?_map, place]
  rfl

theorem decimalArray_ok (built : decimalArray scale cells = .ok array) : array = .decimal128 38 scale cells := by
  unfold decimalArray at built
  split at built
  · cases built
  · exact (Except.ok.inj built).symm

theorem null_reads (built : buildColumn kind column = .ok array) (place : column[row]? = some .null) :
    valueAt array kind.encoding row = .ok .null := by
  cases kind with
  | null =>
    cases built
    rfl
  | dec scale =>
    obtain rfl := decimalArray_ok built
    exact readCell_map place
  | interval =>
    obtain ⟨cells, ran, done⟩ := bind_ok_iff.mp built
    cases done
    obtain ⟨cell, step, there⟩ := mapM_get ran place
    cases step
    exact readCell_at there
  | tagged =>
    obtain ⟨cells, ran, done⟩ := bind_ok_iff.mp built
    cases done
    obtain ⟨cell, step, there⟩ := mapM_get ran place
    cases step
    exact readCell_at there
  | _ =>
    cases built
    exact readCell_map place

theorem toNanos_back (written : toNanos micros = .ok nanos) : nanos / 1000 = micros := by
  unfold toNanos at written
  split at written
  · cases written
  · next fits =>
    cases written
    have inside : -2 ^ 63 ≤ micros.toInt * 1000 ∧ micros.toInt * 1000 < 2 ^ 63 := by
      rw [nanosOverflow, decide_eq_true_eq, not_or, Int.not_lt, Int.not_le] at fits
      exact fits
    have thousand : (1000 : Int64) ≠ -1 := by decide
    apply Int64.toInt_inj.mp
    rw [Int64.toInt_div_of_ne_right _ _ thousand, Int64.toInt_ofInt_of_le inside.1 inside.2]
    exact Int.mul_tdiv_cancel _ (by decide)

/-- The kinds whose cells the reader takes: all but a zone of a day or more. -/
def Readable : ColumnKind → Prop
  | .tsz offset => offset.toInt.natAbs < 86400
  | _ => True

private theorem reads_of {result : Except ColumnarError Value} (reads : result = .ok cell) (readable : p) :
    result = .ok found ↔ p ∧ cell = found := by
  rw [reads, Except.ok.injEq]
  exact (and_iff_right readable).symm

/-- A cell of a typed array reads back as itself when its zone is one the reader
takes, and not at all otherwise. -/
theorem typed_reads (plain : kind ≠ .tagged) (same : single cell = some kind)
    (built : buildColumn kind column = .ok array) (place : column[row]? = some cell) :
    valueAt array kind.encoding row = .ok found ↔ Readable kind ∧ cell = found := by
  cases cell with
  | null => cases same
  | decimal unscaled scale =>
    change (if _ then some ColumnKind.tagged else some (.dec scale)) = _ at same
    split at same
    · cases same
      exact absurd rfl plain
    · cases same
      obtain rfl := decimalArray_ok built
      refine reads_of ((readCell_map place).trans ?_) trivial
      exact congrArg (fun scale => Except.ok (Value.decimal unscaled scale)) (by simp)
  | timestamp micros offset =>
    cases offset with
    | none =>
      cases same
      cases built
      exact reads_of (readCell_map place) trivial
    | some offset =>
      change (if offset.toInt % 60 = 0 then some (ColumnKind.tsz offset) else some .tagged) = _ at same
      split at same
      · next whole =>
        cases same
        cases built
        change readCell _ row _ = _ ↔ offset.toInt.natAbs < 86400 ∧ _
        rw [readCell_map place, readSlot, offsetOf_formatTz whole]
        by_cases day : offset.toInt.natAbs < 86400
        · rw [if_pos day]
          exact reads_of rfl day
        · rw [if_neg day]
          exact iff_of_false (fun failed => by cases failed) fun both => day both.1
      · cases same
        exact absurd rfl plain
  | interval interval =>
    change (if _ then some ColumnKind.tagged else some .interval) = _ at same
    split at same
    · cases same
      exact absurd rfl plain
    · cases same
      obtain ⟨cells, ran, done⟩ := bind_ok_iff.mp built
      cases done
      obtain ⟨slot, step, there⟩ := mapM_get ran place
      obtain ⟨nanos, written, step⟩ := bind_ok_iff.mp step
      cases step
      refine reads_of ((readCell_at there).trans ?_) trivial
      rw [readSlot, toNanos_back written]
  | array items =>
    cases same
    exact absurd rfl plain
  | row fields =>
    cases same
    exact absurd rfl plain
  | map pairs =>
    cases same
    exact absurd rfl plain
  | unknown typeName text raw =>
    cases same
    exact absurd rfl plain
  | _ =>
    cases same
    cases built
    exact reads_of (readCell_map place) trivial

theorem tagged_stored (there : cell ≠ .null) (built : buildColumn .tagged column = .ok array)
    (place : column[row]? = some cell) :
    ∃ blob, encodeValue cell = .ok blob ∧ valueAt array .tagged row = readBlob blob := by
  obtain ⟨cells, ran, done⟩ := bind_ok_iff.mp built
  cases done
  obtain ⟨slot, step, stored⟩ := mapM_get ran place
  have written : ∃ blob, encodeValue cell = .ok blob ∧ slot = some blob := by
    cases cell with
    | null => exact absurd rfl there
    | _ =>
      obtain ⟨blob, written, step⟩ := bind_ok_iff.mp step
      cases step
      exact ⟨blob, written, rfl⟩
  obtain ⟨blob, written, rfl⟩ := written
  exact ⟨blob, written, readCell_at stored⟩

theorem tagged_reads (there : cell ≠ .null) (built : buildColumn .tagged column = .ok array)
    (place : column[row]? = some cell) : valueAt array .tagged row = .ok cell ↔ fits cell := by
  obtain ⟨blob, written, stored⟩ := tagged_stored there built place
  rw [stored, readBlob, bind_ok_iff]
  constructor
  · rintro ⟨⟨found, reader⟩, decoded, ended⟩
    dsimp only at ended
    split at ended
    · cases ended
      exact ((decodeValue_blob written).mp decoded).1
    · cases ended
  · intro kept
    exact ⟨_, (decodeValue_blob written).mpr ⟨kept, rfl⟩, rfl⟩

theorem single_tsz_iff :
    single cell = some (.tsz offset) ↔ offset.toInt % 60 = 0 ∧ ∃ micros, cell = .timestamp micros (some offset) := by
  constructor
  · intro same
    unfold single at same
    split at same <;> first | cases same | skip
    · split at same <;> cases same
    · split at same
      · next whole =>
        cases same
        exact ⟨whole, _, rfl⟩
      · cases same
    · split at same <;> cases same
  · rintro ⟨whole, micros, rfl⟩
    exact if_pos whole

/-- Every cell that is not NULL is a timestamp at this offset, and one is. -/
def AllAt (offset : Int32) (column : List Value) : Prop :=
  (∃ micros, .timestamp micros (some offset) ∈ column) ∧
    ∀ cell ∈ column, cell = .null ∨ ∃ micros, cell = .timestamp micros (some offset)

/-- A column's values come back: no shared zone reaches a day, and cells that are
not alike fit their blobs. -/
def Recoverable (column : List Value) : Prop :=
  (∀ offset, offset.toInt % 60 = 0 → AllAt offset column → offset.toInt.natAbs < 86400) ∧
    (¬Alike column → ∀ cell ∈ column, fits cell)

theorem allAt_allows (whole : offset.toInt % 60 = 0) (all : AllAt offset column) :
    ∀ cell ∈ column, Allows (.tsz offset) cell := by
  intro cell inside
  rcases all.2 cell inside with rfl | stamped
  · exact .inl rfl
  · exact .inr (single_tsz_iff.mpr ⟨whole, stamped⟩)

theorem tagged_column_reads (mixed : ¬Alike column) (built : buildColumn .tagged column = .ok array) :
    (∀ row cell, column[row]? = some cell → valueAt array .tagged row = .ok cell) ↔ Recoverable column := by
  have fitsAlone : (∀ row cell, column[row]? = some cell → valueAt array .tagged row = .ok cell) ↔
      ∀ cell ∈ column, fits cell := by
    constructor
    · intro reads cell inside
      by_cases there : cell = .null
      · rw [there]
        rfl
      · obtain ⟨row, place⟩ := List.mem_iff_getElem?.mp inside
        exact (tagged_reads there built place).mp (reads row cell place)
    · intro kept row cell place
      by_cases there : cell = .null
      · subst there
        exact null_reads built place
      · exact (tagged_reads there built place).mpr (kept cell (List.mem_of_getElem? place))
  rw [fitsAlone]
  constructor
  · intro kept
    refine ⟨fun offset whole all => ?_, fun _ => kept⟩
    exact absurd ⟨.tsz offset, ColumnKind.noConfusion, allAt_allows whole all⟩ mixed
  · exact fun recoverable => recoverable.2 mixed

theorem typed_column_reads (plain : pickEncoding column ≠ .tagged)
    (built : buildColumn (pickEncoding column) column = .ok array) :
    (∀ row cell, column[row]? = some cell → valueAt array (pickEncoding column).encoding row = .ok cell) ↔
      Recoverable column := by
  have alike : Alike column := by
    by_contra mixed
    exact plain ((pick_tagged_iff column).mpr mixed)
  constructor
  · intro reads
    refine ⟨fun offset whole all => ?_, fun mixed => absurd alike mixed⟩
    obtain ⟨micros, inside⟩ := all.1
    obtain ⟨row, place⟩ := List.mem_iff_getElem?.mp inside
    have zoned : single (.timestamp micros (some offset)) = some (.tsz offset) :=
      single_tsz_iff.mpr ⟨whole, micros, rfl⟩
    have picked : pickEncoding column = .tsz offset := by
      rcases pick_allows plain inside with own | own
      · rw [zoned] at own
        cases own
      · exact Option.some.inj (own.symm.trans zoned)
    have readable := ((typed_reads plain (picked ▸ zoned) built place).mp (reads row _ place)).1
    rw [picked] at readable
    exact readable
  · intro recoverable row cell place
    have inside := List.mem_of_getElem? place
    rcases pick_allows plain inside with own | own
    · obtain rfl := single_none own
      exact null_reads built place
    · refine (typed_reads plain own built place).mpr ⟨?_, rfl⟩
      cases picked : pickEncoding column with
      | tsz offset =>
        rw [picked] at own
        obtain ⟨whole, micros, rfl⟩ := single_tsz_iff.mp own
        apply recoverable.1 offset whole ⟨⟨micros, inside⟩, fun other there => ?_⟩
        have allows := pick_allows plain there
        rw [picked] at allows
        exact allows.imp single_none fun own => (single_tsz_iff.mp own).2
      | _ => trivial

theorem column_reads (built : buildColumn (pickEncoding column) column = .ok array) :
    (∀ row cell, column[row]? = some cell → valueAt array (pickEncoding column).encoding row = .ok cell) ↔
      Recoverable column := by
  by_cases tagged : pickEncoding column = .tagged
  · have mixed := (pick_tagged_iff column).mp tagged
    rw [tagged] at built ⊢
    exact tagged_column_reads mixed built
  · exact typed_column_reads tagged built

def Returns (chunk : SealedChunk) (c row : Nat) (cell : Value) : Prop :=
  ∃ array encoding, chunk.batch[c]? = some array ∧ chunk.encodings[c]? = some encoding ∧
    valueAt array encoding row = .ok cell

/-- Every cell that was pushed is what the chunk returns in its place. -/
def Lossless (columns : List (List Value)) (chunk : SealedChunk) : Prop :=
  ∀ c column row cell, columns[c]? = some column → column[row]? = some cell → Returns chunk c row cell

theorem sealed_column {c : Nat} (sealed : sealColumns columns = .ok chunk) (place : columns[c]? = some column) :
    ∃ array, buildColumn (pickEncoding column) column = .ok array ∧ chunk.batch[c]? = some array ∧
      chunk.encodings[c]? = some (pickEncoding column).encoding := by
  cases columns with
  | nil => cases sealed
  | cons first rest =>
    obtain ⟨arrays, ran, sealed⟩ := bind_ok_iff.mp sealed
    obtain ⟨array, built, there⟩ := mapM_get ran place
    split at sealed
    · cases sealed
      refine ⟨array, built, there, ?_⟩
      rw [List.getElem?_map, place]
      rfl
    · cases sealed

/-- Sealing loses nothing exactly when every column is recoverable. -/
theorem sealed_lossless_iff (sealed : sealColumns columns = .ok chunk) :
    Lossless columns chunk ↔ ∀ column ∈ columns, Recoverable column := by
  constructor
  · intro lossless column inside
    obtain ⟨c, place⟩ := List.mem_iff_getElem?.mp inside
    obtain ⟨array, built, batch, encodings⟩ := sealed_column sealed place
    apply (column_reads built).mp
    intro row cell there
    obtain ⟨found, encoding, inBatch, inEncodings, reads⟩ := lossless c column row cell place there
    rw [batch] at inBatch
    rw [encodings] at inEncodings
    cases inBatch
    cases inEncodings
    exact reads
  · intro recoverable c column row cell place there
    obtain ⟨array, built, batch, encodings⟩ := sealed_column sealed place
    have reads := (column_reads built).mpr (recoverable column (List.mem_of_getElem? place))
    exact ⟨array, _, batch, encodings, reads row cell there⟩

/-- A column of numbers beside one of mixed cells. -/
theorem sealed_lossless_at :
    Lossless [[.int 5, .null], [.bool true, .int 7]]
      ⟨[.int64 [some 5, none], .binary [some [1, 1], some [2, 7, 0, 0, 0, 0, 0, 0, 0]]], [.i64, .tagged]⟩ := by
  apply (sealed_lossless_iff rfl).mpr
  have noZone : ∀ (column : List Value), (∀ micros offset, .timestamp micros (some offset) ∉ column) →
      ∀ offset, offset.toInt % 60 = 0 → AllAt offset column → offset.toInt.natAbs < 86400 := by
    intro column plain offset _ all
    obtain ⟨micros, inside⟩ := all.1
    exact absurd inside (plain micros offset)
  refine List.forall_mem_cons.mpr ⟨⟨noZone _ (by simp), fun _ cell inside => ?_⟩,
    List.forall_mem_singleton.mpr ⟨noZone _ (by simp), fun _ cell inside => ?_⟩⟩
  all_goals
    rcases List.mem_pair.mp inside with rfl | rfl <;> rfl

/-- A zone of a whole day is written as `+24:00`, which the reader refuses. -/
theorem day_zone_lost :
    ¬∀ columns chunk, sealColumns columns = .ok chunk → Lossless columns chunk := by
  intro always
  obtain ⟨array, encoding, batch, encodings, reads⟩ :=
    always [[.timestamp 0 (some 86400)]] _ rfl 0 [.timestamp 0 (some 86400)] 0 _ rfl rfl
  cases batch
  cases encodings
  change (match offsetOf (formatTz 86400) with
    | some offset => Except.ok (Value.timestamp 0 (some offset))
    | none => Except.error (ColumnarError.corrupt s!"bad column zone {formatTz 86400}")) = _ at reads
  rw [offsetOf_formatTz (by decide)] at reads
  cases reads

end QueryHive.Columnar
