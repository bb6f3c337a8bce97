import QueryHive.Core.Calendar
import QueryHive.Driver.Fields

/-! What MySQL sent, turned into a value. The text protocol sends every value as
bytes and the binary protocol sends integers, dates and times in their own
variants; the decoder keys off the column's type so that both land in the same
place. They do, except for an unsigned number that a signed one can hold and for
a date with a zero part that carries a declared fraction. -/
namespace QueryHive.Driver.Mysql
open QueryHive.Library.Numeral QueryHive.Library.Text QueryHive.Store
open QueryHive.Core (daysFromCivil)

/-- `ColumnType`, without the `MYSQL_TYPE_` before each name. -/
inductive ColumnType where
  | decimal | tiny | short | long | float | double | null | timestamp | longlong | int24 | date | time
  | datetime | year | newdate | varchar | bit | timestamp2 | datetime2 | time2 | typedArray | vector
  | unknown | json | newdecimal | enum | set | tinyBlob | mediumBlob | longBlob | blob | varString
  | string | geometry
  deriving DecidableEq, Repr

/-- `mysql_async::Value`. A float is kept by its bits. -/
inductive MyValue where
  | null
  | bytes (bytes : List UInt8)
  | int (number : Int64)
  | uint (number : UInt64)
  | float (bits : UInt32)
  | double (bits : UInt64)
  | date (year : UInt16) (month day hour minute second : UInt8) (micros : UInt32)
  | time (negative : Bool) (days : UInt32) (hours minutes seconds : UInt8) (micros : UInt32)

/-- The float operations of the language, on bits. -/
structure Floats where
  parse : String → Option UInt64
  ofSingle : UInt32 → UInt64
  ofInt : Int64 → UInt64
  ofUInt : UInt64 → UInt64

/-- `YYYY-MM-DD HH:MM:SS`, the form a date that is no real one falls back to. -/
def datetimeText (year month day hour minute second : Nat) : List Char :=
  dateText year month day ++ ' ' :: (padded 2 hour ++ ':' :: (padded 2 minute ++ ':' :: padded 2 second))

/-- `text_or_bytes`: bytes that are not valid UTF-8 stay bytes even in a text column. -/
def textOrBytes (bytes : List UInt8) (isBinary : Bool) : Value :=
  if isBinary then .bytes bytes
  else match fromUtf8 bytes with
    | some text => .text text
    | none => .bytes bytes

/-- `fallback`: a value in a shape the column type did not expect. -/
def fallback (floats : Floats) : MyValue → Value
  | .null => .null
  | .bytes bytes => textOrBytes bytes false
  | .int number => .int number
  | .uint number => .uint number
  | .float bits => .float (floats.ofSingle bits)
  | .double bits => .float bits
  | .date year month day hour minute second _ =>
    .text (.ofList (datetimeText year.toNat month.toNat day.toNat hour.toNat minute.toNat second.toNat))
  | .time negative days hours minutes seconds _ =>
    let clock := padded 2 (days * 24 + hours.toUInt32).toNat ++
      ':' :: (padded 2 minutes.toNat ++ ':' :: padded 2 seconds.toNat)
    .text (.ofList (if negative then '-' :: clock else clock))

/-- `text_or_bytes` on a value of any shape. -/
def asTextOrBytes (floats : Floats) (isBinary : Bool) : MyValue → Value
  | .bytes bytes => textOrBytes bytes isBinary
  | other => fallback floats other

def readText (read : List Char → Option Value) (bytes : List UInt8) : Value :=
  match fromUtf8 bytes with
  | some text => (read text.toList).getD (.text text)
  | none => .bytes bytes

/-- The digits of an integer: `i64` first and `u64` for what only it can hold. -/
def parseInteger (text : List Char) : Option Value :=
  match readSigned 64 text with
  | some number => some (.int (.ofInt number))
  | none => (readUnsigned 64 text).map fun number => .uint (.ofNat number)

def asInteger (floats : Floats) : MyValue → Value
  | .int number => .int number
  | .uint number => .uint number
  | .bytes bytes => readText parseInteger bytes
  | other => fallback floats other

def asFloat (floats : Floats) : MyValue → Value
  | .float bits => .float (floats.ofSingle bits)
  | .double bits => .float bits
  | .int number => .float (floats.ofInt number)
  | .uint number => .float (floats.ofUInt number)
  | .bytes bytes => readText (fun text => (floats.parse (.ofList text)).map .float) bytes
  | other => fallback floats other

def asDecimal (floats : Floats) : MyValue → Value
  | .bytes bytes => readText parseDecimal bytes
  | .int number => .decimal (.ofInt 128 number.toInt) 0
  | .uint number => .decimal (.ofNat 128 number.toNat) 0
  | other => fallback floats other

/-- `(1..=12).contains(&month)` and `(1..=31).contains(&day)`. -/
def realDay (month day : Nat) : Bool := (1 ≤ month && month ≤ 12) && (1 ≤ day && day ≤ 31)

def dateFromParts (year month day : Nat) : Option Value :=
  if !realDay month day then none
  else (toI32 (daysFromCivil year month day)).map .date

/-- `parse_ymd`: the year signed, the month and the day a byte each. -/
def parseYmd (text : List Char) : Option (Int × Nat × Nat) :=
  match splitN (· == '-') 3 (trim text) with
  | year :: month :: day :: _ => do
    let year ← readSigned 64 year
    let month ← readUnsigned 8 month
    let day ← readUnsigned 8 day
    if !realDay month day then none else some (year, month, day)
  | _ => none

def parseDateDays (text : List Char) : Option Int32 := do
  let (year, month, day) ← parseYmd text
  toI32 (daysFromCivil year month day)

def asDate (floats : Floats) : MyValue → Value
  | .date year month day _ _ _ _ =>
    (dateFromParts year.toNat month.toNat day.toNat).getD
      (.text (.ofList (dateText year.toNat month.toNat day.toNat)))
  | .bytes bytes => readText (fun text => (parseDateDays text).map .date) bytes
  | other => fallback floats other

/-- `timestamp_micros`: the microseconds of a wall clock, without its fraction. -/
def timestampMicros (year : Int) (month day hour minute second : Nat) : Option Int :=
  if !realDay month day || hour > 23 || minute > 59 || second > 60 then none
  else
    let days := daysFromCivil year month day
    let seconds : Int := hour * 3600 + minute * 60 + second
    some (days * 86400 * 1000000 + seconds * 1000000)

/-- `parse_timestamp_naive`: a zero date is no date, whatever follows it. -/
def parseTimestampNaive (text : List Char) : Option Int :=
  let text := trim text
  if ['0', '0', '0', '0', '-', '0', '0', '-', '0', '0'].isPrefixOf text then none
  else do
    let (datePart, timePart) ← splitOnce (fun c => c == ' ' || c == 'T') text
    let (year, month, day) ← parseYmd datePart
    match timePart.splitOn ':' with
    | hour :: minute :: secondsField :: _ =>
      let hour ← readUnsigned 8 hour
      let minute ← readUnsigned 8 minute
      let (second, micros) ← parseSeconds (readUnsigned 8) secondsField
      let base ← timestampMicros year month day hour minute second
      some (base + micros)
    | _ => none

def asTimestamp (floats : Floats) : MyValue → Value
  | .date year month day hour minute second subMicros =>
    match timestampMicros year.toNat month.toNat day.toNat hour.toNat minute.toNat second.toNat with
    | some base => .timestamp (.ofInt (base + subMicros.toNat)) none
    | none => .text (.ofList
      (datetimeText year.toNat month.toNat day.toNat hour.toNat minute.toNat second.toNat))
  | .bytes bytes =>
    readText (fun text => (parseTimestampNaive text).map fun micros => .timestamp (.ofInt micros) none) bytes
  | other => fallback floats other

/-- A value that fits in a day is a time; anything else is a duration. -/
def timeOrInterval (total : Int64) : Value :=
  if 0 ≤ total ∧ total < 86400000000 then .time total else .interval ⟨0, 0, total⟩

/-- `parse_time_micros`: the hours of a duration may have three digits. -/
def parseTimeMicros (text : List Char) : Option Int64 := do
  let (negative, rest) := match trim text with
    | '-' :: rest => (true, rest)
    | text => (false, text)
  match rest.splitOn ':' with
  | hours :: minutes :: secondsField :: _ =>
    let hours ← readSigned 64 hours
    let minutes ← readSigned 64 minutes
    let (seconds, micros) ← parseSeconds (readSigned 64) secondsField
    if minutes > 59 || seconds > 60 then none
    else
      let total := Int64.ofInt ((hours * 3600 + minutes * 60 + seconds) * 1000000 + micros)
      some (if negative then -total else total)
  | _ => none

def asTime (floats : Floats) : MyValue → Value
  | .time negative days hours minutes seconds micros =>
    let total := Int64.ofInt
      ((days.toNat * 86400 + hours.toNat * 3600 + minutes.toNat * 60 + seconds.toNat) * 1000000 + micros.toNat)
    timeOrInterval (if negative then -total else total)
  | .bytes bytes => readText (fun text => (parseTimeMicros text).map timeOrInterval) bytes
  | other => fallback floats other

def asBytes (floats : Floats) : MyValue → Value
  | .bytes bytes => .bytes bytes
  | .int number => .bytes (bigEndian number.toUInt64)
  | .uint number => .bytes (bigEndian number)
  | other => fallback floats other
where
  /-- `to_be_bytes`. -/
  bigEndian (number : UInt64) : List UInt8 :=
    [(7 : UInt64), 6, 5, 4, 3, 2, 1, 0].map fun place => (number >>> (8 * place)).toUInt8

def asBytesValue (floats : Floats) : MyValue → Value
  | .bytes bytes => .bytes bytes
  | other => fallback floats other

def asJson (floats : Floats) : MyValue → Value
  | .bytes bytes => match fromUtf8 bytes with
    | some text => .json text
    | none => .bytes bytes
  | other => fallback floats other

/-- `from_value`: one value, given the column type the server reported. -/
def fromValue (floats : Floats) (columnType : ColumnType) (value : Option MyValue) (isBinary : Bool) : Value :=
  match value with
  | none => .null
  | some .null => .null
  | some value =>
    match columnType with
    | .tiny | .short | .int24 | .long | .longlong | .year => asInteger floats value
    | .float | .double => asFloat floats value
    | .decimal | .newdecimal => asDecimal floats value
    | .bit => asBytes floats value
    | .date | .newdate => asDate floats value
    | .datetime | .datetime2 | .timestamp | .timestamp2 => asTimestamp floats value
    | .time | .time2 => asTime floats value
    | .json => asJson floats value
    | .geometry | .vector => asBytesValue floats value
    | _ => asTextOrBytes floats isBinary value

/-- A date as the server stores it: a month or a day may be zero. -/
structure DateParts where
  year : Nat
  month : Nat
  day : Nat
  year_lt : year < 10000
  month_le : month ≤ 12
  day_le : day ≤ 31

/-- A time of day. -/
structure Clock where
  hour : Nat
  minute : Nat
  second : Nat
  hour_lt : hour < 24
  minute_lt : minute < 60
  second_lt : second < 60

/-- A `TIME`: a signed duration of at most 838 hours, 59 minutes and 59 seconds. -/
structure Duration where
  negative : Bool
  hours : Nat
  minute : Nat
  second : Nat
  hours_le : hours ≤ 838
  minute_lt : minute < 60
  second_lt : second < 60

/-- One cell on the server. An unsigned integer has the display width that
ZEROFILL pads it to; a decimal is its sign and its digits before and after the
point. -/
inductive Cell where
  | null
  | signed (value : Int64)
  | unsigned (value : UInt32) (width : Nat)
  | bigUnsigned (value : UInt64) (width : Nat)
  | decimal (negative : Bool) (whole fraction : List Char)
  | bytes (content : List UInt8)
  | date (date : DateParts)
  | datetime (date : DateParts) (clock : Clock) (fraction : Fraction)
  | time (duration : Duration) (fraction : Fraction)

/-- Whether a column of this type can hold the cell. `FLOAT` and `DOUBLE` are left out. -/
def ColumnType.holds : ColumnType → Cell → Bool
  | .float, _ | .double, _ => false
  | _, .null => true
  | .tiny, .signed _ | .short, .signed _ | .int24, .signed _ | .long, .signed _ | .longlong, .signed _ => true
  | .tiny, .unsigned _ _ | .short, .unsigned _ _ | .int24, .unsigned _ _ | .long, .unsigned _ _
  | .year, .unsigned _ _ => true
  | .longlong, .bigUnsigned _ _ => true
  | .decimal, .decimal _ _ _ | .newdecimal, .decimal _ _ _ => true
  | .date, .date _ | .newdate, .date _ => true
  | .datetime, .datetime _ _ _ | .datetime2, .datetime _ _ _ | .timestamp, .datetime _ _ _
  | .timestamp2, .datetime _ _ _ => true
  | .time, .time _ _ | .time2, .time _ _ => true
  | .varchar, .bytes _ | .bit, .bytes _ | .typedArray, .bytes _ | .vector, .bytes _ | .unknown, .bytes _
  | .json, .bytes _ | .enum, .bytes _ | .set, .bytes _ | .tinyBlob, .bytes _ | .mediumBlob, .bytes _
  | .longBlob, .bytes _ | .blob, .bytes _ | .varString, .bytes _ | .string, .bytes _
  | .geometry, .bytes _ => true
  | _, _ => false

/-- The digits of a decimal with its sign and its point. -/
def decimalText (negative : Bool) (whole fraction : List Char) : List Char :=
  (if negative then ['-'] else []) ++ whole ++ (if fraction = [] then [] else '.' :: fraction)

def Cell.text : Cell → List Char
  | .null | .bytes _ => []
  | .signed value => signedText value.toInt
  | .unsigned value width => padded width value.toNat
  | .bigUnsigned value width => padded width value.toNat
  | .decimal negative whole fraction => decimalText negative whole fraction
  | .date parts => dateText parts.year parts.month parts.day
  | .datetime parts clock fraction =>
    dateText parts.year parts.month parts.day ++ ' ' :: clockText clock.hour clock.minute clock.second fraction
  | .time duration fraction =>
    let clock := clockText duration.hours duration.minute duration.second fraction
    if duration.negative then '-' :: clock else clock

/-- What the text protocol sends: the server's text as bytes, or the raw bytes. -/
def textForm : Cell → MyValue
  | .null => .null
  | .bytes content => .bytes content
  | cell => .bytes (utf8 (.ofList cell.text))

def binaryForm : Cell → MyValue
  | .null => .null
  | .signed value => .int value
  | .unsigned value _ => .int (.ofNat value.toNat)
  | .bigUnsigned value _ => .uint value
  | .decimal negative whole fraction => .bytes (utf8 (.ofList (decimalText negative whole fraction)))
  | .bytes content => .bytes content
  | .date date => .date (.ofNat date.year) (.ofNat date.month) (.ofNat date.day) 0 0 0 0
  | .datetime date clock fraction =>
    .date (.ofNat date.year) (.ofNat date.month) (.ofNat date.day) (.ofNat clock.hour) (.ofNat clock.minute)
      (.ofNat clock.second) (.ofNat fraction.micros)
  | .time duration fraction =>
    .time duration.negative (.ofNat (duration.hours / 24)) (.ofNat (duration.hours % 24)) (.ofNat duration.minute)
      (.ofNat duration.second) (.ofNat fraction.micros)

theorem readText_text (read : List Char → Option Value) (text : List Char) :
    readText read (utf8 (.ofList text)) = (read text).getD (.text (.ofList text)) := by
  simp only [readText, fromUtf8_utf8, String.toList_ofList]

/-- Digits that a signed integer can hold are read as one. -/
theorem parseInteger_small (fits : n < 2 ^ 63) : parseInteger (padded width n) = some (.int (.ofNat n)) := by
  rw [parseInteger, signed_padded fits]
  exact congrArg (fun number => some (Value.int number)) Int64.ofInt_eq_ofNat

theorem parseInteger_large (large : 2 ^ 63 ≤ n) (fits : n < 2 ^ 64) :
    parseInteger (padded width n) = some (.uint (.ofNat n)) := by
  have refused : readSigned 64 (padded width n) = none :=
    signed_digits_none (allDigits_padded width n) (by rwa [value_padded])
  rw [parseInteger, refused, unsigned_padded fits]
  rfl

theorem parseInteger_signed (value : Int64) : parseInteger (signedText value.toInt) = some (.int value) := by
  rw [parseInteger, readSigned_text value.le_toInt value.toInt_lt]
  simp

theorem parseYmd_dateText (parts : DateParts) :
    parseYmd (dateText parts.year parts.month parts.day) =
      if !realDay parts.month parts.day then none else some ((parts.year : Int), parts.month, parts.day) := by
  have yearFits : parts.year < 2 ^ (64 - 1) := Nat.lt_trans parts.year_lt (by decide)
  have monthFits : parts.month < 2 ^ 8 := Nat.lt_of_le_of_lt parts.month_le (by decide)
  have dayFits : parts.day < 2 ^ 8 := Nat.lt_of_le_of_lt parts.day_le (by decide)
  rw [parseYmd, trim_of_clear (dateText_not_whitespace _ _ _), dateText_parts]
  simp only [signed_padded yearFits, unsigned_padded monthFits, unsigned_padded dayFits]
  rfl

theorem padded_two_eq (same : padded 2 n = ['0', '0']) : n = 0 := by
  have spelled := value_padded 2 n
  rw [same] at spelled
  exact spelled.symm

theorem zero_date_start (parts : DateParts) (rest : List Char)
    (starts : ['0', '0', '0', '0', '-', '0', '0', '-', '0', '0'].isPrefixOf
      (dateText parts.year parts.month parts.day ++ rest)) : parts.month = 0 := by
  obtain ⟨tail, whole⟩ := List.isPrefixOf_iff_prefix.mp starts
  have yearLength : (padded 4 parts.year).length = 4 := length_padded (by decide) (by have := parts.year_lt; omega)
  have monthLength : (padded 2 parts.month).length = 2 :=
    length_padded (by decide) (by have := parts.month_le; omega)
  have split : padded 4 parts.year ++ ('-' :: (padded 2 parts.month ++ ('-' :: (padded 2 parts.day ++ rest)))) =
      ['0', '0', '0', '0'] ++ ('-' :: (['0', '0'] ++ ('-' :: ('0' :: '0' :: tail)))) := by
    simpa [dateText] using whole.symm
  have afterYear := (List.append_inj split (by rw [yearLength]; rfl)).2
  have month := (List.append_inj (List.cons.inj afterYear).2 (by rw [monthLength]; rfl)).1
  exact padded_two_eq month

theorem datetime_trim (parts : DateParts) (clock : Clock) (fraction : Fraction) :
    trim (Cell.text (.datetime parts clock fraction)) = Cell.text (.datetime parts clock fraction) := by
  obtain ⟨first, rest, front, digit⟩ := dateText_cons parts.year parts.month parts.day
  obtain ⟨start, last, back, final⟩ := clockText_concat clock.hour clock.minute clock.second fraction
  apply trim_between_digits
  · exact ⟨first, _, by rw [Cell.text, front, List.cons_append], digit_not_whitespace digit⟩
  · exact ⟨_, last, by rw [Cell.text, back, ← List.cons_append, ← List.append_assoc], final⟩

theorem parseTimestamp_text (parts : DateParts) (clock : Clock) (fraction : Fraction) :
    parseTimestampNaive (Cell.text (.datetime parts clock fraction)) =
      (timestampMicros parts.year parts.month parts.day clock.hour clock.minute clock.second).map
        (· + (fraction.micros : Int)) := by
  have hourFits : clock.hour < 2 ^ 8 := Nat.lt_trans clock.hour_lt (by decide)
  have minuteFits : clock.minute < 2 ^ 8 := Nat.lt_trans clock.minute_lt (by decide)
  have secondFits : clock.second < 2 ^ 8 := Nat.lt_trans clock.second_lt (by decide)
  have clear := dateText_no_break parts.year parts.month parts.day
  unfold parseTimestampNaive
  simp only [datetime_trim]
  by_cases real : realDay parts.month parts.day
  · have notZero : ¬['0', '0', '0', '0', '-', '0', '0', '-', '0', '0'].isPrefixOf
        (Cell.text (.datetime parts clock fraction)) := by
      intro starts
      have month := zero_date_start parts _ starts
      simp [realDay, month] at real
    rw [if_neg notZero]
    simp only [Cell.text, splitOnce_at clear (rfl : (' ' == ' ' || ' ' == 'T') = true),
      Option.bind_eq_bind, Option.bind_some, parseYmd_dateText, real, Bool.not_true, Bool.false_eq_true, if_false,
      clockText_fields,
      unsigned_padded hourFits, unsigned_padded minuteFits, parseSeconds_text fraction (unsigned_padded secondFits)]
    cases timestampMicros parts.year parts.month parts.day clock.hour clock.minute clock.second <;> rfl
  · have refused : timestampMicros parts.year parts.month parts.day clock.hour clock.minute clock.second = none := by
      simp [timestampMicros, real]
    have unread : parseYmd (dateText parts.year parts.month parts.day) = none := by
      rw [parseYmd_dateText, if_pos (by simpa using real)]
    simp only [Cell.text, splitOnce_at clear (rfl : (' ' == ' ' || ' ' == 'T') = true), Option.bind_eq_bind,
      Option.bind_some, unread, refused, Option.bind_none, ite_self, Option.map_none]

theorem parseTime_text (duration : Duration) (fraction : Fraction) :
    parseTimeMicros (Cell.text (.time duration fraction)) =
      let total := Int64.ofInt
        ((duration.hours * 3600 + duration.minute * 60 + duration.second) * 1000000 + fraction.micros)
      some (if duration.negative then -total else total) := by
  have hoursFit : duration.hours < 2 ^ (64 - 1) := Nat.lt_of_le_of_lt duration.hours_le (by decide)
  have minuteFits : duration.minute < 2 ^ (64 - 1) := Nat.lt_trans duration.minute_lt (by decide)
  have secondFits : duration.second < 2 ^ (64 - 1) := Nat.lt_trans duration.second_lt (by decide)
  have inRange : (decide ((duration.minute : Int) > 59) || decide ((duration.second : Int) > 60)) = false := by
    have minute := duration.minute_lt
    have second := duration.second_lt
    simp only [Bool.or_eq_false_iff, decide_eq_false_iff_not]
    omega
  have unsigned : duration.negative = false →
      trim (Cell.text (.time duration fraction)) =
        clockText duration.hours duration.minute duration.second fraction := by
    intro sign
    obtain ⟨first, rest, front, digit⟩ := clockText_cons duration.hours duration.minute duration.second fraction
    simp only [Cell.text, sign, Bool.false_eq_true, if_false]
    exact trim_between_digits ⟨first, rest, front, digit_not_whitespace digit⟩ (clockText_concat _ _ _ _)
  have negated : duration.negative = true →
      trim (Cell.text (.time duration fraction)) =
        '-' :: clockText duration.hours duration.minute duration.second fraction := by
    intro sign
    obtain ⟨start, last, back, final⟩ := clockText_concat duration.hours duration.minute duration.second fraction
    simp only [Cell.text, sign, if_true]
    exact trim_between_digits ⟨'-', _, rfl, by decide⟩ ⟨'-' :: start, last, by rw [back, List.cons_append], final⟩
  have fields : parseSeconds (readSigned 64) (padded 2 duration.second ++ fraction.text) =
      some ((duration.second : Int), (fraction.micros : Int)) := parseSeconds_text fraction (signed_padded secondFits)
  unfold parseTimeMicros
  cases sign : duration.negative with
  | false =>
    obtain ⟨first, rest, front, digit⟩ := clockText_cons duration.hours duration.minute duration.second fraction
    have plain : (match clockText duration.hours duration.minute duration.second fraction with
        | '-' :: rest => (true, rest)
        | text => (false, text)) = (false, clockText duration.hours duration.minute duration.second fraction) := by
      rw [front]
      split
      · next dash => exact absurd digit (by simp [(List.cons.inj dash).1])
      · rfl
    rw [unsigned sign, plain]
    simp only [clockText_fields, signed_padded hoursFit, signed_padded minuteFits, fields, Option.bind_eq_bind,
      Option.bind_some, inRange, Bool.false_eq_true, if_false]
  | true =>
    rw [negated sign]
    simp only [clockText_fields, signed_padded hoursFit, signed_padded minuteFits, fields, Option.bind_eq_bind,
      Option.bind_some, inRange, Bool.false_eq_true, if_false, if_true]

theorem UInt8_small (fits : n < 256) : (UInt8.ofNat n).toNat = n := by
  rw [UInt8.toNat_ofNat']
  exact Nat.mod_eq_of_lt fits

/-- An unsigned 64-bit number has to be one that a signed number cannot hold, and
a date with a zero month or day must not have a declared fraction. -/
def Cell.SameFromEither : Cell → Prop
  | .bigUnsigned value _ => 2 ^ 63 ≤ value.toNat
  | .datetime parts _ fraction => fraction.digits = 0 ∨ (parts.month ≠ 0 ∧ parts.day ≠ 0)
  | _ => True

/-- Both protocols spell a signed integer, and an unsigned one of up to 32 bits, alike. -/
theorem signed_same (floats : Floats) (value : Int64) :
    asInteger floats (textForm (.signed value)) = asInteger floats (binaryForm (.signed value)) := by
  change readText parseInteger (utf8 (.ofList (signedText value.toInt))) = .int value
  rw [readText_text, parseInteger_signed, Option.getD_some]

theorem unsigned_same (floats : Floats) (value : UInt32) (width : Nat) :
    asInteger floats (textForm (.unsigned value width)) = asInteger floats (binaryForm (.unsigned value width)) := by
  have fits : value.toNat < 2 ^ 63 := Nat.lt_trans value.toNat_lt (by decide)
  change readText parseInteger (utf8 (.ofList (padded width value.toNat))) = .int (.ofNat value.toNat)
  rw [readText_text, parseInteger_small fits, Option.getD_some]

/-- The text protocol reads an unsigned number as a signed one wherever it fits. -/
theorem bigUnsigned_same_iff (floats : Floats) (value : UInt64) (width : Nat) :
    asInteger floats (textForm (.bigUnsigned value width)) = asInteger floats (binaryForm (.bigUnsigned value width)) ↔
      Cell.SameFromEither (.bigUnsigned value width) := by
  change readText parseInteger (utf8 (.ofList (padded width value.toNat))) = .uint value ↔ 2 ^ 63 ≤ value.toNat
  rw [readText_text]
  by_cases large : 2 ^ 63 ≤ value.toNat
  · rw [parseInteger_large large value.toNat_lt, Option.getD_some, UInt64.ofNat_toNat]
    exact iff_of_true rfl large
  · rw [parseInteger_small (Nat.lt_of_not_le large), Option.getD_some]
    exact iff_of_false Value.noConfusion large

theorem date_same (floats : Floats) (parts : DateParts) :
    asDate floats (textForm (.date parts)) = asDate floats (binaryForm (.date parts)) := by
  have year : (UInt16.ofNat parts.year).toNat = parts.year := by
    rw [UInt16.toNat_ofNat']
    exact Nat.mod_eq_of_lt (Nat.lt_trans parts.year_lt (by decide))
  have month := UInt8_small (Nat.lt_of_le_of_lt parts.month_le (by decide))
  have day := UInt8_small (Nat.lt_of_le_of_lt parts.day_le (by decide))
  simp only [textForm, binaryForm, asDate, Cell.text, readText_text, parseDateDays, parseYmd_dateText, dateFromParts,
    year, month, day]
  cases realDay parts.month parts.day <;> rfl

theorem datetime_same_iff (floats : Floats) (parts : DateParts) (clock : Clock) (fraction : Fraction) :
    asTimestamp floats (textForm (.datetime parts clock fraction)) =
        asTimestamp floats (binaryForm (.datetime parts clock fraction)) ↔
      Cell.SameFromEither (.datetime parts clock fraction) := by
  have year : (UInt16.ofNat parts.year).toNat = parts.year := by
    rw [UInt16.toNat_ofNat']
    exact Nat.mod_eq_of_lt (Nat.lt_trans parts.year_lt (by decide))
  have month := UInt8_small (Nat.lt_of_le_of_lt parts.month_le (by decide))
  have day := UInt8_small (Nat.lt_of_le_of_lt parts.day_le (by decide))
  have hour := UInt8_small (Nat.lt_trans clock.hour_lt (by decide))
  have minute := UInt8_small (Nat.lt_trans clock.minute_lt (by decide))
  have second := UInt8_small (Nat.lt_trans clock.second_lt (by decide))
  have micros : (UInt32.ofNat fraction.micros).toNat = fraction.micros := by
    rw [UInt32.toNat_ofNat']
    exact Nat.mod_eq_of_lt (Nat.lt_trans fraction.micros_lt (by decide))
  simp only [textForm, binaryForm, asTimestamp, readText_text, parseTimestamp_text, year, month, day, hour, minute,
    second, micros]
  have monthLe := parts.month_le
  have dayLe := parts.day_le
  by_cases real : parts.month ≠ 0 ∧ parts.day ≠ 0
  · have isReal : realDay parts.month parts.day = true := by
      simp only [realDay, Bool.and_eq_true, decide_eq_true_eq]
      omega
    obtain ⟨base, read⟩ : ∃ base,
        timestampMicros parts.year parts.month parts.day clock.hour clock.minute clock.second = some base := by
      have hourLt := clock.hour_lt
      have minuteLt := clock.minute_lt
      have secondLt := clock.second_lt
      refine ⟨_, if_neg ?_⟩
      simp only [isReal, Bool.not_true, Bool.false_or, Bool.or_eq_true, decide_eq_true_eq]
      omega
    simp [read, Cell.SameFromEither, real]
  · have notReal : realDay parts.month parts.day = false := by
      rw [← Bool.not_eq_true]
      simp only [realDay, Bool.and_eq_true, decide_eq_true_eq]
      omega
    have refused : timestampMicros parts.year parts.month parts.day clock.hour clock.minute clock.second = none := by
      simp [timestampMicros, notReal]
    have spelled : Cell.text (.datetime parts clock fraction) =
        datetimeText parts.year parts.month parts.day clock.hour clock.minute clock.second ++ fraction.text := by
      simp [Cell.text, datetimeText, clockText]
    have undeclared : fraction.text = [] ↔ fraction.digits = 0 := by
      unfold Fraction.text
      split <;> simp_all
    simp only [refused, Option.map_none, Option.getD_none, spelled, Value.text.injEq, String.ofList_inj,
      List.append_right_eq_self, undeclared, Cell.SameFromEither, real, or_false]

theorem time_same (floats : Floats) (duration : Duration) (fraction : Fraction) :
    asTime floats (textForm (.time duration fraction)) = asTime floats (binaryForm (.time duration fraction)) := by
  have hoursLe := duration.hours_le
  have days : (UInt32.ofNat (duration.hours / 24)).toNat = duration.hours / 24 := by
    rw [UInt32.toNat_ofNat']
    exact Nat.mod_eq_of_lt (by omega)
  have hours := UInt8_small (by omega : duration.hours % 24 < 256)
  have minute := UInt8_small (Nat.lt_trans duration.minute_lt (by decide))
  have second := UInt8_small (Nat.lt_trans duration.second_lt (by decide))
  have micros : (UInt32.ofNat fraction.micros).toNat = fraction.micros := by
    rw [UInt32.toNat_ofNat']
    exact Nat.mod_eq_of_lt (Nat.lt_trans fraction.micros_lt (by decide))
  have whole : (((duration.hours / 24 : Nat) : Int) * 86400 + ((duration.hours % 24 : Nat) : Int) * 3600 +
      duration.minute * 60 + duration.second) * 1000000 + fraction.micros =
      ((duration.hours : Int) * 3600 + duration.minute * 60 + duration.second) * 1000000 + fraction.micros := by
    omega
  simp only [textForm, binaryForm, asTime, readText_text, parseTime_text, days, hours, minute, second, micros, whole,
    Option.map_some, Option.getD_some]

/-- The two protocols give the same value for every cell that every column can
hold, except where a number or a date falls in one of the two gaps. -/
theorem protocols_agree_iff (floats : Floats) (columnType : ColumnType) (isBinary : Bool) (cell : Cell)
    (holds : columnType.holds cell) :
    fromValue floats columnType (some (textForm cell)) isBinary =
        fromValue floats columnType (some (binaryForm cell)) isBinary ↔ cell.SameFromEither := by
  cases cell with
  | null => exact iff_of_true rfl trivial
  | signed value =>
    have same := signed_same floats value
    cases columnType <;> first | exact absurd holds Bool.false_ne_true | exact iff_of_true same trivial
  | unsigned value width =>
    have same := unsigned_same floats value width
    cases columnType <;> first | exact absurd holds Bool.false_ne_true | exact iff_of_true same trivial
  | bigUnsigned value width =>
    have same := bigUnsigned_same_iff floats value width
    cases columnType <;> first | exact absurd holds Bool.false_ne_true | exact same
  | decimal negative whole fraction => exact iff_of_true rfl trivial
  | bytes content => exact iff_of_true rfl trivial
  | date parts =>
    have same := date_same floats parts
    cases columnType <;> first | exact absurd holds Bool.false_ne_true | exact iff_of_true same trivial
  | datetime parts clock fraction =>
    have same := datetime_same_iff floats parts clock fraction
    cases columnType <;> first | exact absurd holds Bool.false_ne_true | exact same
  | time duration fraction =>
    have same := time_same floats duration fraction
    cases columnType <;> first | exact absurd holds Bool.false_ne_true | exact iff_of_true same trivial

/-- At the largest `BIGINT UNSIGNED`. -/
theorem protocols_agree_at :
    let floats : Floats := ⟨fun _ => none, fun _ => 0, fun _ => 0, fun _ => 0⟩
    let cell : Cell := .bigUnsigned 18446744073709551615 0
    ColumnType.longlong.holds cell ∧
      (fromValue floats .longlong (some (textForm cell)) false =
        fromValue floats .longlong (some (binaryForm cell)) false ↔ cell.SameFromEither) :=
  ⟨rfl, protocols_agree_iff _ _ _ _ rfl⟩

/-- A `BIGINT UNSIGNED` of five is a signed number over one protocol and an
unsigned one over the other. -/
theorem unsigned_five_differs :
    ¬∀ (floats : Floats) (columnType : ColumnType) (isBinary : Bool) (cell : Cell), columnType.holds cell →
      fromValue floats columnType (some (textForm cell)) isBinary =
        fromValue floats columnType (some (binaryForm cell)) isBinary := by
  intro agree
  let floats : Floats := ⟨fun _ => none, fun _ => 0, fun _ => 0, fun _ => 0⟩
  have same := agree floats .longlong false (.bigUnsigned 5 0) rfl
  have large : 2 ^ 63 ≤ (5 : UInt64).toNat := (bigUnsigned_same_iff floats 5 0).mp same
  exact absurd large (by decide)

end QueryHive.Driver.Mysql
