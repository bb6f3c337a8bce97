import QueryHive.Core.Calendar
import QueryHive.Driver.Fields

/-! What PostgreSQL printed, turned into a value. A column's type name picks one
parser, and the parser undoes the server's spelling; a text it cannot read stays
text. The server's spelling of each type (DateStyle ISO, IntervalStyle postgres)
is written out here and read back: it comes back as the value it was, except a
zone of fifteen hours and an interval whose clock is negative or longer than a
day and an hour. -/
namespace QueryHive.Driver.Postgres
open QueryHive.Library.Numeral QueryHive.Library.Text QueryHive.Store
open QueryHive.Core (daysFromCivil)

/-- `to_digit(16)`. -/
def hexDigit (c : Char) : Option Nat :=
  if c.isDigit then some (c.toNat - '0'.toNat)
  else if 'a' ≤ c ∧ c ≤ 'f' then some (c.toNat - 'a'.toNat + 10)
  else if 'A' ≤ c ∧ c ≤ 'F' then some (c.toNat - 'A'.toNat + 10)
  else none

def isOctal (c : Char) : Bool := '0' ≤ c && c ≤ '7'

/-- Pairs of hex digits; an odd number of digits is refused. -/
def readHex : List Char → Option (List UInt8)
  | [] => some []
  | [_] => none
  | high :: low :: rest => do
    let high ← hexDigit high
    let low ← hexDigit low
    let bytes ← readHex rest
    some (UInt8.ofNat (high * 16 + low) :: bytes)

/-- At most `count` octal digits from the front. -/
def takeOctal : Nat → List Char → List Char × List Char
  | count + 1, c :: rest =>
    if isOctal c then
      let (digits, after) := takeOctal count rest
      (c :: digits, after)
    else ([], c :: rest)
  | _, text => ([], text)

theorem takeOctal_length (count : Nat) (text : List Char) : (takeOctal count text).2.length ≤ text.length := by
  induction count generalizing text with
  | zero => exact Nat.le_refl _
  | succ count ih =>
    cases text with
    | nil => exact Nat.le_refl _
    | cons c rest =>
      simp only [takeOctal]
      split
      · exact Nat.le_succ_of_le (ih rest)
      · exact Nat.le_refl _

/-- `u8::from_str_radix(octal, 8)`. -/
def readOctal (digits : List Char) : Option UInt8 :=
  if digits = [] then none
  else
    let byte := Nat.ofDigitChars 8 digits 0
    if byte < 256 then some (UInt8.ofNat byte) else none

/-- The escape format: a backslash doubled, or before up to three octal digits. -/
def readEscape : List Char → Option (List UInt8)
  | [] => some []
  | c :: rest =>
    if c ≠ '\\' then (readEscape rest).map (String.utf8EncodeChar c ++ ·)
    else match rest with
      | '\\' :: after => (readEscape after).map (92 :: ·)
      | rest => do
        let byte ← readOctal (takeOctal 3 rest).1
        let bytes ← readEscape (takeOctal 3 rest).2
        some (byte :: bytes)
termination_by text => text.length
decreasing_by
  · exact Nat.lt_succ_self _
  · exact Nat.lt_succ_of_lt (Nat.lt_succ_self _)
  · exact Nat.lt_succ_of_le (takeOctal_length 3 _)

/-- `parse_bytea`: hex after `\x`, the escape format otherwise. -/
def parseBytea (text : List Char) : Value :=
  match text with
  | '\\' :: 'x' :: hex => match readHex hex with
    | some bytes => .bytes bytes
    | none => .text (.ofList text)
  | text => match readEscape text with
    | some bytes => .bytes bytes
    | none => .text (.ofList text)

/-- `parse_ymd`: the year signed, the month and the day unsigned. -/
def parseYmd (text : List Char) : Option (Int × Nat × Nat) :=
  match splitN (· == '-') 3 text with
  | year :: month :: day :: _ => do
    let year ← readSigned 64 year
    let month ← readUnsigned 32 month
    let day ← readUnsigned 32 day
    if !(1 ≤ month && month ≤ 12) || !(1 ≤ day && day ≤ 31) then none else some (year, month, day)
  | _ => none

def parseDays (text : List Char) : Option Int32 := do
  let (year, month, day) ← parseYmd (trim text)
  some (.ofInt (daysFromCivil year month day))

/-- The hours of an offset and the minutes and seconds after them, at most. -/
def offsetParts (rest : List Char) : Option (List Char × Option (List Char) × Option (List Char)) :=
  match rest.splitOn ':' with
  | [hours] => some (hours, none, none)
  | [hours, minutes] => some (hours, some minutes, none)
  | [hours, minutes, seconds] => some (hours, some minutes, some seconds)
  | _ => none

/-- A part of an offset; zero when it is not there. -/
def readPart : Option (List Char) → Option Int
  | some text => readSigned 32 text
  | none => some 0

def withoutFraction (seconds : List Char) : List Char :=
  ((splitOnce (· == '.') seconds).map Prod.fst).getD seconds

/-- `parse_offset_seconds`. The bound on the hours keeps a date's `-31` from being
read as an offset. -/
def parseOffsetSeconds (sign : Char) (rest : List Char) : Option Int := do
  let (hours, minutes, seconds) ← offsetParts rest
  let hours ← readSigned 32 hours
  let minutes ← readPart minutes
  let seconds ← readPart (seconds.map withoutFraction)
  if hours > 14 || minutes > 59 || seconds > 59 then none
  else
    let total := hours * 3600 + minutes * 60 + seconds
    some (if sign = '-' then -total else total)

def isSign (c : Char) : Bool := c == '+' || c == '-'

/-- `split_offset`: a trailing offset split off a clock, starting from the last
sign. -/
def splitOffset (text : List Char) : List Char × Option Int :=
  match splitLast isSign text with
  | some (front, sign, after) =>
    if front.getLast?.any Char.isDigit && after ≠ [] then
      match parseOffsetSeconds sign after with
      | some offset => (trimEnd front, some offset)
      | none => (text, none)
    else (text, none)
  | none => (text, none)

/-- `parse_clock`: hours, minutes, seconds and microseconds. -/
def parseClock (text : List Char) : Option (Nat × Nat × Nat × Int) :=
  match (trim text).splitOn ':' with
  | [hours, minutes, secondsField] => do
    let hours ← readUnsigned 32 (trim hours)
    let minutes ← readUnsigned 32 (trim minutes)
    let (seconds, micros) ← parseSeconds (readUnsigned 32) (trim secondsField)
    if hours > 24 || minutes > 59 || seconds > 60 then none else some (hours, minutes, seconds, micros)
  | _ => none

def clockMicros (clock : Nat × Nat × Nat × Int) : Int :=
  let (hours, minutes, seconds, micros) := clock
  ((hours * 3600 + minutes * 60 + seconds : Nat) : Int) * 1000000 + micros

def parseTimeMicros (text : List Char) : Option Int :=
  (parseClock (splitOffset (trim text)).1).map clockMicros

/-- `parse_timestamp`: the UTC instant, and the offset the server reported. -/
def parseTimestamp (text : List Char) : Option (Int × Int) := do
  let (datePart, rest) ← splitOnce (fun c => c == ' ' || c == 'T') (trim text)
  let (year, month, day) ← parseYmd datePart
  let (clock, offset) := splitOffset rest
  let clock ← parseClock clock
  if year < 1 then none
  else
    let days := daysFromCivil year month day
    let localMicros := days * 86400 * 1000000 + clockMicros clock
    let offset := offset.getD 0
    some (localMicros - offset * 1000000, offset)

/-- `trim_end_matches(symbol)`. -/
def trimEndMatches (symbol : Char) (text : List Char) : List Char := text.rdropWhile (· == symbol)

/-- A counted unit of an interval. Years are folded into months. -/
def addUnit (interval : IntervalValue) (amount : Int) (unit : List Char) : Option IntervalValue :=
  match trimEndMatches 's' (trimEndMatches ',' unit) with
  | ['y', 'e', 'a', 'r'] => some { interval with months := interval.months + .ofInt (amount * 12) }
  | ['m', 'o', 'n'] | ['m', 'o', 'n', 't', 'h'] => some { interval with months := interval.months + .ofInt amount }
  | ['d', 'a', 'y'] => some { interval with days := interval.days + .ofInt amount }
  | ['h', 'o', 'u', 'r'] => some { interval with micros := interval.micros + .ofInt (amount * 3600000000) }
  | ['m', 'i', 'n'] | ['m', 'i', 'n', 'u', 't', 'e'] =>
    some { interval with micros := interval.micros + .ofInt (amount * 60000000) }
  | ['s', 'e', 'c'] | ['s', 'e', 'c', 'o', 'n', 'd'] =>
    some { interval with micros := interval.micros + .ofInt (amount * 1000000) }
  | _ => none

/-- A clock field of an interval: it takes the sign of the microseconds so far. -/
def addClock (interval : IntervalValue) (clock : Int) : IntervalValue :=
  let sign : Int64 := if interval.micros < 0 then -1 else 1
  { interval with micros := interval.micros.abs + sign * .ofInt clock }

/-- The loop of `parse_interval` over the words that are left. -/
def parseWords : IntervalValue → Bool → List (List Char) → Option IntervalValue
  | interval, sawAny, [] => if sawAny then some interval else none
  | interval, _, [token] =>
    match readSigned 64 token with
    | some _ => none
    | none => (parseClock token).map fun clock => addClock interval (clockMicros clock)
  | interval, _, token :: unit :: rest =>
    match readSigned 64 token with
    | some amount => (addUnit interval amount unit).bind fun interval => parseWords interval true rest
    | none => (parseClock token).bind fun clock =>
      parseWords (addClock interval (clockMicros clock)) true (unit :: rest)

def parseInterval (text : List Char) : Option IntervalValue :=
  parseWords ⟨0, 0, 0⟩ false (splitWhitespace text)

/-- `ColumnParser`: how one column's text is read. -/
inductive ColumnParser where
  | bool | int | float | numeric | bytea | date | time | timestamp | timestamptz | interval | json | text
  deriving DecidableEq, Repr

/-- `base_type`: the type name without its modifier. -/
def baseType (typeName : List Char) : List Char :=
  trimEnd ((trim typeName).takeWhile (· ≠ '('))

def ColumnParser.new (typeName : List Char) : ColumnParser :=
  match baseType typeName with
  | ['b', 'o', 'o', 'l'] => .bool
  | ['i', 'n', 't', '2'] | ['i', 'n', 't', '4'] | ['i', 'n', 't', '8'] | ['o', 'i', 'd'] => .int
  | ['f', 'l', 'o', 'a', 't', '4'] | ['f', 'l', 'o', 'a', 't', '8'] => .float
  | ['n', 'u', 'm', 'e', 'r', 'i', 'c'] | ['d', 'e', 'c', 'i', 'm', 'a', 'l'] => .numeric
  | ['b', 'y', 't', 'e', 'a'] => .bytea
  | ['d', 'a', 't', 'e'] => .date
  | ['t', 'i', 'm', 'e'] => .time
  | ['t', 'i', 'm', 'e', 's', 't', 'a', 'm', 'p'] => .timestamp
  | ['t', 'i', 'm', 'e', 's', 't', 'a', 'm', 'p', 't', 'z'] => .timestamptz
  | ['i', 'n', 't', 'e', 'r', 'v', 'a', 'l'] => .interval
  | ['j', 's', 'o', 'n'] | ['j', 's', 'o', 'n', 'b'] => .json
  | _ => .text

/-- `parse`: one cell as a value. `parseFloat` is the language's own reader of a
float, by its bits. -/
def ColumnParser.parse (parseFloat : List Char → Option UInt64) (parser : ColumnParser) :
    Option (List Char) → Value
  | none => .null
  | some cell =>
    let fallback := Value.text (.ofList cell)
    match parser with
    | .bool => match cell with
      | ['t'] | ['t', 'r', 'u', 'e'] => .bool true
      | ['f'] | ['f', 'a', 'l', 's', 'e'] => .bool false
      | _ => fallback
    | .int => ((readSigned 64 cell).map fun number => Value.int (.ofInt number)).getD fallback
    | .float => match parseFloat cell with
      | some bits => .float bits
      | none => match cell with
        | ['I', 'n', 'f', 'i', 'n', 'i', 't', 'y'] => .float 0x7FF0000000000000
        | ['-', 'I', 'n', 'f', 'i', 'n', 'i', 't', 'y'] => .float 0xFFF0000000000000
        | _ => fallback
    | .numeric => (parseDecimal cell).getD fallback
    | .bytea => parseBytea cell
    | .date => ((parseDays cell).map Value.date).getD fallback
    | .time => ((parseTimeMicros cell).map fun micros => Value.time (.ofInt micros)).getD fallback
    | .timestamp =>
      ((parseTimestamp cell).map fun (micros, _) => Value.timestamp (.ofInt micros) none).getD fallback
    | .timestamptz =>
      ((parseTimestamp cell).map fun (micros, offset) =>
        Value.timestamp (.ofInt micros) (some (.ofInt offset))).getD fallback
    | .interval => ((parseInterval cell).map Value.interval).getD fallback
    | .json => .json (.ofList cell)
    | .text => fallback

end QueryHive.Driver.Postgres
