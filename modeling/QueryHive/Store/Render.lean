import QueryHive.Core.Calendar
import QueryHive.Library.Numeral
import QueryHive.Library.Sha256
import QueryHive.Store.Value

/-! A value as text. `write_text` is the one renderer behind the grid, the exports and the
logical columns; nested values are rendered as JSON. Only text, bytes and values of an unknown
type can be rendered as nothing. -/
namespace QueryHive.Store
open QueryHive.Library

def natText (n : Nat) : String := String.ofList (Nat.toDigits 10 n)

def intText (n : Int) : String := (if n < 0 then "-" else "") ++ natText n.natAbs

/-- At least so many digits. -/
def paddedText (width n : Nat) : String := String.ofList (Numeral.padded width n)

/-- `write_decimal`: the scale's trailing zeros are kept. -/
def writeDecimal (unscaled : BitVec 128) (scale : UInt8) : String :=
  if scale = 0 then intText unscaled.toInt
  else
    let digits := Nat.toDigits 10 unscaled.toInt.natAbs
    let scale := scale.toNat
    let sign := if unscaled.toInt < 0 then "-" else ""
    if digits.length ≤ scale then
      sign ++ "0." ++ String.ofList (List.replicate (scale - digits.length) '0') ++ String.ofList digits
    else
      let split := digits.length - scale
      sign ++ String.ofList (digits.take split) ++ "." ++ String.ofList (digits.drop split)

/-- `write_date`; the width counts the sign of a year. -/
def writeDate (days : Int) : String :=
  let (year, month, day) := Core.civilFromDays days
  let year := if year < 0 then "-" ++ paddedText 3 year.natAbs else paddedText 4 year.natAbs
  year ++ "-" ++ paddedText 2 month ++ "-" ++ paddedText 2 day

/-- `write_time`; a fraction is written when there is one. -/
def writeTime (micros : Int) : String :=
  let seconds := micros.natAbs / 1000000
  let fraction := micros.natAbs % 1000000
  (if micros < 0 then "-" else "") ++ paddedText 2 (seconds / 3600) ++ ":" ++
    paddedText 2 (seconds % 3600 / 60) ++ ":" ++
    paddedText 2 (seconds % 60) ++ (if fraction ≠ 0 then "." ++ paddedText 6 fraction else "")

/-- `write_timestamp`: the instant in its zone. -/
def writeTimestamp (micros : Int64) (offsetSecs : Option Int32) : String :=
  let local' := match offsetSecs with
    | some offset => micros + offset.toInt64 * 1000000
    | none => micros
  let days := local'.toInt / 86400000000
  let withinDay := local'.toInt % 86400000000
  writeDate (Int32.ofInt days).toInt ++ " " ++ writeTime withinDay ++
    match offsetSecs with
    | some offset =>
      let magnitude := offset.toInt.natAbs
      (if offset.toInt < 0 then "-" else "+") ++ paddedText 2 (magnitude / 3600) ++ ":" ++
        paddedText 2 (magnitude % 3600 / 60)
    | none => ""

def unitText (n : Int) (unit : String) : String :=
  intText n ++ " " ++ unit ++ (if n.natAbs = 1 then "" else "s")

/-- `write_interval`: the hour is not padded. -/
def writeInterval (interval : IntervalValue) : String :=
  let months := if interval.months ≠ 0 then unitText interval.months.toInt "month" else ""
  let days :=
    if interval.days ≠ 0 then (if months = "" then "" else ", ") ++ unitText interval.days.toInt "day" else ""
  let seconds := interval.micros.toInt.natAbs / 1000000
  let subSecond := interval.micros.toInt.natAbs % 1000000
  let time := natText (seconds / 3600) ++ ":" ++ paddedText 2 (seconds / 60 % 60) ++ ":" ++
    paddedText 2 (seconds % 60) ++
    (if subSecond = 0 then "" else "." ++ paddedText 6 subSecond)
  months ++ days ++ (if months ++ days = "" then "" else ", ") ++
    (if interval.micros.toInt < 0 then "-" else "") ++ time

/-- `write_hex`. -/
def writeHex (bytes : List UInt8) : String := String.ofList (Sha256.hexEncode bytes)

/-- A JSON character; what is not ASCII is written as it is. -/
def jsonChar (c : Char) : String :=
  if c = '"' then "\\\""
  else if c = '\\' then "\\\\"
  else if c = '\n' then "\\n"
  else if c = '\r' then "\\r"
  else if c = '\t' then "\\t"
  else if c.toNat = 8 then "\\b"
  else if c.toNat = 12 then "\\f"
  else if c.toNat < 32 then "\\u00" ++ writeHex [UInt8.ofNat c.toNat]
  else String.singleton c

/-- `write_json_string`. -/
def writeJsonString (text : String) : String :=
  "\"" ++ String.join (text.toList.map jsonChar) ++ "\""

section
variable (writeFloat : UInt64 → String)

/-- The arms of `write_text` that render no nested value. -/
def writeScalar : Value → String
  | .bool flag => if flag then "true" else "false"
  | .int n => intText n.toInt
  | .uint n => natText n.toNat
  | .float bits => writeFloat bits
  | .decimal unscaled scale => writeDecimal unscaled scale
  | .text text => text
  | .bytes bytes => writeHex bytes
  | .timestamp micros offsetSecs => writeTimestamp micros offsetSecs
  | .date days => writeDate days.toInt
  | .time micros => writeTime micros.toInt
  | .interval interval => writeInterval interval
  | .json text => text
  | .unknown _ (some text) _ => text
  | .unknown _ none (some raw) => writeHex raw
  | .unknown _ none none => ""
  | .null | .array _ | .row _ | .map _ => ""

mutual

/-- `write_text`. -/
def writeText : Value → String
  | .array items => "[" ++ writeItems true items ++ "]"
  | .row items => "[" ++ writeItems true items ++ "]"
  | .map entries => "\x7b" ++ writeEntries true entries ++ "\x7d"
  | scalar => writeScalar writeFloat scalar

/-- `write_json_like`: JSON's own scalars are not quoted. -/
def writeJsonLike : Value → String
  | .array items => "[" ++ writeItems true items ++ "]"
  | .row items => "[" ++ writeItems true items ++ "]"
  | .map entries => "\x7b" ++ writeEntries true entries ++ "\x7d"
  | .null => "null"
  | .bool flag => if flag then "true" else "false"
  | .int n => intText n.toInt
  | .uint n => natText n.toNat
  | .float bits => writeFloat bits
  | other => writeJsonString (writeScalar writeFloat other)

/-- The items of `write_json_array`, with a separator between two. -/
def writeItems (first : Bool) : List Value → String
  | [] => ""
  | item :: rest => (if first then "" else ", ") ++ writeJsonLike item ++ writeItems false rest

/-- The entries of `write_json_map`. -/
def writeEntries (first : Bool) : List (Value × Value) → String
  | [] => ""
  | (key, entry) :: rest =>
    (if first then "" else ", ") ++ writeJsonString (writeText key) ++ ": " ++ writeJsonLike entry ++
      writeEntries false rest

end

/-- Values that are rendered as nothing. -/
def noText : Value → Bool
  | .null => true
  | .text text => text == ""
  | .json text => text == ""
  | .bytes bytes => bytes.isEmpty
  | .unknown _ (some text) _ => text == ""
  | .unknown _ none (some raw) => raw.isEmpty
  | .unknown _ none none => true
  | _ => false

@[simp] theorem natText_ne_empty (n : Nat) : natText n ≠ "" := by
  intro empty
  have digits : Nat.toDigits 10 n = [] := by simpa [natText] using congrArg String.toList empty
  exact Nat.toDigits_ne_nil digits

@[simp] theorem intText_ne_empty (n : Int) : intText n ≠ "" := by
  simp [intText]

@[simp] theorem writeHex_empty_iff (bytes : List UInt8) : writeHex bytes = "" ↔ bytes = [] := by
  rw [← String.toList_inj, writeHex, String.toList_ofList, ← List.length_eq_zero_iff]
  rw [show "".toList = [] from rfl, ← List.length_eq_zero_iff, Sha256.hexEncode_length]
  omega

theorem writeDecimal_ne_empty (unscaled : BitVec 128) (scale : UInt8) : writeDecimal unscaled scale ≠ "" := by
  unfold writeDecimal
  dsimp only
  split_ifs
  all_goals simp

theorem writeDate_ne_empty (days : Int) : writeDate days ≠ "" := by
  simp [writeDate]

theorem writeTime_ne_empty (micros : Int) : writeTime micros ≠ "" := by
  simp [writeTime]

theorem writeTimestamp_ne_empty (micros : Int64) (offsetSecs : Option Int32) :
    writeTimestamp micros offsetSecs ≠ "" := by
  simp [writeTimestamp]

theorem writeInterval_ne_empty (interval : IntervalValue) : writeInterval interval ≠ "" := by
  simp [writeInterval]

section
variable {writeFloat : UInt64 → String}

theorem writeText_empty_iff (floats : ∀ bits, writeFloat bits ≠ "") (value : Value) :
    writeText writeFloat value = "" ↔ noText value = true := by
  cases value with
  | unknown typeName text raw => cases text <;> cases raw <;> simp [writeText, writeScalar, noText]
  | bool flag => cases flag <;> simp [writeText, writeScalar, noText]
  | _ =>
    simp [writeText, writeScalar, noText, floats, writeDecimal_ne_empty, writeDate_ne_empty, writeTime_ne_empty,
      writeTimestamp_ne_empty, writeInterval_ne_empty]

end

end

end QueryHive.Store
