import QueryHive.Library.Text
import QueryHive.Store.Render

/-! The renderer as the source has it: every function of `render.rs` appends to a buffer its
caller holds. Each arm but one puts its text behind whatever is there already; the interval asks
the buffer itself whether a separator is due, and so a cell in front of it shows. -/
namespace QueryHive.Store.Buffer
open QueryHive.Library

/-- What the standard library says of a float, which is kept by its bits. -/
structure FloatText where
  /-- `{}`. -/
  plain : UInt64 → String
  /-- `{:e}`. -/
  scientific : UInt64 → String
  /-- `abs().log10().floor()`. -/
  magnitude : UInt64 → Int

def absoluteBits (number : UInt64) : UInt64 := number &&& 0x7fffffffffffffff

def isSignNegative (number : UInt64) : Bool := number != absoluteBits number

/-- `write_scientific`: an exponent has a sign and two digits at least. -/
def writeScientific (floats : FloatText) (number : UInt64) (out : String) : String :=
  let rusty := floats.scientific number
  match Text.splitOnce (· == 'e') rusty.toList with
  | none => out ++ rusty
  | some (mantissa, exponent) =>
    let (sign, digits) := match exponent with
      | '-' :: rest => ("-", rest)
      | digits => ("+", digits)
    out ++ (String.ofList mantissa ++ "e" ++ sign ++
      String.ofList (List.replicate (2 - digits.length) '0' ++ digits))

/-- `write_float`. -/
def writeFloat (floats : FloatText) (number : UInt64) (out : String) : String :=
  if 0x7ff0000000000000 < absoluteBits number then out ++ "nan"
  else if absoluteBits number = 0x7ff0000000000000 then out ++ (if isSignNegative number then "-inf" else "inf")
  else if absoluteBits number = 0 then out ++ (if isSignNegative number then "-0.0" else "0.0")
  else if ¬(-4 ≤ floats.magnitude number ∧ floats.magnitude number < 16) then writeScientific floats number out
  else
    let text := floats.plain number
    let out := out ++ text
    if text.toList.contains '.' then out else out ++ ".0"

/-- `write_decimal`. -/
def writeDecimal (unscaled : BitVec 128) (scale : UInt8) (out : String) : String :=
  if scale = 0 then out ++ intText unscaled.toInt
  else
    let digits := Nat.toDigits 10 unscaled.toInt.natAbs
    let scale := scale.toNat
    let out := if unscaled.toInt < 0 then out.push '-' else out
    if digits.length ≤ scale then
      let out := (out.push '0').push '.'
      (List.replicate (scale - digits.length) '0').foldl String.push out ++ String.ofList digits
    else
      let split := digits.length - scale
      (out ++ String.ofList (digits.take split)).push '.' ++ String.ofList (digits.drop split)

/-- `write_date`. -/
def writeDate (days : Int32) (out : String) : String := out ++ Store.writeDate days.toInt

/-- `write_time`. -/
def writeTime (micros : Int) (out : String) : String :=
  let seconds := micros.natAbs / 1000000
  let fraction := micros.natAbs % 1000000
  let out := out ++ ((if micros < 0 then "-" else "") ++ paddedText 2 (seconds / 3600) ++ ":" ++
    paddedText 2 (seconds % 3600 / 60) ++ ":" ++ paddedText 2 (seconds % 60))
  if fraction ≠ 0 then out ++ ("." ++ paddedText 6 fraction) else out

/-- `write_timestamp`. -/
def writeTimestamp (micros : Int64) (offsetSecs : Option Int32) (out : String) : String :=
  let local' := match offsetSecs with
    | some offset => micros + offset.toInt64 * 1000000
    | none => micros
  let days := local'.toInt / 86400000000
  let withinDay := local'.toInt % 86400000000
  let out := writeTime withinDay ((writeDate (Int32.ofInt days) out).push ' ')
  match offsetSecs with
  | some offset =>
    let magnitude := offset.toInt.natAbs
    out ++ ((if offset.toInt < 0 then "-" else "+") ++ paddedText 2 (magnitude / 3600) ++ ":" ++
      paddedText 2 (magnitude % 3600 / 60))
  | none => out

/-- The separator of `write_interval`, which is due when anything at all is in the buffer. -/
def separated (out : String) : String := if out ≠ "" then out ++ ", " else out

/-- The months and the days of `write_interval`. -/
def writeMonthsDays (interval : IntervalValue) (out : String) : String :=
  let out := if interval.months ≠ 0 then out ++ unitText interval.months.toInt "month" else out
  if interval.days ≠ 0 then separated out ++ unitText interval.days.toInt "day" else out

/-- The time of `write_interval`; the hour is not padded. -/
def intervalTime (micros : Int64) : String :=
  let seconds := micros.toInt.natAbs / 1000000
  let subSecond := micros.toInt.natAbs % 1000000
  natText (seconds / 3600) ++ ":" ++ paddedText 2 (seconds / 60 % 60) ++ ":" ++ paddedText 2 (seconds % 60) ++
    (if subSecond = 0 then "" else "." ++ paddedText 6 subSecond)

/-- `write_interval`. -/
def writeInterval (interval : IntervalValue) (out : String) : String :=
  let out := separated (writeMonthsDays interval out)
  let out := if interval.micros.toInt < 0 then out.push '-' else out
  out ++ intervalTime interval.micros

/-- `write_hex`: two digits for each byte. -/
def writeHex (bytes : List UInt8) (out : String) : String :=
  bytes.foldl (fun out byte => (out.push (Sha256.hexDigit (byte.toNat / 16))).push
    (Sha256.hexDigit (byte.toNat % 16))) out

/-- `write_json_string`. -/
def writeJsonString (text : String) (out : String) : String :=
  (text.toList.foldl (fun out c => out ++ jsonChar c) (out.push '"')).push '"'

section
variable (floats : FloatText)

/-- The arms of `write_text` that render no nested value. -/
def writeScalar (value : Value) (out : String) : String :=
  match value with
  | .bool flag => out ++ (if flag then "true" else "false")
  | .int n => out ++ intText n.toInt
  | .uint n => out ++ natText n.toNat
  | .float bits => writeFloat floats bits out
  | .decimal unscaled scale => writeDecimal unscaled scale out
  | .text text => out ++ text
  | .bytes bytes => writeHex bytes out
  | .timestamp micros offsetSecs => writeTimestamp micros offsetSecs out
  | .date days => writeDate days out
  | .time micros => writeTime micros.toInt out
  | .interval interval => writeInterval interval out
  | .json text => out ++ text
  | .unknown _ (some text) _ => out ++ text
  | .unknown _ none (some raw) => writeHex raw out
  | .unknown _ none none => out
  | .null | .array _ | .row _ | .map _ => out

mutual

/-- `write_text`. -/
def writeText (value : Value) (out : String) : String :=
  match value with
  | .array items => (writeItems true items (out.push '[')).push ']'
  | .row items => (writeItems true items (out.push '[')).push ']'
  | .map entries => (writeEntries true entries (out.push '\x7b')).push '\x7d'
  | scalar => writeScalar floats scalar out

/-- `write_json_like`: what JSON has no scalar for is rendered in a buffer of its own. -/
def writeJsonLike (value : Value) (out : String) : String :=
  match value with
  | .array items => (writeItems true items (out.push '[')).push ']'
  | .row items => (writeItems true items (out.push '[')).push ']'
  | .map entries => (writeEntries true entries (out.push '\x7b')).push '\x7d'
  | .null => out ++ "null"
  | .bool flag => out ++ (if flag then "true" else "false")
  | .int n => out ++ intText n.toInt
  | .uint n => out ++ natText n.toNat
  | .float bits => writeFloat floats bits out
  | other => writeJsonString (writeScalar floats other "") out

/-- The loop of `write_json_array`. -/
def writeItems (first : Bool) (items : List Value) (out : String) : String :=
  match items with
  | [] => out
  | item :: rest => writeItems false rest (writeJsonLike item (if first then out else out ++ ", "))

/-- The loop of `write_json_map`; a NULL key is the empty text. -/
def writeEntries (first : Bool) (entries : List (Value × Value)) (out : String) : String :=
  match entries with
  | [] => out
  | (key, entry) :: rest =>
    let out := writeJsonString (writeText key "") (if first then out else out ++ ", ")
    writeEntries false rest (writeJsonLike entry (out ++ ": "))

end

/-- `to_text`: NULL has no text, and anything else is rendered in a buffer of its own. -/
def toText : Value → Option String
  | .null => none
  | value => some (writeText floats value "")

end

theorem foldl_push (text : List Char) (out : String) : text.foldl String.push out = out ++ String.ofList text := by
  induction text generalizing out with
  | nil => simp
  | cons c rest ih =>
    rw [List.foldl_cons, ih, ← String.toList_inj]
    simp

theorem writeHex_eq (bytes : List UInt8) (out : String) : writeHex bytes out = out ++ Store.writeHex bytes := by
  unfold writeHex
  induction bytes generalizing out with
  | nil => simp [Store.writeHex, Sha256.hexEncode]
  | cons byte rest ih =>
    rw [List.foldl_cons, ih, ← String.toList_inj]
    simp [Store.writeHex, Sha256.hexEncode]

theorem foldl_jsonChar (text : List Char) (out : String) :
    text.foldl (fun out c => out ++ jsonChar c) out = out ++ String.join (text.map jsonChar) := by
  induction text generalizing out with
  | nil => simp
  | cons c rest ih => rw [List.foldl_cons, ih, List.map_cons, String.join_cons, String.append_assoc]

theorem writeJsonString_eq (text out : String) : writeJsonString text out = out ++ Store.writeJsonString text := by
  rw [writeJsonString, foldl_jsonChar, Store.writeJsonString, ← String.toList_inj]
  simp

theorem writeScientific_eq (floats : FloatText) (number : UInt64) (out : String) :
    writeScientific floats number out = out ++ writeScientific floats number "" := by
  unfold writeScientific
  dsimp only
  split <;> simp

theorem writeFloat_eq (floats : FloatText) (number : UInt64) (out : String) :
    writeFloat floats number out = out ++ writeFloat floats number "" := by
  unfold writeFloat
  dsimp only
  split_ifs
  case pos => simp
  all_goals first
    | exact writeScientific_eq floats number out
    | simp [String.append_assoc]

theorem writeDecimal_eq (unscaled : BitVec 128) (scale : UInt8) (out : String) :
    writeDecimal unscaled scale out = out ++ Store.writeDecimal unscaled scale := by
  unfold writeDecimal Store.writeDecimal
  dsimp only
  split_ifs
  · rfl
  all_goals
    rw [← String.toList_inj]
    simp [foldl_push]

theorem writeTime_eq (micros : Int) (out : String) : writeTime micros out = out ++ Store.writeTime micros := by
  unfold writeTime Store.writeTime
  dsimp only
  split_ifs <;> simp [String.append_assoc]

theorem writeTimestamp_eq (micros : Int64) (offsetSecs : Option Int32) (out : String) :
    writeTimestamp micros offsetSecs out = out ++ Store.writeTimestamp micros offsetSecs := by
  unfold writeTimestamp Store.writeTimestamp
  rw [← String.toList_inj]
  cases offsetSecs <;> simp [writeTime_eq, writeDate]

@[simp] theorem separated_empty : separated "" = "" := rfl

theorem separated_some (some : out ≠ "") : separated out = out ++ ", " := if_pos some

/-- The sign and the time come behind the months and the days. -/
theorem writeInterval_parts (interval : IntervalValue) (out : String) :
    writeInterval interval out = separated (writeMonthsDays interval out) ++
      ((if interval.micros.toInt < 0 then "-" else "") ++ intervalTime interval.micros) := by
  rw [writeInterval, ← String.toList_inj]
  split_ifs <;> simp

theorem store_writeInterval_parts (interval : IntervalValue) :
    Store.writeInterval interval = separated (writeMonthsDays interval "") ++
      ((if interval.micros.toInt < 0 then "-" else "") ++ intervalTime interval.micros) := by
  let months := if interval.months ≠ 0 then unitText interval.months.toInt "month" else ""
  let days :=
    if interval.days ≠ 0 then (if months = "" then "" else ", ") ++ unitText interval.days.toInt "day" else ""
  have dates : writeMonthsDays interval "" = months ++ days := by
    have some : unitText interval.months.toInt "month" ≠ "" := by simp [unitText]
    simp only [writeMonthsDays, separated, months, days]
    split_ifs <;> simp_all [String.append_assoc]
  have due : separated (months ++ days) = months ++ days ++ (if months ++ days = "" then "" else ", ") := by
    rw [separated]
    split_ifs with none <;> simp_all
  rw [dates, due]
  exact String.append_assoc

/-- With months of its own, or nothing in front of it, the interval looks at its own text only. -/
theorem writeInterval_clear {interval : IntervalValue} (clear : out = "" ∨ interval.months ≠ 0) :
    writeInterval interval out = out ++ Store.writeInterval interval := by
  rcases clear with rfl | months
  · rw [writeInterval_parts, store_writeInterval_parts, String.empty_append]
  · have some : unitText interval.months.toInt "month" ≠ "" := by simp [unitText]
    have dates : writeMonthsDays interval out = out ++ writeMonthsDays interval "" := by
      unfold writeMonthsDays
      by_cases days : interval.days = 0 <;> simp [months, days, separated, some, String.append_assoc]
    have written : writeMonthsDays interval "" ≠ "" := by
      unfold writeMonthsDays
      by_cases days : interval.days = 0 <;> simp [months, days, separated, some]
    have both : out ++ writeMonthsDays interval "" ≠ "" := by simp [written]
    rw [writeInterval_parts, store_writeInterval_parts, dates, separated_some both, separated_some written]
    simp only [String.append_assoc]

theorem writeInterval_separated {interval : IntervalValue} (some : out ≠ "") (none : interval.months = 0) :
    writeInterval interval out = out ++ ", " ++ Store.writeInterval interval := by
  rw [writeInterval_parts, store_writeInterval_parts]
  by_cases days : interval.days = 0
  · simp [writeMonthsDays, none, days, separated_some some, String.append_assoc]
  · have unit : unitText interval.days.toInt "day" ≠ "" := by simp [unitText]
    have both : out ++ ", " ++ unitText interval.days.toInt "day" ≠ "" := by simp [some]
    simp only [writeMonthsDays, none, days, ne_eq, not_true_eq_false, if_false, not_false_eq_true, if_true,
      separated_some some, separated_empty, String.empty_append, separated_some both, separated_some unit]
    simp only [String.append_assoc]

section
variable (floats : FloatText)

def floatText (number : UInt64) : String := writeFloat floats number ""

/-- Values whose text starts with the separator when something is in front of it. -/
def leadsWithSeparator : Value → Bool
  | .interval interval => interval.months == 0
  | _ => false

theorem writeScalar_clear (clear : out = "" ∨ leadsWithSeparator value = false) :
    writeScalar floats value out = out ++ Store.writeScalar (floatText floats) value := by
  cases value with
  | float bits => exact writeFloat_eq floats bits out
  | decimal unscaled scale => exact writeDecimal_eq unscaled scale out
  | bytes bytes => exact writeHex_eq bytes out
  | timestamp micros offsetSecs => exact writeTimestamp_eq micros offsetSecs out
  | date days => rfl
  | time micros => exact writeTime_eq micros.toInt out
  | interval interval =>
    apply writeInterval_clear
    exact clear.imp id fun months => by simpa [leadsWithSeparator] using months
  | unknown typeName text raw =>
    cases text with
    | some text => rfl
    | none =>
      cases raw with
      | some raw => exact writeHex_eq raw out
      | none => simp [writeScalar, Store.writeScalar]
  | _ => simp [writeScalar, Store.writeScalar]

mutual

theorem writeText_clear (value : Value) (out : String) (clear : out = "" ∨ leadsWithSeparator value = false) :
    writeText floats value out = out ++ Store.writeText (floatText floats) value := by
  cases value with
  | array items =>
    rw [writeText, Store.writeText, writeItems_eq true items, ← String.toList_inj]
    simp
  | row items =>
    rw [writeText, Store.writeText, writeItems_eq true items, ← String.toList_inj]
    simp
  | map entries =>
    rw [writeText, Store.writeText, writeEntries_eq true entries, ← String.toList_inj]
    simp
  | _ =>
    simp only [writeText, Store.writeText]
    exact writeScalar_clear floats clear

/-- Inside a nested value nothing looks at the buffer. -/
theorem writeJsonLike_eq (value : Value) (out : String) :
    writeJsonLike floats value out = out ++ Store.writeJsonLike (floatText floats) value := by
  cases value with
  | array items =>
    rw [writeJsonLike, Store.writeJsonLike, writeItems_eq true items, ← String.toList_inj]
    simp
  | row items =>
    rw [writeJsonLike, Store.writeJsonLike, writeItems_eq true items, ← String.toList_inj]
    simp
  | map entries =>
    rw [writeJsonLike, Store.writeJsonLike, writeEntries_eq true entries, ← String.toList_inj]
    simp
  | null | bool | int | uint => simp only [writeJsonLike, Store.writeJsonLike]
  | float bits => exact writeFloat_eq floats bits out
  | _ =>
    simp only [writeJsonLike, Store.writeJsonLike]
    rw [writeJsonString_eq, writeScalar_clear floats (.inl rfl), String.empty_append]

theorem writeItems_eq (first : Bool) (items : List Value) (out : String) :
    writeItems floats first items out = out ++ Store.writeItems (floatText floats) first items := by
  cases items with
  | nil => simp [writeItems, Store.writeItems]
  | cons item rest =>
    rw [writeItems, Store.writeItems, writeItems_eq false rest, writeJsonLike_eq item]
    cases first <;> simp [String.append_assoc]

theorem writeEntries_eq (first : Bool) (entries : List (Value × Value)) (out : String) :
    writeEntries floats first entries out = out ++ Store.writeEntries (floatText floats) first entries := by
  cases entries with
  | nil => simp [writeEntries, Store.writeEntries]
  | cons entry rest =>
    obtain ⟨key, entry⟩ := entry
    rw [writeEntries, Store.writeEntries]
    rw [writeEntries_eq false rest, writeJsonLike_eq entry, writeJsonString_eq, writeText_clear key "" (.inl rfl),
      String.empty_append]
    cases first <;> simp [String.append_assoc]

end

theorem toText_some {value : Value} (some : value ≠ .null) :
    toText floats value = .some (writeText floats value "") := by
  cases value <;> first | rfl | exact absurd rfl some

/-- Rendering into a buffer is what was there and then the text of the value alone, for every
value but an interval without months, and for that one exactly in an empty buffer. -/
theorem write_text_appends_iff (value : Value) (some : value ≠ .null) (out : String) :
    (toText floats value).map (out ++ ·) = .some (writeText floats value out) ↔
      out = "" ∨ leadsWithSeparator value = false := by
  rw [toText_some floats some, Option.map_some, Option.some.injEq, writeText_clear floats value "" (.inl rfl),
    String.empty_append]
  constructor
  · intro same
    by_contra behind
    obtain ⟨used, leads⟩ := not_or.mp behind
    cases value with
    | interval interval =>
      have months : interval.months = 0 := by simpa [leadsWithSeparator] using leads
      have separated : writeText floats (.interval interval) out = out ++ ", " ++ Store.writeInterval interval := by
        rw [writeText, writeScalar, writeInterval_separated used months]
        all_goals intros; contradiction
      rw [separated] at same
      have lengths := congrArg String.length same
      simp [Store.writeText, Store.writeScalar, String.length_append] at lengths
    | _ => exact leads rfl
  · intro clear
    exact (writeText_clear floats value out clear).symm

end

/-- What `{}` and `{:e}` give of 1.5. -/
def oneAndAHalf : FloatText := ⟨fun _ => "1.5", fun _ => "1.5e0", fun _ => 0⟩

/-- A number behind the text of another cell. -/
theorem write_text_appends_iff_number :
    (toText oneAndAHalf (.float 0x3ff8000000000000)).map ("a," ++ ·) =
        some (writeText oneAndAHalf (.float 0x3ff8000000000000) "a,") ↔
      "a," = "" ∨ leadsWithSeparator (.float 0x3ff8000000000000) = false :=
  write_text_appends_iff oneAndAHalf (.float 0x3ff8000000000000) nofun "a,"

/-- Three days behind another cell: `a3 days, 0:00:00` is due, and `a, 3 days, 0:00:00` is written. -/
theorem interval_looks_at_the_buffer :
    ¬∀ floats value out, value ≠ .null → (toText floats value).map (out ++ ·) = some (writeText floats value out) := by
  intro always
  have same := always oneAndAHalf (.interval ⟨0, 3, 0⟩) "a" nofun
  revert same
  decide

end QueryHive.Store.Buffer
