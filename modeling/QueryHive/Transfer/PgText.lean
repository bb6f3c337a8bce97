import QueryHive.Store.RenderBuffer
import QueryHive.Transfer.DecimalText
import QueryHive.Transfer.JsonKeys
import QueryHive.Transfer.Types

/-! One value as the text PostgreSQL reads for its column, exactly as it is, or refused by a rule. Only the
kind of value a type is read as is taken; from PostgreSQL itself a few closed spellings pass as they are. -/
namespace QueryHive.Transfer
open QueryHive.Library QueryHive.Store
open Core (DriverKind)
open JsonText (Tree)

namespace SqlType

def unsigned : SqlType → Bool
  | .mk _ _ _ _ unsigned _ _ _ _ => unsigned

/-- `fraction`. -/
def fraction : SqlType → Nat
  | .mk _ _ _ _ _ _ fractionDigits _ _ => fractionDigits.getD 6

def element : SqlType → Option SqlType
  | .mk _ _ _ _ _ _ _ _ element => element

end SqlType

abbrev Checked := Except Rule

def floatExponent (bits : UInt64) : UInt64 := bits >>> 52 &&& 0x7FF

def isFinite (bits : UInt64) : Bool := floatExponent bits != 0x7FF

def isNan (bits : UInt64) : Bool := floatExponent bits == 0x7FF && bits &&& 0xFFFFFFFFFFFFF != 0

def isInfinite (bits : UInt64) : Bool := floatExponent bits == 0x7FF && bits &&& 0xFFFFFFFFFFFFF == 0

/-- `integer`: inside the range the source type declares. -/
def integer (sql : SqlType) (value : Value) : Checked Int := do
  let number ← match value with
    | .int number => pure number.toInt
    | .uint number => pure (number.toNat : Int)
    | _ => throw (.wrongKind "an integer")
  let bits := (sql.base.intBytes.getD 8) * 8
  let (low, high) := if sql.unsigned then ((0 : Int), (2 : Int) ^ bits - 1) else (-2 ^ (bits - 1), 2 ^ (bits - 1) - 1)
  if number < low ∨ high < number then throw (.outOfRange "an integer outside its column's range")
  return number

/-- `fraction_fits`: nothing is rounded. -/
def fractionFits (micros : Int) (digits : Nat) : Checked Unit :=
  if 6 ≤ digits then pure ()
  else if micros % 10 ^ (6 - digits) ≠ 0 then throw (.fraction (UInt32.ofNat digits))
  else pure ()

/-- `date_text`, inside so many years. -/
def dateText (days low high : Int) : Checked String :=
  let (year, month, day) := Core.civilFromDays days
  if year < low ∨ high < year then
    throw (.outOfRange (if 1000 ≤ low then "a date outside 1000-01-01 to 9999-12-31" else "a date before year 1"))
  else
    return paddedText 4 year.toNat ++ "-" ++ paddedText 2 month ++ "-" ++ paddedText 2 day

/-- `clock_text`. -/
def clockText (micros : Int) : String :=
  let seconds := micros.natAbs / 1000000
  let fraction := micros.natAbs % 1000000
  paddedText 2 (seconds / 3600) ++ ":" ++ paddedText 2 (seconds / 60 % 60) ++ ":" ++ paddedText 2 (seconds % 60) ++
    (if fraction ≠ 0 then "." ++ paddedText 6 fraction else "")

/-- `timestamp_text`. -/
def timestampText (micros : Int) (digits : Nat) (low high : Int) : Checked String := do
  fractionFits micros digits
  let days := micros / 86400000000
  let within := micros % 86400000000
  if days < -2147483648 ∨ 2147483647 < days then throw (.outOfRange "a timestamp beyond the supported years")
  let date ← dateText days low high
  return date ++ " " ++ clockText within

/-- `interval_text`: every field has its own sign. -/
def intervalText (interval : IntervalValue) : String :=
  let magnitude := interval.micros.toInt.natAbs
  let whole := magnitude / 1000000
  let fraction := magnitude % 1000000
  let sign := if interval.micros.toInt < 0 then "-" else ""
  let seconds := if fraction = 0 then sign ++ natText whole else sign ++ natText whole ++ "." ++ paddedText 6 fraction
  "P" ++ intText interval.months.toInt ++ "M" ++ intText interval.days.toInt ++ "DT" ++ seconds ++ "S"

def digitsBetween (text : List Char) (least most : Nat) : Bool :=
  least ≤ text.length && text.length ≤ most && text.all Char.isDigit

def isNumericSpecial (text : String) : Bool := text == "NaN" || text == "Infinity" || text == "-Infinity"

def isPgInfinity (text : String) : Bool := text == "infinity" || text == "-infinity"

/-- What follows a clock with an optional fraction (`clock_prefix`). -/
def afterClock : List Char → Option (List Char)
  | h :: h' :: ':' :: m :: m' :: ':' :: s :: s' :: rest =>
    if [h, h', m, m', s, s'].all Char.isDigit then
      match rest with
      | '.' :: more =>
        let fraction := (more.takeWhile Char.isDigit).length
        if 1 ≤ fraction ∧ fraction ≤ 6 then some (more.drop fraction) else none
      | rest => some rest
    else none
  | _ => none

/-- `is_offset`. -/
def isOffset : List Char → Bool
  | c :: rest =>
    (c == '+' || c == '-') &&
      match rest.splitOn ':' with
      | hours :: more => digitsBetween hours 2 2 && more.length ≤ 2 && more.all fun part => digitsBetween part 2 2
      | [] => false
  | [] => false

/-- `is_iso_date`. -/
def isIsoDate (text : List Char) : Bool :=
  match Text.splitN (· == '-') 3 text with
  | [year, month, day] =>
    4 ≤ year.length && year.all Char.isDigit && digitsBetween month 2 2 && digitsBetween day 2 2
  | _ => false

/-- The text without ` BC` behind it. -/
def withoutEra (text : List Char) : Option (List Char) :=
  if [' ', 'B', 'C'].isSuffixOf text then some (text.take (text.length - 3)) else none

/-- `is_iso_date_bc`. -/
def isIsoDateBc (text : String) : Bool := (withoutEra text.toList).any isIsoDate

/-- `is_iso_timestamp_bc`. -/
def isIsoTimestampBc (text : String) (zoned : Bool) : Bool :=
  (withoutEra text.toList).any fun body =>
    (Text.splitOnce (· == ' ') body).any fun (date, rest) =>
      isIsoDate date && (afterClock rest).any fun tail => if zoned then isOffset tail else tail.isEmpty

/-- `is_timetz`. -/
def isTimetz (text : String) : Bool := (afterClock text.toList).any isOffset

def isHexDigit (c : Char) : Bool := (JsonText.hexValue c).isSome

/-- `is_uuid`. -/
def isUuid (text : String) : Bool :=
  let groups := text.toList.splitOn '-'
  groups.length == 5 && ([8, 4, 4, 4, 12].zip groups).all fun (length, group) =>
    group.length == length && group.all isHexDigit

/-- `no_nul`. -/
def noNul (text : String) : Checked Unit := if Char.ofNat 0 ∈ text.toList then throw .nul else pure ()

/-- The JSON parser of the standard crate: the value of a text it takes. -/
structure Serde where
  parse : String → Option Tree
  /-- It takes valid texts only. -/
  valid : ∀ {text tree}, parse text = some tree → ∃ spelled, JsonText.IsText true spelled text.toList

/-- `json_valid`. -/
def jsonValid (serde : Serde) (text : String) : Checked Tree :=
  match serde.parse text with
  | some tree => pure tree
  | none => throw .notJson

mutual

/-- `json_has_nul`. -/
def jsonHasNul : Tree → Bool
  | .string text => text.contains (Char.ofNat 0)
  | .array items => itemsHaveNul items
  | .object members => membersHaveNul members
  | _ => false

def itemsHaveNul : List Tree → Bool
  | [] => false
  | item :: items => jsonHasNul item || itemsHaveNul items

def membersHaveNul : List (List Char × Tree) → Bool
  | [] => false
  | (key, value) :: members => key.contains (Char.ofNat 0) || jsonHasNul value || membersHaveNul members

end

/-- `json_for_jsonb`, whose scan for repeated keys has so much fuel. -/
def jsonForJsonb (serde : Serde) (fuel : Nat) (text : String) : Option (Checked Unit) :=
  match (do noNul text; jsonValid serde text) with
  | .error rule => some (throw rule)
  | .ok parsed =>
    if jsonHasNul parsed then some (throw .nul)
    else (JsonKeys.hasDuplicateKeys fuel text.toList).map fun repeated =>
      if repeated then throw .duplicateKey else pure ()

/-- `json_string`: other control characters are written by their numbers. -/
def jsonString (text : String) : String :=
  "\"" ++ String.join (text.toList.map fun c =>
    if c = '"' then "\\\""
    else if c = '\\' then "\\\\"
    else if c = '\n' then "\\n"
    else if c = '\r' then "\\r"
    else if c = '\t' then "\\t"
    else if c.toNat < 0x20 then "\\u00" ++ writeHex [UInt8.ofNat c.toNat]
    else String.singleton c) ++ "\""

/-- `json_key`. -/
def jsonKey : Value → Checked String
  | .text text => pure text
  | .int number => pure (intText number.toInt)
  | .uint number => pure (natText number.toNat)
  | .bool flag => pure (if flag then "true" else "false")
  | .decimal unscaled scale => pure (writeDecimal unscaled scale)
  | .date days => dateText days.toInt 1 99999999
  | _ => throw (.wrongKind "a map key with a text form")

section
variable (serde : Serde) (floats : Buffer.FloatText)

/-- The arms of `json_write` that write no nested value. -/
def jsonScalar : Value → Checked String
  | .bool flag => pure (if flag then "true" else "false")
  | .int number => pure (intText number.toInt)
  | .uint number => pure (natText number.toNat)
  | .float bits => if isFinite bits then pure (floats.plain bits) else throw .nonFinite
  | .decimal unscaled scale => pure (writeDecimal unscaled scale)
  | .text text => pure (jsonString text)
  | .date days => do return jsonString (← dateText days.toInt 1 99999999)
  | .time micros => pure (jsonString (clockText micros.toInt))
  | .timestamp micros offsetSecs => do
    let text ← timestampText micros.toInt 6 1 99999999
    return jsonString (if offsetSecs.isSome then text ++ "+00:00" else text)
  | .json text => do
    let _ ← jsonValid serde text
    return text
  | .bytes _ | .interval _ => throw (.wrongKind "a value with a JSON form")
  | .unknown .. => throw (.wrongKind "a value the driver could read")
  | .null | .array _ | .row _ | .map _ => pure "null"

mutual

/-- `json_write`: `MAX_DEPTH` is 64. -/
def jsonWrite (depth : Nat) : Value → Checked String
  | .array items | .row items =>
    if 64 < depth then throw .tooDeep
    else do return "[" ++ (← jsonItems (depth + 1) true items) ++ "]"
  | .map entries =>
    if 64 < depth then throw .tooDeep
    else do return "\x7b" ++ (← jsonEntries (depth + 1) true [] entries) ++ "\x7d"
  | scalar => if 64 < depth then throw .tooDeep else jsonScalar serde floats scalar

def jsonItems (depth : Nat) (first : Bool) : List Value → Checked String
  | [] => pure ""
  | item :: items => do
    let text ← jsonWrite depth item
    return (if first then "" else ",") ++ text ++ (← jsonItems depth false items)

def jsonEntries (depth : Nat) (first : Bool) (seen : List String) : List (Value × Value) → Checked String
  | [] => pure ""
  | (key, item) :: entries => do
    let key ← jsonKey key
    if key ∈ seen then throw .duplicateKey
    let text ← jsonWrite depth item
    return (if first then "" else ",") ++ jsonString key ++ ":" ++ text ++
      (← jsonEntries depth false (key :: seen) entries)

end

/-- `json_of_composite`. -/
def jsonOfComposite (base : Base) (value : Value) : Checked String :=
  match base, value with
  | .array, .array _ | .row, .row _ | .map, .map _ => jsonWrite serde floats 0 value
  | .array, _ => throw (.wrongKind "an array")
  | .row, _ => throw (.wrongKind "a row")
  | _, _ => throw (.wrongKind "a map")

end

def forwarded (source : DriverKind) (closed : Bool) (expected text : String) : Checked String :=
  if source = .postgres ∧ closed = true then pure text else throw (.wrongKind expected)

/-- Characters that fit the column, none of them U+0000. -/
def characterText (target : TargetType) (text : String) : Checked String := do
  noNul text
  let limit := match target with
    | .varchar n | .char n => some n
    | _ => none
  match limit with
  | some max => if max < text.toList.length then throw (.tooLong (UInt64.ofNat max) "characters") else return text
  | none => return text

section
variable (serde : Serde) (floats : Buffer.FloatText) (fuel : Nat)

/-- The arms of `pg_value`. `literal` writes the items of an array, by the type of an element. -/
def pgArm (literal : SqlType → TargetType → Option (Checked String)) (sql : SqlType) (target : TargetType)
    (source : DriverKind) (value : Value) : Option (Checked String) :=
  match sql.base, target with
  | .bool, _ =>
    match value with
    | .bool flag => some (pure (if flag then "t" else "f"))
    | _ => some (throw (.wrongKind "a boolean"))
  | .int8, _ | .int16, _ | .int24, _ | .int32, _ | .int64, _ => some (intText <$> integer sql value)
  | .float32, _ | .float64, _ =>
    match value with
    | .float bits =>
      some (pure (if isNan bits then "NaN"
        else if isInfinite bits then (if Buffer.isSignNegative bits then "-Infinity" else "Infinity")
        else floats.plain bits))
    | _ => some (throw (.wrongKind "a floating-point number"))
  | .decimal, .numeric precision scale =>
    match value with
    | .decimal unscaled s => decimalText fuel unscaled s (precision.map UInt32.ofNat) (UInt32.ofNat scale)
    | .text text =>
      some (forwarded source (isNumericSpecial text && (text == "NaN" || precision.isNone)) "an exact decimal" text)
    | _ => some (throw (.wrongKind "an exact decimal"))
  | .text, _ | .char, _ | .enum, _ | .set, _ =>
    match value with
    | .text text => some (characterText target text)
    | _ => some (throw (.wrongKind "text"))
  | .uuid, _ =>
    match value with
    | .text text => some (if isUuid text then pure text else throw (.notCanonical "uuid"))
    | _ => some (throw (.wrongKind "a uuid"))
  | .binary, _ =>
    match value with
    | .bytes bytes => some (pure ("\\x" ++ writeHex bytes))
    | _ => some (throw (.wrongKind "binary data"))
  | .date, _ =>
    match value with
    | .date days => some (dateText days.toInt 1 99999999)
    | .text text => some (forwarded source (isPgInfinity text || isIsoDateBc text) "a date" text)
    | _ => some (throw (.wrongKind "a date"))
  | .time, _ =>
    match value with
    | .time micros =>
      some do
        if micros.toInt < 0 ∨ 86400000000 < micros.toInt then
          throw (.outOfRange "a time outside 00:00:00 to 24:00:00")
        fractionFits micros.toInt sql.fraction
        return clockText micros.toInt
    | _ => some (throw (.wrongKind "a time"))
  | .timeTz, _ =>
    match value with
    | .text text => some (forwarded source (isTimetz text) "a time with time zone" text)
    | _ => some (throw (.wrongKind "a time with time zone"))
  | .timestamp, _ =>
    match value with
    | .timestamp micros none => some (timestampText micros.toInt sql.fraction 1 99999999)
    | .text text =>
      some (forwarded source (isPgInfinity text || isIsoTimestampBc text false) "a timestamp without a zone" text)
    | _ => some (throw (.wrongKind "a timestamp without a zone"))
  | .timestampTz, _ =>
    match value with
    | .timestamp micros (some _) => some ((· ++ "+00:00") <$> timestampText micros.toInt sql.fraction 1 99999999)
    | .text text =>
      some (forwarded source (isPgInfinity text || isIsoTimestampBc text true) "a timestamp with a zone" text)
    | _ => some (throw (.wrongKind "a timestamp with a zone"))
  | .interval, _ =>
    match value with
    | .interval interval => some (pure (intervalText interval))
    | _ => some (throw (.wrongKind "an interval"))
  | .json, _ =>
    match value with
    | .json text =>
      some do
        noNul text
        let _ ← jsonValid serde text
        return text
    | _ => some (throw (.wrongKind "JSON"))
  | .jsonb, _ =>
    match value with
    | .json text => (jsonForJsonb serde fuel text).map fun checked => do checked; return text
    | _ => some (throw (.wrongKind "JSON"))
  | .array, .array inner =>
    match value with
    | .text text =>
      -- An array with another lower bound than 1 begins with its bounds.
      if source = .postgres then
        some do
          noNul text
          if text.toList.head? = some '[' then throw .arrayBounds
          if text.toList.head? = some '{' ∧ text.toList.getLast? = some '}' then return text else throw .notAnArray
      else some (throw (.wrongKind "an array"))
    | .array _ =>
      if source = .postgres then some (throw (.wrongKind "an array"))
      else
        match sql.element with
        | some element => literal element inner
        | none => some (throw (.wrongKind "an array with an element type"))
    | _ => some (throw (.wrongKind "an array"))
  | .array, .jsonb | .map, .jsonb | .row, .jsonb =>
    match jsonOfComposite serde floats sql.base value with
    | .error rule => some (throw rule)
    | .ok text => (jsonForJsonb serde fuel text).map fun checked => do checked; return text
  | .builtin _, _ =>
    match value with
    | .text text => if source = .postgres then some (do noNul text; return text) else some (throw (.wrongKind "text"))
    | _ => some (throw (.wrongKind "text"))
  | _, _ => some (throw (.wrongKind "a value this column was planned for"))

/-- `is_null`. -/
def isNull : Value → Bool
  | .null => true
  | _ => false

/-- An element of an array literal, in quotes. -/
def quoteElement (text : String) : List Char :=
  '"' :: (text.toList.flatMap (fun c => if c = '"' ∨ c = '\\' then ['\\', c] else [c]) ++ ['"'])

mutual

/-- `pg_value`. Its arm for arrays is `pg_array`. -/
def pgValue (sql : SqlType) (target : TargetType) (source : DriverKind) : Value → Option (Checked String)
  | .array items =>
    pgArm serde floats fuel
      (fun element inner =>
        (pgItems element inner source true items).map fun checked => do
          return String.ofList ('{' :: ((← checked) ++ ['}'])))
      sql target source (.array items)
  | value => pgArm serde floats fuel (fun _ _ => none) sql target source value

/-- The items of `pg_array`'s literal. -/
def pgItems (element : SqlType) (inner : TargetType) (source : DriverKind) (first : Bool) :
    List Value → Option (Checked (List Char))
  | [] => some (pure [])
  | item :: items =>
    let lead := if first then [] else [',']
    if isNull item then
      (pgItems element inner source false items).map fun rest => do
        return lead ++ (['N', 'U', 'L', 'L'] ++ (← rest))
    else do
      match ← pgValue element inner source item with
      | .error rule => some (throw rule)
      | .ok text =>
        (pgItems element inner source false items).map fun rest => do
          return lead ++ (quoteElement text ++ (← rest))

end

/-- `pg_text`: none is NULL. -/
def pgText (column : PlannedColumn) (value : Value) : Option (Checked (Option String)) :=
  if isNull value then some (pure none)
  else (pgValue serde floats fuel column.ty column.resolved.ty column.source value).map (some <$> ·)

end

theorem dropZeros_more (found : dropZeros target fuel unscaled scale = some result) :
    dropZeros target (fuel + 1) unscaled scale = some result := by
  induction fuel generalizing unscaled scale with
  | zero => cases found
  | succ fuel ih =>
    rw [dropZeros_succ] at found ⊢
    split at found
    · next drops =>
      rw [if_pos drops]
      exact ih found
    · next stays => rwa [if_neg stays]

/-- The loop of `decimal_text` is as long as the scale, so fuel enough for one scale settles it. -/
theorem decimalText_settles (unscaled : BitVec 128) (scale : UInt8) (precision : Option UInt32) (target : UInt32) :
    ∃ result, Settles (fun fuel => decimalText fuel unscaled scale precision target) result := by
  cases precision with
  | none => exact ⟨_, settles_some _⟩
  | some precision =>
    obtain ⟨unscaled', scale', found, _⟩ := dropZeros_spec _ _ _ (Nat.lt_succ_self scale.toNat)
    have settles : Settles (fun fuel => dropZeros target fuel unscaled scale) (unscaled', scale') := by
      refine ⟨scale.toNat + 1, fun fuel enough => ?_⟩
      induction fuel, enough using Nat.le_induction with
      | base => exact found
      | succ fuel _ ih => exact dropZeros_more ih
    have ends : ∃ result, (if target < scale'.toUInt32 then some (.error (.scale scale'.toUInt32 target))
        else if (!wholeFits unscaled' scale' precision target) = true then
          some (.error (.wholeDigits (saturatingSub precision target)))
        else some (.ok (writeDecimal unscaled' scale')) : Option (Except Rule String)) = some result := by
      split
      · exact ⟨_, rfl⟩
      · split <;> exact ⟨_, rfl⟩
    obtain ⟨result, ended⟩ := ends
    exact ⟨result, settles.bind ⟨0, fun _ _ => ended⟩⟩

section
variable (serde : Serde) (floats : Buffer.FloatText)

theorem jsonForJsonb_settles (text : String) : ∃ result, Settles (fun fuel => jsonForJsonb serde fuel text) result := by
  unfold jsonForJsonb
  split
  · exact ⟨_, settles_some _⟩
  · next parsed taken =>
    split
    · exact ⟨_, settles_some _⟩
    · have read : serde.parse text = some parsed := by
        unfold noNul jsonValid at taken
        split at taken
        · cases taken
        · split at taken
          · next parsed' found =>
            cases taken
            exact found
          · cases taken
      obtain ⟨spelled, valid⟩ := serde.valid read
      exact ⟨_, (JsonKeys.hasDuplicateKeys_ends valid).map _⟩

theorem jsonText_settles (text : String) (answer : Checked Unit → Checked String) :
    ∃ result, Settles (fun fuel => (jsonForJsonb serde fuel text).map answer) result := by
  obtain ⟨checked, settles⟩ := jsonForJsonb_settles serde text
  exact ⟨_, settles.map answer⟩

theorem pgArm_settles {literal : Nat → SqlType → TargetType → Option (Checked String)} (sql : SqlType)
    (target : TargetType) (source : DriverKind) (value : Value)
    (literals : ∀ items, value = .array items → ∀ element inner,
    ∃ result, Settles (fun fuel => literal fuel element inner) result) :
    ∃ result, Settles (fun fuel => pgArm serde floats fuel (literal fuel) sql target source value) result := by
  unfold pgArm
  split
  -- Most arms use no fuel.
  all_goals try exact ⟨_, settles_some _⟩
  all_goals try (split <;> try exact ⟨_, settles_some _⟩)
  · exact decimalText_settles _ _ _ _
  · exact jsonText_settles serde _ _
  · split <;> exact ⟨_, settles_some _⟩
  · split
    · exact ⟨_, settles_some _⟩
    · split
      · exact literals _ rfl _ _
      · exact ⟨_, settles_some _⟩
  · exact jsonText_settles serde _ _
  · exact jsonText_settles serde _ _
  · exact jsonText_settles serde _ _
  · split <;> exact ⟨_, settles_some _⟩

mutual

theorem pgValue_settles (sql : SqlType) (target : TargetType) (source : DriverKind) (value : Value) :
    ∃ result, Settles (fun fuel => pgValue serde floats fuel sql target source value) result := by
  cases value with
  | array items =>
    simp only [pgValue]
    refine pgArm_settles serde floats sql target source _ fun other same element inner => ?_
    obtain ⟨result, settles⟩ := pgItems_settles element inner source true items
    exact ⟨_, settles.map _⟩
  | _ =>
    simp only [pgValue]
    exact pgArm_settles serde floats sql target source _ fun items same => by cases same

theorem pgItems_settles (element : SqlType) (inner : TargetType) (source : DriverKind) (first : Bool)
    (items : List Value) :
    ∃ result, Settles (fun fuel => pgItems serde floats fuel element inner source first items) result := by
  cases items with
  | nil =>
    simp only [pgItems]
    exact ⟨_, settles_some _⟩
  | cons item items =>
    obtain ⟨rest, settlesRest⟩ := pgItems_settles element inner source false items
    obtain ⟨text, settles⟩ := pgValue_settles element inner source item
    simp only [pgItems]
    split
    · exact ⟨_, settlesRest.map _⟩
    · cases text with
      | error rule => exact ⟨_, settles.bind (settles_some _)⟩
      | ok text => exact ⟨_, settles.bind (settlesRest.map _)⟩

end

theorem pgText_settles (column : PlannedColumn) (value : Value) :
    ∃ result, Settles (fun fuel => pgText serde floats fuel column value) result := by
  unfold pgText
  split
  · exact ⟨_, settles_some _⟩
  · obtain ⟨result, settles⟩ := pgValue_settles serde floats column.ty column.resolved.ty column.source value
    exact ⟨_, settles.map _⟩

end

end QueryHive.Transfer
