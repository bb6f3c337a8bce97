import QueryHive.Columnar.Chunk
import QueryHive.Store.CalendarDate
import QueryHive.Store.PlainNumber
import QueryHive.Store.RenderBuffer

/-! The text a grid cell shows and the bits beside it. `render_cell_into` renders the value, asks
the chunk and the text for the bits, applies the column's format and cuts the result at a cluster
boundary; a NULL has no text and one bit. What floats, clusters and the JSON parser do comes with
`Outside`. -/
namespace QueryHive.Store.Cell
open QueryHive.Columnar QueryHive.Library QueryHive.Library.Machine QueryHive.Library.Text

/-- `serde_json::Value`; a number is the text it prints. -/
inductive JsonTree where
  | null
  | bool (flag : Bool)
  | number (text : String)
  | string (text : String)
  | array (items : List JsonTree)
  | object (entries : List (String × JsonTree))

/-- What the cells rest on outside the repository, and the arithmetic of doubles. -/
structure Outside where
  floats : Buffer.FloatText
  /-- `graphemes(true)`: the clusters of a text, one after another. -/
  graphemes : String → List String
  /-- `serde_json::from_str`. -/
  parseJson : String → Option JsonTree
  /-- The milliseconds of `unix_timestamp`: `none` for a text that is no finite number, and no
  milliseconds for one past the limits. -/
  unixMillis : String → Option (Option Int64)

/-- `ColumnFormat`. -/
inductive ColumnFormat where
  | raw | text | uuid | unixTimestamp | json
  deriving DecidableEq, Repr

/-- The bytes that may follow a first byte of three or four. -/
def secondByte (first second : UInt8) : Bool :=
  if first = 0xE0 then 0xA0 ≤ second && second ≤ 0xBF
  else if first = 0xED then 0x80 ≤ second && second ≤ 0x9F
  else if first = 0xF0 then 0x90 ≤ second && second ≤ 0xBF
  else if first = 0xF4 then 0x80 ≤ second && second ≤ 0x8F
  else 0xE1 ≤ first && first ≤ 0xF3 && 0x80 ≤ second && second ≤ 0xBF

/-- How many bytes one replacement character stands for, where no character begins. -/
def invalidLength : List UInt8 → Nat
  | first :: second :: rest =>
    if secondByte first second then
      match rest with
      | third :: _ => if 0xF0 ≤ first && 0x80 ≤ third && third ≤ 0xBF then 3 else 2
      | [] => 2
    else 1
  | _ => 1

def lossyChars : Nat → List UInt8 → List Char
  | 0, _ => []
  | _, [] => []
  | fuel + 1, bytes =>
    match (ByteArray.mk bytes.toArray).utf8DecodeChar? 0 with
    | some c => c :: lossyChars fuel (bytes.drop c.utf8Size)
    | none => '\uFFFD' :: lossyChars fuel (bytes.drop (invalidLength bytes))

/-- `String::from_utf8_lossy`: valid bytes are their text. -/
def fromUtf8Lossy (bytes : List UInt8) : String :=
  match fromUtf8 bytes with
  | some text => text
  | none => String.ofList (lossyChars bytes.length bytes)

theorem fromUtf8Lossy_utf8 (text : String) : fromUtf8Lossy (utf8 text) = text := by
  rw [fromUtf8Lossy, fromUtf8_utf8]

def hexValue (c : Char) : Option Nat :=
  if '0' ≤ c ∧ c ≤ '9' then some (c.toNat - 48)
  else if 'a' ≤ c ∧ c ≤ 'f' then some (c.toNat - 87)
  else if 'A' ≤ c ∧ c ≤ 'F' then some (c.toNat - 55)
  else none

/-- `u8::from_str_radix` with 16 of two characters, which may be a plus and a digit. -/
def hexByte (high low : Char) : Option UInt8 :=
  if high = '+' then (hexValue low).map UInt8.ofNat
  else (hexValue high).bind fun h => (hexValue low).map fun l => UInt8.ofNat (16 * h + l)

/-- The bytes of each two characters; what is no byte is left out. -/
def hexBytes : List Char → List UInt8
  | high :: low :: rest => (hexByte high low).toList ++ hexBytes rest
  | _ => []

/-- The text behind one of the marks of hexadecimal text. -/
def stripHexMark : List Char → List Char
  | '\\' :: 'x' :: rest | '\\' :: 'X' :: rest | '0' :: 'x' :: rest | '0' :: 'X' :: rest => rest
  | text => text

/-- `format_text`. The text of a `Bytes` cell is hexadecimal, a byte for each character. -/
def formatText (text : String) (encoding : Encoding) : String :=
  if encoding ≠ .bytes then text
  else
    let stripped := stripHexMark text.toList
    if stripped.length % 2 ≠ 0 then text else fromUtf8Lossy (hexBytes stripped)

/-- `swift_hex_digit`: the fullwidth forms count. -/
def swiftHexDigit (c : Char) : Bool :=
  (hexValue c).isSome || (0xFF10 ≤ c.toNat && c.toNat ≤ 0xFF19) || (0xFF21 ≤ c.toNat && c.toNat ≤ 0xFF26) ||
    (0xFF41 ≤ c.toNat && c.toNat ≤ 0xFF46)

/-- `char::to_lowercase` of a hex digit. -/
def lowerHexDigit (c : Char) : Char :=
  if ('A' ≤ c ∧ c ≤ 'F') ∨ (0xFF21 ≤ c.toNat ∧ c.toNat ≤ 0xFF26) then Char.ofNat (c.toNat + 32) else c

/-- `canonical_uuid`. -/
def canonicalUuid (text : String) : Option String :=
  if ¬text.toList.all (fun c => swiftHexDigit c || c == '-') then none
  else
    let digits := (text.toList.filter swiftHexDigit).map lowerHexDigit
    if digits.length ≠ 32 then none
    else
      let part (first last : Nat) := String.ofList ((digits.take last).drop first)
      some (part 0 8 ++ "-" ++ part 8 12 ++ "-" ++ part 12 16 ++ "-" ++ part 16 20 ++ "-" ++ part 20 32)

section
variable (outside : Outside)

/-- `unix_timestamp`: the year of an era is never negative. -/
def unixTimestamp (text : String) : Option String :=
  match outside.unixMillis (String.ofList (trim text.toList)) with
  | none => none
  | some none => some ""
  | some (some millis) =>
    let whole := divEuclid millis 1000
    let withinDay := (remEuclid whole 86400).toInt.toNat
    let (year, month, day) := CalendarDate.calendarDate (divEuclid whole 86400)
    some (paddedText 4 year.toInt.toNat ++ "-" ++ paddedText 2 month.toNat ++ "-" ++ paddedText 2 day.toNat ++ " " ++
      paddedText 2 (withinDay / 3600) ++ ":" ++ paddedText 2 (withinDay % 3600 / 60) ++ ":" ++
        paddedText 2 (withinDay % 60))

/-- A character of a JSON string; the solidus is escaped. -/
def prettyChar (c : Char) : String :=
  if c = '"' then "\\\""
  else if c = '\\' then "\\\\"
  else if c = '/' then "\\/"
  else if c = '\n' then "\\n"
  else if c = '\r' then "\\r"
  else if c = '\t' then "\\t"
  else if c.toNat < 32 then "\\u00" ++ Store.writeHex [UInt8.ofNat c.toNat]
  else String.singleton c

def prettyString (text : String) : String := "\"" ++ String.join (text.toList.map prettyChar) ++ "\""

def indent (depth : Nat) : String := String.join (List.replicate depth "  ")

/-- The lines of a container between its brackets. -/
def prettyLines (opening closing : String) (depth : Nat) : List String → String
  | [] => opening ++ closing
  | lines =>
    opening ++ "\n" ++ String.intercalate ",\n" (lines.map (indent (depth + 1) ++ ·)) ++ "\n" ++ indent depth ++ closing

mutual
/-- `write_pretty_json`. -/
def prettyJsonAt (depth : Nat) : JsonTree → String
  | .null => "null"
  | .bool flag => if flag then "true" else "false"
  | .number text => text
  | .string text => prettyString text
  | .array items => prettyLines "[" "]" depth (prettyItems (depth + 1) items)
  | .object entries =>
    -- Sorting by key before or after each value is printed is the same.
    let sorted := (prettyEntries (depth + 1) entries).mergeSort fun a b => !decide (b.1 < a.1)
    prettyLines "\x7b" "\x7d" depth (sorted.map fun (key, text) => prettyString key ++ " : " ++ text)

def prettyItems (depth : Nat) : List JsonTree → List String
  | [] => []
  | item :: items => prettyJsonAt depth item :: prettyItems depth items

def prettyEntries (depth : Nat) : List (String × JsonTree) → List (String × String)
  | [] => []
  | (key, item) :: entries => (key, prettyJsonAt depth item) :: prettyEntries depth entries
end

/-- `pretty_json`. -/
def prettyJson (text : String) : Option String := (outside.parseJson text).map (prettyJsonAt 0)

/-- `replace('\n', " ")`. -/
def withoutLineEnds (text : String) : String := text.map fun c => if c = '\n' then ' ' else c

def utf16Length (text : String) : Nat := (text.toList.map fun c => if 0x10000 ≤ c.toNat then 2 else 1).sum

/-- The clusters that fit, up to the first that does not. -/
def fitting (limit : Nat) : Nat → List String → List String
  | _, [] => []
  | units, cluster :: rest =>
    if units + utf16Length cluster > limit then [] else cluster :: fitting limit (units + utf16Length cluster) rest

/-- `truncate_utf16`. -/
def truncateUtf16 (text : String) (limit : Nat) : String :=
  if text.utf8ByteSize ≤ limit then text else String.join (fitting limit 0 (outside.graphemes text))

end

/-- `TRUNCATE_UTF16`. -/
def truncateLimit : Nat := 256

def cellNull : UInt8 := 1
def cellEmpty : UInt8 := 2
def cellOpenable : UInt8 := 4
def cellNumeric : UInt8 := 8
def cellTruncated : UInt8 := 16

/-- `CowCell`. -/
structure CowCell where
  text : List UInt8
  flags : UInt8

/-- `ChunkFlags`: an optional bitmap for each column. Only the openable bits are read here. -/
structure ChunkFlags where
  openable : List (Option (List Bool))

/-- `is_null`: an array without cells has no validity bits, and says no. -/
def isNull (array : ArrowArray) (row : Nat) : Bool :=
  match array with
  | .null _ => false
  | .boolean cells => cells[row]? == some none
  | .int64 cells | .time64Micros cells | .timestampMicros _ cells => cells[row]? == some none
  | .uint64 cells | .float64 cells => cells[row]? == some none
  | .decimal128 _ _ cells => cells[row]? == some none
  | .date32 cells => cells[row]? == some none
  | .intervalMonthDayNano cells => cells[row]? == some none
  | .utf8 cells => cells[row]? == some none
  | .binary cells => cells[row]? == some none

/-- `text_at` of a column of text. -/
def textAt (array : ArrowArray) (encoding : Encoding) (row : Nat) : Except ColumnarError (Option String) :=
  if isNull array row then .ok none
  else match array with
    | .utf8 cells => .ok cells[row]?.join
    | _ => .error (.mismatch encoding array.dataType)

section
variable (outside : Outside)

/-- The text per encoding, and the bit of a byte string that is cut before it is rendered. -/
def cellValue (array : ArrowArray) (encoding : Encoding) (row : Nat) (full : Bool) :
    Except ColumnarError (String × UInt8) :=
  match encoding with
  | .text | .json => do
    let text ← textAt array encoding row
    .ok (text.getD "", 0)
  | .bytes => do
    let value ← valueAt array encoding row
    match value with
    | .bytes bytes =>
      let limit := if full then bytes.length else truncateLimit / 2
      .ok ((Buffer.toText outside.floats (.bytes (bytes.take limit))).getD "",
        if limit < bytes.length then cellTruncated else 0)
    | _ => .ok ("", 0)
  | _ => do
    let value ← valueAt array encoding row
    .ok ((Buffer.toText outside.floats value).getD "", 0)

def formatted (format : ColumnFormat) (text : String) (encoding : Encoding) : String :=
  match format with
  | .raw => text
  | .text => formatText text encoding
  | .uuid => (canonicalUuid text).getD text
  | .unixTimestamp => (unixTimestamp outside text).getD text
  | .json => ((prettyJson outside text).map withoutLineEnds).getD text

/-- Whether the bit of a cell is set in the bitmap of its column. -/
def openable (flags : ChunkFlags) (column row : Nat) : Bool :=
  ((flags.openable[column]?).join.bind (·[row]?)).getD false

/-- `render_cell_into`: the cell, and the heap with its text behind. -/
def renderCellInto (array : ArrowArray) (encoding : Encoding) (row column : Nat) (format : ColumnFormat) (full : Bool)
    (heap : List UInt8) (flags : ChunkFlags) : Except ColumnarError (CowCell × List UInt8) :=
  if encoding == .null || isNull array row then .ok (⟨[], cellNull⟩, heap)
  else do
    let (text, cut) ← cellValue outside array encoding row full
    let empty := if text.isEmpty then cellEmpty else 0
    let opens := if openable flags column row then cellOpenable else 0
    -- `is_swift_plain_number` is `swift_plain_number` without its key.
    let numeric := if [.text, .json, .tagged, .bytes, .f64].contains encoding && (swiftPlainNumber text).isSome
      then cellNumeric else 0
    let shown := formatted outside format text encoding
    let final := if full then shown else truncateUtf16 outside shown truncateLimit
    let truncated := if final ≠ shown then cellTruncated else 0
    .ok (⟨utf8 final, cut ||| empty ||| opens ||| numeric ||| truncated⟩, heap ++ utf8 final)

/-- A cell is what it is whatever the heap holds: its text is put behind, and it is a text. -/
theorem renderCellInto_ok (rendered : renderCellInto outside array encoding row column format full heap flags =
    .ok (cell, grown)) :
    (∃ text, cell.text = utf8 text) ∧
      ∀ other, renderCellInto outside array encoding row column format full other flags =
        .ok (cell, other ++ cell.text) := by
  unfold renderCellInto at rendered ⊢
  split at rendered
  · next null =>
    cases rendered
    refine ⟨⟨"", rfl⟩, fun other => ?_⟩
    rw [if_pos null, List.append_nil]
  · next shown =>
    obtain ⟨⟨text, cut⟩, read, done⟩ := Result.bind_ok_iff.mp rendered
    cases done
    refine ⟨⟨_, rfl⟩, fun other => ?_⟩
    rw [if_neg shown, read]
    rfl

end

end QueryHive.Store.Cell
