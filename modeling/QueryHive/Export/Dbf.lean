import Mathlib.Algebra.Group.Int.Defs
import QueryHive.Export.Encoding
import QueryHive.Library.Bytes
import QueryHive.Store.RenderBuffer

/-! The dBase III+ writer. A record has a fixed width, so the width of every field is planned
before the header is written, and each value is put into exactly its field's bytes. Arithmetic
that leaves its type stops a debug build and wraps around in a release build; a division by zero
stops both. -/
namespace QueryHive.Export.Dbf
open QueryHive.Library QueryHive.Store

def maxRecordBytes : Nat := 4000

def dateWidth : Nat := 8

def numericWidth : Nat := 20

def defaultCharWidth : Nat := 254

/-- What the writer reads of a column. -/
structure ColumnMeta where
  name : String
  typeName : String
  deriving DecidableEq, Repr

inductive Kind where
  | logical | date | numeric | character
  deriving DecidableEq, Repr

def Kind.byte : Kind → UInt8
  | .logical => 0x4c
  | .date => 0x44
  | .numeric => 0x4e
  | .character => 0x43

/-- One field descriptor; the name is padded with zeros to eleven bytes. -/
structure Field where
  name : List UInt8
  kind : Kind
  width : Nat
  decimals : UInt8
  deriving DecidableEq, Repr

inductive Build where
  | debug | release
  deriving DecidableEq, Repr

def InI128 (n : Int) : Prop := -(2 ^ 127) ≤ n ∧ n < 2 ^ 127

instance : DecidablePred InI128 := fun n => inferInstanceAs (Decidable (-(2 ^ 127) ≤ n ∧ n < 2 ^ 127))

/-- A result in an `i128`. -/
def keepI128 (build : Build) (n : Int) : Option Int :=
  if InI128 n then some n
  else match build with
    | .debug => none
    | .release => some (n.bmod (2 ^ 128))

/-- `10i128.pow(exponent)`. -/
def powTen (build : Build) (exponent : Nat) : Option Int := keepI128 build (10 ^ exponent)

/-- `a / b`; a quotient out of range stops every build. -/
def divI128 (a b : Int) : Option Int := if b = 0 ∨ ¬InI128 (a.tdiv b) then none else some (a.tdiv b)

/-- `a % b`. -/
def remI128 (a b : Int) : Option Int := if b = 0 ∨ ¬InI128 (a.tdiv b) then none else some (a.tmod b)

/-- The magnitude doubled, in a `u128`. -/
def doubled (build : Build) (n : Int) : Option Nat :=
  if 2 * n.natAbs < 2 ^ 128 then some (2 * n.natAbs)
  else match build with
    | .debug => none
    | .release => some (2 * n.natAbs % 2 ^ 128)

/-- What the standard library says of a float: rendered, read, and rendered with so many places. -/
structure Floats extends Buffer.FloatText where
  parse : String → Option UInt64
  fixed : Nat → UInt64 → String

/-- `with_places`. -/
def withPlaces (digits : String) (places : Nat) : String :=
  if places = 0 then digits else digits ++ "." ++ String.ofList (List.replicate places '0')

/-- The division of `rescale`, rounded half to even. -/
def divideRounded (build : Build) (unscaled divisor : Int) : Option Int := do
  let quotient ← divI128 unscaled divisor
  let remainder ← remI128 unscaled divisor
  let away := quotient + if unscaled < 0 then -1 else 1
  match compare (← doubled build remainder) divisor.natAbs with
  | .gt => keepI128 build away
  | .lt => some quotient
  | .eq => if quotient % 2 = 0 then some quotient else keepI128 build away

/-- The number moved to `places` decimals: multiplied, or divided. -/
def shift (build : Build) (unscaled : Int) (scale places : Nat) : Option Int :=
  if scale ≤ places then do keepI128 build (unscaled * (← powTen build (places - scale)))
  else do divideRounded build unscaled (← powTen build (scale - places))

/-- `rescale`. -/
def rescale (build : Build) (unscaled : BitVec 128) (scale decimals : UInt8) : Option String :=
  (shift build unscaled.toInt scale.toNat decimals.toNat).map fun shifted =>
    writeDecimal (BitVec.ofInt 128 shifted) decimals

/-- `numeric_text`: `none` stops the process, `some none` is no number. -/
def numericText (build : Build) (floats : Floats) (value : Value) (decimals : UInt8) : Option (Option String) :=
  let places := decimals.toNat
  match value with
  | .int n => some (some (withPlaces (intText n.toInt) places))
  | .uint n => some (some (withPlaces (natText n.toNat) places))
  | .bool flag => some (some (withPlaces (if flag then "1" else "0") places))
  | .float bits =>
    some ((floats.parse (Buffer.writeFloat floats.toFloatText bits "")).map (floats.fixed places))
  | .decimal unscaled scale => (rescale build unscaled scale decimals).map some
  | .text text =>
    let trimmed := Text.trim text.toList
    if places = 0 then some ((Numeral.readSigned 128 trimmed).map intText)
    else some ((floats.parse (String.ofList trimmed)).map (floats.fixed places))
  | _ => some none

/-- `Vec::resize`. -/
def resize (width : Nat) (fill : UInt8) (bytes : List UInt8) : List UInt8 :=
  bytes.take width ++ List.replicate (width - bytes.length) fill

def blanks (width : Nat) : List UInt8 := List.replicate width 0x20

/-- `date_digits`; the width of a year counts its sign. -/
def dateDigits (days : Int) : String :=
  let (year, month, day) := Core.civilFromDays days
  let year := if year < 0 then "-" ++ paddedText 3 year.natAbs else paddedText 4 year.natAbs
  year ++ paddedText 2 month ++ paddedText 2 day

/-- `truthy`. -/
def truthy : Value → Bool
  | .null => false
  | .bool flag => flag
  | .int n => n != 0
  | .uint n => n != 0
  | .float bits => Buffer.absoluteBits bits != 0
  | .text text => text != ""
  | _ => true

section
variable (build : Build) (floats : Floats)

def dateText : Value → List Char
  | .date days => (dateDigits days.toInt).toList
  | .timestamp micros _ => (dateDigits (Int32.ofInt (micros.toInt / 86400000000)).toInt).toList
  | other => (((Buffer.toText floats.toFloatText other).getD "").toList.filter Char.isDigit).take dateWidth

/-- The text of a character field: a line end would shift every field after it. -/
def characterText (value : Value) : String :=
  String.ofList (((Buffer.toText floats.toFloatText value).getD "").toList.map fun c =>
    if c = '\r' ∨ c = '\n' then ' ' else c)

/-- `DbfWriter::encode`: the bytes, and whether the value was cut. -/
def encode (value : Value) (field : Field) (codec : Codec) : Option (List UInt8 × Bool) :=
  match field.kind with
  | .logical => match value with
    | .null => some ([0x3f], false)
    | value => some ([if truthy value then 0x54 else 0x46], false)
  | .date => match value with
    | .null => some (blanks dateWidth, false)
    | value => some (resize dateWidth 0x20 (Text.encodeUtf8 (dateText floats value)), false)
  | .numeric => match value with
    | .null => some (blanks field.width, false)
    | value => (numericText build floats value field.decimals).map fun text =>
      match text with
      | none => (blanks field.width, false)
      | some text =>
        let bytes := Text.utf8 text
        if field.width < bytes.length then (List.replicate field.width 0x2a, true)
        else (blanks (field.width - bytes.length) ++ bytes, false)
  | .character => match value with
    | .null => some (blanks field.width, false)
    | value =>
      let bytes := codec.encode (characterText floats value)
      some (resize field.width 0x20 bytes, decide (field.width < bytes.length))

def encodeRow (codec : Codec) : List (Value × Field) → Option (List UInt8 × Nat)
  | [] => some ([], 0)
  | (value, field) :: rest => do
    let (encoded, truncated) ← encode build floats value field codec
    let (record, cut) ← encodeRow codec rest
    some (encoded ++ record, (if truncated then 1 else 0) + cut)

end

/-- `A-Z0-9_`. -/
def isNameChar (c : Char) : Bool :=
  (65 ≤ c.toNat && c.toNat ≤ 90) || (48 ≤ c.toNat && c.toNat ≤ 57) || c == '_'

def nameChar (c : Char) : Char := if isNameChar c.toUpper then c.toUpper else '_'

def baseName (column : ColumnMeta) : List Char :=
  let base := (column.name.toList.map nameChar).take 10
  if base = [] then ['F', 'I', 'E', 'L', 'D'] else base

/-- The name with a number at its end. -/
def suffixed (base : List Char) (suffix : Nat) : List Char :=
  base.take (10 - (Nat.toDigits 10 suffix).length) ++ Nat.toDigits 10 suffix

/-- The `while` of `field_names`, as long as `fuel` lasts. -/
def freshName (seen : List (List Char)) (base : List Char) : Nat → List Char → Nat → Option (List Char)
  | 0, _, _ => none
  | fuel + 1, name, suffix =>
    if name ∈ seen then freshName seen base fuel (suffixed base suffix) (suffix + 1) else some name

/-- The names given out in order; `seen` holds those before. -/
def namesFrom (fuel : Nat) : List (List Char) → List ColumnMeta → Option (List (List Char))
  | _, [] => some []
  | seen, column :: rest => do
    let name ← freshName seen (baseName column) fuel (baseName column) 1
    let names ← namesFrom fuel (seen ++ [name]) rest
    some (name :: names)

def nameBytes (name : List Char) : List UInt8 := resize 11 0 ((Text.encodeUtf8 name).take 10)

/-- `field_names`. -/
def fieldNames (fuel : Nat) (columns : List ColumnMeta) : Option (List (List UInt8)) :=
  (namesFrom fuel [] columns).map fun names => names.map nameBytes

/-- The kind, the decimals and the width of a column; a character field has none of its own. -/
def planned (column : ColumnMeta) : Kind × UInt8 × Option Nat :=
  let base := (Text.trim (column.typeName.toList.takeWhile (· ≠ '('))).map Char.toLower
  let base := String.ofList base
  if base = "boolean" then (.logical, 0, some 1)
  else if base = "date" then (.date, 0, some dateWidth)
  else if base = "tinyint" ∨ base = "smallint" ∨ base = "integer" ∨ base = "int" ∨ base = "bigint" then
    (.numeric, 0, some numericWidth)
  else if base = "real" ∨ base = "double" ∨ base = "decimal" then (.numeric, 6, some numericWidth)
  else (.character, 0, none)

def characterWidth (columns : List ColumnMeta) (charWidth : Nat) : Nat :=
  let widths := columns.map fun column => (planned column).2.2
  let fixed := 1 + (widths.filterMap id).sum
  let budget := (maxRecordBytes - fixed) / (widths.filter Option.isNone).length
  max (min (min charWidth defaultCharWidth) budget) 1

/-- `plan_fields`. -/
def planFields (columns : List ColumnMeta) (names : List (List UInt8)) (charWidth : Nat) : List Field :=
  (columns.zip names).map fun (column, name) =>
    let (kind, decimals, width) := planned column
    { name, kind, decimals, width := width.getD (characterWidth columns charWidth) }

/-- The day of the header's stamp. -/
structure Today where
  year : Int
  month : UInt8
  day : UInt8
  deriving DecidableEq, Repr

/-- `header`: the record count is patched when the file is finished. -/
def header (headerLen recordLen : Nat) (languageDriver : UInt8) (today : Today) : List UInt8 :=
  [0x03, UInt8.ofInt (today.year - 1900), today.month, today.day] ++ Bytes.leBytes 4 0 ++
    Bytes.leBytes 2 headerLen ++ Bytes.leBytes 2 recordLen ++ [0, 0] ++ [0, 0] ++ List.replicate 12 0 ++
    [0, languageDriver] ++ [0, 0]

/-- `field_descriptor`. -/
def fieldDescriptor (field : Field) : List UInt8 :=
  field.name ++ [field.kind.byte] ++ List.replicate 4 0 ++ [UInt8.ofNat field.width] ++ [field.decimals] ++
    List.replicate 14 0

structure DbfWriter where
  out : List UInt8
  fields : List Field
  recordLen : Nat
  codec : Codec
  count : UInt32
  truncated : Nat
  deriving DecidableEq, Repr

/-- The two settings of an export that the writer reads. -/
structure Options where
  dbfCharWidth : Nat
  dbfEncoding : String
  deriving DecidableEq, Repr

/-- `DbfWriter::new`; `none` is a name that was still being looked for. -/
def DbfWriter.new (alphanumeric : Char → Bool) (fuel : Nat) (today : Today) (columns : List ColumnMeta)
    (options : Options) : Option (Except String DbfWriter) :=
  if 255 < columns.length then
    some (.error ("dbf supports 255 fields, the query returned " ++ natText columns.length ++ ". Use csv or xlsx."))
  else do
    let names ← fieldNames fuel columns
    let fields := planFields columns names options.dbfCharWidth
    let recordLen := 1 + (fields.map Field.width).sum
    match Codec.resolve alphanumeric "DBF_ENCODING" options.dbfEncoding with
    | .error message => return .error message
    | .ok codec =>
      if maxRecordBytes < recordLen then
        return .error ("a dbf record is limited to " ++ natText maxRecordBytes ++ " bytes and this query needs " ++
          natText recordLen ++ " across " ++ natText fields.length ++
          " fields. Export to csv or xlsx, or select fewer columns.")
      let headerLen := 32 + 32 * fields.length + 1
      let out := header headerLen recordLen codec.languageDriver today ++ fields.flatMap fieldDescriptor ++ [0x0d]
      return .ok { out, fields, recordLen, codec, count := 0, truncated := 0 }

def countOne (build : Build) (count : UInt32) : Option UInt32 :=
  if count.toNat + 1 < 2 ^ 32 then some (count + 1)
  else match build with
    | .debug => none
    | .release => some (count + 1)

/-- `write_row`. -/
def DbfWriter.writeRow (build : Build) (floats : Floats) (writer : DbfWriter) (row : List Value) :
    Option DbfWriter := do
  let (record, cut) ← encodeRow build floats writer.codec (row.zip writer.fields)
  let count ← countOne build writer.count
  some { writer with out := writer.out ++ 0x20 :: record, count, truncated := writer.truncated + cut }

def DbfWriter.writeRows (build : Build) (floats : Floats) (writer : DbfWriter) (rows : List (List Value)) :
    Option DbfWriter :=
  rows.foldlM (fun writer row => writer.writeRow build floats row) writer

/-- `finish`: the file, its record count patched over the zero of the header. -/
def DbfWriter.finish (writer : DbfWriter) : List UInt8 :=
  let file := writer.out ++ [0x1a]
  file.take 4 ++ Bytes.leBytes 4 writer.count.toNat ++ file.drop 8

end QueryHive.Export.Dbf
