import QueryHive.Export.Dbf
import QueryHive.Library.Csv

/-! The `.txt` and `.csv` writer, and the source that reads such a file again. The writer puts a field
in quotes when it holds the delimiter, the quote, or a character of the line terminator. A reader ends a
record at either line ending and passes over blank lines, so some fields that the writer leaves bare are
not the ones it reads. -/
namespace QueryHive.Export.Delimited
open QueryHive.Library QueryHive.Store Csv Text

/-- The settings of an export that the writer reads. -/
structure Options where
  header : Bool
  delimiter : Option Char
  quotechar : Char
  nullText : String
  lineterminator : String
  bom : Bool
  encoding : String
  deriving DecidableEq, Repr

structure DelimitedWriter where
  out : List UInt8
  codec : Codec
  delimiter : Char
  quotechar : Char
  lineterminator : String
  nullText : String
  deriving DecidableEq, Repr

namespace DelimitedWriter

def needsQuotes (writer : DelimitedWriter) (field : String) : Bool :=
  field.toList.contains writer.delimiter || field.toList.contains writer.quotechar ||
    field.toList.any writer.lineterminator.toList.contains

def renderField (writer : DelimitedWriter) (field : String) : List Char :=
  if writer.needsQuotes field then
    writer.quotechar ::
      ((field.toList.flatMap fun c => if c = writer.quotechar then [writer.quotechar, c] else [c]) ++
        [writer.quotechar])
  else field.toList

/-- `render_fields`. -/
def renderFields (writer : DelimitedWriter) (fields : List String) : String :=
  String.ofList ([writer.delimiter].intercalate (fields.map writer.renderField) ++ writer.lineterminator.toList)

/-- `write_fields`. -/
def writeFields (writer : DelimitedWriter) (fields : List String) : DelimitedWriter :=
  { writer with out := writer.out ++ writer.codec.encode (writer.renderFields fields) }

/-- `DelimitedWriter::new`. The file itself is what the writer has put out. -/
def new (alphanumeric : Char → Bool) (columns : List Dbf.ColumnMeta) (options : Options) (csv : Bool) :
    Except String DelimitedWriter := do
  let codec ← Codec.resolve alphanumeric "ENCODING" options.encoding
  let writer : DelimitedWriter :=
    { out := if options.bom && codec.isUtf8 then encodeUtf8 [byteOrderMark] else []
      codec
      delimiter := options.delimiter.getD (if csv then ',' else '\t')
      quotechar := options.quotechar
      lineterminator := options.lineterminator
      nullText := options.nullText }
  if options.header then return writer.writeFields (columns.map Dbf.ColumnMeta.name)
  else return writer

def cellText (writer : DelimitedWriter) (floats : Buffer.FloatText) (value : Value) : String :=
  (Buffer.toText floats value).getD writer.nullText

/-- `write_row`. -/
def writeRow (floats : Buffer.FloatText) (writer : DelimitedWriter) (row : List Value) : DelimitedWriter :=
  writer.writeFields (row.map (writer.cellText floats))

end DelimitedWriter

def export_ (alphanumeric : Char → Bool) (floats : Buffer.FloatText) (columns : List Dbf.ColumnMeta) (options : Options)
    (csv : Bool) (rows : List (List Value)) : Except String (List UInt8) := do
  let writer ← DelimitedWriter.new alphanumeric columns options csv
  return (rows.foldl (DelimitedWriter.writeRow floats) writer).out

/-- An open file: its header, once it has been read, and the records still to come. -/
structure CsvSource where
  first : Option (List String)
  records : List (List String)
  deriving DecidableEq, Repr

namespace CsvSource

/-- `CsvSource::open` of a file in UTF-8, with the header read; a file that is not UTF-8 is refused. -/
def open_ {delimiter : Delimiter} (reader : CsvReader delimiter) (wantHeader : Bool) (file : List UInt8) :
    Option CsvSource :=
  if (fromUtf8 file).isNone then none
  else
    let records := (reader.file file).map (·.map String.ofList)
    match wantHeader, records with
    | true, first :: rest => some ⟨some first, rest⟩
    | _, records => some ⟨none, records⟩

/-- `header`. -/
def header (source : CsvSource) : Option (List String) := source.first.filter (· ≠ [])

/-- `next_row`, of which only the cells are kept. -/
def nextRow (source : CsvSource) : Option (List String) × CsvSource :=
  match source.records with
  | [] => (none, source)
  | row :: rest => (some row, { source with records := rest })

def rows : Nat → CsvSource → List (List String)
  | 0, _ => []
  | calls + 1, source =>
    match source.nextRow with
    | (none, _) => []
    | (some row, source) => row :: rows calls source

end CsvSource

end QueryHive.Export.Delimited
