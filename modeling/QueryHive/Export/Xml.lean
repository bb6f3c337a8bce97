import QueryHive.Export.Dbf
import QueryHive.Library.Xml

/-! The XML writer: a record for each row, an element for each cell, named after its column. The text of a
cell is escaped the way HTML is, without the control characters that XML has no form for. -/
namespace QueryHive.Export.Xml
open QueryHive.Library QueryHive.Store Text

/-- The settings of an export that the writer reads. -/
structure Options where
  xmlRoot : String
  xmlRecord : String
  deriving DecidableEq, Repr

/-- `is_xml_control`. -/
def isXmlControl (c : Char) : Bool :=
  c.toNat ≤ 0x08 || c.toNat = 0x0b || c.toNat = 0x0c || (0x0e ≤ c.toNat && c.toNat ≤ 0x1f)

def escapeChar (c : Char) : List Char :=
  if c = '&' then ['&', 'a', 'm', 'p', ';']
  else if c = '<' then ['&', 'l', 't', ';']
  else if c = '>' then ['&', 'g', 't', ';']
  else if c = '"' then ['&', 'q', 'u', 'o', 't', ';']
  else if c = '\'' then ['&', '#', 'x', '2', '7', ';']
  else [c]

/-- `escape`. -/
def escape (text : List Char) : List Char := text.flatMap escapeChar

def isTagChar (c : Char) : Bool := c.isAlphanum || c = '_' || c = '.' || c = '-'

/-- `xml_tag`. -/
def xmlTag (name : String) : List Char :=
  let tag := name.toList.map fun c => if isTagChar c then c else '_'
  let firstIsSafe := tag.head?.any fun c => c.isAlpha || c = '_'
  if firstIsSafe then tag else '_' :: tag

section
variable (floats : Buffer.FloatText)

/-- What a cell holds, without the characters the writer drops. -/
def cleaned (value : Value) : Option (List Char) :=
  (Buffer.toText floats value).map fun text => text.toList.filter (!isXmlControl ·)

/-- The element of a cell. A NULL is an empty element marked as nil. -/
def renderCell (tag : List Char) : Option (List Char) → List Char
  | none => [' ', ' ', ' ', ' ', '<'] ++ tag ++ " xsi:nil=\"true\"/>\n".toList
  | some cleaned => [' ', ' ', ' ', ' ', '<'] ++ tag ++ ['>'] ++ escape cleaned ++ ['<', '/'] ++ tag ++ ['>', '\n']

/-- `render_xml_row`. -/
def renderXmlRow (tags : List (List Char)) (record : String) (row : List Value) : List Char :=
  [' ', ' ', '<'] ++ record.toList ++ ['>', '\n'] ++
    (tags.zip row).flatMap (fun cell => renderCell cell.1 (cleaned floats cell.2)) ++
    [' ', ' ', '<', '/'] ++ record.toList ++ ['>', '\n']

structure XmlWriter where
  out : List UInt8
  tags : List (List Char)
  root : String
  record : String
  deriving DecidableEq, Repr

def declaration : List Char := "<?xml version=\"1.0\" encoding=\"UTF-8\"?>".toList

/-- `XmlWriter::new`. The file itself is what the writer has put out. -/
def XmlWriter.new (columns : List Dbf.ColumnMeta) (options : Options) : XmlWriter where
  out := encodeUtf8 (declaration ++ ['\n', '<'] ++ options.xmlRoot.toList ++ ['>', '\n'])
  tags := columns.map fun column => xmlTag column.name
  root := options.xmlRoot
  record := options.xmlRecord

/-- `write_row`. -/
def XmlWriter.writeRow (writer : XmlWriter) (row : List Value) : XmlWriter :=
  { writer with out := writer.out ++ encodeUtf8 (renderXmlRow floats writer.tags writer.record row) }

/-- `finish`. -/
def XmlWriter.finish (writer : XmlWriter) : XmlWriter :=
  { writer with out := writer.out ++ encodeUtf8 (['<', '/'] ++ writer.root.toList ++ ['>', '\n']) }

def export_ (columns : List Dbf.ColumnMeta) (options : Options) (rows : List (List Value)) : List UInt8 :=
  (rows.foldl (XmlWriter.writeRow floats) (XmlWriter.new columns options)).finish.out

end

end QueryHive.Export.Xml
