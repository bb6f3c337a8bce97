import QueryHive.Export.Dbf
import QueryHive.Library.Ascii
import QueryHive.Library.JsonLayout
import QueryHive.Store.JsonValue

/-! The JSON writer: an array of objects set in by two blanks, or one object on each line. The separator of the
array stands in front of every row but the first. -/
namespace QueryHive.Export.Json
open QueryHive.Library QueryHive.Store Text JsonText

/-- The settings of an export that the writer reads. -/
structure Options where
  jsonl : Bool
  indent : Nat
  deriving DecidableEq, Repr

/-- What `serde_json` prints for a string and for a float, and the number it reads in a token. -/
structure Serde where
  string : List Char → List Char
  float : UInt64 → List Char
  readNumber : List Char → Option Number

section
variable (serde : Serde)

def numberText : Number → List Char
  | .posInt n => Nat.toDigits 10 n.toNat
  | .negInt n _ => '-' :: Nat.toDigits 10 n.toInt.natAbs
  | .float bits _ => serde.float bits

/-- What is relied on: a string is printed as a JSON string, and a number as a JSON number that reads as itself. -/
structure Serde.Lawful : Prop where
  string_spells : ∀ text, Spells true (.value (.string text)) (serde.string text)
  float_number : ∀ bits, isFiniteFloat bits = true → isNumber (serde.float bits) = true
  number_read : ∀ number, serde.readNumber (numberText serde number) = some number

/-- `scalar_string`. -/
def scalarString (text : String) : List Char := serde.string text.toList

/-- `scalar_string_raw`, which no container reaches. -/
def scalarStringRaw : Json → List Char
  | .null => ['n', 'u', 'l', 'l']
  | .bool flag => if flag then ['t', 'r', 'u', 'e'] else ['f', 'a', 'l', 's', 'e']
  | .number number => numberText serde number
  | .string text => scalarString serde text
  | .array _ | .object _ => []

mutual

/-- `compact`. -/
def compact : Json → List Char
  | .object entries => '{' :: ([',', ' '].intercalate (compactEntries entries) ++ ['}'])
  | .array items => '[' :: ([',', ' '].intercalate (compactItems items) ++ [']'])
  | scalar => scalarStringRaw serde scalar

def compactEntries : List (String × Json) → List (List Char)
  | [] => []
  | (key, entry) :: rest => (scalarString serde key ++ ([':', ' '] ++ compact entry)) :: compactEntries rest

def compactItems : List Json → List (List Char)
  | [] => []
  | item :: rest => compact item :: compactItems rest

end

def pad (indent level : Nat) : List Char := List.replicate (indent * level) ' '

/-- What stands between an entry and the end of its line. -/
def comma {α : Type} (rest : List α) : List Char := if rest.isEmpty then [] else [',']

mutual

/-- `pretty`. -/
def pretty (indent level : Nat) : Json → List Char
  | .object [] => ['{', '}']
  | .object entries => ['{', '\n'] ++ prettyEntries indent level entries ++ pad indent level ++ ['}']
  | .array [] => ['[', ']']
  | .array items => ['[', '\n'] ++ prettyItems indent level items ++ pad indent level ++ [']']
  | scalar => scalarStringRaw serde scalar

def prettyEntries (indent level : Nat) : List (String × Json) → List Char
  | [] => []
  | (key, entry) :: rest =>
    pad indent (level + 1) ++ scalarString serde key ++ [':', ' '] ++ pretty indent (level + 1) entry ++
      comma rest ++ ['\n'] ++
      prettyEntries indent level rest

def prettyItems (indent level : Nat) : List Json → List Char
  | [] => []
  | item :: rest =>
    pad indent (level + 1) ++ pretty indent (level + 1) item ++ comma rest ++ ['\n'] ++ prettyItems indent level rest

end

/-- `split_inclusive('\n')`. -/
def splitInclusive : List Char → List (List Char)
  | [] => []
  | c :: rest =>
    if c = '\n' then [c] :: splitInclusive rest
    else match splitInclusive rest with
      | [] => [[c]]
      | line :: lines => (c :: line) :: lines

def setLinesIn (text : List Char) : List Char := (splitInclusive text).flatMap fun line => [' ', ' '] ++ line

end

structure JsonWriter where
  out : List UInt8
  names : List String
  lines : Bool
  indent : Nat
  first : Bool
  deriving DecidableEq, Repr

/-- `JsonWriter::new`. The file itself is what the writer has put out. -/
def JsonWriter.new (columns : List Dbf.ColumnMeta) (options : Options) : JsonWriter where
  out := if options.jsonl then [] else encodeUtf8 ['[', '\n']
  names := columns.map Dbf.ColumnMeta.name
  lines := options.jsonl
  indent := options.indent
  first := true

section
variable (floats : Buffer.FloatText) (quotient : BitVec 128 → UInt8 → UInt64) (serde : Serde)

/-- The loop of `row_object`, with the object built so far. -/
def rowMembers (object : List (String × Json)) (cells : List (String × Value)) : List (String × Json) :=
  cells.foldl (fun object cell => Json.insert cell.1 (toJsonValue floats quotient cell.2) object) object

/-- `row_object`. -/
def rowObject (names : List String) (row : List Value) : Json := .object (rowMembers floats quotient [] (names.zip row))

/-- `write_row`. -/
def JsonWriter.writeRow (writer : JsonWriter) (row : List Value) : JsonWriter :=
  let object := rowObject floats quotient writer.names row
  if writer.lines then { writer with out := writer.out ++ encodeUtf8 (compact serde object ++ ['\n']) }
  else
    let separator := if writer.first then [] else [',', '\n']
    { writer with
      out := writer.out ++ encodeUtf8 (separator ++ setLinesIn (pretty serde writer.indent 0 object))
      first := false }

/-- `finish`. -/
def JsonWriter.finish (writer : JsonWriter) : JsonWriter :=
  if writer.lines then writer
  else { writer with out := writer.out ++ encodeUtf8 (if writer.first then [']', '\n'] else ['\n', ']', '\n']) }

def export_ (columns : List Dbf.ColumnMeta) (options : Options) (rows : List (List Value)) : List UInt8 :=
  (rows.foldl (JsonWriter.writeRow floats quotient serde) (JsonWriter.new columns options)).finish.out

end

end QueryHive.Export.Json
