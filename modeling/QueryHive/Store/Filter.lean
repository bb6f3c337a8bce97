import Mathlib.Algebra.Ring.Int.Defs
import Mathlib.Algebra.Ring.Nat
import Mathlib.Data.List.Infix
import QueryHive.Store.Value

/-! Which rows of a chunk a view keeps. Filters are ported from the Swift grid:
values compare after NFC, a needle may start with a comparison operator, and the
search is a case-insensitive substring over every column. Unicode tables, number
parsing and the rendering of a value are parameters; the rules are here. -/
namespace QueryHive.Store

/-- An exact decimal sort key. -/
structure NumKey where
  neg : Bool
  adjExp : Int
  digits : List UInt8
  deriving DecidableEq, Repr

def NumKey.sign (key : NumKey) : Int :=
  if key.digits.isEmpty then 0 else if key.neg then -1 else 1

def NumKey.magnitude (key : NumKey) : Int := key.adjExp + key.digits.length

def NumKey.cmp (left right : NumKey) : Ordering :=
  let bySign := compare left.sign right.sign
  if bySign ≠ .eq || left.sign = 0 then bySign
  else
    let order := (compare left.magnitude right.magnitude).then (compare left.digits right.digits)
    if left.neg then order.swap else order

/-- The text functions a view rests on: `to_text`, Unicode normalization and
lower case, and the number and natural-key readers of the collation. -/
structure Collate where
  toText : Value → Option String
  nfc : String → String
  toLowercase : String → String
  swiftDouble : String → Option Float
  swiftPlainNumber : String → Option NumKey
  naturalKey : String → List UInt8

/-- The longest part that begins and ends with a character that stays. -/
def trimMatches (strip : Char → Bool) (s : String) : String :=
  String.ofList ((s.toList.dropWhile strip).reverse.dropWhile strip).reverse

def isZsOrTab (c : Char) : Bool :=
  c.val ∈ [0x20, 0xa0, 0x1680, 0x202f, 0x205f, 0x3000, 0x09] || (0x2000 ≤ c.val && c.val ≤ 0x200a)

def trimZsTab (s : String) : String := trimMatches isZsOrTab s

/-- `char::is_whitespace`, the `White_Space` property. -/
def isWhitespace (c : Char) : Bool :=
  c.val ∈ [0x20, 0x85, 0xa0, 0x1680, 0x2028, 0x2029, 0x202f, 0x205f, 0x3000] ||
    (0x09 ≤ c.val && c.val ≤ 0x0d) || (0x2000 ≤ c.val && c.val ≤ 0x200a)

def trimSearch (s : String) : String :=
  trimMatches (fun c => isWhitespace c || c.val ∈ [0x85, 0x2028, 0x2029]) s

def isAscii (s : String) : Bool := s.toList.all fun c => c.val < 128

def containsText (haystack needle : String) : Bool := decide (needle.toList <:+: haystack.toList)

/-- The special folding table, one replacement after another. -/
def foldings : List (String × String) :=
  [("ß", "ss"), ("\ufb00", "ff"), ("\ufb01", "fi"), ("\ufb02", "fl"), ("\ufb03", "ffi"), ("\ufb04", "ffl"),
    ("\ufb05", "ft"), ("\ufb06", "st"), ("ς", "σ"), ("İ", "i\u0307")]

def fold (c : Collate) (s : String) : String :=
  foldings.foldl (fun folded entry => folded.replace entry.1 entry.2) (c.toLowercase (c.nfc s))

def ciContains (c : Collate) (haystack needle : String) : Bool :=
  if needle = "" then true
  else if isAscii haystack && isAscii needle then containsText haystack.toLower needle.toLower
  else containsText (fold c haystack) (fold c needle)

def ciEqual (c : Collate) (a b : String) : Bool :=
  if isAscii a && isAscii b then a.toLower == b.toLower else fold c a == fold c b

/-- The comparison operators, in the order they are tried. -/
inductive CompareOp where
  | ge | le | gt | lt | eq
  deriving DecidableEq, Repr

def CompareOp.token : CompareOp → String
  | .ge => ">="
  | .le => "<="
  | .gt => ">"
  | .lt => "<"
  | .eq => "="

def compareOps : List CompareOp := [.ge, .le, .gt, .lt, .eq]

def compareF64 (op : CompareOp) (left right : Float) : Bool :=
  match op with
  | .ge => decide (right ≤ left)
  | .le => decide (left ≤ right)
  | .gt => decide (right < left)
  | .lt => decide (left < right)
  | .eq => false

def compareString (c : Collate) (op : CompareOp) (left right : String) : Bool :=
  let left := c.nfc left
  let right := c.nfc right
  match op with
  | .ge => decide (right ≤ left)
  | .le => decide (left ≤ right)
  | .gt => decide (right < left)
  | .lt => decide (left < right)
  | .eq => false

def stripPrefix (token s : String) : Option String :=
  if token.toList.isPrefixOf s.toList then some (String.ofList (s.toList.drop token.toList.length)) else none

/-- The operators left to try; an empty operand breaks out of the loop. -/
def matchesOps (c : Collate) (value trimmed : String) : List CompareOp → Bool
  | [] => ciContains c value trimmed
  | op :: later =>
    match stripPrefix op.token trimmed with
    | none => matchesOps c value trimmed later
    | some rest =>
      let operand := trimZsTab rest
      if operand = "" then ciContains c value trimmed
      else
        match op with
        | .eq => ciEqual c value operand
        | _ =>
          match c.swiftDouble value, c.swiftDouble operand with
          | some left, some right => compareF64 op left right
          | _, _ => compareString c op value operand

def matchesText (c : Collate) (value needle : String) : Bool :=
  let trimmed := trimZsTab needle
  if trimmed = "" then true else matchesOps c value trimmed compareOps

/-- A per-column value filter. -/
inductive FilterSpec where
  | values (column : Nat) (values : List (Option String))
  | text (column : Nat) (needle : String)
  deriving DecidableEq, Repr

def FilterSpec.column : FilterSpec → Nat
  | .values column _ => column
  | .text column _ => column

def FilterSpec.matches (c : Collate) : FilterSpec → Value → Bool
  | .values _ entries, .null => entries.any Option.isNone
  | .values _ entries, other =>
    let text := c.nfc ((c.toText other).getD "")
    entries.any fun entry => entry.any fun entry => c.nfc entry == text
  -- A blank needle keeps NULL rows; any other needle drops them.
  | .text _ needle, .null => trimZsTab needle = ""
  | .text _ needle, other => matchesText c ((c.toText other).getD "") needle

/-- One view request; `sort` is a column and whether it descends. -/
structure ViewSpec where
  sort : Option (Nat × Bool)
  filters : List FilterSpec
  search : String
  deriving DecidableEq, Repr

def ViewSpec.isIdentity (spec : ViewSpec) : Bool :=
  spec.sort.isNone && spec.filters.isEmpty && trimSearch spec.search = ""

def ViewSpec.needsRows (spec : ViewSpec) : Bool :=
  !spec.filters.isEmpty || trimSearch spec.search ≠ ""

/-- A sealed chunk: the rows of its batch, and in each column what `value_at`
reads in each row, nothing where it refuses the cell. -/
structure StoreChunk where
  numRows : Nat
  columns : List (List (Option Value))

/-- One chunk in the index. A chunk read back from the spill file is the chunk
that was written, so an entry keeps the chunk itself. -/
structure ChunkEntry where
  firstRow : Nat
  rows : Nat
  chunk : StoreChunk

/-- `as u32`, and the sum of two `u32` in a release build. -/
def asU32 (n : Nat) : Nat := n % 2 ^ 32

def valueOf (chunk : StoreChunk) (column row : Nat) : Option Value :=
  ((chunk.columns[column]?).bind (·[row]?)).join

/-- The search looks at every column and skips NULLs. -/
def searchHit (c : Collate) (chunk : StoreChunk) (search : String) (row : Nat) : Bool :=
  (List.range chunk.columns.length).any fun column =>
    match valueOf chunk column row with
    | none => false
    | some .null => false
    | some value => ciContains c ((c.toText value).getD "") search

/-- Every filter passes, and the search hits when there is one. A filter on a
column past the chunk's width matches nothing. -/
def keepsRow (c : Collate) (spec : ViewSpec) (chunk : StoreChunk) (row : Nat) : Bool :=
  let search := trimSearch spec.search
  (spec.filters.all fun filter => (valueOf chunk filter.column row).any (filter.matches c)) &&
    (search = "" || searchHit c chunk search row)

/-- `scan_chunk`: the source rows the spec keeps, appended to `out` by the caller. -/
def scanChunk (c : Collate) (spec : ViewSpec) (reference : ChunkEntry) (chunk : StoreChunk) : List Nat :=
  ((List.range reference.rows).filter (keepsRow c spec chunk)).map fun row =>
    asU32 (reference.firstRow + asU32 row)

end QueryHive.Store
