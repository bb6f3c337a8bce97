import Mathlib.Algebra.Ring.Nat
import QueryHive.Library.Patch
import QueryHive.Sql.Lexemes

/-! Toggling `-- ` line comments, as `comment.rs` does it. `lines` finds the chosen lines,
`regions` what the text holds under each reading, and `toggleLineComment` makes one replacement
that adds a marker to every line that is not blank, or takes the markers off. -/
namespace QueryHive.Sql.Comment
open Byte Library.Patch

/-- One replacement: `text[start..stop]` becomes `replacement`. -/
structure LineEdit where
  start : Nat
  stop : Nat
  replacement : List UInt8
  deriving DecidableEq, Repr

def LineEdit.applied (edit : LineEdit) (text : List UInt8) : List UInt8 :=
  text.take edit.start ++ edit.replacement ++ text.drop edit.stop

inductive CommentError where
  | insideRegion (line : Nat)
  | outOfRange
  | spills
  deriving DecidableEq, Repr

structure Region where
  kind : OpaqueKind
  start : Nat
  stop : Nat
  deriving DecidableEq, Repr

/-- `usize::MAX`. -/
def usizeMax : Nat := 2 ^ 64 - 1

/-- `Collect`: the opaque regions among the events of a walk. -/
def opaqueOnly : Event → Option Region
  | .opaqueRegion kind start stop => some ⟨kind, start, stop⟩
  | _ => none

def leaveOpen : EndState → List Region → List Region
  | .openRegion kind, found =>
    if kind = .lineComment then found else found.modifyLast fun region => { region with stop := usizeMax }
  | .normal, found => found

/-- `regions`: the opaque regions under a lexer, in order. -/
def regions (bytes : List UInt8) (lexer : Lexer) : List Region :=
  let walked := walk lexer bytes
  leaveOpen walked.2 (walked.1.filterMap opaqueOnly)

/-- The region before `partition_point`, of regions that are in order. -/
def lastBefore (holds : Region → Bool) (regions : List Region) : Option Region := (regions.takeWhile holds).getLast?

/-- `inside`: whether `pos` lies strictly inside a region that is not a line comment. -/
def inside (regions : List Region) (pos : Nat) : Bool :=
  (lastBefore (·.start < pos) regions).any fun region => region.kind ≠ .lineComment && pos < region.stop

/-- `commented_out`: whether `start..stop` lies within one line comment. -/
def commentedOut (regions : List Region) (start stop : Nat) : Bool :=
  (lastBefore (·.start ≤ start) regions).any fun region => region.kind = .lineComment && stop ≤ region.stop

/-- A line's content, its terminator left out, and where its indentation ends. -/
structure Line where
  start : Nat
  stop : Nat
  indent : Nat
  deriving DecidableEq, Repr

def isIndent (byte : UInt8) : Bool := byte == space || byte == tab

/-- How many bytes end the line here. -/
def breakWidth : List UInt8 → Nat
  | first :: second :: _ => if first == carriageReturn && second == newline then 2 else 1
  | _ => 1

/-- The loop of `lines`, `left` lines before the last one. -/
def linesFrom (first : Nat) : Nat → Nat → Nat → List UInt8 → Option (List Line)
  | left, n, start, rest =>
    let content := rest.takeWhile (!isNewline ·)
    let tail := rest.drop content.length
    let stop := start + content.length
    let here := if first ≤ n then [⟨start, stop, start + (content.takeWhile isIndent).length⟩] else []
    match left with
    | 0 => some here
    | left + 1 =>
      if tail = [] then none
      else
        (linesFrom first left (n + 1) (stop + breakWidth tail) (tail.drop (breakWidth tail))).map (here ++ ·)

/-- Lines `first..=last`, or `none` when the text has fewer. -/
def lines (bytes : List UInt8) (first last : Nat) : Option (List Line) :=
  if first = 0 ∨ last < first then none else linesFrom first (last - 1) 1 0 bytes

def isBlankByte (byte : UInt8) : Bool :=
  byte == space || byte == tab || byte == verticalTab || byte == formFeed

def isBlank (bytes : List UInt8) (line : Line) : Bool := (slice bytes line.start line.stop).all isBlankByte

def marker : List UInt8 := [dash, dash, space]

def marked (bytes : List UInt8) (observed : List (List Region)) (line : Line) : Bool :=
  [dash, dash].isPrefixOf (bytes.drop line.indent) &&
    (line.indent + 2 = line.stop || bytes[line.indent + 2]? == some space) &&
      observed.all fun regions => commentedOut regions line.indent line.stop

/-- How much of their leading bytes two indentations share. -/
def commonLength (lead own : List UInt8) : Nat := ((lead.zip own).takeWhile fun pair => pair.1 == pair.2).length

/-- The longest indentation that the lines share. -/
def sharedIndent (bytes : List UInt8) (first : Line) (body : List Line) : Nat :=
  let lead := slice bytes first.start first.indent
  body.foldl (fun n line => min n (commonLength lead (slice bytes line.start line.indent))) lead.length

/-- The position and the bytes removed, for each line: the markers come off, or go in. -/
def lineEdits (bytes : List UInt8) (uncomment : Bool) (first : Line) (body : List Line) : List (Nat × Nat) :=
  if uncomment then
    body.map fun line => (line.indent, 2 + if bytes[line.indent + 2]? == some space then 1 else 0)
  else body.map fun line => (line.start + sharedIndent bytes first body, 0)

/-- The edits as one replacement of the range they span. -/
def replaceAll (text insert : List UInt8) (edits : List (Nat × Nat)) : LineEdit :=
  let start := (edits.head?.map Prod.fst).getD 0
  ⟨start, patchEnd start edits, pieces text insert start edits⟩

/-- Outside the chosen lines, the regions that are not line comments, moved. -/
def expected (start stop shift : Nat) (old : List Region) : List Region :=
  ((old.filter fun region => region.kind ≠ .lineComment).filter fun region =>
      region.stop ≤ start || stop ≤ region.start).map fun region =>
    let moved := if stop ≤ region.start then shift else 0
    { region with start := region.start + moved, stop := min (region.stop + moved) usizeMax }

/-- Whether the marker of a line opens a line comment that ends where the line does, before
the `\n` of a CRLF at the latest. -/
def opensComment (joined : List UInt8) (new : List Region) (at_ stop : Nat) : Bool :=
  let crlf := [carriageReturn, newline].isPrefixOf (joined.drop stop)
  (lastBefore (·.start ≤ at_) new).any fun region =>
    region.kind = .lineComment && region.start = at_ &&
      (region.stop = stop || region.stop = stop + if crlf then 1 else 0)

/-- The check against the whole result, under one reading. -/
def spills (joined : List UInt8) (lexer : Lexer) (old : List Region) (start stop : Nat) (edits : List (Nat × Nat))
    (body : List Line) : Bool :=
  let new := regions joined lexer
  (new.filter fun region => region.kind ≠ .lineComment) ≠ expected start stop (body.length * marker.length) old ||
    (edits.zip body).zipIdx.any fun ((edit, line), k) =>
      !opensComment joined new (edit.1 + k * marker.length) (line.stop + (k + 1) * marker.length)

def bodyOf (text : List UInt8) (target : List Line) : List Line := target.filter (!isBlank text ·)

def orGeneric (readings : List Lexer) : List Lexer := if readings.isEmpty then [.generic] else readings

def uncomments (text : List UInt8) (readings : List Lexer) (target : List Line) : Bool :=
  (bodyOf text target).all (marked text ((orGeneric readings).map (regions text)))

/-- `toggle_line_comment`. -/
def toggleLineComment (text : List UInt8) (readings : List Lexer) (firstLine lastLine : Nat) :
    Except CommentError LineEdit :=
  match lines text firstLine lastLine with
  | none => .error .outOfRange
  | some target =>
    let observed := (orGeneric readings).map (regions text)
    match target.findIdx? fun line => observed.any fun regions =>
        inside regions line.start || inside regions line.stop with
    | some k => .error (.insideRegion (firstLine + k))
    | none =>
      match bodyOf text target with
      | [] =>
        let start := (target.head?.map Line.start).getD 0
        .ok ⟨start, start, []⟩
      | first :: rest =>
        let uncomment := uncomments text readings target
        let edits := lineEdits text uncomment first (first :: rest)
        let edit := replaceAll text (if uncomment then [] else marker) edits
        let start := (target.head?.map Line.start).getD 0
        let stop := (target.getLast?.map Line.stop).getD 0
        let spilled := !uncomment && ((orGeneric readings).zip observed).any fun (lexer, old) =>
          spills (edit.applied text) lexer old start stop edits (first :: rest)
        if spilled then .error .spills else .ok edit

/-- The call inserts markers: some line is not blank, and some such line has no marker. -/
def inserting (text : List UInt8) (readings : List Lexer) (firstLine lastLine : Nat) : Bool :=
  match lines text firstLine lastLine with
  | none => false
  | some target => !(bodyOf text target).isEmpty && !uncomments text readings target

end QueryHive.Sql.Comment
