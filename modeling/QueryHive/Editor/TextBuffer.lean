import Mathlib.Algebra.Ring.Int.Defs
import QueryHive.Library.Runs
import QueryHive.Library.Text

/-! The text of a document and its two indexes (`text.rs`). The text is UTF-8 and is asked about in
UTF-16 units; checkpoints between the two and the starts of the lines are moved in place by an
edit. Whatever edits were made, the indexes say what counting from the start would. -/
namespace QueryHive.Editor.TextIndex
open Library Library.Runs Library.Text Library.Weights

/-- `len_utf16` of a character. -/
def lenUtf16 (c : Char) : Nat := if 0x10000 ≤ c.toNat then 2 else 1

abbrev utf8Len (text : List Char) : Nat := total Char.utf8Size text

abbrev utf16Len (text : List Char) : Nat := total lenUtf16 text

/-- `as u32`, and what a `u32` sum keeps. -/
def asU32 (n : Int) : Nat := (n % 2 ^ 32).toNat

/-- `CHUNK`. -/
def chunk : Nat := 1024

/-- `MAX_BYTES`. -/
def maxBytes : Nat := (2 ^ 32 - 1) / 2

/-- `EditError`. -/
inductive EditError where
  | stale | outOfBounds | splitsCharacter | tooLarge | malformed
  deriving DecidableEq, Repr

/-- How a call ends that does not return `Ok`. -/
inductive Stop where
  | refused (error : EditError)
  /-- A slice inside a character, or an index past the end. -/
  | panicked
  deriving DecidableEq, Repr

/-- `LogEntry`. -/
inductive LogEntry where
  | edit (revision : UInt64) (start len : UInt32) (text : List Char)
  | touch (start len : UInt32)
  | applied (revision : UInt64) (ranges : List UInt32)
  deriving DecidableEq, Repr

/-- `TextBuffer`. The numbers of the indexes are `u32`. -/
structure TextBuffer where
  text : List Char
  /-- A byte and its UTF-16 offset, ascending. -/
  marks : List (Nat × Nat)
  /-- The byte each line starts at. -/
  lines : List Nat
  len16 : Nat
  revision : UInt64
  log : List LogEntry
  deriving DecidableEq, Repr

/-- The checkpoints of a stretch of text: one at the first character a chunk or more from the last. -/
def cutMarks : (position last units : Nat) → List Char → List (Nat × Nat)
  | _, _, _, [] => []
  | position, last, units, c :: rest =>
    let next := asU32 (units + lenUtf16 c)
    if chunk ≤ position - last then (asU32 position, units) :: cutMarks (position + c.utf8Size) position next rest
    else cutMarks (position + c.utf8Size) last next rest

/-- The lines that begin in a text, from a byte on. -/
def cutLines : (position : Nat) → List Char → List Nat
  | _, [] => []
  | position, c :: rest =>
    if c = '\n' then asU32 (asU32 position + 1) :: cutLines (position + c.utf8Size) rest
    else cutLines (position + c.utf8Size) rest

/-- The units of a text, added up in a `u32`. -/
def countUnits : (units : Nat) → List Char → Nat
  | units, [] => units
  | units, c :: rest => countUnits (asU32 (units + lenUtf16 c)) rest

/-- `TextBuffer::new`. -/
def TextBuffer.new (text : List Char) : Except EditError TextBuffer :=
  if maxBytes < utf8Len text then .error .tooLarge
  else
    .ok
      { text, marks := (0, 0) :: cutMarks 0 0 0 text, lines := 0 :: cutLines 0 text, len16 := countUnits 0 text
        revision := 1, log := [] }

/-- The walk of `byte_of` from a checkpoint on. -/
def walkUnits (target : Nat) : List Char → (byte units : Nat) → Except Stop Nat
  | [], byte, _ => .ok byte
  | c :: rest, byte, units =>
    if units = target then .ok byte
    else if target < asU32 (units + lenUtf16 c) then .error (.refused .splitsCharacter)
    else walkUnits target rest (byte + c.utf8Size) (asU32 (units + lenUtf16 c))

/-- The nearest byte up to this one where a character starts. -/
def floorBoundary (text : List Char) : Nat → Nat
  | 0 => 0
  | byte + 1 => if (dropTo Char.utf8Size text (byte + 1)).isSome then byte + 1 else floorBoundary text byte

namespace TextBuffer

/-- `byte_of`. The checkpoint is the last of those before the `partition_point`. -/
def byteOf (buffer : TextBuffer) (target : Nat) : Except Stop Nat :=
  if buffer.len16 < target then .error (.refused .outOfBounds)
  else
    match (buffer.marks.takeWhile (·.2 ≤ target)).getLast? with
    | none => .error .panicked
    | some (byte, units) =>
      match dropTo Char.utf8Size buffer.text byte with
      | none => .error .panicked
      | some rest => walkUnits target rest byte units

/-- `utf16_of`. -/
def utf16Of (buffer : TextBuffer) (byte : Nat) : Except Stop Nat :=
  let byte := floorBoundary buffer.text (min byte (utf8Len buffer.text))
  match (buffer.marks.takeWhile (·.1 ≤ byte)).getLast? with
  | none => .error .panicked
  | some (first, units) =>
    match sliceTo Char.utf8Size buffer.text first byte with
    | none => .error .panicked
    | some part => .ok (asU32 (units + asU32 (utf16Len part)))

/-- An `Option` that is indexed or sliced: nothing there is a panic. -/
def orPanic : Option α → EStateM Stop TextBuffer α
  | some value => pure value
  | none => throw .panicked

/-- `replace_range`. -/
def replaceRange (text : List Char) (first last : Nat) (new : List Char) : Option (List Char) :=
  if first ≤ last then
    (takeTo Char.utf8Size text first).bind fun front => (dropTo Char.utf8Size text last).map fun back =>
    front ++ new ++ back
  else none

def bornLines (first : Nat) (new : List Char) : List Nat :=
  ((encodeUtf8 new).zipIdx.filter (·.1 = 0x0A)).map fun (_, place) => asU32 (first + place + 1)

/-- `edit`: `self` is the state, also when the call is refused. -/
def edit (start len : Nat) (new : List Char) : EStateM Stop TextBuffer Unit := do
  if 2 ^ 32 ≤ start + len then throw (.refused .outOfBounds)
  let buffer ← get
  let first ← MonadExcept.ofExcept (buffer.byteOf start)
  let last ← MonadExcept.ofExcept (buffer.byteOf (start + len))
  if maxBytes < utf8Len buffer.text - (last - first) + utf8Len new then throw (.refused .tooLarge)
  let deltaBytes : Int := utf8Len new - (last - first : Nat)
  let deltaUnits : Int := asU32 (utf16Len new) - len
  -- Up to the last checkpoint at or before the edit they stay; those strictly inside it go.
  let kept := buffer.marks.takeWhile (·.1 ≤ first)
  let shifted := ((buffer.marks.dropWhile (·.1 ≤ first)).dropWhile (·.1 < last)).map fun mark =>
    (asU32 (mark.1 + deltaBytes), asU32 (mark.2 + deltaUnits))
  modify fun buffer => { buffer with marks := kept ++ shifted }
  -- The starts in `(first, last]` are those whose LF is deleted.
  let after := (buffer.lines.dropWhile (· ≤ last)).map fun start : Nat => asU32 (start + deltaBytes)
  modify fun buffer => { buffer with lines := buffer.lines.takeWhile (· ≤ first) ++ bornLines first new ++ after }
  let text ← orPanic (replaceRange buffer.text first last new)
  modify fun buffer => { buffer with text, len16 := asU32 (buffer.len16 + deltaUnits) }
  let (low, units) ← orPanic kept.getLast?
  let high := shifted.head?.elim (utf8Len text) Prod.fst
  let region ← orPanic (sliceTo Char.utf8Size text low high)
  modify fun buffer => { buffer with marks := kept ++ cutMarks low low units region ++ shifted }

end TextBuffer

end QueryHive.Editor.TextIndex
