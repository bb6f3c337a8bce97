import QueryHive.Sql.Lexer

/-! The scanner of `scan.rs`: `walk` reads a text byte by byte in one of ten states and
reports separators, opaque regions and bare words. The source moves an index, sometimes by
several bytes; here the walk is recursive on the text and counts down the bytes a step has
already taken. `normalStep` and `regionStep` are the arms of its match. -/
namespace QueryHive.Sql
open Byte

inductive State where
  | normal | singleQuoted | doubleQuoted | backtickQuoted | lineComment
  /-- How many comments are open, for a lexer whose block comments nest. -/
  | blockComment (depth : Nat)
  /-- The tag, both dollars included. -/
  | dollarQuoted (tag : List UInt8)
  | escapeQuoted | unicodeQuoted | bitQuoted
  deriving DecidableEq, Repr

/-- The kinds of text that is not syntax. -/
inductive OpaqueKind where
  | singleQuote | doubleQuote | backtick | lineComment | blockComment | dollarQuote
  deriving DecidableEq, Repr

/-- Where a walk stopped. -/
inductive EndState where
  | normal
  | openRegion (kind : OpaqueKind)
  deriving DecidableEq, Repr

/-- What a walk reports. Offsets are byte offsets into the walked text. -/
inductive Event where
  | separator (index : Nat)
  | opaqueRegion (kind : OpaqueKind) (start stop : Nat)
  | word (start stop : Nat)
  deriving DecidableEq, Repr

/-- What a region read in this state is reported as. -/
def State.kind : State → OpaqueKind
  | .doubleQuoted => .doubleQuote
  | .backtickQuoted => .backtick
  | .lineComment => .lineComment
  | .blockComment _ => .blockComment
  | .dollarQuoted _ => .dollarQuote
  | .normal | .singleQuoted | .escapeQuoted | .unicodeQuoted | .bitQuoted => .singleQuote

def isIdentStart (lexer : Lexer) (byte : UInt8) : Bool :=
  isAsciiAlphabetic byte || byte == underscore || (lexer.unicodeIdent && 0x80 ≤ byte)

def isIdentCont (lexer : Lexer) (byte : UInt8) : Bool :=
  isAsciiAlphanumeric byte || byte == underscore || (byte == dollar && lexer.identDollar) ||
    (lexer.unicodeIdent && 0x80 ≤ byte)

def endsLine (lexer : Lexer) (byte : UInt8) : Bool :=
  byte == newline || (lexer.crEndsLine && byte == carriageReturn)

/-- `dash_opens_comment` on `bytes[index..]`. -/
def dashOpensComment (lexer : Lexer) : List UInt8 → Bool
  | first :: second :: rest =>
    first == dash && second == dash && (!lexer.dashNeedsSpace ||
      match rest with
      | [] => true
      | byte :: _ => isAsciiWhitespace byte || isAsciiControl byte)
  | _ => false

/-- `executable_comment_opener` on `bytes[index..]`: the opener's length, version included. -/
def executableCommentOpener (lexer : Lexer) : List UInt8 → Option Nat
  | first :: second :: third :: rest =>
    if lexer.executableCode && first == slash && second == star && third == bang then
      some (3 + (rest.takeWhile isAsciiDigit).length)
    else none
  | _ => none

/-- Whether a byte may stand in a dollar tag; PostgreSQL's may not start with a digit. -/
def tagByte (lexer : Lexer) (first : Bool) (byte : UInt8) : Bool :=
  if lexer.postgres then
    isAsciiAlphabetic byte || byte == underscore || 0x80 ≤ byte || (!first && isAsciiDigit byte)
  else isAsciiAlphanumeric byte || byte == underscore

/-- The loop of `read_dollar_tag`, past the opening dollar. -/
def readTag (lexer : Lexer) (first : Bool) : List UInt8 → Option (List UInt8)
  | [] => none
  | byte :: rest =>
    if byte = dollar then some [dollar]
    else if tagByte lexer first byte then (readTag lexer false rest).map (byte :: ·)
    else none

/-- `read_dollar_tag`, past the opening dollar: the tag with both dollars. -/
def readDollarTag (lexer : Lexer) (rest : List UInt8) : Option (List UInt8) :=
  (readTag lexer true rest).map (dollar :: ·)

def isNewline (byte : UInt8) : Bool := byte == newline || byte == carriageReturn

/-- Horizontal whitespace between the pieces of a continued string. -/
def isContinuationSpace (lexer : Lexer) (byte : UInt8) : Bool :=
  byte == space || byte == tab || byte == formFeed || (byte == verticalTab && lexer.vtIsSpace)

/-- The two loops of `string_continuation`, before and after the mandatory newline, each
with its comment skip. -/
inductive ContinuationPhase where
  | gap | gapComment | lines | linesComment
  deriving DecidableEq, Repr

/-- The bytes from here to just past the continuing quote. -/
def continuationFrom (lexer : Lexer) : ContinuationPhase → List UInt8 → Option Nat
  | _, [] => none
  | .gap, byte :: rest =>
    if isContinuationSpace lexer byte then (continuationFrom lexer .gap rest).map (· + 1)
    else if byte == dash && rest.head? == some dash then
      (continuationFrom lexer .gapComment rest).map (· + 1)
    else if isNewline byte then (continuationFrom lexer .lines rest).map (· + 1)
    else none
  | .gapComment, byte :: rest =>
    -- The first loop stops at the newline its comment ends on, which is the mandatory one.
    if isNewline byte then (continuationFrom lexer .lines rest).map (· + 1)
    else (continuationFrom lexer .gapComment rest).map (· + 1)
  | .lines, byte :: rest =>
    if isContinuationSpace lexer byte || isNewline byte then
      (continuationFrom lexer .lines rest).map (· + 1)
    else if byte == dash && rest.head? == some dash then
      (continuationFrom lexer .linesComment rest).map (· + 1)
    else if byte = quote then some 1
    else none
  | .linesComment, byte :: rest =>
    if isNewline byte then (continuationFrom lexer .lines rest).map (· + 1)
    else (continuationFrom lexer .linesComment rest).map (· + 1)

/-- `string_continuation` on the bytes after the closing quote. -/
def stringContinuation (lexer : Lexer) (after : List UInt8) : Option Nat :=
  if lexer.postgres then continuationFrom lexer .gap after else none

/-- One arm of the walk outside every region: how many bytes it takes and what it found. -/
inductive NormalStep where
  | enters (state : State) (width : Nat)
  | separator
  | word (width : Nat)
  | code (width : Nat)
  deriving DecidableEq, Repr

/-- PostgreSQL's string prefixes: a one-letter word directly followed by a quote. The
width is what follows the letter. -/
def stringPrefix (lexer : Lexer) (word after : List UInt8) : Option (State × Nat) :=
  match word with
  | [letter] =>
    if !lexer.postgres then none
    else if toAsciiLowercase letter = 0x65 then
      if after.head? = some quote then some (.escapeQuoted, 1) else none
    else if toAsciiLowercase letter = 0x62 || toAsciiLowercase letter = 0x78 then
      if after.head? = some quote then some (.bitQuoted, 1) else none
    else if toAsciiLowercase letter = 0x75 then
      if after.take 2 = [ampersand, quote] then some (.unicodeQuoted, 2) else none
    else none
  | _ => none

/-- The arms of `State::Normal`, in the source's order. -/
def normalStep (lexer : Lexer) (byte : UInt8) (rest : List UInt8) : NormalStep :=
  if byte = quote then .enters .singleQuoted 1
  else if byte = doubleQuote then .enters .doubleQuoted 1
  else if byte = backtick ∧ lexer.backtickQuotes then .enters .backtickQuoted 1
  else match executableCommentOpener lexer (byte :: rest) with
  | some width => .code width
  | none =>
    if dashOpensComment lexer (byte :: rest) then .enters .lineComment 2
    else if byte = hash ∧ lexer.hashComment then .enters .lineComment 1
    else if byte = slash ∧ rest.head? = some star then .enters (.blockComment 1) 2
    else if byte = semicolon then .separator
    else if byte = dollar ∧ lexer.dollarQuotes then
      match readDollarTag lexer rest with
      | some tag => .enters (.dollarQuoted tag) tag.length
      | none => .code 1
    else if isIdentStart lexer byte then
      let word := (byte :: rest).takeWhile (isIdentCont lexer)
      match stringPrefix lexer word ((byte :: rest).drop word.length) with
      | some (quoted, width) => .enters quoted (word.length + width)
      | none => .word word.length
    else .code 1

/-- One arm of the walk inside a region. `endsLine` closes a line comment before the byte
and takes the byte as code. -/
inductive RegionStep where
  | inside (state : State) (width : Nat)
  | closes (width : Nat)
  | endsLine
  deriving DecidableEq, Repr

/-- A quote that is not doubled: the string goes on past a newline, or ends. -/
def closingQuote (lexer : Lexer) (state : State) (rest : List UInt8) : RegionStep :=
  match stringContinuation lexer rest with
  | some width => .inside state (width + 1)
  | none => .closes 1

def regionStep (lexer : Lexer) (state : State) (byte : UInt8) (rest : List UInt8) : RegionStep :=
  match state with
  | .normal => .inside .normal 1
  | .singleQuoted =>
    if lexer.singleBackslash && byte == backslash then .inside state 2
    else if byte = quote then
      if rest.head? = some quote then .inside state 2 else closingQuote lexer state rest
    else .inside state 1
  | .escapeQuoted =>
    if byte = backslash then .inside state 2
    else if byte = quote then
      if rest.head? = some quote then .inside state 2 else closingQuote lexer state rest
    else .inside state 1
  | .unicodeQuoted =>
    if byte = quote then
      if rest.head? = some quote then .inside state 2 else closingQuote lexer state rest
    else .inside state 1
  | .bitQuoted => if byte = quote then closingQuote lexer state rest else .inside state 1
  | .doubleQuoted =>
    if lexer.doubleBackslash && byte == backslash then .inside state 2
    else if byte = doubleQuote then
      if rest.head? = some doubleQuote then .inside state 2 else .closes 1
    else .inside state 1
  | .backtickQuoted =>
    if byte = backtick then
      if rest.head? = some backtick then .inside state 2 else .closes 1
    else .inside state 1
  | .lineComment => if endsLine lexer byte then .endsLine else .inside state 1
  | .blockComment depth =>
    if lexer.nestedComments && byte == slash && rest.head? == some star then
      .inside (.blockComment (depth + 1)) 2
    else if byte = star ∧ rest.head? = some slash then
      if depth - 1 = 0 then .closes 2 else .inside (.blockComment (depth - 1)) 2
    else .inside state 1
  | .dollarQuoted tag =>
    if byte = dollar ∧ tag.isPrefixOf (byte :: rest) then .closes tag.length
    else .inside state 1

/-- The walk in `state`, at `index`, with `skip` more bytes to pass over and the current
region begun at `start`. -/
def walkFrom (lexer : Lexer) (state : State) (start skip index : Nat) :
    List UInt8 → List Event × EndState
  | [] =>
    if state = .normal then ([], .normal)
    else ([.opaqueRegion state.kind start index], .openRegion state.kind)
  | byte :: rest =>
    match skip with
    | skip + 1 => walkFrom lexer state start skip (index + 1) rest
    | 0 =>
      if state = .normal then
        match normalStep lexer byte rest with
        | .enters entered width => walkFrom lexer entered index (width - 1) (index + 1) rest
        | .separator =>
          let walked := walkFrom lexer .normal index 0 (index + 1) rest
          (.separator index :: walked.1, walked.2)
        | .word width =>
          let walked := walkFrom lexer .normal index (width - 1) (index + 1) rest
          (.word index (index + width) :: walked.1, walked.2)
        | .code width => walkFrom lexer .normal index (width - 1) (index + 1) rest
      else
        match regionStep lexer state byte rest with
        | .inside state width => walkFrom lexer state start (width - 1) (index + 1) rest
        | .closes width =>
          let walked := walkFrom lexer .normal start (width - 1) (index + 1) rest
          (.opaqueRegion state.kind start (index + width) :: walked.1, walked.2)
        | .endsLine =>
          let walked := walkFrom lexer .normal start 0 (index + 1) rest
          (.opaqueRegion state.kind start index :: walked.1, walked.2)

/-- `walk`: one pass over a text under one lexer's rules. -/
def walk (lexer : Lexer) (text : List UInt8) : List Event × EndState :=
  walkFrom lexer .normal 0 0 0 text

def walkSeparators (lexer : Lexer) (text : List UInt8) : List Nat :=
  (walk lexer text).1.filterMap fun
    | .separator index => some index
    | _ => none

/-- `Scan::keywords`: every bare word, upper-cased. -/
def keywords (lexer : Lexer) (text : List UInt8) : List (List UInt8) :=
  (walk lexer text).1.filterMap fun
    | .word start stop => some (asciiUppercase ((text.take stop).drop start))
    | _ => none

/-- The block-comment loop of `comment_end`, past the opening `/*`. -/
def blockEnd (lexer : Lexer) (depth skip : Nat) : List UInt8 → Nat
  | [] => 0
  | byte :: rest =>
    match skip with
    | skip + 1 => 1 + blockEnd lexer depth skip rest
    | 0 =>
      if lexer.nestedComments && byte == slash && rest.head? == some star then
        1 + blockEnd lexer (depth + 1) 1 rest
      else if byte = star ∧ rest.head? = some slash then
        if depth - 1 = 0 then 2 else 1 + blockEnd lexer (depth - 1) 1 rest
      else 1 + blockEnd lexer depth 0 rest

/-- `comment_end` on `bytes[index..]`: the length of the comment that starts here. -/
def commentEnd (lexer : Lexer) (text : List UInt8) : Option Nat :=
  let lineEnd (past : Nat) := past + ((text.drop past).takeWhile (!endsLine lexer ·)).length
  if dashOpensComment lexer text then some (lineEnd 2)
  else if text.head? = some hash ∧ lexer.hashComment then some (lineEnd 1)
  else if text.take 2 = [slash, star] then some (2 + blockEnd lexer 1 0 (text.drop 2))
  else none

/-- The loop `leading_keyword` and `first_significant` share: past blank bytes, comments
and the openers of executable comments, `skip` bytes being taken already. -/
def skipTrivia (lexer : Lexer) (blank : UInt8 → Bool) (skip : Nat) : List UInt8 → List UInt8
  | [] => []
  | byte :: rest =>
    match skip with
    | skip + 1 => skipTrivia lexer blank skip rest
    | 0 =>
      if blank byte then skipTrivia lexer blank 0 rest
      else match executableCommentOpener lexer (byte :: rest) with
      | some width => skipTrivia lexer blank (width - 1) rest
      | none =>
        match commentEnd lexer (byte :: rest) with
        | some width => skipTrivia lexer blank (width - 1) rest
        | none => byte :: rest

/-- `leading_keyword`: the first bare keyword, upper-cased. -/
def leadingKeyword (lexer : Lexer) (text : List UInt8) : Option (List UInt8) :=
  let rest := skipTrivia lexer isAsciiWhitespace 0 text
  if lexer.postgres then
    match rest with
    | [] => none
    | byte :: _ =>
      if isIdentStart lexer byte then some (asciiUppercase (rest.takeWhile (isIdentCont lexer)))
      else none
  else
    match rest.takeWhile fun byte => isAsciiAlphabetic byte || byte == underscore with
    | [] => none
    | word => some (asciiUppercase word)

/-- `first_significant`: the offset of the first byte that is not trivia or a `;`. -/
def firstSignificant (lexer : Lexer) (text : List UInt8) : Option Nat :=
  match skipTrivia lexer (fun byte => isAsciiWhitespace byte || byte == semicolon) 0 text with
  | [] => none
  | rest => some (text.length - rest.length)

/-- `has_significant_text_dialect`. -/
def hasSignificantText (lexer : Lexer) (text : List UInt8) : Bool :=
  (firstSignificant lexer text).isSome

end QueryHive.Sql
