import Mathlib.Algebra.Ring.Nat
import QueryHive.Sql.Scan

/-! The script splitter of `script.rs`: which separators of a walk end a statement. Under
MySQL's lexers a visitor follows the header of a stored program and, once its body opens,
takes every `;` as content until the outermost block closes. The visitor's methods are
state transformers here, and a split folds them over the events of a walk. The counters of
the source are machine words that only a text of gigabytes could overflow; here they are
numbers. -/
namespace QueryHive.Sql
open Byte

/-- `is`: whether a word is this keyword, in any case. -/
def isKeyword (word : List UInt8) (keyword : String) : Bool :=
  eqIgnoreAsciiCase word (ofAscii keyword)

/-- `is_any`. -/
def isAnyKeyword (word : List UInt8) (keywords : List String) : Bool :=
  keywords.any (isKeyword word)

/-- `Ev`: what a walk reported that is neither a comment nor a separator. -/
inductive Ev where
  | word (word : List UInt8)
  | quoted (kind : OpaqueKind)
  deriving DecidableEq, Repr

/-- `Ctx`: what is known about the bytes around the event being handled. -/
structure Ctx where
  /-- `(` minus `)` since the statement began, never below zero. -/
  parens : Nat
  /-- How many `(` the statement has had. -/
  opens : Nat
  /-- An `@` lies between this event and the last one. -/
  hasAt : Bool
  /-- The event is followed by a `:` that is not `:=`. -/
  label : Bool
  deriving DecidableEq, Repr

inductive Opener where
  | if | case | while
  deriving DecidableEq, Repr

/-- Where a handler's condition list stands. -/
inductive Cond where
  | open | not | sqlstate | value | closed
  deriving DecidableEq, Repr

inductive Declare where
  | pre (seen : Bool)
  | handler
  | cond (cond : Cond)
  deriving DecidableEq, Repr

/-- What the current statement of a body is. -/
inductive BodyStmt where
  | fresh | other
  | opener (opener : Opener)
  | end | until
  | declare (declare : Declare)
  deriving DecidableEq, Repr

structure Body where
  /-- Open blocks. The body is over when it reaches zero. -/
  depth : Nat
  /-- The next word is the first of a statement. -/
  atStart : Bool
  kind : BodyStmt
  /-- `CASE` expressions open in the current statement. -/
  exprCase : Nat
  deriving DecidableEq, Repr

namespace Body

/-- `Body::block`. -/
def block : Body := ⟨1, true, .fresh, 0⟩

/-- `Body::opened_by`: the body a first word opens, or none for a simple statement. -/
def openedBy (word : List UInt8) : Option Body :=
  if isAnyKeyword word ["BEGIN", "LOOP", "REPEAT"] then some block
  else if isKeyword word "IF" then some ⟨1, false, .opener .if, 0⟩
  else if isKeyword word "CASE" then some ⟨1, false, .opener .case, 0⟩
  else if isKeyword word "WHILE" then some ⟨1, false, .opener .while, 0⟩
  else none

def restart (body : Body) : Body := { body with atStart := true, kind := .fresh, exprCase := 0 }

/-- One byte between two events, inside a condition list. -/
def condByte (cond : Cond) (byte : UInt8) : Cond :=
  match cond with
  | .closed => if byte = comma then .open else .closed
  | .open => if isAsciiDigit byte then .closed else .open
  | cond => cond

/-- `Body::gap`. -/
def gap (body : Body) (segment : List UInt8) : Body :=
  match body.kind with
  | .declare (.cond cond) => { body with kind := .declare (.cond (segment.foldl condByte cond)) }
  | _ => body

/-- `first_word`: the body after it, and whether the outermost block just closed. -/
def firstWord (body : Body) (ctx : Ctx) (word : List UInt8) : Body × Bool :=
  let body := { body with kind := .fresh, exprCase := 0 }
  if isKeyword word "END" then
    let depth := body.depth - 1
    ({ body with depth, kind := .end, atStart := false }, depth == 0)
  else if ctx.label then (body, false)
  else if isAnyKeyword word ["BEGIN", "LOOP", "REPEAT"] then ({ body with depth := body.depth + 1 }, false)
  else if isKeyword word "ELSE" then (body, false)
  else
    let body := { body with atStart := false }
    if isKeyword word "IF" then ({ body with depth := body.depth + 1, kind := .opener .if }, false)
    else if isKeyword word "CASE" then
      ({ body with depth := body.depth + 1, kind := .opener .case }, false)
    else if isKeyword word "WHILE" then
      ({ body with depth := body.depth + 1, kind := .opener .while }, false)
    else if isKeyword word "UNTIL" then ({ body with kind := .until }, false)
    else if isKeyword word "DECLARE" then ({ body with kind := .declare (.pre false) }, false)
    else ({ body with kind := .other }, false)

/-- `inner_word`. -/
def innerWord (body : Body) (word : List UInt8) : Body × Bool :=
  match body.kind with
  | .end => (body, false)
  | .declare (.pre seen) =>
    if isAnyKeyword word ["CONTINUE", "EXIT", "UNDO"] then
      ({ body with kind := .declare (.pre true) }, false)
    else if seen && isKeyword word "HANDLER" then ({ body with kind := .declare .handler }, false)
    else (body, false)
  | .declare .handler =>
    if isKeyword word "FOR" then ({ body with kind := .declare (.cond .open) }, false)
    else (body, false)
  -- Handled in `event` before it comes here.
  | .declare (.cond _) => (body, false)
  | kind =>
    let startsStatement := isKeyword word "THEN" || isKeyword word "ELSE" ||
      (isKeyword word "DO" && kind == .opener .while)
    if startsStatement && body.exprCase == 0 then ({ body with atStart := true }, false)
    else if isKeyword word "CASE" then ({ body with exprCase := body.exprCase + 1 }, false)
    else if isKeyword word "END" then
      if 0 < body.exprCase then ({ body with exprCase := body.exprCase - 1 }, false)
      else if kind = .until then
        let depth := body.depth - 1
        ({ body with depth, kind := .end }, depth == 0)
      else (body, false)
    else (body, false)

/-- The item of a condition list an event begins or goes on with. -/
def condEvent (cond : Cond) (event : Ev) : Cond :=
  match cond, event with
  | .open, .word word =>
    if isAnyKeyword word ["SQLEXCEPTION", "SQLWARNING"] then .closed
    else if isKeyword word "NOT" then .not
    else if isKeyword word "SQLSTATE" then .sqlstate
    else .closed
  | .sqlstate, .word word => if isKeyword word "VALUE" then .value else .closed
  | _, _ => .closed

/-- The end of `Body::event`, outside a condition list. -/
def statementEvent (body : Body) (ctx : Ctx) (event : Ev) : Body × Bool :=
  match event with
  | .word word => if body.atStart then body.firstWord ctx word else body.innerWord word
  | .quoted kind =>
    if body.atStart && !(ctx.label && (kind == .backtick || kind == .doubleQuote)) then
      ({ body with kind := .other, atStart := false }, false)
    else (body, false)

/-- `Body::event`: whether the outermost block just closed. -/
def event (body : Body) (ctx : Ctx) (event : Ev) : Body × Bool :=
  match body.kind with
  | .declare (.cond cond) =>
    -- No comma came between the list and this event: the handler's action.
    if cond = .closed then body.restart.statementEvent ctx event
    else ({ body with kind := .declare (.cond (condEvent cond event)) }, false)
  | _ => body.statementEvent ctx event

end Body

inductive Phase where
  | intro | definerUser | definerHost | name | params | after | returnType | typeTail | trigger
  | order | event | bodyFirst
  deriving DecidableEq, Repr

structure Head where
  alter : Bool
  phase : Phase
  /-- The next event belongs to the one before it. -/
  skip : Bool
  forEach : Nat
  /-- `opens` when the name began. -/
  opensAt : Nat
  deriving DecidableEq, Repr

inductive Step where
  | stay | plain | begin
  | head (head : Head)
  | enter (body : Body)
  deriving DecidableEq, Repr

/-- Words that may sit between a routine's parameter list and its body. -/
def CHARACTERISTICS : List String :=
  ["COMMENT", "LANGUAGE", "SQL", "NOT", "DETERMINISTIC", "CONTAINS", "NO", "READS", "MODIFIES",
    "DATA", "SECURITY", "DEFINER", "INVOKER"]

/-- Words that continue a `RETURNS` type name. -/
def TYPE_TAIL : List String :=
  ["UNSIGNED", "SIGNED", "ZEROFILL", "PRECISION", "VARYING", "BINARY", "ASCII", "UNICODE",
    "NATIONAL"]

namespace Head

/-- `Head::new`. -/
def new (alter : Bool) : Head := ⟨alter, .intro, false, 0, 0⟩

/-- The arm of `Phase::BodyFirst`. -/
def bodyFirst (head : Head) (ctx : Ctx) (event : Ev) : Head × Step :=
  let head := { head with phase := .bodyFirst }
  match event with
  | .word word =>
    if ctx.label then (head, .stay)
    else match Body.openedBy word with
    | some body => (head, .enter body)
    | none => (head, .plain)
  | .quoted kind =>
    if ctx.label && (kind == .backtick || kind == .doubleQuote) then (head, .stay)
    else (head, .plain)

/-- The arm of `Phase::Intro`. -/
def intro (head : Head) (ctx : Ctx) (event : Ev) : Head × Step :=
  let head := { head with phase := .intro }
  match event with
  | .quoted _ => (head, .plain)
  | .word word =>
    if isAnyKeyword word ["OR", "REPLACE", "AGGREGATE"] then (head, .stay)
    else if isKeyword word "DEFINER" then ({ head with phase := .definerUser }, .stay)
    else if isAnyKeyword word ["PROCEDURE", "FUNCTION"] && !head.alter then
      ({ head with opensAt := ctx.opens, phase := .name }, .stay)
    else if isKeyword word "TRIGGER" && !head.alter then ({ head with phase := .trigger }, .stay)
    else if isKeyword word "EVENT" then ({ head with phase := .event }, .stay)
    else (head, .plain)

/-- The arm of `Phase::After`. -/
def after (head : Head) (ctx : Ctx) (event : Ev) : Head × Step :=
  let head := { head with phase := .after }
  match event with
  -- The string after `COMMENT`.
  | .quoted _ => (head, .stay)
  | .word word =>
    if isKeyword word "RETURNS" then ({ head with phase := .returnType }, .stay)
    else if isAnyKeyword word CHARACTERISTICS then (head, .stay)
    else head.bodyFirst ctx event

/-- The arm of `Phase::TypeTail`. -/
def typeTail (head : Head) (ctx : Ctx) (event : Ev) : Head × Step :=
  match event with
  | .quoted _ => (head, .stay)
  | .word word =>
    if isAnyKeyword word TYPE_TAIL || isAnyKeyword word CHARACTERISTICS then (head, .stay)
    else if isAnyKeyword word ["CHARACTER", "CHAR"] then (head, .stay)
    -- `CHARACTER SET x`, `CHARSET x`, `COLLATE x`: the next event is a name.
    else if isAnyKeyword word ["SET", "CHARSET", "COLLATE"] then ({ head with skip := true }, .stay)
    else head.bodyFirst ctx event

/-- The arm of `Phase::Trigger`: up to `FOR EACH ROW`. -/
def trigger (head : Head) (event : Ev) : Head × Step :=
  let progress := match event, head.forEach with
    | .word word, 0 => if isKeyword word "FOR" then 1 else 0
    | .word word, 1 => if isKeyword word "EACH" then 2 else 0
    | .word word, 2 => if isKeyword word "ROW" then 3 else 0
    | _, _ => 0
  ({ head with forEach := progress, phase := if progress = 3 then .order else .trigger }, .stay)

/-- The arm of `Phase::Order`. -/
def order (head : Head) (ctx : Ctx) (event : Ev) : Head × Step :=
  match event with
  | .word word =>
    if isAnyKeyword word ["FOLLOWS", "PRECEDES"] then ({ head with skip := true }, .stay)
    else head.bodyFirst ctx event
  | .quoted _ => head.bodyFirst ctx event

/-- `Head::event`. A `continue` of its loop is the next phase's arm. -/
def event (head : Head) (ctx : Ctx) (event : Ev) : Head × Step :=
  if head.skip then ({ head with skip := false }, .stay)
  else match head.phase with
  | .name | .params =>
    if 0 < ctx.parens then ({ head with phase := .params }, .stay)
    else if ctx.opens = head.opensAt then (head, .stay)
    else head.after ctx event
  | phase =>
    if 0 < ctx.parens then (head, .stay)
    else match phase with
    | .intro => head.intro ctx event
    | .definerUser => ({ head with phase := .definerHost }, .stay)
    | .definerHost =>
      if ctx.hasAt then ({ head with phase := .intro }, .stay) else head.intro ctx event
    | .name | .params => (head, .stay)
    | .after => head.after ctx event
    | .returnType => ({ head with phase := .typeTail }, .stay)
    | .typeTail => head.typeTail ctx event
    | .trigger => head.trigger event
    | .order => head.order ctx event
    | .event =>
      match event with
      | .word word =>
        if isKeyword word "DO" then ({ head with phase := .bodyFirst }, .stay) else (head, .stay)
      | .quoted _ => (head, .stay)
    | .bodyFirst => head.bodyFirst ctx event

end Head

/-- Where the current top-level statement stands. -/
inductive Top where
  | start | plain
  | begin (notSeen : Bool)
  | head (head : Head)
  | body (body : Body)
  deriving DecidableEq, Repr

structure Splitter where
  /-- End of the last event. -/
  pos : Nat
  parens : Nat
  opens : Nat
  hasAt : Bool
  top : Top
  separators : List Nat
  deriving DecidableEq, Repr

namespace Splitter

def initial : Splitter := ⟨0, 0, 0, false, .start, []⟩

def gapByte (splitter : Splitter) (byte : UInt8) : Splitter :=
  if byte = openParen then
    { splitter with parens := splitter.parens + 1, opens := min (splitter.opens + 1) (2 ^ 32 - 1) }
  else if byte = closeParen then { splitter with parens := splitter.parens - 1 }
  else if byte = atSign then { splitter with hasAt := true }
  else splitter

/-- `gap`: take in the bytes between the last event and `upto`. -/
def gap (splitter : Splitter) (text : List UInt8) (upto : Nat) : Splitter :=
  let segment := (text.take upto).drop splitter.pos
  match splitter.top with
  | .start | .plain | .begin _ => splitter
  | .head _ => segment.foldl gapByte splitter
  | .body body => { segment.foldl gapByte splitter with top := .body (body.gap segment) }

/-- `colon_after`: whether a `:` and not `:=` follows, past whitespace. -/
def colonAfter (text : List UInt8) (stop : Nat) : Bool :=
  match (text.drop stop).dropWhile isAsciiWhitespace with
  | first :: rest => first == colon && rest.head? != some equals
  | [] => false

def reset (splitter : Splitter) : Splitter :=
  { splitter with top := .start, parens := 0, opens := 0, hasAt := false }

/-- `start`: the first event of a statement. -/
def start (event : Ev) : Step :=
  match event with
  | .word word =>
    if isKeyword word "CREATE" then .head (.new false)
    else if isKeyword word "ALTER" then .head (.new true)
    else if isKeyword word "BEGIN" then .begin
    else .plain
  | .quoted _ => .plain

/-- `begin`: MariaDB's `BEGIN NOT ATOMIC`. -/
def begin (notSeen : Bool) (event : Ev) : Bool × Step :=
  match event with
  | .word word =>
    if !notSeen && isKeyword word "NOT" then (true, .stay)
    else if notSeen && isKeyword word "ATOMIC" then (notSeen, .enter .block)
    else (notSeen, .plain)
  | .quoted _ => (notSeen, .plain)

/-- The top after a step that was taken in `stayed`. -/
def stepTop (stayed : Top) : Step → Top
  | .stay => stayed
  | .plain => .plain
  | .begin => .begin false
  | .head head => .head head
  | .enter body => .body body

/-- `Splitter::event`. -/
def event (splitter : Splitter) (text : List UInt8) (event : Ev) : Splitter :=
  let label := match splitter.top with
    | .head _ | .body _ => colonAfter text splitter.pos
    | _ => false
  let ctx : Ctx := ⟨splitter.parens, splitter.opens, splitter.hasAt, label⟩
  let top := match splitter.top with
    | .plain => .plain
    | .start => stepTop .start (start event)
    | .begin notSeen =>
      let (notSeen, step) := begin notSeen event
      stepTop (.begin notSeen) step
    | .head head =>
      let (head, step) := head.event ctx event
      stepTop (.head head) step
    | .body body =>
      let (body, closed) := body.event ctx event
      if closed then .plain else .body body
  { splitter with hasAt := false, top }

/-- The visitor's methods. -/
def visit (text : List UInt8) (splitter : Splitter) : Event → Splitter
  | .separator index =>
    let splitter := { splitter.gap text index with pos := index + 1 }
    match splitter.top with
    | .body body =>
      if 0 < body.depth then { splitter with top := .body body.restart }
      else { splitter with separators := splitter.separators ++ [index] }.reset
    | _ => { splitter with separators := splitter.separators ++ [index] }.reset
  | .opaqueRegion kind start stop =>
    let splitter := { splitter.gap text start with pos := stop }
    -- A comment is not a token: what lies on either side of it is one gap.
    if kind = .lineComment ∨ kind = .blockComment then splitter
    else splitter.event text (.quoted kind)
  | .word start stop =>
    let splitter := { splitter.gap text start with pos := stop }
    splitter.event text (.word ((text.take stop).drop start))

end Splitter

/-- `separators`: the `;` that end a statement of the script. -/
def separators (lexer : Lexer) (text : List UInt8) : List Nat :=
  if lexer.isMysql then ((walk lexer text).1.foldl (Splitter.visit text) .initial).separators
  else walkSeparators lexer text

end QueryHive.Sql
