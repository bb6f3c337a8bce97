import QueryHive.Library.Runs
import QueryHive.Library.Text

/-! One MySQL session: one connection, handed to a producer with every statement and taken
back when the statement was read to its end. The session keeps two flags for the transaction,
set from the first two words of a statement before it is sent; beside it stands what the
server knows of every connection. -/
namespace QueryHive.Driver.MysqlTransactions
open QueryHive.Library

/-- What the session takes a statement for. -/
inductive TxnEffect where
  | begin | end' | rollback | none
  deriving DecidableEq, Repr

def wordChar (c : Char) : Bool := c.isAlphanum || c == '_'

def upperWords (text : List Char) : List String :=
  (((text.map Char.toUpper).splitOnP (!wordChar ·)).filter (!·.isEmpty)).map String.ofList

/-- `txn_effect`: the first two words decide. -/
def txnEffect (sql : List Char) : TxnEffect :=
  match upperWords (sql.dropWhile Text.isWhitespace) with
  | "BEGIN" :: _ => .begin
  | "START" :: "TRANSACTION" :: _ => .begin
  | "ROLLBACK" :: "TO" :: _ => .none
  | "ROLLBACK" :: _ => .rollback
  | "COMMIT" :: _ => .end'
  | _ => .none

/-- What a statement that was accepted does to the transaction of its connection. -/
inductive ServerEffect where
  | opens | commits | rollsBack | keeps
  deriving DecidableEq, Repr

inductive Comment where
  | code | line | block

def uncomment : Comment → List Char → List Char
  | _, [] => []
  | .code, '#' :: rest => uncomment .line rest
  | .code, '-' :: '-' :: c :: rest =>
    if Text.isWhitespace c then uncomment .line (c :: rest) else '-' :: '-' :: uncomment .code (c :: rest)
  | .code, '/' :: '*' :: rest => uncomment .block rest
  | .code, c :: rest => c :: uncomment .code rest
  | .line, '\n' :: rest => '\n' :: uncomment .code rest
  | .line, _ :: rest => uncomment .line rest
  | .block, '*' :: '/' :: rest => ' ' :: uncomment .code rest
  | .block, _ :: rest => uncomment .block rest

/-- What follows `COMMIT` or `ROLLBACK` and an optional `WORK`. -/
def afterWork : List String → List String
  | "WORK" :: rest => rest
  | rest => rest

def serverEffect (sql : List Char) : ServerEffect :=
  match upperWords (uncomment .code sql) with
  | "BEGIN" :: _ => .opens
  | "START" :: "TRANSACTION" :: _ => .opens
  | "COMMIT" :: rest =>
    match afterWork rest with
    | "AND" :: "CHAIN" :: _ => .opens
    | _ => .commits
  | "ROLLBACK" :: rest =>
    match afterWork rest with
    | "TO" :: _ => .keeps
    | "AND" :: "CHAIN" :: _ => .opens
    | _ => .rollsBack
  | _ => .keeps

/-- The flag after a statement. -/
def TxnEffect.apply : TxnEffect → Bool → Bool
  | begin, _ => true
  | end', _ => false
  | rollback, _ => false
  | none, flag => flag

/-- Whether a transaction is open after a statement. -/
def ServerEffect.apply : ServerEffect → Bool → Bool
  | opens, _ => true
  | commits, _ => false
  | rollsBack, _ => false
  | keeps, opened => opened

/-- A statement with the producer that reads it. -/
inductive Stage where
  | sent
  | answered
  | finished (handedBack : Bool)
  deriving DecidableEq, Repr

/-- The statement that has the connection. `described` says that its columns were known
before it was sent, so that its cursor was there before the server's answer. -/
structure Flight where
  conn : Nat
  sql : List Char
  described : Bool
  cursorGone : Bool := false
  stage : Stage := .sent

structure MysqlSession where
  idle : Option Nat
  flight : Option Flight := none
  wantedDb : Option (List Char)
  currentDb : Option (List Char)
  /-- The database of a connection that is opened later. -/
  optsDb : Option (List Char)
  inTransaction : Bool := false
  transactionLost : Bool := false
  statementTimeout : Option Nat := none
  selectLimit : Option Nat := none

/-- A connection, as the server has it. -/
inductive Link where
  | closed | autocommit | transaction
  deriving DecidableEq, Repr

/-- The session and the server. `gone` says that the connection of an open transaction is
gone and no `ROLLBACK` has been sent since. -/
structure World where
  session : MysqlSession
  link : Nat → Link
  nextConn : Nat
  gone : Bool := false

def connected (database : Option (List Char)) : World where
  session := { idle := some 0, wantedDb := database, currentDb := database, optsDb := database }
  link := fun conn => if conn = 0 then .autocommit else .closed
  nextConn := 1

/-- The answer to a statement that the driver sends on its own behalf. -/
inductive Reply where
  | ok | refused | lost
  deriving DecidableEq, Repr

/-- Why a call sent nothing. -/
inductive Refusal where
  | several | transactionLost | stillReading | connect | use | set
  deriving DecidableEq, Repr

inductive Outcome where
  | sent (conn : Nat)
  | refused (refusal : Refusal)
  deriving DecidableEq, Repr

structure ExecuteOptions where
  rowLimit : Option Nat := none
  statementTimeout : Option Nat := none

/-- What happens on the way of one call: whether a new connection can be opened, what becomes
of the `USE`, of the `SET` and of a statement of the driver's own, and whether the server
describes columns for the statement. -/
structure Fates where
  opened : Bool := true
  use : Reply := .ok
  set : Reply := .ok
  query : Reply := .ok
  described : Bool := false

/-- What the engine's readers of SQL say of a text: one statement, and one that only reads. -/
structure Readers where
  single : List Char → Bool
  readOnly : List Char → Bool

namespace World

/-- The socket is lost, or the session drops the connection. -/
def lose (w : World) (conn : Nat) : World :=
  { w with
    link := Function.update w.link conn .closed
    gone := w.gone || w.link conn == .transaction }

/-- A statement of the driver's own: whether it was accepted. A closed connection answers nothing. -/
def ask (w : World) (conn : Nat) : Reply → Option (World × Bool)
  | .lost => some (w.lose conn, false)
  | reply => if w.link conn = .closed then none else some (w, reply == .ok)

/-- `connection`. -/
def connection (w : World) (mayReplace opened : Bool) : World × Except Refusal Nat :=
  match w.session.idle with
  | some conn => ({ w with session.idle := none }, .ok conn)
  | none =>
    match w.session.flight with
    | none => replace w
    | some flight =>
      match flight.cursorGone, flight.stage with
      | _, .finished true => ({ w with session.flight := none }, .ok flight.conn)
      | _, .finished false => replace { w with session.flight := none }
      | false, _ => (w, .error .stillReading)
      | true, _ => replace { w.lose flight.conn with session.flight := none }
where
  /-- A new connection, which a transaction that was open forbids to all but a `ROLLBACK`. -/
  replace (w : World) : World × Except Refusal Nat :=
    if w.session.inTransaction && !mayReplace then ({ w with session.transactionLost := true }, .error .transactionLost)
    else if opened then
      ({ w with
        session.statementTimeout := none
        session.selectLimit := none
        link := Function.update w.link w.nextConn .autocommit
        nextConn := w.nextConn + 1 }, .ok w.nextConn)
    else (w, .error .connect)

/-- `use_wanted_database`. -/
def useWantedDatabase (w : World) (conn : Nat) (reply : Reply) : Option (World × Bool) :=
  match w.session.wantedDb with
  | none => some (w, true)
  | some wanted =>
    if w.session.currentDb = some wanted then some (w, true)
    else (w.ask conn reply).map fun (w, accepted) =>
      (if accepted then { w with session.currentDb := some wanted, session.optsDb := some wanted } else w, accepted)

/-- `apply_session_settings`: one `SET`, only when something changes. -/
def applySessionSettings (w : World) (conn : Nat) (wanted : Option Nat × Option Nat) (reply : Reply) :
    Option (World × Bool) :=
  if (w.session.statementTimeout, w.session.selectLimit) = wanted then some (w, true) else w.ask conn reply

/-- What is sent before the statement, or why the statement is not sent. -/
def prepare (w : World) (conn : Nat) (wanted : MysqlSession → Option Nat × Option Nat) (fates : Fates) :
    Option (World × Option Refusal) :=
  match w.useWantedDatabase conn fates.use with
  | none => none
  | some (w, false) => some ({ w with session.idle := some conn }, some .use)
  | some (w, true) =>
    match w.applySessionSettings conn (wanted w.session) fates.set with
    | none => none
    | some (w, false) => some ({ w with session.idle := some conn }, some .set)
    | some (w, true) =>
      some ({ w with
        session.statementTimeout := (wanted w.session).1
        session.selectLimit := (wanted w.session).2 }, none)

def accept (w : World) (conn : Nat) (sql : List Char) : World :=
  let opened := (serverEffect sql).apply (w.link conn == .transaction)
  { w with link := Function.update w.link conn (if opened then .transaction else .autocommit) }

/-- `text_rows`. -/
def textRows (readers : Readers) (w : World) (sql : List Char) (fates : Fates) : Option (World × Outcome) :=
  if !readers.single sql then some (w, .refused .several)
  else
    match w.connection false fates.opened with
    | (w, .error refusal) => some (w, .refused refusal)
    | (w, .ok conn) =>
      match w.prepare conn (fun session => (session.statementTimeout, none)) fates with
      | none => none
      | some (w, some refusal) => some (w, .refused refusal)
      | some (w, none) =>
        (w.ask conn fates.query).map fun (w, accepted) =>
          let w := if accepted then w.accept conn sql else w
          ({ w with session.idle := some conn }, .sent conn)

/-- The flags, set before the statement is sent. -/
def expect (w : World) (effect : TxnEffect) : World :=
  { w with
    session.inTransaction := effect.apply w.session.inTransaction
    session.transactionLost := if effect = .end' || effect = .rollback then false else w.session.transactionLost }

/-- The statement goes to its producer. -/
def dispatch (w : World) (conn : Nat) (sql : List Char) (described : Bool) : World :=
  { w with
    session.flight := some { conn := conn, sql := sql, described := described }
    gone := w.gone && serverEffect sql != .rollsBack }

/-- `run_statement`. -/
def runStatement (readers : Readers) (w : World) (sql : List Char) (options : ExecuteOptions) (fates : Fates) :
    Option (World × Outcome) :=
  if !readers.single sql then some (w, .refused .several)
  else
    let effect := txnEffect sql
    if w.session.transactionLost && effect != .rollback then some (w, .refused .transactionLost)
    else
      match w.connection (effect == .rollback) fates.opened with
      | (w, .error refusal) => some (w, .refused refusal)
      | (w, .ok conn) =>
        let limit := if readers.readOnly sql then options.rowLimit else none
        match (w.expect effect).prepare conn (fun _ => (options.statementTimeout, limit)) fates with
        | none => none
        | some (w, some refusal) => some (w, .refused refusal)
        | some (w, none) => some (w.dispatch conn sql (fates.described && options.rowLimit.isNone), .sent conn)

/-- Whether the last call has returned: with a cursor over known columns, or with the
server's answer. -/
def returned (w : World) : Bool := w.session.flight.all fun flight => flight.described || flight.stage != .sent

end World

inductive Action where
  | setContext (database : Option (List Char))
  | textRows (sql : List Char) (fates : Fates)
  | run (sql : List Char) (options : ExecuteOptions) (fates : Fates)
  /-- The server has received the statement, and accepts or refuses it. -/
  | answer (accepted : Bool)
  /-- The producer ends: with the connection, when the statement was read to its end or the
  server refused it, or without it, at a row limit, a dropped cursor or a lost socket. -/
  | finish (handedBack : Bool)
  | dropCursor

open World in
/-- One step, with the outcome of a call. The server describes no columns for a statement
that opens or ends a transaction. -/
def step (readers : Readers) (w : World) : Action → Option (World × Option Outcome)
  | .setContext database => if w.returned then some ({ w with session.wantedDb := database }, none) else none
  | .textRows sql fates =>
    if w.returned then (textRows readers w sql fates).map fun (w, outcome) => (w, some outcome) else none
  | .run sql options fates =>
    if w.returned && (!fates.described || serverEffect sql == .keeps) then
      (runStatement readers w sql options fates).map fun (w, outcome) => (w, some outcome)
    else none
  | .answer accepted =>
    match w.session.flight with
    | none => none
    | some flight =>
      if flight.stage = .sent && w.link flight.conn != .closed then
        let w := if accepted then w.accept flight.conn flight.sql else w
        some ({ w with session.flight := some { flight with stage := .answered } }, none)
      else none
  | .finish handedBack =>
    match w.session.flight with
    | none => none
    | some flight =>
      match handedBack, flight.stage with
      | true, .answered => some ({ w with session.flight := some { flight with stage := .finished true } }, none)
      | false, .answered =>
        some ({ w.lose flight.conn with session.flight := some { flight with stage := .finished false } }, none)
      | false, .sent =>
        let lost := w.lose flight.conn
        let gone := if serverEffect flight.sql = .rollsBack then w.gone else lost.gone
        some ({ lost with gone := gone, session.flight := some { flight with stage := .finished false } }, none)
      | _, _ => none
  | .dropCursor =>
    match w.session.flight with
    | some flight =>
      if w.returned then some ({ w with session.flight := some { flight with cursorGone := true } }, none) else none
    | none => none

def next (readers : Readers) (w : World) (action : Action) : Option World := (step readers w action).map (·.1)

end QueryHive.Driver.MysqlTransactions
