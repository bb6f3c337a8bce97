import QueryHive.Core.Batch
import QueryHive.Driver.TrinoPage
import QueryHive.Library.History
import QueryHive.Library.Runs

/-! Reading a Trino result page by page, with the request retry around the cursor. One
turn of the reading loop is one step; the coordinator gives its pages in order, and an
undelivered page again when it is asked for again. How each request ends is an input. -/
namespace QueryHive.Driver.Trino
open QueryHive.Core QueryHive.Library.History QueryHive.Library.Runs

variable {Cell Value : Type}

/-- The running query as far as a cancel needs to know it. -/
structure Running where
  id : String
  nextUri : String
  deriving DecidableEq, Repr

/-- `TrinoCursor`, less its client and the pause between polls. -/
structure Cursor (Value : Type) where
  running : Option Running
  nextUri : Option String
  columns : List WireColumn
  pending : List (List Value)
  finished : Bool
  affected : Option Nat
  rowLimit : Option Nat
  emitted : Nat := 0
  maxBatchRows : Option Nat
  timeoutMs : Option Nat
  sql : String
  deriving DecidableEq, Repr

structure ExecuteOptions where
  statementTimeout : Option Nat := none
  rowLimit : Option Nat := none
  maxBatchRows : Option Nat := none
  deriving DecidableEq, Repr

/-- A negative count is the protocol's way of saying there is none. -/
def affectedRows (updateCount : Option Int) : Option Nat :=
  updateCount.bind fun count => if 0 ≤ count then some count.toNat else none

/-- `running_from`. -/
def runningFrom (page : Page Value) : Option Running :=
  page.id.bind fun id => page.nextUri.map fun nextUri => ⟨id, nextUri⟩

/-- The cursor `execute` makes of the page its `POST` was answered with. -/
def opened (sql : String) (options : ExecuteOptions) (page : Page Value) : Cursor Value where
  running := runningFrom page
  nextUri := page.nextUri
  columns := page.columns.getD []
  pending := page.data
  finished := page.nextUri.isNone
  affected := affectedRows page.updateCount
  rowLimit := options.rowLimit
  maxBatchRows := options.maxBatchRows
  timeoutMs := options.statementTimeout
  sql := sql

def Cursor.runningAfter (cursor : Cursor Value) (page : Page Value) : Option Running :=
  match page.nextUri, page.id with
  | none, _ => none
  | some nextUri, some id => some ⟨id, nextUri⟩
  | some _, none => cursor.running

def Cursor.take (cursor : Cursor Value) (page : Page Value) : Cursor Value :=
  { cursor with
    columns := if cursor.columns.isEmpty then page.columns.getD [] else cursor.columns
    pending := cursor.pending ++ page.data
    affected := if page.updateCount.isSome then affectedRows page.updateCount else cursor.affected
    nextUri := page.nextUri
    finished := cursor.finished || page.nextUri.isNone
    running := cursor.runningAfter page }

/-- `fetch_page`: one more page, or the error of its request. -/
def Cursor.fetchPage (request : Request) (page : Page Value) (cursor : Cursor Value) :
    Except EngineError Unit × Cursor Value :=
  match cursor.nextUri, request.error with
  | none, _ => (.ok (), { cursor with finished := true })
  | some _, some error => (.error error, cursor)
  | some _, none =>
    match page.error with
    | some error => (.error (mapError error cursor.sql cursor.timeoutMs), { cursor with finished := true })
    | none => (.ok (), cursor.take page)

/-- The rows a call asks for: `usize::MAX` when it asks for all, under the batch ceiling. -/
def Cursor.capped (cursor : Cursor Value) (maxRows : Nat) : Nat :=
  let asked := if maxRows = 0 then 2 ^ 64 - 1 else maxRows
  match cursor.maxBatchRows with
  | some ceiling => if 0 < ceiling then min asked ceiling else asked
  | none => asked

/-- `budget`: how many rows this call should hand back. -/
def Cursor.budget (cursor : Cursor Value) (maxRows : Nat) : Nat :=
  match cursor.rowLimit with
  | some limit => min (cursor.capped maxRows) (limit - cursor.emitted)
  | none => cursor.capped maxRows

def Cursor.drain (cursor : Cursor Value) (maxRows : Nat) : List (List Value) :=
  cursor.pending.take (cursor.budget maxRows)

/-- How wide the next batch is: the widest row, not the first. -/
def batchWidth (cursor : Cursor Value) (rows : List (List Value)) : Nat :=
  (rows.map List.length).foldl max cursor.columns.length

/-- How one turn of the reading loop ends: the loop goes on, a batch, the end of the
result, an error, and with an error whether the cursor moved on. -/
inductive Turn (Value : Type) where
  | again
  | batch (batch : ColumnBatch Value)
  | ended
  | failed (error : EngineError) (moved : Bool)

def unformed (error : BatchError) : EngineError :=
  .internal ("the server's page could not form a batch: " ++ error.text)

def Cursor.batch (null : Value) (maxRows : Nat) (cursor : Cursor Value) : Turn Value × Cursor Value :=
  let rows := cursor.drain maxRows
  let cursor' := { cursor with pending := cursor.pending.drop rows.length, emitted := cursor.emitted + rows.length }
  match ColumnBatch.new (transpose null (batchWidth cursor rows) rows) with
  | .ok batch => (.batch batch, cursor')
  | .error error => (.failed (unformed error) true, cursor')

/-- Rows are pending, and the call may hand some back. -/
def Cursor.hasRows (cursor : Cursor Value) (maxRows : Nat) : Bool :=
  !cursor.pending.isEmpty && 0 < cursor.budget maxRows

/-- This turn asks the coordinator for a page. -/
def Cursor.fetches (cursor : Cursor Value) (maxRows : Nat) : Bool :=
  !cursor.hasRows maxRows && 0 < cursor.budget maxRows && !cursor.finished && cursor.nextUri.isSome

/-- One turn of the loop in `next_batch`, `refill` included. -/
def Cursor.turn (null : Value) (maxRows : Nat) (request : Request) (page : Page Value) (cursor : Cursor Value) :
    Turn Value × Cursor Value :=
  if cursor.hasRows maxRows then cursor.batch null maxRows
  else if cursor.budget maxRows = 0 then (.ended, { cursor with finished := true })
  else if cursor.finished then (.ended, cursor)
  else
    match cursor.fetchPage request page with
    | (.error error, cursor) => (.failed error request.error.isNone, cursor)
    | (.ok (), cursor) => (if cursor.pending.isEmpty && cursor.finished then .ended else .again, cursor)

/-- A call on the cursor: how many rows it asks for, the width of the builder a chunk
goes into, and the retries it has used. -/
structure Call where
  maxRows : Nat
  builder : Option Nat
  attempt : Nat := 0
  deriving DecidableEq, Repr

inductive Event (Value : Type) where
  | asked
  | read (page : Page Value)
  | rows (rows : List (List Value))
  | ended
  | failed (error : EngineError)

/-- What does not change while a result is read. -/
structure Setup (Cell Value : Type) where
  decoder : Decoder Cell Value
  retries : Nat
  resumable : Bool := true

/-- `RetryCursor` over a cursor, with the pages the coordinator has still to give and
what has happened. `halted` is set once a call failed after the cursor had moved on. -/
structure Reader (Cell Value : Type) where
  cursor : Cursor Value
  unread : List (Body Cell)
  call : Option Call := none
  history : List (Event Value)
  halted : Bool := false

inductive Action where
  | ask (maxRows : Nat) (builder : Option Nat)
  | turn (request : Request)
  deriving DecidableEq, Repr

/-- `again_mid_stream`, on a cursor that can be resumed. -/
def Setup.again (setup : Setup Cell Value) (attempt : Nat) (error : EngineError) : Bool :=
  setup.resumable && (attempt < setup.retries && error.failureKind = .transient) && error.producedNoPage

/-- A coordinator with no page left has forgotten the query. -/
def Reader.request (reader : Reader Cell Value) (request : Request) : Request :=
  if reader.unread.isEmpty && request = .answered then .status 404 "404 Not Found" "" else request

def Reader.next (setup : Setup Cell Value) (reader : Reader Cell Value) : Page Value :=
  (reader.unread.head?.map (Body.page setup.decoder)).getD {}

def Reader.reads (reader : Reader Cell Value) (call : Call) (request : Request) : Bool :=
  reader.cursor.fetches call.maxRows && (reader.request request).error.isNone

def wrongWidth (expected found : Nat) : EngineError :=
  .internal ("the cursor built a batch the chunk refused: batch has " ++ toString found ++
    " columns but the builder holds " ++ toString expected)

def Reader.fail (reader : Reader Cell Value) (error : EngineError) (moved : Bool) : Reader Cell Value :=
  { reader with call := none, history := reader.history ++ [.failed error], halted := reader.halted || moved }

/-- A batch, handed to the caller of `next_batch`, or pushed whole by `next_chunk`. -/
def Reader.deliver (reader : Reader Cell Value) (call : Call) (batch : ColumnBatch Value) : Reader Cell Value :=
  match call.builder with
  | none => { reader with call := none, history := reader.history ++ [.rows batch.records] }
  | some width =>
    if batch.rows = 0 then { reader with call := some { call with attempt := 0 } }
    else if batch.width = width then
      { reader with call := none, history := reader.history ++ [.rows batch.records] }
    else reader.fail (wrongWidth width batch.width) true

def Reader.moved (setup : Setup Cell Value) (reader : Reader Cell Value) (call : Call) (request : Request)
    (cursor : Cursor Value) : Reader Cell Value :=
  if reader.reads call request then
    { reader with
      cursor := cursor
      unread := reader.unread.tail
      history := reader.history ++ [.read (reader.next setup)] }
  else { reader with cursor := cursor }

/-- What the call makes of a turn; an error may be asked about again. -/
def Reader.conclude (setup : Setup Cell Value) (reader : Reader Cell Value) (call : Call) :
    Turn Value → Reader Cell Value
  | .again => reader
  | .batch batch => reader.deliver call batch
  | .ended => { reader with call := none, history := reader.history ++ [.ended] }
  | .failed error moved =>
    if setup.again call.attempt error then { reader with call := some { call with attempt := call.attempt + 1 } }
    else reader.fail error moved

def Reader.turned (setup : Setup Cell Value) (reader : Reader Cell Value) (call : Call) (request : Request) :
    Reader Cell Value :=
  let (turn, cursor) :=
    reader.cursor.turn setup.decoder.null call.maxRows (reader.request request) (reader.next setup)
  (reader.moved setup call request cursor).conclude setup call turn

def step (setup : Setup Cell Value) (reader : Reader Cell Value) : Action → Option (Reader Cell Value)
  | .ask maxRows builder =>
    if reader.call.isSome then none
    else some { reader with
      call := some { maxRows := maxRows, builder := builder }
      history := reader.history ++ [.asked] }
  | .turn request => reader.call.map fun call => reader.turned setup call request

/-- A result that was opened with its first page. -/
def Reader.start (setup : Setup Cell Value) (sql : String) (options : ExecuteOptions) (first : Body Cell)
    (pages : List (Body Cell)) : Reader Cell Value where
  cursor := opened sql options (first.page setup.decoder)
  unread := pages
  history := [.read (first.page setup.decoder)]

end QueryHive.Driver.Trino
