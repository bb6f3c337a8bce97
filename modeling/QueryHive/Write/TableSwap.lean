import QueryHive.Core.Error
import QueryHive.Library.History
import QueryHive.Library.Numeral
import QueryHive.Store.Value

/-! `replace`: a new table is built beside the old one and then moved into place, one
plan per driver. The statements are kept as what they do to the target, the scratch
and the backup table. The server they are sent to, and how each statement ends there,
are inputs. -/
namespace QueryHive.Write
open QueryHive.Core QueryHive.Library QueryHive.Store

/-- The three tables of a replacement. -/
inductive Role where
  | target | scratch | backup
  deriving DecidableEq, Repr

inductive Statement where
  | createAs (role : Role)
  | count
  | drop (role : Role)
  | dropIfExists (role : Role)
  | rename (moves : List (Role × Role))
  | begin
  | commit
  | rollback
  deriving DecidableEq, Repr

/-- What a `replace` sends: a new table built beside the old one, then swapped in. -/
structure Replacement where
  build : Statement
  probe : Statement
  dropScratch : Statement
  /-- The swap when there is no old table to move aside. -/
  install : List Statement := []
  /-- The swap when there is one. -/
  swap : List Statement := []
  /-- Puts the old table back when `swap` stops after moving it aside. -/
  undo : Option Statement := none
  /-- Drops the old table, once the new one is in place. -/
  dropOld : Option Statement := none
  /-- The swap is one transaction, so a failure is a `ROLLBACK`. -/
  atomic : Bool := false
  deriving DecidableEq, Repr

def Replacement.plan (kind : DriverKind) : Replacement :=
  let plan : Replacement := { build := .createAs .scratch, probe := .count, dropScratch := .dropIfExists .scratch }
  match kind with
  | .postgres =>
    let moved := [.begin, .dropIfExists .target, .rename [(.scratch, .target)], .commit]
    { plan with install := moved, swap := moved, atomic := true }
  | .mysql =>
    { plan with
      install := [.rename [(.scratch, .target)]]
      swap := [.rename [(.target, .backup), (.scratch, .target)]]
      dropOld := some (.drop .backup) }
  | .trino =>
    { plan with
      install := [.rename [(.scratch, .target)]]
      swap := [.rename [(.target, .backup)], .rename [(.scratch, .target)]]
      undo := some (.rename [(.backup, .target)])
      dropOld := some (.drop .backup) }

/-- The table the user had, and the one this run builds, whose rows are all there. -/
inductive Relation where
  | existing | built
  deriving DecidableEq, Repr

/-- Which table has each of the three names. -/
structure Tables where
  target : Option Relation
  scratch : Option Relation := none
  backup : Option Relation := none
  deriving DecidableEq, Repr

def Tables.get (tables : Tables) : Role → Option Relation
  | .target => tables.target
  | .scratch => tables.scratch
  | .backup => tables.backup

def Tables.set (tables : Tables) (role : Role) (relation : Option Relation) : Tables :=
  match role with
  | .target => { tables with target := relation }
  | .scratch => { tables with scratch := relation }
  | .backup => { tables with backup := relation }

/-- A table takes a name that is free. -/
def Tables.move (tables : Tables) (source destination : Role) : Option Tables :=
  match tables.get source, tables.get destination with
  | some relation, none => some ((tables.set source none).set destination (some relation))
  | _, _ => none

/-- The renames of one statement, left to right, or none of them. -/
def Tables.moves (tables : Tables) : List (Role × Role) → Option Tables
  | [] => some tables
  | (source, destination) :: rest => (tables.move source destination).bind fun next => next.moves rest

def Tables.apply (tables : Tables) : Statement → Option Tables
  | .createAs role => if tables.get role = none then some (tables.set role (some .built)) else none
  | .drop role => if tables.get role = none then none else some (tables.set role none)
  | .dropIfExists role => some (tables.set role none)
  | .rename moves => tables.moves moves
  | .count | .begin | .commit | .rollback => some tables

/-- An open transaction: its tables, and whether a statement failed in it. -/
structure Work where
  tables : Tables
  aborted : Bool := false
  deriving DecidableEq, Repr

structure Server where
  committed : Tables
  work : Option Work := none
  deriving DecidableEq, Repr

/-- The server once a statement took effect, or nothing when it has to refuse it. In a
transaction that a statement failed in it runs nothing but its end. -/
def Server.perform (server : Server) (statement : Statement) : Option Server :=
  match statement, server.work with
  | .rollback, _ => some { server with work := none }
  | .commit, some work => some { committed := if work.aborted then server.committed else work.tables }
  | .commit, none => some server
  | .begin, none => some { server with work := some { tables := server.committed } }
  | statement, none => (server.committed.apply statement).map fun tables => { server with committed := tables }
  | statement, some work =>
    if work.aborted then none
    else (work.tables.apply statement).map fun tables => { server with work := some { tables := tables } }

/-- The server once it refused a statement: an open transaction can only be ended, and
a `COMMIT` that is refused has ended it. -/
def Server.refuse (server : Server) (statement : Statement) : Server :=
  { server with
    work := if statement = .commit then none else server.work.map fun work => { work with aborted := true } }

/-- How a statement ends: it takes effect and is acknowledged, fails without effect, or
takes effect with its answer lost. -/
inductive Fate where
  | acknowledged
  | refused (error : String)
  | lost (error : String)
  deriving DecidableEq, Repr

inductive Warning where
  | untouched
  | replaced
  | leftBehind (error : String)
  | movedAside
  | keptOld (error : String)
  deriving DecidableEq, Repr

def Warning.naming : Warning → List Role
  | untouched | replaced => []
  | leftBehind _ => [.scratch]
  | movedAside => [.backup, .scratch]
  | keptOld _ => [.backup]

/-- When a Stop is seen while the table is built: not at all, while the statement is
sent, or while its cursor is read, which may then fail to drain in time. -/
inductive Stop where
  | unseen
  | executing
  | reading (drained : Bool)
  deriving DecidableEq, Repr

/-- The forms the one value of a `COUNT(*)` arrives in. -/
inductive Count where
  | int | uint | decimal | text
  deriving DecidableEq, Repr

/-- How everything that a run meets ends. Each statement is sent at most once. -/
structure Schedule where
  stop : Stop := .unseen
  build : Fate := .acknowledged
  /-- The rows the server reports for the build. -/
  count : Option Nat := none
  /-- A Stop that arrived before the swap. -/
  cancelled : Bool := false
  probe : Except String Count := .ok .int
  step : Nat → Fate := fun _ => .acknowledged
  /-- The `ROLLBACK`, or the rename that puts the old table back. -/
  clear : Fate := .acknowledged
  discard : Fate := .acknowledged
  dropOld : Fate := .acknowledged

/-- A run: the server, what its committed tables were after each statement, whether an
answer was lost, and what the run reports. -/
structure Run where
  server : Server
  moments : List Tables
  lost : Bool := false
  warnings : List Warning := []
  affected : Option Nat := none
  deriving DecidableEq, Repr

def Run.warn (run : Run) (warning : Warning) : Run := { run with warnings := run.warnings ++ [warning] }

def Run.next (run : Run) (server : Server) (lost : Bool) : Run :=
  { run with server := server, moments := run.moments ++ [server.committed], lost := run.lost || lost }

def serverRefusal : String := "the server refused the statement"

/-- `finish_statement`: one statement, read to its end. -/
def finishStatement (fate : Fate) (statement : Statement) (run : Run) : Except String Unit × Run :=
  match run.server.perform statement with
  | none =>
    let error := match fate with
      | .acknowledged => serverRefusal
      | .refused error | .lost error => error
    (.error error, run.next (run.server.refuse statement) false)
  | some server =>
    match fate with
    | .acknowledged => (.ok (), run.next server false)
    | .refused error => (.error error, run.next (run.server.refuse statement) false)
    | .lost error => (.error error, run.next server true)

/-- How a statement that a Stop can interrupt ended. -/
inductive Built where
  | finished (count : Option Nat)
  | stopped (reusable : Bool)
  deriving DecidableEq, Repr

/-- `run_stoppable`: a Stop drops the statement's answer, not its effect. -/
def runStoppable (schedule : Schedule) (statement : Statement) (run : Run) : Except String Built × Run :=
  let (outcome, run) := finishStatement schedule.build statement run
  match schedule.stop with
  | .unseen => (outcome.map fun _ => .finished schedule.count, run)
  | .executing => (.ok (.stopped true), run)
  | .reading drained => (.ok (.stopped drained), run)

/-- The value the probe reads, with the target table there or not. -/
def Count.value (found : Bool) : Count → Value
  | int => .int (if found then 1 else 0)
  | uint => .uint (if found then 1 else 0)
  | decimal => .decimal (if found then 1 else 0) 0
  | text => .text (if found then "1" else "0")

/-- `counts_a_table`: a shape this does not know reads as "there is a table". -/
def countsATable : Value → Bool
  | .int count => 0 < count
  | .uint count => 0 < count
  | .decimal unscaled _ => 0 < unscaled.toInt
  | .text count => (Numeral.readUnsigned 64 (Text.trim count.toList)).elim true (0 < ·)
  | _ => true

theorem countsATable_value (form : Count) (found : Bool) : countsATable (form.value found) = found := by
  cases form <;> cases found <;> decide

/-- `table_exists`. -/
def tableExists (schedule : Schedule) (plan : Replacement) (run : Run) : Except String Bool × Run :=
  match schedule.probe with
  | .error error => (.error error, (finishStatement (.refused error) plan.probe run).2)
  | .ok form =>
    let found := countsATable (form.value run.server.committed.target.isSome)
    let (outcome, run) := finishStatement .acknowledged plan.probe run
    (outcome.map fun _ => found, run)

/-- `discard_scratch`: drop the scratch table, or say that it is still there. -/
def discardScratch (schedule : Schedule) (plan : Replacement) (reusable : Bool) (run : Run) : Run :=
  if reusable then
    match finishStatement schedule.discard plan.dropScratch run with
    | (.ok (), run) => run
    | (.error error, run) => run.warn (.leftBehind error)
  else run.warn (.leftBehind "the server did not release the connection")

/-- A way out that leaves the existing table. -/
def leave (schedule : Schedule) (plan : Replacement) (reusable : Bool) (run : Run) : Run :=
  (discardScratch schedule plan reusable run).warn .untouched

/-- What follows a step of the swap that failed: whether the old table counts as put
back. -/
def putBack (schedule : Schedule) (plan : Replacement) (index : Nat) (run : Run) : Bool × Run :=
  if plan.atomic then (true, (finishStatement schedule.clear .rollback run).2)
  else if 0 < index then
    match plan.undo with
    | some undo =>
      let (outcome, run) := finishStatement schedule.clear undo run
      (outcome.isOk, run)
    | none => (true, run)
  else (true, run)

def failedStep (schedule : Schedule) (plan : Replacement) (index : Nat) (run : Run) : Run :=
  match putBack schedule plan index run with
  | (true, run) =>
    leave schedule plan true { run with warnings := run.warnings.filter (· ≠ .replaced) }
  | (false, run) => run.warn .movedAside

/-- The steps of the swap, from the one at `index`. -/
def swapSteps (schedule : Schedule) (plan : Replacement) : Nat → List Statement → Run → Except String Unit × Run
  | _, [], run => (.ok (), run)
  | index, step :: rest, run =>
    match finishStatement (schedule.step index) step run with
    | (.ok (), run) => swapSteps schedule plan (index + 1) rest run
    | (.error error, run) => (.error error, failedStep schedule plan index run)

/-- What follows a swap that went through. -/
def dropBackup (schedule : Schedule) (plan : Replacement) (existed : Bool) (run : Run) : Run :=
  match existed, plan.dropOld with
  | true, some dropOld =>
    match finishStatement schedule.dropOld dropOld run with
    | (.ok (), run) => run
    | (.error error, run) => run.warn (.keptOld error)
  | _, _ => run

def Run.notice (run : Run) (existed : Bool) : Run := if existed then run.warn .replaced else run

/-- The end of a swap whose steps went through, or failed. -/
def afterSwap (schedule : Schedule) (plan : Replacement) (existed : Bool) :
    Except String Unit × Run → Except String Bool × Run
  | (.error error, run) => (.error error, run)
  | (.ok (), run) => (.ok false, dropBackup schedule plan existed run)

/-- The swap, once the new table is complete. -/
def swapTables (schedule : Schedule) (plan : Replacement) (existed : Bool) (run : Run) : Except String Bool × Run :=
  afterSwap schedule plan existed
    (swapSteps schedule plan 0 (if existed then plan.swap else plan.install) (run.notice existed))

/-- `replace_table`: build, then swap. Returns whether a Stop ended it. -/
def replaceTable (schedule : Schedule) (plan : Replacement) (run : Run) : Except String Bool × Run :=
  match runStoppable schedule plan.build run with
  | (.ok (.stopped reusable), run) => (.ok true, leave schedule plan reusable run)
  | (.error error, run) => (.error error, leave schedule plan true run)
  | (.ok (.finished count), run) =>
    let run := { run with affected := count }
    if schedule.cancelled then (.ok true, leave schedule plan true run)
    else
      match tableExists schedule plan run with
      | (.error error, run) => (.error error, leave schedule plan true run)
      | (.ok existed, run) => swapTables schedule plan existed run

def targetBefore (existed : Bool) : Option Relation := if existed then some .existing else none

/-- A server with the user's table or without one, before the run. -/
def Run.start (existed : Bool) : Run :=
  { server := { committed := { target := targetBefore existed } }, moments := [{ target := targetBefore existed }] }

end QueryHive.Write
