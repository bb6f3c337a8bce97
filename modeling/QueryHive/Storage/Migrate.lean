import QueryHive.Library.Deferred
import QueryHive.Library.Runs
import QueryHive.Library.Table

/-! The migrations of the local database, run by two processes on one file. What a
migration's statements make of the schema is SQLite's; the two records of where the
database is, and the order in which they are read and written, are the engine's. -/
namespace QueryHive.Storage.Migrate
open QueryHive.Library

universe u v

/-- SQLite, as far as the migrations need it: `σ` is everything in a file apart from
`user_version` and the rows of `schema_migration`, `δ` the statements of a migration. -/
structure Sqlite (δ : Type u) (σ : Type v) where
  empty : σ
  /-- The names in `sqlite_master`. -/
  objects : σ → List String
  tables : σ → List String
  execute : δ → σ → Except String σ
  /-- Whether the statement needs the write lock. -/
  writes : δ → Bool
  empty_objects : objects empty = []
  tables_objects : ∀ db, ∀ name ∈ tables db, name ∈ objects db
  reads : ∀ statement db after, writes statement = false → execute statement db = .ok after → after = db

structure Migration (δ : Type u) where
  version : Int
  name : String
  sql : List δ

/-- The embedded list: the versions are 1, 2, 3 and so on. -/
structure Migrations (δ : Type u) where
  list : List (Migration δ)
  numbered : list.map (·.version) = (List.range list.length).map fun (i : Nat) => (i : Int) + 1

/-- A migration that has run, as the history table remembers it. -/
structure AppliedMigration where
  version : Int
  name : String
  appliedAt : Int
  deriving DecidableEq, Repr

inductive MigrateError where
  | newerDatabase (found known : Int)
  | foreignDatabase (table : String)
  | inconsistentHistory (userVersion : Int) (recorded : List Int)
  | sqlite (message : String)
  | busy
  deriving DecidableEq, Repr

/-- One database file. -/
structure File (σ : Type v) where
  userVersion : Int
  history : Table fun row : AppliedMigration => row.version
  contents : σ

variable {δ : Type u} {σ : Type v} (sqlite : Sqlite δ σ) (migrations : Migrations δ)

def fresh : File σ := ⟨0, {}, sqlite.empty⟩

namespace Migrations

/-- `latest_version`. -/
def latestVersion : Int := (migrations.list.getLast?.map (·.version)).getD 0

def pending (current : Int) : List (Migration δ) := migrations.list.filter (·.version > current)

def expected (current : Int) : List Int := (migrations.list.filter (·.version ≤ current)).map (·.version)

end Migrations

/-- `name LIKE 'sqlite_%'`, which knows no case and takes any one character for `_`. -/
def likeInternal (name : String) : Bool :=
  (name.toList.take 6).map Char.toLower = "sqlite".toList && 7 ≤ name.toList.length

/-- `first_user_object`. -/
def firstUserObject (contents : σ) : Option String := (sqlite.objects contents).find? (!likeInternal ·)

/-- `has_table`. -/
def hasTable (contents : σ) (name : String) : Bool := (sqlite.tables contents).contains name

/-- The statements of a migration's transaction. -/
inductive Task (δ : Type u) where
  | sql (statement : δ)
  | record
  | mark

def tasks (migration : Migration δ) : List (Task δ) := migration.sql.map .sql ++ [.record, .mark]

/-- Whether a task needs the write lock. -/
def Task.writes : Task δ → Bool
  | sql statement => sqlite.writes statement
  | record => true
  | mark => true

/-- One task on what the transaction sees. The version is the primary key of the history. -/
def Task.perform (migration : Migration δ) (at' : Int) : Task δ → File σ → Except MigrateError (File σ)
  | sql statement, file =>
    match sqlite.execute statement file.contents with
    | .ok contents => .ok { file with contents := contents }
    | .error message => .error (.sqlite message)
  | record, file =>
    if hasTable sqlite file.contents "schema_migration" then
      if (file.history.find migration.version).isSome then .error
        (.sqlite "UNIQUE constraint failed: schema_migration.version")
      else .ok { file with history := file.history.upsert ⟨migration.version, migration.name, at'⟩ }
    else .error (.sqlite "no such table: schema_migration")
  | mark, file => .ok { file with userVersion := migration.version }

/-- Where a run is between two statements. -/
inductive Phase (δ : Type u) where
  | start
  | versionRead (current : Int)
  | tableFound (current : Int)
  | migrating (migration : Migration δ) (pending : List (Migration δ)) (applied : List AppliedMigration)
  | inside (migration : Migration δ) (tasks : List (Task δ)) (pending : List (Migration δ))
    (applied : List AppliedMigration)
  | returned (result : Except MigrateError (List AppliedMigration))
  | killed

def proceed (pending : List (Migration δ)) (applied : List AppliedMigration) : Phase δ :=
  match pending with
  | [] => .returned (.ok applied)
  | migration :: rest => .migrating migration rest applied

/-- The next task of a transaction, nothing while it waits for the write lock. -/
def perform (at' : Int) (who : Bool) (log : Deferred (File σ)) (migration : Migration δ) (task : Task δ)
    (rest : List (Task δ))
    (pending : List (Migration δ)) (applied : List AppliedMigration) : Option (Deferred (File σ) × Phase δ) :=
  if task.writes sqlite then
    match log.acquire who with
    | .waits => none
    | .conflict => some (log.rollback who, .returned (.error .busy))
    | .granted base =>
      match task.perform sqlite migration at' base with
      | .ok after => some (log.write who after, .inside migration rest pending applied)
      | .error error => some (log.rollback who, .returned (.error error))
  else
    match task.perform sqlite migration at' (log.view who) with
    | .ok _ => some (log.read who, .inside migration rest pending applied)
    | .error error => some (log.rollback who, .returned (.error error))

/-- The next statement of `run`, at the time `at'`. -/
def advance (at' : Int) (who : Bool) (log : Deferred (File σ)) : Phase δ → Option (Deferred (File σ) × Phase δ)
  | .start =>
    let current := log.committed.userVersion
    let known := migrations.latestVersion
    if current > known then some (log, .returned (.error (.newerDatabase current known)))
    else some (log, .versionRead current)
  | .versionRead current =>
    if current = 0 then
      match firstUserObject sqlite log.committed.contents with
      | some object => some (log, .returned (.error (.foreignDatabase object)))
      | none => some (log, proceed (migrations.pending current) [])
    else if hasTable sqlite log.committed.contents "schema_migration" then some (log, .tableFound current)
    else some (log, .returned (.error (.inconsistentHistory current [])))
  | .tableFound current =>
    let versions := log.committed.history.rows.map (·.version)
    if versions ≠ migrations.expected current then some (log,
      .returned (.error (.inconsistentHistory current versions)))
    else some (log, proceed (migrations.pending current) [])
  | .migrating migration pending applied => some (log, .inside migration (tasks migration) pending applied)
  | .inside migration (task :: rest) pending applied => perform sqlite at' who log migration task rest pending applied
  | .inside migration [] pending applied =>
    some (log.commit who, proceed pending (applied ++ [⟨migration.version, migration.name, at'⟩]))
  | .returned _ => none
  | .killed => none

/-- What happens to a run next: its next statement, a failure of that statement, the end of
the five seconds that it waits for the write lock, or the end of its process. -/
inductive Move where
  | go | fail | giveUp | kill
  deriving DecidableEq, Repr

/-- Whether a run has a statement to come. -/
def Phase.underWay : Phase δ → Bool
  | returned _ => false
  | killed => false
  | _ => true

/-- Whether the next task waits for the write lock. -/
def waiting (who : Bool) (log : Deferred (File σ)) : Phase δ → Bool
  | .inside _ (task :: _) _ _ => task.writes sqlite && (match log.acquire who with | .waits => true | _ => false)
  | _ => false

def move (at' : Int) (who : Bool) (log : Deferred (File σ)) (phase : Phase δ) :
    Move → Option (Deferred (File σ) × Phase δ)
  | .go => advance sqlite migrations at' who log phase
  | .fail => if phase.underWay then some (log.rollback who, .returned (.error (.sqlite "disk I/O error"))) else none
  | .giveUp => if waiting sqlite who log phase then some (log.rollback who, .returned (.error .busy)) else none
  | .kill => if phase.underWay then some (log.rollback who, .killed) else none

/-- Both runs on the one file. -/
structure Migrating (δ : Type u) (σ : Type v) where
  log : Deferred (File σ)
  phase : Bool → Phase δ

/-- One move of one of the runs; `clock` is what each of them took for the time. -/
def step (clock : Bool → Int) (s : Migrating δ σ) (action : Bool × Move) : Option (Migrating δ σ) :=
  (move sqlite migrations (clock action.1) action.1 s.log (s.phase action.1) action.2).map fun (log, phase) =>
    ⟨log, Function.update s.phase action.1 phase⟩

/-- Both runs before their first statement. -/
def begin (file : File σ) : Migrating δ σ := ⟨{ committed := file }, fun _ => .start⟩

end QueryHive.Storage.Migrate
