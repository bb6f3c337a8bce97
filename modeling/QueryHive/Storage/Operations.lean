import QueryHive.Library.Program
import QueryHive.Library.Text
import QueryHive.Storage.Records

/-! The operations on the rows of the local database, as programs of SQL statements: each
reads the rows it needs and writes whole rows back. -/
namespace QueryHive.Storage
open QueryHive.Library

/-- The tables. Groups are only referred to here; of the finished imports the sources count. -/
structure Database where
  history : Table fun row : QueryHistoryRecord => row.syncMeta.id := {}
  savedQueries : Table fun row : SavedQueryRecord => row.syncMeta.id := {}
  sessions : Table fun row : SessionRecord => row.syncMeta.id := {}
  connections : Table fun row : ConnectionRecord => row.syncMeta.id := {}
  profiles : Table fun row : ProfileRecord => row.syncMeta.id := {}
  accounts : Table fun row : AppAccount => row.syncMeta.id := {}
  groups : List SyncId := []
  imported : List String := []
  deriving DecidableEq

/-- The upserts of whole rows, one for each table. -/
inductive Write where
  | history (record : QueryHistoryRecord)
  | savedQuery (record : SavedQueryRecord)
  | session (record : SessionRecord)
  | connection (record : ConnectionRecord)
  | profile (record : ProfileRecord)
  | account (account : AppAccount)
  | imported (source : String)

inductive StorageError where
  | duplicateHistory | unknownGroup | wrongAccount
  | usage (message : String)
  | backup
  | verificationFailed (missing mismatched : List SyncId)
  deriving DecidableEq, Repr

/-- Another row that the unique index on events sees as the same event: it takes no two
rows without a connection for one. -/
def QueryHistoryRecord.clashes (record other : QueryHistoryRecord) : Bool :=
  record.connectionId.isSome && other.event = record.event && other.syncMeta.id ≠ record.syncMeta.id

/-- One statement that writes, with the constraints of its table. -/
def exec : Write → Database → Except StorageError Database
  | .history record, db =>
    if db.history.rows.any record.clashes then .error .duplicateHistory
    else .ok { db with history := db.history.upsert record }
  | .savedQuery record, db => .ok { db with savedQueries := db.savedQueries.upsert record }
  | .session record, db => .ok { db with sessions := db.sessions.upsert record }
  | .connection record, db =>
    if record.groupId.all db.groups.contains then .ok { db with connections := db.connections.upsert record }
    else .error .unknownGroup
  | .profile record, db => .ok { db with profiles := db.profiles.upsert record }
  | .account account, db =>
    if account.syncMeta.id = appAccountId then .ok { db with accounts := db.accounts.upsert account }
    else .error .wrongAccount
  | .imported source, db => .ok { db with imported := source :: db.imported }

abbrev Action (α : Type) := Program Database Write StorageError α

/-- Read a row, decide what becomes of it, and write it back: whether there was a row. -/
def revise (find : Database → Option ρ) (into : ρ → Write) (change : ρ → Option ρ) : Action Bool :=
  .read fun db =>
    match find db with
    | none => .done false
    | some row =>
      match change row with
      | none => .done true
      | some changed => .write (into changed) (.done true)

/-- The row to write for an event that is stored already under `id`: the stored row's revision
goes forward, and its tombstone is lifted. -/
def restored (record : QueryHistoryRecord) (id : SyncId) : Option QueryHistoryRecord → QueryHistoryRecord
  | some previous =>
    { record with
      syncMeta := { record.syncMeta with id := id, version := previous.syncMeta.version.next, deletedAt := none } }
  | none => { record with syncMeta := { record.syncMeta with id := id } }

/-- The second half of `record_history`, for an event that is stored already. -/
def rewriteHistory (record : QueryHistoryRecord) (id : SyncId) : Action SyncId :=
  .read fun db => .write (.history (restored record id (db.history.find id))) (.done id)

/-- `record_history`. -/
def recordHistory (record : QueryHistoryRecord) : Action SyncId :=
  .read fun db =>
    match db.history.rows.find? (·.event = record.event) with
    | none => .write (.history record) (.done record.syncMeta.id)
    | some existing => rewriteHistory record existing.syncMeta.id

def QueryHistoryRecord.deleted (record : QueryHistoryRecord) (at' : Int) : QueryHistoryRecord :=
  { record with syncMeta := record.syncMeta.markDeleted at' }

/-- `soft_delete_history`. -/
def softDeleteHistory (id : SyncId) (at' : Int) : Action Bool :=
  revise (·.history.find id) .history fun record => if record.syncMeta.isDeleted then none else some
    (record.deleted at')

/-- The living rows that `clear_history` selects, the earliest event first. -/
def livingHistory (connection : Option SyncId) (db : Database) : List QueryHistoryRecord :=
  (db.history.rows.filter fun record => !record.syncMeta.isDeleted &&
    (connection.isNone || record.connectionId = connection)).mergeSort
    (·.startedAt ≤ ·.startedAt)

/-- The selected rows are living rows of the table, each of them once. -/
theorem livingHistory_mem {record : QueryHistoryRecord} : record ∈ livingHistory connection db ↔ record ∈ db.history ∧
    record.syncMeta.isDeleted = false ∧ (connection.isNone = true ∨ record.connectionId = connection) := by
  simp [livingHistory, List.mem_mergeSort, Table.mem_iff]

theorem livingHistory_distinct (connection : Option SyncId) (db : Database) :
    (livingHistory connection db).Pairwise fun a b => a.syncMeta.id ≠ b.syncMeta.id := by
  have distinct := (db.history.ascending.imp fun less => less.ne).sublist (List.filter_sublist
    (p := fun record => !record.syncMeta.isDeleted && (connection.isNone || record.connectionId = connection)))
  exact (List.Perm.pairwise_iff (fun differ => Ne.symm differ) (List.mergeSort_perm _ _)).mpr distinct

/-- `clear_history`. -/
def clearHistory (connection : Option SyncId) (at' : Int) : Action Nat :=
  .read fun db =>
    let living := livingHistory connection db
    .writeAll (living.map fun record => .history (record.deleted at')) (.done living.length)

/-- `save_query`. -/
def saveQuery (record : SavedQueryRecord) : Action Unit := .write (.savedQuery record) (.done ())

def SavedQueryRecord.renamed (record : SavedQueryRecord) (name : String) (at' : Int) : SavedQueryRecord :=
  { record with name := name, syncMeta := record.syncMeta.touch at' }

/-- `rename_saved_query`. -/
def renameSavedQuery (id : SyncId) (name : String) (at' : Int) : Action Bool :=
  revise (·.savedQueries.find id) .savedQuery fun record => some (record.renamed name at')

/-- `soft_delete_saved_query`. -/
def softDeleteSavedQuery (id : SyncId) (at' : Int) : Action Bool :=
  revise (·.savedQueries.find id) .savedQuery fun record =>
    if record.syncMeta.isDeleted then none else some { record with syncMeta := record.syncMeta.markDeleted at' }

/-- `set_saved_query_favourite`. -/
def setSavedQueryFavourite (id : SyncId) (favourite : Bool) (at' : Int) : Action Bool :=
  revise (·.savedQueries.find id) .savedQuery fun record =>
    if record.favourite = favourite then none
    else some { record with favourite := favourite, syncMeta := record.syncMeta.touch at' }

/-- `next_session_version`. -/
def nextSessionVersion (db : Database) : Version :=
  match db.sessions.find sessionId with
  | some record => record.syncMeta.version.next
  | none => .first

/-- `save_session`. -/
def saveSession (tabsJson : String) (activeTabId : Option String) (at' : Int) : Action Unit :=
  .read fun db => .write (.session ⟨⟨sessionId, at', none, nextSessionVersion db⟩, tabsJson, activeTabId⟩) (.done ())

/-- `session`: the living one. -/
def session (db : Database) : Option SessionRecord := (db.sessions.find sessionId).filter (!·.syncMeta.isDeleted)

def SessionRecord.deleted (record : SessionRecord) (at' : Int) : SessionRecord :=
  { record with syncMeta := record.syncMeta.markDeleted at' }

/-- `clear_session`. -/
def clearSession (at' : Int) : Action Bool := revise session .session fun record => some (record.deleted at')

/-- `soft_delete_connection`. -/
def softDeleteConnection (id : SyncId) (at' : Int) : Action Bool :=
  revise (·.connections.find id) .connection fun record =>
    if record.syncMeta.isDeleted then none else some { record with syncMeta := record.syncMeta.markDeleted at' }

/-- `restore_connection`. -/
def restoreConnection (id : SyncId) (at' : Int) : Action Bool :=
  revise (·.connections.find id) .connection fun record =>
    if record.syncMeta.isDeleted then some { record with syncMeta := record.syncMeta.undelete at' } else none

/-- `soft_delete_profile`. -/
def softDeleteProfile (id : SyncId) (at' : Int) : Action Bool :=
  revise (·.profiles.find id) .profile fun record =>
    if record.syncMeta.isDeleted then none else some { record with syncMeta := record.syncMeta.markDeleted at' }

/-- `restore_profile`. -/
def restoreProfile (id : SyncId) (at' : Int) : Action Bool :=
  revise (·.profiles.find id) .profile fun record =>
    if record.syncMeta.isDeleted then some { record with syncMeta := record.syncMeta.undelete at' } else none

/-- What becomes of a row that arrived from elsewhere. -/
def resolution (stored : Option SyncMeta) (incoming : SyncMeta) : Resolution :=
  match stored with
  | some ours => ours.resolve incoming
  | none => .takeTheirs

/-- `merge_connection`, and what is done after it. -/
def mergingConnection (incoming : ConnectionRecord) (next : Resolution → Action α) : Action α :=
  .read fun db =>
    match resolution ((db.connections.find incoming.syncMeta.id).map (·.syncMeta)) incoming.syncMeta with
    | .takeTheirs => .write (.connection incoming) (next .takeTheirs)
    | .keepOurs => next .keepOurs

def mergeConnection (incoming : ConnectionRecord) : Action Resolution := mergingConnection incoming .done

/-- `merge_profile`. -/
def mergeProfile (incoming : ProfileRecord) : Action Resolution :=
  .read fun db =>
    match resolution ((db.profiles.find incoming.syncMeta.id).map (·.syncMeta)) incoming.syncMeta with
    | .takeTheirs => .write (.profile incoming) (.done .takeTheirs)
    | .keepOurs => .done .keepOurs

/-- What an import did. -/
structure ImportReport where
  alreadyImported : Bool
  written : Nat
  kept : Nat
  deriving DecidableEq, Repr

/-- `verify_written`: the imported rows that are missing, and those written that read back different. -/
def verifyWritten (plan : List ConnectionRecord) (written : List SyncId) (db : Database) : List SyncId × List SyncId :=
  let stored := fun record : ConnectionRecord => db.connections.find record.syncMeta.id
  ((plan.filter fun record => (stored record).isNone).map (·.syncMeta.id),
    (plan.filter fun record => (stored record).any fun row =>
      written.contains record.syncMeta.id && row ≠ record).map (·.syncMeta.id))

/-- The rows of an import's plan merged one by one; the ids written, and how many rows were kept. -/
def mergePlan : List ConnectionRecord → List SyncId → Nat → (List SyncId → Nat → Action α) → Action α
  | [], written, kept, next => next written kept
  | record :: rest, written, kept, next =>
    mergingConnection record fun
      | .takeTheirs => mergePlan rest (written ++ [record.syncMeta.id]) kept next
      | .keepOurs => mergePlan rest written (kept + 1) next

/-- `import_connections`; `copied` says whether the source could be copied aside. -/
def importConnections (source : String) (plan : List ConnectionRecord) (copied : Bool) : Action ImportReport :=
  .read fun db =>
    if db.imported.contains source then .done ⟨true, 0, 0⟩
    else if !copied then .fail .backup
    else mergePlan plan [] 0 fun written kept =>
      .read fun db =>
        match verifyWritten plan written db with
        | ([], []) => .write (.imported source) (.done ⟨false, written.length, kept⟩)
        | (missing, mismatched) => .fail (.verificationFailed missing mismatched)

/-- `app_account_or_create`, and what is done with the account. -/
def appAccountOrCreate (at' : Int) (next : AppAccount → Action α) : Action α :=
  .read fun db =>
    match db.accounts.find appAccountId with
    | some account => next account
    | none => .write (.account (AppAccount.new at')) (next (AppAccount.new at'))

/-- A setting that `trim` leaves nothing of. -/
def blank (text : String) : Bool := text.toList.all Text.isWhitespace

/-- `history_add`; `id` is the identity a new row gets, `at'` the reading of the clock. -/
def historyAdd (id : SyncId) (sql : String) (connection : Option SyncId) (startedAt : Int)
    (elapsedMs rowCount : Option Int) (outcome : Option Outcome) (errorText : String) (at' : Int) : Action SyncId :=
  if blank sql then .fail (.usage "SQL is required to record an execution")
  else
    let startedAt := if startedAt = 0 then at' else startedAt
    recordHistory { QueryHistoryRecord.new id connection sql startedAt with
      elapsedMs := elapsedMs, rowCount := rowCount, outcome := outcome,
      errorText := if errorText = "" then none else some errorText }

/-- `saved_queries` with the action `save`. -/
def savedQueriesSave (id : SyncId) (name sql : String) (connection : Option SyncId) (at' : Int) : Action Unit :=
  if blank name then .fail (.usage "NAME is required to save a query")
  else if blank sql then .fail (.usage "SQL is required to save a query")
  else saveQuery (SavedQueryRecord.new id name sql connection at')

/-- `saved_queries` with the action `rename`. -/
def savedQueriesRename (id : SyncId) (name : String) (at' : Int) : Action Bool :=
  if blank name then .fail (.usage "NAME is required to rename a query") else renameSavedQuery id name at'

/-- `provider_of`. -/
def providerOf (text : String) : Except StorageError Provider :=
  match String.ofList ((Text.trim text.toList).map Char.toLower) with
  | "google" => .ok .google
  | "apple" => .ok .apple
  | "github" => .ok .github
  | "microsoft" => .ok .microsoft
  | other => .error (.usage s!"unknown PROVIDER '{other}'; expected google, apple, github or microsoft")

/-- `account` with the action `sign_in`. -/
def signIn (provider subject email displayName : String) (at' : Int) : Action AppAccount :=
  appAccountOrCreate at' fun record =>
    match providerOf provider with
    | .error error => .fail error
    | .ok provider =>
      if blank subject then .fail (.usage "SUBJECT is required to sign in")
      else
        let signed := { record with
          provider := some provider, subject := some subject,
          email := if blank email then none else some email,
          displayName := if blank displayName then none else some displayName,
          signedInAt := some at', signedOutAt := none, syncMeta := record.syncMeta.touch at' }
        .write (.account signed) (.done signed)

/-- `account` with the action `sign_out`. -/
def signOut (at' : Int) : Action AppAccount :=
  appAccountOrCreate at' fun record =>
    let signed := { record with signedOutAt := some at', syncMeta := record.syncMeta.touch at' }
    .write (.account signed) (.done signed)

end QueryHive.Storage
