import QueryHive.Storage.Operations

/-! Revisions only go forward. Every operation is a program of whole-row writes, so it is
enough to say of each write what it makes of the row it replaces: a local change takes the
next version and the time of the change, a merge takes a greater revision. Entries of the
query history are the exception for times, since they carry the time of their event. -/
namespace QueryHive.Storage.Revisions
open QueryHive.Library

/-- Rows that carry a revision. -/
class Stored (ρ : Type) where
  syncMeta : ρ → SyncMeta

instance : Stored QueryHistoryRecord := ⟨(·.syncMeta)⟩
instance : Stored SavedQueryRecord := ⟨(·.syncMeta)⟩
instance : Stored SessionRecord := ⟨(·.syncMeta)⟩
instance : Stored ConnectionRecord := ⟨(·.syncMeta)⟩
instance : Stored ProfileRecord := ⟨(·.syncMeta)⟩
instance : Stored AppAccount := ⟨(·.syncMeta)⟩

/-- What the rows written to a table are like, and what they may make of the rows they replace. -/
structure Rule where
  written : SyncMeta → Prop
  replaces : SyncMeta → SyncMeta → Prop

section Tables

variable {ρ : Type} [Stored ρ] {key : ρ → SyncId} {rule : Rule}

def Rule.Allows (rule : Rule) (table : Table key) (row : ρ) : Prop :=
  rule.written (Stored.syncMeta row) ∧
    ∀ old, table.find (key row) = some old → rule.replaces (Stored.syncMeta old) (Stored.syncMeta row)

/-- Every row is still there, as it was or replaced by the rule, and the new rows are written by it. -/
structure Rule.Keeps (rule : Rule) (before after : Table key) : Prop where
  stored : ∀ old ∈ before, ∃ row ∈ after, key row = key old ∧
    (row = old ∨ rule.written (Stored.syncMeta row) ∧ rule.replaces (Stored.syncMeta old) (Stored.syncMeta row))
  written : ∀ row ∈ after, row ∈ before ∨ rule.written (Stored.syncMeta row)

def Rule.Transitive (rule : Rule) : Prop := ∀ {a b c}, rule.replaces a b → rule.replaces b c → rule.replaces a c

theorem Rule.Keeps.refl (table : Table key) : rule.Keeps table table :=
  ⟨fun old inside => ⟨old, inside, rfl, .inl rfl⟩, fun _ inside => .inl inside⟩

theorem Rule.Keeps.trans {a b c : Table key} (transitive : rule.Transitive) (first : rule.Keeps a b)
    (second : rule.Keeps b c) : rule.Keeps a c where
  stored := by
    intro old inside
    obtain ⟨middle, inMiddle, sameKey, change⟩ := first.stored old inside
    obtain ⟨row, inLast, sameKey', change'⟩ := second.stored middle inMiddle
    refine ⟨row, inLast, sameKey'.trans sameKey, ?_⟩
    rcases change with rfl | ⟨-, change⟩
    · exact change'
    · rcases change' with rfl | ⟨written, change'⟩
      · rcases first.written _ inMiddle with same | written
        · exact .inl (Table.unique same inside sameKey)
        · exact .inr ⟨written, change⟩
      · exact .inr ⟨written, transitive change change'⟩
  written := by
    intro row inside
    rcases second.written row inside with earlier | written
    · exact first.written row earlier
    · exact .inr written

/-- A write changes the row it replaces, and no other. -/
theorem Rule.Keeps.upsert {table : Table key} (allowed : rule.Allows table row) :
    rule.Keeps table (table.upsert row) where
  stored := by
    intro old inside
    by_cases same : key old = key row
    · refine ⟨row, Table.mem_upsert_iff.mpr (.inl rfl), same.symm, .inr ⟨allowed.1, ?_⟩⟩
      exact allowed.2 old (Table.find_eq_some_iff.mpr ⟨inside, same⟩)
    · exact ⟨old, Table.mem_upsert_iff.mpr (.inr ⟨inside, same⟩), rfl, .inl rfl⟩
  written := by
    intro other inside
    rcases Table.mem_upsert_iff.mp inside with rfl | ⟨before, -⟩
    · exact .inr allowed.1
    · exact .inl before

end Tables

/-- A rule for each table. -/
structure Rules where
  history : Rule
  savedQueries : Rule
  sessions : Rule
  connections : Rule
  profiles : Rule
  accounts : Rule

/-- Every table is kept by its rule. -/
structure Rules.Keep (rules : Rules) (before after : Database) : Prop where
  history : rules.history.Keeps before.history after.history
  savedQueries : rules.savedQueries.Keeps before.savedQueries after.savedQueries
  sessions : rules.sessions.Keeps before.sessions after.sessions
  connections : rules.connections.Keeps before.connections after.connections
  profiles : rules.profiles.Keeps before.profiles after.profiles
  accounts : rules.accounts.Keeps before.accounts after.accounts

def Rules.Allow (rules : Rules) (db : Database) : Write → Prop
  | .history record => rules.history.Allows db.history record
  | .savedQuery record => rules.savedQueries.Allows db.savedQueries record
  | .session record => rules.sessions.Allows db.sessions record
  | .connection record => rules.connections.Allows db.connections record
  | .profile record => rules.profiles.Allows db.profiles record
  | .account account => rules.accounts.Allows db.accounts account
  | .imported _ => True

structure Rules.Transitive (rules : Rules) : Prop where
  history : rules.history.Transitive
  savedQueries : rules.savedQueries.Transitive
  sessions : rules.sessions.Transitive
  connections : rules.connections.Transitive
  profiles : rules.profiles.Transitive
  accounts : rules.accounts.Transitive

variable {rules : Rules}

theorem Rules.Keep.refl (db : Database) : rules.Keep db db :=
  ⟨.refl _, .refl _, .refl _, .refl _, .refl _, .refl _⟩

theorem Rules.Keep.trans (transitive : rules.Transitive) (first : rules.Keep a b) (second : rules.Keep b c) :
    rules.Keep a c where
  history := .trans transitive.history first.history second.history
  savedQueries := .trans transitive.savedQueries first.savedQueries second.savedQueries
  sessions := .trans transitive.sessions first.sessions second.sessions
  connections := .trans transitive.connections first.connections second.connections
  profiles := .trans transitive.profiles first.profiles second.profiles
  accounts := .trans transitive.accounts first.accounts second.accounts

theorem exec_keeps (allowed : rules.Allow db statement) (accepted : exec statement db = .ok after) :
    rules.Keep db after := by
  cases statement with
  | history record =>
    simp only [exec] at accepted
    split at accepted
    · cases accepted
    · cases accepted
      exact ⟨.upsert allowed, .refl _, .refl _, .refl _, .refl _, .refl _⟩
  | savedQuery record =>
    cases accepted
    exact ⟨.refl _, .upsert allowed, .refl _, .refl _, .refl _, .refl _⟩
  | session record =>
    cases accepted
    exact ⟨.refl _, .refl _, .upsert allowed, .refl _, .refl _, .refl _⟩
  | connection record =>
    simp only [exec] at accepted
    split at accepted
    · cases accepted
      exact ⟨.refl _, .refl _, .refl _, .upsert allowed, .refl _, .refl _⟩
    · cases accepted
  | profile record =>
    cases accepted
    exact ⟨.refl _, .refl _, .refl _, .refl _, .upsert allowed, .refl _⟩
  | account account =>
    simp only [exec] at accepted
    split at accepted
    · cases accepted
      exact ⟨.refl _, .refl _, .refl _, .refl _, .refl _, .upsert allowed⟩
    · cases accepted
  | imported source =>
    cases accepted
    exact ⟨.refl _, .refl _, .refl _, .refl _, .refl _, .refl _⟩

theorem run_keeps (transitive : rules.Transitive) {program : Action α} (writes : program.Writes exec rules.Allow db) :
    rules.Keep db (program.run exec db).2 :=
  writes.run .refl (Rules.Keep.trans transitive) exec_keeps

/-- The next version, where there is one. -/
def Grows (old row : SyncMeta) : Prop := old.version < row.version ∨ old.version = .last ∧ row.version = .last

theorem Grows.trans (first : Grows a b) (second : Grows b c) : Grows a c := by
  rcases first with grows | ⟨full, full'⟩
  · rcases second with grows' | ⟨full, full'⟩
    · exact .inl (grows.trans grows')
    · exact .inl (grows.trans_eq (full.trans full'.symm))
  · rcases second with grows' | ⟨-, full''⟩
    · exact absurd (full' ▸ grows') (not_lt.mpr (Version.le_last _))
    · exact .inr ⟨full, full''⟩

/-- The rule of the local changes: the next version, and the time of the change. -/
def changed (at' : Int) : Rule := ⟨(·.updatedAt = at'), Grows⟩

/-- The rule of the query history, whose entries carry the time of an event. -/
def recorded : Rule := ⟨fun _ => True, Grows⟩

def localRules (at' : Int) : Rules where
  history := recorded
  savedQueries := changed at'
  sessions := changed at'
  connections := changed at'
  profiles := changed at'
  accounts := changed at'

theorem localRules_transitive : (localRules at').Transitive :=
  ⟨Grows.trans, Grows.trans, Grows.trans, Grows.trans, Grows.trans, Grows.trans⟩

theorem key_of_find {ρ : Type} {key : ρ → SyncId} {table : Table key} {id : SyncId} {row : ρ}
    (found : table.find id = some row) : key row = id :=
  (Table.find_eq_some_iff.mp found).2

/-- The write of a revised row is allowed when the change of the row it was read from is. -/
theorem revise_writes {ρ : Type} {find : Database → Option ρ} {into : ρ → Write} {change : ρ → Option ρ}
    (allowed : ∀ row changed, find db = some row → change row = some changed → rules.Allow db (into changed)) :
    (revise find into change).Writes exec rules.Allow db := by
  refine .read ?_
  cases found : find db with
  | none => exact .done
  | some row =>
    cases decided : change row with
    | none =>
      simp only [decided]
      exact .done
    | some changed =>
      simp only [decided]
      exact .write (allowed row changed found decided) fun _ _ => .done

theorem replaces {ρ : Type} [Stored ρ] {key : ρ → SyncId} {table : Table key} {id : SyncId}
    {row changed : ρ} {rule : Rule} (found : table.find id = some row) (sameKey : key changed = key row)
    (written : rule.written (Stored.syncMeta changed))
    (change : rule.replaces (Stored.syncMeta row) (Stored.syncMeta changed)) : rule.Allows table changed := by
  refine ⟨written, fun old foundOld => ?_⟩
  rw [sameKey, key_of_find found, found] at foundOld
  cases foundOld
  exact change

theorem fresh_allows {ρ : Type} [Stored ρ] {key : ρ → SyncId} {table : Table key} {row : ρ} {rule : Rule}
    (fresh : table.find (key row) = none) (written : rule.written (Stored.syncMeta row)) : rule.Allows table row :=
  ⟨written, fun _ found => nomatch fresh.symm.trans found⟩

section Operations

variable {id : SyncId} {at' : Int} {db : Database}

theorem softDeleteHistory_writes : (softDeleteHistory id at').Writes exec (localRules at').Allow db :=
  revise_writes fun row changed found decided => by
    split at decided
    · cases decided
    · cases decided
      exact replaces found rfl trivial row.syncMeta.version.next_grows

theorem renameSavedQuery_writes : (renameSavedQuery id name at').Writes exec (localRules at').Allow db :=
  revise_writes fun row changed found decided => by
    cases decided
    exact replaces found rfl rfl row.syncMeta.version.next_grows

theorem softDeleteSavedQuery_writes : (softDeleteSavedQuery id at').Writes exec (localRules at').Allow db :=
  revise_writes fun row changed found decided => by
    split at decided
    · cases decided
    · cases decided
      exact replaces found rfl rfl row.syncMeta.version.next_grows

theorem setSavedQueryFavourite_writes : (setSavedQueryFavourite id favourite at').Writes exec
    (localRules at').Allow db :=
  revise_writes fun row changed found decided => by
    split at decided
    · cases decided
    · cases decided
      exact replaces found rfl rfl row.syncMeta.version.next_grows

theorem softDeleteConnection_writes : (softDeleteConnection id at').Writes exec (localRules at').Allow db :=
  revise_writes fun row changed found decided => by
    split at decided
    · cases decided
    · cases decided
      exact replaces found rfl rfl row.syncMeta.version.next_grows

theorem restoreConnection_writes : (restoreConnection id at').Writes exec (localRules at').Allow db :=
  revise_writes fun row changed found decided => by
    split at decided
    · cases decided
      exact replaces found rfl rfl row.syncMeta.version.next_grows
    · cases decided

theorem softDeleteProfile_writes : (softDeleteProfile id at').Writes exec (localRules at').Allow db :=
  revise_writes fun row changed found decided => by
    split at decided
    · cases decided
    · cases decided
      exact replaces found rfl rfl row.syncMeta.version.next_grows

theorem restoreProfile_writes : (restoreProfile id at').Writes exec (localRules at').Allow db :=
  revise_writes fun row changed found decided => by
    split at decided
    · cases decided
      exact replaces found rfl rfl row.syncMeta.version.next_grows
    · cases decided

theorem clearSession_writes : (clearSession at').Writes exec (localRules at').Allow db :=
  revise_writes fun row changed found decided => by
    cases decided
    obtain ⟨foundRow, -⟩ := Option.filter_eq_some_iff.mp found
    exact replaces foundRow rfl rfl row.syncMeta.version.next_grows

theorem saveSession_writes : (saveSession tabsJson activeTabId at').Writes exec (localRules at').Allow db := by
  refine .read (.write ⟨rfl, fun old found => ?_⟩ fun _ _ => .done)
  change db.sessions.find sessionId = some old at found
  simp only [nextSessionVersion, found]
  exact old.syncMeta.version.next_grows

theorem saveQuery_writes (fresh : db.savedQueries.find record.syncMeta.id = none)
    (stamped : record.syncMeta.updatedAt = at') :
    (saveQuery record).Writes exec (localRules at').Allow db :=
  .write (fresh_allows fresh stamped) fun _ _ => .done

theorem recordHistory_writes (fresh : db.history.find record.syncMeta.id = none) :
    (recordHistory record).Writes exec (localRules at').Allow db := by
  refine .read ?_
  cases stored : db.history.rows.find? (·.event = record.event) with
  | none => exact .write (fresh_allows fresh trivial) fun _ _ => .done
  | some existing =>
    have inside : db.history.find existing.syncMeta.id = some existing :=
      Table.find_eq_some_iff.mpr ⟨List.mem_of_find?_eq_some stored, rfl⟩
    refine .read (.write ?_ fun _ _ => .done)
    simp only [inside, restored]
    exact replaces inside rfl trivial existing.syncMeta.version.next_grows

/-- The rows that are still to be cleared, each of them stored as it was read. -/
def ToClear (at' : Int) (statements : List Write) (db : Database) : Prop :=
  ∃ rows : List QueryHistoryRecord,
    statements = rows.map (fun record => .history (record.deleted at')) ∧
    rows.Pairwise (fun a b => a.syncMeta.id ≠ b.syncMeta.id) ∧ ∀ record ∈ rows,
      db.history.find record.syncMeta.id = some record

theorem toClear_start : ToClear at' ((livingHistory connection db).map fun record =>
    .history (record.deleted at')) db :=
  ⟨_, rfl, livingHistory_distinct connection db, fun _ inside =>
    Table.find_eq_some_iff.mpr ⟨(livingHistory_mem.mp inside).1, rfl⟩⟩

theorem clearHistory_writes : (clearHistory connection at').Writes exec (localRules at').Allow db := by
  refine .read (Program.Writes.all ?_ ?_ (fun _ => .done) (@toClear_start at' _ _))
  · rintro statement rest s ⟨rows, same, -, asRead⟩
    cases rows with
    | nil => cases same
    | cons record rows =>
      cases same
      exact replaces (asRead record List.mem_cons_self) rfl trivial record.syncMeta.version.next_grows
  · rintro statement rest s after ⟨rows, same, distinct, asRead⟩ accepted
    cases rows with
    | nil => cases same
    | cons record rows =>
      cases same
      obtain ⟨others, distinct⟩ := List.pairwise_cons.mp distinct
      refine ⟨rows, rfl, distinct, fun other inside => ?_⟩
      simp only [exec] at accepted
      split at accepted
      · cases accepted
      · cases accepted
        have kept : ∀ changed : QueryHistoryRecord, changed.syncMeta.id = record.syncMeta.id →
            (s.history.upsert changed).find other.syncMeta.id = some other := fun changed same => by
          rw [← asRead other (List.mem_cons_of_mem _ inside)]
          exact Table.find_upsert_of_ne (same.trans_ne (others other inside))
        exact kept _ rfl

theorem account_writes {next : AppAccount → Action α}
    (changes : ∀ account, account.syncMeta.id = appAccountId → ∀ s, s.accounts.find appAccountId = some account →
      (next account).Writes exec (localRules at').Allow s) :
    (appAccountOrCreate at' next).Writes exec (localRules at').Allow db := by
  refine .read ?_
  cases found : db.accounts.find appAccountId with
  | some account => exact changes account (Table.find_eq_some_iff.mp found).2 db found
  | none =>
    refine .write (fresh_allows found rfl) fun after accepted => changes _ rfl after ?_
    simp only [exec] at accepted
    split at accepted
    · cases accepted
      exact Table.find_upsert_self
    · cases accepted

theorem signIn_writes : (signIn provider subject email displayName at').Writes exec (localRules at').Allow db := by
  refine account_writes fun account isAccount s found => ?_
  split
  · exact .fail
  · split
    · exact .fail
    · exact .write (replaces found rfl rfl account.syncMeta.version.next_grows) fun _ _ => .done

theorem signOut_writes : (signOut at').Writes exec (localRules at').Allow db :=
  account_writes fun account _ _ found =>
    .write (replaces found rfl rfl account.syncMeta.version.next_grows) fun _ _ => .done

end Operations

def merged : Rule := ⟨fun _ => True, fun old row => old.revision < row.revision⟩

def unwritten : Rule := ⟨fun _ => False, fun _ _ => False⟩

def mergeRules : Rules := ⟨unwritten, unwritten, unwritten, merged, merged, unwritten⟩

theorem unwritten_transitive : unwritten.Transitive := fun no _ => no

theorem mergeRules_transitive : mergeRules.Transitive :=
  ⟨unwritten_transitive, unwritten_transitive, unwritten_transitive, lt_trans, lt_trans, unwritten_transitive⟩

theorem mergingConnection_writes {next : Resolution → Action α}
    (later : ∀ resolution s, (next resolution).Writes exec mergeRules.Allow s) :
    (mergingConnection incoming next).Writes exec mergeRules.Allow db := by
  refine .read ?_
  split
  · next takes =>
    refine .write ⟨trivial, fun old found => ?_⟩ fun after _ => later _ after
    rw [found] at takes
    exact (SyncMeta.resolve_takes takes).2
  · exact later _ db

theorem mergeProfile_writes : (mergeProfile incoming).Writes exec mergeRules.Allow db := by
  refine .read ?_
  split
  · next takes =>
    refine .write ⟨trivial, fun old found => ?_⟩ fun _ _ => .done
    rw [found] at takes
    exact (SyncMeta.resolve_takes takes).2
  · exact .done

theorem mergePlan_writes {next : List SyncId → Nat → Action α}
    (later : ∀ written kept s, (next written kept).Writes exec mergeRules.Allow s) :
    (mergePlan plan written kept next).Writes exec mergeRules.Allow db := by
  induction plan generalizing written kept db with
  | nil => exact later written kept db
  | cons record rest ih =>
    refine mergingConnection_writes fun resolution s => ?_
    cases resolution with
    | takeTheirs => exact ih
    | keepOurs => exact ih

theorem importConnections_writes : (importConnections source plan copied).Writes exec mergeRules.Allow db := by
  refine .read ?_
  split
  · exact .done
  split
  · exact .fail
  · refine mergePlan_writes fun written kept s => .read ?_
    split
    · exact .write trivial fun _ _ => .done
    · exact .fail

/-- The operations, with what each is given. The identities in `historyAdd`
and `savedQueriesSave` are those `SyncId::now` makes. -/
inductive Operation where
  | historyAdd (id : SyncId) (sql : String) (connection : Option SyncId) (startedAt : Int)
    (elapsedMs rowCount : Option Int)
      (outcome : Option Outcome) (errorText : String)
  | historyClear (connection : Option SyncId)
  | deleteHistory (id : SyncId)
  | saveQuery (id : SyncId) (name sql : String) (connection : Option SyncId)
  | renameQuery (id : SyncId) (name : String)
  | favouriteQuery (id : SyncId) (favourite : Bool)
  | deleteQuery (id : SyncId)
  | saveSession (tabsJson : String) (activeTabId : Option String)
  | clearSession
  | deleteConnection (id : SyncId)
  | restoreConnection (id : SyncId)
  | deleteProfile (id : SyncId)
  | restoreProfile (id : SyncId)
  | signIn (provider subject email displayName : String)
  | signOut
  | mergeConnection (incoming : ConnectionRecord)
  | mergeProfile (incoming : ProfileRecord)
  | importConnections (source : String) (plan : List ConnectionRecord) (copied : Bool)

namespace Operation

def perform (at' : Int) (db : Database) : Operation → Database
  | historyAdd id sql connection startedAt elapsedMs rowCount outcome errorText =>
    ((Storage.historyAdd id sql connection startedAt elapsedMs rowCount outcome errorText at').run exec db).2
  | historyClear connection => ((clearHistory connection at').run exec db).2
  | deleteHistory id => ((softDeleteHistory id at').run exec db).2
  | saveQuery id name sql connection => ((savedQueriesSave id name sql connection at').run exec db).2
  | renameQuery id name => ((savedQueriesRename id name at').run exec db).2
  | favouriteQuery id favourite => ((setSavedQueryFavourite id favourite at').run exec db).2
  | deleteQuery id => ((softDeleteSavedQuery id at').run exec db).2
  | saveSession tabsJson activeTabId => ((Storage.saveSession tabsJson activeTabId at').run exec db).2
  | clearSession => ((Storage.clearSession at').run exec db).2
  | deleteConnection id => ((softDeleteConnection id at').run exec db).2
  | restoreConnection id => ((Storage.restoreConnection id at').run exec db).2
  | deleteProfile id => ((softDeleteProfile id at').run exec db).2
  | restoreProfile id => ((Storage.restoreProfile id at').run exec db).2
  | signIn provider subject email displayName => ((Storage.signIn provider subject email displayName at').run exec db).2
  | signOut => ((Storage.signOut at').run exec db).2
  | mergeConnection incoming => ((Storage.mergeConnection incoming).run exec db).2
  | mergeProfile incoming => ((Storage.mergeProfile incoming).run exec db).2
  | importConnections source plan copied => ((Storage.importConnections source plan copied).run exec db).2

/-- Merges bring rows from elsewhere; the other operations are local. -/
def isMerge : Operation → Bool
  | mergeConnection _ | mergeProfile _ | importConnections .. => true
  | _ => false

/-- The identity that `SyncId::now` made for the operation is no stored row's. -/
def Fresh (db : Database) : Operation → Prop
  | historyAdd id .. => db.history.find id = none
  | saveQuery id .. => db.savedQueries.find id = none
  | _ => True

end Operation

theorem local_keeps {op : Operation} (isLocal : op.isMerge = false) (fresh : op.Fresh db) :
    (localRules at').Keep db (op.perform at' db) := by
  cases op with
  | historyAdd id sql connection startedAt elapsedMs rowCount outcome errorText =>
    apply run_keeps localRules_transitive
    unfold historyAdd
    split
    · exact .fail
    · exact recordHistory_writes fresh
  | historyClear => exact run_keeps localRules_transitive clearHistory_writes
  | deleteHistory => exact run_keeps localRules_transitive softDeleteHistory_writes
  | saveQuery =>
    apply run_keeps localRules_transitive
    unfold savedQueriesSave
    split
    · exact .fail
    split
    · exact .fail
    · exact saveQuery_writes fresh rfl
  | renameQuery =>
    apply run_keeps localRules_transitive
    unfold savedQueriesRename
    split
    · exact .fail
    · exact renameSavedQuery_writes
  | favouriteQuery => exact run_keeps localRules_transitive setSavedQueryFavourite_writes
  | deleteQuery => exact run_keeps localRules_transitive softDeleteSavedQuery_writes
  | saveSession => exact run_keeps localRules_transitive saveSession_writes
  | clearSession => exact run_keeps localRules_transitive clearSession_writes
  | deleteConnection => exact run_keeps localRules_transitive softDeleteConnection_writes
  | restoreConnection => exact run_keeps localRules_transitive restoreConnection_writes
  | deleteProfile => exact run_keeps localRules_transitive softDeleteProfile_writes
  | restoreProfile => exact run_keeps localRules_transitive restoreProfile_writes
  | signIn => exact run_keeps localRules_transitive signIn_writes
  | signOut => exact run_keeps localRules_transitive signOut_writes
  | mergeConnection => cases isLocal
  | mergeProfile => cases isLocal
  | importConnections => cases isLocal

/-- A merge replaces rows by greater revisions. -/
theorem merge_keeps {op : Operation} (isMerge : op.isMerge = true) : mergeRules.Keep db (op.perform at' db) := by
  cases op with
  | mergeConnection => exact run_keeps mergeRules_transitive (mergingConnection_writes fun _ _ => .done)
  | mergeProfile => exact run_keeps mergeRules_transitive mergeProfile_writes
  | importConnections => exact run_keeps mergeRules_transitive importConnections_writes
  | _ => cases isMerge

/-- The databases that operations one after another lead to, with the last reading of the
clock; the first is empty but for groups. -/
inductive Reached : Int → Database → Prop
  | start (now : Int) (groups : List SyncId) : Reached now { groups := groups }
  | step (before : Reached now db) (later : now ≤ at') (fresh : Operation.Fresh db op) :
      Reached at' (Operation.perform at' db op)

section Runs

variable {ρ : Type} [Stored ρ] {key : ρ → SyncId}

/-- No row is stamped later than `now`. -/
def Stamped (now : Int) (table : Table key) : Prop := ∀ row ∈ table, (Stored.syncMeta row).updatedAt ≤ now

/-- Every row is still stored, its version no lower; where it differs its version has grown
up to the last one, and after a merge its revision has. -/
def Onward (op : Operation) (before after : Table key) : Prop :=
  ∀ old ∈ before, ∃ row ∈ after, key row = key old ∧
    (Stored.syncMeta old).version ≤ (Stored.syncMeta row).version ∧
    (row ≠ old → op.isMerge = false → Grows (Stored.syncMeta old) (Stored.syncMeta row)) ∧
    (row ≠ old → op.isMerge = true → (Stored.syncMeta old).revision < (Stored.syncMeta row).revision)

/-- No row that was not ahead of the clock is stamped earlier than before. -/
def NoEarlier (at' : Int) (before after : Table key) : Prop :=
  ∀ old ∈ before, ∀ row ∈ after, key row = key old → (Stored.syncMeta old).updatedAt ≤ at' →
    (Stored.syncMeta old).updatedAt ≤ (Stored.syncMeta row).updatedAt

theorem Stamped.keeps {before after : Table key} {rule : Rule} (stamped : Stamped now before) (later : now ≤ at')
    (keeps : rule.Keeps before after) (written : ∀ row, rule.written row → row.updatedAt ≤ at') :
    Stamped at' after := by
  intro row inside
  rcases keeps.written row inside with earlier | new
  · exact (stamped row earlier).trans later
  · exact written _ new

theorem Grows.le {old row : SyncMeta} (grows : Grows old row) : old.version ≤ row.version := by
  rcases grows with less | ⟨full, full'⟩
  · exact less.le
  · exact (full.trans full'.symm).le

theorem version_le {old row : SyncMeta} (greater : old.revision < row.revision) : old.version ≤ row.version := by
  rcases Prod.Lex.lt_iff.mp greater with less | ⟨same, -⟩
  · exact le_of_lt less
  · exact le_of_eq same

theorem onward_local {op : Operation} {before after : Table key} {rule : Rule} (isLocal : op.isMerge = false)
    (keeps : rule.Keeps before after) (grows : ∀ old row, rule.replaces old row → Grows old row) :
    Onward op before after := by
  intro old inside
  obtain ⟨row, inAfter, sameKey, change⟩ := keeps.stored old inside
  refine ⟨row, inAfter, sameKey, ?_, fun differs _ => ?_, fun _ isMerge => nomatch isLocal.symm.trans isMerge⟩
  · rcases change with rfl | ⟨-, change⟩
    · exact le_refl _
    · exact (grows _ _ change).le
  · exact grows _ _ (change.resolve_left differs).2

theorem onward_merge {op : Operation} {before after : Table key} {rule : Rule} (isMerge : op.isMerge = true)
    (keeps : rule.Keeps before after) (greater : ∀ old row, rule.replaces old row → old.revision < row.revision) :
    Onward op before after := by
  intro old inside
  obtain ⟨row, inAfter, sameKey, change⟩ := keeps.stored old inside
  refine ⟨row, inAfter, sameKey, ?_, (fun _ isLocal => by cases isMerge.symm.trans isLocal), fun differs _ => ?_⟩
  · rcases change with rfl | ⟨-, change⟩
    · exact le_refl _
    · exact version_le (greater _ _ change)
  · exact greater _ _ (change.resolve_left differs).2

theorem noEarlier_changed {before after : Table key} (keeps : (changed at').Keeps before after) :
    NoEarlier at' before after := by
  intro old inside row inAfter sameKey onTime
  obtain ⟨stored, inAfter', sameKey', change⟩ := keeps.stored old inside
  cases Table.unique inAfter inAfter' (sameKey.trans sameKey'.symm)
  rcases change with rfl | ⟨written, -⟩
  · exact le_refl _
  · exact onTime.trans_eq written.symm

end Runs

theorem reached_stamped (reached : Reached now db) :
    Stamped now db.savedQueries ∧ Stamped now db.sessions ∧ Stamped now db.accounts := by
  induction reached with
  | start now groups => exact ⟨by rintro row ⟨⟩, by rintro row ⟨⟩, by rintro row ⟨⟩⟩
  | @step now db at' op before later fresh ih =>
    obtain ⟨queries, sessions, accounts⟩ := ih
    cases kind : op.isMerge with
    | false =>
      have keeps := @local_keeps _ at' _ kind fresh
      exact ⟨queries.keeps later keeps.savedQueries fun _ => le_of_eq,
        sessions.keeps later keeps.sessions fun _ => le_of_eq,
        accounts.keeps later keeps.accounts fun _ => le_of_eq⟩
    | true =>
      have keeps := @merge_keeps db at' _ kind
      exact ⟨queries.keeps later keeps.savedQueries fun _ no => no.elim,
        sessions.keeps later keeps.sessions fun _ no => no.elim,
        accounts.keeps later keeps.accounts fun _ no => no.elim⟩

/-- What an operation makes of a database. -/
structure Forward (op : Operation) (at' : Int) (before after : Database) : Prop where
  history : Onward op before.history after.history
  savedQueries : Onward op before.savedQueries after.savedQueries
  sessions : Onward op before.sessions after.sessions
  connections : Onward op before.connections after.connections
  profiles : Onward op before.profiles after.profiles
  accounts : Onward op before.accounts after.accounts

/-- What a local operation makes of the times. -/
structure OnTime (at' : Int) (before after : Database) : Prop where
  savedQueries : Stamped at' before.savedQueries ∧ NoEarlier at' before.savedQueries after.savedQueries
  sessions : Stamped at' before.sessions ∧ NoEarlier at' before.sessions after.sessions
  accounts : Stamped at' before.accounts ∧ NoEarlier at' before.accounts after.accounts
  connections : NoEarlier at' before.connections after.connections
  profiles : NoEarlier at' before.profiles after.profiles

/-- In every sequence of operations every row stays stored and its revision goes forward. -/
theorem revisions_go_forward (reached : Reached now before) (later : now ≤ at') (fresh : op.Fresh before) :
    Forward op at' before (op.perform at' before) ∧
      (op.isMerge = false → OnTime at' before (op.perform at' before)) := by
  cases kind : op.isMerge with
  | false =>
    have keeps := @local_keeps _ at' _ kind fresh
    obtain ⟨queries, sessions, accounts⟩ := reached_stamped reached
    have stamped {ρ : Type} [Stored ρ] {key : ρ → SyncId} {table : Table key} (stamped : Stamped now table) :
      Stamped at' table :=
      fun row inside => (stamped row inside).trans later
    refine ⟨⟨?_, ?_, ?_, ?_, ?_, ?_⟩, fun _ => ⟨⟨stamped queries, ?_⟩, ⟨stamped sessions, ?_⟩,
      ⟨stamped accounts, ?_⟩, ?_, ?_⟩⟩
    · exact onward_local kind keeps.history fun _ _ grows => grows
    · exact onward_local kind keeps.savedQueries fun _ _ grows => grows
    · exact onward_local kind keeps.sessions fun _ _ grows => grows
    · exact onward_local kind keeps.connections fun _ _ grows => grows
    · exact onward_local kind keeps.profiles fun _ _ grows => grows
    · exact onward_local kind keeps.accounts fun _ _ grows => grows
    · exact noEarlier_changed keeps.savedQueries
    · exact noEarlier_changed keeps.sessions
    · exact noEarlier_changed keeps.accounts
    · exact noEarlier_changed keeps.connections
    · exact noEarlier_changed keeps.profiles
  | true =>
    have keeps := @merge_keeps before at' _ kind
    refine ⟨⟨?_, ?_, ?_, ?_, ?_, ?_⟩, fun isLocal => by cases isLocal⟩
    · exact onward_merge kind keeps.history fun _ _ no => no.elim
    · exact onward_merge kind keeps.savedQueries fun _ _ no => no.elim
    · exact onward_merge kind keeps.sessions fun _ _ no => no.elim
    · exact onward_merge kind keeps.connections fun _ _ greater => greater
    · exact onward_merge kind keeps.profiles fun _ _ greater => greater
    · exact onward_merge kind keeps.accounts fun _ _ no => no.elim

/-- A connection that arrives with the last version there is and a stamp ahead of the clock. -/
def lastRevision : ConnectionRecord where
  syncMeta := ⟨"01924f1e-2f4a-7c3b-9c1e-7b0f3a5d6e80", 9, none, .last⟩
  name := "Warehouse"
  kind := .trino
  host := none
  port := none
  userName := none
  databaseName := none
  optionsJson := "{}"
  isProduction := false
  isReadOnly := false
  secretRef := none
  groupId := none
  sortOrder := 0

def noRecords : Database where
  history := default
  savedQueries := default
  sessions := default
  connections := default
  profiles := default
  accounts := default

def afterMerge : Database := (Operation.mergeConnection lastRevision).perform 1 noRecords

theorem revisions_go_forward_deleted :
    Forward (.deleteConnection lastRevision.syncMeta.id) 2 afterMerge
      ((Operation.deleteConnection lastRevision.syncMeta.id).perform 2 afterMerge) ∧
    ((Operation.deleteConnection lastRevision.syncMeta.id).isMerge = false →
      OnTime 2 afterMerge ((Operation.deleteConnection lastRevision.syncMeta.id).perform 2 afterMerge)) :=
  revisions_go_forward (.step (.start 1 []) (le_refl 1) trivial) (by decide) trivial

/-- Deleted after the merge, its version does not increase and its stamp decreases. -/
theorem revisions_saturate : Reached 1 afterMerge ∧ afterMerge.connections.rows = [lastRevision] ∧
    ∃ deleted : ConnectionRecord,
      ((Operation.deleteConnection lastRevision.syncMeta.id).perform 2 afterMerge).connections.rows = [deleted] ∧
      deleted ≠ lastRevision ∧ ¬ lastRevision.syncMeta.version < deleted.syncMeta.version ∧
      deleted.syncMeta.updatedAt < lastRevision.syncMeta.updatedAt := by
  refine ⟨.step (.start 1 []) (le_refl 1) trivial, by decide +kernel, ?_⟩
  exact ⟨{ lastRevision with syncMeta := lastRevision.syncMeta.markDeleted 2 }, by decide +kernel, by decide +kernel,
    by decide +kernel, by decide +kernel⟩

end QueryHive.Storage.Revisions
