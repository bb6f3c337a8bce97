import QueryHive.Library.Interleaving
import QueryHive.Storage.Operations

/-! The calls that two processes make on one database, and what a write leaves alone. A
write of one row changes neither another row nor which row an event has. -/
namespace QueryHive.Storage
open QueryHive.Library

inductive Call where
  | recordHistory (record : QueryHistoryRecord)
  | clearHistory (connection : Option SyncId) (at' : Int)
  | softDeleteHistory (id : SyncId) (at' : Int)
  | saveQuery (record : SavedQueryRecord)
  | renameSavedQuery (id : SyncId) (name : String) (at' : Int)
  | setSavedQueryFavourite (id : SyncId) (favourite : Bool) (at' : Int)
  | softDeleteSavedQuery (id : SyncId) (at' : Int)
  | saveSession (tabsJson : String) (activeTabId : Option String) (at' : Int)
  | clearSession (at' : Int)
  deriving DecidableEq

/-- What a call returns. -/
inductive Answer where
  | id (id : SyncId)
  | flag (flag : Bool)
  | count (count : Nat)
  | unit
  deriving DecidableEq, Repr

def Call.program : Call → Action Answer
  | recordHistory record => (Storage.recordHistory record).map .id
  | clearHistory connection at' => (Storage.clearHistory connection at').map .count
  | softDeleteHistory id at' => (Storage.softDeleteHistory id at').map .flag
  | saveQuery record => (Storage.saveQuery record).map fun _ => .unit
  | renameSavedQuery id name at' => (Storage.renameSavedQuery id name at').map .flag
  | setSavedQueryFavourite id favourite at' => (Storage.setSavedQueryFavourite id favourite at').map .flag
  | softDeleteSavedQuery id at' => (Storage.softDeleteSavedQuery id at').map .flag
  | saveSession tabsJson activeTabId at' => (Storage.saveSession tabsJson activeTabId at').map fun _ => .unit
  | clearSession at' => (Storage.clearSession at').map .flag

/-- Two writes of one row, or of rows for one event. -/
def Conflict : Write → Write → Prop
  | .history a, .history b => a.syncMeta.id = b.syncMeta.id ∨ a.event = b.event
  | .savedQuery a, .savedQuery b => a.syncMeta.id = b.syncMeta.id
  | .session a, .session b => a.syncMeta.id = b.syncMeta.id
  | _, _ => False

instance : DecidableRel Conflict := fun a b => by
  cases a <;> cases b <;> unfold Conflict <;> infer_instance

theorem Conflict.symm (conflict : Conflict a b) : Conflict b a := by
  cases a <;> cases b <;> simp only [Conflict] at conflict ⊢ <;> grind

/-- At most one history row for each connection or none, text and start. -/
def OneRowPerEvent (db : Database) : Prop := ∀ a ∈ db.history, ∀ b ∈ db.history, a.event = b.event → a = b

/-- The row that `record_history` finds for an event. -/
def rowOf (db : Database) (event : Option SyncId × String × Int) : Option QueryHistoryRecord :=
  db.history.rows.find? (·.event = event)

theorem rowOf_some (found : rowOf db event = some row) : row ∈ db.history ∧ row.event = event :=
  ⟨List.mem_of_find?_eq_some found, by simpa using List.find?_some found⟩

theorem rowOf_eq_some_iff (one : OneRowPerEvent db) :
    rowOf db event = some row ↔ row ∈ db.history ∧ row.event = event := by
  constructor
  · exact rowOf_some
  · rintro ⟨inside, rfl⟩
    cases found : rowOf db row.event with
    | none => exact absurd (List.find?_eq_none.mp found row inside) (by simp)
    | some other => rw [one _ (rowOf_some found).1 _ inside (rowOf_some found).2]

theorem rowOf_eq_none_iff : rowOf db event = none ↔ ∀ row ∈ db.history, row.event ≠ event := by
  rw [rowOf, List.find?_eq_none]
  simp [Table.mem_iff]

theorem find_history_iff {db : Database} {id : SyncId} {row : QueryHistoryRecord} :
    db.history.find id = some row ↔ row ∈ db.history ∧ row.syncMeta.id = id :=
  Table.find_eq_some_iff

def Write.apply : Write → Database → Database
  | .history record, db => { db with history := db.history.upsert record }
  | .savedQuery record, db => { db with savedQueries := db.savedQueries.upsert record }
  | .session record, db => { db with sessions := db.sessions.upsert record }
  | _, db => db

/-- A history row is written over the row of the same event, or both its identity and its
event are new. -/
def Writable : Write → Database → Prop
  | .history record, db =>
    (∃ old ∈ db.history, old.syncMeta.id = record.syncMeta.id ∧ old.event = record.event) ∨
      ∀ old ∈ db.history, old.syncMeta.id ≠ record.syncMeta.id ∧ old.event ≠ record.event
  | .savedQuery _, _ => True
  | .session _, _ => True
  | _, _ => False

theorem exec_writable (one : OneRowPerEvent db) (writable : Writable statement db) :
    exec statement db = .ok (statement.apply db) := by
  cases statement with
  | history record =>
    have unclashed : db.history.rows.any record.clashes = false := by
      rw [List.any_eq_false]
      intro other inside clashes
      simp only [QueryHistoryRecord.clashes, Bool.and_eq_true, decide_eq_true_eq] at clashes
      obtain ⟨⟨-, sameEvent⟩, otherId⟩ := clashes
      rcases writable with ⟨old, stored, sameId, event⟩ | new
      · rw [one other inside old stored (sameEvent.trans event.symm)] at otherId
        exact otherId sameId
      · exact (new other inside).2 sameEvent
    simp [exec, unclashed, Write.apply]
  | savedQuery record => rfl
  | session record => rfl
  | connection => exact writable.elim
  | profile => exact writable.elim
  | account => exact writable.elim
  | imported => exact writable.elim

theorem oneRow_apply (one : OneRowPerEvent db) (writable : Writable statement db) :
    OneRowPerEvent (statement.apply db) := by
  cases statement with
  | history record =>
    intro a insideA b insideB sameEvent
    rcases Table.mem_upsert_iff.mp insideA with rfl | ⟨oldA, otherA⟩ <;>
      rcases Table.mem_upsert_iff.mp insideB with rfl | ⟨oldB, otherB⟩
    · rfl
    · rcases writable with ⟨old, stored, sameId, event⟩ | new
      · exact absurd ((congrArg (·.syncMeta.id)
          (one b oldB old stored (sameEvent.symm.trans event.symm))).trans sameId) otherB
      · exact absurd sameEvent.symm (new b oldB).2
    · rcases writable with ⟨old, stored, sameId, event⟩ | new
      · exact absurd ((congrArg (·.syncMeta.id)
          (one a oldA old stored (sameEvent.trans event.symm))).trans sameId) otherA
      · exact absurd sameEvent (new a oldA).2
    · exact one a oldA b oldB sameEvent
  | _ => exact one

def KeepsEvents (before after : Database) : Prop :=
  ∀ event row, rowOf before event = some row → ∃ later, rowOf after event = some later ∧
    later.syncMeta.id = row.syncMeta.id

/-- The row of the write, and the row of its event, are as they were. -/
def Untouched (before after : Database) : Write → Prop
  | .history record => after.history.find record.syncMeta.id = before.history.find record.syncMeta.id ∧
      rowOf after record.event = rowOf before record.event
  | .savedQuery record => after.savedQueries.find record.syncMeta.id = before.savedQueries.find record.syncMeta.id
  | .session record => after.sessions.find record.syncMeta.id = before.sessions.find record.syncMeta.id
  | _ => True

theorem keepsEvents_apply (one : OneRowPerEvent db) (writable : Writable statement db) :
    KeepsEvents db (statement.apply db) := by
  intro event row found
  have one' := oneRow_apply one writable
  obtain ⟨inside, isEvent⟩ := rowOf_some found
  cases statement with
  | history record =>
    by_cases same : row.syncMeta.id = record.syncMeta.id
    · refine ⟨record, (rowOf_eq_some_iff one').mpr ⟨Table.mem_upsert_iff.mpr (.inl rfl), ?_⟩, same.symm⟩
      rcases writable with ⟨old, stored, sameId, event'⟩ | new
      · rw [← event', ← isEvent]
        exact congrArg _ (Table.unique stored inside (sameId.trans same.symm))
      · exact absurd same (new row inside).1
    · exact ⟨row, (rowOf_eq_some_iff one').mpr ⟨Table.mem_upsert_iff.mpr (.inr ⟨inside, same⟩), isEvent⟩, rfl⟩
  | _ => exact ⟨row, found, rfl⟩

theorem untouched_apply (one : OneRowPerEvent db) (writable : Writable statement db)
    (apart : ¬ Conflict held statement) :
    Untouched db (statement.apply db) held := by
  cases held with
  | history record =>
    cases statement with
    | history written =>
      simp only [Conflict, not_or] at apart
      refine ⟨Table.find_upsert_of_ne (Ne.symm apart.1), Option.ext fun row => ?_⟩
      rw [rowOf_eq_some_iff one, rowOf_eq_some_iff (oneRow_apply one writable)]
      constructor
      · rintro ⟨inside, event⟩
        rcases Table.mem_upsert_iff.mp inside with rfl | ⟨before, -⟩
        · exact absurd event.symm apart.2
        · exact ⟨before, event⟩
      · rintro ⟨inside, event⟩
        refine ⟨Table.mem_upsert_iff.mpr (.inr ⟨inside, fun sameId => ?_⟩), event⟩
        rcases writable with ⟨old, stored, sameId', event'⟩ | new
        · rw [Table.unique inside stored (sameId.trans sameId'.symm), event'] at event
          exact apart.2 event.symm
        · exact (new row inside).1 sameId
    | _ => exact ⟨rfl, rfl⟩
  | savedQuery record =>
    cases statement with
    | savedQuery written => exact Table.find_upsert_of_ne (Ne.symm apart)
    | _ => rfl
  | session record =>
    cases statement with
    | session written => exact Table.find_upsert_of_ne (Ne.symm apart)
    | _ => rfl
  | _ => trivial

end QueryHive.Storage
