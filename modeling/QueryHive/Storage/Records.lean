import Mathlib.Data.String.Basic
import Mathlib.Data.Prod.Lex
import QueryHive.Library.Table

/-! The rows of the local database, and the revision that every one of them carries. Ids
are UUIDs as lower-case text, as the database orders and compares them. -/
namespace QueryHive.Storage

abbrev SyncId := String

/-- The largest `i64`. -/
def maxVersion : Int := 9223372036854775807

/-- A row's revision. -/
structure Version where
  get : Int
  positive : 1 ≤ get
  bounded : get ≤ maxVersion
  deriving DecidableEq, Repr

namespace Version

/-- The revision a row is born with. -/
def first : Version := ⟨1, le_refl _, by decide⟩

/-- `next`, which saturates. -/
def next (version : Version) : Version where
  get := min (version.get + 1) maxVersion
  positive := le_min (by have := version.positive; omega) (by decide)
  bounded := min_le_right _ _

instance : LinearOrder Version := LinearOrder.lift' get fun a b same => by
  cases a
  cases b
  cases same
  rfl

theorem lt_iff {a b : Version} : a < b ↔ a.get < b.get := Iff.rfl

def last : Version := ⟨maxVersion, by decide, le_refl _⟩

theorem le_last (version : Version) : version ≤ last := version.bounded

theorem next_grows (version : Version) : version < version.next ∨ version = last ∧ version.next = last := by
  rcases lt_or_eq_of_le version.bounded with below | full
  · refine .inl (lt_iff.mpr (lt_min (Int.lt_succ _) below))
  · have isLast : version = last := by
      cases version
      cases full
      rfl
    subst isLast
    exact .inr ⟨rfl, by decide⟩

end Version

/-- Which of two revisions of one row to keep. -/
inductive Resolution where
  | takeTheirs | keepOurs
  deriving DecidableEq, Repr

/-- Everything about a row that outlives the row's contents. Times are Unix milliseconds. -/
structure SyncMeta where
  id : SyncId
  updatedAt : Int
  deletedAt : Option Int
  version : Version
  deriving DecidableEq, Repr

namespace SyncMeta

def new (id : SyncId) (at' : Int) : SyncMeta := ⟨id, at', none, .first⟩

def isDeleted (row : SyncMeta) : Bool := row.deletedAt.isSome

def touch (row : SyncMeta) (at' : Int) : SyncMeta := { row with updatedAt := at', version := row.version.next }

def markDeleted (row : SyncMeta) (at' : Int) : SyncMeta := { row with deletedAt := some at' }.touch at'

def undelete (row : SyncMeta) (at' : Int) : SyncMeta := { row with deletedAt := none }.touch at'

def resolve (ours incoming : SyncMeta) : Resolution :=
  if ours.id ≠ incoming.id then .keepOurs
  else if ours.version < incoming.version then .takeTheirs
  else if incoming.version < ours.version then .keepOurs
  else if ours.updatedAt < incoming.updatedAt then .takeTheirs
  else .keepOurs

def revision (row : SyncMeta) : Version ×ₗ Int := toLex (row.version, row.updatedAt)

/-- A revision is replaced by a greater one only. -/
theorem resolve_takes (takes : resolve ours incoming = .takeTheirs) :
    ours.id = incoming.id ∧ ours.revision < incoming.revision := by
  unfold resolve at takes
  split at takes
  · cases takes
  · next same =>
    refine ⟨by simpa using same, Prod.Lex.lt_iff.mpr ?_⟩
    split at takes
    · next newer => exact .inl newer
    · next notNewer =>
      split at takes
      · cases takes
      · next notOlder =>
        split at takes
        · next later => exact .inr ⟨le_antisymm (not_lt.mp notOlder) (not_lt.mp notNewer), later⟩
        · cases takes

end SyncMeta

inductive Outcome where
  | ok | error | cancelled
  deriving DecidableEq, Repr

/-- One execution, as it is written down. -/
structure QueryHistoryRecord where
  syncMeta : SyncMeta
  connectionId : Option SyncId
  sqlText : String
  startedAt : Int
  elapsedMs : Option Int
  rowCount : Option Int
  outcome : Option Outcome
  errorText : Option String
  deriving DecidableEq, Repr

/-- One statement a user chose to keep. -/
structure SavedQueryRecord where
  syncMeta : SyncMeta
  name : String
  sqlText : String
  connectionId : Option SyncId
  folderId : Option SyncId
  favourite : Bool
  deriving DecidableEq, Repr

/-- The stored session: the tabs, and which one was in front. -/
structure SessionRecord where
  syncMeta : SyncMeta
  tabsJson : String
  activeTabId : Option String
  deriving DecidableEq, Repr

inductive ConnectionKind where
  | trino | postgres | mysql
  deriving DecidableEq, Repr

/-- One saved connection. -/
structure ConnectionRecord where
  syncMeta : SyncMeta
  name : String
  kind : ConnectionKind
  host : Option String
  port : Option UInt16
  userName : Option String
  databaseName : Option String
  optionsJson : String
  isProduction : Bool
  isReadOnly : Bool
  secretRef : Option String
  groupId : Option SyncId
  sortOrder : Int
  deriving DecidableEq, Repr

inductive Provider where
  | google | apple | github | microsoft
  deriving DecidableEq, Repr

/-- The one account this application runs under. -/
structure AppAccount where
  syncMeta : SyncMeta
  provider : Option Provider
  subject : Option String
  email : Option String
  displayName : Option String
  signedInAt : Option Int
  signedOutAt : Option Int
  deriving DecidableEq, Repr

inductive ProfileKind where
  | savedQuery | connection | preference
  deriving DecidableEq, Repr

/-- One thing saved for one account. -/
structure ProfileRecord where
  syncMeta : SyncMeta
  ownerId : SyncId
  kind : ProfileKind
  name : String
  payloadJson : String
  deriving DecidableEq, Repr

def sessionId : SyncId := "00000000-0000-7000-8000-000000000001"

def appAccountId : SyncId := "00000000-0000-7000-8000-000000000000"

/-- A living entry that has not finished yet, at its first revision. -/
def QueryHistoryRecord.new (id : SyncId) (connectionId : Option SyncId) (sqlText : String) (startedAt : Int) :
    QueryHistoryRecord where
  syncMeta := SyncMeta.new id startedAt
  connectionId := connectionId
  sqlText := sqlText
  startedAt := startedAt
  elapsedMs := none
  rowCount := none
  outcome := none
  errorText := none

def SavedQueryRecord.new (id : SyncId) (name sqlText : String) (connectionId : Option SyncId) (at' : Int) :
    SavedQueryRecord where
  syncMeta := SyncMeta.new id at'
  name := name
  sqlText := sqlText
  connectionId := connectionId
  folderId := none
  favourite := false

/-- A row at its first revision, with nobody signed in. -/
def AppAccount.new (at' : Int) : AppAccount where
  syncMeta := SyncMeta.new appAccountId at'
  provider := none
  subject := none
  email := none
  displayName := none
  signedInAt := none
  signedOutAt := none

def QueryHistoryRecord.event (record : QueryHistoryRecord) : Option SyncId × String × Int :=
  (record.connectionId, record.sqlText, record.startedAt)

end QueryHive.Storage
