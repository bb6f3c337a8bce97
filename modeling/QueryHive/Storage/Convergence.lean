import QueryHive.Library.Merge
import QueryHive.Storage.Operations

/-! Machines that exchange their connections and profiles. Each merges what arrives one row after another, in
whatever order and however often; machines that have heard of the same rows end with the same rows, unless two rows
claim to be one edit. -/
namespace QueryHive.Storage
open QueryHive.Library QueryHive.Library.Table

theorem SyncMeta.resolve_iff {ours incoming : SyncMeta} (same : ours.id = incoming.id) :
    ours.resolve incoming = .takeTheirs ↔ ours.revision < incoming.revision := by
  refine ⟨fun takes => (resolve_takes takes).2, fun less => ?_⟩
  rw [resolve, if_neg (not_not.mpr same)]
  rcases Prod.Lex.lt_iff.mp less with newer | ⟨equal, later⟩
  · exact if_pos newer
  · have equal : ours.version = incoming.version := equal
    rw [equal, if_neg (lt_irrefl _), if_neg (lt_irrefl _)]
    exact if_pos later

/-- What is decided about a row that arrived, by the row that is stored under its identity. -/
theorem resolution_iff {ρ : Type} {syncMeta : ρ → SyncMeta} {stored : Option ρ} {incoming : SyncMeta}
    (named : ∀ old, stored = some old → (syncMeta old).id = incoming.id) :
    resolution (stored.map syncMeta) incoming = .takeTheirs ↔ ∀ old, stored = some old →
      (syncMeta old).revision < incoming.revision := by
  cases stored with
  | none => exact ⟨fun _ => nofun, fun _ => rfl⟩
  | some old =>
    refine (SyncMeta.resolve_iff (named old rfl)).trans ⟨fun less other same => ?_, fun less => less old rfl⟩
    cases same
    exact less

theorem merge_resolution {ρ : Type} (syncMeta : ρ → SyncMeta) (table : Table fun row => (syncMeta row).id)
    (incoming : ρ) :
    table.merge (fun row => (syncMeta row).revision) incoming =
      if resolution ((table.find (syncMeta incoming).id).map syncMeta)
        (syncMeta incoming) = .takeTheirs then table.upsert incoming
      else table := by
  have named : ∀ old, table.find (syncMeta incoming).id = some old → (syncMeta old).id = (syncMeta incoming).id :=
    fun old found =>
    (find_eq_some_iff.mp found).2
  simp only [resolution_iff named, merge]
  split
  next old found => simp [found]
  next missing => simp [missing]

def admitted (db : Database) (record : ConnectionRecord) : Bool := record.groupId.all db.groups.contains

theorem mergeConnection_run (incoming : ConnectionRecord) (db : Database) : ((mergeConnection incoming).run exec db).2 =
    if admitted db incoming then { db with connections := db.connections.merge (·.syncMeta.revision) incoming }
    else db := by
  rw [merge_resolution fun row : ConnectionRecord => row.syncMeta, mergeConnection, mergingConnection, Program.run_read]
  cases resolution _ _ with
  | keepOurs => cases admitted db incoming <;> rfl
  | takeTheirs =>
    dsimp only
    rw [Program.run, exec, ← admitted]
    cases admitted db incoming <;> rfl

theorem mergeProfile_run (incoming : ProfileRecord) (db : Database) : ((mergeProfile incoming).run exec db).2 =
    { db with profiles := db.profiles.merge (·.syncMeta.revision) incoming } := by
  rw [merge_resolution fun row : ProfileRecord => row.syncMeta, mergeProfile, Program.run_read]
  cases resolution _ _ with
  | keepOurs => rfl
  | takeTheirs => rfl

/-- What arrives from another machine. -/
inductive Arrival where
  | connection (record : ConnectionRecord)
  | profile (record : ProfileRecord)

/-- The database after a row arrived; a merge that is refused has changed nothing. -/
def receive (db : Database) : Arrival → Database
  | .connection record => ((mergeConnection record).run exec db).2
  | .profile record => ((mergeProfile record).run exec db).2

def receiveAll (db : Database) (arrivals : List Arrival) : Database := arrivals.foldl receive db

def Arrival.asConnection : Arrival → Option ConnectionRecord
  | .connection record => some record
  | .profile _ => none

def Arrival.asProfile : Arrival → Option ProfileRecord
  | .connection _ => none
  | .profile record => some record

def profilesOf (arrivals : List Arrival) : List ProfileRecord := arrivals.filterMap Arrival.asProfile

/-- The connections that arrive and have their group here. -/
def connectionsOf (db : Database) (arrivals : List Arrival) : List ConnectionRecord :=
  (arrivals.filterMap Arrival.asConnection).filter (admitted db)

/-- Each table holds what it merged of the arrivals. -/
theorem receiveAll_tables (db : Database) (arrivals : List Arrival) : receiveAll db arrivals = { db with
    connections := db.connections.mergeAll (·.syncMeta.revision) (connectionsOf db arrivals)
    profiles := db.profiles.mergeAll (·.syncMeta.revision) (profilesOf arrivals) } := by
  induction arrivals generalizing db with
  | nil => rfl
  | cons arrival rest ih =>
    rw [receiveAll, List.foldl_cons, ← receiveAll, ih]
    cases arrival with
    | profile record =>
      rw [receive, mergeProfile_run]
      rfl
    | connection record =>
      rw [receive, mergeConnection_run]
      cases known : admitted db record with
      | true =>
        have more : connectionsOf db (.connection record :: rest) = record :: connectionsOf db rest :=
          List.filter_cons_of_pos known
        rw [more]
        rfl
      | false =>
        have same : connectionsOf db (.connection record :: rest) = connectionsOf db rest :=
          List.filter_cons_of_neg (by simp [known])
        rw [same]
        rfl

/-- A machine: its database, and what arrives there. -/
structure Machine where
  db : Database
  arrivals : List Arrival

/-- The machine has heard of exactly these rows. -/
def Machine.Hears (machine : Machine) (connections : List ConnectionRecord) (profiles : List ProfileRecord) : Prop :=
  Heard machine.db.connections (connectionsOf machine.db machine.arrivals) connections ∧
    Heard machine.db.profiles (profilesOf machine.arrivals) profiles

def Machine.last (machine : Machine) : Database := receiveAll machine.db machine.arrivals

/-- A machine at which these rows arrive, and which knows their groups. -/
def Machine.new (db : Database) (connections : List ConnectionRecord) (profiles : List ProfileRecord) : Machine where
  db := { db with groups := connections.filterMap (·.groupId) }
  arrivals := connections.map .connection ++ profiles.map .profile

variable (db : Database)

theorem new_rows (connections : List ConnectionRecord) (profiles : List ProfileRecord) :
    connectionsOf (Machine.new db connections profiles).db
      (Machine.new db connections profiles).arrivals = connections ∧
      profilesOf (Machine.new db connections profiles).arrivals = profiles := by
  have known : ∀ record ∈ connections, admitted (Machine.new db connections profiles).db record = true := by
    intro record inside
    rw [admitted]
    cases grouped : record.groupId with
    | none => rfl
    | some group =>
      rw [Option.all_some, List.contains_iff_mem]
      exact List.mem_filterMap.mpr ⟨record, inside, grouped⟩
  unfold connectionsOf profilesOf
  rw [Machine.new, List.filterMap_append, List.filterMap_append, List.filterMap_map, List.filterMap_map,
    List.filterMap_map,
    List.filterMap_map]
  have none' : (Arrival.asConnection ∘ Arrival.profile = fun _ => none) ∧
    (Arrival.asProfile ∘ Arrival.connection = fun _ => none) :=
    ⟨rfl, rfl⟩
  have all : (Arrival.asConnection ∘ Arrival.connection = some) ∧
    (Arrival.asProfile ∘ Arrival.profile = some) := ⟨rfl, rfl⟩
  rw [none'.1, none'.2, all.1, all.2, List.filterMap_some, List.filterMap_some, List.filterMap_none,
    List.filterMap_none,
    List.append_nil, List.nil_append]
  exact ⟨List.filter_eq_self.mpr known, rfl⟩

theorem new_hears {mine connections : List ConnectionRecord} {theirs profiles : List ProfileRecord}
    (knows : Heard db.connections mine connections) (learns : Heard db.profiles theirs profiles) :
    (Machine.new db mine theirs).Hears connections profiles := by
  rw [Machine.Hears, (new_rows db mine theirs).1, (new_rows db mine theirs).2]
  exact ⟨knows, learns⟩

theorem new_last (connections : List ConnectionRecord) (profiles : List ProfileRecord) :
    (Machine.new db connections profiles).last.connections = mergeAll (·.syncMeta.revision) db.connections connections ∧
      (Machine.new db connections profiles).last.profiles = mergeAll (·.syncMeta.revision) db.profiles profiles := by
  obtain ⟨first, second⟩ := new_rows db connections profiles
  rw [Machine.last, receiveAll_tables, first, second]
  exact ⟨rfl, rfl⟩

/-- Machines that have heard of the same connections and profiles end with the same ones, from whatever they had and in
whatever order the rows came, exactly when no two different rows of one identity share its greatest revision. -/
theorem machines_agree_iff (connections : List ConnectionRecord) (profiles : List ProfileRecord) :
    (∀ mine theirs : Machine, mine.Hears connections profiles → theirs.Hears connections profiles →
      mine.last.connections = theirs.last.connections ∧ mine.last.profiles = theirs.last.profiles) ↔
    Unambiguous (·.syncMeta.id) (·.syncMeta.revision) connections ∧ Unambiguous (·.syncMeta.id)
      (·.syncMeta.revision) profiles := by
  constructor
  · refine fun agree => ⟨fun a here b there same tied highest => ?_, fun a here b there same tied highest => ?_⟩
    · have equal := (agree (.new {} (a :: connections) profiles) (.new {} (b :: connections) profiles)
        (new_hears _ (heard_first here) heard_all) (new_hears _ (heard_first there) heard_all)).1
      rw [(new_last _ _ _).1, (new_last _ _ _).1] at equal
      exact mergeAll_differ a b same tied highest equal
    · have equal := (agree (.new {} connections (a :: profiles)) (.new {} connections (b :: profiles))
        (new_hears _ heard_all (heard_first here)) (new_hears _ heard_all (heard_first there))).2
      rw [(new_last _ _ _).2, (new_last _ _ _).2] at equal
      exact mergeAll_differ a b same tied highest equal
  · rintro ⟨first, second⟩ mine theirs ⟨knows, knows'⟩ ⟨learns, learns'⟩
    rw [Machine.last, Machine.last, receiveAll_tables, receiveAll_tables]
    exact ⟨mergeAll_agree first knows learns, mergeAll_agree second knows' learns'⟩

end QueryHive.Storage
