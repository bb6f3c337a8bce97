import QueryHive.Storage.Clearing

/-! Two processes on one database. An operation reads rows, decides, and writes whole rows
back, so that another process's write can be lost in between. As long as neither process
writes or comes to hold what the other one has read and still has to write, every
interleaving is a serial run: a clear takes its turn when it selects its rows, every other
operation with its last statement. -/
namespace QueryHive.Storage.Concurrent
open QueryHive.Library

abbrev Caller := Process Call Database Write StorageError Answer

abbrev Callers := Processes Call Database Write StorageError Answer

def turn : Callers → Bool → Option Callers := Processes.statement Call.program exec

/-- One operation of one process, with nothing in between. -/
def serialTurn : Callers → Bool → Option Callers := Processes.whole Call.program exec

/-! ### What a call has decided -/

def isClear : Call → Bool
  | .clearHistory .. => true
  | _ => false

/-- What is left of a call after a read, next to what the whole call would do on `db`. -/
inductive Decided (call : Call) (db : Database) : Action Answer → Prop
  | done (planned : call.program.plan db = ([], .ok answer)) : Decided call db (.done answer)
  | write {statement : Write} (single : isClear call = false)
    (planned : call.program.plan db = ([statement], .ok answer)) :
      Decided call db (.write statement (.done answer))
  | reread {id : SyncId} (isRecord : call = .recordHistory record) (found : rowOf db record.event = some row)
      (sameId : row.syncMeta.id = id) : Decided call db ((rewriteHistory record id).map .id)
  | clear (isClear : call = .clearHistory connection at')
      (planned : call.program.plan db = (first :: rest, .ok (.count count))) :
      Decided call db (.writeAll (first :: rest) (.done (.count count)))

variable {S : Write → Prop} {before after : Database} {call : Call}

/-- A revision whose row is the same in both. -/
theorem revise_decided (find : Database → Option ρ) {into : ρ → Write} {change : ρ → Option ρ}
    (isRevision : call.program = (revise find into change).map .flag) (single : isClear call = false)
    (reads : call.program = .read next) (same : find after = find before) : Decided call after (next before) := by
  have planned : call.program.plan after = (next after).plan after := by rw [reads]; rfl
  have equal : next after = next before := by
    rw [isRevision] at reads
    cases reads
    simp only [same]
  rw [equal] at planned
  rw [isRevision] at reads
  cases reads
  cases found : find before with
  | none =>
    simp only [found] at planned ⊢
    exact .done planned
  | some row =>
    simp only [found] at planned ⊢
    cases decided : change row with
    | none =>
      simp only [decided] at planned ⊢
      exact .done planned
    | some changed =>
      simp only [decided] at planned ⊢
      exact .write single planned

theorem rename_program (id : SyncId) (name : String) (at' : Int) : (Call.renameSavedQuery id name at').program =
    (revise (·.savedQueries.find id) .savedQuery fun record => some (record.renamed name at')).map .flag := rfl

theorem clearSession_program (at' : Int) : (Call.clearSession at').program =
    (revise session .session fun record => some (record.deleted at')).map .flag := rfl

theorem find_of_apart {id : SyncId} (cleared : Cleared S before after)
    (apart : ∀ row, before.history.find id = some row → row.syncMeta.isDeleted = false →
    ∀ at', ¬ S (.history (row.deleted at'))) :
    after.history.find id = before.history.find id := by
  rcases cleared.find id with same | ⟨row, at', inside, -, found, living, -⟩
  · exact same
  · exact absurd inside (apart row found living at')

theorem plan_record_none {db : Database} (absent : rowOf db record.event = none) :
    (Call.recordHistory record).program.plan db = ([.history record], .ok (.id record.syncMeta.id)) := by
  rw [rowOf] at absent
  simp only [Call.program, recordHistory, Program.map_done, Program.map_read, Program.map_write, Program.plan_done,
    Program.plan_read, Program.plan_write, absent]

theorem plan_record_some {db : Database} (found : rowOf db record.event = some row) :
    (Call.recordHistory record).program.plan db =
      ([.history (restored record row.syncMeta.id (db.history.find row.syncMeta.id))], .ok (.id row.syncMeta.id)) := by
  rw [rowOf] at found
  simp only [Call.program, recordHistory, rewriteHistory, Program.map_done, Program.map_read, Program.map_write,
    Program.plan_done,
    Program.plan_read, Program.plan_write, found]

/-- The first statement of a call that reads: what is left was decided as on the database
in which the clears of the other process have been carried out. -/
theorem first_decided (one : OneRowPerEvent before) (cleared : Cleared S before after)
    (reads : call.program = .read next)
    (apart : ∀ mine ∈ (next before).pending, ∀ theirs, S theirs → ¬ Conflict mine theirs) :
    Decided call after (next before) := by
  cases call with
  | recordHistory record =>
    cases reads
    cases found : rowOf before record.event with
    | none =>
      have planned := plan_record_none (cleared.rowOf_none found)
      rw [rowOf] at found
      simp only [found]
      exact .write rfl planned
    | some existing =>
      obtain ⟨row, inside, sameId, sameEvent⟩ := cleared.later (rowOf_some found).1
      have isEvent := sameEvent.trans (rowOf_some found).2
      rw [rowOf] at found
      simp only [found]
      exact .reread rfl ((rowOf_eq_some_iff (cleared.oneRow one)).mpr ⟨inside, isEvent⟩) sameId
  | clearHistory connection at' =>
    cases reads
    have same : livingHistory connection after = livingHistory connection before :=
      cleared.livingHistory connection fun row inside at'' among => by
        refine apart (.history (row.deleted at')) ?_ _ among (.inl rfl)
        simp only [Program.map_writeAll, Program.map_done, Program.pending_writeAll]
        exact List.mem_map_of_mem inside
    have planned : (Call.clearHistory connection at').program.plan after =
        ((livingHistory connection before).map (fun row => Write.history (row.deleted at')),
          .ok (.count (livingHistory connection before).length)) := by
      rw [← same]
      exact (congrArg (Program.plan · after) (Program.map_writeAll ..)).trans (Program.plan_writeAll ..)
    simp only [Program.map_writeAll, Program.map_done] at planned ⊢
    cases rows : livingHistory connection before with
    | nil =>
      rw [rows] at planned
      exact .done planned
    | cons first rest =>
      rw [rows] at planned
      exact .clear rfl planned
  | softDeleteHistory id at' =>
    refine revise_decided (·.history.find id) rfl rfl reads
      (find_of_apart cleared fun row found living at'' among => ?_)
    cases reads
    simp only [found, living, Bool.false_eq_true, if_false] at apart
    exact apart _ List.mem_cons_self _ among (.inl rfl)
  | saveQuery record => cases reads
  | renameSavedQuery id name at' =>
    exact revise_decided _ (rename_program id name at') rfl reads (by rw [cleared.others])
  | setSavedQueryFavourite id favourite at' =>
    exact revise_decided (·.savedQueries.find id) rfl rfl reads (by rw [cleared.others])
  | softDeleteSavedQuery id at' => exact revise_decided (·.savedQueries.find id) rfl rfl reads (by rw [cleared.others])
  | saveSession tabsJson activeTabId at' =>
    have planned : (Call.saveSession tabsJson activeTabId at').program.plan after =
        (Call.saveSession tabsJson activeTabId at').program.plan before := by rw [cleared.others]; rfl
    cases reads
    exact .write rfl planned
  | clearSession at' => exact revise_decided _ (clearSession_program at') rfl reads (by rw [cleared.others]; rfl)

@[simp] theorem restored_id (record : QueryHistoryRecord) (id : SyncId) (previous : Option QueryHistoryRecord) :
    (restored record id previous).syncMeta.id = id := by cases previous <;> rfl

@[simp] theorem restored_event (record : QueryHistoryRecord) (id : SyncId) (previous : Option QueryHistoryRecord) :
    (restored record id previous).event = record.event := by cases previous <;> rfl

theorem second_decided {id : SyncId} (cleared : Cleared S before after) (found : rowOf after record.event = some row)
    (sameId : row.syncMeta.id = id)
    (apart : ∀ theirs, S theirs → ¬ Conflict (.history (restored record id (before.history.find id))) theirs) :
    Decided (.recordHistory record) after
      (.write (.history (restored record id (before.history.find id))) (.done (.id id))) := by
  have same : after.history.find id = before.history.find id := by
    rcases cleared.find id with same | ⟨old, at', among, oldId, -⟩
    · exact same
    · exact absurd (.inl (by simp [oldId])) (apart _ among)
  refine .write rfl ?_
  subst sameId
  rw [plan_record_some found, same]

theorem revise_plan {find : Database → Option ρ} {into : ρ → Write} {change : ρ → Option ρ} {db : Database}
    (planned : ((revise find into change).map Answer.flag).plan db = ([write], .ok answer)) :
    ∃ row changed, find db = some row ∧ change row = some changed ∧ write = into changed := by
  simp only [revise, Program.map_read, Program.plan_read] at planned
  cases found : find db with
  | none =>
    simp only [found] at planned
    cases planned
  | some row =>
    simp only [found] at planned
    cases decided : change row with
    | none =>
      simp only [decided] at planned
      cases planned
    | some changed =>
      simp only [decided] at planned
      cases planned
      exact ⟨row, changed, rfl, decided, rfl⟩

theorem revise_plan_congr {find : Database → Option ρ} {into : ρ → Write} {change : ρ → Option ρ} {db db' : Database}
    (same : find db' = find db) :
    ((revise find into change).map Answer.flag).plan db' = ((revise find into change).map Answer.flag).plan db := by
  simp only [revise, Program.map_read, Program.plan_read, same]
  cases find db with
  | none => rfl
  | some row =>
    dsimp only
    cases change row <;> rfl

def ids : Call → List SyncId
  | .recordHistory record => [record.syncMeta.id]
  | _ => []

/-- The one write that a call has planned is over the row that it found, or it is of a new event. -/
theorem planned_writable {db : Database} {statement : Write} (fresh : ∀ id ∈ ids call, db.history.find id = none)
    (single : isClear call = false) (planned : call.program.plan db = ([statement], .ok answer)) :
    Writable statement db ∧ ∀ id, statement.historyId = some id → id ∈ ids call ∨ db.history.find id ≠ none := by
  cases call with
  | recordHistory record =>
    cases found : rowOf db record.event with
    | none =>
      rw [plan_record_none found] at planned
      cases planned
      refine ⟨.inr fun old stored => ⟨fun sameId => ?_, rowOf_eq_none_iff.mp found old stored⟩, fun id isId => ?_⟩
      · have absent := fresh record.syncMeta.id List.mem_cons_self
        cases (sameId ▸ find_of_mem stored).symm.trans absent
      · cases Option.some.inj isId
        exact .inl List.mem_cons_self
    | some row =>
      rw [plan_record_some found] at planned
      cases planned
      obtain ⟨stored, event⟩ := rowOf_some found
      refine ⟨.inl ⟨row, stored, (restored_id ..).symm, event.trans (restored_event ..).symm⟩, fun id isId => .inr ?_⟩
      have same := (restored_id ..).symm.trans (Option.some.inj isId)
      rw [← same, find_of_mem stored]
      exact Option.some_ne_none _
  | clearHistory => cases single
  | softDeleteHistory id at' =>
    obtain ⟨row, changed, found, decided, rfl⟩ := revise_plan planned
    split at decided
    · cases decided
    · cases decided
      refine ⟨.inl ⟨row, mem_of_find found, rfl, rfl⟩, fun id' isId => .inr ?_⟩
      have same : row.syncMeta.id = id' := Option.some.inj isId
      rw [← same, find_of_mem (mem_of_find found)]
      exact Option.some_ne_none _
  | saveQuery record =>
    cases planned
    exact ⟨trivial, fun _ isId => nomatch isId⟩
  | renameSavedQuery id name at' =>
    rw [rename_program] at planned
    obtain ⟨row, changed, -, -, rfl⟩ := revise_plan planned
    exact ⟨trivial, fun _ isId => nomatch isId⟩
  | setSavedQueryFavourite id favourite at' =>
    obtain ⟨row, changed, -, -, rfl⟩ := revise_plan planned
    exact ⟨trivial, fun _ isId => nomatch isId⟩
  | softDeleteSavedQuery id at' =>
    obtain ⟨row, changed, -, -, rfl⟩ := revise_plan planned
    exact ⟨trivial, fun _ isId => nomatch isId⟩
  | saveSession tabsJson activeTabId at' =>
    cases planned
    exact ⟨trivial, fun _ isId => nomatch isId⟩
  | clearSession at' =>
    rw [clearSession_program] at planned
    obtain ⟨row, changed, -, -, rfl⟩ := revise_plan planned
    exact ⟨trivial, fun _ isId => nomatch isId⟩

theorem planned_untouched {db db' : Database} {statement : Write} (single : isClear call = false)
    (planned : call.program.plan db = ([statement], .ok answer)) (untouched : Untouched db db' statement) :
    call.program.plan db' = ([statement], .ok answer) := by
  cases call with
  | recordHistory record =>
    cases found : rowOf db record.event with
    | none =>
      rw [plan_record_none found] at planned
      cases planned
      exact plan_record_none (untouched.2.trans found)
    | some row =>
      rw [plan_record_some found] at planned
      cases planned
      obtain ⟨sameRow, sameEvent⟩ := untouched
      rw [restored_id] at sameRow
      rw [restored_event] at sameEvent
      rw [plan_record_some (sameEvent.trans found), sameRow]
  | clearHistory => cases single
  | softDeleteHistory id at' =>
    obtain ⟨row, changed, found, decided, rfl⟩ := revise_plan planned
    refine (revise_plan_congr ?_).trans planned
    split at decided
    · cases decided
    · cases decided
      have same := untouched.1
      rw [deleted_id, id_of_find found] at same
      exact same
  | saveQuery record => exact planned
  | renameSavedQuery id name at' =>
    rw [rename_program] at planned ⊢
    obtain ⟨row, changed, found, decided, rfl⟩ := revise_plan planned
    cases decided
    exact (revise_plan_congr ((Table.find_eq_some_iff.mp found).2 ▸ untouched)).trans planned
  | setSavedQueryFavourite id favourite at' =>
    obtain ⟨row, changed, found, decided, rfl⟩ := revise_plan planned
    refine (revise_plan_congr ?_).trans planned
    split at decided
    · cases decided
    · cases decided
      exact (Table.find_eq_some_iff.mp found).2 ▸ untouched
  | softDeleteSavedQuery id at' =>
    obtain ⟨row, changed, found, decided, rfl⟩ := revise_plan planned
    refine (revise_plan_congr ?_).trans planned
    split at decided
    · cases decided
    · cases decided
      exact (Table.find_eq_some_iff.mp found).2 ▸ untouched
  | saveSession tabsJson activeTabId at' =>
    cases planned
    have same : db'.sessions.find sessionId = db.sessions.find sessionId := untouched
    have version : nextSessionVersion db' = nextSessionVersion db := by
      rw [nextSessionVersion, same, nextSessionVersion]
    change ([Write.session ⟨⟨sessionId, at', none, nextSessionVersion db'⟩, tabsJson, activeTabId⟩], _) = _
    rw [version]
    rfl
  | clearSession at' =>
    rw [clearSession_program] at planned ⊢
    obtain ⟨row, changed, found, decided, rfl⟩ := revise_plan planned
    cases decided
    obtain ⟨foundRow, -⟩ := Option.filter_eq_some_iff.mp found
    have same : db'.sessions.find sessionId = db.sessions.find sessionId :=
      (Table.find_eq_some_iff.mp foundRow).2 ▸ untouched
    exact (revise_plan_congr (by rw [session, same, session])).trans planned

/-! ### A call in one piece -/

theorem revise_readsFirst {find : Database → Option ρ} {into : ρ → Write} {change : ρ → Option ρ} :
    ((revise find into change).map Answer.flag).ReadsFirst := by
  refine .read fun db => ?_
  dsimp only
  cases find db with
  | none => exact Program.ReadsFirst.writes [] (Answer.flag false)
  | some row =>
    dsimp only
    cases change row with
    | none => exact Program.ReadsFirst.writes [] (Answer.flag true)
    | some changed => exact Program.ReadsFirst.writes [into changed] (Answer.flag true)

theorem call_readsFirst (call : Call) : call.program.ReadsFirst := by
  cases call with
  | recordHistory record =>
    refine .read fun db => ?_
    dsimp only
    cases db.history.rows.find? (·.event = record.event) with
    | none => exact Program.ReadsFirst.writes [Write.history record] (Answer.id record.syncMeta.id)
    | some existing =>
      exact .read fun db : Database => Program.ReadsFirst.writes
        [Write.history (restored record existing.syncMeta.id (db.history.find existing.syncMeta.id))]
        (Answer.id existing.syncMeta.id)
  | clearHistory connection at' =>
    refine .read fun db => ?_
    simp only [Program.map_writeAll]
    exact Program.ReadsFirst.writes _ (Answer.count (livingHistory connection db).length)
  | softDeleteHistory id at' => exact revise_readsFirst
  | saveQuery record => exact Program.ReadsFirst.writes [Write.savedQuery record] Answer.unit
  | renameSavedQuery id name at' => exact rename_program id name at' ▸ revise_readsFirst
  | setSavedQueryFavourite id favourite at' => exact revise_readsFirst
  | softDeleteSavedQuery id at' => exact revise_readsFirst
  | saveSession tabsJson activeTabId at' =>
    exact .read fun db => Program.ReadsFirst.writes [Write.session _] Answer.unit
  | clearSession at' => exact clearSession_program at' ▸ revise_readsFirst

theorem run_none {db : Database} (planned : call.program.plan db = ([], .ok answer)) :
    call.program.run exec db = (.ok answer, db) :=
  (call_readsFirst call).run planned

theorem run_one {db : Database} {statement : Write} (planned : call.program.plan db = ([statement], .ok answer))
    (one : OneRowPerEvent db) (writable : Writable statement db) :
    call.program.run exec db = (.ok answer, statement.apply db) :=
  ((call_readsFirst call).run planned).trans (Program.run_write_ok (exec_writable one writable))

theorem clear_plan {db : Database} (planned : (Call.clearHistory connection at').program.plan db =
    (statements, .ok answer)) :
    statements = (livingHistory connection db).map fun row => .history (row.deleted at') := by
  have writes : (Call.clearHistory connection at').program.plan db =
      ((livingHistory connection db).map (fun row => Write.history (row.deleted at')),
        .ok (.count (livingHistory connection db).length)) :=
    (congrArg (Program.plan · db) (Program.map_writeAll ..)).trans (Program.plan_writeAll ..)
  exact (Prod.mk.inj (planned.symm.trans writes)).1

theorem clear_distinct (one : OneRowPerEvent db) (connection : Option SyncId) (at' : Int) :
    ((livingHistory connection db).map fun row => Write.history (row.deleted at')).Pairwise
      fun a b => ¬ Conflict a b := by
  refine List.pairwise_map.mpr
    ((livingHistory_distinct connection db).imp_of_mem fun {a b} insideA insideB differ => ?_)
  rintro (sameId | sameEvent)
  · exact differ sameId
  · exact differ (congrArg (·.syncMeta.id)
      (one a (livingHistory_mem.mp insideA).1 b (livingHistory_mem.mp insideB).1 sameEvent))

theorem run_clear {db : Database}
    (planned : (Call.clearHistory connection at').program.plan db = (statements, .ok answer))
    (one : OneRowPerEvent db) : ∃ after, (Call.clearHistory connection at').program.run exec db = (.ok answer, after) ∧
      Cleared (· ∈ statements) db after := by
  have writes := clear_plan planned
  subst writes
  obtain ⟨after, ran, cleared⟩ := run_tombstones one (clear_distinct one connection at') (fun statement inside => by
    obtain ⟨row, selected, rfl⟩ := List.mem_map.mp inside
    obtain ⟨stored, living, -⟩ := livingHistory_mem.mp selected
    exact ⟨row, at', rfl, find_of_mem stored, living⟩) answer
  exact ⟨after, ((call_readsFirst _).run planned).trans ran, cleared⟩

/-! ### The simulation -/

def Clearing (process : Caller) (statement : Write) : Prop :=
  ∃ connection at' left, process.current = some (.clearHistory connection at', left) ∧ statement ∈ left.pending

/-- A process among statements, and the same process among whole calls. -/
inductive InFlight (db : Database) : Caller → Caller → Prop
  | idle : InFlight db ⟨todo, none, results⟩ ⟨todo, none, results⟩
  | writing {call : Call} {statement : Write} (single : isClear call = false)
    (planned : call.program.plan db = ([statement], .ok answer)) :
      InFlight db ⟨todo, some (call, .write statement (.done answer)), results⟩ ⟨call :: todo, none, results⟩
  | rereading {id : SyncId} (found : rowOf db record.event = some row) (sameId : row.syncMeta.id = id) :
      InFlight db ⟨todo, some (.recordHistory record, (rewriteHistory record id).map .id), results⟩
        ⟨.recordHistory record :: todo, none, results⟩
  | clearing : InFlight db
      ⟨todo, some (.clearHistory connection at', .writeAll (first :: rest) (.done (.count count))), results⟩
      ⟨todo, none, results ++ [.ok (.count count)]⟩

/-- The identities that a process has still to bring. -/
def coming (process : Caller) : List SyncId :=
  (match process.current with | some (call, _) => ids call | none => []) ++ process.todo.flatMap ids

/-- Every identity that is still to come is new. -/
structure Fresh (callers : Callers) : Prop where
  nodup : ∀ who, (coming (callers.process who)).Nodup
  disjoint : ∀ who, ∀ id ∈ coming (callers.process who), id ∉ coming (callers.process !who)
  unstored : ∀ who, ∀ id ∈ coming (callers.process who), callers.shared.history.find id = none

/-- The interleaving `c` has come as far as the serial run `a`, in which the clears begun are done. -/
structure Sim (c a : Callers) : Prop where
  one : OneRowPerEvent c.shared
  fresh : Fresh c
  cleared : Cleared (fun statement => ∃ who, Clearing (c.process who) statement) c.shared a.shared
  apart : ∀ who, ∀ mine ∈ (c.process who).held, ∀ theirs ∈ (c.process !who).held, ¬ Conflict mine theirs
  distinct : ∀ who, (c.process who).held.Pairwise fun a b => ¬ Conflict a b
  process : ∀ who, InFlight a.shared (c.process who) (a.process who)
  succeeded : ∀ who, ∀ result ∈ (a.process who).results, ∃ answer, result = .ok answer

theorem clearing_held (clearing : Clearing process statement) : statement ∈ process.held := by
  obtain ⟨connection, at', left, current, inside⟩ := clearing
  simpa only [Process.held, current] using inside

/-- Where a process is between statements stays true while what it holds is untouched. -/
theorem InFlight.keeps {db db' : Database} (flight : InFlight db process serial) (events : KeepsEvents db db')
    (untouched : ∀ statement ∈ process.held, Untouched db db' statement) : InFlight db' process serial := by
  cases flight with
  | idle => exact .idle
  | writing single planned => exact .writing single (planned_untouched single planned (untouched _ List.mem_cons_self))
  | rereading found sameId =>
    obtain ⟨later, foundLater, sameLater⟩ := events _ _ found
    exact .rereading foundLater (sameLater.trans sameId)
  | clearing => exact .clearing

theorem not_clearing {todo : List Call} {results : List (Except StorageError Answer)} {left : Action Answer}
    (single : isClear call = false) (statement : Write) : ¬ Clearing ⟨todo, some (call, left), results⟩ statement := by
  rintro ⟨connection, at', left', current, -⟩
  cases current
  cases single

theorem not_clearing_idle {todo : List Call} {results : List (Except StorageError Answer)} (statement : Write) :
    ¬ Clearing ⟨todo, none, results⟩ statement := by
  rintro ⟨connection, at', left', current, -⟩
  cases current

section Step

variable {c a : Callers} {who : Bool} {todo : List Call} {results : List (Except StorageError Answer)}

theorem forall_who {P : Bool → Prop} (who : Bool) (mine : P who) (theirs : P !who) : ∀ x, P x := by
  intro x
  rcases Bool.eq_or_eq_not x who with rfl | rfl
  · exact mine
  · exact theirs

theorem Sim.writable (sim : Sim c a) (held : statement ∈ (c.process who).held) : Writable statement c.shared := by
  have flight := sim.process who
  generalize isProcess : c.process who = process at flight held
  generalize a.process who = serial at flight
  cases flight with
  | idle => cases held
  | @writing answer todo results call write single planned =>
    cases List.mem_singleton.mp held
    refine sim.cleared.writable_iff.mp (planned_writable (fun id inside => ?_) single planned).1
    refine sim.cleared.find_none_iff.mpr (sim.fresh.unstored who id ?_)
    rw [isProcess]
    exact List.mem_append_left _ inside
  | rereading => cases held
  | @clearing todo connection at' first rest count results =>
    obtain ⟨row, at'', rfl, found, -⟩ := sim.cleared.gone statement ⟨who, connection, at', _, by rw [isProcess], held⟩
    exact .inl ⟨row, mem_of_find found, rfl, rfl⟩

/-- The relation after a step of `who`, from what it says of each process. -/
theorem Sim.update {db db' : Database} {process serial : Caller} (sim : Sim c a) (one : OneRowPerEvent db)
    (sub : (coming process).Sublist (coming (c.process who)))
    (unstored : ∀ id, id ∈ coming process ∨ id ∈ coming (c.process !who) → db.history.find id = none)
    (cleared : Cleared (fun statement => Clearing process statement ∨ Clearing (c.process !who) statement) db db')
    (apart : ∀ mine ∈ process.held, ∀ theirs ∈ (c.process !who).held, ¬ Conflict mine theirs)
    (distinct : process.held.Pairwise fun a b => ¬ Conflict a b)
    (mine : InFlight db' process serial) (theirs : InFlight db' (c.process !who) (a.process !who))
    (succeeded : ∀ result ∈ serial.results, ∃ answer, result = .ok answer) :
    Sim ⟨db, Function.update c.process who process⟩ ⟨db', Function.update a.process who serial⟩ := by
  have self (other : Bool → Caller) (new : Caller) : Function.update other who new who = new := Function.update_self ..
  have rest (other : Bool → Caller) (new : Caller) : Function.update other who new (!who) = other !who :=
    Function.update_of_ne (Bool.not_ne_self who) ..
  refine ⟨one, ⟨forall_who who ?_ ?_, forall_who who ?_ ?_, forall_who who ?_ ?_⟩,
    cleared.congr fun statement => ?_, forall_who who ?_ ?_,
    forall_who who ?_ ?_, forall_who who ?_ ?_, forall_who who ?_ ?_⟩
  · simp only [self]
    exact sub.nodup (sim.fresh.nodup who)
  · simp only [rest]
    exact sim.fresh.nodup _
  · simp only [self, rest]
    exact fun id inside => sim.fresh.disjoint who id (sub.subset inside)
  · simp only [Bool.not_not, self, rest]
    exact fun id inside inside' => sim.fresh.disjoint who id (sub.subset inside') inside
  · simp only [self]
    exact fun id inside => unstored id (.inl inside)
  · simp only [rest]
    exact fun id inside => unstored id (.inr inside)
  · constructor
    · rintro (clearing | clearing)
      · exact ⟨who, by simpa only [self] using clearing⟩
      · exact ⟨!who, by simpa only [rest] using clearing⟩
    · rintro ⟨x, clearing⟩
      rcases Bool.eq_or_eq_not x who with rfl | rfl
      · exact .inl (by simpa only [self] using clearing)
      · exact .inr (by simpa only [rest] using clearing)
  · simp only [self, rest]
    exact apart
  · simp only [Bool.not_not, self, rest]
    exact fun theirs inside mine inside' conflict => apart mine inside' theirs inside conflict.symm
  · simp only [self]
    exact distinct
  · simp only [rest]
    exact sim.distinct _
  · simp only [self]
    exact mine
  · simp only [rest]
    exact theirs
  · simp only [self]
    exact succeeded
  · simp only [rest]
    exact sim.succeeded _

theorem serialTurn_eq (serial : a.process who = ⟨call :: todo, none, results⟩)
    (ran : call.program.run exec a.shared = (result, db)) :
    serialTurn a who = some ⟨db, Function.update a.process who ⟨todo, none, results ++ [result]⟩⟩ := by
  simp only [serialTurn, Processes.whole, serial, ran]

/-- The clears of both processes, when `who` has none. -/
theorem Sim.cleared_theirs (sim : Sim c a) (none' : ∀ statement, ¬ Clearing (c.process who) statement) :
    Cleared (Clearing (c.process !who)) c.shared a.shared := by
  refine sim.cleared.congr fun statement => ⟨?_, fun clearing => ⟨!who, clearing⟩⟩
  rintro ⟨x, clearing⟩
  rcases Bool.eq_or_eq_not x who with rfl | rfl
  · exact absurd clearing (none' statement)
  · exact clearing

theorem unstored_both (sim : Sim c a) (sub : ∀ id ∈ coming process, id ∈ coming (c.process who)) (id : SyncId)
    (inside : id ∈ coming process ∨ id ∈ coming (c.process !who)) : c.shared.history.find id = none := by
  rcases inside with inside | inside
  · exact sim.fresh.unstored who id (sub id inside)
  · exact sim.fresh.unstored (!who) id inside

theorem succeeded_append (fine : ∀ result ∈ results, ∃ answer, result = .ok answer) (answer : Answer) :
    ∀ result ∈ results ++ [.ok answer], ∃ answer, result = .ok answer := by
  intro result inside
  rcases List.mem_append.mp inside with earlier | last
  · exact fine result earlier
  · exact ⟨answer, List.mem_singleton.mp last⟩

theorem sim_read (sim : Sim c a) (serial : a.process who = ⟨call :: todo, none, results⟩)
    (waiting : ids call ++ todo.flatMap ids = coming (c.process who))
    (none' : ∀ statement, ¬ Clearing (c.process who) statement) (decided : Decided call a.shared left)
    (apart : ∀ mine ∈ left.pending, ∀ theirs ∈ (c.process !who).held, ¬ Conflict mine theirs) :
    ∃ a', (a' = a ∨ serialTurn a who = some a') ∧
      Sim ⟨c.shared, Function.update c.process who (Process.settle call todo results left)⟩ a' := by
  have theirs := sim.cleared_theirs none'
  have none'' (process : Caller) (none' : ∀ statement, ¬ Clearing process statement) :
      Cleared (fun statement => Clearing process statement ∨ Clearing (c.process !who) statement) c.shared a.shared :=
    theirs.congr fun statement => (or_iff_right (none' statement)).symm
  have unchanged : (⟨a.shared, Function.update a.process who ⟨call :: todo, none, results⟩⟩ : Callers) = a := by
    rw [← serial, Function.update_eq_self]
  have fine : ∀ result ∈ results, ∃ answer, result = .ok answer := by
    have fine := sim.succeeded who
    rwa [serial] at fine
  cases decided with
  | @done answer planned =>
    refine ⟨_, .inr (serialTurn_eq serial (run_none planned)), ?_⟩
    have sub : (todo.flatMap ids).Sublist (coming (c.process who)) := waiting ▸ List.sublist_append_right _ _
    exact @Sim.update _ _ _ _ _ ⟨todo, none, _⟩ _ sim sim.one sub (unstored_both sim sub.subset)
      (none'' _ not_clearing_idle)
      (fun _ => nofun) .nil .idle (sim.process _) (succeeded_append fine answer)
  | @write answer statement single planned =>
    refine ⟨a, .inl rfl, unchanged ▸ ?_⟩
    have sub : (ids call ++ todo.flatMap ids).Sublist (coming (c.process who)) := waiting ▸ .refl _
    exact @Sim.update _ _ _ _ _ ⟨todo, some (call, _), _⟩ _ sim sim.one sub (unstored_both sim sub.subset)
      (none'' _ (not_clearing single)) apart (List.pairwise_singleton _ _) (.writing single planned)
      (sim.process _) fine
  | @reread record row id isRecord found sameId =>
    subst isRecord
    refine ⟨a, .inl rfl, unchanged ▸ ?_⟩
    have sub : (ids (.recordHistory record) ++ todo.flatMap ids).Sublist (coming (c.process who)) := waiting ▸ .refl _
    exact @Sim.update _ _ _ _ _ ⟨todo, some (.recordHistory record, _), _⟩ _ sim sim.one sub
      (unstored_both sim sub.subset)
      (none'' _ (not_clearing rfl)) (fun _ => nofun) .nil (.rereading found sameId) (sim.process _) fine
  | @clear connection at' first rest count isClear planned =>
    subst isClear
    have one := sim.cleared.oneRow sim.one
    obtain ⟨after, ran, cleared⟩ := run_clear planned one
    refine ⟨_, .inr (serialTurn_eq serial ran), ?_⟩
    have held : (Program.writeAll (first :: rest) (.done (Answer.count count)) : Action Answer).pending =
      first :: rest :=
      Program.pending_writeAll ..
    rw [held] at apart
    have distinct := clear_distinct one connection at'
    rw [← clear_plan planned] at distinct
    have sub : ([] ++ todo.flatMap ids).Sublist (coming (c.process who)) := waiting ▸ .refl _
    refine @Sim.update _ _ _ _ _ ⟨todo, some (.clearHistory connection at', _), _⟩ _ sim sim.one sub
      (unstored_both sim sub.subset)
      ?_ ?_ ?_ .clearing ?_ (succeeded_append fine _)
    · refine (theirs.trans cleared fun theirs mine isTheirs isMine conflict =>
        apart mine isMine theirs (clearing_held isTheirs) conflict.symm).congr fun statement =>
          or_comm.trans (or_congr_left ?_)
      constructor
      · exact fun inside => ⟨connection, at', _, rfl, held.symm ▸ inside⟩
      · rintro ⟨_, _, left, current, inside⟩
        cases current
        exact held ▸ inside
    · exact fun mine isMine => apart mine (held ▸ isMine)
    · exact (congrArg (List.Pairwise _) held).mpr distinct
    · refine (sim.process _).keeps (cleared.keepsEvents one) fun theirs isTheirs => ?_
      exact cleared.untouched one fun mine isMine conflict => apart mine isMine theirs isTheirs conflict.symm

theorem find_apply {db : Database} {statement : Write} {id : SyncId} (elsewhere : statement.historyId ≠ some id) :
    (statement.apply db).history.find id = db.history.find id := by
  cases statement with
  | history record => exact find_apply_of_ne fun same => elsewhere (congrArg some same)
  | _ => rfl

theorem sim_write {statement : Write} (sim : Sim c a) (serial : a.process who = ⟨call :: todo, none, results⟩)
    (waiting : ids call ++ todo.flatMap ids = coming (c.process who))
    (none' : ∀ statement, ¬ Clearing (c.process who) statement) (single : isClear call = false)
    (planned : call.program.plan a.shared = ([statement], .ok answer))
    (apart : ∀ theirs ∈ (c.process !who).held, ¬ Conflict statement theirs) :
    exec statement c.shared = .ok (statement.apply c.shared) ∧ ∃ a', serialTurn a who = some a' ∧
      Sim ⟨statement.apply c.shared, Function.update c.process who ⟨todo, none, results ++ [.ok answer]⟩⟩ a' := by
  have theirs := sim.cleared_theirs none'
  have one := sim.cleared.oneRow sim.one
  have mine : ∀ id ∈ ids call, id ∈ coming (c.process who) := fun id inside => waiting ▸ List.mem_append_left _ inside
  have later : ∀ id ∈ todo.flatMap ids, id ∈ coming (c.process who) :=
    fun id inside => waiting ▸ List.mem_append_right _ inside
  obtain ⟨writable, known⟩ := planned_writable
    (fun id inside => theirs.find_none_iff.mpr (sim.fresh.unstored who id (mine id inside))) single planned
  have writable' := theirs.writable_iff.mp writable
  have fine := sim.succeeded who
  rw [serial] at fine
  refine ⟨exec_writable sim.one writable', _, serialTurn_eq serial (run_one planned one writable), ?_⟩
  have stillNew (id : SyncId) (apart : id ∉ ids call) (absent : c.shared.history.find id = none) :
      (statement.apply c.shared).history.find id = none := by
    rw [find_apply fun isId => ?_]
    · exact absent
    · rcases known id isId with brought | stored
      · exact apart brought
      · exact stored (theirs.find_none_iff.mpr absent)
  have nodup := sim.fresh.nodup who
  rw [← waiting] at nodup
  refine @Sim.update _ _ _ _ _ ⟨todo, none, _⟩ _ sim (oneRow_apply sim.one writable')
    (waiting ▸ List.sublist_append_right _ _)
    (fun id inside => ?_) ?_ (fun _ => nofun) .nil .idle ?_ (succeeded_append fine answer)
  · rcases inside with inside | inside
    · exact stillNew id (fun brought => (List.nodup_append.mp nodup).2.2 id brought id inside rfl)
        (sim.fresh.unstored who id (later id inside))
    · exact stillNew id (fun brought => sim.fresh.disjoint who id (mine id brought) inside)
        (sim.fresh.unstored (!who) id inside)
  · refine (theirs.apply fun other clearing => apart other (clearing_held clearing)).congr fun other => ?_
    exact (or_iff_right (not_clearing_idle other)).symm
  · refine (sim.process _).keeps (keepsEvents_apply one writable) fun held inside => ?_
    exact untouched_apply one writable fun conflict => apart held inside conflict.symm

/-- A process in a clear, with these writes to come. -/
def inClear (connection : Option SyncId) (at' : Int) (count : Nat) (todo : List Call)
    (results : List (Except StorageError Answer)) (rest : List Write) : Caller :=
  Process.settle (.clearHistory connection at') todo results (.writeAll rest (.done (.count count)))

theorem inClear_held (rest : List Write) : (inClear connection at' count todo results rest).held = rest := by
  cases rest with
  | nil => rfl
  | cons first rest => exact Program.pending_writeAll ..

theorem inClear_clearing (rest : List Write) (statement : Write) :
    Clearing (inClear connection at' count todo results rest) statement ↔ statement ∈ rest := by
  constructor
  · exact fun clearing => inClear_held rest ▸ clearing_held clearing
  · intro inside
    cases rest with
    | nil => cases inside
    | cons first rest => exact ⟨connection, at', _, rfl, (Program.pending_writeAll ..).symm ▸ inside⟩

theorem inClear_coming (rest : List Write) :
    coming (inClear connection at' count todo results rest) = todo.flatMap ids := by
  cases rest <;> rfl

theorem inClear_flight (db : Database) (rest : List Write) :
    InFlight db (inClear connection at' count todo results rest) ⟨todo, none, results ++ [.ok (.count count)]⟩ := by
  cases rest with
  | nil => exact .idle
  | cons first rest => exact .clearing

theorem sim_clear {statement : Write} (sim : Sim c a)
    (process : c.process who = inClear connection at' count todo results (statement :: rest))
    (serial : a.process who = ⟨todo, none, results ++ [.ok (.count count)]⟩) :
    exec statement c.shared = .ok (statement.apply c.shared) ∧
      Sim ⟨statement.apply c.shared, Function.update c.process who
        (inClear connection at' count todo results rest)⟩ a := by
  have held : (c.process who).held = statement :: rest := process ▸ inClear_held _
  have isHeld : statement ∈ (c.process who).held := held ▸ List.mem_cons_self
  have writable := sim.writable isHeld
  have clearing : Clearing (c.process who) statement := process ▸ (inClear_clearing _ _).mpr List.mem_cons_self
  obtain ⟨row, at'', isTombstone, found, -⟩ := sim.cleared.gone statement ⟨who, clearing⟩
  have reflexive : Conflict statement statement := isTombstone ▸ .inl rfl
  obtain ⟨apartRest, distinctRest⟩ := List.pairwise_cons.mp (held ▸ sim.distinct who)
  refine ⟨exec_writable sim.one writable, ?_⟩
  have unchanged : (⟨a.shared, Function.update a.process who ⟨todo, none,
    results ++ [.ok (.count count)]⟩⟩ : Callers) = a := by
    rw [← serial, Function.update_eq_self]
  have fine := sim.succeeded who
  rw [serial] at fine
  have sameComing : coming (inClear connection at' count todo results rest) = coming (c.process who) := by
    rw [process, inClear_coming, inClear_coming]
  have executed := sim.cleared.execute ⟨who, clearing⟩ fun other isOther differs => by
    obtain ⟨x, otherClearing⟩ := isOther
    rcases Bool.eq_or_eq_not x who with rfl | rfl
    · rcases List.mem_cons.mp (held ▸ clearing_held otherClearing) with same | later
      · exact absurd same differs
      · exact apartRest other later
    · exact sim.apart who statement isHeld other (clearing_held otherClearing)
  refine unchanged ▸ sim.update (oneRow_apply sim.one writable) (sameComing ▸ .refl _) (fun id inside => ?_)
    (executed.congr fun other => ?_) ?_ ?_ (inClear_flight ..) (sim.process _) fine
  · have absent := unstored_both sim (fun id inside => sameComing ▸ inside) id inside
    rw [find_apply fun isId => ?_]
    · exact absent
    · rw [isTombstone] at isId
      cases Option.some.inj isId
      cases found.symm.trans absent
  · rw [inClear_clearing]
    constructor
    · rintro ⟨⟨x, otherClearing⟩, differs⟩
      rcases Bool.eq_or_eq_not x who with rfl | rfl
      · exact .inl ((List.mem_cons.mp (held ▸ clearing_held otherClearing)).resolve_left differs)
      · exact .inr otherClearing
    · rintro (later | otherClearing)
      · refine ⟨⟨who, process ▸ (inClear_clearing _ _).mpr (List.mem_cons_of_mem _ later)⟩, ?_⟩
        rintro rfl
        exact apartRest _ later reflexive
      · refine ⟨⟨!who, otherClearing⟩, ?_⟩
        rintro rfl
        exact sim.apart who _ isHeld _ (clearing_held otherClearing) reflexive
  · intro mine isMine
    rw [inClear_held] at isMine
    exact sim.apart who mine (held ▸ List.mem_cons_of_mem _ isMine)
  · rw [inClear_held]
    exact distinctRest

end Step

/-! ### Turns -/

theorem call_reads (call : Call) : (∃ next, call.program = .read next) ∨ ∃ record, call = .saveQuery record := by
  cases call with
  | saveQuery record => exact .inr ⟨record, rfl⟩
  | recordHistory => exact .inl ⟨_, rfl⟩
  | clearHistory => exact .inl ⟨_, rfl⟩
  | softDeleteHistory => exact .inl ⟨_, rfl⟩
  | renameSavedQuery => exact .inl ⟨_, rfl⟩
  | setSavedQueryFavourite => exact .inl ⟨_, rfl⟩
  | softDeleteSavedQuery => exact .inl ⟨_, rfl⟩
  | saveSession => exact .inl ⟨_, rfl⟩
  | clearSession => exact .inl ⟨_, rfl⟩

/-- The statement neither writes what the other process has read and still has to write, nor
reads it in order to write it. -/
def Undisturbed (callers : Callers) (who : Bool) : Prop := Processes.Undisturbed Call.program exec Conflict callers who

instance (callers : Callers) (who : Bool) : Decidable (Undisturbed callers who) :=
  inferInstanceAs (Decidable (Processes.Undisturbed ..))

/-- A statement of a process, from the parts of its turn. -/
theorem turn_eq {c c' : Callers} {call : Call} {left : Action Answer} {todo : List Call}
    (next : (c.process who).next Call.program = some (call, left, todo))
    (stepped : turn c who = some c') : c' = ⟨(left.advance exec c.shared).2,
      Function.update c.process who (Process.settle call todo (c.process who).results
        (left.advance exec c.shared).1)⟩ := by
  simp only [turn, Processes.statement, next, Option.map_some, Option.some.injEq] at stepped
  exact stepped.symm

theorem turn_simulated {c a c' : Callers} (sim : Sim c a) (undisturbed : Undisturbed c who)
    (stepped : turn c who = some c') :
    ∃ a', (a' = a ∨ serialTurn a who = some a') ∧ Sim c' a' := by
  have flight := sim.process who
  generalize isProcess : c.process who = process at flight
  generalize isSerial : a.process who = serial at flight
  cases flight with
  | @idle todo results =>
    cases todo with
    | nil =>
      have stuck : turn c who = none := by simp [turn, Processes.statement, isProcess, Process.next]
      cases stuck.symm.trans stepped
    | cons call todo =>
      have next : (c.process who).next Call.program = some (call, call.program, todo) := by rw [isProcess]; rfl
      have none' : ∀ statement, ¬ Clearing (c.process who) statement := isProcess ▸ not_clearing_idle
      have waiting : ids call ++ todo.flatMap ids = coming (c.process who) := by rw [isProcess]; rfl
      have apart := undisturbed call _ todo next
      have turned := turn_eq next stepped
      have same : (c.process who).results = results := by rw [isProcess]
      rw [same] at turned
      rcases call_reads call with ⟨more, reads⟩ | ⟨record, rfl⟩
      · rw [reads] at turned apart
        have decided := first_decided sim.one (sim.cleared_theirs none') reads fun mine isMine theirs isTheirs =>
          apart mine (List.mem_append_right _ isMine) theirs (clearing_held isTheirs)
        subst turned
        exact sim_read sim isSerial waiting none' decided fun mine isMine => apart mine (List.mem_append_right _ isMine)
      · obtain ⟨accepted, a', ran, sim'⟩ := @sim_write _ _ _ _ _ _ .unit (.savedQuery record) sim isSerial waiting
          none' rfl rfl fun theirs => apart _ (List.mem_append_left _ List.mem_cons_self) theirs
        exact ⟨a', .inr ran, turned ▸ sim'⟩
  | @writing answer todo results call statement single planned =>
    have next : (c.process who).next Call.program =
      some (call, .write statement (.done answer), todo) := by rw [isProcess]; rfl
    have none' : ∀ other, ¬ Clearing (c.process who) other := isProcess ▸ not_clearing single
    have waiting : ids call ++ todo.flatMap ids = coming (c.process who) := by rw [isProcess]; rfl
    have same : (c.process who).results = results := by rw [isProcess]
    obtain ⟨accepted, a', ran, sim'⟩ := sim_write sim isSerial waiting none' single planned fun theirs =>
      undisturbed call _ todo next _ (List.mem_append_left _ List.mem_cons_self) theirs
    refine ⟨a', .inr ran, ?_⟩
    rw [turn_eq next stepped, Program.advance_write_ok accepted, same]
    exact sim'
  | @rereading row todo record results id found sameId =>
    have next : (c.process who).next Call.program =
        some (Call.recordHistory record, (rewriteHistory record id).map Answer.id, todo) := by rw [isProcess]; rfl
    have none' : ∀ other, ¬ Clearing (c.process who) other := isProcess ▸ not_clearing rfl
    have waiting : ids (.recordHistory record) ++ todo.flatMap ids = coming (c.process who) := by rw [isProcess]; rfl
    have same : (c.process who).results = results := by rw [isProcess]
    have apart := undisturbed _ _ todo next
    have decided := second_decided (sim.cleared_theirs none') found sameId fun theirs isTheirs =>
      apart _ (List.mem_append_right _ List.mem_cons_self) theirs (clearing_held isTheirs)
    obtain ⟨a', ran, sim'⟩ := sim_read sim isSerial waiting none' decided fun mine isMine =>
      apart mine (List.mem_append_right _ isMine)
    refine ⟨a', ran, ?_⟩
    rw [turn_eq next stepped, same]
    exact sim'
  | @clearing todo connection at' first rest count results =>
    have next : (c.process who).next Call.program =
        some (.clearHistory connection at', .writeAll (first :: rest)
          (.done (.count count)), todo) := by rw [isProcess]; rfl
    have same : (c.process who).results = results := by rw [isProcess]
    obtain ⟨accepted, sim'⟩ := sim_clear sim isProcess isSerial
    refine ⟨a, .inl rfl, ?_⟩
    rw [turn_eq next stepped, same, Program.writeAll_cons, Program.advance_write_ok accepted]
    exact sim'

theorem run_simulated {c a c' : Callers} (sim : Sim c a) (along : Runs.Along turn Undisturbed c schedule)
    (ran : Runs.run turn c schedule = some c') : ∃ order a', Runs.run serialTurn a order = some a' ∧ Sim c' a' := by
  induction schedule generalizing c a with
  | nil =>
    cases ran
    exact ⟨[], a, rfl, sim⟩
  | cons who rest ih =>
    obtain ⟨next, stepped, later⟩ := Runs.run_cons_some ran
    obtain ⟨middle, same | serial, sim'⟩ := turn_simulated sim along.1 stepped
    · exact ih (same ▸ sim') (along.2 next stepped) later
    · obtain ⟨order, a', ordered, sim''⟩ := ih sim' (along.2 next stepped) later
      exact ⟨who :: order, a', by rw [Runs.run_cons, serial]; exact ordered, sim''⟩

/-! ### Whole runs -/

/-- Both processes before their first statement. -/
def begin (db : Database) (calls : Bool → List Call) : Callers := ⟨db, fun who => ⟨calls who, none, []⟩⟩

/-- Neither process has anything left to do. -/
def Finished (callers : Callers) : Prop := ∀ who, (callers.process who).finished = true

/-- No change is lost: the results are those of some order of the operations run one after
another, and in the end so are the tables; every event has one row; and nothing failed. -/
structure Lossless (start last : Callers) : Prop where
  serial : ∃ order serial, Runs.run serialTurn start order = some serial ∧
    (∀ who, (last.process who).results <+: (serial.process who).results) ∧ (Finished last → serial = last)
  oneRow : OneRowPerEvent last.shared
  answered : ∀ who, ∀ result ∈ (last.process who).results, ∃ answer, result = .ok answer

theorem sim_begin (one : OneRowPerEvent db) (fresh : Fresh (begin db calls)) :
    Sim (begin db calls) (begin db calls) where
  one := one
  fresh := fresh
  cleared := .refl (fun statement ⟨_, clearing⟩ => not_clearing_idle statement clearing) db
  apart := fun _ _ inside => absurd inside List.not_mem_nil
  distinct := fun _ => List.Pairwise.nil
  process := fun _ => .idle
  succeeded := fun _ _ inside => absurd inside List.not_mem_nil

/-- At the end of an undisturbed run the serial run has come to the same state. -/
theorem Sim.finished {c a : Callers} (sim : Sim c a) (finished : Finished c) : a = c := by
  have idle (who : Bool) : (c.process who).current = none ∧ a.process who = c.process who := by
    have flight := sim.process who
    have ended := finished who
    generalize c.process who = process at flight ended
    generalize a.process who = serial at flight
    cases flight with
    | idle => exact ⟨rfl, rfl⟩
    | _ => cases ended
  have shared := sim.cleared.eq fun statement ⟨who, connection, at', left, current, _⟩ => by
    cases (idle who).1.symm.trans current
  have process : a.process = c.process := funext fun who => (idle who).2
  cases a
  cases c
  cases shared
  cases process
  rfl

theorem Sim.results {c a : Callers} (sim : Sim c a) (who : Bool) :
    (c.process who).results <+: (a.process who).results := by
  have flight := sim.process who
  generalize c.process who = process at flight
  generalize a.process who = serial at flight
  cases flight with
  | clearing => exact List.prefix_append _ _
  | _ => exact List.prefix_refl _

/-- No run of two processes that do not disturb each other loses a change. -/
theorem undisturbed_lossless {db : Database} {calls : Bool → List Call} {last : Callers} (one : OneRowPerEvent db)
    (fresh : Fresh (begin db calls)) (undisturbed : Runs.Along turn Undisturbed (begin db calls) schedule)
    (ran : Runs.run turn (begin db calls) schedule = some last) : Lossless (begin db calls) last := by
  obtain ⟨order, serial, ordered, sim⟩ := run_simulated (sim_begin one fresh) undisturbed ran
  exact ⟨⟨order, serial, ordered, sim.results, sim.finished⟩, sim.one,
    fun who result inside => sim.succeeded who result ((sim.results who).subset inside)⟩

/-- Two saved queries. -/
def stored : Database :=
  { savedQueries := (Table.upsert {} (SavedQueryRecord.new "q1" "daily" "SELECT 1" none 1)).upsert
      (SavedQueryRecord.new "q2" "weekly" "SELECT 2" none 1) }

/-- One process renames a saved query, the other marks one as a favourite. -/
def renameAndMark (marked : SyncId) : Bool → List Call
  | false => [.renameSavedQuery "q1" "hourly" 2]
  | true => [.setSavedQueryFavourite marked true 3]

theorem begin_fresh (marked : SyncId) : Fresh (begin stored (renameAndMark marked)) := by
  have none' (who : Bool) : coming ((begin stored (renameAndMark marked)).process who) = [] := by cases who <;> rfl
  constructor <;> intro who <;> rw [none']
  · exact List.nodup_nil
  · exact fun id inside => absurd inside List.not_mem_nil
  · exact fun id inside => absurd inside List.not_mem_nil

/-- Two different rows may be revised at the same time. -/
theorem undisturbed_lossless_rows : ∃ last, Runs.run turn (begin stored (renameAndMark "q2"))
    [false, true, false, true] = some last ∧
    Lossless (begin stored (renameAndMark "q2")) last := by
  obtain ⟨last, ran⟩ := Option.isSome_iff_exists.mp
    (show (Runs.run turn (begin stored (renameAndMark "q2")) [false, true, false, true]).isSome by decide +kernel)
  exact ⟨last, ran, undisturbed_lossless (fun _ inside => absurd inside List.not_mem_nil) (begin_fresh "q2")
    (by decide +kernel) ran⟩

/-- The name of the contested row, and whether anything is left to do. -/
def outcome (callers : Callers) : Option String × Nat × Bool × Bool :=
  ((callers.shared.savedQueries.find "q1").map (·.name), callers.remaining,
    (callers.process false).finished, (callers.process true).finished)

/-- Both read one row before either writes it, and the new name is lost. -/
theorem rename_lost : ∃ last, Runs.run turn (begin stored (renameAndMark "q1")) [false, true, false, true] = some last ∧
    OneRowPerEvent stored ∧ Fresh (begin stored (renameAndMark "q1")) ∧ Finished last ∧
    ¬ Lossless (begin stored (renameAndMark "q1")) last := by
  have lost : (Runs.run turn (begin stored (renameAndMark "q1")) [false, true, false, true]).map outcome =
      some (some "daily", 0, true, true) := by decide +kernel
  obtain ⟨last, ran, isLost⟩ := Option.map_eq_some_iff.mp lost
  simp only [outcome, Prod.mk.injEq] at isLost
  obtain ⟨name, remaining, first, second⟩ := isLost
  have finished : Finished last := fun who => by cases who <;> assumption
  refine ⟨last, ran, fun _ inside => absurd inside List.not_mem_nil, begin_fresh "q1", finished, fun lossless => ?_⟩
  obtain ⟨order, serial, ordered, -, same⟩ := lossless.serial
  cases same finished
  have two : order.length = 2 := by
    have counted := Processes.remaining_run ordered
    rw [remaining, Nat.zero_add] at counted
    exact counted
  obtain ⟨x, y, rfl⟩ := List.length_eq_two.mp two
  have renamed : ∀ x y, (Runs.run serialTurn (begin stored (renameAndMark "q1")) [x, y]).all
      (fun callers => (callers.shared.savedQueries.find "q1").map (·.name) = some "hourly") = true := by decide +kernel
  have hourly := renamed x y
  rw [ordered, Option.all_some, decide_eq_true_eq, name] at hourly
  exact absurd hourly (by decide)

end QueryHive.Storage.Concurrent
