import QueryHive.Storage.Calls

/-! A database in which clears have been carried out, next to the one in which some of
their writes are still to come. Both have the same rows for the same events, and differ in
the rows to clear alone, which are living in the one and tombstones in the other. -/
namespace QueryHive.Storage
open QueryHive.Library

def Write.historyId : Write → Option SyncId
  | .history record => some record.syncMeta.id
  | _ => none

/-- `after` is `before` with the writes of `S` carried out, each of which clears a living row. -/
structure Cleared (S : Write → Prop) (before after : Database) : Prop where
  others : after = { before with history := after.history }
  kept : ∀ id, (∀ statement, S statement → statement.historyId ≠ some id) →
    after.history.find id = before.history.find id
  gone : ∀ statement, S statement → ∃ row at', statement = .history (row.deleted at') ∧
    before.history.find row.syncMeta.id = some row ∧ row.syncMeta.isDeleted = false ∧
    after.history.find row.syncMeta.id = some (row.deleted at')

section Cleared

variable {S T : Write → Prop} {before after : Database} {id : SyncId}

@[simp] theorem deleted_id (row : QueryHistoryRecord) : (row.deleted at').syncMeta.id = row.syncMeta.id := rfl

@[simp] theorem deleted_event (row : QueryHistoryRecord) : (row.deleted at').event = row.event := rfl

theorem id_of_find {row : QueryHistoryRecord} (found : before.history.find id = some row) : row.syncMeta.id = id :=
  (find_history_iff.mp found).2

theorem mem_of_find {row : QueryHistoryRecord} (found : before.history.find id = some row) : row ∈ before.history :=
  (find_history_iff.mp found).1

theorem find_of_mem {row : QueryHistoryRecord} (inside : row ∈ before.history) :
    before.history.find row.syncMeta.id = some row := find_history_iff.mpr ⟨inside, rfl⟩

theorem find_apply_self {db : Database} {record : QueryHistoryRecord} :
    ((Write.history record).apply db).history.find record.syncMeta.id = some record := Table.find_upsert_self

theorem find_apply_of_ne {db : Database} {record : QueryHistoryRecord} (differs : record.syncMeta.id ≠ id) :
    ((Write.history record).apply db).history.find id = db.history.find id := Table.find_upsert_of_ne differs

theorem Cleared.refl (none' : ∀ statement, ¬ S statement) (db : Database) : Cleared S db db :=
  ⟨rfl, fun _ _ => rfl, fun statement inside => absurd inside (none' statement)⟩

theorem Cleared.eq (cleared : Cleared S before after) (none' : ∀ statement, ¬ S statement) : after = before := by
  have history : after.history = before.history := Table.ext_mem fun row => by
    have same := cleared.kept row.syncMeta.id fun statement inside => absurd inside (none' statement)
    exact ⟨fun inside => mem_of_find (same ▸ find_of_mem inside), fun inside => mem_of_find (same ▸ find_of_mem inside)⟩
  rw [cleared.others, history]

theorem Cleared.congr (cleared : Cleared S before after) (same : ∀ statement, S statement ↔ T statement) :
    Cleared T before after := by
  have : S = T := funext fun statement => propext (same statement)
  exact this ▸ cleared

theorem Cleared.find (cleared : Cleared S before after) (id : SyncId) :
    after.history.find id = before.history.find id ∨ ∃ row at', S (.history (row.deleted at')) ∧ row.syncMeta.id = id ∧
      before.history.find id = some row ∧ row.syncMeta.isDeleted = false ∧
        after.history.find id = some (row.deleted at') := by
  by_cases among : ∃ statement, S statement ∧ statement.historyId = some id
  · obtain ⟨statement, inside, isId⟩ := among
    obtain ⟨row, at', rfl, found, living, cleared⟩ := cleared.gone statement inside
    cases Option.some.inj isId
    exact .inr ⟨row, at', inside, rfl, found, living, cleared⟩
  · exact .inl (cleared.kept id fun statement inside isId => among ⟨statement, inside, isId⟩)

theorem Cleared.origin (cleared : Cleared S before after) {row : QueryHistoryRecord} (inside : row ∈ after.history) :
    ∃ old ∈ before.history, old.syncMeta.id = row.syncMeta.id ∧ old.event = row.event := by
  have found := find_of_mem inside
  rcases cleared.find row.syncMeta.id with same | ⟨old, at', -, sameId, foundOld, -, foundNew⟩
  · exact ⟨row, mem_of_find (same ▸ found), rfl, rfl⟩
  · cases found.symm.trans foundNew
    exact ⟨old, mem_of_find foundOld, sameId, rfl⟩

theorem Cleared.later (cleared : Cleared S before after) {old : QueryHistoryRecord} (inside : old ∈ before.history) :
    ∃ row ∈ after.history, row.syncMeta.id = old.syncMeta.id ∧ row.event = old.event := by
  have found := find_of_mem inside
  rcases cleared.find old.syncMeta.id with same | ⟨row, at', -, sameId, foundOld, -, foundNew⟩
  · exact ⟨old, mem_of_find (same.trans found), rfl, rfl⟩
  · cases found.symm.trans foundOld
    exact ⟨_, mem_of_find foundNew, sameId, rfl⟩

theorem Cleared.oneRow (cleared : Cleared S before after) (one : OneRowPerEvent before) : OneRowPerEvent after := by
  intro a insideA b insideB sameEvent
  obtain ⟨oldA, storedA, idA, eventA⟩ := cleared.origin insideA
  obtain ⟨oldB, storedB, idB, eventB⟩ := cleared.origin insideB
  cases one oldA storedA oldB storedB (eventA.trans (sameEvent.trans eventB.symm))
  exact Table.unique insideA insideB (idA.symm.trans idB)

theorem Cleared.keepsEvents (cleared : Cleared S before after) (one : OneRowPerEvent before) :
    KeepsEvents before after := by
  intro event row found
  obtain ⟨inside, isEvent⟩ := rowOf_some found
  obtain ⟨later, insideLater, sameId, sameEvent⟩ := cleared.later inside
  exact ⟨later, (rowOf_eq_some_iff (cleared.oneRow one)).mpr ⟨insideLater, sameEvent.trans isEvent⟩, sameId⟩

theorem Cleared.rowOf_none (cleared : Cleared S before after) (absent : rowOf before event = none) :
    rowOf after event = none := by
  refine rowOf_eq_none_iff.mpr fun row inside => ?_
  obtain ⟨old, stored, -, sameEvent⟩ := cleared.origin inside
  exact sameEvent ▸ rowOf_eq_none_iff.mp absent old stored

/-- The rows that the one has and the other has are of the same identities and events. -/
theorem Cleared.writable_iff (cleared : Cleared S before after) :
    Writable statement after ↔ Writable statement before := by
  cases statement with
  | history record =>
    refine or_congr ⟨?_, ?_⟩ ⟨fun new row inside => ?_, fun new row inside => ?_⟩
    · rintro ⟨row, inside, sameId, event⟩
      obtain ⟨old, stored, sameId', sameEvent⟩ := cleared.origin inside
      exact ⟨old, stored, sameId'.trans sameId, sameEvent.trans event⟩
    · rintro ⟨old, stored, sameId, event⟩
      obtain ⟨row, inside, sameId', sameEvent⟩ := cleared.later stored
      exact ⟨row, inside, sameId'.trans sameId, sameEvent.trans event⟩
    · obtain ⟨later, inside', sameId, sameEvent⟩ := cleared.later inside
      exact ⟨sameId ▸ (new later inside').1, sameEvent ▸ (new later inside').2⟩
    · obtain ⟨old, stored, sameId, sameEvent⟩ := cleared.origin inside
      exact ⟨sameId ▸ (new old stored).1, sameEvent ▸ (new old stored).2⟩
  | _ => exact Iff.rfl

theorem Cleared.find_none_iff (cleared : Cleared S before after) :
    after.history.find id = none ↔ before.history.find id = none := by
  rcases cleared.find id with same | ⟨row, at', -, -, found, -, foundAfter⟩
  · rw [same]
  · simp [found, foundAfter]

theorem Cleared.untouched (cleared : Cleared S before after) (one : OneRowPerEvent before)
    (apart : ∀ statement, S statement → ¬ Conflict held statement) : Untouched before after held := by
  cases held with
  | history record =>
    refine ⟨cleared.kept _ fun statement inside sameId => ?_, ?_⟩
    · obtain ⟨row, at', rfl, -⟩ := cleared.gone statement inside
      exact apart _ inside (.inl (Option.some.inj sameId).symm)
    · cases found : rowOf before record.event with
      | none => exact cleared.rowOf_none found
      | some row =>
        obtain ⟨stored, event⟩ := rowOf_some found
        have asBefore := cleared.kept row.syncMeta.id fun statement inside sameId => by
          obtain ⟨cleared', at', rfl, foundRow, -⟩ := cleared.gone statement inside
          have same := Table.unique (mem_of_find foundRow) stored (Option.some.inj sameId)
          exact apart _ inside (.inr (by rw [deleted_event, same, event]))
        exact (rowOf_eq_some_iff (cleared.oneRow one)).mpr ⟨mem_of_find (asBefore.trans (find_of_mem stored)), event⟩
  | savedQuery record =>
    rw [cleared.others]
    rfl
  | session record =>
    rw [cleared.others]
    rfl
  | _ => trivial

theorem Cleared.apply (cleared : Cleared S before after) (apart : ∀ other, S other → ¬ Conflict statement other) :
    Cleared S (statement.apply before) (statement.apply after) := by
  obtain ⟨others, kept, gone⟩ := cleared
  cases statement with
  | history record =>
    refine ⟨by simp only [Write.apply]; rw [others], fun id elsewhere => ?_, fun other inside => ?_⟩
    · by_cases same : record.syncMeta.id = id
      · subst same
        exact find_apply_self.trans find_apply_self.symm
      · exact (find_apply_of_ne same).trans ((kept id elsewhere).trans (find_apply_of_ne same).symm)
    · obtain ⟨row, at', rfl, found, living, foundAfter⟩ := gone other inside
      have differs : record.syncMeta.id ≠ row.syncMeta.id := fun same => apart _ inside (.inl same)
      exact ⟨row, at', rfl, (find_apply_of_ne differs).trans found, living,
        (find_apply_of_ne differs).trans foundAfter⟩
  | _ =>
    refine ⟨?_, kept, gone⟩
    rw [others]
    rfl

theorem Cleared.execute (cleared : Cleared S before after) (inside : S statement)
    (apart : ∀ other, S other → other ≠ statement → ¬ Conflict statement other) :
    Cleared (fun other => S other ∧ other ≠ statement) (statement.apply before) after := by
  obtain ⟨row, at', rfl, found, -, foundAfter⟩ := cleared.gone statement inside
  refine ⟨?_, fun id elsewhere => ?_, fun other others => ?_⟩
  · rw [cleared.others]
    rfl
  · by_cases same : row.syncMeta.id = id
    · subst same
      exact foundAfter.trans find_apply_self.symm
    · refine (cleared.kept id fun other isOther isId => ?_).trans
        (find_apply_of_ne (show (row.deleted at').syncMeta.id ≠ id from same)).symm
      refine elsewhere other ⟨isOther, ?_⟩ isId
      rintro rfl
      exact same (Option.some.inj isId)
  · obtain ⟨row', at'', rfl, found', living', foundAfter'⟩ := cleared.gone other others.1
    have differs : (row.deleted at').syncMeta.id ≠ row'.syncMeta.id := fun same => apart _ others.1 others.2 (.inl same)
    exact ⟨row', at'', rfl, (find_apply_of_ne differs).trans found', living', foundAfter'⟩

theorem Cleared.trans {middle : Database} (first : Cleared S before middle) (second : Cleared T middle after)
    (apart : ∀ a b, S a → T b → ¬ Conflict a b) :
    Cleared (fun statement => S statement ∨ T statement) before after := by
  refine ⟨?_, fun id elsewhere => ?_, fun statement inside => ?_⟩
  · rw [second.others, first.others]
  · exact (second.kept id fun statement inside => elsewhere statement (.inr inside)).trans
      (first.kept id fun statement inside => elsewhere statement (.inl inside))
  · rcases inside with inside | inside
    · obtain ⟨row, at', rfl, found, living, cleared⟩ := first.gone statement inside
      refine ⟨row, at', rfl, found, living, (second.kept _ fun other isOther isId => ?_).trans cleared⟩
      obtain ⟨row', at'', rfl, -⟩ := second.gone other isOther
      exact apart _ _ inside isOther (.inl (Option.some.inj isId).symm)
    · obtain ⟨row, at', rfl, found, living, cleared⟩ := second.gone statement inside
      refine ⟨row, at', rfl, (first.kept _ fun other isOther isId => ?_).symm.trans found, living, cleared⟩
      obtain ⟨row', at'', rfl, -⟩ := first.gone other isOther
      exact apart _ _ isOther inside (.inl (Option.some.inj isId))

theorem run_tombstones (one : OneRowPerEvent db) (distinct : statements.Pairwise fun a b => ¬ Conflict a b)
    (living : ∀ statement ∈ statements, ∃ row at', statement = .history (row.deleted at') ∧
      db.history.find row.syncMeta.id = some row ∧ row.syncMeta.isDeleted = false) (answer : α) :
    ∃ after, (Program.writeAll statements (.done answer) : Action α).run exec db = (.ok answer, after) ∧
      Cleared (· ∈ statements) db after := by
  induction statements generalizing db with
  | nil => exact ⟨db, rfl, .refl (fun _ => List.not_mem_nil) db⟩
  | cons statement rest ih =>
    obtain ⟨row, at', rfl, found, alive⟩ := living statement List.mem_cons_self
    obtain ⟨apart, distinct⟩ := List.pairwise_cons.mp distinct
    have writable : Writable (.history (row.deleted at')) db := .inl ⟨row, mem_of_find found, rfl, rfl⟩
    obtain ⟨after, ran, cleared⟩ := ih (oneRow_apply one writable) distinct fun other inside => by
      obtain ⟨row', at'', rfl, found', alive'⟩ := living other (List.mem_cons_of_mem _ inside)
      exact ⟨row', at'', rfl, (find_apply_of_ne fun same => apart _ inside (.inl same)).trans found', alive'⟩
    refine ⟨after, (Program.run_write_ok (exec_writable one writable)).trans ran, ?_⟩
    have first : Cleared (· = .history (row.deleted at')) db ((Write.history (row.deleted at')).apply db) :=
      ⟨rfl, fun id elsewhere => find_apply_of_ne fun same => elsewhere _ rfl (congrArg some same),
        fun other same => ⟨row, at', same, found, alive, find_apply_self⟩⟩
    refine (first.trans cleared fun a b isFirst inside => isFirst ▸ apart b inside).congr fun other => ?_
    exact List.mem_cons.symm

/-- The living rows of both are the same, when none of them is among the clears. -/
theorem Cleared.livingHistory (cleared : Cleared S before after) (connection : Option SyncId)
    (apart : ∀ row ∈ Storage.livingHistory connection before, ∀ at', ¬ S (.history (row.deleted at'))) :
    Storage.livingHistory connection after = Storage.livingHistory connection before := by
  have rows : after.history.rows.filter (fun record => !record.syncMeta.isDeleted &&
    (connection.isNone || record.connectionId = connection)) =
      before.history.rows.filter fun record => !record.syncMeta.isDeleted &&
        (connection.isNone || record.connectionId = connection) := by
    have irrefl : Std.Irrefl fun a b : QueryHistoryRecord => a.syncMeta.id < b.syncMeta.id := ⟨fun _ => lt_irrefl _⟩
    have asymm : Std.Asymm fun a b : QueryHistoryRecord => a.syncMeta.id < b.syncMeta.id := ⟨fun _ _ => lt_asymm⟩
    refine (after.history.ascending.sublist List.filter_sublist).eq_of_mem_iff
      (before.history.ascending.sublist List.filter_sublist) fun {row} => ?_
    simp only [List.mem_filter, Bool.and_eq_true, Bool.not_eq_true', ← Table.mem_iff]
    constructor
    · rintro ⟨inside, alive, matching⟩
      refine ⟨?_, alive, matching⟩
      rcases cleared.find row.syncMeta.id with same | ⟨old, at', -, -, -, -, foundAfter⟩
      · exact mem_of_find (same ▸ find_of_mem inside)
      · cases (find_of_mem inside).symm.trans foundAfter
        cases alive
    · rintro ⟨inside, alive, matching⟩
      refine ⟨?_, alive, matching⟩
      rcases cleared.find row.syncMeta.id with same | ⟨old, at', among, -, found, -, -⟩
      · exact mem_of_find (same.trans (find_of_mem inside))
      · cases (find_of_mem inside).symm.trans found
        exact absurd among (apart row (by simp [Storage.livingHistory, List.mem_mergeSort, ← Table.mem_iff, inside,
          alive, matching]) at')
  rw [Storage.livingHistory, rows, Storage.livingHistory]

end Cleared

end QueryHive.Storage
