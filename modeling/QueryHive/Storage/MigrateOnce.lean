import QueryHive.Storage.Migrate

/-! What two runs of the migrations do to a file. A file that the list has brought to a
version stays one, whatever becomes of the runs: a migration that has run is refused by the
key of its history row. Both runs succeed exactly when neither commits a migration between
the moment the other has read the version and its end. -/
namespace QueryHive.Storage.Migrate
open QueryHive.Library

universe u v
variable {δ : Type u} {σ : Type v} (sqlite : Sqlite δ σ) (migrations : Migrations δ)

section List

variable {migrations}

theorem version_drop (found : migrations.list.drop j = migration :: rest) : migration.version = (j : Int) + 1 := by
  have at' : migrations.list[j]? = some migration := by rw [← List.head?_drop, found, List.head?_cons]
  have numbered := congrArg (·[j]?) migrations.numbered
  have inside := (List.getElem?_eq_some_iff.mp at').1
  simpa only [List.getElem?_map, at', Option.map_some, List.getElem?_range inside, Option.some.injEq] using numbered

theorem take_succ (found : migrations.list.drop j = migration :: rest) :
    j < migrations.list.length ∧ migrations.list.take (j + 1) = migrations.list.take j ++ [migration] := by
  have at' : migrations.list[j]? = some migration := by rw [← List.head?_drop, found, List.head?_cons]
  exact ⟨(List.getElem?_eq_some_iff.mp at').1, by rw [List.take_add_one, at']; rfl⟩

theorem version_mem_take (inside : migration ∈ migrations.list.take n) : migration.version ≤ n := by
  have listed := List.mem_map_of_mem (f := (·.version)) inside
  rw [List.map_take, migrations.numbered, ← List.map_take, List.take_range] at listed
  obtain ⟨i, isRange, isVersion⟩ := List.mem_map.mp listed
  have below := List.mem_range.mp isRange
  omega

theorem version_mem_drop (inside : migration ∈ migrations.list.drop n) : (n : Int) < migration.version := by
  obtain ⟨i, bound, found⟩ := List.mem_iff_getElem.mp inside
  have dropped : migrations.list.drop (n + i) = migration :: migrations.list.drop (n + i + 1) := by
    rw [List.length_drop] at bound
    rw [List.getElem_drop] at found
    rw [List.drop_eq_getElem_cons (by omega), found]
  have := version_drop dropped
  omega

theorem pending_eq (n : Nat) : migrations.pending n = migrations.list.drop n := by
  rw [Migrations.pending]
  conv_lhs => rw [← List.take_append_drop n migrations.list]
  rw [List.filter_append, List.filter_eq_nil_iff.mpr, List.filter_eq_self.mpr, List.nil_append]
  · exact fun migration inside => by simpa using version_mem_drop inside
  · exact fun migration inside => by simpa using version_mem_take inside

theorem expected_eq (n : Nat) : migrations.expected n = (migrations.list.take n).map (·.version) := by
  rw [Migrations.expected]
  conv_lhs => rw [← List.take_append_drop n migrations.list]
  rw [List.filter_append, List.filter_eq_self.mpr, List.filter_eq_nil_iff.mpr, List.append_nil]
  · exact fun migration inside => by simpa using version_mem_drop inside
  · exact fun migration inside => by simpa using version_mem_take inside

theorem latestVersion_eq : migrations.latestVersion = migrations.list.length := by
  rw [Migrations.latestVersion]
  have numbered := congrArg List.getLast? migrations.numbered
  rw [List.getLast?_map, List.getLast?_map, List.getLast?_range] at numbered
  rw [numbered]
  split
  · next empty => simp [empty]
  · next nonempty =>
    simp only [Option.map_some, Option.getD_some]
    omega

end List

/-- The statements of several migrations, one after another. -/
def executeAll (statements : List δ) (contents : σ) : Except String σ :=
  statements.foldlM (fun contents statement => sqlite.execute statement contents) contents

/-- The file as the first `n` migrations leave it: they are what its history says and what
its version says, and its contents are what their statements made of an empty file, each of
them executed once and in order. -/
structure At (n : Nat) (file : File σ) : Prop where
  within : n ≤ migrations.list.length
  version : file.userVersion = n
  history : file.history.rows.map (fun row => (row.version, row.name)) = (migrations.list.take n).map fun m =>
    (m.version, m.name)
  contents : executeAll sqlite ((migrations.list.take n).flatMap (·.sql)) sqlite.empty = .ok file.contents
  table : n ≠ 0 → hasTable sqlite file.contents "schema_migration" = true

/-- A file that the list has brought to where it is. -/
def CreatedBy (file : File σ) : Prop := ∃ n, At sqlite migrations n file

theorem at_fresh : At sqlite migrations 0 (fresh sqlite) :=
  ⟨Nat.zero_le _, rfl, rfl, rfl, fun marked => absurd rfl marked⟩

variable {sqlite migrations}

theorem At.versions (stage : At sqlite migrations n file) :
    file.history.rows.map (·.version) = (migrations.list.take n).map (·.version) := by
  have history := congrArg (List.map Prod.fst) stage.history
  simpa only [List.map_map, Function.comp_def] using history

theorem At.unique (one : At sqlite migrations n file) (other : At sqlite migrations k file) : n = k :=
  Int.ofNat.inj (one.version.symm.trans other.version)

def performAll (sqlite : Sqlite δ σ) (migration : Migration δ) (at' : Int) (done : List (Task δ)) (file : File σ) :
    Except MigrateError (File σ) :=
  done.foldlM (fun file task => task.perform sqlite migration at' file) file

theorem performAll_append (done more : List (Task δ)) (file : File σ) :
    performAll sqlite migration at' (done ++ more) file =
    (performAll sqlite migration at' done file).bind (performAll sqlite migration at' more) := List.foldlM_append ..

theorem performAll_sql {statements : List δ} {file after : File σ}
    (performed : performAll sqlite migration at' (statements.map .sql) file = .ok after) :
    ∃ contents, executeAll sqlite statements file.contents = .ok contents ∧
      after = { file with contents := contents } := by
  induction statements generalizing file with
  | nil =>
    cases performed
    exact ⟨_, rfl, rfl⟩
  | cons statement rest ih =>
    simp only [performAll, List.map_cons, List.foldlM_cons, Task.perform] at performed
    cases executed : sqlite.execute statement file.contents with
    | error message =>
      rw [executed] at performed
      cases performed
    | ok contents =>
      rw [executed] at performed
      obtain ⟨last, later, isLast⟩ := ih performed
      refine ⟨last, ?_, isLast⟩
      rw [executeAll, List.foldlM_cons, executed]
      exact later

/-- A whole transaction: the history had no row for the migration, and has one now. -/
theorem performAll_tasks (performed : performAll sqlite migration at' (tasks migration) file = .ok after) :
    ∃ contents, executeAll sqlite migration.sql file.contents = .ok contents ∧
      hasTable sqlite contents "schema_migration" = true ∧
      file.history.find migration.version = none ∧
      after = ⟨migration.version, file.history.upsert ⟨migration.version, migration.name, at'⟩, contents⟩ := by
  rw [tasks, performAll_append] at performed
  cases executed : performAll sqlite migration at' (migration.sql.map .sql) file with
  | error error =>
    rw [executed] at performed
    cases performed
  | ok middle =>
    obtain ⟨contents, all, rfl⟩ := performAll_sql executed
    rw [executed] at performed
    change (Task.record.perform sqlite migration at' _).bind _ = _ at performed
    simp only [Task.perform] at performed
    split at performed
    · next has =>
      split at performed
      · cases performed
      · next absent =>
        cases performed
        exact ⟨contents, all, has, by simpa using absent, rfl⟩
    · cases performed

/-- A migration runs on the version before it only, and takes the file to its own. -/
theorem At.next (stage : At sqlite migrations n file) (found : migrations.list.drop j = migration :: rest)
    (behind : j ≤ n) (performed : performAll sqlite migration at' (tasks migration) file = .ok after) :
    j = n ∧ At sqlite migrations (n + 1) after := by
  obtain ⟨contents, executed, table, absent, rfl⟩ := performAll_tasks performed
  obtain ⟨inside, taken⟩ := take_succ found
  have version := version_drop found
  have newVersion : ∀ row ∈ file.history.rows, row.version ≠ migration.version := Table.find_eq_none_iff.mp absent
  have isNext : j = n := by
    by_contra differs
    have among : migration ∈ migrations.list.take n := by
      have : migration ∈ migrations.list.take (j + 1) := taken ▸ List.mem_append_right _ List.mem_cons_self
      exact (List.take_subset_take_left _ (by omega)) this
    have listed := List.mem_map_of_mem (f := (·.version)) among
    rw [← stage.versions] at listed
    obtain ⟨row, stored, same⟩ := List.mem_map.mp listed
    exact newVersion row stored same
  subst isNext
  refine ⟨rfl, inside, by rw [version]; rfl, ?_, ?_, fun _ => table⟩
  · have last : ∀ row ∈ file.history.rows, row.version < migration.version := by
      intro row stored
      have listed := List.mem_map_of_mem (f := (·.version)) stored
      rw [stage.versions] at listed
      obtain ⟨earlier, isEarlier, same⟩ := List.mem_map.mp listed
      have below := version_mem_take isEarlier
      omega
    rw [Table.rows_upsert_last last, List.map_append, stage.history, taken, List.map_append]
    rfl
  · rw [taken, List.flatMap_append, executeAll, List.foldlM_append]
    have earlier := stage.contents
    rw [executeAll] at earlier
    rw [earlier, List.flatMap_singleton]
    exact executed

end QueryHive.Storage.Migrate
