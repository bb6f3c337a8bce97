import QueryHive.Storage.MigrateRuns

/-! When two runs of the migrations both succeed, and what becomes of a file that the list
has not created. A run that is overtaken by a commit of the other one, after it has read the
version, is lost: it finds objects where it expects none, a history that is too long, or a
row that has been written already. -/
namespace QueryHive.Storage.Migrate
open QueryHive.Library

universe u v
variable {δ : Type u} {σ : Type v} {sqlite : Sqlite δ σ} {migrations : Migrations δ}

/-- Why `run` refuses a file, from all that it reads before the first migration. -/
def refusal (sqlite : Sqlite δ σ) (migrations : Migrations δ) (file : File σ) : Option MigrateError :=
  if file.userVersion > migrations.latestVersion then some (.newerDatabase file.userVersion migrations.latestVersion)
  else if file.userVersion = 0 then (firstUserObject sqlite file.contents).map .foreignDatabase
  else if hasTable sqlite file.contents "schema_migration" then
    let versions := file.history.rows.map (·.version)
    if versions ≠ migrations.expected file.userVersion then
      some (.inconsistentHistory file.userVersion versions)
    else none
  else some (.inconsistentHistory file.userVersion [])

theorem refusal_none (known : file.userVersion ≤ migrations.latestVersion)
    (unused : file.userVersion = 0 → firstUserObject sqlite file.contents = none)
    (agrees : file.userVersion ≠ 0 → hasTable sqlite file.contents "schema_migration" = true ∧
      file.history.rows.map (·.version) =
        migrations.expected file.userVersion) : refusal sqlite migrations file = none := by
  rw [refusal, if_neg (not_lt.mpr known)]
  split
  · next isZero => rw [unused isZero, Option.map_none]
  · next marked => rw [if_pos (agrees marked).1, if_neg (not_not.mpr (agrees marked).2)]

/-- A run that has not got beyond the checks. -/
inductive Before (sqlite : Sqlite δ σ) (migrations : Migrations δ) (file : File σ) : Phase δ → Prop
  | start : Before sqlite migrations file .start
  | versionRead (isVersion : current = file.userVersion) (known : current ≤ migrations.latestVersion) :
      Before sqlite migrations file (.versionRead current)
  | tableFound (isVersion : current = file.userVersion) (known : current ≤ migrations.latestVersion)
    (marked : current ≠ 0)
      (has : hasTable sqlite file.contents "schema_migration" = true) :
      Before sqlite migrations file (.tableFound current)
  | returned (error : MigrateError) : Before sqlite migrations file (.returned (.error error))
  | killed : Before sqlite migrations file .killed

/-- The file is as it was, and neither run has got beyond the checks. -/
structure LeftAlone (sqlite : Sqlite δ σ) (migrations : Migrations δ) (file : File σ) (s : Migrating δ σ) : Prop where
  same : s.log.committed = file
  idle : ∀ who, s.log.Idle who
  phase : ∀ who, Before sqlite migrations file (s.phase who)

theorem Turn.leftAlone {phase phase' : Phase δ} {log log' : Deferred (File σ)}
    (refused : refusal sqlite migrations log.committed ≠ none)
    (turn : Turn sqlite migrations at' who log phase log' phase')
    (before : Before sqlite migrations log.committed phase) :
    log' = log ∧ Before sqlite migrations log.committed phase' := by
  cases turn with
  | newer => exact ⟨rfl, .returned _⟩
  | version known => exact ⟨rfl, .versionRead rfl known⟩
  | foreign => exact ⟨rfl, .returned _⟩
  | unused absent =>
    cases before with
    | versionRead isVersion known =>
      exact absurd (refusal_none (isVersion ▸ known) (fun _ => absent) fun marked =>
        absurd isVersion.symm marked) refused
  | table marked has =>
    cases before with
    | versionRead isVersion known => exact ⟨rfl, .tableFound isVersion known marked has⟩
  | noTable => exact ⟨rfl, .returned _⟩
  | differs => exact ⟨rfl, .returned _⟩
  | agrees same =>
    cases before with
    | tableFound isVersion known marked has =>
      subst isVersion
      exact absurd (refusal_none known (fun isZero => absurd isZero marked) fun _ => ⟨has, same⟩) refused
  | _ => cases before

theorem LeftAlone.step {s s' : Migrating δ σ} (refused : refusal sqlite migrations file ≠ none)
    (alone : LeftAlone sqlite migrations file s) (stepped : step sqlite migrations clock s action = some s') :
    LeftAlone sqlite migrations file s' := by
  obtain ⟨who, made⟩ := action
  obtain ⟨⟨log, phase⟩, moved, rfl⟩ := Option.map_eq_some_iff.mp stepped
  have update {log : Deferred (File σ)} {phase : Phase δ} (same : log.committed = file) (idle : ∀ who, log.Idle who)
      (before : Before sqlite migrations file phase) :
      LeftAlone sqlite migrations file ⟨log, Function.update s.phase who phase⟩ := by
    refine ⟨same, idle, fun x => ?_⟩
    by_cases isWho : x = who
    · subst isWho
      simpa only [Function.update_self] using before
    · simpa only [Function.update_of_ne isWho] using alone.phase x
  have rolled : ∀ x, (s.log.rollback who).Idle x := by
    intro x
    rcases Bool.eq_or_eq_not x who with rfl | rfl
    · exact Deferred.rollback_idle
    · cases Deferred.rollback_seen s.log who with
      | nothing _ _ held snapshot => exact ⟨held.trans (alone.idle _).1, snapshot.trans (alone.idle _).2⟩
      | commit _ wrote => cases (alone.idle who).1.symm.trans wrote
  have committed : (s.log.rollback who).committed = file := alone.same
  cases made with
  | go =>
    have same := alone.same
    subst same
    obtain ⟨rfl, before⟩ := (advance_turn moved).leftAlone refused (alone.phase who)
    exact update rfl alone.idle before
  | fail =>
    simp only [move] at moved
    split at moved <;> cases moved
    exact update committed rolled (.returned _)
  | giveUp =>
    simp only [move] at moved
    split at moved <;> cases moved
    exact update committed rolled (.returned _)
  | kill =>
    simp only [move] at moved
    split at moved <;> cases moved
    exact update committed rolled .killed

def Phase.commits : Phase δ → Bool
  | inside _ [] _ _ => true
  | _ => false

/-- The run has not read the version, or it has returned. -/
def Phase.apart : Phase δ → Bool
  | start => true
  | phase => !phase.underWay

/-- The next task comes to write after the transaction has read, while the other one holds the lock. -/
def conflicts (sqlite : Sqlite δ σ) (who : Bool) (log : Deferred (File σ)) : Phase δ → Bool
  | .inside _ (task :: _) _ _ => task.writes sqlite && (match log.acquire who with | .conflict => true | _ => false)
  | _ => false

/-- The move is no commit within the other run, and the write lock is not denied. -/
def Calm (sqlite : Sqlite δ σ) (s : Migrating δ σ) : Bool × Move → Prop
  | (who, .go) =>
    ((s.phase who).commits = true → (s.phase !who).apart = true) ∧ conflicts sqlite who s.log (s.phase who) = false
  | (_, .giveUp) => False
  | _ => True

instance (s : Migrating δ σ) : ∀ action, Decidable (Calm sqlite s action)
  | (_, .go) => inferInstanceAs (Decidable (_ ∧ _))
  | (_, .giveUp) => .isFalse id
  | (_, .fail) => .isTrue trivial
  | (_, .kill) => .isTrue trivial

/-- No process is killed, and no statement fails on its own account. -/
def Uninterrupted (moves : List (Bool × Move)) : Prop := ∀ action ∈ moves, action.2 ≠ .fail ∧ action.2 ≠ .kill

/-- The list can be carried out: every version of it can be reached. -/
def Builds (sqlite : Sqlite δ σ) (migrations : Migrations δ) : Prop :=
  ∀ n ≤ migrations.list.length, ∃ file, At sqlite migrations n file

def Fine (migrations : Migrations δ) (n : Nat) (log : Deferred (File σ)) (who : Bool) : Phase δ → Prop
  | .start => True
  | .versionRead current => current = n
  | .tableFound current => current = n
  | .migrating migration pending _ => migrations.list.drop n = migration :: pending
  | .inside migration _ pending _ => migrations.list.drop n = migration :: pending ∧
      ∀ seen value, log.snapshot who = some (seen, value) → seen = log.commits
  | .returned (.ok _) => n = migrations.list.length
  | .returned (.error _) => False
  | .killed => False

theorem fine_proceed (within : n ≤ migrations.list.length) (pending : migrations.list.drop n = rest) :
    Fine migrations n log who (proceed rest applied) := by
  cases rest with
  | nil => exact le_antisymm within (List.drop_eq_nil_iff.mp pending)
  | cons migration rest => exact pending

theorem performAll_sql_ok {statements : List δ} {file : File σ}
    (executed : executeAll sqlite statements file.contents = .ok contents) :
    performAll sqlite migration at' (statements.map .sql) file = .ok { file with contents := contents } := by
  induction statements generalizing file with
  | nil =>
    cases executed
    rfl
  | cons statement rest ih =>
    simp only [executeAll, List.foldlM_cons] at executed
    simp only [performAll, List.map_cons, List.foldlM_cons, Task.perform]
    cases first : sqlite.execute statement file.contents with
    | error message =>
      rw [first] at executed
      cases executed
    | ok middle =>
      rw [first] at executed
      exact ih executed

/-- Where the next version can be reached, its migration runs. -/
theorem At.performs (stage : At sqlite migrations n file) (built : At sqlite migrations (n + 1) other)
    (found : migrations.list.drop n = migration :: rest) :
    ∃ after, performAll sqlite migration at' (tasks migration) file = .ok after := by
  obtain ⟨-, taken⟩ := take_succ found
  have executed := built.contents
  rw [taken, List.flatMap_append, List.flatMap_singleton, executeAll, List.foldlM_append] at executed
  have earlier := stage.contents
  rw [executeAll] at earlier
  rw [earlier] at executed
  have version := version_drop found
  have absent : file.history.find migration.version = none := by
    refine Table.find_eq_none_iff.mpr fun row stored same => ?_
    have listed := List.mem_map_of_mem (f := (·.version)) stored
    rw [stage.versions] at listed
    obtain ⟨before, isEarlier, sameVersion⟩ := List.mem_map.mp listed
    have below := version_mem_take isEarlier
    have : before.version = migration.version := sameVersion.trans same
    omega
  have executed : executeAll sqlite migration.sql file.contents = .ok other.contents := executed
  refine ⟨⟨migration.version, file.history.upsert ⟨migration.version, migration.name, at'⟩, other.contents⟩, ?_⟩
  rw [tasks, performAll_append, performAll_sql_ok executed]
  change (Task.record.perform sqlite migration at' _).bind _ = _
  simp only [Task.perform, built.table (Nat.succ_ne_zero n), absent, Option.isSome_none, if_true,
    Bool.false_eq_true, if_false]
  rfl

theorem perform_ok (whole : performAll sqlite migration at' (done ++ task :: rest) file = .ok after)
    (earlier : performAll sqlite migration at' done file = .ok base) :
    ∃ next, Task.perform sqlite migration at' task base = .ok next := by
  rw [performAll_append, earlier] at whole
  cases performed : Task.perform sqlite migration at' task base with
  | ok next => exact ⟨next, rfl⟩
  | error error =>
    simp only [Except.bind, performAll, List.foldlM_cons, performed] at whole
    cases whole

theorem Within.performs {log : Deferred (File σ)} {task : Task δ} (sound : log.Sound)
    (stage : At sqlite migrations n log.committed) (builds : Builds sqlite migrations)
    (inside : Within sqlite migrations n log who at' (.inside migration (task :: rest) pending applied))
    (fine : Fine migrations n log who (.inside migration (task :: rest) pending applied))
    (isBase : log.acquire who = .granted base ∨ task.writes sqlite = false ∧ base = log.view who) :
    ∃ after, task.perform sqlite migration at' base = .ok after := by
  obtain ⟨j, -, pending', done, whole, progress⟩ := inside
  obtain ⟨isNext, unread⟩ := fine
  obtain ⟨after, performed⟩ := stage.performs (builds (n + 1) (take_succ isNext).1).choose_spec isNext
  rw [whole] at performed
  refine perform_ok performed ?_
  cases progress with
  | new idle =>
    rcases isBase with granted | ⟨-, rfl⟩
    · rcases Deferred.acquire_base sound granted with held | ⟨-, rfl⟩
      · cases idle.1.symm.trans held
      · rfl
    · simp [Deferred.view, idle.1, idle.2, performAll]
      rfl
  | @reading seen value done free snapshot only earlier =>
    have isCommitted := (sound who seen value snapshot).2 (unread seen value snapshot)
    subst isCommitted
    have isValue : base = log.committed := by
      rcases isBase with granted | ⟨-, rfl⟩
      · rcases Deferred.acquire_base sound granted with held | ⟨-, isBase⟩
        · cases free.symm.trans held
        · exact isBase
      · simp [Deferred.view, free, snapshot]
    rw [isValue]
    exact earlier
  | @writing working done held earlier =>
    have isValue : base = working := by
      rcases isBase with granted | ⟨-, rfl⟩
      · simp only [Deferred.acquire, held, Grant.granted.injEq] at granted
        exact granted.symm
      · simp [Deferred.view, held]
    rw [isValue]
    exact earlier

theorem Turn.fine {phase phase' : Phase δ} {log log' : Deferred (File σ)}
    (turn : Turn sqlite migrations at' who log phase log' phase')
    (sound : log.Sound) (stage : At sqlite migrations n log.committed)
    (inside : Within sqlite migrations n log who at' phase)
    (builds : Builds sqlite migrations) (calm : conflicts sqlite who log phase = false)
    (stage' : At sqlite migrations n' log'.committed) (fine : Fine migrations n log who phase) :
    Fine migrations n' log' who phase' := by
  cases turn with
  | newer above =>
    rw [stage.version, latestVersion_eq] at above
    exact absurd stage.within (by omega)
  | version => exact stage'.version
  | foreign found =>
    cases Int.ofNat.inj (fine : (0 : Int) = n)
    have isEmpty := Except.ok.inj stage.contents
    rw [← isEmpty, firstUserObject, sqlite.empty_objects] at found
    cases found
  | unused =>
    cases Int.ofNat.inj (fine : (0 : Int) = n)
    exact stage.unique stage' ▸ fine_proceed stage.within (pending_eq 0).symm
  | table => exact stage.unique stage' ▸ fine
  | noTable marked hasNot =>
    cases fine
    rw [stage.table fun isZero => marked (congrArg Int.ofNat isZero)] at hasNot
    cases hasNot
  | differs differs =>
    cases fine
    exact absurd (stage.versions.trans (expected_eq n).symm) differs
  | agrees =>
    cases fine
    exact stage.unique stage' ▸ fine_proceed stage.within (pending_eq n).symm
  | opens =>
    cases stage.unique stage'
    exact ⟨fine, fun _ _ snapshot => nomatch inside.1.2.symm.trans snapshot⟩
  | wrote =>
    cases stage.unique stage'
    refine ⟨fine.1, fun seen value snapshot => ?_⟩
    cases Deferred.write_snapshot.symm.trans snapshot
  | read =>
    have committed : (log.read who).committed = log.committed := by unfold Deferred.read; split <;> rfl
    cases stage.unique (committed ▸ stage')
    refine ⟨fine.1, fun seen value snapshot => ?_⟩
    unfold Deferred.read at snapshot ⊢
    split at snapshot
    · cases (Function.update_self who _ log.snapshot).symm.trans snapshot
      rfl
    · exact fine.2 seen value snapshot
  | refused error refused isBase =>
    obtain ⟨after, performed⟩ := Within.performs sound stage builds inside fine isBase
    cases refused.symm.trans performed
  | conflict writes conflict => simp [conflicts, writes, conflict] at calm
  | commit =>
    obtain ⟨-, -, pending, next⟩ := within_commit stage inside
    cases next.unique stage'
    refine fine_proceed stage'.within ?_
    rw [← List.tail_drop, pending, List.tail_cons]

/-- A statement of the other run that is no commit within this one. -/
theorem Fine.seen {phase : Phase δ} {log log' : Deferred (File σ)} (seen : Deferred.Seen (!who) log log')
    (stage : At sqlite migrations n log.committed) (stage' : At sqlite migrations n' log'.committed) (later : n ≤ n')
    (apart : log'.commits ≠ log.commits → phase.apart = true) (fine : Fine migrations n log who phase) :
    Fine migrations n' log' who phase := by
  cases seen with
  | nothing committed commits _ same =>
    cases stage.unique (committed ▸ stage')
    rw [Bool.not_not] at same
    cases phase with
    | inside =>
      exact ⟨fine.1, fun seen value snapshot => (fine.2 seen value (same.symm.trans snapshot)).trans commits.symm⟩
    | returned result => cases result <;> exact fine
    | _ => exact fine
  | commit working wrote committed commits =>
    have apart := apart (by omega)
    cases phase with
    | start => trivial
    | returned result =>
      cases result with
      | ok applied => exact le_antisymm stage'.within (fine ▸ later)
      | error => exact fine
    | killed => exact fine
    | _ => cases apart

theorem Turn.commits {phase phase' : Phase δ} {log log' : Deferred (File σ)}
    (turn : Turn sqlite migrations at' who log phase log' phase')
    (committed : log'.commits ≠ log.commits) : phase.commits = true := by
  cases turn with
  | commit => rfl
  | read =>
    refine absurd ?_ committed
    unfold Deferred.read
    split <;> rfl
  | _ => exact absurd rfl committed

theorem fine_step {s s' : Migrating δ σ} (staged : Staged sqlite migrations clock n s)
    (builds : Builds sqlite migrations)
    (fine : ∀ who, Fine migrations n s.log who (s.phase who)) (calm : Calm sqlite s action)
    (uninterrupted : action.2 ≠ .fail ∧ action.2 ≠ .kill) (stepped : step sqlite migrations clock s action = some s') :
    ∃ n', Staged sqlite migrations clock n' s' ∧ ∀ who, Fine migrations n' s'.log who (s'.phase who) := by
  obtain ⟨n', later, staged'⟩ := staged.step stepped
  refine ⟨n', staged', ?_⟩
  obtain ⟨who, made⟩ := action
  obtain ⟨⟨log, phase⟩, moved, rfl⟩ := Option.map_eq_some_iff.mp stepped
  cases made with
  | go =>
    have turn := advance_turn moved
    obtain ⟨-, seen, -⟩ := turn.within staged.sound staged.stage (staged.within who)
    intro x
    rcases Bool.eq_or_eq_not x who with rfl | rfl
    · simp only [Function.update_self]
      exact turn.fine staged.sound staged.stage (staged.within x) builds calm.2 staged'.stage (fine x)
    · simp only [Function.update_of_ne (Deferred.other_ne who)]
      exact Fine.seen (by rwa [Bool.not_not]) staged.stage staged'.stage later
        (fun committed => calm.1 (turn.commits committed))
        (fine !who)
  | fail => exact absurd rfl uninterrupted.1
  | giveUp => exact calm.elim
  | kill => exact absurd rfl uninterrupted.2

/-- In a calm run without interruptions both runs stay on the version the file is at. -/
theorem fine_run {s last : Migrating δ σ} (staged : Staged sqlite migrations clock n s)
    (builds : Builds sqlite migrations) (fine : ∀ who, Fine migrations n s.log who (s.phase who))
    (calm : Runs.Along (step sqlite migrations clock) (Calm sqlite) s moves)
    (uninterrupted : Uninterrupted moves) (ran : Runs.run (step sqlite migrations clock) s moves = some last) :
    ∃ n', Staged sqlite migrations clock n' last ∧ ∀ who, Fine migrations n' last.log who (last.phase who) := by
  induction moves generalizing s n with
  | nil =>
    cases ran
    exact ⟨n, staged, fine⟩
  | cons action rest ih =>
    obtain ⟨next, stepped, later⟩ := Runs.run_cons_some ran
    obtain ⟨n', staged', fine'⟩ := fine_step staged builds fine calm.1 (uninterrupted action List.mem_cons_self) stepped
    exact ih staged' fine' (calm.2 next stepped)
      (fun other inside => uninterrupted other (List.mem_cons_of_mem _ inside)) later

/-- A run that has read an earlier version than `n`, or has failed. -/
def Doomed (migrations : Migrations δ) (n : Nat) : Phase δ → Prop
  | .versionRead current => ∃ c : Nat, current = c ∧ c < n
  | .tableFound current => ∃ c : Nat, current = c ∧ c < n
  | .migrating migration pending _ => ∃ j < n, migrations.list.drop j = migration :: pending
  | .inside migration _ pending _ => ∃ j < n, migrations.list.drop j = migration :: pending
  | .returned (.error _) => True
  | _ => False

theorem Doomed.later {phase : Phase δ} (doomed : Doomed migrations n phase) (later : n ≤ n') :
    Doomed migrations n' phase := by
  cases phase with
  | versionRead => exact doomed.imp fun _ both => ⟨both.1, both.2.trans_le later⟩
  | tableFound => exact doomed.imp fun _ both => ⟨both.1, both.2.trans_le later⟩
  | migrating => exact doomed.imp fun _ both => ⟨both.1.trans_le later, both.2⟩
  | inside => exact doomed.imp fun _ both => ⟨both.1.trans_le later, both.2⟩
  | returned result => cases result <;> exact doomed
  | _ => exact doomed

/-- A table of the history is an object that the engine did not find in a new file. -/
theorem firstUserObject_of_table (has : hasTable sqlite contents "schema_migration" = true) :
    firstUserObject sqlite contents ≠ none := by
  intro absent
  have stored := sqlite.tables_objects contents "schema_migration" (by simpa [hasTable] using has)
  exact absurd (List.find?_eq_none.mp absent _ stored) (by decide)

theorem Turn.doomed {phase phase' : Phase δ} {log log' : Deferred (File σ)}
    (turn : Turn sqlite migrations at' who log phase log' phase')
    (stage : At sqlite migrations n log.committed) (inside : Within sqlite migrations n log who at' phase)
    (doomed : Doomed migrations n phase) : Doomed migrations n phase' := by
  cases turn with
  | newer => trivial
  | version => exact doomed.elim
  | foreign => trivial
  | unused absent =>
    obtain ⟨c, isZero, behind⟩ := doomed
    exact absurd absent (firstUserObject_of_table (stage.table (by omega)))
  | table => exact doomed
  | noTable => trivial
  | differs => trivial
  | agrees same =>
    obtain ⟨c, rfl, behind⟩ := doomed
    rw [stage.versions, expected_eq] at same
    have lengths := congrArg List.length same
    have within := stage.within
    simp only [List.length_map, List.length_take] at lengths
    omega
  | opens => exact doomed
  | wrote => exact doomed
  | read => exact doomed
  | refused => trivial
  | conflict => trivial
  | commit =>
    obtain ⟨-, -, pending, -⟩ := within_commit stage inside
    obtain ⟨k, early, pending'⟩ := doomed
    have same := (version_drop pending).symm.trans (version_drop pending')
    omega

/-- A run that has begun and not returned is doomed by a commit. -/
theorem Within.doomed {phase : Phase δ} {log : Deferred (File σ)}
    (inside : Within sqlite migrations n log who at' phase)
    (begun : phase.apart = false) : Doomed migrations (n + 1) phase := by
  cases phase with
  | versionRead => exact inside.2.imp fun _ both => ⟨both.1, Nat.lt_succ_of_le both.2⟩
  | tableFound => exact inside.2.imp fun _ both => ⟨both.1, Nat.lt_succ_of_le both.2⟩
  | migrating => exact inside.2.imp fun _ both => ⟨Nat.lt_succ_of_le both.1, both.2⟩
  | inside => exact inside.imp fun _ both => ⟨Nat.lt_succ_of_le both.1, both.2.1⟩
  | _ => cases begun

theorem doomed_step {s s' : Migrating δ σ} (staged : Staged sqlite migrations clock n s)
    (doomed : Doomed migrations n (s.phase who))
    (uninterrupted : action.2 ≠ .fail ∧ action.2 ≠ .kill) (stepped : step sqlite migrations clock s action = some s') :
    ∃ n', Staged sqlite migrations clock n' s' ∧ Doomed migrations n' (s'.phase who) := by
  obtain ⟨n', later, staged'⟩ := staged.step stepped
  refine ⟨n', staged', Doomed.later ?_ later⟩
  obtain ⟨x, made⟩ := action
  obtain ⟨⟨log, phase⟩, moved, rfl⟩ := Option.map_eq_some_iff.mp stepped
  by_cases same : who = x
  · subst same
    simp only [Function.update_self]
    cases made with
    | go => exact (advance_turn moved).doomed staged.stage (staged.within who) doomed
    | fail => exact absurd rfl uninterrupted.1
    | giveUp =>
      simp only [move] at moved
      split at moved <;> cases moved
      trivial
    | kill => exact absurd rfl uninterrupted.2
  · simpa only [Function.update_of_ne same] using doomed

theorem doomed_run {s last : Migrating δ σ} (staged : Staged sqlite migrations clock n s)
    (doomed : Doomed migrations n (s.phase who))
    (uninterrupted : Uninterrupted moves) (ran : Runs.run (step sqlite migrations clock) s moves = some last) :
    ∃ n', Doomed migrations n' (last.phase who) := by
  induction moves generalizing s n with
  | nil =>
    cases ran
    exact ⟨n, doomed⟩
  | cons action rest ih =>
    obtain ⟨next, stepped, later⟩ := Runs.run_cons_some ran
    obtain ⟨n', staged', doomed'⟩ := doomed_step staged doomed (uninterrupted action List.mem_cons_self) stepped
    exact ih staged' doomed' (fun other inside => uninterrupted other (List.mem_cons_of_mem _ inside)) later

theorem not_calm {s s' : Migrating δ σ} (staged : Staged sqlite migrations clock n s) (broken : ¬ Calm sqlite s action)
    (stepped : step sqlite migrations clock s action = some s') :
    ∃ n' who, Staged sqlite migrations clock n' s' ∧ Doomed migrations n' (s'.phase who) := by
  obtain ⟨n', later, staged'⟩ := staged.step stepped
  obtain ⟨who, made⟩ := action
  obtain ⟨⟨log, phase⟩, moved, rfl⟩ := Option.map_eq_some_iff.mp stepped
  refine ⟨n', ?_⟩
  cases made with
  | go =>
    have turn := advance_turn moved
    by_cases conflict : conflicts sqlite who s.log (s.phase who) = true
    · refine ⟨who, staged', ?_⟩
      simp only [Function.update_self]
      generalize s.phase who = before at turn conflict
      cases turn with
      | wrote writes granted => simp [conflicts, granted] at conflict
      | read reads => simp [conflicts, reads] at conflict
      | refused error refused isBase =>
        rcases isBase with granted | ⟨reads, -⟩
        · simp [conflicts, granted] at conflict
        · simp [conflicts, reads] at conflict
      | conflict => trivial
      | _ => cases conflict
    · have overtakes : (s.phase who).commits = true ∧ (s.phase !who).apart = false := by
        simp only [Calm, Bool.not_eq_true] at broken conflict
        simpa [conflict] using broken
      refine ⟨!who, staged', ?_⟩
      simp only [Function.update_of_ne (Deferred.other_ne who)]
      refine ((staged.within !who).doomed overtakes.2).later ?_
      have mine := staged.within who
      generalize s.phase who = before at turn overtakes mine
      cases turn with
      | commit => exact ((within_commit staged.stage mine).2.2.2.unique staged'.stage).le
      | _ => cases overtakes.1
  | fail => exact absurd trivial broken
  | giveUp =>
    refine ⟨who, staged', ?_⟩
    simp only [move] at moved
    split at moved <;> cases moved
    simp only [Function.update_self]
    trivial
  | kill => exact absurd trivial broken

/-- Both runs have ended. -/
def Finished (s : Migrating δ σ) : Prop := ∀ who, (s.phase who).underWay = false

/-- Both runs have returned, and the file is at the latest version. -/
def BothOk (migrations : Migrations δ) (s : Migrating δ σ) : Prop :=
  (∀ who, ∃ applied, s.phase who = .returned (.ok applied)) ∧ s.log.committed.userVersion = migrations.latestVersion

/-- Every migration takes effect exactly once: the state reached from a file by these moves. -/
structure EffectOnce (sqlite : Sqlite δ σ) (migrations : Migrations δ) (file : File σ) (moves : List (Bool × Move))
    (last : Migrating δ σ) : Prop where
  created : CreatedBy sqlite migrations file → CreatedBy sqlite migrations last.log.committed
  foreign : ¬ CreatedBy sqlite migrations file → last.log.committed = file
  returns : CreatedBy sqlite migrations file → Builds sqlite migrations → Uninterrupted moves → Finished last →
    BothOk migrations last

theorem created_run (created : CreatedBy sqlite migrations file)
    (ran : Runs.run (step sqlite migrations clock) (begin file) moves = some last) :
    CreatedBy sqlite migrations last.log.committed := by
  obtain ⟨n, stage⟩ := created
  obtain ⟨n', staged⟩ := Runs.run_invariant (fun s => ∃ n, Staged sqlite migrations clock n s)
    (fun s a next staged stepped => by
      obtain ⟨n, staged⟩ := staged
      obtain ⟨n', -, staged'⟩ := staged.step stepped
      exact ⟨n', staged'⟩) ⟨n, staged_begin stage⟩ ran
  exact ⟨n', staged.stage⟩

theorem alone_run (refused : refusal sqlite migrations file ≠ none)
    (ran : Runs.run (step sqlite migrations clock) (begin file) moves = some last) : last.log.committed = file :=
  (Runs.run_invariant (LeftAlone sqlite migrations file) (fun _ _ _ alone stepped => alone.step refused stepped)
    ⟨rfl, fun _ => ⟨rfl, rfl⟩, fun _ => .start⟩ ran).same

theorem fine_ok {s : Migrating δ σ} (staged : Staged sqlite migrations clock n s)
    (fine : ∀ who, Fine migrations n s.log who (s.phase who)) (finished : Finished s) : BothOk migrations s := by
  have ended (who : Bool) : n = migrations.list.length ∧ ∃ applied, s.phase who = .returned (.ok applied) := by
    have fine := fine who
    have finished := finished who
    generalize s.phase who = phase at fine finished
    cases phase with
    | returned result =>
      cases result with
      | ok applied => exact ⟨fine, applied, rfl⟩
      | error => exact fine.elim
    | killed => exact fine.elim
    | _ => cases finished
  refine ⟨fun who => (ended who).2, ?_⟩
  rw [staged.stage.version, (ended true).1, latestVersion_eq]

/-- On a file that the list has created, or that is refused, every migration takes effect once
in every run of calm moves; and where both runs return without an error, all moves were calm. -/
theorem effect_once {file : File σ} {moves : List (Bool × Move)} {last : Migrating δ σ}
    (known : CreatedBy sqlite migrations file ∨ refusal sqlite migrations file ≠ none)
    (ran : Runs.run (step sqlite migrations clock) (begin file) moves = some last) :
    (Runs.Along (step sqlite migrations clock) (Calm sqlite) (begin file) moves →
    EffectOnce sqlite migrations file moves last) ∧
    (CreatedBy sqlite migrations file → Builds sqlite migrations → Uninterrupted moves → Finished last →
      EffectOnce sqlite migrations file moves last → Runs.Along (step sqlite migrations clock) (Calm sqlite)
        (begin file) moves) := by
  constructor
  · intro calm
    refine ⟨fun created => created_run created ran, fun foreign => alone_run (known.resolve_left foreign) ran, ?_⟩
    rintro ⟨n, stage⟩ builds uninterrupted finished
    obtain ⟨n', staged, fine⟩ := fine_run (staged_begin stage) builds (fun _ => trivial) calm uninterrupted ran
    exact fine_ok staged fine finished
  · intro created builds uninterrupted finished once
    by_contra broken
    obtain ⟨n, stage⟩ := created
    obtain ⟨first, action, rest, middle, next, rfl, -, reached, notCalm, stepped, later⟩ :=
      Runs.not_along_split ran broken
    obtain ⟨k, staged⟩ := Runs.run_invariant (fun s => ∃ n, Staged sqlite migrations clock n s)
      (fun s a next staged stepped => by
        obtain ⟨n, staged⟩ := staged
        obtain ⟨n', -, staged'⟩ := staged.step stepped
        exact ⟨n', staged'⟩) ⟨n, staged_begin stage⟩ reached
    obtain ⟨n', who, staged', doomed⟩ := not_calm staged notCalm stepped
    obtain ⟨m, stillDoomed⟩ := doomed_run staged' doomed
      (fun other inside => uninterrupted other (List.mem_append_right _ (List.mem_cons_of_mem _ inside))) later
    obtain ⟨applied, isOk⟩ := (once.returns ⟨n, stage⟩ builds uninterrupted finished).1 who
    rw [isOk] at stillDoomed
    exact stillDoomed

/-- A file of tables without rows, of which a statement creates one. -/
def tablesOnly : Sqlite String (List String) where
  empty := []
  objects := id
  tables := id
  execute := fun name tables => if tables.contains name then .error s!"table {name} already exists"
    else .ok (tables ++ [name])
  writes := fun _ => true
  empty_objects := rfl
  tables_objects := fun _ _ inside => inside
  reads := fun _ _ _ reads => nomatch reads

def firstTwo : Migrations String where
  list := [⟨1, "init", ["connection", "schema_migration"]⟩, ⟨2, "legacy_import", ["legacy_import"]⟩]
  numbered := by decide

/-- One run from its first statement to its end on a new file, without a break. -/
def alone (who : Bool) : List (Bool × Move) := List.replicate 13 (who, .go)

/-- A second run that begins after the first one has ended finds nothing to do. -/
theorem effect_once_in_turn : ∃ last,
    Runs.run (step tablesOnly firstTwo fun _ => 1000) (begin (fresh tablesOnly))
      (alone false ++ List.replicate 3 (true, .go)) = some last ∧
    EffectOnce tablesOnly firstTwo (fresh tablesOnly) (alone false ++ List.replicate 3 (true, .go)) last := by
  obtain ⟨last, ran⟩ := Option.isSome_iff_exists.mp (show (Runs.run (step tablesOnly firstTwo fun _ => 1000)
    (begin (fresh tablesOnly)) (alone false ++ List.replicate 3 (true, .go))).isSome by decide +kernel)
  exact ⟨last, ran, (effect_once (.inl ⟨0, at_fresh tablesOnly firstTwo⟩) ran).1 (by decide +kernel)⟩

def Phase.error : Phase δ → Option MigrateError
  | returned (.error error) => some error
  | _ => none

theorem firstTwo_builds : Builds tablesOnly firstTwo := by
  intro n within
  match n, within with
  | 0, _ => exact ⟨_, at_fresh tablesOnly firstTwo⟩
  | 1, within =>
    exact ⟨⟨1, Table.upsert {} ⟨1, "init", 1000⟩, ["connection", "schema_migration"]⟩, within, rfl, rfl,
      rfl, fun _ => rfl⟩
  | 2, within =>
    exact ⟨⟨2, (Table.upsert {} ⟨1, "init", 1000⟩).upsert ⟨2, "legacy_import", 1000⟩,
      ["connection", "schema_migration", "legacy_import"]⟩, within, rfl, rfl, rfl, fun _ => rfl⟩

/-- Both runs read version 0 of a new file; the one that is overtaken takes the other's tables for a stranger's. -/
theorem overtaken : ∃ last, Runs.run (step tablesOnly firstTwo fun _ => 1000) (begin (fresh tablesOnly))
      ((true, .go) :: alone false ++ [(true, .go)]) = some last ∧
    CreatedBy tablesOnly firstTwo (fresh tablesOnly) ∧ Builds tablesOnly firstTwo ∧
    Uninterrupted ((true, .go) :: alone false ++ [(true, .go)]) ∧ Finished last ∧
    (last.phase true).error = some (.foreignDatabase "connection") ∧
    ¬ EffectOnce tablesOnly firstTwo (fresh tablesOnly) ((true, .go) :: alone false ++ [(true, .go)]) last := by
  have lost : (Runs.run (step tablesOnly firstTwo fun _ => 1000) (begin (fresh tablesOnly))
      ((true, .go) :: alone false ++ [(true, .go)])).map (fun s => ((s.phase true).error, (s.phase false).underWay)) =
      some (some (.foreignDatabase "connection"), false) := by decide +kernel
  obtain ⟨last, ran, isLost⟩ := Option.map_eq_some_iff.mp lost
  obtain ⟨failed, ended⟩ := Prod.mk.inj isLost
  have created : CreatedBy tablesOnly firstTwo (fresh tablesOnly) := ⟨0, at_fresh tablesOnly firstTwo⟩
  have uninterrupted : Uninterrupted ((true, .go) :: alone false ++ [(true, .go)]) := by unfold Uninterrupted; decide
  have finished : Finished last := by
    intro who
    cases who with
    | false => exact ended
    | true =>
      generalize last.phase true = phase at failed
      cases phase <;> first | rfl | cases failed
  refine ⟨last, ran, created, firstTwo_builds, uninterrupted, finished, failed, fun once => ?_⟩
  obtain ⟨applied, isOk⟩ := (once.returns created firstTwo_builds uninterrupted finished).1 true
  rw [isOk] at failed
  cases failed

end QueryHive.Storage.Migrate
