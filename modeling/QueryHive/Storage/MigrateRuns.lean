import QueryHive.Storage.MigrateOnce

/-! Two runs of the migrations, statement by statement. Whatever they do, the file stays at a
version that the list has brought it to, or is left alone. When neither is killed and no
statement fails on its own account, both return the file at the latest version exactly in
the runs in which no commit of the one falls within the other. -/
namespace QueryHive.Storage.Migrate
open QueryHive.Library

universe u v
variable {δ : Type u} {σ : Type v} {sqlite : Sqlite δ σ} {migrations : Migrations δ}

/-- The statements of a run, one constructor for each outcome. -/
inductive Turn (sqlite : Sqlite δ σ) (migrations : Migrations δ) (at' : Int) (who : Bool) (log : Deferred (File σ)) :
    Phase δ → Deferred (File σ) → Phase δ → Prop
  | newer (above : migrations.latestVersion < log.committed.userVersion) : Turn sqlite migrations at' who log .start log
      (.returned (.error (.newerDatabase log.committed.userVersion migrations.latestVersion)))
  | version (known : log.committed.userVersion ≤ migrations.latestVersion) :
      Turn sqlite migrations at' who log .start log (.versionRead log.committed.userVersion)
  | foreign (found : firstUserObject sqlite log.committed.contents = some object) :
      Turn sqlite migrations at' who log (.versionRead 0) log (.returned (.error (.foreignDatabase object)))
  | unused (absent : firstUserObject sqlite log.committed.contents = none) :
      Turn sqlite migrations at' who log (.versionRead 0) log (proceed (migrations.pending 0) [])
  | table (marked : current ≠ 0) (has : hasTable sqlite log.committed.contents "schema_migration" = true) :
      Turn sqlite migrations at' who log (.versionRead current) log (.tableFound current)
  | noTable (marked : current ≠ 0) (hasNot : hasTable sqlite log.committed.contents "schema_migration" = false) :
      Turn sqlite migrations at' who log (.versionRead current) log
        (.returned (.error (.inconsistentHistory current [])))
  | differs (differs : log.committed.history.rows.map (·.version) ≠ migrations.expected current) :
      Turn sqlite migrations at' who log (.tableFound current) log
        (.returned (.error (.inconsistentHistory current (log.committed.history.rows.map (·.version)))))
  | agrees (same : log.committed.history.rows.map (·.version) = migrations.expected current) :
      Turn sqlite migrations at' who log (.tableFound current) log (proceed (migrations.pending current) [])
  | opens : Turn sqlite migrations at' who log (.migrating migration pending applied) log
      (.inside migration (tasks migration) pending applied)
  | wrote {task : Task δ} (writes : task.writes sqlite = true) (granted : log.acquire who = .granted base)
      (performed : task.perform sqlite migration at' base = .ok after) :
      Turn sqlite migrations at' who log (.inside migration (task :: rest) pending applied) (log.write who after)
        (.inside migration rest pending applied)
  | read {task : Task δ} (reads : task.writes sqlite = false)
    (performed : task.perform sqlite migration at' (log.view who) = .ok after) :
      Turn sqlite migrations at' who log (.inside migration (task :: rest) pending applied) (log.read who)
        (.inside migration rest pending applied)
  | refused {task : Task δ} (error : MigrateError) (refused : task.perform sqlite migration at' base = .error error)
      (isBase : log.acquire who = .granted base ∨ task.writes sqlite = false ∧ base = log.view who) :
      Turn sqlite migrations at' who log (.inside migration (task :: rest) pending applied) (log.rollback who)
        (.returned (.error error))
  | conflict {task : Task δ} (writes : task.writes sqlite = true) (conflict : log.acquire who = .conflict) :
      Turn sqlite migrations at' who log (.inside migration (task :: rest) pending applied) (log.rollback who)
        (.returned (.error .busy))
  | commit : Turn sqlite migrations at' who log (.inside migration [] pending applied) (log.commit who)
      (proceed pending (applied ++ [⟨migration.version, migration.name, at'⟩]))

theorem advance_turn {phase phase' : Phase δ} {log log' : Deferred (File σ)}
    (stepped : advance sqlite migrations at' who log phase = some (log', phase')) :
    Turn sqlite migrations at' who log phase log' phase' := by
  cases phase with
  | start =>
    simp only [advance] at stepped
    split at stepped
    · next above =>
      cases stepped
      exact .newer above
    · next known =>
      cases stepped
      exact .version (not_lt.mp known)
  | versionRead current =>
    simp only [advance] at stepped
    split at stepped
    · next unmarked =>
      subst unmarked
      split at stepped
      · next found =>
        cases stepped
        exact .foreign found
      · next absent =>
        cases stepped
        exact .unused absent
    · next marked =>
      split at stepped
      · next has =>
        cases stepped
        exact .table marked has
      · next hasNot =>
        cases stepped
        exact .noTable marked (by simpa using hasNot)
  | tableFound current =>
    simp only [advance] at stepped
    split at stepped
    · next differs =>
      cases stepped
      exact .differs differs
    · next same =>
      cases stepped
      exact .agrees (by simpa using same)
  | migrating migration pending applied =>
    cases stepped
    exact .opens
  | inside migration todo pending applied =>
    cases todo with
    | nil =>
      cases stepped
      exact .commit
    | cons task rest =>
      simp only [advance, perform] at stepped
      split at stepped
      · next writes =>
        split at stepped
        · cases stepped
        · next conflict =>
          cases stepped
          exact .conflict writes conflict
        · next base granted =>
          split at stepped
          · next performed =>
            cases stepped
            exact .wrote writes granted performed
          · next refused =>
            cases stepped
            exact .refused _ refused (.inl granted)
      · next reads =>
        have reads : task.writes sqlite = false := by simpa using reads
        split at stepped
        · next performed =>
          cases stepped
          exact .read reads performed
        · next refused =>
          cases stepped
          exact .refused _ refused (.inr ⟨reads, rfl⟩)
  | returned => cases stepped
  | killed => cases stepped

/-- What a transaction has done so far, on the snapshot it has read or on what is committed. -/
inductive Progress (sqlite : Sqlite δ σ) (log : Deferred (File σ)) (who : Bool) (migration : Migration δ) (at' : Int) :
    List (Task δ) → Prop
  | new (idle : log.Idle who) : Progress sqlite log who migration at' []
  | reading (free : log.held who = none) (snapshot : log.snapshot who = some (seen, value))
      (only : ∀ task ∈ done, task.writes sqlite = false)
      (performed : performAll sqlite migration at' done value = .ok value) :
      Progress sqlite log who migration at' done
  | writing (held : log.held who = some working)
    (performed : performAll sqlite migration at' done log.committed = .ok working) :
      Progress sqlite log who migration at' done

/-- A run on a file at version `n`: what it has read of the version is no later, and its
transaction is a first part of one of the migrations up to the next. -/
def Within (sqlite : Sqlite δ σ) (migrations : Migrations δ) (n : Nat) (log : Deferred (File σ))
    (who : Bool) (at' : Int) :
    Phase δ → Prop
  | .versionRead current => log.Idle who ∧ ∃ c : Nat, current = c ∧ c ≤ n
  | .tableFound current => log.Idle who ∧ ∃ c : Nat, current = c ∧ c ≤ n
  | .migrating migration pending _ => log.Idle who ∧ ∃ j ≤ n, migrations.list.drop j = migration :: pending
  | .inside migration todo pending _ => ∃ j ≤ n, migrations.list.drop j = migration :: pending ∧
      ∃ done, tasks migration = done ++ todo ∧ Progress sqlite log who migration at' done
  | .start => log.Idle who
  | .returned _ => log.Idle who
  | .killed => log.Idle who

theorem within_proceed (idle : log.Idle who) (behind : j ≤ n) (pending : migrations.list.drop j = rest) :
    Within sqlite migrations n log who at' (proceed rest applied) := by
  cases rest with
  | nil => exact idle
  | cons migration rest => exact ⟨idle, j, behind, pending⟩

theorem progress_view (progress : Progress sqlite log who migration at' done) (reads : Task.writes sqlite task = false)
    (performed : task.perform sqlite migration at' (log.view who) = .ok after) :
    Progress sqlite (log.read who) who migration at' (done ++ [task]) := by
  have same : after = log.view who := by
    cases task with
    | sql statement =>
      simp only [Task.perform] at performed
      split at performed
      · next contents executed =>
        cases performed
        rw [sqlite.reads statement _ _ reads executed]
      · cases performed
    | record => cases reads
    | mark => cases reads
  subst same
  cases progress with
  | new idle =>
    obtain ⟨free, new⟩ := idle
    have view : log.view who = log.committed := by simp [Deferred.view, free, new]
    rw [view] at performed
    have stillFree : (log.read who).held who = none := by
      simp only [Deferred.read, free, new]
      exact free
    have snapshot : (log.read who).snapshot who = some (log.commits, log.committed) := by
      simp only [Deferred.read, free, new]
      exact Function.update_self ..
    refine .reading stillFree snapshot (by simpa using reads) ?_
    simp only [List.nil_append, performAll, List.foldlM_cons, performed]
    rfl
  | @reading seen value done free snapshot only earlier =>
    have view : log.view who = value := by simp [Deferred.view, free, snapshot]
    rw [view] at performed
    have unread : log.read who = log := by simp [Deferred.read, free, snapshot]
    rw [unread]
    refine .reading free snapshot ?_ ?_
    · intro task inside
      rcases List.mem_append.mp inside with earlier | last
      · exact only task earlier
      · cases List.mem_singleton.mp last
        exact reads
    · rw [performAll_append, earlier]
      simp only [Except.bind, performAll, List.foldlM_cons, performed]
      rfl
  | @writing working done held earlier =>
    have view : log.view who = working := by simp [Deferred.view, held]
    rw [view] at performed
    have unread : log.read who = log := by simp [Deferred.read, held]
    rw [unread]
    refine .writing held ?_
    rw [performAll_append, earlier]
    simp only [Except.bind, performAll, List.foldlM_cons, performed]
    rfl

theorem progress_write (sound : log.Sound) (progress : Progress sqlite log who migration at' done)
    (granted : log.acquire who = .granted base) (performed : Task.perform sqlite migration at' task base = .ok after) :
    Progress sqlite (log.write who after) who migration at' (done ++ [task]) := by
  have soFar : performAll sqlite migration at' done log.committed = .ok base := by
    rcases Deferred.acquire_base sound granted with held | ⟨free, rfl⟩
    · cases progress with
      | new idle => cases idle.1.symm.trans held
      | reading free => cases free.symm.trans held
      | writing held' earlier =>
        cases held.symm.trans held'
        exact earlier
    · cases progress with
      | new => rfl
      | @reading seen value done free' snapshot only earlier =>
        simp only [Deferred.acquire, free', snapshot] at granted
        split at granted
        · injection granted with isBase
          exact isBase ▸ earlier
        · cases granted
      | writing held => cases free.symm.trans held
  refine .writing Deferred.write_held ?_
  change performAll sqlite migration at' (done ++ [task]) log.committed = _
  rw [performAll_append, soFar]
  simp only [Except.bind, performAll, List.foldlM_cons, performed]
  rfl

theorem progress_commit (progress : Progress sqlite log who migration at' (tasks migration)) :
    ∃ working, log.held who = some working ∧ performAll sqlite migration at' (tasks migration) log.committed =
      .ok working := by
  generalize whole : tasks migration = done at progress
  cases progress with
  | new => simp [tasks] at whole
  | reading _ _ only => cases only .mark (by rw [← whole, tasks]; simp)
  | writing held performed => exact ⟨_, held, performed⟩

/-- A commit takes the file from the version before the migration to its own. -/
theorem within_commit (stage : At sqlite migrations n log.committed)
    (inside : Within sqlite migrations n log who at' (.inside migration [] pending applied)) :
    Deferred.Seen who log (log.commit who) ∧ (log.commit who).Idle who ∧ migrations.list.drop n = migration :: pending ∧
      At sqlite migrations (n + 1) (log.commit who).committed := by
  obtain ⟨j, behind, pending, done, whole, progress⟩ := inside
  rw [List.append_nil] at whole
  subst whole
  obtain ⟨working, held, performed⟩ := progress_commit progress
  obtain ⟨seen, idle, committed⟩ := Deferred.commit_seen held
  obtain ⟨rfl, next⟩ := stage.next pending behind performed
  exact ⟨seen, idle, pending, committed.symm ▸ next⟩

/-- What a statement of a run leaves: a sound log, at the same version or, after a commit, at the next. -/
theorem Turn.within {phase phase' : Phase δ} {log log' : Deferred (File σ)}
    (turn : Turn sqlite migrations at' who log phase log' phase')
    (sound : log.Sound) (stage : At sqlite migrations n log.committed)
    (inside : Within sqlite migrations n log who at' phase) :
    log'.Sound ∧ Deferred.Seen who log log' ∧ ∃ n', n ≤ n' ∧ At sqlite migrations n' log'.committed ∧
      Within sqlite migrations n' log' who at' phase' := by
  have unchanged : Deferred.Seen who log log := .nothing rfl rfl rfl rfl
  cases turn with
  | newer => exact ⟨sound, unchanged, n, le_refl n, stage, inside⟩
  | version => exact ⟨sound, unchanged, n, le_refl n, stage, inside, n, stage.version, le_refl n⟩
  | foreign => exact ⟨sound, unchanged, n, le_refl n, stage, inside.1⟩
  | unused =>
    obtain ⟨idle, c, isCurrent, behind⟩ := inside
    refine ⟨sound, unchanged, n, le_refl n, stage, within_proceed idle behind ?_⟩
    rw [isCurrent, pending_eq]
  | table => exact ⟨sound, unchanged, n, le_refl n, stage, inside⟩
  | noTable => exact ⟨sound, unchanged, n, le_refl n, stage, inside.1⟩
  | differs => exact ⟨sound, unchanged, n, le_refl n, stage, inside.1⟩
  | agrees =>
    obtain ⟨idle, c, isCurrent, behind⟩ := inside
    refine ⟨sound, unchanged, n, le_refl n, stage, within_proceed idle behind ?_⟩
    rw [isCurrent, pending_eq]
  | opens =>
    obtain ⟨idle, j, behind, pending⟩ := inside
    exact ⟨sound, unchanged, n, le_refl n, stage, j, behind, pending, [], rfl, .new idle⟩
  | wrote writes granted performed =>
    obtain ⟨j, behind, pending, done, whole, progress⟩ := inside
    exact ⟨sound.write who _, Deferred.write_seen granted _, n, le_refl n, stage, j, behind, pending, _,
      whole.trans (List.append_cons ..), progress_write sound progress granted performed⟩
  | read reads performed =>
    obtain ⟨j, behind, pending, done, whole, progress⟩ := inside
    have committed : (log.read who).committed = log.committed := by unfold Deferred.read; split <;> rfl
    exact ⟨sound.read who, Deferred.read_seen .., n, le_refl n, committed ▸ stage, j, behind, pending, _,
      whole.trans (List.append_cons ..), progress_view progress reads performed⟩
  | refused => exact ⟨sound.rollback who, Deferred.rollback_seen .., n, le_refl n, stage, Deferred.rollback_idle⟩
  | conflict => exact ⟨sound.rollback who, Deferred.rollback_seen .., n, le_refl n, stage, Deferred.rollback_idle⟩
  | commit =>
    obtain ⟨seen, idle, pending, next⟩ := within_commit stage inside
    refine ⟨sound.commit who, seen, n + 1, Nat.le_succ n, next, within_proceed idle (le_refl _) ?_⟩
    rw [← List.tail_drop, pending, List.tail_cons]

/-- A statement of the other run leaves a run where it is. -/
theorem Within.seen {phase : Phase δ} {log log' : Deferred (File σ)} (seen : Deferred.Seen (!who) log log')
    (inside : Within sqlite migrations n log who at' phase) (later : n ≤ n') :
    Within sqlite migrations n' log' who at' phase := by
  have idle (idle : log.Idle who) : log'.Idle who := by
    cases seen with
    | nothing _ _ held snapshot =>
      rw [Bool.not_not] at held snapshot
      exact ⟨held.trans idle.1, snapshot.trans idle.2⟩
    | commit _ _ _ _ held snapshot =>
      rw [Bool.not_not] at held snapshot
      exact ⟨held, snapshot.trans idle.2⟩
  cases phase with
  | start => exact idle inside
  | versionRead =>
    obtain ⟨idle', c, isCurrent, behind⟩ := inside
    exact ⟨idle idle', c, isCurrent, behind.trans later⟩
  | tableFound =>
    obtain ⟨idle', c, isCurrent, behind⟩ := inside
    exact ⟨idle idle', c, isCurrent, behind.trans later⟩
  | migrating =>
    obtain ⟨idle', j, behind, pending⟩ := inside
    exact ⟨idle idle', j, behind.trans later, pending⟩
  | inside =>
    obtain ⟨j, behind, pending, done, whole, progress⟩ := inside
    refine ⟨j, behind.trans later, pending, done, whole, ?_⟩
    cases progress with
    | new idle' => exact .new (idle idle')
    | reading free snapshot only performed =>
      cases seen with
      | nothing _ _ held same =>
        rw [Bool.not_not] at held same
        exact .reading (held.trans free) (same.trans snapshot) only performed
      | commit _ _ _ _ held same =>
        rw [Bool.not_not] at held same
        exact .reading held (same.trans snapshot) only performed
    | writing held performed =>
      cases seen with
      | nothing committed _ same _ =>
        rw [Bool.not_not] at same
        exact .writing (same.trans held) (committed ▸ performed)
      | commit _ wrote =>
        have free := Deferred.held_other wrote
        rw [Bool.not_not] at free
        cases free.symm.trans held
  | returned => exact idle inside
  | killed => exact idle inside

/-- The file is at a version of the list, and both runs are on it. -/
structure Staged (sqlite : Sqlite δ σ) (migrations : Migrations δ) (clock : Bool → Int) (n : Nat)
    (s : Migrating δ σ) : Prop where
  sound : s.log.Sound
  stage : At sqlite migrations n s.log.committed
  within : ∀ who, Within sqlite migrations n s.log who (clock who) (s.phase who)

variable {clock : Bool → Int}

theorem staged_begin (stage : At sqlite migrations n file) : Staged sqlite migrations clock n (begin file) where
  sound := fun _ _ _ snapshot => nomatch snapshot
  stage := stage
  within := fun _ => ⟨rfl, rfl⟩

/-- The two runs after a move, from what the move was to the one that made it. -/
theorem Staged.update {s : Migrating δ σ} (staged : Staged sqlite migrations clock n s) {who : Bool}
    {log : Deferred (File σ)}
    {phase : Phase δ} (sound : log.Sound) (seen : Deferred.Seen who s.log log) (later : n ≤ n')
    (stage : At sqlite migrations n' log.committed) (mine : Within sqlite migrations n' log who (clock who) phase) :
    Staged sqlite migrations clock n' ⟨log, Function.update s.phase who phase⟩ := by
  refine ⟨sound, stage, fun x => ?_⟩
  by_cases same : x = who
  · subst same
    simpa only [Function.update_self] using mine
  · have isOther : (!x) = who := by cases x <;> cases who <;> simp_all
    simp only [Function.update_of_ne same]
    exact (staged.within x).seen (isOther ▸ seen) later

/-- Every move leaves the file at a version of the list. -/
theorem Staged.step {s s' : Migrating δ σ} (staged : Staged sqlite migrations clock n s)
    (stepped : step sqlite migrations clock s action = some s') :
    ∃ n', n ≤ n' ∧ Staged sqlite migrations clock n' s' := by
  obtain ⟨who, made⟩ := action
  obtain ⟨⟨log, phase⟩, moved, rfl⟩ := Option.map_eq_some_iff.mp stepped
  have stopped (phase : Phase δ) (idle : ∀ log, Within sqlite migrations n log who (clock who) phase ↔ log.Idle who) :
      Staged sqlite migrations clock n ⟨s.log.rollback who, Function.update s.phase who phase⟩ :=
    staged.update (staged.sound.rollback who) (Deferred.rollback_seen ..) (le_refl n) staged.stage
      ((idle _).mpr Deferred.rollback_idle)
  cases made with
  | go =>
    obtain ⟨sound, seen, n', later, stage, mine⟩ :=
      (advance_turn moved).within staged.sound staged.stage (staged.within who)
    exact ⟨n', later, staged.update sound seen later stage mine⟩
  | fail =>
    simp only [move] at moved
    split at moved
    · cases moved
      exact ⟨n, le_refl n, stopped _ fun _ => Iff.rfl⟩
    · cases moved
  | giveUp =>
    simp only [move] at moved
    split at moved
    · cases moved
      exact ⟨n, le_refl n, stopped _ fun _ => Iff.rfl⟩
    · cases moved
  | kill =>
    simp only [move] at moved
    split at moved
    · cases moved
      exact ⟨n, le_refl n, stopped _ fun _ => Iff.rfl⟩
    · cases moved

end QueryHive.Storage.Migrate
