import QueryHive.Write.TableSwap

/-! What a `replace` leaves behind: where the old rows are at every moment, and whether
the warnings say what became of the tables. Each driver's swap is followed statement by
statement; everything before the swap leaves the target alone. -/
namespace QueryHive.Write
open QueryHive.Core QueryHive.Library.History

/-- The old table is there, under its own name or the backup's. -/
def Tables.old (tables : Tables) : Prop := tables.target = some .existing ∨ tables.backup = some .existing

/-- At every moment the old table is there, until the new one has taken its place. -/
def Kept (moments : List Tables) : Prop :=
  Each (fun before now => now.old ∨ ∃ earlier ∈ before ++ [now], earlier.target = some .built) moments

/-- What the result and the warnings say of the tables when every answer arrived. -/
structure Told (existed : Bool) (ended : Except String Bool × Run) : Prop where
  finished : ended.2.server.committed.target = some .built ↔ ended.1 = .ok false
  replaced : .replaced ∈ ended.2.warnings → ended.2.server.committed.target = some .built ∧ existed = true
  remains : ∀ role, role ≠ .target → (ended.2.server.committed.get role).isSome →
    ∃ warning ∈ ended.2.warnings, role ∈ warning.naming

/-- What a run that began with the tables of `Run.start` owes the user. -/
structure Honest (existed : Bool) (ended : Except String Bool × Run) : Prop where
  kept : existed = true → Kept ended.2.moments
  told : ended.2.lost = false → Told existed ended
  untouched : .untouched ∈ ended.2.warnings → ended.2.server.committed.target = targetBefore existed

def Fate.isLost : Fate → Bool
  | lost _ => true
  | _ => false

def Fate.isRefused : Fate → Bool
  | refused _ => true
  | _ => false

def Schedule.swaps (schedule : Schedule) : Bool :=
  schedule.stop = .unseen && schedule.build = .acknowledged && !schedule.cancelled && schedule.probe.isOk

def Schedule.acknowledgedBefore (schedule : Schedule) (index : Nat) : Bool :=
  (List.range index).all fun step => schedule.step step = .acknowledged

/-- The one step that puts the new table in place, or moves the old one away, takes
effect and its answer is lost; on Trino also both the second rename and the one that
undoes the first are refused. -/
def Schedule.misleads (schedule : Schedule) (kind : DriverKind) (existed : Bool) : Bool :=
  match kind, existed with
  | .postgres, _ => schedule.acknowledgedBefore 3 && (schedule.step 3).isLost
  | .mysql, _ | .trino, false => (schedule.step 0).isLost
  | .trino, true =>
    (schedule.step 0).isLost ||
      schedule.acknowledgedBefore 1 && (schedule.step 1).isRefused && schedule.clear.isRefused

variable {run : Run} {server : Server}

theorem finish_acknowledged (performed : run.server.perform statement = some server) :
    finishStatement .acknowledged statement run = (.ok (), run.next server false) := by
  rw [finishStatement, performed]

theorem finish_lost (performed : run.server.perform statement = some server) (error : String) :
    finishStatement (.lost error) statement run = (.error error, run.next server true) := by
  rw [finishStatement, performed]

theorem finish_refused (statement : Statement) (run : Run) (error : String) :
    finishStatement (.refused error) statement run = (.error error, run.next (run.server.refuse statement) false) := by
  unfold finishStatement
  cases run.server.perform statement <;> rfl

/-- A statement the server has to refuse fails without effect, whatever becomes of its
answer. -/
theorem finish_impossible (impossible : run.server.perform statement = none) (fate : Fate) :
    ∃ error, finishStatement fate statement run = (.error error, run.next (run.server.refuse statement) false) := by
  unfold finishStatement
  rw [impossible]
  exact ⟨_, rfl⟩

/-- Inside a transaction only its `COMMIT` changes the committed tables. -/
theorem finish_inside (inside : statement = .begin ∨ statement = .rollback ∨ run.server.work.isSome)
    (other : statement ≠ .commit) (fate : Fate) :
    (finishStatement fate statement run).2.server.committed = run.server.committed ∧
      (finishStatement fate statement run).2.moments = run.moments ++ [run.server.committed] ∧
      (finishStatement fate statement run).2.warnings = run.warnings := by
  have same : ∀ server, run.server.perform statement = some server → server.committed = run.server.committed := by
    intro server performed
    unfold Server.perform at performed
    split at performed
    · cases performed
      rfl
    · exact absurd rfl other
    · exact absurd rfl other
    · cases performed
      rfl
    · next begins rolls outside =>
      rw [outside] at inside
      simp_all
    · split at performed
      · cases performed
      · obtain ⟨tables, -, rfl⟩ := Option.map_eq_some_iff.mp performed
        rfl
  unfold finishStatement
  cases performed : run.server.perform statement with
  | none => exact ⟨rfl, rfl, rfl⟩
  | some server =>
    cases fate with
    | refused error => exact ⟨rfl, rfl, rfl⟩
    | acknowledged | lost error => simp [Run.next, same server performed]

theorem Kept.next (kept : Kept run.moments) (lost : Bool)
    (there : server.committed.old ∨ server.committed.target = some .built) : Kept (run.next server lost).moments := by
  refine Each.concat kept (there.imp_right fun built => ⟨_, ?_, built⟩)
  exact List.mem_append.mpr (.inr (List.mem_singleton.mpr rfl))

theorem newest_moment (run : Run) (server : Server) (lost : Bool) : server.committed ∈ (run.next server lost).moments :=
  List.mem_append.mpr (.inr (List.mem_singleton.mpr rfl))

/-- Once the new table took its place the old one may go. -/
theorem Kept.after (kept : Kept run.moments) (lost : Bool)
    (taken : ∃ earlier ∈ run.moments, earlier.target = some .built) : Kept (run.next server lost).moments := by
  obtain ⟨earlier, inside, built⟩ := taken
  exact Each.concat kept (.inr ⟨earlier, List.mem_append.mpr (.inl inside), built⟩)

/-- Nothing has happened to the target, and no transaction is open that could change
what follows. -/
structure Intact (existed : Bool) (run : Run) : Prop where
  target : run.server.committed.target = targetBefore existed
  backup : run.server.committed.backup = none
  closed : ∀ work ∈ run.server.work, work.aborted = true
  kept : existed = true → Kept run.moments
  warnings : .replaced ∉ run.warnings

@[simp] theorem plan_dropScratch (kind : DriverKind) :
    (Replacement.plan kind).dropScratch = .dropIfExists .scratch := by
  cases kind <;> rfl

/-- What dropping the scratch table does: it is gone, or a warning names it. -/
structure Discarded (before after : Run) : Prop where
  target : after.server.committed.target = before.server.committed.target
  backup : after.server.committed.backup = before.server.committed.backup
  moments : after.moments = before.moments ∨ after.moments = before.moments ++ [after.server.committed]
  warnings : after.warnings = before.warnings ∧ after.server.committed.scratch = none ∨
    ∃ error, after.warnings = before.warnings ++ [.leftBehind error]

theorem discard_spec (schedule : Schedule) (kind : DriverKind) (reusable : Bool)
    (closed : ∀ work ∈ run.server.work, work.aborted = true) :
    Discarded run (discardScratch schedule (Replacement.plan kind) reusable run) := by
  unfold discardScratch
  split
  · rw [plan_dropScratch]
    cases work : run.server.work with
    | some work =>
      have impossible : run.server.perform (.dropIfExists .scratch) = none := by
        simp [Server.perform, work, closed]
      obtain ⟨error, finished⟩ := finish_impossible impossible schedule.discard
      rw [finished]
      exact ⟨rfl, rfl, .inr rfl, .inr ⟨error, rfl⟩⟩
    | none =>
      have performed : run.server.perform (.dropIfExists .scratch) =
          some { run.server with committed := { run.server.committed with scratch := none } } := by
        simp [Server.perform, work, Tables.apply, Tables.set]
      cases fate : schedule.discard with
      | acknowledged =>
        rw [finish_acknowledged performed]
        exact ⟨rfl, rfl, .inr rfl, .inl ⟨rfl, rfl⟩⟩
      | refused error =>
        rw [finish_refused]
        exact ⟨rfl, rfl, .inr rfl, .inr ⟨error, rfl⟩⟩
      | lost error =>
        rw [finish_lost performed]
        exact ⟨rfl, rfl, .inr rfl, .inr ⟨error, rfl⟩⟩
  · exact ⟨rfl, rfl, .inl rfl, .inr ⟨_, rfl⟩⟩

theorem Intact.leave (intact : Intact existed run) (schedule : Schedule) (kind : DriverKind) (reusable : Bool)
    (ended : outcome ≠ .ok false) : Honest existed (outcome, leave schedule (Replacement.plan kind) reusable run) := by
  obtain ⟨target, backup, moments, warnings⟩ := discard_spec schedule kind reusable intact.closed
  rw [intact.target] at target
  rw [intact.backup] at backup
  have unreplaced : .replaced ∉ (discardScratch schedule (Replacement.plan kind) reusable run).warnings := by
    obtain ⟨same, -⟩ | ⟨error, more⟩ := warnings
    · rw [same]
      exact intact.warnings
    · rw [more, List.mem_append]
      simp [intact.warnings]
  refine ⟨fun exists' => ?_, fun _ => ⟨?_, fun replaced => ?_, fun role other there => ?_⟩, fun _ => target⟩
  · have kept := intact.kept exists'
    obtain same | more := moments
    · exact (congrArg Kept same).mpr kept
    · refine (congrArg Kept more).mpr (Each.concat kept (.inl (.inl ?_)))
      rw [target, exists']
      rfl
  · refine ⟨fun built => ?_, fun ok => absurd ok ended⟩
    have clash := target.symm.trans built
    cases existed <;> cases clash
  · simp only [Write.leave, Run.warn, List.mem_append] at replaced
    simp [unreplaced] at replaced
  · cases role with
    | target => exact absurd rfl other
    | backup =>
      simp only [Write.leave, Run.warn, Tables.get, backup] at there
      cases there
    | scratch =>
      obtain ⟨-, gone⟩ | ⟨error, more⟩ := warnings
      · simp only [Write.leave, Run.warn, Tables.get, gone] at there
        cases there
      · exact ⟨.leftBehind error, by simp [Write.leave, Run.warn, more], List.mem_singleton.mpr rfl⟩

theorem leave_dishonest (schedule : Schedule) (kind : DriverKind) (reusable : Bool)
    (closed : ∀ work ∈ run.server.work, work.aborted = true)
    (changed : run.server.committed.target ≠ targetBefore existed) :
    ¬Honest existed (outcome, leave schedule (Replacement.plan kind) reusable run) := by
  intro honest
  have target := (discard_spec schedule kind reusable closed).target
  exact changed (target.symm.trans (honest.untouched (by simp [Write.leave, Run.warn])))

theorem finish_fails (other : fate ≠ .acknowledged) (statement : Statement) (run : Run) :
    ∃ error, finishStatement fate statement run = (.error error, (finishStatement fate statement run).2) := by
  cases performed : run.server.perform statement with
  | none =>
    obtain ⟨error, finished⟩ := finish_impossible performed fate
    exact ⟨error, by rw [finished]⟩
  | some server =>
    cases fate with
    | acknowledged => exact absurd rfl other
    | refused error => exact ⟨error, by rw [finish_refused]⟩
    | lost error => exact ⟨error, by rw [finish_lost performed]⟩

theorem swap_goes (went : finishStatement (schedule.step index) step run = (.ok (), after)) :
    swapSteps schedule plan index (step :: rest) run = swapSteps schedule plan (index + 1) rest after := by
  rw [swapSteps, went]

theorem swap_fails (failed : finishStatement (schedule.step index) step run = (.error error, after)) :
    swapSteps schedule plan index (step :: rest) run = (.error error, failedStep schedule plan index after) := by
  rw [swapSteps, failed]

def tablesBuilt (existed : Bool) : Tables := { target := targetBefore existed, scratch := some .built }

/-- The new table is complete, and the swap has not changed anything that is committed. -/
structure Ready (existed : Bool) (run : Run) : Prop where
  committed : run.server.committed = tablesBuilt existed
  kept : existed = true → Kept run.moments
  warnings : run.warnings.filter (· ≠ .replaced) = []

theorem Ready.old (ready : Ready existed run) (exists' : existed = true) : run.server.committed.old := by
  rw [ready.committed, exists']
  exact .inl rfl

/-- A step that fails with nothing changed, and nothing to put back, is an honest end. -/
theorem Ready.failed (ready : Ready existed run) (closed : ∀ work ∈ run.server.work, work.aborted = true)
    (put : putBack schedule (Replacement.plan kind) index before = (true, run)) (error : String) :
    Honest existed (.error error, failedStep schedule (Replacement.plan kind) index before) := by
  have ended : (.error error : Except String Bool) ≠ .ok false := fun clash => nomatch clash
  unfold failedStep
  rw [put]
  have intact : Intact existed { run with warnings := run.warnings.filter (· ≠ .replaced) } :=
    ⟨by rw [ready.committed, tablesBuilt], by rw [ready.committed, tablesBuilt], closed, ready.kept,
      by rw [ready.warnings]; exact List.not_mem_nil⟩
  exact intact.leave schedule kind true ended

/-- A step that changed the target and then counts as having changed nothing. -/
theorem failed_dishonest (put : putBack schedule (Replacement.plan kind) index before = (true, run))
    (closed : ∀ work ∈ run.server.work, work.aborted = true)
    (changed : run.server.committed.target ≠ targetBefore existed) :
    ¬Honest existed (outcome, failedStep schedule (Replacement.plan kind) index before) := by
  unfold failedStep
  rw [put]
  exact leave_dishonest schedule kind true closed changed

theorem Ready.inside (ready : Ready existed run)
    (inside : statement = .begin ∨ statement = .rollback ∨ run.server.work.isSome) (other : statement ≠ .commit)
    (fate : Fate) : Ready existed (finishStatement fate statement run).2 := by
  obtain ⟨committed, moments, warnings⟩ := finish_inside inside other fate
  refine ⟨committed.trans ready.committed, fun exists' => ?_, by rw [warnings]; exact ready.warnings⟩
  rw [moments]
  exact Each.concat (ready.kept exists') (.inl (ready.old exists'))

theorem rollback_closes (fate : Fate) (run : Run) :
    ∀ work ∈ (finishStatement fate .rollback run).2.server.work, work.aborted = true := by
  intro work inside
  cases fate with
  | refused error =>
    rw [finish_refused] at inside
    obtain ⟨open', -, rfl⟩ := Option.map_eq_some_iff.mp inside
    rfl
  | acknowledged | lost error => cases inside

theorem Ready.rolledBack (ready : Ready existed run) (schedule : Schedule) (index : Nat) (error : String) :
    Honest existed (.error error, failedStep schedule (Replacement.plan .postgres) index run) :=
  Ready.failed (ready.inside (.inr (.inl rfl)) (by simp) schedule.clear) (rollback_closes schedule.clear run) rfl error

/-- What the swap starts from. -/
structure Fresh (existed : Bool) (run : Run) : Prop where
  server : run.server = { committed := tablesBuilt existed }
  kept : existed = true → Kept run.moments
  warnings : run.warnings = []
  sure : run.lost = false

theorem Fresh.ready (fresh : Fresh existed run) : Ready existed (run.notice existed) := by
  unfold Run.notice
  split
  · exact ⟨by rw [Run.warn, fresh.server], fresh.kept, by simp [Run.warn, fresh.warnings]⟩
  · exact ⟨by rw [fresh.server], fresh.kept, by simp [fresh.warnings]⟩

theorem Fresh.notice_server (fresh : Fresh existed run) :
    (run.notice existed).server = { committed := tablesBuilt existed } := by
  unfold Run.notice
  split <;> exact fresh.server

theorem Fresh.notice_warnings (fresh : Fresh existed run) :
    (run.notice existed).warnings = if existed then [.replaced] else [] := by
  unfold Run.notice
  split
  · rw [Run.warn, fresh.warnings]
    rfl
  · exact fresh.warnings

/-- The new table is in place, and a table that is left is named. -/
theorem honest_done (target : run.server.committed.target = some .built) (kept : existed = true → Kept run.moments)
    (warned : .replaced ∈ run.warnings → existed = true) (silent : .untouched ∉ run.warnings)
    (remains : ∀ role, role ≠ .target → (run.server.committed.get role).isSome →
      ∃ warning ∈ run.warnings, role ∈ warning.naming) : Honest existed (.ok false, run) :=
  ⟨kept, fun _ => ⟨iff_of_true target rfl, fun replaced => ⟨target, warned replaced⟩, remains⟩,
    fun untouched => absurd untouched silent⟩

theorem honest_clean (committed : run.server.committed = { target := some .built })
    (kept : existed = true → Kept run.moments) (warnings : run.warnings = if existed then [.replaced] else []) :
    Honest existed (.ok false, run) := by
  refine honest_done (by rw [committed]) kept (fun replaced => ?_) (fun untouched => ?_) (fun role other there => ?_)
  · rw [warnings] at replaced
    split at replaced
    · assumption
    · cases replaced
  · rw [warnings] at untouched
    split at untouched <;> simp at untouched
  · rw [committed] at there
    cases role with
    | target => exact absurd rfl other
    | scratch | backup => cases there

/-- A statement of the transaction other than its `COMMIT` goes through, or ends the run
honestly. -/
theorem postgres_step (ready : Ready existed run) (inside : statement = .begin ∨ run.server.work.isSome)
    (other : statement ≠ .commit) (performed : run.server.perform statement = some next) (schedule : Schedule)
    (index : Nat) (early : index < 3) (rest : List Statement) :
    (schedule.step index = .acknowledged ∧ Ready existed (run.next next false) ∧
      swapSteps schedule (Replacement.plan .postgres) index (statement :: rest) run =
        swapSteps schedule (Replacement.plan .postgres) (index + 1) rest (run.next next false)) ∨
    (schedule.acknowledgedBefore 3 = false ∧ ∃ error after,
      swapSteps schedule (Replacement.plan .postgres) index (statement :: rest) run = (.error error, after) ∧
        Honest existed (.error error, after)) := by
  have after := ready.inside (inside.imp_right .inr) other (schedule.step index)
  by_cases acknowledged : schedule.step index = .acknowledged
  · rw [acknowledged, finish_acknowledged performed] at after
    exact .inl ⟨acknowledged, after, swap_goes (by rw [acknowledged, finish_acknowledged performed])⟩
  · obtain ⟨error, failed⟩ := finish_fails acknowledged statement run
    refine .inr ⟨?_, error, _, swap_fails failed, after.rolledBack schedule index error⟩
    rw [Schedule.acknowledgedBefore, List.all_eq_false]
    exact ⟨index, List.mem_range.mpr early, by simpa using acknowledged⟩

theorem postgres_commit (ready : Ready existed run)
    (server : run.server = ⟨tablesBuilt existed, some { tables := { target := some .built } }⟩)
    (notice : run.warnings = if existed then [.replaced] else []) (schedule : Schedule) :
    Honest existed (afterSwap schedule (Replacement.plan .postgres) existed
      (swapSteps schedule (Replacement.plan .postgres) 3 [.commit] run)) ↔ (schedule.step 3).isLost = false := by
  have performed : run.server.perform .commit = some { committed := { target := some .built } } := by
    rw [server]
    rfl
  cases fate : schedule.step 3 with
  | acknowledged =>
    rw [swap_goes (by rw [fate]; exact finish_acknowledged performed)]
    refine iff_of_true (honest_clean ?_ (fun exists' => ?_) ?_) rfl
    · cases existed <;> rfl
    · cases existed
      · cases exists'
      · exact (ready.kept exists').next false (.inr rfl)
    · cases existed <;> exact notice
  | refused error =>
    rw [swap_fails (by rw [fate]; exact finish_refused .commit run error)]
    have still : Ready existed (run.next (run.server.refuse .commit) false) :=
      ⟨ready.committed, fun exists' => (ready.kept exists').next false (.inl (ready.old exists')), ready.warnings⟩
    exact iff_of_true (still.rolledBack schedule 3 error) rfl
  | lost error =>
    rw [swap_fails (by rw [fate]; exact finish_lost performed error)]
    refine iff_of_false (failed_dishonest rfl (rollback_closes schedule.clear _) ?_) (by simp [Fate.isLost])
    rw [(finish_inside (.inr (.inl rfl)) (by simp) schedule.clear).1]
    cases existed <;> simp [Run.next, targetBefore]

/-- The swap of PostgreSQL is honest unless its `COMMIT` took effect unanswered. -/
theorem postgres_swap (fresh : Fresh existed run) (schedule : Schedule) :
    Honest existed (swapTables schedule (Replacement.plan .postgres) existed run) ↔
      schedule.misleads .postgres existed = false := by
  have steps : (if existed then (Replacement.plan .postgres).swap else (Replacement.plan .postgres).install) =
      [.begin, .dropIfExists .target, .rename [(.scratch, .target)], .commit] := by
    cases existed <;> rfl
  have misleads : schedule.misleads .postgres existed =
    (schedule.acknowledgedBefore 3 && (schedule.step 3).isLost) := by
    cases existed <;> rfl
  have begins : (run.notice existed).server.perform .begin =
      some ⟨tablesBuilt existed, some { tables := tablesBuilt existed }⟩ := by
    rw [fresh.notice_server]
    rfl
  have drops : Server.perform ⟨tablesBuilt existed, some { tables := tablesBuilt existed }⟩ (.dropIfExists .target) =
      some ⟨tablesBuilt existed, some { tables := { target := none, scratch := some .built } }⟩ := rfl
  have renames : Server.perform ⟨tablesBuilt existed, some { tables := { target := none, scratch := some .built } }⟩
      (.rename [(.scratch, .target)]) = some ⟨tablesBuilt existed, some { tables := { target := some .built } }⟩ := rfl
  rw [misleads, swapTables, steps]
  obtain ⟨first, ready, goes⟩ | ⟨early, error, after, fails, honest⟩ :=
    postgres_step fresh.ready (.inl rfl) (by simp) begins schedule 0 (by simp) [.dropIfExists .target, _, _]
  swap
  · rw [fails, early]
    exact iff_of_true honest rfl
  rw [goes]
  obtain ⟨second, ready, goes⟩ | ⟨early, error, after, fails, honest⟩ :=
    postgres_step ready (.inr rfl) (by simp) drops schedule 1 (by simp) [_, _]
  swap
  · rw [fails, early]
    exact iff_of_true honest rfl
  rw [goes]
  obtain ⟨third, ready, goes⟩ | ⟨early, error, after, fails, honest⟩ :=
    postgres_step ready (.inr rfl) (by simp) renames schedule 2 (by simp) [_]
  swap
  · rw [fails, early]
    exact iff_of_true honest rfl
  rw [goes, postgres_commit ready rfl fresh.notice_warnings schedule]
  simp [Schedule.acknowledgedBefore, List.range_succ, first, second, third]

/-- The first statement of a swap by renames: refused it changes nothing, and unanswered
it is taken for refused. -/
theorem first_rename (fresh : Fresh existed run) (kind : DriverKind) (renames : (Replacement.plan kind).atomic = false)
    (performed : Server.perform { committed := tablesBuilt existed } statement = some { committed := tables })
    (changed : tables.target ≠ targetBefore existed) (schedule : Schedule) (rest : List Statement) :
    (schedule.step 0 = .acknowledged ∧
      swapSteps schedule (Replacement.plan kind) 0 (statement :: rest) (run.notice existed) =
        swapSteps schedule (Replacement.plan kind) 1 rest ((run.notice existed).next { committed := tables } false)) ∨
    (schedule.step 0 ≠ .acknowledged ∧ (Honest existed (afterSwap schedule (Replacement.plan kind) existed
      (swapSteps schedule (Replacement.plan kind) 0 (statement :: rest) (run.notice existed))) ↔
        (schedule.step 0).isLost = false)) := by
  have ready := fresh.ready
  have server := fresh.notice_server
  generalize run.notice existed = begun at ready server ⊢
  have put (after : Run) : putBack schedule (Replacement.plan kind) 0 after = (true, after) := by
    simp [putBack, renames]
  rw [← server] at performed
  cases fate : schedule.step 0 with
  | acknowledged => exact .inl ⟨rfl, swap_goes (by rw [fate]; exact finish_acknowledged performed)⟩
  | refused error =>
    have refusal : begun.server.refuse statement = { committed := tablesBuilt existed } := by
      rw [server, Server.refuse]
      split <;> rfl
    rw [swap_fails (by rw [fate]; exact finish_refused statement begun error), refusal]
    have still : Ready existed (begun.next { committed := tablesBuilt existed } false) :=
      ⟨rfl, fun exists' => (ready.kept exists').next false (.inl (by rw [← ready.committed]; exact ready.old exists')),
        ready.warnings⟩
    exact .inr ⟨by simp, iff_of_true (still.failed (by simp [Run.next]) (put _) error) rfl⟩
  | lost error =>
    rw [swap_fails (by rw [fate]; exact finish_lost performed error)]
    exact .inr ⟨by simp, iff_of_false (failed_dishonest (put _) (by simp [Run.next]) changed) (by simp [Fate.isLost])⟩

/-- The one rename where no table has the target's name. -/
theorem install_swap (fresh : Fresh false run) (renames : (Replacement.plan kind).atomic = false)
    (install : (Replacement.plan kind).install = [.rename [(.scratch, .target)]]) (schedule : Schedule) :
    Honest false (swapTables schedule (Replacement.plan kind) false run) ↔ (schedule.step 0).isLost = false := by
  have performed : Server.perform { committed := tablesBuilt false } (.rename [(.scratch, .target)]) =
      some { committed := { target := some .built } } := rfl
  unfold swapTables
  rw [if_neg (by simp), install]
  obtain ⟨acknowledged, goes⟩ | ⟨-, settled⟩ :=
    first_rename fresh kind renames performed (by simp [targetBefore]) schedule []
  · rw [goes, acknowledged]
    exact iff_of_true (honest_clean rfl (fun never => nomatch never) fresh.notice_warnings) rfl
  · exact settled

/-- The new table has taken its place, and the old one is dropped last. -/
theorem drop_backup (server : run.server = { committed := { target := some .built, backup := some .existing } })
    (kept : Kept run.moments) (taken : ∃ earlier ∈ run.moments, earlier.target = some .built)
    (warnings : run.warnings = [.replaced]) (drops : plan.dropOld = some (.drop .backup)) (schedule : Schedule) :
    Honest true (.ok false, dropBackup schedule plan true run) := by
  have performed : run.server.perform (.drop .backup) = some { committed := { target := some .built } } := by
    rw [server]
    rfl
  have named (error : String) (after : Run) (target : after.server.committed.target = some .built)
      (scratch : after.server.committed.scratch = none) (still : Kept after.moments)
      (same : after.warnings = run.warnings) :
      Honest true (.ok false, after.warn (.keptOld error)) := by
    refine honest_done target (fun _ => still) (fun _ => rfl) ?_ fun role other there => ?_
    · simp [Run.warn, same, warnings]
    · cases role with
      | target => exact absurd rfl other
      | scratch =>
        rw [Run.warn, Tables.get, scratch] at there
        cases there
      | backup => exact ⟨.keptOld error, by simp [Run.warn], List.mem_singleton.mpr rfl⟩
  unfold dropBackup
  rw [drops]
  dsimp only
  cases fate : schedule.dropOld with
  | acknowledged =>
    rw [finish_acknowledged performed]
    exact honest_clean rfl (fun _ => kept.after false taken) warnings
  | refused error =>
    rw [finish_refused]
    exact named error _ (by simp [Run.next, Server.refuse, server]) (by simp [Run.next, Server.refuse, server])
      (kept.after false taken) rfl
  | lost error =>
    rw [finish_lost performed]
    exact named error _ rfl rfl (kept.after true taken) rfl

theorem mysql_swap (fresh : Fresh existed run) (schedule : Schedule) :
    Honest existed (swapTables schedule (Replacement.plan .mysql) existed run) ↔
      schedule.misleads .mysql existed = false := by
  cases existed with
  | false => exact install_swap fresh rfl rfl schedule
  | true =>
    have performed : Server.perform { committed := tablesBuilt true }
      (.rename [(.target, .backup), (.scratch, .target)]) =
        some { committed := { target := some .built, backup := some .existing } } := rfl
    change Honest true (afterSwap _ _ _ (swapSteps _ _ 0 [.rename [(.target, .backup), (.scratch, .target)]] _)) ↔
      (schedule.step 0).isLost = false
    obtain ⟨acknowledged, goes⟩ | ⟨-, settled⟩ :=
      first_rename fresh .mysql rfl performed (by simp [targetBefore]) schedule []
    · rw [goes, acknowledged]
      have ended : Honest true (.ok false, dropBackup schedule (Replacement.plan .mysql) true
          ((run.notice true).next { committed := { target := some .built, backup := some .existing } } false)) :=
        drop_backup rfl ((fresh.ready.kept rfl).next false (.inr rfl)) ⟨_, newest_moment _ _ _, rfl⟩
          fresh.notice_warnings rfl schedule
      exact iff_of_true ended rfl
    · exact settled

/-- The state between Trino's two renames: the old table is in the backup only. -/
structure Aside (run : Run) : Prop where
  server : run.server = { committed := { target := none, scratch := some .built, backup := some .existing } }
  kept : Kept run.moments
  warnings : run.warnings = [.replaced]
  sure : run.lost = false

theorem trino_putBack (schedule : Schedule) (run : Run) :
    putBack schedule (Replacement.plan .trino) 1 run =
      ((finishStatement schedule.clear (.rename [(.backup, .target)]) run).1.isOk,
        (finishStatement schedule.clear (.rename [(.backup, .target)]) run).2) := rfl

theorem failed_aside (put : putBack schedule plan index run = (false, after)) :
    failedStep schedule plan index run = after.warn .movedAside := by
  rw [failedStep, put]

/-- The end that could not put the old table back, when an answer was lost on the way. -/
theorem aside_honest (kept : Kept run.moments) (warnings : run.warnings = [.replaced]) (unsure : run.lost = true) :
    Honest true (outcome, run.warn .movedAside) := by
  refine ⟨fun _ => kept, fun sure => ?_, fun untouched => ?_⟩
  · rw [Run.warn, unsure] at sure
    cases sure
  · simp [Run.warn, warnings] at untouched

theorem undo_rename (aside : Aside run) (schedule : Schedule) (error : String) :
    Honest true (.error error, failedStep schedule (Replacement.plan .trino) 1 run) ↔
      schedule.clear.isRefused = false := by
  have performed : run.server.perform (.rename [(.backup, .target)]) = some { committed := tablesBuilt true } := by
    rw [aside.server]
    rfl
  have put := trino_putBack schedule run
  cases fate : schedule.clear with
  | acknowledged =>
    rw [fate, finish_acknowledged performed] at put
    have back : Ready true (run.next { committed := tablesBuilt true } false) :=
      ⟨rfl, fun _ => aside.kept.next false (.inl (.inl rfl)), by simp [Run.next, aside.warnings]⟩
    exact iff_of_true (back.failed (by simp [Run.next]) put error) rfl
  | refused why =>
    have refusal : run.server.refuse (.rename [(.backup, .target)]) = run.server := by
      rw [aside.server]
      rfl
    rw [fate, finish_refused, refusal] at put
    rw [failed_aside put]
    refine iff_of_false (fun honest => ?_) (by simp [Fate.isRefused])
    have said := (honest.told (by simp [Run.warn, Run.next, aside.sure])).replaced
      (by simp [Run.warn, Run.next, aside.warnings])
    simp [Run.warn, Run.next, aside.server] at said
  | lost why =>
    rw [fate, finish_lost performed] at put
    rw [failed_aside put]
    exact iff_of_true (aside_honest (aside.kept.next true (.inl (.inl rfl))) aside.warnings (by simp [Run.next])) rfl

theorem second_rename (aside : Aside run) (schedule : Schedule) :
    Honest true (afterSwap schedule (Replacement.plan .trino) true
      (swapSteps schedule (Replacement.plan .trino) 1 [.rename [(.scratch, .target)]] run)) ↔
        ((schedule.step 1).isRefused && schedule.clear.isRefused) = false := by
  have performed : run.server.perform (.rename [(.scratch, .target)]) =
      some { committed := { target := some .built, backup := some .existing } } := by
    rw [aside.server]
    rfl
  cases fate : schedule.step 1 with
  | acknowledged =>
    rw [swap_goes (by rw [fate]; exact finish_acknowledged performed)]
    have ended : Honest true (.ok false, dropBackup schedule (Replacement.plan .trino) true
        (run.next { committed := { target := some .built, backup := some .existing } } false)) :=
      drop_backup rfl (aside.kept.next false (.inr rfl)) ⟨_, newest_moment _ _ _, rfl⟩ aside.warnings rfl schedule
    exact iff_of_true ended rfl
  | refused error =>
    rw [swap_fails (by rw [fate]; exact finish_refused _ run error)]
    have refusal : run.server.refuse (.rename [(.scratch, .target)]) = run.server := by
      rw [aside.server]
      rfl
    have still : Aside (run.next run.server false) :=
      ⟨aside.server, aside.kept.next false (.inl (.inr (by rw [aside.server]))),
        aside.warnings, by simp [Run.next, aside.sure]⟩
    rw [refusal]
    exact undo_rename still schedule error
  | lost error =>
    rw [swap_fails (by rw [fate]; exact finish_lost performed error)]
    -- The target is taken, so the rename back is refused and both tables are named.
    have impossible :
        (run.next { committed := { target := some .built, backup := some .existing } } true).server.perform
          (.rename [(.backup, .target)]) = none := rfl
    obtain ⟨why, finished⟩ := finish_impossible impossible schedule.clear
    have put := trino_putBack schedule
      (run.next { committed := { target := some .built, backup := some .existing } } true)
    rw [finished] at put
    rw [afterSwap, failed_aside put]
    refine iff_of_true (aside_honest ?_ aside.warnings (by simp [Run.next])) rfl
    exact (aside.kept.next true (.inr rfl)).after false ⟨_, newest_moment _ _ _, rfl⟩

theorem trino_swap (fresh : Fresh existed run) (schedule : Schedule) :
    Honest existed (swapTables schedule (Replacement.plan .trino) existed run) ↔
      schedule.misleads .trino existed = false := by
  cases existed with
  | false => exact install_swap fresh rfl rfl schedule
  | true =>
    have performed : Server.perform { committed := tablesBuilt true } (.rename [(.target, .backup)]) =
        some { committed := { target := none, scratch := some .built, backup := some .existing } } := rfl
    change Honest true (afterSwap _ _ _ (swapSteps _ _ 0 [.rename [(.target, .backup)],
      .rename [(.scratch, .target)]] _)) ↔
      _
    obtain ⟨acknowledged, goes⟩ | ⟨other, settled⟩ :=
      first_rename fresh .trino rfl performed (by simp [targetBefore]) schedule
      [.rename [(.scratch, .target)]]
    · have aside : Aside ((run.notice true).next
          { committed := { target := none, scratch := some .built, backup := some .existing } } false) :=
        ⟨rfl, (fresh.ready.kept rfl).next false (.inl (.inr rfl)), fresh.notice_warnings, by
          simp [Run.next, Run.notice, Run.warn, fresh.sure]⟩
      rw [goes, second_rename aside schedule]
      simp [Schedule.misleads, Schedule.acknowledgedBefore, acknowledged, Fate.isLost]
    · rw [settled]
      simp [Schedule.misleads, Schedule.acknowledgedBefore, other]

theorem swap_honest_iff (fresh : Fresh existed run) (kind : DriverKind) (schedule : Schedule) :
    Honest existed (swapTables schedule (Replacement.plan kind) existed run) ↔
      schedule.misleads kind existed = false := by
  cases kind with
  | postgres => exact postgres_swap fresh schedule
  | mysql => exact mysql_swap fresh schedule
  | trino => exact trino_swap fresh schedule

/-- A state outside any transaction whose committed tables hold the user's table. -/
structure Before (existed : Bool) (run : Run) : Prop where
  outside : run.server.work = none
  target : run.server.committed.target = targetBefore existed
  backup : run.server.committed.backup = none
  kept : existed = true → Kept run.moments
  warnings : run.warnings = []

theorem Before.intact (before : Before existed run) : Intact existed run :=
  ⟨before.target, before.backup, by simp [before.outside], before.kept, by simp [before.warnings]⟩

theorem start_before (existed : Bool) : Before existed (Run.start existed) :=
  ⟨rfl, rfl, rfl, fun exists' => Each.concat each_nil (.inl (.inl (congrArg targetBefore exists'))), rfl⟩

theorem Before.next (before : Before existed run) (lost : Bool) (outside : server.work = none)
    (target : server.committed.target = targetBefore existed) (backup : server.committed.backup = none) :
    Before existed (run.next server lost) := by
  refine ⟨outside, target, backup, fun exists' => ?_, before.warnings⟩
  exact (before.kept exists').next lost (.inl (.inl (target.trans (congrArg targetBefore exists'))))

theorem perform_outside (quiet : statement = .createAs .scratch ∨ statement = .count) (outside : server.work = none) :
    server.perform statement = (server.committed.apply statement).map fun tables => { committed := tables } := by
  obtain ⟨committed, work⟩ := server
  cases outside
  rcases quiet with rfl | rfl <;> rfl

/-- The build and the probe leave the target alone. -/
theorem Before.finish (before : Before existed run) (quiet : statement = .createAs .scratch ∨ statement = .count)
    (fate : Fate) : Before existed (finishStatement fate statement run).2 := by
  have refusal (lost : Bool) : Before existed (run.next (run.server.refuse statement) lost) := by
    refine before.next lost ?_ before.target before.backup
    rw [Server.refuse, before.outside]
    split <;> rfl
  have performs (server : Server) (performed : run.server.perform statement = some server) (lost : Bool) :
      Before existed (run.next server lost) := by
    rw [perform_outside quiet before.outside] at performed
    obtain ⟨tables, applied, rfl⟩ := Option.map_eq_some_iff.mp performed
    rcases quiet with rfl | rfl
    · rw [Tables.apply] at applied
      split at applied
      · cases applied
        exact before.next lost rfl before.target before.backup
      · cases applied
    · cases applied
      exact before.next lost rfl before.target before.backup
  unfold finishStatement
  split
  · exact refusal false
  · next server performed =>
    cases fate with
    | acknowledged => exact performs server performed false
    | refused error => exact refusal false
    | lost error => exact performs server performed true

theorem build_acknowledged (existed : Bool) :
    finishStatement .acknowledged (.createAs .scratch) (Run.start existed) =
      (.ok (), (Run.start existed).next { committed := tablesBuilt existed } false) := rfl

theorem probe_found (existed : Bool) (plan : Replacement) (probe : plan.probe = .count)
    (answered : schedule.probe = .ok form) (server : run.server = { committed := tablesBuilt existed }) :
    tableExists schedule plan run = (.ok existed, run.next { committed := tablesBuilt existed } false) := by
  have found : run.server.committed.target.isSome = existed := by
    rw [server]
    cases existed <;> rfl
  have performed : run.server.perform .count = some { committed := tablesBuilt existed } := by
    rw [server]
    rfl
  rw [tableExists, answered]
  dsimp only
  rw [found, countsATable_value, probe, finish_acknowledged performed]
  rfl

theorem probe_failed (before : Before existed run) (plan : Replacement) (probe : plan.probe = .count)
    (failed : schedule.probe = .error error) :
    ∃ after, tableExists schedule plan run = (.error error, after) ∧ Before existed after := by
  refine ⟨_, ?_, before.finish (.inr rfl) (.refused error)⟩
  rw [tableExists, failed, probe]

/-- A `replace` is honest in every run, except where the one statement that puts the new
table in place, or moves the old one away, takes effect and its answer is lost, or where
Trino's second rename and the rename back are both refused. -/
theorem replace_honest_iff (kind : DriverKind) (existed : Bool) (schedule : Schedule) :
    Honest existed (replaceTable schedule (Replacement.plan kind) (Run.start existed)) ↔
      (schedule.swaps && schedule.misleads kind existed) = false := by
  have build : (Replacement.plan kind).build = .createAs .scratch := by cases kind <;> rfl
  have probe : (Replacement.plan kind).probe = .count := by cases kind <;> rfl
  have built := (start_before existed).finish (.inl rfl) schedule.build
  unfold replaceTable runStoppable
  rw [build]
  cases stop : schedule.stop with
  | executing =>
    exact iff_of_true (built.intact.leave schedule kind true (by simp)) (by simp [Schedule.swaps, stop])
  | reading drained =>
    exact iff_of_true (built.intact.leave schedule kind drained (by simp)) (by simp [Schedule.swaps, stop])
  | unseen =>
    by_cases acknowledged : schedule.build = .acknowledged
    swap
    · obtain ⟨error, failed⟩ := finish_fails acknowledged (.createAs .scratch) (Run.start existed)
      rw [failed]
      exact iff_of_true (built.intact.leave schedule kind true (fun clash => nomatch clash))
        (by simp [Schedule.swaps, acknowledged])
    rw [acknowledged, build_acknowledged] at built ⊢
    have reached : Before existed { (Run.start existed).next { committed := tablesBuilt existed } false with
        affected := schedule.count } := ⟨built.outside, built.target, built.backup, built.kept, built.warnings⟩
    dsimp only [Except.map]
    split
    · next cancelled =>
      have stopped : (.ok true : Except String Bool) ≠ .ok false := by simp
      exact iff_of_true (reached.intact.leave schedule kind true stopped) (by simp [Schedule.swaps, cancelled])
    · next going =>
      cases answered : schedule.probe with
      | error error =>
        obtain ⟨after, failed, before⟩ := probe_failed reached (Replacement.plan kind) probe answered
        rw [failed]
        exact iff_of_true (before.intact.leave schedule kind true (fun clash => nomatch clash))
          (by simp [Schedule.swaps, answered, Except.isOk, Except.toBool])
      | ok form =>
        rw [probe_found existed (Replacement.plan kind) probe answered rfl]
        have fresh : Fresh existed ({ (Run.start existed).next { committed := tablesBuilt existed } false with
            affected := schedule.count }.next { committed := tablesBuilt existed } false) :=
          ⟨rfl, (reached.next false rfl rfl rfl).kept, rfl, rfl⟩
        have swaps : schedule.swaps = true := by
          simp [Schedule.swaps, stop, acknowledged, going, answered, Except.isOk, Except.toBool]
        rw [swaps, Bool.true_and]
        exact swap_honest_iff fresh kind schedule

/-- The failing run: PostgreSQL's `COMMIT` takes effect and its answer is lost. -/
theorem lost_commit_misleads :
    ¬Honest true (replaceTable { step := fun index => if index = 3 then .lost "connection closed" else .acknowledged }
      (Replacement.plan .postgres) (Run.start true)) := by
  intro honest
  exact absurd (honest.untouched (by decide)) (by decide)

end QueryHive.Write
