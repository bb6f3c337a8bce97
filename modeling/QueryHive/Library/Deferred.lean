import Mathlib.Logic.Function.Basic

/-! Deferred transactions of two connections to one value, as a write-ahead log runs them.
A transaction takes its snapshot at its first statement and the one write lock at its first
write. It cannot write after a snapshot that a commit has left behind, and nobody else sees
what it wrote before it commits. -/
namespace QueryHive.Library

universe u
variable {σ : Type u}

/-- The committed value, the commits so far, who holds the write lock with what it has
written, and the snapshots of the transactions that have only read. -/
structure Deferred (σ : Type u) where
  committed : σ
  commits : Nat := 0
  writer : Option (Bool × σ) := none
  snapshot : Bool → Option (Nat × σ) := fun _ => none

/-- What becomes of a request for the write lock. -/
inductive Grant (σ : Type u) where
  | granted (base : σ)
  | waits
  | conflict
  deriving DecidableEq

namespace Deferred

/-- What the transaction of a connection has written, when it holds the lock. -/
def held (log : Deferred σ) (who : Bool) : Option σ :=
  match log.writer with
  | some (x, working) => if x = who then some working else none
  | none => none

/-- What a statement that only reads sees in a transaction. -/
def view (log : Deferred σ) (who : Bool) : σ :=
  match log.held who, log.snapshot who with
  | some working, _ => working
  | none, some (_, value) => value
  | none, none => log.committed

/-- The lock for a statement that writes. A transaction waits for it as long as it has read
nothing; after a read it gets the lock at once, on its own snapshot, or not at all. -/
def acquire (log : Deferred σ) (who : Bool) : Grant σ :=
  match log.held who, log.snapshot who with
  | some working, _ => .granted working
  | none, some (seen, value) => if log.writer.isNone && seen == log.commits then .granted value else .conflict
  | none, none => if log.writer.isNone then .granted log.committed else .waits

/-- A read in a transaction, which takes the snapshot if it is the first statement. -/
def read (log : Deferred σ) (who : Bool) : Deferred σ :=
  match log.held who, log.snapshot who with
  | none, none => { log with snapshot := Function.update log.snapshot who (some (log.commits, log.committed)) }
  | _, _ => log

/-- A write of a transaction that was granted the lock. -/
def write (log : Deferred σ) (who : Bool) (working : σ) : Deferred σ :=
  { log with writer := some (who, working), snapshot := Function.update log.snapshot who none }

def rollback (log : Deferred σ) (who : Bool) : Deferred σ :=
  { log with
    writer := if (log.held who).isSome then none else log.writer
    snapshot := Function.update log.snapshot who none }

def commit (log : Deferred σ) (who : Bool) : Deferred σ :=
  match log.held who with
  | some working => { log.rollback who with committed := working, commits := log.commits + 1 }
  | none => log.rollback who

/-- A connection with no transaction, or with one that has run no statement. -/
def Idle (log : Deferred σ) (who : Bool) : Prop := log.held who = none ∧ log.snapshot who = none

/-- A snapshot is as old as the commits it has seen. -/
def Sound (log : Deferred σ) : Prop :=
  ∀ who seen value, log.snapshot who = some (seen, value) → seen ≤ log.commits ∧
    (seen = log.commits → value = log.committed)

/-- What a statement of `who` is to the other connection: nothing, or one commit. -/
inductive Seen (who : Bool) (before after : Deferred σ) : Prop
  | nothing (committed : after.committed = before.committed) (commits : after.commits = before.commits)
      (held : after.held (!who) = before.held (!who)) (snapshot : after.snapshot (!who) = before.snapshot (!who))
  | commit (working : σ) (wrote : before.held who = some working) (committed : after.committed = working)
      (commits : after.commits = before.commits + 1) (held : after.held (!who) = none)
      (snapshot : after.snapshot (!who) = before.snapshot (!who))

variable {log : Deferred σ} {who : Bool}

theorem other_ne (who : Bool) : (!who) ≠ who := by cases who <;> decide

theorem held_iff : log.held who = some working ↔ log.writer = some (who, working) := by
  unfold held
  split
  · next x value writer => by_cases same : x = who <;> simp [writer, same]
  · next writer => simp [writer]

/-- There is one write lock. -/
theorem held_other (held : log.held who = some working) : log.held (!who) = none := by
  simp [Deferred.held, held_iff.mp held]

theorem held_none (free : log.writer = none) : log.held who = none := by simp [held, free]

@[simp] theorem rollback_idle : (log.rollback who).Idle who := by
  constructor
  · unfold rollback held
    cases log.writer with
    | none => simp
    | some pair => by_cases same : pair.1 = who <;> simp [same]
  · exact Function.update_self ..

theorem rollback_seen (log : Deferred σ) (who : Bool) : Seen who log (log.rollback who) := by
  refine .nothing rfl rfl ?_ (Function.update_of_ne (other_ne who) ..)
  unfold rollback held
  cases log.writer with
  | none => simp
  | some pair => by_cases same : pair.1 = who <;> simp [same]

theorem read_seen (log : Deferred σ) (who : Bool) : Seen who log (log.read who) := by
  unfold read
  split
  · exact .nothing rfl rfl rfl (Function.update_of_ne (other_ne who) ..)
  · exact .nothing rfl rfl rfl rfl

@[simp] theorem write_held : (log.write who working).held who = some working := held_iff.mpr rfl

@[simp] theorem write_snapshot : (log.write who working).snapshot who = none := Function.update_self ..

theorem write_seen (granted : log.acquire who = .granted base) (working : σ) :
    Seen who log (log.write who working) := by
  have apart : log.held (!who) = none := by
    unfold acquire at granted
    split at granted
    · next held => exact held_other held
    · split at granted
      · next free => exact held_none (by simpa using (Bool.and_eq_true_iff.mp free).1)
      · cases granted
    · split at granted
      · next free => exact held_none (by simpa using free)
      · cases granted
  exact .nothing rfl rfl ((held_other write_held).trans apart.symm) (Function.update_of_ne (other_ne who) ..)

theorem commit_seen (held : log.held who = some working) :
    Seen who log (log.commit who) ∧ (log.commit who).Idle who ∧ (log.commit who).committed = working := by
  have after : log.commit who = { log.rollback who with committed := working, commits := log.commits + 1 } := by
    rw [commit, held]
  have idle : (log.commit who).Idle who := after ▸ rollback_idle
  refine ⟨.commit working held (by rw [after]) (by rw [after]) ?_ ?_, idle, by rw [after]⟩
  · have writer : (log.commit who).writer = none := by simp [after, rollback, held]
    exact held_none writer
  · rw [after]
    exact Function.update_of_ne (other_ne who) ..

/-- The lock is granted on the value that is committed, or on what the transaction has
written already. -/
theorem acquire_base (sound : log.Sound) (granted : log.acquire who = .granted base) :
    log.held who = some base ∨ log.held who = none ∧ base = log.committed := by
  unfold acquire at granted
  split at granted
  · next held =>
    cases granted
    exact .inl held
  · next seen value free snapshot =>
    split at granted
    · next fresh =>
      injection granted with isBase
      subst isBase
      exact .inr ⟨free, (sound who seen value snapshot).2 (by simpa using (Bool.and_eq_true_iff.mp fresh).2)⟩
    · cases granted
  · next free _ =>
    split at granted
    · cases granted
      exact .inr ⟨free, rfl⟩
    · cases granted

theorem Sound.rollback (sound : log.Sound) (who : Bool) : (log.rollback who).Sound := by
  intro x seen value snapshot
  by_cases same : x = who
  · subst same
    cases (@rollback_idle _ log _).2.symm.trans snapshot
  · exact sound x seen value ((Function.update_of_ne same ..).symm.trans snapshot)

theorem Sound.write (sound : log.Sound) (who : Bool) (working : σ) : (log.write who working).Sound := by
  intro x seen value snapshot
  by_cases same : x = who
  · subst same
    cases write_snapshot.symm.trans snapshot
  · exact sound x seen value ((Function.update_of_ne same ..).symm.trans snapshot)

theorem Sound.read (sound : log.Sound) (who : Bool) : (log.read who).Sound := by
  unfold Deferred.read
  split
  · intro x seen value snapshot
    by_cases same : x = who
    · subst same
      cases (Function.update_self x _ log.snapshot).symm.trans snapshot
      exact ⟨Nat.le_refl _, fun _ => rfl⟩
    · exact sound x seen value ((Function.update_of_ne same ..).symm.trans snapshot)
  · exact sound

theorem Sound.commit (sound : log.Sound) (who : Bool) : (log.commit who).Sound := by
  unfold Deferred.commit
  split
  · intro x seen value snapshot
    have earlier := (sound.rollback who x seen value snapshot).1
    exact ⟨Nat.le_succ_of_le earlier, fun same => absurd same (Nat.ne_of_lt (Nat.lt_succ_of_le earlier))⟩
  · exact sound.rollback who

end Deferred

end QueryHive.Library
