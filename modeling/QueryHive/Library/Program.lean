import Mathlib.Data.List.Basic

/-! Programs of atomic statements over a shared state. A statement either looks at the
state, and the program goes on from what it saw, or it writes, and the program goes on when
the write was accepted and ends with its error when it was refused. -/
namespace QueryHive.Library

universe u v w x
variable {σ : Type u} {ω : Type v} {ε : Type w} {α : Type x}

inductive Program (σ : Type u) (ω : Type v) (ε : Type w) (α : Type x) where
  | done (result : α)
  | fail (error : ε)
  | read (next : σ → Program σ ω ε α)
  | write (statement : ω) (next : Program σ ω ε α)

namespace Program

/-- Several writes, one after another. -/
def writeAll (statements : List ω) (next : Program σ ω ε α) : Program σ ω ε α := statements.foldr write next

/-- The program run alone from a state: how it ends, and the state it leaves. -/
def run (exec : ω → σ → Except ε σ) : Program σ ω ε α → σ → Except ε α × σ
  | done result, s => (.ok result, s)
  | fail error, s => (.error error, s)
  | read next, s => run exec (next s) s
  | write statement next, s =>
    match exec statement s with
    | .ok later => run exec next later
    | .error error => (.error error, s)

/-- One statement of the program, the first one: what is left of the program, and the state. -/
def advance (exec : ω → σ → Except ε σ) : Program σ ω ε α → σ → Program σ ω ε α × σ
  | done result, s => (done result, s)
  | fail error, s => (fail error, s)
  | read next, s => (next s, s)
  | write statement next, s =>
    match exec statement s with
    | .ok later => (next, later)
    | .error error => (fail error, s)

/-- The writes that a program is certain to go on with. -/
def pending : Program σ ω ε α → List ω
  | write statement next => statement :: pending next
  | _ => []

/-- What the program would write and how it would end if all its reads were of one state. -/
def plan : Program σ ω ε α → σ → List ω × Except ε α
  | done result, _ => ([], .ok result)
  | fail error, _ => ([], .error error)
  | read next, s => plan (next s) s
  | write statement next, s => (statement :: (plan next s).1, (plan next s).2)

def map {β : Type x} (f : α → β) : Program σ ω ε α → Program σ ω ε β
  | done result => done (f result)
  | fail error => fail error
  | read next => read fun s => map f (next s)
  | write statement next => write statement (map f next)

variable {exec : ω → σ → Except ε σ}

theorem plan_done (result : α) (s : σ) : (done result : Program σ ω ε α).plan s = ([], .ok result) := rfl

theorem plan_read (next : σ → Program σ ω ε α) (s : σ) : (read next).plan s = (next s).plan s := rfl

theorem plan_write (statement : ω) (next : Program σ ω ε α) (s : σ) :
    (write statement next).plan s = (statement :: (next.plan s).1, (next.plan s).2) := rfl

theorem map_done {β : Type x} (f : α → β) (result : α) : (done result : Program σ ω ε α).map f = done (f result) := rfl

theorem map_read {β : Type x} (f : α → β) (next : σ → Program σ ω ε α) :
    (read next).map f = read fun s => (next s).map f := rfl

theorem map_write {β : Type x} (f : α → β) (statement : ω) (next : Program σ ω ε α) :
    (write statement next).map f = write statement (next.map f) := rfl

@[simp] theorem map_writeAll {β : Type x} (f : α → β) (statements : List ω) (next : Program σ ω ε α) :
    (writeAll statements next).map f = writeAll statements (next.map f) := by
  induction statements with
  | nil => rfl
  | cons statement rest ih => exact congrArg (write statement) ih

@[simp] theorem pending_writeAll (statements : List ω) (result : α) :
    (writeAll statements (done result : Program σ ω ε α)).pending = statements := by
  induction statements with
  | nil => rfl
  | cons statement rest ih => exact congrArg (statement :: ·) ih

@[simp] theorem plan_writeAll (statements : List ω) (result : α) (s : σ) :
    (writeAll statements (done result : Program σ ω ε α)).plan s = (statements, .ok result) := by
  induction statements with
  | nil => rfl
  | cons statement rest ih =>
    change (statement :: ((writeAll rest (done result)).plan s).1, ((writeAll rest (done result)).plan s).2) = _
    rw [ih]

@[simp] theorem run_done : run exec (done result : Program σ ω ε α) s = (.ok result, s) := rfl

@[simp] theorem run_fail : run exec (fail error : Program σ ω ε α) s = (.error error, s) := rfl

@[simp] theorem run_read : run exec (read next : Program σ ω ε α) s = run exec (next s) s := rfl

theorem run_write_ok (accepted : exec statement s = .ok later) :
    run exec (write statement next : Program σ ω ε α) s = run exec next later := by
  rw [run, accepted]

theorem advance_write_ok (accepted : exec statement s = .ok later) :
    advance exec (write statement next : Program σ ω ε α) s = (next, later) := by
  rw [advance, accepted]

theorem writeAll_cons (statement : ω) (rest : List ω) (next : Program σ ω ε α) :
    writeAll (statement :: rest) next = write statement (writeAll rest next) := rfl

theorem run_write_error (refused : exec statement s = .error error) :
    run exec (write statement next : Program σ ω ε α) s = (.error error, s) := by
  rw [run, refused]

/-- Programs that write only after all their reads. -/
inductive ReadsFirst : Program σ ω ε α → Prop
  | read (later : ∀ s, ReadsFirst (next s)) : ReadsFirst (read next)
  | writes (statements : List ω) (result : α) : ReadsFirst (writeAll statements (done result))

/-- Run alone, such a program writes what it plans in the state it finds. -/
theorem ReadsFirst.run {program : Program σ ω ε α} (readsFirst : ReadsFirst program)
    (planned : program.plan s = (statements, .ok result)) :
    program.run exec s = (writeAll statements (done result)).run exec s := by
  induction readsFirst with
  | read _ ih => exact ih s planned
  | writes =>
    rw [plan_writeAll] at planned
    cases planned
    rfl

/-- What every accepted write of a program keeps, the whole program keeps: `Writes` says of
a program, in the state it has come to, that its writes are such. -/
inductive Writes (exec : ω → σ → Except ε σ) (ok : σ → ω → Prop) : Program σ ω ε α → σ → Prop
  | done : Writes exec ok (done result) s
  | fail : Writes exec ok (fail error) s
  | read (later : Writes exec ok (next s) s) : Writes exec ok (read next) s
  | write (met : ok s statement) (later : ∀ after, exec statement s = .ok after → Writes exec ok next after) :
      Writes exec ok (write statement next) s

/-- A reflexive and transitive relation that every write keeps holds between the states
before and after the program. -/
theorem Writes.run {ok : σ → ω → Prop} {rel : σ → σ → Prop} {program : Program σ ω ε α}
    (writes : Writes exec ok program s) (refl : ∀ s, rel s s) (trans : ∀ {a b c}, rel a b → rel b c → rel a c)
    (kept : ∀ {s statement after}, ok s statement → exec statement s = .ok after → rel s after) :
    rel s (program.run exec s).2 := by
  induction writes with
  | done => exact refl _
  | fail => exact refl _
  | read _ ih => exact ih
  | @write s statement next met later ih =>
    cases outcome : exec statement s with
    | ok after =>
      rw [run_write_ok outcome]
      exact trans (kept met outcome) (ih after outcome)
    | error error =>
      rw [run_write_error outcome]
      exact refl _

/-- Several writes, each in the state that the ones before it left. -/
theorem Writes.all {ok : σ → ω → Prop} {next : Program σ ω ε α} {Inv : List ω → σ → Prop}
    (met : ∀ {statement rest s}, Inv (statement :: rest) s → ok s statement)
    (kept : ∀ {statement rest s after}, Inv (statement :: rest) s → exec statement s = .ok after → Inv rest after)
    (last : ∀ {s}, Inv [] s → Writes exec ok next s) (inv : Inv statements s) :
    Writes exec ok (writeAll statements next) s := by
  induction statements generalizing s with
  | nil => exact last inv
  | cons statement rest ih => exact .write (met inv) fun after accepted => ih (kept inv accepted)

end Program

end QueryHive.Library
