import QueryHive.Library.Program
import QueryHive.Library.Runs

/-! Two processes on one state, each with a list of calls to make. They take turns by
statements; run one after another they take turns by whole calls. Which of the two takes the
next turn is an action, so that a list of booleans is an interleaving, or a serial order. -/
namespace QueryHive.Library

universe u v w x y
variable {χ : Type y} {σ : Type u} {ω : Type v} {ε : Type w} {α : Type x}

/-- A process: the calls to come, the one it is in with what is left of it, and the results. -/
structure Process (χ : Type y) (σ : Type u) (ω : Type v) (ε : Type w) (α : Type x) where
  todo : List χ
  current : Option (χ × Program σ ω ε α) := none
  results : List (Except ε α) := []

/-- Both processes and the state they share. -/
structure Processes (χ : Type y) (σ : Type u) (ω : Type v) (ε : Type w) (α : Type x) where
  shared : σ
  process : Bool → Process χ σ ω ε α

namespace Process

variable (program : χ → Program σ ω ε α)

/-- The call of the next statement, what is left of it, and the calls after it. -/
def next (process : Process χ σ ω ε α) : Option (χ × Program σ ω ε α × List χ) :=
  match process.current, process.todo with
  | some (call, left), todo => some (call, left, todo)
  | none, call :: todo => some (call, program call, todo)
  | none, [] => none

def settle (call : χ) (todo : List χ) (results : List (Except ε α)) : Program σ ω ε α → Process χ σ ω ε α
  | .done result => ⟨todo, none, results ++ [.ok result]⟩
  | .fail error => ⟨todo, none, results ++ [.error error]⟩
  | left => ⟨todo, some (call, left), results⟩

/-- The writes that the call a process is in is certain to go on with. -/
def held (process : Process χ σ ω ε α) : List ω :=
  match process.current with
  | some (_, left) => left.pending
  | none => []

/-- Nothing is left to do. -/
def finished (process : Process χ σ ω ε α) : Bool := process.current.isNone && process.todo.isEmpty

end Process

namespace Processes

variable (program : χ → Program σ ω ε α) (exec : ω → σ → Except ε σ)

def statement (processes : Processes χ σ ω ε α) (who : Bool) : Option (Processes χ σ ω ε α) :=
  ((processes.process who).next program).map fun (call, left, todo) =>
    let (rest, shared) := left.advance exec processes.shared
    ⟨shared, Function.update processes.process who (Process.settle call todo (processes.process who).results rest)⟩

/-- One whole call of a process that is in none. -/
def whole (processes : Processes χ σ ω ε α) (who : Bool) : Option (Processes χ σ ω ε α) :=
  match processes.process who with
  | ⟨call :: todo, none, results⟩ =>
    let (result, shared) := (program call).run exec processes.shared
    some ⟨shared, Function.update processes.process who ⟨todo, none, results ++ [result]⟩⟩
  | _ => none

/-- The statement neither writes what the other process holds nor leaves the process holding
it: what it held before or holds after conflicts with nothing that the other one holds. -/
def Undisturbed (conflict : ω → ω → Prop) (processes : Processes χ σ ω ε α) (who : Bool) : Prop :=
  ∀ call left todo, (processes.process who).next program = some (call, left, todo) →
    ∀ mine ∈ left.pending ++ (left.advance exec processes.shared).1.pending,
      ∀ theirs ∈ (processes.process !who).held, ¬ conflict mine theirs

instance {conflict : ω → ω → Prop} [DecidableRel conflict] (processes : Processes χ σ ω ε α) (who : Bool) :
    Decidable (Undisturbed program exec conflict processes who) :=
  match next : (processes.process who).next program with
  | none => .isTrue fun _ _ _ same => nomatch next.symm.trans same
  | some (_, left, _) =>
    decidable_of_iff (∀ mine ∈ left.pending ++ (left.advance exec processes.shared).1.pending,
        ∀ theirs ∈ (processes.process !who).held, ¬ conflict mine theirs)
      ⟨fun apart _ _ _ same => by cases next.symm.trans same; exact apart, fun undisturbed => undisturbed _ _ _ next⟩

/-- The calls that a serial run has still to make. -/
def remaining (processes : Processes χ σ ω ε α) : Nat :=
  (processes.process false).todo.length + (processes.process true).todo.length

variable {program : χ → Program σ ω ε α} {exec : ω → σ → Except ε σ}

theorem remaining_whole {processes later : Processes χ σ ω ε α}
    (stepped : whole program exec processes who = some later) :
    later.remaining + 1 = processes.remaining := by
  simp only [whole] at stepped
  split at stepped
  · next call todo results isProcess =>
    cases stepped
    cases who <;> simp [remaining, isProcess, Function.update, Nat.add_right_comm, Nat.add_assoc]
  · cases stepped

theorem remaining_run {processes last : Processes χ σ ω ε α}
    (ran : Runs.run (whole program exec) processes order = some last) :
    last.remaining + order.length = processes.remaining := by
  induction order generalizing processes with
  | nil =>
    cases ran
    rfl
  | cons who rest ih =>
    obtain ⟨next, stepped, later⟩ := Runs.run_cons_some ran
    rw [← remaining_whole stepped, ← ih later, List.length_cons, Nat.add_assoc]

end Processes

end QueryHive.Library
