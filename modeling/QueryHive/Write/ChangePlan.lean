import Mathlib.Data.List.Basic

/-! `apply_changes`: a reviewed plan of statements, run in the plan's order and each checked against the rows that it
was expected to affect. Whatever the server answers and wherever the run is stopped, what the command says is so of the
table. -/
namespace QueryHive.Write.Apply

/-- `Parameter`. A float is kept by its bits. -/
inductive Parameter where
  | null
  | bool (value : Bool)
  | int (value : Int64)
  | uint (value : UInt64)
  | float (bits : UInt64)
  | text (value : String)
  deriving DecidableEq, Repr

/-- What is sent to the server. -/
structure Statement where
  sql : String
  parameters : List Parameter
  deriving DecidableEq, Repr

/-- `Change`. -/
structure Change extends Statement where
  expected : Option Int
  keyed : Bool
  deriving DecidableEq, Repr

/-- `verification_failed`. -/
def verificationFailed (keyed : Bool) (actual expected : Int) : Bool :=
  if keyed then actual > expected else actual ≠ expected

/-- `affected as i64`. -/
def asI64 (rows : UInt64) : Int := rows.toInt64.toInt

/-- The check of a count that the server reported against the one that was expected. -/
def Change.rejects (change : Change) (affected : Option UInt64) : Bool :=
  match affected, change.expected with
  | some rows, some expected => verificationFailed change.keyed (asI64 rows) expected
  | _, _ => false

/-- The table as the statements that are in it, those of the open transaction, and all that were performed. -/
structure Server where
  kept : List Statement
  pending : Option (List Statement)
  performed : List Statement
  deriving DecidableEq, Repr

/-- How a statement of the plan ends. A refused one may take its transaction with it; one whose answer is
lost was performed. -/
inductive Fate where
  | affected (rows : Option UInt64)
  | refused (error : String) (ended : Bool)
  | lost (error : String)
  deriving DecidableEq, Repr

/-- How `BEGIN`, `COMMIT` and `ROLLBACK` end: one that failed may have been performed. -/
inductive Call where
  | accepted
  | failed (error : String) (performed : Bool)
  deriving DecidableEq, Repr

def Call.performs : Call → Bool
  | accepted => true
  | failed _ performed => performed

namespace Server
variable (server : Server)

def perform (statement : Statement) : Server :=
  match server.pending with
  | none => { server with kept := server.kept ++ [statement], performed := server.performed ++ [statement] }
  | some pending =>
    { server with pending := some (pending ++ [statement]), performed := server.performed ++ [statement] }

def execute (statement : Statement) : Fate → Server
  | .affected _ | .lost _ => server.perform statement
  | .refused _ ended => if ended then { server with pending := none } else server

def begins (call : Call) : Server := if call.performs then { server with pending := some [] } else server

def commit (call : Call) : Server :=
  if call.performs then { server with kept := server.kept ++ server.pending.getD [], pending := none } else server

def rollback (call : Call) : Server := if call.performs then { server with pending := none } else server

/-- The session is closed, or dropped: an open transaction is undone. -/
def close : Server := { server with pending := none }

end Server

/-- `Disposition`. -/
inductive Disposition where
  | written
  | pendingInSessionTransaction
  deriving DecidableEq, Repr

/-- One entry of `statements` in the `done` event. -/
structure StatementResult where
  index : Nat
  affected : Option UInt64
  expected : Option Int
  deriving DecidableEq, Repr

/-- How the command ends: with its `done` event, cancelled, with `plan_failure`, or with another error. -/
inductive Ending where
  | done (applied : Nat) (statements : List StatementResult) (transaction : Bool)
  | cancelled (inTransaction rolledBack : Bool) (applied : Nat)
  | failed (inTransaction rolledBack : Bool) (applied total : Nat) (cause : String)
  | usage (message : String)
  | engine (message : String)
  | emitter
  deriving DecidableEq, Repr

/-- The disposition that `plan_failure` finds. -/
def disposition (inTransaction rolledBack : Bool) : Disposition :=
  if inTransaction && rolledBack then .pendingInSessionTransaction else .written

/-- How everything that a run meets ends: the guard's first refusal, the connection, each statement, the Stop that is
seen before one, and each event that is emitted. -/
structure Schedule where
  refusal : Option (Nat × String)
  opened : Except String Unit
  capable : Bool
  begins : Call
  cancelled : Nat → Bool
  statement : Nat → Fate
  emits : Nat → Bool
  rollback : Call
  commit : Call

section
variable (schedule : Schedule) (inTransaction : Bool) (total : Nat)

/-- `rollback`: whether the server undid the transaction, as far as it says. -/
def rollback (server : Server) : Bool × Server :=
  if inTransaction then (schedule.rollback = .accepted, server.rollback schedule.rollback) else (false, server)

/-- A change failed, or its count did. -/
def giveUp (applied : Nat) (cause : String) (server : Server) : Ending × Server :=
  let (rolledBack, server) := rollback schedule inTransaction server
  (.failed inTransaction rolledBack applied total cause, server.close)

def countCause (change : Change) (index : Nat) (actual expected : Int) : String :=
  "change " ++ toString (index + 1) ++ " of " ++ toString total ++ " affected " ++ toString actual ++
    " row(s) but the plan expected " ++ toString expected ++ " (" ++
    (if change.keyed then "keyed, and a keyed write must not match more than the row it was built from"
    else "keyless") ++ ")"

def conclude (applied : Nat) (results : List StatementResult) (server : Server) : Ending × Server :=
  let server' := if inTransaction then server.commit schedule.commit else server
  match inTransaction, schedule.commit with
  | true, .failed error _ => (.failed inTransaction false applied total ("COMMIT failed: " ++ error), server'.close)
  | _, _ =>
    if schedule.emits (total + 2) then (.done applied results inTransaction, server'.close)
    else (.emitter, server'.close)

def runChanges : List Change → Nat → Nat → List StatementResult → Server → Ending × Server
  | [], _, applied, results, server => conclude schedule inTransaction total applied results server
  | change :: changes, index, applied, results, server =>
    if schedule.cancelled index then
      let (rolledBack, server) := rollback schedule inTransaction server
      (.cancelled inTransaction rolledBack applied, server.close)
    else
      let server := server.execute change.toStatement (schedule.statement index)
      match schedule.statement index with
      | .refused error _ | .lost error =>
        giveUp schedule inTransaction total applied
          ("change " ++ toString (index + 1) ++ " of " ++ toString total ++ " failed: " ++ error) server
      | .affected affected =>
        if change.rejects affected then
          -- the statement completed, so it counts among those that ran
          giveUp schedule inTransaction total (applied + 1)
            (countCause total change index (asI64 (affected.getD 0)) (change.expected.getD 0)) server
        else if schedule.emits (index + 2) then
          runChanges changes (index + 1) (applied + 1) (results ++ [⟨index + 1, affected, change.expected⟩]) server
        else (.emitter, server.close)

end

/-- `apply_changes`, on the changes of a plan. -/
def applyChanges (schedule : Schedule) (wantTransaction : Bool) (changes : List Change) (server : Server) :
    Ending × Server :=
  if changes = [] then (.usage "CHANGES is empty: there is nothing to apply", server)
  else
    match schedule.refusal with
    | some (index, error) => (.usage ("change " ++ toString (index + 1) ++ " was refused: " ++ error), server)
    | none =>
      if !schedule.emits 0 then (.emitter, server)
      else
        match schedule.opened with
        | .error error => (.engine error, server)
        | .ok _ =>
          let inTransaction := wantTransaction && schedule.capable
          let server := if inTransaction then server.begins schedule.begins else server
          match inTransaction, schedule.begins with
          | true, .failed error _ => (.engine error, server.close)
          | _, _ =>
            if !schedule.emits 1 then (.emitter, server.close)
            else runChanges schedule inTransaction changes.length changes 0 0 [] server

/-- The error says that nothing of the plan is in the table. -/
def Ending.undone : Ending → Bool
  | .cancelled _ rolledBack _ => rolledBack
  | .failed inTransaction rolledBack _ _ _ => disposition inTransaction rolledBack = .pendingInSessionTransaction
  | .done _ _ _ | .usage _ | .engine _ | .emitter => false

/-- The number of statements that the message says had completed. -/
def Ending.completed : Ending → Option Nat
  | .cancelled _ rolledBack applied => if rolledBack then none else some applied
  | .failed _ _ applied _ _ => some applied
  | .done applied _ _ => some applied
  | .usage _ | .engine _ | .emitter => none

/-- The entries of the `done` event are those of the changes: each was acknowledged, with a count that its change
accepts. -/
def Reported (schedule : Schedule) (changes : List Change) (results : List StatementResult) : Prop :=
  results.length = changes.length ∧ ∀ (i : Nat) change result, changes[i]? = some change → results[i]? = some result →
    result.index = i + 1 ∧ result.expected = change.expected ∧ schedule.statement i = .affected result.affected ∧
      change.rejects result.affected = false

def statements (changes : List Change) : List Statement := changes.map Change.toStatement

/-- What the command says is so of the table, which held `before`. -/
structure Truthful (schedule : Schedule) (changes : List Change) (before : List Statement) (inTransaction : Bool)
    (ended : Ending × Server) : Prop where
  done : ∀ applied results transaction, ended.1 = .done applied results transaction →
    ended.2.kept = before ++ statements changes ∧ applied = changes.length ∧ transaction = inTransaction ∧
      Reported schedule changes results
  undone : ended.1.undone = true → ended.2.kept = before
  completed : ∀ n, ended.1.completed = some n → n ≤ changes.length ∧
    (ended.2.performed = statements (changes.take n) ∨
      (∃ error, schedule.statement n = .lost error) ∧ ended.2.performed = statements (changes.take (n + 1)))
  once : ended.2.performed <+: statements changes
  outside : inTransaction = false → ended.2.kept = before ++ ended.2.performed
  inside : inTransaction = true → ended.2.kept = before ∨ ended.2.kept = before ++ statements changes

def Server.after (before : List Statement) (inTransaction : Bool) (ran : List Statement) : Server :=
  if inTransaction then ⟨before, some ran, ran⟩ else ⟨before ++ ran, none, ran⟩

section
variable {schedule : Schedule} {changes rest : List Change} {before : List Statement} {inTransaction : Bool}
  {ending : Ending}

theorem perform_after (before ran : List Statement) (inTransaction : Bool) (statement : Statement) :
    (Server.after before inTransaction ran).perform statement =
    Server.after before inTransaction (ran ++ [statement]) := by
  cases inTransaction with
  | true => rfl
  | false => simp only [Server.after, Server.perform, Bool.false_eq_true, if_false, List.append_assoc]

/-- Closing the session undoes what a rollback does, and more surely. -/
theorem close_rollback (schedule : Schedule) (inTransaction : Bool) (server : Server) :
    (rollback schedule inTransaction server).2.close = server.close := by
  unfold rollback Server.rollback
  split
  · dsimp only
    split <;> rfl
  · rfl

theorem rollback_said {server : Server} (said : (rollback schedule inTransaction server).1 = true) :
    inTransaction = true := by
  cases inTransaction with
  | true => rfl
  | false => exact said

theorem close_refused (server : Server) (statement : Statement) (error : String) (ended : Bool) :
    (server.execute statement (.refused error ended)).close = server.close := by
  cases ended <;> rfl

theorem performed_after (before ran : List Statement) (inTransaction : Bool) :
    (Server.after before inTransaction ran).close.performed = ran := by
  cases inTransaction <;> rfl

theorem kept_after (before ran : List Statement) (inTransaction : Bool) :
    (Server.after before inTransaction ran).close.kept = before ++ if inTransaction then [] else ran := by
  cases inTransaction with
  | true => exact (List.append_nil before).symm
  | false => rfl

theorem statements_take (changes : List Change) (n : Nat) : statements (changes.take n) <+: statements changes :=
  (List.take_prefix n changes).map Change.toStatement

theorem statements_succ {change : Change} (here : changes[n]? = some change) :
    statements (changes.take (n + 1)) = statements (changes.take n) ++ [change.toStatement] := by
  rw [List.take_add_one, here, statements, List.map_append]
  rfl

/-- A plan that stopped after so many statements is told of truly when the count is right and only a transaction is said
to be undone. -/
theorem truthful_stopped (stopped : ∀ applied results transaction, ending ≠ .done applied results transaction)
    (undone : ending.undone = true → inTransaction = true)
    (completed : ∀ n, ending.completed = some n → n ≤ changes.length ∧
      (n = m ∨ (∃ error, schedule.statement n = .lost error) ∧ m = n + 1)) :
    Truthful schedule changes before inTransaction
      (ending, (Server.after before inTransaction (statements (changes.take m))).close) where
  done := fun applied results transaction same => absurd same (stopped applied results transaction)
  undone := fun said => by rw [kept_after, if_pos (undone said), List.append_nil]
  completed := fun n same => by
    obtain ⟨bound, which⟩ := completed n same
    refine ⟨bound, which.imp (fun same => ?_) (And.imp_right fun same => ?_)⟩
    · rw [performed_after, same]
    · rw [performed_after, same]
  once := by
    rw [performed_after]
    exact statements_take changes m
  outside := fun out => by rw [kept_after, performed_after, out, if_neg Bool.false_ne_true]
  inside := fun within => .inl (by rw [kept_after, if_pos within, List.append_nil])

theorem reported_succ {results : List StatementResult} {change : Change}
    (reported : Reported schedule (changes.take n) results)
    (here : changes[n]? = some change) (fate : schedule.statement n = .affected affected)
    (accepts : change.rejects affected = false) :
    Reported schedule (changes.take (n + 1)) (results ++ [⟨n + 1, affected, change.expected⟩]) := by
  have inside := (List.getElem?_eq_some_iff.mp here).1
  have size : results.length = n := by
    rw [reported.1, List.length_take]
    omega
  refine ⟨by rw [List.length_append, size, List.length_take, List.length_singleton]; omega,
    fun i other result found place => ?_⟩
  rw [List.getElem?_append] at place
  split at place
  · next early =>
    refine reported.2 i other result ?_ place
    rw [List.getElem?_take] at found ⊢
    rw [if_pos (size ▸ early)]
    split at found
    · exact found
    · cases found
  · next late =>
    obtain ⟨last, _⟩ := List.getElem?_eq_some_iff.mp place
    rw [List.length_singleton] at last
    obtain rfl : i = n := by omega
    rw [size, Nat.sub_self] at place
    cases place
    rw [List.getElem?_take, if_pos (Nat.lt_succ_self i), here] at found
    cases found
    exact ⟨rfl, rfl, fate, accepts⟩

theorem truthful_giveUp {server : Server}
    (found : server.close = (Server.after before inTransaction (statements (changes.take m))).close)
    (bound : n ≤ changes.length) (which : n = m ∨ (∃ error, schedule.statement n = .lost error) ∧ m = n + 1)
    (cause : String) :
    Truthful schedule changes before inTransaction (giveUp schedule inTransaction changes.length n cause server) := by
  rw [giveUp]
  cases undid : rollback schedule inTransaction server with
  | mk rolledBack server' =>
    have closed : server'.close = server.close := by
      have same := close_rollback schedule inTransaction server
      rwa [undid] at same
    dsimp only
    rw [closed, found]
    refine truthful_stopped (fun _ _ _ => Ending.noConfusion) (fun said => ?_) fun k same => ?_
    · unfold Ending.undone disposition at said
      cases inTransaction with
      | true => rfl
      | false => exact absurd said Bool.false_ne_true
    · cases same
      exact ⟨bound, which⟩

/-- A plan whose statements all ran is told of truly when the table has what is said of it. -/
theorem truthful_ran {server : Server} (performed : server.performed = statements changes)
    (kept : server.kept = before ++ statements changes ∨ inTransaction = true ∧ server.kept = before)
    (silent : ending.undone = false) (completed : ∀ n, ending.completed = some n → n = changes.length)
    (done : ∀ applied results transaction, ending = .done applied results transaction →
      server.kept = before ++ statements changes ∧ applied = changes.length ∧ transaction = inTransaction ∧
        Reported schedule changes results) : Truthful schedule changes before inTransaction (ending, server) where
  done := done
  undone := fun said => absurd (silent.symm.trans said) Bool.false_ne_true
  completed := fun n same => by
    rw [completed n same]
    exact ⟨Nat.le_refl _, .inl (by rw [List.take_length, performed])⟩
  once := performed ▸ List.prefix_refl _
  outside := fun out => kept.elim (fun whole => by rw [whole, performed]) fun within =>
    absurd (out.symm.trans within.1) Bool.false_ne_true
  inside := fun _ => kept.elim .inr fun within => .inl within.2

theorem truthful_conclude (reported : Reported schedule changes results) :
    Truthful schedule changes before inTransaction
    (conclude schedule inTransaction changes.length changes.length results
      (Server.after before inTransaction (statements changes))) := by
  have told {server : Server} (performed : server.performed = statements changes)
      (kept : server.kept = before ++ statements changes) : Truthful schedule changes before inTransaction
        (if schedule.emits (changes.length + 2) then (.done changes.length results inTransaction, server)
        else (.emitter, server)) := by
    split
    · refine truthful_ran performed (.inl kept) rfl (fun _ same => (Option.some.inj same).symm) fun _ _ _ same => ?_
      cases same
      exact ⟨kept, rfl, rfl, reported⟩
    · exact truthful_ran performed (.inl kept) rfl (fun _ none' => by cases none') fun _ _ _ other => by cases other
  cases inTransaction with
  | false => exact told rfl rfl
  | true =>
    cases answer : schedule.commit with
    | accepted =>
      simp only [conclude, answer]
      exact told rfl rfl
    | failed error performed =>
      simp only [conclude, answer]
      refine truthful_ran ?_ ?_ rfl (fun _ same => (Option.some.inj same).symm) fun _ _ _ other => by cases other
      · cases performed <;> rfl
      · cases performed with
        | true => exact .inl rfl
        | false => exact .inr ⟨rfl, rfl⟩

theorem truthful_runChanges {results : List StatementResult} (split : changes.drop n = rest)
    (bound : n ≤ changes.length)
    (reported : Reported schedule (changes.take n) results) : Truthful schedule changes before inTransaction
      (runChanges schedule inTransaction changes.length rest n n results
        (Server.after before inTransaction (statements (changes.take n)))) := by
  induction rest generalizing n results with
  | nil =>
    have all : changes.length = n := Nat.le_antisymm (List.drop_eq_nil_iff.mp split) bound
    subst all
    rw [List.take_length] at reported ⊢
    exact truthful_conclude reported
  | cons change rest ih =>
    have here : changes[n]? = some change := by
      rw [← List.head?_drop, split]
      rfl
    have inside : n < changes.length := (List.getElem?_eq_some_iff.mp here).1
    have after := perform_after before (statements (changes.take n)) inTransaction change.toStatement
    rw [← statements_succ here] at after
    rw [runChanges]
    split
    · cases undid : rollback schedule inTransaction
        (Server.after before inTransaction (statements (changes.take n))) with
      | mk rolledBack server' =>
        have closed := close_rollback schedule inTransaction
          (Server.after before inTransaction (statements (changes.take n)))
        rw [undid] at closed
        dsimp only at closed ⊢
        rw [closed]
        refine truthful_stopped (fun _ _ _ => Ending.noConfusion) (fun said => ?_) fun k same => ?_
        · exact rollback_said (congrArg Prod.fst undid |>.trans said)
        · unfold Ending.completed at same
          dsimp only at same
          split at same
          · cases same
          · cases same
            exact ⟨bound, .inl rfl⟩
    · dsimp only
      split
      · next error ended fate =>
        exact truthful_giveUp (m := n) (by rw [fate, close_refused]) bound (.inl rfl) _
      · next error fate =>
        refine truthful_giveUp (m := n + 1) ?_ bound (.inr ⟨⟨error, fate⟩, rfl⟩) _
        rw [fate]
        exact congrArg Server.close after
      · next affected fate =>
        have ran : (Server.after before inTransaction (statements (changes.take n))).execute change.toStatement
            (schedule.statement n) = Server.after before inTransaction (statements (changes.take (n + 1))) := by
          rw [fate]
          exact after
        rw [ran]
        split
        · exact truthful_giveUp rfl inside (.inl rfl) _
        · next accepts =>
          split
          · refine ih (by rw [← List.drop_drop, split]; rfl) inside (reported_succ reported here fate ?_)
            exact Bool.eq_false_iff.mpr accepts
          · exact truthful_stopped (fun _ _ _ => Ending.noConfusion) (fun said => (Bool.false_ne_true said).elim)
              fun _ none' => by cases none'

/-- Whatever the guard, the connection, the server and a Stop do, what the command says is so of the table. -/
theorem applyChanges_truthful (schedule : Schedule) (wantTransaction : Bool) (changes : List Change)
    (before : List Statement) :
    Truthful schedule changes before (wantTransaction && schedule.capable)
      (applyChanges schedule wantTransaction changes ⟨before, none, []⟩) := by
  generalize inTransaction_ : (wantTransaction && schedule.capable) = inTransaction
  have untouched (ending : Ending) (other : ∀ applied results transaction, ending ≠ .done applied results transaction)
      (silent : ending.undone = false) (uncounted : ending.completed = none) :
      Truthful schedule changes before inTransaction (ending, ⟨before, none, []⟩) := by
    have stopped : Truthful schedule changes before inTransaction
        (ending, (Server.after before inTransaction (statements (changes.take 0))).close) :=
      truthful_stopped other (fun said => absurd (silent.symm.trans said) Bool.false_ne_true) fun n same => by
        rw [uncounted] at same
        cases same
    have same : (Server.after before inTransaction (statements (changes.take 0))).close = ⟨before, none, []⟩ := by
      cases inTransaction with
      | true => rfl
      | false => exact congrArg (Server.mk · none []) (List.append_nil before)
    rwa [same] at stopped
  have started : Truthful schedule changes before inTransaction
    (runChanges schedule inTransaction changes.length changes 0 0 []
      (Server.after before inTransaction [])) :=
    truthful_runChanges rfl (Nat.zero_le _) ⟨rfl, fun _ _ _ none' => nomatch none'⟩
  unfold applyChanges
  rw [inTransaction_]
  split
  · exact untouched _ (fun _ _ _ => Ending.noConfusion) rfl rfl
  · split
    · exact untouched _ (fun _ _ _ => Ending.noConfusion) rfl rfl
    · split
      · exact untouched _ (fun _ _ _ => Ending.noConfusion) rfl rfl
      · split
        · exact untouched _ (fun _ _ _ => Ending.noConfusion) rfl rfl
        · cases inTransaction with
          | false =>
            dsimp only
            split
            · exact untouched _ (fun _ _ _ => Ending.noConfusion) rfl rfl
            · have same : Server.after before false [] = ⟨before, none, []⟩ :=
                congrArg (Server.mk · none []) (List.append_nil before)
              rwa [same] at started
          | true =>
            cases answer : schedule.begins with
            | accepted =>
              dsimp only
              split
              · exact untouched _ (fun _ _ _ => Ending.noConfusion) rfl rfl
              · exact started
            | failed error performed =>
              cases performed <;> exact untouched _ (fun _ _ _ => Ending.noConfusion) rfl rfl

end

end QueryHive.Write.Apply
