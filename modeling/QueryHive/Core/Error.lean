import Mathlib.Data.Option.Basic
import QueryHive.Library.Text

/-! The errors every driver reports, and whether an operation that failed with one
may be tried again. -/
namespace QueryHive.Core

/-- Whether an operation may be tried again. -/
inductive FailureKind where
  | transient | permanent | cancelled
  deriving DecidableEq, Repr

inductive DriverKind where
  | postgres | mysql | trino
  deriving DecidableEq, Repr

/-- What can go wrong between a call and a row. Of a host-key refusal only the
sentence is kept. -/
inductive EngineError where
  | usage (message : String)
  | connect (message : String) (kind : FailureKind)
  | query (message : String) (code : Option String) (position : Option Nat) (kind : FailureKind)
  | staleHandle
  | timeout (message : String) (limitMs : Option Nat)
  | hostKey (message : String)
  | internal (message : String)
  deriving DecidableEq, Repr

namespace EngineError

/-- `failure_kind`. -/
def failureKind : EngineError → FailureKind
  | connect _ kind | query _ _ _ kind => kind
  | usage _ | internal _ | hostKey _ | timeout _ _ => .permanent
  | staleHandle => .cancelled

/-- `code`: the server's own code, when it answered with one. -/
def code : EngineError → Option String
  | query _ code _ _ => code
  | _ => none

/-- `produced_no_page`: nothing says the server read the request. -/
def producedNoPage : EngineError → Bool
  | connect _ _ => true
  | query _ code _ _ => code.isNone
  | _ => false

/-- `connection_lost`: the connection was lost rather than the server said no. -/
def connectionLost (error : EngineError) : Bool := error.producedNoPage && error.failureKind = .transient

/-- `statement_timeout`: the caller's bound, and the server's own sentence when it has one. -/
def statementTimeout (limitMs : Option Nat) (serverMessage : String) : EngineError :=
  let message := match limitMs with
    | some limit => "the statement exceeded the " ++ toString limit ++
        " ms statement timeout and was cancelled by the server"
    | none => "the statement was cancelled by the server because it exceeded a statement timeout"
  let said := Library.Text.trim serverMessage.toList
  .timeout (if said.isEmpty then message else message ++ ": " ++ String.ofList said) limitMs

theorem answered_of_transient {error : EngineError} (transient : error.failureKind = .transient)
    (kept : error.connectionLost = false) : error.code.isSome = true := by
  cases error with
  | query message code position kind =>
    cases code with
    | none => simp_all [connectionLost, producedNoPage]
    | some code => rfl
  | connect message kind => simp_all [connectionLost, producedNoPage]
  | _ => cases transient

end EngineError

/-- `line_span`: the characters before the line at `index`, and those in it. -/
def lineSpan (index before : Nat) : List (List Char) → Option (Nat × Nat)
  | [] => none
  | text :: rest =>
    if 2 ^ 32 ≤ text.length then none
    else match index with
      | 0 => some (before, text.length)
      | index + 1 =>
        if 2 ^ 32 ≤ before + text.length + 1 then none else lineSpan index (before + text.length + 1) rest

/-- `offset_of_line_column`: the 1-based offset of a 1-based line and column; one past the
end of a line is in it. -/
def offsetOfLineColumn (sql : List Char) (line column : Nat) : Option Nat :=
  if line = 0 then none
  else (lineSpan (line - 1) 0 (sql.splitOn '\n')).bind fun (before, width) =>
    if 1 ≤ column ∧ column ≤ width + 1 ∧ width + 1 < 2 ^ 32 then some (before + column) else none

end QueryHive.Core
