import QueryHive.Sql.Guard
import QueryHive.Storage.ExecutionLog

/-! What the guard writes into the execution log (`guard_confirmed` and `record_decision` of `commands.rs`, `record` of
`execution_log.rs`): a row for every statement it judges, up to the first that may not run. A row's id, its time and its
place in the chain are the storage's. -/
namespace QueryHive.Host.GuardLog
open QueryHive.Sql QueryHive.Storage

/-- What the log calls a decision. -/
inductive LogDecision where
  /-- Ran without asking. -/
  | allowed
  /-- A write the caller had already confirmed for this run. -/
  | confirmed
  /-- Did not run, and no confirmation would change that. -/
  | refused
  /-- Did not run because the caller had not confirmed it, and could have. -/
  | needsConfirmation
  deriving DecidableEq, Repr

def LogDecision.asStr : LogDecision → String
  | .allowed => "allowed"
  | .confirmed => "confirmed"
  | .refused => "refused"
  | .needsConfirmation => "needs_confirmation"

/-- `SafeMode::as_str`. -/
def modeAsStr : SafeMode → String
  | .full => "full"
  | .noDdl => "no_ddl"
  | .confirm => "confirm"
  | .readOnly => "read_only"

/-- `StatementKind::token`. -/
def kindToken : StatementKind → String
  | .readOnly => "read_only"
  | .dml => "dml"
  | .ddl => "ddl"
  | .unknown => "unknown"

/-- `StatementKind::label`. -/
def kindLabel : StatementKind → String
  | .readOnly => "read-only"
  | .dml => "a write"
  | .ddl => "DDL"
  | .unknown => "unclassified"

/-- The columns that a decision fills. -/
structure Row where
  safeMode : String
  decision : String
  statementKind : String
  statementIndex : Nat
  statementHash : ExecutionLog.Text
  reason : Option String
  deriving DecidableEq, Repr

inductive CliError where
  | usage (message : String)
  | storage
  deriving DecidableEq, Repr

def errorText : SafeModeError → String
  | .refused mode index kind reason statement =>
    "SAFE_MODE=" ++ modeAsStr mode ++ " refuses statement " ++ toString index ++ " (" ++ kindLabel kind ++
      "): " ++ reason ++
      ": " ++ statement
  | .needsConfirmation mode index kind reason statement =>
    "SAFE_MODE=" ++ modeAsStr mode ++ " requires confirmation for statement " ++ toString index ++ " (" ++
      kindLabel kind ++
      "): " ++ reason ++ ": " ++ statement

/-- The installed log, if there is one. -/
abbrev Sink := Option (List Row)

variable (crates : ExecutionLog.Crates) (fails : Nat → Bool)

def entryRow (mode : SafeMode) (decided : StatementDecision) (logged : LogDecision) (reason : Option String) : Row where
  safeMode := modeAsStr mode
  decision := logged.asStr
  statementKind := kindToken decided.kind
  statementIndex := min decided.index (2 ^ 63 - 1)
  statementHash := ExecutionLog.sha256Hex crates decided.statement
  reason := reason

/-- `record`. The append fails or not by how many rows are there. -/
def record (row : Row) : Sink → Except CliError Unit × Sink
  | none => (.ok (), none)
  | some rows => if fails rows.length then (.error .storage, some rows) else (.ok (), some (rows ++ [row]))

def logDecision (decision : Decision) : Option SafeModeError → LogDecision
  | none => if decision = .confirm then .confirmed else .allowed
  | some _ => if decision = .confirm then .needsConfirmation else .refused

/-- `record_decision`. -/
def recordDecision (mode : SafeMode) (confirmed : Bool) (decided : StatementDecision) (sink : Sink) :
    Except CliError (Option SafeModeError) × Sink :=
  let error := decided.refusalError mode confirmed
  let row := entryRow crates mode decided (logDecision decided.decision error) (error.bind fun _ => decided.reason)
  match record fails row sink with
  | (.error failed, sink) => (.error failed, sink)
  | (.ok (), sink) => (.ok error, sink)

/-- The loop of `guard_confirmed`. -/
def guardDecisions (mode : SafeMode) (confirmed : Bool) : List StatementDecision → Sink → Except CliError Unit × Sink
  | [], sink => (.ok (), sink)
  | decided :: rest, sink =>
    match recordDecision crates fails mode confirmed decided sink with
    | (.error failed, sink) => (.error failed, sink)
    | (.ok (some error), sink) => (.error (.usage (errorText error)), sink)
    | (.ok none, sink) => guardDecisions mode confirmed rest sink

/-- `guard_confirmed`. -/
def guardConfirmed (mode : SafeMode) (confirmed : Bool) (sql : List UInt8) (dialect : Dialect) (sink : Sink) :
    Except CliError Unit × Sink :=
  guardDecisions crates fails mode confirmed (decisionsReadings mode sql dialect.readings) sink

def ranRow (mode : SafeMode) (decided : StatementDecision) (index : Nat) : Row where
  safeMode := modeAsStr mode
  decision := (if decided.decision = .confirm then LogDecision.confirmed else .allowed).asStr
  statementKind := kindToken decided.kind
  statementIndex := min index (2 ^ 63 - 1)
  statementHash := ExecutionLog.sha256Hex crates decided.statement
  reason := none

def Row.saysRan (row : Row) : Prop := row.decision = LogDecision.allowed.asStr ∨
    row.decision = LogDecision.confirmed.asStr

/-- The rows added say that every statement ran, each by its own row, when the script passed, and of none when it was
refused. -/
def Truthful (mode : SafeMode) (decided : List StatementDecision) (rows : List Row)
    (judged : Except CliError Unit × Sink) : Prop :=
  ∃ added, judged.2 = some (rows ++ added) ∧
    if judged.1.isOk then added = decided.zipIdx.map fun (statement, offset) =>
      ranRow crates mode statement (offset + 1)
    else ∀ row ∈ added, ¬row.saysRan

/-- Nothing of a script runs, from its first statement on, or all of it does. -/
def AllOrNone (confirmed : Bool) (decided : List StatementDecision) : Prop :=
  (∀ statement ∈ decided.head?, statement.decision.runs confirmed = false) ∨
    ∀ statement ∈ decided, statement.decision.runs confirmed = true

section
variable (mode : SafeMode) {confirmed : Bool} {decided : StatementDecision}

theorem recordDecision_runs (runs : decided.decision.runs confirmed = true) (rows : List Row) :
    recordDecision crates (fun _ => false) mode confirmed decided (some rows) =
      (.ok none, some (rows ++ [ranRow crates mode decided decided.index])) := by
  have fine : decided.refusalError mode confirmed = none := (refusalError_eq_none decided mode confirmed).mpr runs
  rw [recordDecision, fine]
  rfl

theorem recordDecision_stops (stops : decided.decision.runs confirmed = false) (rows : List Row) :
    ∃ error row, recordDecision crates (fun _ => false) mode confirmed decided (some rows) =
      (.ok (some error), some (rows ++ [row])) ∧ ¬row.saysRan := by
  have raised : decided.refusalError mode confirmed ≠ none := fun fine => by
    rw [(refusalError_eq_none decided mode confirmed).mp fine] at stops
    cases stops
  obtain ⟨error, found⟩ := Option.ne_none_iff_exists'.mp raised
  rw [recordDecision, found]
  refine ⟨error, _, rfl, ?_⟩
  change ¬((if decided.decision = .confirm then LogDecision.needsConfirmation else .refused).asStr =
    LogDecision.allowed.asStr ∨
    (if decided.decision = .confirm then LogDecision.needsConfirmation else .refused).asStr =
    LogDecision.confirmed.asStr)
  cases decided.decision <;> decide

theorem guardDecisions_front {front : List StatementDecision}
    (runs : ∀ statement ∈ front, statement.decision.runs confirmed = true)
    (rest : List StatementDecision) (rows : List Row) :
    guardDecisions crates (fun _ => false) mode confirmed (front ++ rest) (some rows) =
      guardDecisions crates (fun _ => false) mode confirmed rest
        (some (rows ++ front.map fun statement => ranRow crates mode statement statement.index)) := by
  induction front generalizing rows with
  | nil => rw [List.map_nil, List.append_nil, List.nil_append]
  | cons first front ih =>
    have here := recordDecision_runs crates mode (runs first List.mem_cons_self) rows
    rw [List.cons_append, guardDecisions, here]
    dsimp only
    rw [ih fun statement inside => runs statement (List.mem_cons_of_mem _ inside), List.map_cons, List.append_assoc]
    rfl

theorem first_stop {decided : List StatementDecision}
    (some' : ¬∀ statement ∈ decided, statement.decision.runs confirmed = true) :
    ∃ front first rest, decided = front ++ first :: rest ∧
      (∀ statement ∈ front, statement.decision.runs confirmed = true) ∧
      first.decision.runs confirmed = false := by
  induction decided with
  | nil => exact absurd (fun _ inside => nomatch inside) some'
  | cons statement decided ih =>
    cases runs : statement.decision.runs confirmed with
    | false => exact ⟨[], statement, decided, rfl, fun _ inside => absurd inside List.not_mem_nil, runs⟩
    | true =>
      have later : ¬∀ other ∈ decided, other.decision.runs confirmed = true := fun all =>
        some' fun other inside => (List.mem_cons.mp inside).elim (fun same => same ▸ runs) (all other)
      obtain ⟨front, first, rest, split, before, stops⟩ := ih later
      refine ⟨statement :: front, first, rest, by rw [split, List.cons_append], fun other inside => ?_, stops⟩
      exact (List.mem_cons.mp inside).elim (fun same => same ▸ runs) (before other)

theorem ranRow_saysRan (decided : StatementDecision) (index : Nat) : (ranRow crates mode decided index).saysRan := by
  unfold ranRow Row.saysRan
  by_cases asked : decided.decision = .confirm
  · exact .inr (congrArg LogDecision.asStr (if_pos asked))
  · exact .inl (congrArg LogDecision.asStr (if_neg asked))

theorem truthful_iff (confirmed : Bool) {decided : List StatementDecision}
    (numbered : decided.zipIdx.map (fun (statement, offset) =>
      ranRow crates mode statement (offset + 1)) = decided.map fun statement =>
        ranRow crates mode statement statement.index)
    (rows : List Row) :
    Truthful crates mode decided rows (guardDecisions crates (fun _ => false) mode confirmed decided (some rows)) ↔
      AllOrNone confirmed decided := by
  by_cases all : ∀ statement ∈ decided, statement.decision.runs confirmed = true
  · have passed := guardDecisions_front crates mode all [] rows
    rw [List.append_nil] at passed
    rw [passed]
    exact iff_of_true ⟨_, rfl, numbered.symm⟩ (.inr all)
  · obtain ⟨front, first, rest, rfl, before, stops⟩ := first_stop all
    obtain ⟨error, row, recorded, silent⟩ := recordDecision_stops crates mode stops
      (rows ++ front.map fun statement => ranRow crates mode statement statement.index)
    rw [guardDecisions_front crates mode before, guardDecisions, recorded]
    dsimp only
    constructor
    · rintro ⟨added, same, none'⟩
      have same : rows ++ (front.map (fun statement => ranRow crates mode statement statement.index) ++ [row]) =
        rows ++ added := by
        rw [← List.append_assoc]
        exact Option.some.inj same
      cases List.append_cancel_left same
      -- The row of a statement before the first that does not run says that it ran.
      cases front with
      | nil => exact .inl fun statement head => Option.some.inj head ▸ stops
      | cons earlier front =>
        exact absurd (ranRow_saysRan crates mode earlier earlier.index) (none' _ List.mem_cons_self)
    · rintro (none' | every)
      · cases front with
        | nil =>
          refine ⟨[row], by rw [List.map_nil, List.append_nil], fun other inside => ?_⟩
          exact List.mem_singleton.mp inside ▸ silent
        | cons earlier front =>
          have runs := before earlier List.mem_cons_self
          rw [none' earlier rfl] at runs
          cases runs
      · exact absurd every all

theorem guardDecisions_ok {decided : List StatementDecision} {rows : List Row}
    (passed : (guardDecisions crates fails mode confirmed decided (some rows)).1 = .ok ()) :
    ∀ k < decided.length, fails (rows.length + k) = false := by
  induction decided generalizing rows with
  | nil => exact fun k below => absurd below (Nat.not_lt_zero k)
  | cons first decided ih =>
    rw [guardDecisions, recordDecision] at passed
    dsimp only [record] at passed
    cases failed : fails rows.length with
    | true =>
      rw [failed, if_pos rfl] at passed
      cases passed
    | false =>
      rw [failed, if_neg Bool.false_ne_true] at passed
      dsimp only at passed
      cases found : first.refusalError mode confirmed with
      | some error =>
        rw [found] at passed
        cases passed
      | none =>
        rw [found] at passed
        intro k below
        cases k with
        | zero => exact failed
        | succ k =>
          have later := ih passed k (Nat.lt_of_succ_lt_succ below)
          rw [List.length_append, List.length_singleton] at later
          rw [← Nat.add_assoc, Nat.add_right_comm]
          exact later

/-- The guard numbers the statements from one. -/
theorem decisionsReadings_index (mode : SafeMode) (sql : List UInt8) (readings : List Lexer) (k : Nat)
    (found : (decisionsReadings mode sql readings)[k]? = some decided) : decided.index = k + 1 := by
  unfold decisionsReadings at found
  dsimp only at found
  split at found
  · cases k with
    | zero =>
      cases found
      rfl
    | succ k => cases found
  · rw [List.getElem?_map, List.getElem?_zipIdx] at found
    obtain ⟨⟨statement, offset⟩, placed, rfl⟩ := Option.map_eq_some_iff.mp found
    obtain ⟨other, -, same⟩ := Option.map_eq_some_iff.mp placed
    cases same
    exact congrArg (· + 1) (Nat.zero_add k)

theorem zipIdx_ranRow (mode : SafeMode) {decided : List StatementDecision}
    (numbered : ∀ k statement, decided[k]? = some statement → statement.index = k + 1) :
    decided.zipIdx.map (fun (statement, offset) => ranRow crates mode statement (offset + 1)) =
      decided.map fun statement => ranRow crates mode statement statement.index := by
  refine List.ext_getElem? fun k => ?_
  rw [List.getElem?_map, List.getElem?_map, List.getElem?_zipIdx]
  cases found : decided[k]? with
  | none => rfl
  | some statement =>
    rw [Option.map_some, Option.map_some, Option.map_some, numbered k statement found, Nat.zero_add]

end

/-- The log says which statements ran exactly when nothing or everything of the script runs; and a guard whose append
fails does not pass. -/
theorem guard_log_truthful_iff (mode : SafeMode) (confirmed : Bool) (sql : List UInt8) (dialect : Dialect)
    (rows : List Row) :
    (Truthful crates mode (decisionsReadings mode sql dialect.readings) rows
        (guardConfirmed crates (fun _ => false) mode confirmed sql dialect (some rows)) ∧
      ∀ fails : Nat → Bool, ∀ k < (decisionsReadings mode sql dialect.readings).length, fails (rows.length + k) = true →
        (guardConfirmed crates fails mode confirmed sql dialect (some rows)).1 ≠ .ok ()) ↔
      AllOrNone confirmed (decisionsReadings mode sql dialect.readings) := by
  have numbered := zipIdx_ranRow crates mode fun k statement found =>
    decisionsReadings_index mode sql dialect.readings k found
  have told := truthful_iff crates mode confirmed numbered rows
  refine ⟨fun both => told.mp both.1, fun whole => ⟨told.mpr whole, fun fails k below failed passed => ?_⟩⟩
  have none' := guardDecisions_ok crates fails mode passed k below
  rw [failed] at none'
  cases none'

/-- A read is logged as allowed in a script that is refused for what comes after it. -/
theorem refused_read_allowed : ¬∀ (crates : ExecutionLog.Crates) (mode : SafeMode) (confirmed : Bool) (sql : List UInt8)
    (dialect : Dialect) (rows : List Row), Truthful crates mode (decisionsReadings mode sql dialect.readings) rows
      (guardConfirmed crates (fun _ => false) mode confirmed sql dialect (some rows)) := by
  intro every
  have told := every ExecutionLog.realCrates .readOnly false "SELECT 1; DROP TABLE t".toUTF8.toList .generic []
  have numbered := zipIdx_ranRow ExecutionLog.realCrates .readOnly fun k statement found =>
    decisionsReadings_index .readOnly "SELECT 1; DROP TABLE t".toUTF8.toList Dialect.generic.readings k found
  have whole := (truthful_iff ExecutionLog.realCrates .readOnly false numbered []).mp told
  revert whole
  unfold AllOrNone
  decide +kernel

end QueryHive.Host.GuardLog
