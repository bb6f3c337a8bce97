import QueryHive.Library.Text
import QueryHive.Sql.Classify

/-! The Safe Mode guard of `classify.rs`: what a mode decides about every statement of a
script, read under one lexer or under all the lexers its server may be using, and the check
that refuses a script for its first statement that may not run. A guard over several lexers
decides on the statements they agree on, each with the strictest kind any of them gives. -/
namespace QueryHive.Sql
open QueryHive.Library

/-- `SafeMode::refusal`: why the mode will not run a statement of this kind as it is. -/
def SafeMode.refusal (mode : SafeMode) (kind : StatementKind) : Option String :=
  match mode.decision kind with
  | .allow => none
  | .confirm =>
    some "writing runs on a confirm connection only after an explicit confirmation (SAFE_MODE_CONFIRMED=1)"
  | .refuse =>
    match mode, kind with
    | .noDdl, _ => some "DDL is not allowed on a connection whose Safe Mode is no_ddl"
    | .confirm, .ddl => some "DDL is not allowed on a connection whose Safe Mode is confirm"
    | .confirm, _ =>
      some ("the classifier could not tell whether this statement is read-only, and " ++
        "a confirm connection refuses an unclassified statement")
    | .readOnly, .dml => some "writing is not allowed on a read-only connection"
    | .readOnly, .ddl => some "DDL is not allowed on a read-only connection"
    | .readOnly, _ =>
      some ("the classifier could not tell whether this statement is read-only, and " ++
        "a read-only connection refuses an unclassified statement")
    | .full, _ => none

/-- `ambiguous_reason`: the readings differ. -/
def ambiguousReason (mode : SafeMode) (postgres : Bool) : Option String :=
  let cause :=
    if postgres then
      "PostgreSQL reads a backslash in a plain string differently depending on " ++
        "standard_conforming_strings (write a quote inside a string as '' instead of \\', or use an E'' string), and "
    else
      "MySQL string escaping and comments depend on the server's sql_mode (write a quote " ++
        "inside a string as '' instead of \\' and avoid unusual comments), and "
  let worded (who : String) :=
    some ("the classifier could not tell where this statement ends or what it does, because " ++ cause ++ who ++
      " refuses an unclassified statement")
  match mode with
  | .full => none
  | .noDdl => worded "a no_ddl connection"
  | .confirm => worded "a confirm connection"
  | .readOnly => worded "a read-only connection"

structure StatementDecision where
  /-- From one. -/
  index : Nat
  kind : StatementKind
  statement : List UInt8
  decision : Decision
  reason : Option String
  deriving DecidableEq, Repr

/-- `decisions_dialect`. -/
def decisionsDialect (mode : SafeMode) (sql : List UInt8) (lexer : Lexer) : List StatementDecision :=
  (statements lexer sql).zipIdx.map fun (statement, offset) =>
    let kind := classify lexer statement
    { index := offset + 1, kind, statement, decision := mode.decision kind, reason := mode.refusal kind }

/-- `statements_agreeing`: the statements, when every lexer delimits the same ones. -/
def statementsAgreeing (sql : List UInt8) : List Lexer → Option (List (List UInt8))
  | [] => none
  | first :: rest =>
    let expected := statements first sql
    if rest.any fun lexer => statements lexer sql != expected then none else some expected

/-- `decisions_readings`. -/
def decisionsReadings (mode : SafeMode) (sql : List UInt8) (readings : List Lexer) : List StatementDecision :=
  let postgres := readings.any Lexer.isPostgres
  match statementsAgreeing sql readings with
  | none =>
    [{ index := 1, kind := .unknown, statement := trim sql, decision := mode.decision .unknown
       reason := ambiguousReason mode postgres }]
  | some found =>
    found.zipIdx.map fun (statement, offset) =>
      let kind := classifyReadings statement readings
      let ambiguous := kind == .unknown && readings.any fun lexer => classify lexer statement != .unknown
      { index := offset + 1, kind, statement, decision := mode.decision kind
        reason := if ambiguous then ambiguousReason mode postgres else mode.refusal kind }

inductive SafeModeError where
  | refused (mode : SafeMode) (index : Nat) (kind : StatementKind) (reason statement : String)
  | needsConfirmation (mode : SafeMode) (index : Nat) (kind : StatementKind) (reason statement : String)
  deriving DecidableEq, Repr

/-- `snippet`: a statement on one line, shortened. -/
def snippet (statement : List UInt8) : String :=
  let words := Text.splitWhitespace ((Text.fromUtf8 statement).getD "").toList
  let flattened := List.intercalate [' '] words
  if 80 < flattened.length then String.ofList (flattened.take 80) ++ "…" else String.ofList flattened

/-- `refusal_error`: the error this statement raises, or nothing when it runs. -/
def StatementDecision.refusalError (decided : StatementDecision) (mode : SafeMode) (confirmed : Bool) :
    Option SafeModeError :=
  let reason := decided.reason.getD "this statement is not allowed here"
  match decided.decision with
  | .allow => none
  | .confirm =>
    if confirmed then none
    else some (.needsConfirmation mode decided.index decided.kind reason (snippet decided.statement))
  | .refuse => some (.refused mode decided.index decided.kind reason (snippet decided.statement))

def firstRefusal (mode : SafeMode) (confirmed : Bool) (decided : List StatementDecision) : Except SafeModeError Unit :=
  match decided.findSome? (·.refusalError mode confirmed) with
  | none => .ok ()
  | some error => .error error

/-- `check_confirmed_dialect`. -/
def checkConfirmedDialect (mode : SafeMode) (confirmed : Bool) (sql : List UInt8) (lexer : Lexer) :
    Except SafeModeError Unit :=
  firstRefusal mode confirmed (decisionsDialect mode sql lexer)

/-- `check_confirmed_readings`. -/
def checkConfirmedReadings (mode : SafeMode) (confirmed : Bool) (sql : List UInt8) (readings : List Lexer) :
    Except SafeModeError Unit :=
  firstRefusal mode confirmed (decisionsReadings mode sql readings)

def Decision.rank : Decision → Nat
  | .allow => 0
  | .confirm => 1
  | .refuse => 2

def Decision.runs (confirmed : Bool) : Decision → Bool
  | .allow => true
  | .confirm => confirmed
  | .refuse => false

theorem decision_monotone (mode : SafeMode) (stricter : kindRank kind ≤ kindRank other) :
    (mode.decision kind).rank ≤ (mode.decision other).rank := by
  cases mode <;> cases kind <;> cases other <;> revert stricter <;> decide

theorem runs_of_rank (confirmed : Bool) {decision other : Decision} (laxer : decision.rank ≤ other.rank)
    (runs : other.runs confirmed = true) : decision.runs confirmed = true := by
  cases decision <;> cases other <;> cases confirmed <;> revert laxer runs <;> decide

theorem refusalError_eq_none (decided : StatementDecision) (mode : SafeMode) (confirmed : Bool) :
    decided.refusalError mode confirmed = none ↔ decided.decision.runs confirmed = true := by
  unfold StatementDecision.refusalError
  cases decided.decision <;> cases confirmed <;> simp [Decision.runs]

/-- A script passes exactly when every statement of it runs. -/
theorem firstRefusal_ok (mode : SafeMode) (confirmed : Bool) (decided : List StatementDecision) :
    firstRefusal mode confirmed decided = .ok () ↔ ∀ statement ∈ decided, statement.decision.runs confirmed = true := by
  have every : decided.findSome? (·.refusalError mode confirmed) = none ↔
      ∀ statement ∈ decided, statement.decision.runs confirmed = true := by
    simp only [List.findSome?_eq_none_iff, refusalError_eq_none]
  rw [← every, firstRefusal]
  cases decided.findSome? (·.refusalError mode confirmed) <;> simp

theorem checkConfirmedDialect_ok (mode : SafeMode) (confirmed : Bool) (sql : List UInt8) (lexer : Lexer) :
    checkConfirmedDialect mode confirmed sql lexer = .ok () ↔
      ∀ statement ∈ statements lexer sql, (mode.decision (classify lexer statement)).runs confirmed = true := by
  rw [checkConfirmedDialect, firstRefusal_ok, decisionsDialect]
  constructor
  · intro every statement member
    obtain ⟨place, _, found⟩ := List.getElem_of_mem member
    exact every _ (List.mem_map.mpr ⟨(statement, place), List.mk_mem_zipIdx_iff_getElem?.mpr (by simp [*]), rfl⟩)
  · rintro every _ member
    obtain ⟨⟨statement, offset⟩, within, rfl⟩ := List.mem_map.mp member
    exact every statement (List.mem_of_getElem? (List.mk_mem_zipIdx_iff_getElem?.mp within))

private def merge (lexer : Lexer) (text : List UInt8) : Option StatementKind → StatementKind
  | none => classify lexer text
  | some current => if kindRank current < kindRank (classify lexer text) then classify lexer text else current

private theorem merge_ge (lexer : Lexer) (text : List UInt8) (merged : Option StatementKind) :
    kindRank (classify lexer text) ≤ kindRank (merge lexer text merged) ∧
      ∀ current ∈ merged, kindRank current ≤ kindRank (merge lexer text merged) := by
  cases merged with
  | none => exact ⟨Nat.le_refl _, fun _ member => nomatch member⟩
  | some current =>
    simp only [merge]
    split
    · exact ⟨Nat.le_refl _, fun _ member => Option.mem_some_iff.mp member ▸ Nat.le_of_lt ‹_›⟩
    · exact ⟨Nat.le_of_not_lt ‹_›, fun _ member => Option.mem_some_iff.mp member ▸ Nat.le_refl _⟩

private theorem foldl_merge_ge (text : List UInt8) (readings : List Lexer) (merged : Option StatementKind) :
    ∀ strict, readings.foldl (fun merged lexer => some (merge lexer text merged)) merged = some strict →
      (∀ lexer ∈ readings, kindRank (classify lexer text) ≤ kindRank strict) ∧
        ∀ current ∈ merged, kindRank current ≤ kindRank strict := by
  induction readings generalizing merged with
  | nil =>
    intro strict folded
    refine ⟨fun _ member => (nomatch member), fun current member => ?_⟩
    cases (Option.mem_def.mp member).symm.trans folded
    exact Nat.le_refl _
  | cons lexer readings ih =>
    intro strict folded
    obtain ⟨each, first⟩ := ih _ strict folded
    obtain ⟨own, before⟩ := merge_ge lexer text merged
    have above := first _ rfl
    refine ⟨fun other member => ?_, fun current member => Nat.le_trans (before current member) above⟩
    rcases List.mem_cons.mp member with rfl | later
    · exact Nat.le_trans own above
    · exact each other later

private theorem classifyReadings_eq (text : List UInt8) (readings : List Lexer) :
    classifyReadings text readings =
      (readings.foldl (fun merged lexer => some (merge lexer text merged)) none).getD .unknown := by
  unfold classifyReadings
  congr 2
  funext merged lexer
  cases merged with
  | none => rfl
  | some current =>
    simp only [merge]
    split <;> rfl

theorem classifyReadings_ge (member : lexer ∈ readings) (text : List UInt8) :
    kindRank (classify lexer text) ≤ kindRank (classifyReadings text readings) := by
  obtain ⟨strict, folded⟩ : ∃ strict, readings.foldl (fun merged lexer => some (merge lexer text merged)) none =
    some strict := by
    obtain ⟨before, last, rfl⟩ := List.eq_nil_or_concat readings |>.resolve_left (List.ne_nil_of_mem member)
    rw [List.concat_eq_append, List.foldl_append]
    exact ⟨_, rfl⟩
  rw [classifyReadings_eq, folded]
  exact (foldl_merge_ge text readings none strict folded).1 lexer member

theorem statementsAgreeing_some (agree : statementsAgreeing sql readings = some found) :
    ∀ lexer ∈ readings, statements lexer sql = found := by
  cases readings with
  | nil => exact fun _ member => nomatch member
  | cons first rest =>
    simp only [statementsAgreeing] at agree
    split at agree
    · cases agree
    · rename_i same
      cases agree
      intro lexer member
      rcases List.mem_cons.mp member with rfl | later
      · rfl
      · by_contra differs
        exact same (List.any_eq_true.mpr ⟨lexer, later, bne_iff_ne.mpr differs⟩)

/-- A script that passes the merged guard passes the guard of every lexer of the set; and one
that the lexers cut into different statements passes in the mode that refuses nothing only. -/
theorem merged_guard_strictest (mode : SafeMode) (confirmed : Bool) (sql : List UInt8) (readings : List Lexer) :
    (checkConfirmedReadings mode confirmed sql readings = .ok () →
        ∀ lexer ∈ readings, checkConfirmedDialect mode confirmed sql lexer = .ok ()) ∧
      ((∃ lexer ∈ readings, ∃ other ∈ readings, statements lexer sql ≠ statements other sql) → mode ≠ .full →
        ∃ error, checkConfirmedReadings mode confirmed sql readings = .error error) := by
  constructor
  · intro passes lexer member
    rw [checkConfirmedReadings, firstRefusal_ok] at passes
    rw [checkConfirmedDialect_ok]
    intro statement within
    cases agree : statementsAgreeing sql readings with
    | none =>
      simp only [decisionsReadings, agree, List.mem_singleton, forall_eq] at passes
      refine runs_of_rank confirmed (decision_monotone mode ?_) passes
      cases classify lexer statement <;> decide
    | some found =>
      rw [statementsAgreeing_some agree lexer member] at within
      obtain ⟨place, _, here⟩ := List.getElem_of_mem within
      simp only [decisionsReadings, agree] at passes
      have runs := passes _ (List.mem_map.mpr ⟨(statement, place),
        List.mk_mem_zipIdx_iff_getElem?.mpr (by simp [*]), rfl⟩)
      exact runs_of_rank confirmed (decision_monotone mode (classifyReadings_ge member statement)) runs
  · rintro ⟨lexer, member, other, member', differ⟩ guarded
    have disagree : statementsAgreeing sql readings = none := by
      cases agree : statementsAgreeing sql readings with
      | none => rfl
      | some found =>
        have same := statementsAgreeing_some agree
        exact absurd ((same lexer member).trans (same other member').symm) differ
    cases passes : checkConfirmedReadings mode confirmed sql readings with
    | error error => exact ⟨error, rfl⟩
    | ok done =>
      rw [checkConfirmedReadings, firstRefusal_ok] at passes
      simp only [decisionsReadings, disagree, List.mem_singleton, forall_eq] at passes
      cases mode with
      | full => exact absurd rfl guarded
      | noDdl => cases passes
      | confirm => cases passes
      | readOnly => cases passes

/-- A read that every reading of MySQL's agrees on, and a string that ends where an escape
decides. -/
theorem merged_guard_strictest_mysql :
    (∀ lexer ∈ Dialect.readings .mysql,
      checkConfirmedDialect .readOnly false (Byte.ofAscii "SELECT 1;") lexer = .ok ()) ∧
      ∃ error, checkConfirmedReadings .confirm true (Byte.ofAscii "SELECT '\\''; DELETE FROM t; -- '")
        (Dialect.readings .mysql) =
        .error error := by
  refine ⟨(merged_guard_strictest .readOnly false (Byte.ofAscii "SELECT 1;") _).1 (by decide +kernel), ?_⟩
  refine (merged_guard_strictest .confirm true _ _).2
    ⟨.mysql true false true, by decide, .mysql false false true, by decide, ?_⟩ (by decide)
  decide +kernel

end QueryHive.Sql
