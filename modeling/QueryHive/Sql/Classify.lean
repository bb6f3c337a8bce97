import QueryHive.Sql.Script

/-! The Safe Mode classifier of `classify.rs`: the tokens a statement is made of, what kind
of statement they spell, what each mode decides about it, and the statements of a script.
Tokens hold the bytes the source takes by range. The words of the tables are kept as the
source spells them. -/
namespace QueryHive.Sql
open Byte

inductive StatementKind where
  | readOnly | dml | ddl | unknown
  deriving DecidableEq, Repr

inductive SafeMode where
  | full | noDdl | confirm | readOnly
  deriving DecidableEq, Repr

inductive Decision where
  | allow | confirm | refuse
  deriving DecidableEq, Repr

/-- `SafeMode::decision`: before any confirmation. -/
def SafeMode.decision : SafeMode → StatementKind → Decision
  | .full, _ => .allow
  | .noDdl, .readOnly | .noDdl, .dml => .allow
  | .noDdl, .ddl | .noDdl, .unknown => .refuse
  | .confirm, .readOnly => .allow
  | .confirm, .dml => .confirm
  | .confirm, .ddl | .confirm, .unknown => .refuse
  | .readOnly, .readOnly => .allow
  | .readOnly, _ => .refuse

inductive Token where
  | word (name : List UInt8)
  /-- A quoted name, quotes included. -/
  | quoted (name : List UInt8)
  | literal
  /-- A `(` and whether it follows a name with nothing but blanks and comments between. -/
  | open (call : Bool)
  | close
  deriving DecidableEq, Repr

structure Surface where
  tokens : List Token
  /-- A `U&"…"` identifier is in the text. -/
  unicodeIdentifier : Bool
  /-- A string mentions `set_config` or `client_encoding`. -/
  literalNamesEncoding : Bool
  deriving DecidableEq, Repr

structure SurfaceBuilder where
  surface : Surface
  /-- Where the last token ended. -/
  seen : Nat
  /-- Something other than whitespace came between the last token and here. -/
  dirty : Bool
  deriving DecidableEq, Repr

def stripQuotePrefix (text : List UInt8) : List UInt8 :=
  match text with
  | first :: rest => if first = doubleQuote ∨ first = backtick then rest else text
  | [] => []

/-- `strip_prefix` and `strip_suffix` of a quoted name. -/
def unquoted (text : List UInt8) : List UInt8 :=
  (stripQuotePrefix (stripQuotePrefix text).reverse).reverse

/-- `Surface::name`: the name a token spells. -/
def Token.name : Token → Option (List UInt8)
  | .word name => some name
  | .quoted name => some (unquoted name)
  | _ => none

/-- `Surface::word` of a token: the bare word, or nothing. -/
def Token.bare : Token → List UInt8
  | .word name => name
  | _ => []

/-- `mentions_encoding`: one of the two names, in any case, anywhere in the text. -/
def mentionsEncoding (text : List UInt8) : Bool :=
  ["set_config", "client_encoding"].any fun needle =>
    text.tails.any fun tail => eqIgnoreAsciiCase (tail.take (ofAscii needle).length) (ofAscii needle)

namespace SurfaceBuilder

def pushToken (builder : SurfaceBuilder) (token : Token) : SurfaceBuilder :=
  { builder with
    surface := { builder.surface with tokens := builder.surface.tokens ++ [token] }
    dirty := false }

/-- `push`. -/
def push (builder : SurfaceBuilder) (token : Token) (stop : Nat) : SurfaceBuilder :=
  { builder.pushToken token with seen := stop }

/-- Whether a `(` here is a call: it follows a name and nothing but blanks. -/
def callHere (builder : SurfaceBuilder) : Bool :=
  !builder.dirty && match builder.surface.tokens.getLast? with
    | some (.word _) | some (.quoted _) => true
    | _ => false

/-- The loop of `gap`: `left` bytes up to the next token, `skip` of them taken already. -/
def gapBytes (lexer : Lexer) (builder : SurfaceBuilder) (skip : Nat) :
    Nat → List UInt8 → SurfaceBuilder
  | 0, _ => builder
  | _, [] => builder
  | left + 1, byte :: rest =>
    match skip with
    | skip + 1 => gapBytes lexer builder skip left rest
    | 0 =>
      if byte = openParen then
        gapBytes lexer (builder.pushToken (.open builder.callHere)) 0 left rest
      else if byte = closeParen then gapBytes lexer (builder.pushToken .close) 0 left rest
      -- `\v` is whitespace to some servers, and is read as a gap on every one.
      else if isAsciiWhitespace byte || byte == verticalTab then gapBytes lexer builder 0 left rest
      else match executableCommentOpener lexer (byte :: rest) with
      | some width =>
        if width ≤ left + 1 then gapBytes lexer builder (width - 1) left rest
        else gapBytes lexer { builder with dirty := true } 0 left rest
      | none =>
        -- The `*/` that closes the body of an executable comment.
        if byte = star ∧ lexer.runsExecutableComments ∧ rest.head? = some slash then
          gapBytes lexer builder 1 left rest
        else gapBytes lexer { builder with dirty := true } 0 left rest

/-- `gap`: read the text up to `upto`, which no token covers. -/
def gap (lexer : Lexer) (text : List UInt8) (builder : SurfaceBuilder) (upto : Nat) :
    SurfaceBuilder :=
  { gapBytes lexer builder 0 (upto - builder.seen) (text.drop builder.seen) with seen := upto }

/-- Whether a quoted name is PostgreSQL's `U&"…"`. -/
def escapedName (text : List UInt8) (start stop : Nat) : Bool :=
  eqIgnoreAsciiCase (((text.take stop).drop start).take 2) (ofAscii "u&") ||
    (2 ≤ start && eqIgnoreAsciiCase ((text.drop (start - 2)).take 2) (ofAscii "u&"))

/-- The visitor's methods. -/
def visit (lexer : Lexer) (text : List UInt8) (builder : SurfaceBuilder) : Event → SurfaceBuilder
  | .separator _ => builder
  | .word start stop =>
    (builder.gap lexer text start).push (.word ((text.take stop).drop start)) stop
  | .opaqueRegion kind start stop =>
    let builder := builder.gap lexer text start
    let region := (text.take stop).drop start
    match kind with
    -- A comment is not there: a call can have one between its name and its `(`.
    | .lineComment | .blockComment => { builder with seen := stop }
    | .doubleQuote | .backtick =>
      let surface := { builder.surface with
        unicodeIdentifier := builder.surface.unicodeIdentifier || escapedName text start stop }
      { builder with surface }.push (.quoted region) stop
    | .singleQuote | .dollarQuote =>
      let surface := { builder.surface with
        literalNamesEncoding := builder.surface.literalNamesEncoding ||
          (lexer.isPostgres && mentionsEncoding region) }
      { builder with surface }.push .literal stop

end SurfaceBuilder

namespace Surface

/-- `Surface::of`. -/
def of (lexer : Lexer) (text : List UInt8) : Surface :=
  (((walk lexer text).1.foldl (SurfaceBuilder.visit lexer text) ⟨⟨[], false, false⟩, 0, false⟩).gap
    lexer text text.length).surface

/-- `calls_a_function`: a name the predicate accepts, in lower case, before a call's `(`. -/
def callsIn (accepts : List UInt8 → Bool) : List Token → Bool
  | before :: .open true :: rest =>
    (before.name.any fun name => accepts (asciiLowercase name)) || callsIn accepts (.open true :: rest)
  | _ :: rest => callsIn accepts rest
  | [] => false

def callsAFunction (surface : Surface) (accepts : List UInt8 → Bool) : Bool :=
  callsIn accepts surface.tokens

/-- `names_encoding`. -/
def namesEncoding (surface : Surface) : Bool :=
  surface.unicodeIdentifier || (surface.tokens.filterMap Token.name).any fun name =>
    eqIgnoreAsciiCase name (ofAscii "set_config") || eqIgnoreAsciiCase name (ofAscii "client_encoding")

/-- The words after a `FOR` that lock rows. -/
def locksRows (rest : List Token) : Bool :=
  let next (offset : Nat) : List UInt8 := asciiLowercase ((rest[offset]?).elim [] Token.bare)
  next 0 == ofAscii "share" ||
    (next 0 == ofAscii "key" && next 1 == ofAscii "share") ||
    (next 0 == ofAscii "no" && next 1 == ofAscii "key" && next 2 == ofAscii "update")

/-- The loop of `has_locking_clause`: the word before this token and before each open
parenthesis, the innermost first. -/
def locksIn (before : List UInt8) (calls : List (List UInt8)) : List Token → Bool
  | [] => false
  | .open _ :: rest => locksIn [] (before :: calls) rest
  | .close :: rest => locksIn [] calls.tail rest
  | .word name :: rest =>
    let inLength := calls.head?.any fun call =>
      ["substring", "substr", "overlay"].any fun length => isKeyword call length
    if isKeyword name "for" && !inLength && locksRows rest then true
    else locksIn name calls rest
  | _ :: rest => locksIn [] calls rest

/-- `has_locking_clause`. -/
def hasLockingClause (surface : Surface) : Bool := locksIn [] [] surface.tokens

end Surface

/-- Functions whose call changes something outside the statement's own result. -/
def SIDE_EFFECT_FUNCTIONS : List String :=
  ["nextval", "setval", "pg_terminate_backend", "pg_cancel_backend", "pg_reload_conf",
    "pg_rotate_logfile", "pg_logfile_rotate", "pg_switch_wal", "pg_switch_xlog",
    "pg_create_restore_point", "pg_backup_start", "pg_backup_stop", "pg_start_backup",
    "pg_stop_backup", "pg_promote", "pg_wal_replay_pause", "pg_wal_replay_resume",
    "pg_xlog_replay_pause", "pg_xlog_replay_resume", "pg_create_physical_replication_slot",
    "pg_create_logical_replication_slot", "pg_drop_replication_slot",
    "pg_replication_slot_advance", "pg_logical_emit_message", "pg_notify",
    "pg_import_system_collations", "pg_prewarm", "pg_stat_reset", "pg_stat_reset_shared",
    "pg_stat_reset_slru", "pg_stat_reset_single_table_counters",
    "pg_stat_reset_single_function_counters", "pg_stat_statements_reset", "lo_create", "lo_creat",
    "lo_import", "lo_export", "lo_unlink", "lo_put", "lo_from_bytea", "lo_truncate",
    "lo_truncate64", "lowrite", "pg_file_write", "pg_file_rename", "pg_file_unlink", "get_lock",
    "release_lock", "release_all_locks"]

def TEXT_AS_SQL_FUNCTIONS : List String :=
  ["query_to_xml", "query_to_xmlschema", "query_to_xml_and_xmlschema", "ts_stat", "ts_rewrite",
    "connectby", "crosstab", "crosstab2", "crosstab3", "crosstab4", "sys_exec", "sys_eval"]

def DML_WORDS : List String :=
  ["INSERT", "UPDATE", "DELETE", "MERGE", "REPLACE", "UPSERT", "COPY", "LOAD"]

def OPAQUE_WORDS : List String := ["DO", "CALL", "EXECUTE"]

def DDL_WORDS : List String :=
  ["CREATE", "ALTER", "DROP", "TRUNCATE", "GRANT", "REVOKE", "COMMENT", "RENAME", "REINDEX",
    "VACUUM", "CLUSTER", "ANALYZE", "ANALYSE", "REFRESH", "ATTACH", "DETACH", "LOCK", "INTO"]

def isOneOf (word : List UInt8) (table : List String) : Bool :=
  table.any fun entry => word == ofAscii entry

/-- `has_side_effect`. -/
def hasSideEffect (name : List UInt8) : Bool :=
  isOneOf name SIDE_EFFECT_FUNCTIONS || (ofAscii "pg_advisory_").isPrefixOf name ||
    (ofAscii "pg_try_advisory_").isPrefixOf name

/-- `runs_text_as_sql`. -/
def runsTextAsSql (name : List UInt8) : Bool :=
  isOneOf name TEXT_AS_SQL_FUNCTIONS || (ofAscii "dblink").isPrefixOf name

/-- `write_kind`: whether one bare word names a write, and which kind. -/
def writeKind (word : List UInt8) : Option StatementKind :=
  if isOneOf word DML_WORDS then some .dml
  else if isOneOf word DDL_WORDS then some .ddl
  else if isOneOf word OPAQUE_WORDS then some .unknown
  else none

/-- `kind_rank`. -/
def kindRank : StatementKind → Nat
  | .readOnly => 0
  | .dml => 1
  | .ddl => 2
  | .unknown => 3

/-- `max_by_key(kind_rank)`: the last of the highest. -/
def strictestKind (kinds : List StatementKind) : Option StatementKind :=
  kinds.foldl (fun best kind => match best with
    | none => some kind
    | some current => if kindRank current ≤ kindRank kind then some kind else some current) none

def kindOf (leading : List UInt8) (words : List (List UInt8)) (surface : Surface) : StatementKind :=
  if isOneOf leading ["SHOW", "DESC", "DESCRIBE"] then .readOnly
  else if isOneOf leading ["SELECT", "VALUES", "TABLE", "WITH", "EXPLAIN"] then
    let wordKind := strictestKind (words.filterMap writeKind)
    let lockKind := if surface.hasLockingClause then some StatementKind.dml else none
    let callKind := if surface.callsAFunction hasSideEffect then some StatementKind.dml else none
    (strictestKind ([wordKind, lockKind, callKind].filterMap id)).getD .readOnly
  else if leading = ofAscii "COPY" ∧ words.any (· == ofAscii "PROGRAM") then .unknown
  else (writeKind leading).getD .unknown

/-- `classify_dialect`: what one statement does, by reading its text. -/
def classify (lexer : Lexer) (text : List UInt8) : StatementKind :=
  let leading := leadingKeyword lexer text
  let surface := Surface.of lexer text
  -- What a function that runs its text does is read by nobody.
  if surface.callsAFunction runsTextAsSql then .unknown
  else if lexer.isPostgres && leading != some (ofAscii "SHOW") && surface.namesEncoding then .unknown
  else match leading with
  | none => .unknown
  | some leading =>
    let kind := kindOf leading (keywords lexer text) surface
    if kind ≠ .readOnly ∧ lexer.isPostgres ∧ surface.literalNamesEncoding then .unknown else kind

/-- `classify_readings`: the strictest kind any reading gives, `unknown` for no readings. -/
def classifyReadings (text : List UInt8) (readings : List Lexer) : StatementKind :=
  (readings.foldl (fun merged lexer =>
    let kind := classify lexer text
    match merged with
    | none => some kind
    | some current => if kindRank current < kindRank kind then some kind else some current)
    none).getD .unknown

/-- The characters `str::trim` takes, in UTF-8: Unicode's `White_Space`. -/
def WHITE_SPACE : List (List UInt8) :=
  [[0x09], [0x0a], [0x0b], [0x0c], [0x0d], [0x20], [0xc2, 0x85], [0xc2, 0xa0], [0xe1, 0x9a, 0x80],
    [0xe2, 0x80, 0x80], [0xe2, 0x80, 0x81], [0xe2, 0x80, 0x82], [0xe2, 0x80, 0x83],
    [0xe2, 0x80, 0x84], [0xe2, 0x80, 0x85], [0xe2, 0x80, 0x86], [0xe2, 0x80, 0x87],
    [0xe2, 0x80, 0x88], [0xe2, 0x80, 0x89], [0xe2, 0x80, 0x8a], [0xe2, 0x80, 0xa8],
    [0xe2, 0x80, 0xa9], [0xe2, 0x80, 0xaf], [0xe2, 0x81, 0x9f], [0xe3, 0x80, 0x80]]

/-- How many bytes of these characters a text begins with, `skip` of them counted already. -/
def leadingBlank (blanks : List (List UInt8)) (skip : Nat) : List UInt8 → Nat
  | [] => 0
  | byte :: rest =>
    match skip with
    | skip + 1 => 1 + leadingBlank blanks skip rest
    | 0 =>
      match blanks.find? (·.isPrefixOf (byte :: rest)) with
      | some blank => 1 + leadingBlank blanks (blank.length - 1) rest
      | none => 0

/-- `str::trim_start`: the bytes it takes. -/
def trimmedStart (text : List UInt8) : Nat := leadingBlank WHITE_SPACE 0 text

/-- `str::trim_end`, on the bytes from the last one on. -/
def trimmedEnd (text : List UInt8) : Nat :=
  leadingBlank (WHITE_SPACE.map List.reverse) 0 text.reverse

/-- `str::trim`. -/
def trim (text : List UInt8) : List UInt8 :=
  let rest := text.drop (trimmedStart text)
  rest.take (rest.length - trimmedEnd rest)

/-- `LineCounter`: line numbers for offsets that only grow. -/
structure LineCounter where
  offset : Nat
  line : Nat
  deriving DecidableEq, Repr

def LineCounter.lineAt (counter : LineCounter) (text : List UInt8) (offset : Nat) : LineCounter :=
  ⟨offset, counter.line + ((text.take offset).drop counter.offset).count newline⟩

/-- One statement of a script. The source borrows its text from the script; `start` is
where the slice begins. -/
structure ScriptStatement where
  line : Nat
  start : Nat
  text : List UInt8
  deriving DecidableEq, Repr

/-- `push_with_line`. -/
def pushWithLine (lexer : Lexer) (text : List UInt8) (found : List ScriptStatement × LineCounter)
    (start stop : Nat) : List ScriptStatement × LineCounter :=
  let piece := (text.take stop).drop start
  match firstSignificant lexer piece with
  | none => found
  | some leading =>
    let lines := found.2.lineAt text (start + leading)
    (found.1 ++ [⟨lines.line, start + trimmedStart piece, trim piece⟩], lines)

/-- `statements_with_lines_dialect`. -/
def statementsWithLines (lexer : Lexer) (text : List UInt8) : List ScriptStatement :=
  if hasSignificantText lexer text then
    let walked := (separators lexer text).foldl (fun walked separator =>
      (pushWithLine lexer text walked.1 walked.2 separator, separator + 1))
      ((([], ⟨0, 1⟩) : List ScriptStatement × LineCounter), 0)
    (pushWithLine lexer text walked.1 walked.2 text.length).1
  else []

/-- `statements_dialect`. -/
def statements (lexer : Lexer) (text : List UInt8) : List (List UInt8) :=
  (statementsWithLines lexer text).map (·.text)

end QueryHive.Sql
