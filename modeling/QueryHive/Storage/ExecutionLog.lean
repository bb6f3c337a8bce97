import Mathlib.Algebra.Ring.Int.Defs
import QueryHive.Library.Chain
import QueryHive.Library.Result
import QueryHive.Library.Runs
import QueryHive.Library.Sha256
import QueryHive.Library.Text

/-! The execution log: appending a decision to the chain in an immediate transaction, and
checking the chain from its first row. A row is kept as the cells of its columns and read
back as the code reads it, its id through the identity parser. -/
namespace QueryHive.Storage.ExecutionLog
open QueryHive.Library QueryHive.Library.Chain QueryHive.Library.Runs QueryHive.Library.Result QueryHive.Library.Text

abbrev Text := List Char

/-- A JSON scalar. -/
inductive Scalar where
  | text (value : Text)
  | number (value : Int)
  | null
  deriving DecidableEq, Repr

/-- What the file uses of other crates. -/
structure Crates where
  /-- `Uuid::parse_str`, and the canonical spelling of what it reads. -/
  parseUuid : Text → Option Text
  /-- `serde_json::to_vec` of an array of scalars. -/
  toVec : List Scalar → List UInt8
  sha256 : List UInt8 → List UInt8
  /-- `hex::encode`. -/
  hexEncode : List UInt8 → Text

/-- What is relied on of `hex::encode`: two characters for each byte, and others for other bytes. -/
structure Crates.EncodesHex (crates : Crates) : Prop where
  length : ∀ bytes, (crates.hexEncode bytes).length = 2 * bytes.length
  injective : ∀ bytes others, crates.hexEncode bytes = crates.hexEncode others → bytes = others

/-- A cell as the database holds it; reals, blobs and text that is not UTF-8 are read by no
column of this table. -/
inductive Cell where
  | null
  | integer (value : Int)
  | text (value : Text)
  | other (bytes : List UInt8)
  deriving DecidableEq, Repr

/-- A row of `execution_log`. -/
structure Row where
  seq : Int
  id : Cell
  at_ : Cell
  safeMode : Cell
  decision : Cell
  statementKind : Cell
  statementIndex : Cell
  statementHash : Cell
  reason : Cell
  prevHash : Cell
  chainHash : Cell
  deriving DecidableEq, Repr

/-- The table, in the order of its primary key. -/
structure Table where
  rows : List Row
  ascending : rows.Pairwise fun row later => row.seq < later.seq

/-- The fields of a decision that its row's chain hash covers, apart from the link back. -/
structure Judged where
  id : Text
  at_ : Int
  safeMode : Text
  decision : Text
  statementKind : Text
  statementIndex : Int
  statementHash : Text
  reason : Option Text
  deriving DecidableEq, Repr

structure ExecutionRecord where
  seq : Int
  judged : Judged
  prevHash : Text
  chainHash : Text
  deriving DecidableEq, Repr

inductive StorageError where
  | sqlite
  | brokenExecutionChain (seq : Int) (expected found : Text)
  deriving DecidableEq, Repr

def Cell.getText : Cell → Except StorageError Text
  | .text value => .ok value
  | _ => .error .sqlite

def Cell.getInteger : Cell → Except StorageError Int
  | .integer value => .ok value
  | _ => .error .sqlite

def Cell.getOptional : Cell → Except StorageError (Option Text)
  | .null => .ok none
  | .text value => .ok (some value)
  | _ => .error .sqlite

variable (crates : Crates)

/-- `SyncId::parse`. -/
def parseId (text : Text) : Option Text := crates.parseUuid (trim text)

/-- `to_sync_id`. -/
def toSyncId (text : Text) : Except StorageError Text :=
  match parseId crates text with
  | some id => .ok id
  | none => .error .sqlite

/-- `read_record`. -/
def readRecord (row : Row) : Except StorageError ExecutionRecord := do
  let id ← toSyncId crates (← row.id.getText)
  let at_ ← row.at_.getInteger
  let safeMode ← row.safeMode.getText
  let decision ← row.decision.getText
  let statementKind ← row.statementKind.getText
  let statementIndex ← row.statementIndex.getInteger
  let statementHash ← row.statementHash.getText
  let reason ← row.reason.getOptional
  let prevHash ← row.prevHash.getText
  let chainHash ← row.chainHash.getText
  pure ⟨row.seq, ⟨id, at_, safeMode, decision, statementKind, statementIndex, statementHash, reason⟩,
    prevHash, chainHash⟩

/-- The `prev_hash` of the first row. -/
def genesis : Text := "genesis".toList

def sha256Hex (bytes : List UInt8) : Text := crates.hexEncode (crates.sha256 bytes)

def hashStatement (sql : Text) : Text := sha256Hex crates (encodeUtf8 sql)

/-- The array a row's hash is over. -/
def payload (prevHash : Text) (judged : Judged) : List Scalar :=
  [.text judged.id, .number judged.at_, .text judged.safeMode, .text judged.decision, .text judged.statementKind,
    .number judged.statementIndex, .text judged.statementHash, judged.reason.elim .null .text, .text prevHash]

/-- `chain_hash`. -/
def chainHash (prevHash : Text) (judged : Judged) : Text := sha256Hex crates (crates.toVec (payload prevHash judged))

/-- The loop of `verify_execution_log`. -/
def verifyFrom (expectedPrev : Text) (verified : Nat) : List Row → Except StorageError Nat
  | [] => .ok verified
  | row :: rest => do
    let record ← readRecord crates row
    if record.prevHash ≠ expectedPrev then
      .error (.brokenExecutionChain record.seq expectedPrev record.prevHash)
    else
      let expected := chainHash crates record.prevHash record.judged
      if expected ≠ record.chainHash then .error (.brokenExecutionChain record.seq expected record.chainHash)
      else verifyFrom record.chainHash (verified + 1) rest

/-- `verify_execution_log`. -/
def verifyExecutionLog (table : Table) : Except StorageError Nat := verifyFrom crates genesis 0 table.rows

/-- What a caller supplies. -/
structure NewExecution where
  safeMode : Text
  decision : Text
  statementKind : Text
  statementIndex : Int
  statement : Text
  reason : Option Text
  at_ : Int

/-- An id as `SyncId::now` makes one: its own canonical spelling. -/
structure SyncId where
  text : Text
  canonical : parseId crates text = some text

/-- The database: the table and the largest key it ever had. -/
structure Database where
  table : Table
  sequence : Int
  bounded : ∀ row ∈ table.rows, row.seq ≤ sequence

def Database.insert (row : Row) (db : Database) (next : row.seq = db.sequence + 1) : Database where
  table :=
    { rows := db.table.rows ++ [row]
      ascending := by
        rw [List.pairwise_append]
        refine ⟨db.table.ascending, List.pairwise_singleton _ _, fun earlier inside later last => ?_⟩
        rw [List.mem_singleton.mp last, next]
        exact Int.lt_add_one_of_le (db.bounded earlier inside) }
  sequence := row.seq
  bounded := by
    intro other inside
    rcases List.mem_append.mp inside with earlier | last
    · have := db.bounded other earlier
      omega
    · exact (List.mem_singleton.mp last) ▸ Int.le_refl _

/-- The database, and the row of the transaction that holds its write lock. -/
structure State where
  db : Database
  writing : Option { row : Row // row.seq = db.sequence + 1 } := none

def State.empty : State where
  db := { table := { rows := [], ascending := .nil }, sequence := 0, bounded := by simp }

/-- The tail `append_execution` chains to. -/
def lastHash (table : Table) : Except StorageError Text :=
  match table.rows.getLast? with
  | some row => row.chainHash.getText
  | none => .ok genesis

/-- The fields of an entry that are hashed; of the statement, its own hash. -/
def NewExecution.judged (id : SyncId crates) (entry : NewExecution) : Judged :=
  ⟨id.text, entry.at_, entry.safeMode, entry.decision, entry.statementKind, entry.statementIndex,
    hashStatement crates entry.statement, entry.reason⟩

/-- The row `append_execution` inserts. -/
def newRow (seq : Int) (prevHash : Text) (id : SyncId crates) (entry : NewExecution) : Row :=
  let judged := entry.judged crates id
  { seq := seq, id := .text judged.id, at_ := .integer judged.at_, safeMode := .text judged.safeMode
    decision := .text judged.decision, statementKind := .text judged.statementKind
    statementIndex := .integer judged.statementIndex, statementHash := .text judged.statementHash
    reason := judged.reason.elim .null .text, prevHash := .text prevHash
    chainHash := .text (chainHash crates prevHash judged) }

/-- What the processes do: one begins an immediate transaction, reads the tail and inserts;
it commits; or it fails, or dies, and the transaction is rolled back. -/
inductive Action where
  | begin_ (process : Nat) (id : SyncId crates) (entry : NewExecution)
  | commit
  | rollback

/-- One step. Nobody begins while another holds the lock, and the last key is never passed. -/
def step (state : State) : Action crates → Option State
  | .begin_ _ id entry =>
    match state.writing, lastHash state.db.table with
    | none, .ok prevHash =>
      if state.db.sequence < 2 ^ 63 - 1 then
        some { state with writing := some ⟨newRow crates (state.db.sequence + 1) prevHash id entry, rfl⟩ }
      else none
    | _, _ => none
  | .commit => state.writing.map fun row => { db := state.db.insert row.1 row.2 }
  | .rollback => state.writing.map fun _ => { state with writing := none }

def ExecutionRecord.link (record : ExecutionRecord) : Link Judged Text :=
  ⟨record.prevHash, record.judged, record.chainHash⟩

variable {crates}

/-- The check accepts exactly the rows that are read back as a chain, and counts them. -/
theorem verifyFrom_ok {prev : Text} {count n : Nat} {rows : List Row} : verifyFrom crates prev count rows = .ok n ↔
    ∃ records, List.Forall₂ (fun row record => readRecord crates row = .ok record) rows records ∧
      Chained (chainHash crates) prev (records.map ExecutionRecord.link) ∧ n = count + rows.length := by
  induction rows generalizing prev count with
  | nil =>
    simp only [verifyFrom, Except.ok.injEq, List.forall₂_nil_left_iff, exists_eq_left, List.map_nil, Chained, true_and,
      List.length_nil, Nat.add_zero, eq_comm]
  | cons row rest ih =>
    rw [verifyFrom, bind_ok_iff]
    constructor
    · rintro ⟨record, read, later⟩
      split at later
      · cases later
      rename_i linked
      dsimp only at later
      split at later
      · cases later
      rename_i hashed
      obtain ⟨records, reads, chained, total⟩ := ih.mp later
      refine ⟨record :: records, .cons read reads, ⟨not_not.mp linked, (not_not.mp hashed).symm, chained⟩, ?_⟩
      rw [total, List.length_cons]
      omega
    · rintro ⟨records, reads, chained, total⟩
      cases reads with
      | @cons _ record _ records read reads =>
        obtain ⟨linked, hashed, chained⟩ := chained
        refine ⟨record, read, ?_⟩
        have linked : record.prevHash = prev := linked
        have hashed : record.chainHash = chainHash crates record.prevHash record.judged := hashed
        rw [if_neg (not_not.mpr linked)]
        dsimp only
        rw [if_neg (not_not.mpr hashed.symm)]
        refine ih.mpr ⟨records, reads, chained, ?_⟩
        rw [total, List.length_cons]
        omega

def ExecutionRecord.row (spelled : Text) (record : ExecutionRecord) : Row where
  seq := record.seq
  id := .text spelled
  at_ := .integer record.judged.at_
  safeMode := .text record.judged.safeMode
  decision := .text record.judged.decision
  statementKind := .text record.judged.statementKind
  statementIndex := .integer record.judged.statementIndex
  statementHash := .text record.judged.statementHash
  reason := record.judged.reason.elim .null .text
  prevHash := .text record.prevHash
  chainHash := .text record.chainHash

theorem getText_ok {cell : Cell} {value : Text} : cell.getText = .ok value ↔ cell = .text value := by
  cases cell <;> simp [Cell.getText]

theorem getInteger_ok {cell : Cell} {value : Int} : cell.getInteger = .ok value ↔ cell = .integer value := by
  cases cell <;> simp [Cell.getInteger]

theorem getOptional_ok {cell : Cell} {value : Option Text} :
    cell.getOptional = .ok value ↔ cell = value.elim .null .text := by
  cases cell <;> cases value <;> simp [Cell.getOptional, Option.elim]

theorem toSyncId_ok {text id : Text} : toSyncId crates text = .ok id ↔ parseId crates text = some id := by
  unfold toSyncId
  cases parseId crates text <;> simp

theorem readRecord_row {row : Row} {record : ExecutionRecord} : readRecord crates row = .ok record ↔
    ∃ spelled, parseId crates spelled = some record.judged.id ∧ row = record.row spelled := by
  simp only [readRecord, bind_ok_iff, getText_ok, getInteger_ok, getOptional_ok, toSyncId_ok]
  constructor
  · rintro ⟨spelled, text, id, parsed, at_, cell2, mode, cell3, decision, cell4, kind, cell5, index, cell6, hash, cell7,
      reason, cell8, prev, cell9, chain, cell10, same⟩
    cases same
    refine ⟨spelled, parsed, ?_⟩
    cases row
    cases text; cases cell2; cases cell3; cases cell4; cases cell5; cases cell6; cases cell7; cases cell8;
      cases cell9; cases cell10
    rfl
  · rintro ⟨spelled, parsed, rfl⟩
    exact ⟨spelled, rfl, _, parsed, _, rfl, _, rfl, _, rfl, _, rfl, _, rfl, _, rfl, _, rfl, _, rfl, _, rfl, rfl⟩

theorem last_read {rows : List Row} {records : List ExecutionRecord}
    (reads : List.Forall₂ (fun row record => readRecord crates row = .ok record) rows records) :
    (rows.getLast?.map Row.chainHash) = records.getLast?.map fun record => Cell.text record.chainHash := by
  induction reads with
  | nil => rfl
  | @cons row record rows records read reads ih =>
    obtain ⟨spelled, -, rfl⟩ := readRecord_row.mp read
    cases reads with
    | nil => rfl
    | cons => rwa [List.getLast?_cons_cons, List.getLast?_cons_cons]

theorem readRecord_newRow (seq : Int) (prevHash : Text) (id : SyncId crates) (entry : NewExecution) :
    ∃ record, readRecord crates (newRow crates seq prevHash id entry) = .ok record ∧ record.prevHash = prevHash ∧
      record.chainHash = chainHash crates prevHash record.judged := by
  have reason : (entry.reason.elim Cell.null .text).getOptional = .ok entry.reason := by
    cases entry.reason <;> rfl
  refine ⟨⟨seq, entry.judged crates id, prevHash, chainHash crates prevHash (entry.judged crates id)⟩, ?_, rfl, rfl⟩
  simp only [readRecord, newRow, NewExecution.judged, Cell.getText, Cell.getInteger, ok_bind, toSyncId,
    id.canonical, reason]
  rfl

/-- What holds of every state: the rows are a chain, and the row in a transaction would
extend it. -/
structure Sound (crates : Crates) (state : State) : Prop where
  chain : ∃ records, List.Forall₂ (fun row record => readRecord crates row = .ok record) state.db.table.rows records ∧
    Chained (chainHash crates) genesis (records.map ExecutionRecord.link)
  writing : ∀ row, state.writing = some row →
    ∃ prevHash id entry, lastHash state.db.table = .ok prevHash ∧
      row.1 = newRow crates (state.db.sequence + 1) prevHash id entry

theorem lastHash_endOf {table : Table} {records : List ExecutionRecord}
    (reads : List.Forall₂ (fun row record => readRecord crates row = .ok record) table.rows records) :
    lastHash table = .ok (endOf genesis (records.map ExecutionRecord.link)) := by
  have last := last_read reads
  rw [endOf, List.getLast?_map, Option.map_map]
  unfold lastHash
  cases there : table.rows.getLast? with
  | none =>
    rw [there, Option.map_none, eq_comm, Option.map_eq_none_iff] at last
    rw [last]
    rfl
  | some row =>
    rw [there, Option.map_some, eq_comm, Option.map_eq_some_iff] at last
    obtain ⟨record, final, cell⟩ := last
    simp only [final, ← cell]
    rfl

theorem step_sound (state : State) (action : Action crates) (next : State) (sound : Sound crates state)
    (stepped : step crates state action = some next) : Sound crates next := by
  cases action with
  | begin_ process id entry =>
    unfold step at stepped
    dsimp only at stepped
    split at stepped
    · rename_i prevHash free tail
      rw [Option.ite_none_right_eq_some] at stepped
      obtain ⟨-, same⟩ := stepped
      cases same
      exact ⟨sound.chain, fun row same => by cases same; exact ⟨prevHash, id, entry, tail, rfl⟩⟩
    · cases stepped
  | commit =>
    obtain ⟨row, held, same⟩ := Option.map_eq_some_iff.mp stepped
    cases same
    obtain ⟨records, reads, chained⟩ := sound.chain
    obtain ⟨prevHash, id, entry, tail, inserted⟩ := sound.writing row held
    obtain ⟨record, read, links, hashed⟩ := readRecord_newRow (state.db.sequence + 1) prevHash id entry
    refine ⟨⟨records ++ [record], ?_, ?_⟩, fun _ same => nomatch same⟩
    · exact List.rel_append reads (.cons (inserted ▸ read) .nil)
    · rw [List.map_append, List.map_singleton, chained_concat]
      refine ⟨chained, ?_, hashed.trans (by rw [← links]; rfl)⟩
      exact links.trans (Except.ok.inj (tail.symm.trans (lastHash_endOf reads)))
  | rollback =>
    obtain ⟨row, held, same⟩ := Option.map_eq_some_iff.mp stepped
    cases same
    exact ⟨sound.chain, fun _ same => nomatch same⟩

theorem run_verifies {actions : List (Action crates)} {state : State}
    (ran : run (step crates) State.empty actions = some state) :
    verifyExecutionLog crates state.db.table = .ok state.db.table.rows.length := by
  have sound : Sound crates state :=
    run_invariant (Sound crates) step_sound ⟨⟨[], .nil, trivial⟩, fun _ same => nomatch (same : none = some _)⟩ ran
  obtain ⟨records, reads, chained⟩ := sound.chain
  exact verifyFrom_ok.mpr ⟨records, reads, chained, (Nat.zero_add _).symm⟩

/-- The same rows in order, equal in every column but `seq`. -/
def SameRows (first second : Table) : Prop :=
  (first.rows.map fun row => { row with seq := 0 }) = second.rows.map fun row => { row with seq := 0 }

def SameIds (first second : Table) : Prop := first.rows.map Row.id = second.rows.map Row.id

def lastChainHash (table : Table) : Option Cell := table.rows.getLast?.map Row.chainHash

def Hashed (crates : Crates) (table : Table) (array : List Scalar) : Prop :=
  ∃ row ∈ table.rows, ∃ record, readRecord crates row = .ok record ∧ array = payload record.prevHash record.judged

/-- The arrays hashed for two tables are written apart, and their texts have digests apart. -/
structure Apart (crates : Crates) (first second : Table) : Prop where
  written : ∀ array other, Hashed crates first array → Hashed crates second other →
    crates.toVec array = crates.toVec other → array = other
  digested : ∀ array other, Hashed crates first array → Hashed crates second other →
    crates.sha256 (crates.toVec array) = crates.sha256 (crates.toVec other) → crates.toVec array = crates.toVec other

theorem payload_injective {prev prev' : Text} {judged judged' : Judged}
    (same : payload prev judged = payload prev' judged') :
    prev = prev' ∧ judged = judged' := by
  obtain ⟨id, at_, mode, decision, kind, index, hash, reason⟩ := judged
  obtain ⟨id', at', mode', decision', kind', index', hash', reason'⟩ := judged'
  simp only [payload, List.cons.injEq, Scalar.text.injEq, Scalar.number.injEq, and_true] at same
  obtain ⟨rfl, rfl, rfl, rfl, rfl, rfl, rfl, reasons, rfl⟩ := same
  have equal : reason = reason' := by
    cases reason <;> cases reason' <;> simp_all
  exact ⟨rfl, by rw [equal]⟩

theorem chainHash_ne_genesis (hex : crates.EncodesHex) (prev : Text) (judged : Judged) :
    chainHash crates prev judged ≠ genesis := by
  intro same
  have length := congrArg List.length same
  rw [chainHash, sha256Hex, hex.length] at length
  have seven : genesis.length = 7 := by decide
  omega

theorem sameRows_of_links {rows others : List Row} {records records' : List ExecutionRecord}
    (reads : List.Forall₂ (fun row record => readRecord crates row = .ok record) rows records)
    (reads' : List.Forall₂ (fun row record => readRecord crates row = .ok record) others records')
    (links : records.map ExecutionRecord.link = records'.map ExecutionRecord.link)
    (ids : rows.map Row.id = others.map Row.id) :
    (rows.map fun row => { row with seq := 0 }) = others.map fun row => { row with seq := 0 } := by
  induction reads generalizing others records' with
  | nil =>
    cases reads' with
    | nil => rfl
    | cons => cases links
  | @cons row record rows records read reads ih =>
    cases reads' with
    | nil => cases links
    | @cons other record' others records' read' reads' =>
      rw [List.map_cons, List.map_cons, List.cons.injEq] at links ids
      obtain ⟨spelled, -, rfl⟩ := readRecord_row.mp read
      obtain ⟨spelled', -, rfl⟩ := readRecord_row.mp read'
      rw [List.map_cons, List.map_cons, ih reads' links.2 ids.2]
      obtain ⟨seq, judged, prev, chain⟩ := record
      obtain ⟨seq', judged', prev', chain'⟩ := record'
      obtain ⟨same, -⟩ := links
      cases same
      have spelling : spelled = spelled' := by simpa [ExecutionRecord.row] using ids.1
      rw [spelling]
      rfl

theorem row_of_record {rows : List Row} {records : List ExecutionRecord} {record : ExecutionRecord}
    (reads : List.Forall₂ (fun row record => readRecord crates row = .ok record) rows records)
    (held : record ∈ records) :
    ∃ row ∈ rows, readRecord crates row = .ok record := by
  induction reads with
  | nil => cases held
  | cons read reads ih =>
    rcases List.mem_cons.mp held with rfl | later
    · exact ⟨_, List.mem_cons_self, read⟩
    · obtain ⟨row, inside, read⟩ := ih later
      exact ⟨row, List.mem_cons_of_mem _ inside, read⟩

/-- Two tables that verify and end with the same hash hold the same number of rows, with
the same fields, and are the same rows exactly when they spell the ids alike. -/
theorem verified_links {first second : Table} {n m : Nat} (hex : crates.EncodesHex)
    (verified : verifyExecutionLog crates first = .ok n)
    (verified' : verifyExecutionLog crates second = .ok m) (apart : Apart crates first second)
    (last : lastChainHash first = lastChainHash second) :
    ∃ records records', List.Forall₂ (fun row record => readRecord crates row = .ok record) first.rows records ∧
      List.Forall₂ (fun row record => readRecord crates row = .ok record) second.rows records' ∧
      records.map ExecutionRecord.link = records'.map ExecutionRecord.link ∧
      n = first.rows.length ∧ m = second.rows.length := by
  obtain ⟨records, reads, chained, counted⟩ := verifyFrom_ok.mp verified
  obtain ⟨records', reads', chained', counted'⟩ := verifyFrom_ok.mp verified'
  rw [Nat.zero_add] at counted counted'
  refine ⟨records, records', reads, reads', ?_, counted, counted'⟩
  have ends : endOf genesis (records.map ExecutionRecord.link) = endOf genesis (records'.map ExecutionRecord.link) := by
    rw [lastChainHash, lastChainHash, last_read reads, last_read reads'] at last
    have texts : records.getLast?.map ExecutionRecord.chainHash = records'.getLast?.map ExecutionRecord.chainHash := by
      cases there : records.getLast? <;> cases there' : records'.getLast? <;> simp_all
    rw [endOf, endOf, List.getLast?_map, List.getLast?_map, Option.map_map, Option.map_map]
    exact congrArg (Option.getD · genesis) texts
  refine chained_unique (chainHash crates) (chainHash_ne_genesis hex) ?_ chained chained' ends
  intro link inside other there same
  obtain ⟨record, held, rfl⟩ := List.mem_map.mp inside
  obtain ⟨record', held', rfl⟩ := List.mem_map.mp there
  obtain ⟨row, there, read⟩ := row_of_record reads held
  obtain ⟨row', there', read'⟩ := row_of_record reads' held'
  have hashed : Hashed crates first (payload record.prevHash record.judged) := ⟨row, there, record, read, rfl⟩
  have hashed' : Hashed crates second (payload record'.prevHash record'.judged) := ⟨row', there', record', read', rfl⟩
  exact payload_injective (apart.written _ _ hashed hashed'
    (apart.digested _ _ hashed hashed' (hex.injective _ _ same)))

theorem sameIds_of_sameRows {first second : Table} (rows : SameRows first second) : SameIds first second := by
  have ids := congrArg (List.map Row.id) rows
  rw [List.map_map, List.map_map] at ids
  exact ids

/-- The log verifies whoever appends to it, and a table that verifies and ends with the same
hash holds the same rows, exactly but for how the ids are spelled. -/
theorem log_commits (crates : Crates) :
    (∀ actions state, run (step crates) State.empty actions = some state →
      verifyExecutionLog crates state.db.table = .ok state.db.table.rows.length) ∧
    (crates.EncodesHex → ∀ first second n m, verifyExecutionLog crates first = .ok n →
      verifyExecutionLog crates second = .ok m → Apart crates first second →
        lastChainHash first = lastChainHash second →
      n = m ∧ n = first.rows.length ∧ m = second.rows.length ∧ (SameRows first second ↔ SameIds first second)) := by
  refine ⟨fun actions state ran => run_verifies ran, fun hex first second n m verified verified' apart last => ?_⟩
  obtain ⟨records, records', reads, reads', links, counted, counted'⟩ :=
    verified_links hex verified verified' apart last
  have lengths : first.rows.length = second.rows.length := by
    have same := congrArg List.length links
    rw [List.length_map, List.length_map] at same
    rw [reads.length_eq, reads'.length_eq, same]
  exact ⟨by rw [counted, counted', lengths], counted, counted', sameIds_of_sameRows,
    sameRows_of_links reads reads' links⟩

/-- A character of a JSON string as it is written. -/
def jsonChar (c : Char) : List Char :=
  if c = '"' then ['\\', '"']
  else if c = '\\' then ['\\', '\\']
  else if c = '\n' then ['\\', 'n']
  else if c = '\r' then ['\\', 'r']
  else if c = '\t' then ['\\', 't']
  else if c.toNat = 8 then ['\\', 'b']
  else if c.toNat = 12 then ['\\', 'f']
  else if c.toNat < 32 then "\\u00".toList ++ Sha256.hexEncode [UInt8.ofNat c.toNat]
  else [c]

def jsonScalar : Scalar → List Char
  | .text value => '"' :: value.flatMap jsonChar ++ ['"']
  | .number value => (toString value).toList
  | .null => "null".toList

/-- An array as it is written, without blanks. -/
def jsonArray (array : List Scalar) : List UInt8 :=
  encodeUtf8 ('[' :: List.intercalate [','] (array.map jsonScalar) ++ [']'])

/-- Thirty-two hexadecimal digits with the four hyphens, in small letters. -/
def hyphenated (text : Text) : Option Text :=
  let parts := [text.take 8, (text.drop 9).take 4, (text.drop 14).take 4, (text.drop 19).take 4, text.drop 24]
  let hex := fun c : Char => c.isDigit || ('a' ≤ c.toLower && c.toLower ≤ 'f')
  if text.length = 36 ∧ parts.all (·.all hex) ∧ ([8, 13, 18, 23].all fun i => text[i]? = some '-') then
    some (text.map Char.toLower)
  else none

/-- The spellings of an identity: plain, hyphenated, in braces, and as a URN. -/
def uuid (text : Text) : Option Text :=
  match text.length with
  | 32 => hyphenated (text.take 8 ++ '-' :: (text.drop 8).take 4 ++ '-' :: (text.drop 12).take 4 ++ '-' ::
      (text.drop 16).take 4 ++ '-' :: text.drop 20)
  | 38 => if text.head? = some '{' ∧ text.getLast? = some '}' then hyphenated (text.tail.dropLast) else none
  | 45 => if "urn:uuid:".toList <+: text then hyphenated (text.drop 9) else none
  | _ => hyphenated text

def realCrates : Crates where
  parseUuid := uuid
  toVec := jsonArray
  sha256 := Sha256.sha256
  hexEncode := Sha256.hexEncode

theorem realCrates_encodesHex : realCrates.EncodesHex where
  length := Sha256.hexEncode_length
  injective _ _ := Sha256.hexEncode_injective

def refused : NewExecution where
  safeMode := "read_only".toList
  decision := "refused".toList
  statementKind := "ddl".toList
  statementIndex := 1
  statement := "DROP TABLE people".toList
  reason := some "DDL is not allowed on a read-only connection".toList
  at_ := 2000

def allowed : NewExecution where
  safeMode := "read_only".toList
  decision := "allowed".toList
  statementKind := "select".toList
  statementIndex := 1
  statement := "SELECT 1".toList
  reason := none
  at_ := 2001

/-- An id in small letters. -/
def smallId : String := "01890a5d-ac96-774b-bcce-b302099a8057"

def refusedId : SyncId realCrates := ⟨smallId.toList, by decide +kernel⟩

def allowedId : SyncId realCrates := ⟨"01890a5d-ac97-7001-8002-000000000003".toList, by decide +kernel⟩

/-- What a reader makes of their rows. -/
def refusedRecord (seq : Int) : ExecutionRecord where
  seq := seq
  judged := ⟨refusedId.text, 2000, "read_only".toList, "refused".toList, "ddl".toList, 1,
    "8bb2da6b622755ef8e3cf22b8c1fabb9a58126b60f77aed387514ea420afdec2".toList,
    some "DDL is not allowed on a read-only connection".toList⟩
  prevHash := genesis
  chainHash := "b03eccf52afd12028d5c44b6a82353890bee6299f4efbbe8442d6d26f87df4a2".toList

def allowedRecord (seq : Int) : ExecutionRecord where
  seq := seq
  judged := ⟨allowedId.text, 2001, "read_only".toList, "allowed".toList, "select".toList, 1,
    "e004ebd5b5532a4b85984a62f8ad48a81aa3460c1ca07701f386135d72cdecf5".toList, none⟩
  prevHash := (refusedRecord 1).chainHash
  chainHash := "2a4a35a4fb9ce2c7d8b7243b70775f07daefa271e1b99e61b961aee038bbef79".toList

set_option maxRecDepth 4000 in
theorem refused_judged : refused.judged realCrates refusedId = (refusedRecord 1).judged := by decide +kernel

set_option maxRecDepth 4000 in
theorem allowed_judged : allowed.judged realCrates allowedId = (allowedRecord 1).judged := by decide +kernel

set_option maxRecDepth 4000 in
theorem refused_digest : chainHash realCrates genesis (refusedRecord 1).judged = (refusedRecord 1).chainHash := by
  decide +kernel

set_option maxRecDepth 4000 in
theorem allowed_digest : chainHash realCrates (refusedRecord 1).chainHash (allowedRecord 1).judged =
    (allowedRecord 1).chainHash := by
  decide +kernel

def twoRows (seq : Int) (id : String) : Table where
  rows := [(refusedRecord seq).row id.toList, (allowedRecord (seq + 1)).row allowedId.text]
  ascending := List.pairwise_pair.mpr (Int.lt_succ seq)

theorem twoRows_ids (seq : Int) (id : String) :
    (twoRows seq id).rows.map Row.id = [.text id.toList, .text allowedId.text] := rfl

theorem twoRows_lastHash (seq : Int) (id : String) :
    lastChainHash (twoRows seq id) = some (.text (allowedRecord 1).chainHash) := rfl

def capitals : Table := twoRows 1 "01890A5D-AC96-774B-BCCE-B302099A8057"

theorem twoRows_read {seq : Int} {id : String} (spelled : parseId realCrates id.toList = some refusedId.text) :
    List.Forall₂ (fun row record => readRecord realCrates row = .ok record) (twoRows seq id).rows
      [refusedRecord seq, allowedRecord (seq + 1)] :=
  .cons (readRecord_row.mpr ⟨id.toList, spelled, rfl⟩) (.cons (readRecord_row.mpr ⟨_, allowedId.canonical, rfl⟩) .nil)

theorem twoRows_verify {seq : Int} {id : String} (spelled : parseId realCrates id.toList = some refusedId.text) :
    verifyExecutionLog realCrates (twoRows seq id) = .ok 2 := by
  have linked : Chained (chainHash realCrates) genesis
      ([refusedRecord seq, allowedRecord (seq + 1)].map ExecutionRecord.link) :=
    ⟨rfl, refused_digest.symm, rfl, allowed_digest.symm, trivial⟩
  exact verifyFrom_ok.mpr ⟨_, twoRows_read spelled, linked, rfl⟩

def refusedArray : List Scalar := payload genesis (refusedRecord 1).judged

def allowedArray : List Scalar := payload (refusedRecord 1).chainHash (allowedRecord 1).judged

theorem twoRows_hashed {seq : Int} {id : String} {array : List Scalar}
    (spelled : parseId realCrates id.toList = some refusedId.text)
    (hashed : Hashed realCrates (twoRows seq id) array) : array = refusedArray ∨ array = allowedArray := by
  obtain ⟨row, inside, record, read, rfl⟩ := hashed
  cases @twoRows_read seq id spelled with
  | cons first later =>
    cases later with
    | cons second _ =>
      rcases List.mem_cons.mp inside with rfl | inside
      · cases first.symm.trans read
        exact .inl rfl
      · rw [List.mem_singleton.mp inside] at read
        cases second.symm.trans read
        exact .inr rfl

theorem arrays_apart : realCrates.sha256 (realCrates.toVec refusedArray) ≠ realCrates.sha256
    (realCrates.toVec allowedArray) := by
  intro same
  have hex : chainHash realCrates genesis (refusedRecord 1).judged =
      chainHash realCrates (refusedRecord 1).chainHash (allowedRecord 1).judged := congrArg realCrates.hexEncode same
  rw [refused_digest, allowed_digest] at hex
  exact absurd hex (by decide)

/-- Tables of the two rows hash the same two arrays. -/
theorem twoRows_apart {seq seq' : Int} {id id' : String} (spelled : parseId realCrates id.toList = some refusedId.text)
    (spelled' : parseId realCrates id'.toList = some refusedId.text) :
    Apart realCrates (twoRows seq id) (twoRows seq' id') := by
  have alike : ∀ array other, Hashed realCrates (twoRows seq id) array → Hashed realCrates (twoRows seq' id') other →
      realCrates.sha256 (realCrates.toVec array) = realCrates.sha256 (realCrates.toVec other) → array = other := by
    intro array other hashed hashed' same
    rcases twoRows_hashed spelled hashed with rfl | rfl <;> rcases twoRows_hashed spelled' hashed' with rfl | rfl
    · rfl
    · exact absurd same arrays_apart
    · exact absurd same.symm arrays_apart
    · rfl
  exact ⟨fun array other hashed hashed' same => alike array other hashed hashed' (congrArg _ same),
    fun array other hashed hashed' same => congrArg _ (alike array other hashed hashed' same)⟩

example : parseId realCrates "01890a5d".toList = none := by decide +kernel

theorem capitals_spelled : parseId realCrates "01890A5D-AC96-774B-BCCE-B302099A8057".toList = some refusedId.text := by
  decide +kernel

theorem capitals_respelled : ¬ SameIds (twoRows 1 smallId) capitals := by
  rw [SameIds, capitals, twoRows_ids, twoRows_ids, List.cons.injEq, Cell.text.injEq]
  exact fun same => absurd same.1 (by decide)

/-- Spelling the id in capitals changes the row, and neither the last hash nor the verdict. -/
theorem log_commits_respelled :
    verifyExecutionLog realCrates (twoRows 1 smallId) = .ok 2 ∧
      verifyExecutionLog realCrates capitals = .ok 2 ∧
      Apart realCrates (twoRows 1 smallId) capitals ∧
      lastChainHash (twoRows 1 smallId) = lastChainHash capitals ∧
      ¬ SameRows (twoRows 1 smallId) capitals :=
  ⟨twoRows_verify refusedId.canonical, twoRows_verify capitals_spelled,
    twoRows_apart refusedId.canonical capitals_spelled, (twoRows_lastHash _ _).trans (twoRows_lastHash _ _).symm,
    fun same => capitals_respelled (sameIds_of_sameRows same)⟩

/-- Two processes append, one of them again after a rollback. -/
def appends : List (Action realCrates) :=
  [.begin_ 1 refusedId refused, .commit, .begin_ 2 allowedId refused, .rollback, .begin_ 2 allowedId allowed, .commit]

theorem appends_rows : ∃ state, run (step realCrates) State.empty appends = some state ∧
    state.db.table = twoRows 1 smallId := by
  have rows : [newRow realCrates 1 genesis refusedId refused,
      newRow realCrates 2 (chainHash realCrates genesis (refused.judged realCrates refusedId)) allowedId allowed] =
      (twoRows 1 smallId).rows := by
    simp only [newRow, refused_judged, allowed_judged, refused_digest, allowed_digest]
    rfl
  have table {written : Table} (same : written.rows = (twoRows 1 smallId).rows) :
      written = twoRows 1 smallId := by
    obtain ⟨_, _⟩ := written
    subst same
    rfl
  exact ⟨_, rfl, table rows⟩

/-- What was appended verifies; under other keys it is the same rows, and with an id in capitals it is not. -/
theorem log_commits_renumbered : ∃ state, run (step realCrates) State.empty appends = some state ∧
    verifyExecutionLog realCrates state.db.table = .ok 2 ∧
      SameRows state.db.table (twoRows 5 smallId) ∧ ¬ SameRows state.db.table capitals := by
  obtain ⟨state, ran, table⟩ := appends_rows
  obtain ⟨verified, committed⟩ := log_commits realCrates
  have verifies : verifyExecutionLog realCrates state.db.table = .ok 2 := by
    rw [verified appends state ran, table]
    rfl
  obtain ⟨_, _, _, renumbered⟩ := committed realCrates_encodesHex state.db.table
    (twoRows 5 smallId) 2 2 verifies (twoRows_verify refusedId.canonical)
    (table ▸ twoRows_apart refusedId.canonical refusedId.canonical)
    (by rw [table, twoRows_lastHash, twoRows_lastHash])
  obtain ⟨_, _, _, respelled⟩ := committed realCrates_encodesHex state.db.table capitals 2 2 verifies
    (twoRows_verify capitals_spelled) (table ▸ twoRows_apart refusedId.canonical capitals_spelled)
    (by rw [table, capitals, twoRows_lastHash, twoRows_lastHash])
  refine ⟨state, ran, verifies, renumbered.mpr ?_, fun same => capitals_respelled (table ▸ respelled.mp same)⟩
  rw [SameIds, table, twoRows_ids, twoRows_ids]

end QueryHive.Storage.ExecutionLog
