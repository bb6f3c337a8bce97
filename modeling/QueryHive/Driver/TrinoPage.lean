import QueryHive.Core.Error

/-! One page of Trino's client protocol: how it is read, in whatever order its keys
come, and the errors a page request and a page itself end with. A cell's JSON and the
decoder of cells are parameters. -/
namespace QueryHive.Driver.Trino
open QueryHive.Core

structure WireColumn where
  name : String
  typeText : String
  deriving DecidableEq, Repr

structure WireErrorLocation where
  lineNumber : Nat
  columnNumber : Nat
  deriving DecidableEq, Repr

/-- A page's error object. Everything but its message may be missing. -/
structure WireError where
  message : String
  errorCode : Option Int := none
  errorName : Option String := none
  errorType : Option String := none
  errorLocation : Option WireErrorLocation := none
  deriving DecidableEq, Repr

/-- How one cell becomes a value: by its column's type, or kept when no column has its
place. -/
structure Decoder (Cell Value : Type) where
  decode : String → Cell → Value
  unknown : Cell → Value
  null : Value

variable {Cell Value : Type}

/-- One key of a page, with its value; `null` is a missing value. -/
inductive PageEntry (Cell : Type) where
  | id (value : Option String)
  | nextUri (value : Option String)
  | columns (value : Option (List WireColumn))
  | error (value : Option WireError)
  | updateCount (value : Option Int)
  | data (value : Option (List (List Cell)))
  | other (key : String)
  deriving DecidableEq, Repr

def PageEntry.key : PageEntry Cell → String
  | id _ => "id"
  | nextUri _ => "nextUri"
  | columns _ => "columns"
  | error _ => "error"
  | updateCount _ => "updateCount"
  | data _ => "data"
  | other key => "other " ++ key

/-- `Page`: every field is optional, because the protocol says so. -/
structure Page (Value : Type) where
  id : Option String := none
  nextUri : Option String := none
  columns : Option (List WireColumn) := none
  rows : Option (List (List Value)) := none
  error : Option WireError := none
  updateCount : Option Int := none
  deriving DecidableEq, Repr

/-- `decode_cell`: more values than the page declared columns keep the value. -/
def decodeCell (decoder : Decoder Cell Value) (columns : List WireColumn) (index : Nat) (cell : Cell) : Value :=
  match columns[index]? with
  | some column => decoder.decode column.typeText cell
  | none => decoder.unknown cell

def decodeRow (decoder : Decoder Cell Value) (columns : List WireColumn) (row : List Cell) : List Value :=
  row.mapIdx (decodeCell decoder columns)

/-- `decode_rows`. -/
def decodeRows (decoder : Decoder Cell Value) (columns : List WireColumn) (rows : List (List Cell)) :
    List (List Value) :=
  rows.map (decodeRow decoder columns)

/-- A page while it is read, with the cells that came before their columns. -/
structure Reading (Cell Value : Type) where
  page : Page Value := {}
  raw : Option (List (List Cell)) := none

/-- One key of `visit_map`. -/
def visitEntry (decoder : Decoder Cell Value) (reading : Reading Cell Value) : PageEntry Cell → Reading Cell Value
  | .id value => { reading with page := { reading.page with id := value } }
  | .nextUri value => { reading with page := { reading.page with nextUri := value } }
  | .columns value => { reading with page := { reading.page with columns := value } }
  | .error value => { reading with page := { reading.page with error := value } }
  | .updateCount value => { reading with page := { reading.page with updateCount := value } }
  | .data value =>
    match reading.page.columns with
    | some columns => { reading with page := { reading.page with rows := value.map (decodeRows decoder columns) } }
    | none => { reading with raw := value }
  | .other _ => reading

/-- The end of `visit_map`: cells that came first are decoded once the columns are known. -/
def finishReading (decoder : Decoder Cell Value) (reading : Reading Cell Value) : Page Value :=
  match reading.page.columns, reading.raw with
  | some columns, some raw => { reading.page with rows := some (decodeRows decoder columns raw) }
  | _, _ => reading.page

/-- `visit_map`. -/
def visitMap (decoder : Decoder Cell Value) (entries : List (PageEntry Cell)) : Page Value :=
  finishReading decoder (entries.foldl (visitEntry decoder) {})

def valueOf (get : PageEntry Cell → Option (Option α)) (entries : List (PageEntry Cell)) : Option α :=
  (entries.findSome? get).join

def PageEntry.columns? : PageEntry Cell → Option (Option (List WireColumn))
  | columns value => some value
  | _ => none

def PageEntry.data? : PageEntry Cell → Option (Option (List (List Cell)))
  | data value => some value
  | _ => none

/-- A JSON object: no key twice. -/
structure Body (Cell : Type) where
  entries : List (PageEntry Cell)
  distinct : (entries.map PageEntry.key).Nodup

def Body.columns (body : Body Cell) : Option (List WireColumn) := valueOf PageEntry.columns? body.entries

def Body.data (body : Body Cell) : List (List Cell) := (valueOf PageEntry.data? body.entries).getD []

def Body.rows (decoder : Decoder Cell Value) (body : Body Cell) : List (List Value) :=
  decodeRows decoder (body.columns.getD []) body.data

def Body.page (decoder : Decoder Cell Value) (body : Body Cell) : Page Value := visitMap decoder body.entries

def Page.data (page : Page Value) : List (List Value) := page.rows.getD []

theorem valueOf_skip {get : PageEntry Cell → Option (Option α)} (entries : List (PageEntry Cell))
    (skip : get entry = none) :
    valueOf get (entries ++ [entry]) = valueOf get entries := by
  rw [valueOf, List.findSome?_append, List.findSome?_singleton, skip, Option.or_none, valueOf]

theorem valueOf_first {get : PageEntry Cell → Option (Option α)} {entries : List (PageEntry Cell)}
    (missing : entries.findSome? get = none) (hit : get entry = some value) :
    valueOf get (entries ++ [entry]) = value := by
  rw [valueOf, List.findSome?_append, List.findSome?_singleton, missing, hit]
  rfl

theorem valueOf_missing {get : PageEntry Cell → Option (Option α)} {entries : List (PageEntry Cell)}
    (missing : entries.findSome? get = none) : valueOf get entries = none := by
  rw [valueOf, missing]
  rfl

/-- What has been read of the columns and the rows after some keys. -/
structure ReadSoFar (decoder : Decoder Cell Value) (entries : List (PageEntry Cell))
    (reading : Reading Cell Value) : Prop where
  columns : reading.page.columns = valueOf PageEntry.columns? entries
  data : (reading.page.rows = none ∧ reading.raw = valueOf PageEntry.data? entries) ∨
    ∃ columns, valueOf PageEntry.columns? entries = some columns ∧ reading.raw = none ∧
      reading.page.rows = (valueOf PageEntry.data? entries).map (decodeRows decoder columns)

theorem no_columns_yet {entries : List (PageEntry Cell)} (fresh : "columns" ∉ entries.map PageEntry.key) :
    entries.findSome? PageEntry.columns? = none := by
  refine List.findSome?_eq_none_iff.mpr fun entry inside => ?_
  cases entry with
  | columns value => exact absurd (List.mem_map.mpr ⟨_, inside, rfl⟩) fresh
  | _ => rfl

theorem no_data_yet {entries : List (PageEntry Cell)} (fresh : "data" ∉ entries.map PageEntry.key) :
    entries.findSome? PageEntry.data? = none := by
  refine List.findSome?_eq_none_iff.mpr fun entry inside => ?_
  cases entry with
  | data value => exact absurd (List.mem_map.mpr ⟨_, inside, rfl⟩) fresh
  | _ => rfl

/-- One more key. -/
theorem ReadSoFar.visit {decoder : Decoder Cell Value} {reading : Reading Cell Value}
    (sofar : ReadSoFar decoder entries reading) (entry : PageEntry Cell)
    (fresh : entry.key ∉ entries.map PageEntry.key) :
    ReadSoFar decoder (entries ++ [entry]) (visitEntry decoder reading entry) := by
  obtain ⟨columns, data⟩ := sofar
  cases entry with
  | columns value =>
    have unknown := no_columns_yet fresh
    refine ⟨(valueOf_first unknown rfl).symm, .inl ?_⟩
    obtain ⟨rows, raw⟩ | ⟨named, found, -⟩ := data
    · exact ⟨rows, raw.trans (valueOf_skip entries rfl).symm⟩
    · rw [valueOf_missing unknown] at found
      cases found
  | data value =>
    have missing := no_data_yet fresh
    have same : valueOf PageEntry.columns? (entries ++ [.data value]) = valueOf PageEntry.columns? entries :=
      valueOf_skip entries rfl
    have now : valueOf PageEntry.data? (entries ++ [.data value]) = value := valueOf_first missing rfl
    obtain ⟨rows, raw⟩ : reading.page.rows = none ∧ reading.raw = none := by
      rw [valueOf_missing missing] at data
      obtain ⟨rows, raw⟩ | ⟨_, -, raw, rows⟩ := data
      · exact ⟨rows, raw⟩
      · exact ⟨rows, raw⟩
    unfold visitEntry
    dsimp only
    cases named : reading.page.columns with
    | none => exact ⟨by rw [same, columns], .inl ⟨rows, now.symm⟩⟩
    | some found =>
      rw [named] at columns
      exact ⟨by rw [same, ← columns], .inr ⟨found, by rw [same, ← columns], raw, by rw [now]⟩⟩
  | id value | nextUri value | error value | updateCount value | other key =>
    refine ⟨columns.trans (valueOf_skip entries rfl).symm, ?_⟩
    rw [valueOf_skip entries rfl, valueOf_skip entries rfl]
    exact data

theorem readSoFar {decoder : Decoder Cell Value} (entries : List (PageEntry Cell))
    (distinct : (entries.map PageEntry.key).Nodup) :
    ReadSoFar decoder entries (entries.foldl (visitEntry decoder) {}) := by
  induction entries using List.reverseRecOn with
  | nil => exact ⟨rfl, .inl ⟨rfl, rfl⟩⟩
  | append_singleton entries entry ih =>
    rw [List.map_append, List.nodup_append] at distinct
    rw [List.foldl_concat]
    refine (ih distinct.1).visit entry fun inside => ?_
    exact distinct.2.2 entry.key inside entry.key (List.mem_singleton.mpr rfl) rfl

/-- A page that names its columns carries its rows in whatever order its keys come; one
that does not has lost them. -/
theorem page_data (decoder : Decoder Cell Value) (body : Body Cell) :
    (body.page decoder).data = if body.columns.isSome then body.rows decoder else [] := by
  obtain ⟨columns, data⟩ : ReadSoFar decoder body.entries (body.entries.foldl (visitEntry decoder) {}) :=
    readSoFar body.entries body.distinct
  unfold Body.page visitMap Body.rows Body.columns Body.data
  generalize body.entries.foldl (visitEntry decoder) {} = reading at columns data ⊢
  rw [← columns] at data ⊢
  unfold finishReading Page.data
  cases named : reading.page.columns with
  | none =>
    obtain ⟨rows, -⟩ | ⟨_, found, -⟩ := data
    · simp [rows]
    · rw [named] at found
      cases found
  | some found =>
    obtain ⟨rows, raw⟩ | ⟨_, same, raw, rows⟩ := data
    · rw [← raw]
      cases reading.raw <;> simp [rows, decodeRows]
    · rw [named] at same
      cases same
      rw [raw]
      simp only [rows]
      cases valueOf PageEntry.data? body.entries <;> simp [decodeRows]

/-- `is_timeout`. -/
def isTimeout (error : WireError) : Bool :=
  error.errorName = some "EXCEEDED_TIME_LIMIT" || error.errorName = some "QUERY_EXCEEDED_MAX_EXECUTION_TIME"

/-- Whether a retry may help: Trino's own `errorType` decides, and a cancel comes first. -/
def errorKind (error : WireError) : FailureKind :=
  if error.errorName = some "USER_CANCELED" then .cancelled
  else match error.errorType with
    | some "USER_ERROR" => .permanent
    | some _ => .transient
    | none => .permanent

/-- `map_error`. -/
def mapError (error : WireError) (sql : String) (timeoutMs : Option Nat) : EngineError :=
  if isTimeout error then .statementTimeout timeoutMs error.message
  else
    let position := error.errorLocation.bind fun place =>
      if sql.isEmpty then none else offsetOfLineColumn sql.toList place.lineNumber place.columnNumber
    let name := error.errorName.getD ""
    let message := if name.isEmpty then error.message else name ++ ": " ++ error.message
    .query message (error.errorCode.map toString) position (errorKind error)

/-- How the request of a page ended: it was not built or not answered, its body could not
be read, the status was no success, the body was no page, or the page is there. -/
inductive Request where
  | refused (why : String)
  | unsent (why : String)
  | unread (why : String)
  | status (code : Nat) (shown body : String)
  | noPage (why : String)
  | answered
  deriving DecidableEq, Repr

def Request.error : Request → Option EngineError
  | refused why => some (.query why none none .permanent)
  | unsent why => some (.query ("could not fetch the next page: " ++ why) none none .transient)
  | unread why => some (.query ("the page body could not be read: " ++ why) none none .transient)
  | status code shown body =>
    some (.query (shown ++ ": " ++ String.ofList (Library.Text.trim body.toList))
      (some (toString code)) none .transient)
  | noPage why => some (.query ("a page was not a Trino page: " ++ why) none none .transient)
  | answered => none

end QueryHive.Driver.Trino
