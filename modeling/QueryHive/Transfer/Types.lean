import QueryHive.Core.Error

/-! Column types between dialects. What a driver says of a source column is mapped to one of a closed
set of target types, or refused with the reason. -/
namespace QueryHive.Transfer
open Core (DriverKind)

/-- The dialects a transfer can write to. -/
inductive Target where
  | postgres | mysql
  deriving DecidableEq, Repr

def Target.label : Target → String
  | .postgres => "PostgreSQL"
  | .mysql => "MySQL"

inductive PgBuiltin where
  | inet | cidr | macaddr | macaddr8 | bit | varbit | xml | tsvector | tsquery | point | line | lseg | geoBox | path
  | polygon | circle
  deriving DecidableEq, Repr

def PgBuiltin.ddlName : PgBuiltin → String
  | .inet => "inet"
  | .cidr => "cidr"
  | .macaddr => "macaddr"
  | .macaddr8 => "macaddr8"
  | .bit => "bit"
  | .varbit => "varbit"
  | .xml => "xml"
  | .tsvector => "tsvector"
  | .tsquery => "tsquery"
  | .point => "point"
  | .line => "line"
  | .lseg => "lseg"
  | .geoBox => "box"
  | .path => "path"
  | .polygon => "polygon"
  | .circle => "circle"

/-- The logical types of a source column. -/
inductive Base where
  | bool | int8 | int16 | int24 | int32 | int64 | float32 | float64 | decimal | text | char | binary | uuid | date
  | time | timeTz | timestamp | timestampTz | interval | json | jsonb | array | map | row | enum | set | other
  | builtin (kind : PgBuiltin)
  deriving DecidableEq, Repr

def Base.intBytes : Base → Option Nat
  | .int8 => some 1
  | .int16 => some 2
  | .int24 => some 3
  | .int32 => some 4
  | .int64 => some 8
  | _ => none

inductive TimeZone where
  | none | offset | session
  deriving DecidableEq, Repr

/-- What a driver says of a column. Its `native` text, its OID and a row's fields decide nothing here. -/
inductive SqlType where
  | mk (base : Base) (precision : Option Nat) (scale : Option Int) (length : Option Nat) (unsigned : Bool)
      (timeZone : TimeZone) (fractionDigits decimals : Option Nat) (element : Option SqlType)
  deriving Repr

def SqlType.base : SqlType → Base
  | .mk base _ _ _ _ _ _ _ _ => base

/-- `SqlType::of`. -/
def SqlType.of (base : Base) : SqlType := .mk base none none none false .none none none none

/-- `with_length`. -/
def SqlType.withLength : SqlType → Nat → SqlType
  | .mk base precision scale _ unsigned timeZone fractionDigits decimals element, length =>
    .mk base precision scale (some length) unsigned timeZone fractionDigits decimals element

inductive TextSize where
  | text | medium | long
  deriving DecidableEq, Repr

/-- The type a target column gets. -/
inductive TargetType where
  | boolean
  | int (bytes : Nat) (unsigned : Bool)
  | numeric (precision : Option Nat) (scale : Nat)
  | float (double : Bool)
  | varchar (n : Nat)
  | char (n : Nat)
  | text (size : TextSize)
  | binary (n : Option Nat)
  | uuid
  | date
  | time (digits : Nat)
  | timeTz (digits : Nat)
  | timestamp (digits : Nat)
  | timestampTz (digits : Nat)
  | dateTime (digits : Nat)
  | interval
  | json
  | jsonb
  | array (element : TargetType)
  | builtin (kind : PgBuiltin) (length : Option Nat)
  deriving DecidableEq, Repr

/-- A type's name with a number in brackets. -/
def sized (name : String) (n : Nat) : String := name ++ "(" ++ toString n ++ ")"

/-- `render`: the text of a type in a dialect, if it has such a type. -/
def render : TargetType → Target → Option String
  | .boolean, .postgres => some "boolean"
  | .boolean, .mysql => some "tinyint(1)"
  | .int bytes false, .postgres =>
    match bytes with
    | 2 => some "smallint"
    | 4 => some "integer"
    | 8 => some "bigint"
    | _ => none
  | .int _ true, .postgres => none
  | .int bytes unsigned, .mysql =>
    let name := match bytes with
      | 1 => some "tinyint"
      | 2 => some "smallint"
      | 3 => some "mediumint"
      | 4 => some "int"
      | 8 => some "bigint"
      | _ => none
    name.map fun name => if unsigned then name ++ " unsigned" else name
  | .numeric none _, .postgres => some "numeric"
  | .numeric (some p) scale, .postgres => some ("numeric(" ++ toString p ++ "," ++ toString scale ++ ")")
  | .numeric (some p) scale, .mysql => some ("decimal(" ++ toString p ++ "," ++ toString scale ++ ")")
  | .numeric none _, .mysql => none
  | .float false, .postgres => some "real"
  | .float true, .postgres => some "double precision"
  | .float false, .mysql => some "float"
  | .float true, .mysql => some "double"
  | .varchar n, _ => some (sized "varchar" n)
  | .char n, _ => some (sized "char" n)
  | .text _, .postgres => some "text"
  | .text .text, .mysql => some "text"
  | .text .medium, .mysql => some "mediumtext"
  | .text .long, .mysql => some "longtext"
  | .binary _, .postgres => some "bytea"
  | .binary (some n), .mysql => some (sized "varbinary" n)
  | .binary none, .mysql => some "longblob"
  | .uuid, .postgres => some "uuid"
  | .uuid, .mysql => none
  | .date, _ => some "date"
  | .time digits, _ => some (sized "time" digits)
  | .timeTz digits, .postgres => some (sized "timetz" digits)
  | .timestamp digits, .postgres => some (sized "timestamp" digits)
  | .timestampTz digits, .postgres => some (sized "timestamptz" digits)
  | .dateTime digits, .mysql => some (sized "datetime" digits)
  | .interval, .postgres => some "interval"
  | .json, _ => some "json"
  | .jsonb, .postgres => some "jsonb"
  | .array element, .postgres => (render element .postgres).map (· ++ "[]")
  | .builtin kind length, .postgres =>
    match length with
    | some n => some (if kind = .bit ∨ kind = .varbit then sized kind.ddlName n else kind.ddlName)
    | none => some kind.ddlName
  | _, _ => none

/-- A target type with its text. -/
structure Resolved where
  ty : TargetType
  ddl : String
  deriving DecidableEq, Repr

inductive Mapping where
  | exact (resolved : Resolved)
  | widened (resolved : Resolved) (note : String)
  | textFallback (resolved : Resolved) (note : String)
  | refuse (reason : String)
  deriving DecidableEq, Repr

inductive Outcome where
  | exact | widened | textFallback | refuse
  deriving DecidableEq, Repr

def Mapping.outcome : Mapping → Outcome
  | .exact _ => .exact
  | .widened _ _ => .widened
  | .textFallback _ _ => .textFallback
  | .refuse _ => .refuse

def Mapping.resolved : Mapping → Option Resolved
  | .exact resolved => some resolved
  | .widened resolved _ => some resolved
  | .textFallback resolved _ => some resolved
  | .refuse _ => none

/-- What changed, or why not. -/
def Mapping.note : Mapping → Option String
  | .exact _ => none
  | .widened _ note => some note
  | .textFallback _ note => some note
  | .refuse reason => some reason

/-- `resolve`: a type that the dialect does not have is refused. -/
def resolve (ty : TargetType) (target : Target) (outcome : Resolved → Mapping) : Mapping :=
  match render ty target with
  | some ddl => outcome ⟨ty, ddl⟩
  | none => .refuse (target.label ++ " has no such column type")

def exact (ty : TargetType) (target : Target) : Mapping := resolve ty target .exact

def widened (ty : TargetType) (target : Target) (note : String) : Mapping :=
  resolve ty target fun resolved => .widened resolved note

def fallback (ty : TargetType) (target : Target) (note : String) : Mapping :=
  resolve ty target fun resolved => .textFallback resolved note

/-- `PG_VARCHAR_MAX`. -/
def pgVarcharMax : Nat := 10485760

/-- `MYSQL_VARCHAR_MAX`. -/
def mysqlVarcharMax : Nat := 16383

/-- `MYSQL_DECIMAL_DIGITS`. -/
def mysqlDecimalDigits : Nat := 65

/-- `MYSQL_DECIMAL_SCALE`. -/
def mysqlDecimalScale : Nat := 30

/-- `PG_NUMERIC_DIGITS`. -/
def pgNumericDigits : Nat := 1000

/-- `MAX_FRACTION`. -/
def maxFraction : Nat := 6

/-- `mysql_text_for`. -/
def mysqlTextFor : Option Nat → TargetType
  | none => .text .long
  | some n =>
    if n ≤ mysqlVarcharMax then .varchar n
    else if n * 4 ≤ 16777215 then .text .medium
    else .text .long

/-- An integer column. -/
def mapInt (bytes : Nat) (unsigned : Bool) : Target → Mapping
  | .mysql => exact (.int bytes unsigned) .mysql
  | .postgres =>
    if (bytes = 2 ∨ bytes = 4 ∨ bytes = 8) ∧ unsigned = false then exact (.int bytes unsigned) .postgres
    else if bytes = 1 then
      widened (.int 2 false) .postgres "PostgreSQL has no one-byte integer; written as smallint"
    else if bytes = 2 then
      widened (.int 4 false) .postgres "PostgreSQL has no unsigned integers; written as integer"
    else if bytes = 3 then
      widened (.int 4 false) .postgres "PostgreSQL has no three-byte integer; written as integer"
    else if bytes = 4 then
      widened (.int 8 false) .postgres "PostgreSQL has no unsigned integers; written as bigint"
    else
      widened (.numeric (some 20) 0) .postgres "PostgreSQL has no unsigned bigint; written as numeric(20,0)"

/-- `map_decimal`. -/
def mapDecimal (precision : Option Nat) (scale : Option Int) (target : Target) : Mapping :=
  if scale.any (· < 0) then .refuse "a decimal with a negative scale"
  else
    let scale := (scale.getD 0).toNat
    match target, precision with
    | .postgres, none => exact (.numeric none 0) .postgres
    | .postgres, some p =>
      if p = 0 ∨ p > pgNumericDigits ∨ scale > p then .refuse "a decimal PostgreSQL cannot declare"
      else exact (.numeric (some p) scale) .postgres
    | .mysql, none =>
      widened (.numeric (some mysqlDecimalDigits) mysqlDecimalScale) .mysql
        ("a decimal of no declared size is written as decimal(65,30); a value with more " ++
          "than 30 decimals or 35 whole digits is refused")
    | .mysql, some p =>
      if p = 0 ∨ p > mysqlDecimalDigits ∨ scale > mysqlDecimalScale ∨ scale > p then
        .refuse "a decimal beyond MySQL's 65 digits or 30 decimals"
      else exact (.numeric (some p) scale) .mysql

def mapText (length : Option Nat) : Target → Mapping
  | .postgres =>
    match length with
    | none => exact (.text .text) .postgres
    | some n =>
      if n ≤ pgVarcharMax then exact (.varchar n) .postgres
      else
        widened (.text .text) .postgres "the length is beyond PostgreSQL's varchar limit; written as text"
  | .mysql =>
    match length with
    | none => widened (.text .long) .mysql "text of no declared length is written as longtext"
    | some n =>
      if mysqlTextFor (some n) = .varchar n then exact (mysqlTextFor (some n)) .mysql
      else
        widened (mysqlTextFor (some n)) .mysql
          "the length is beyond a MySQL varchar row; written as a text type"

def mapChar (length : Option Nat) (source : DriverKind) (target : Target) : Mapping :=
  match target, length with
  | _, none => .refuse "a char column without a length"
  | .postgres, some n =>
    if n ≤ pgVarcharMax then exact (.char n) .postgres
    else .refuse "a char column longer than PostgreSQL allows"
  | .mysql, some n =>
    if n ≤ 255 then
      if source = .mysql then exact (.char n) .mysql
      else widened (.char n) .mysql "MySQL does not keep the padding of a char value"
    else widened (mysqlTextFor (some n)) .mysql "the length is beyond MySQL's char limit; written as varchar"

def mapBinary (length : Option Nat) : Target → Mapping
  | .postgres => exact (.binary none) .postgres
  | .mysql =>
    let blob := widened (.binary none) .mysql "binary data of no fitting length is written as longblob"
    match length with
    | some n => if n ≤ 65535 then exact (.binary (some n)) .mysql else blob
    | none => blob

/-- What every type with fractional seconds does first. -/
def withFraction (digits : Nat) (mapped : Mapping) : Mapping :=
  if digits > maxFraction then .refuse "fractional seconds beyond microseconds are not carried" else mapped

def mapTimestamp (session : Bool) (digits : Nat) (target : Target) : Mapping :=
  let note := "a MySQL timestamp is the wall clock of the source session's time zone"
  let ty := match target with
    | .postgres => .timestamp digits
    | .mysql => .dateTime digits
  if session then fallback ty target note else exact ty target

def mapBuiltin (kind : PgBuiltin) (length : Option Nat) (source : DriverKind) (target : Target) : Mapping :=
  if target = .postgres ∧ source = .postgres then
    let length := if kind = .bit ∨ kind = .varbit then length else none
    if kind = .bit ∧ length = none then .refuse "a bit column without a length"
    else exact (.builtin kind length) .postgres
  else .refuse "this PostgreSQL type can only be written to PostgreSQL"

/-- `map_array`, of an element that has this exact PostgreSQL type. -/
def mapArray (typed : Option TargetType) (source : DriverKind) : Target → Mapping
  | .postgres =>
    match typed with
    | some element => exact (.array element) .postgres
    | none =>
      if source = .postgres then
        .refuse ("the PostgreSQL driver hands an array over as text, which can only be " ++
          "written to an array of an element type that is written exactly")
      else fallback .jsonb .postgres "an array of this element type is written as jsonb"
  | .mysql =>
    if source = .postgres then
      .refuse ("the PostgreSQL driver hands an array over as text, and turning that text " ++
        "into JSON is not built")
    else
      fallback .json .mysql
        "MySQL has no array type; written as json, whose numbers are kept only as 64-bit integers or doubles"

def mapDocument (row : Bool) : Target → Mapping
  | .postgres =>
    fallback .jsonb .postgres
      (if row then "a row is written as a jsonb array; its field names are not kept"
        else "a map is written as a jsonb object")
  | .mysql =>
    fallback .json .mysql
      (if row then
          "a row is written as a json array; its field names are not kept, and its numbers are kept only as 64-bit integers or doubles"
        else
          "a map is written as a json object; its numbers are kept only as 64-bit integers or doubles, so a decimal a double cannot hold is refused")

mutual

/-- `map_type`. -/
def mapType : SqlType → DriverKind → Target → Mapping
  | .mk base precision scale length unsigned timeZone fractionDigits decimals element, source, target =>
    let digits := fractionDigits.getD 6
    match base with
    | .bool =>
      match target with
      | .postgres => exact .boolean .postgres
      | .mysql => widened .boolean .mysql "boolean is written as tinyint(1)"
    | .int8 | .int16 | .int24 | .int32 | .int64 => mapInt (base.intBytes.getD 8) unsigned target
    | .float32 =>
      if source = .mysql then
        .refuse ("MySQL sends a FLOAT as text rounded to 6 significant digits, so its value cannot be " ++
          "copied exactly; a DOUBLE column is copied exactly")
      else exact (.float false) target
    | .float64 =>
      if source = .mysql ∧ decimals.isSome then
        .refuse ("MySQL sends a DOUBLE column or expression declared with a fixed number of decimals " ++
          "as text rounded to them, so its value cannot be copied exactly; a plain DOUBLE " ++
          "column is copied exactly")
      else exact (.float true) target
    | .decimal => mapDecimal precision scale target
    | .text => mapText length target
    | .char => mapChar length source target
    | .binary => mapBinary length target
    | .uuid =>
      match target with
      | .postgres => exact .uuid .postgres
      | .mysql => fallback (.char 36) .mysql "MySQL has no uuid type; written as char(36) text"
    | .date => exact .date target
    | .time => withFraction digits (exact (.time digits) target)
    | .timeTz =>
      withFraction digits
        (if source = .trino then .refuse "the Trino driver cannot read a time with time zone"
          else match target with
            | .postgres => exact (.timeTz digits) .postgres
            | .mysql => .refuse "MySQL has no time with a time zone")
    | .timestamp => withFraction digits (mapTimestamp (timeZone = .session) digits target)
    | .timestampTz =>
      withFraction digits
        (match target with
          | .postgres => exact (.timestampTz digits) .postgres
          | .mysql =>
            fallback (.dateTime digits) .mysql
              "MySQL has no time zone in a datetime; written as the UTC wall clock")
    | .interval =>
      match target with
      | .postgres => exact .interval .postgres
      | .mysql => .refuse "MySQL has no interval type"
    | .json | .jsonb =>
      match target with
      | .postgres => exact (if base = .json then .json else .jsonb) .postgres
      | .mysql =>
        widened .json .mysql
          "MySQL json normalises key order and spacing, and keeps a number only as a 64-bit integer or a double (a value with any other number is refused)"
    | .array => mapArray (typedElement element source) source target
    | .map | .row => mapDocument (base = .row) target
    | .enum | .set =>
      match target with
      | .postgres => fallback (.text .text) .postgres "an enumerated value is written as text"
      | .mysql => fallback (.varchar 255) .mysql "an enumerated value is written as varchar(255)"
    | .builtin kind => mapBuiltin kind length source target
    | .other => .refuse "this column type has no faithful counterpart"

/-- The exact PostgreSQL type of an element; arrays, maps and rows go as JSON. -/
def typedElement : Option SqlType → DriverKind → Option TargetType
  | none, _ => none
  | some element, source =>
    if element.base = .array ∨ element.base = .map ∨ element.base = .row then none
    else
      match mapType element source .postgres with
      | .exact resolved => some resolved.ty
      | _ => none

end

/-- A column of the table to be created. -/
structure PlannedColumn where
  name : String
  ty : SqlType
  source : DriverKind
  target : Target
  resolved : Resolved
  outcome : Outcome
  note : Option String
  deriving Repr

/-- `PlannedColumn::from_mapping`. -/
def PlannedColumn.fromMapping (name : String) (ty : SqlType) (source : DriverKind) (target : Target)
    (mapping : Mapping) : Except String PlannedColumn :=
  match mapping with
  | .exact resolved | .widened resolved _ | .textFallback resolved _ =>
    .ok ⟨name, ty, source, target, resolved, mapping.outcome, mapping.note⟩
  | .refuse reason => .error reason

/-- Why a table cannot be created faithfully. -/
structure Refusal where
  column : Option Nat
  reason : String
  deriving DecidableEq, Repr

def Yields (good : TargetType → Prop) (mapping : Mapping) : Prop :=
  ∀ resolved, mapping.resolved = some resolved → good resolved.ty

theorem refuse_yields {good : TargetType → Prop} (reason : String) : Yields good (.refuse reason) := by
  intro resolved none
  cases none

theorem exact_yields {good : TargetType → Prop} (fits : good ty) (target : Target) : Yields good (exact ty target) := by
  intro resolved found
  unfold exact resolve at found
  split at found
  · cases found
    exact fits
  · cases found

theorem widened_yields {good : TargetType → Prop} (fits : good ty) (target : Target) (note : String) :
    Yields good (widened ty target note) := by
  intro resolved found
  unfold widened resolve at found
  split at found
  · cases found
    exact fits
  · cases found

theorem fallback_yields {good : TargetType → Prop} (fits : good ty) (target : Target) (note : String) :
    Yields good (fallback ty target note) := by
  intro resolved found
  unfold fallback resolve at found
  split at found
  · cases found
    exact fits
  · cases found

theorem withFraction_yields {good : TargetType → Prop} (digits : Nat) (yields : Yields good mapping) :
    Yields good (withFraction digits mapping) := by
  unfold withFraction
  split
  · exact refuse_yields _
  · exact yields

theorem fromMapping_yields {good : TargetType → Prop} (yields : Yields good mapping)
    (made : PlannedColumn.fromMapping name ty source target mapping = .ok column) : good column.resolved.ty := by
  cases mapping with
  | exact resolved =>
    cases made
    exact yields _ rfl
  | widened resolved note =>
    cases made
    exact yields _ rfl
  | textFallback resolved note =>
    cases made
    exact yields _ rfl
  | refuse reason => cases made

end QueryHive.Transfer
