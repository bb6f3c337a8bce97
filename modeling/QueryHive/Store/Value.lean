/-! The value every driver hands to the result store, and the states of a result
and of its chunks. Fixed-width integers keep the source's widths; a float is kept
by its bits, because nothing the store decides looks inside one. -/
namespace QueryHive.Store

/-- Months, days and microseconds are never collapsed into one number. -/
structure IntervalValue where
  months : Int32
  days : Int32
  micros : Int64
  deriving DecidableEq, Repr

/-- `qh_core::Value`: a value from any supported server, in one shape. -/
inductive Value where
  | null
  | bool (value : Bool)
  | int (value : Int64)
  | uint (value : UInt64)
  | float (bits : UInt64)
  | decimal (unscaled : BitVec 128) (scale : UInt8)
  | text (value : String)
  | bytes (value : List UInt8)
  | timestamp (micros : Int64) (offsetSecs : Option Int32)
  | date (days : Int32)
  | time (micros : Int64)
  | interval (value : IntervalValue)
  | json (value : String)
  | array (items : List Value)
  | row (fields : List Value)
  | map (entries : List (Value × Value))
  | unknown (typeName : String) (text : Option String) (raw : Option (List UInt8))

/-- The lifecycle of a result. Only `empty` and `streaming` accept writes. -/
inductive Phase where
  | empty | streaming | complete | cancelled | failed | released
  deriving DecidableEq, Repr

/-- A finished result: a sort may run over it. -/
def Phase.isFinished : Phase → Bool
  | .complete | .cancelled | .failed => true
  | _ => false

/-- Where a chunk's bytes are. -/
inductive Residency where
  | resident
  | spilled
  deriving DecidableEq, Repr

end QueryHive.Store
