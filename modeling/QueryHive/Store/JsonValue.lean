import QueryHive.Library.JsonText
import QueryHive.Store.RenderBuffer

/-! A value in the form JSON has for it. An object keeps its members in the order they came in, one for each
name: a name that comes again takes the place of its member. -/
namespace QueryHive.Store
open QueryHive.Library

def isFiniteFloat (bits : UInt64) : Bool := Buffer.absoluteBits bits < 0x7ff0000000000000

inductive Number where
  | posInt (n : UInt64)
  | negInt (n : Int64) (negative : n < 0)
  | float (bits : UInt64) (finite : isFiniteFloat bits = true)
  deriving DecidableEq, Repr

inductive Json where
  | null
  | bool (value : Bool)
  | number (value : Number)
  | string (text : String)
  | array (items : List Json)
  | object (members : List (String × Json))
  deriving Repr

namespace Json

/-- `Json::from(i64)`. -/
def ofInt (n : Int64) : Json :=
  if negative : n < 0 then .number (.negInt n negative) else .number (.posInt n.toUInt64)

/-- `Json::from(f64)`: what is not finite is null. -/
def ofFloat (bits : UInt64) : Json :=
  if finite : isFiniteFloat bits = true then .number (.float bits finite) else .null

/-- `Map::insert`, which keeps the order of the names. -/
def insert (name : String) (value : Json) : List (String × Json) → List (String × Json)
  | [] => [(name, value)]
  | member :: rest => if member.1 = name then (name, value) :: rest else member :: insert name value rest

def get (name : String) (members : List (String × Json)) : Option Json :=
  (members.find? (·.1 == name)).map Prod.snd

theorem insert_cons (name : String) (value : Json) (member : String × Json) (rest : List (String × Json)) :
    insert name value (member :: rest) = if member.1 = name then (name, value) :: rest
      else member :: insert name value rest := rfl

theorem get_insert_self (name : String) (value : Json) (members : List (String × Json)) :
    get name (insert name value members) = some value := by
  induction members with
  | nil => simp [insert, get]
  | cons member rest ih =>
    rw [insert_cons]
    split
    · simp [get]
    · next other => simpa [get, List.find?_cons, other] using ih

theorem get_insert_other (other : added ≠ name) (value : Json) (members : List (String × Json)) :
    get name (insert added value members) = get name members := by
  induction members with
  | nil => simp [insert, get, other]
  | cons member rest ih =>
    rw [insert_cons]
    split
    · next same => simp [get, same, other]
    · simp only [get, List.find?_cons] at ih ⊢
      split
      · rfl
      · exact ih

def member (name : String) : Json → Option Json
  | .object members => get name members
  | _ => none

def Unrepeated (members : List (String × Json)) : Prop := (members.map Prod.fst).Nodup

theorem names_insert (name : String) (value : Json) (members : List (String × Json)) :
    (insert name value members).map Prod.fst =
      if name ∈ members.map Prod.fst then members.map Prod.fst else members.map Prod.fst ++ [name] := by
  induction members with
  | nil => rfl
  | cons member rest ih =>
    rw [insert_cons]
    by_cases same : member.1 = name
    · simp [same]
    · have different : name ≠ member.1 := fun h => same h.symm
      simp only [if_neg same, List.map_cons, ih, List.mem_cons, different, false_or]
      split <;> rfl

theorem unrepeated_insert (unrepeated : Unrepeated members) : Unrepeated (insert name value members) := by
  unfold Unrepeated at *
  rw [names_insert]
  split
  · exact unrepeated
  · next absent =>
    refine List.nodup_append.mpr ⟨unrepeated, by simp, ?_⟩
    rintro other inside added single rfl
    exact absent (List.mem_singleton.mp single ▸ inside)

end Json

section
variable (floats : Buffer.FloatText) (quotient : BitVec 128 → UInt8 → UInt64)

/-- `decimal_to_f64`, where the quotient is `unscaled as f64 / 10f64.powi(scale)`. -/
def decimalToF64 (unscaled : BitVec 128) (scale : UInt8) : Option UInt64 :=
  let number := quotient unscaled scale
  if isFiniteFloat number then some number else none

mutual

/-- `to_json_value`. -/
def toJsonValue : Value → Json
  | .null => .null
  | .bool flag => .bool flag
  | .int number => Json.ofInt number
  | .uint number => .number (.posInt number)
  | .float number => Json.ofFloat number
  | .decimal unscaled scale =>
    match decimalToF64 quotient unscaled scale with
    | some number => Json.ofFloat number
    | none => .null
  | .text text => .string text
  | .array items => .array (toJsonValues items)
  | .row items => .array (toJsonValues items)
  | .map entries => .object (toJsonMembers [] entries)
  | other =>
    match Buffer.toText floats other with
    | some text => .string text
    | none => .null

def toJsonValues : List Value → List Json
  | [] => []
  | item :: rest => toJsonValue item :: toJsonValues rest

/-- The loop over the entries of a map, with the object built so far. -/
def toJsonMembers (object : List (String × Json)) : List (Value × Value) → List (String × Json)
  | [] => object
  | (key, entry) :: rest =>
    toJsonMembers (Json.insert ((Buffer.toText floats key).getD "") (toJsonValue entry) object) rest

end

end

end QueryHive.Store
