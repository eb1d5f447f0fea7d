import EventHub.Numeric.Double
/-!
# JSON values

Objects keep the order in which their keys first came. A number is an integer or a double, and the
two are told apart by how the number was written.
-/

namespace EventHub

inductive Json.Number where
  | int (n : Int)
  | double (d : Numeric.Double)
deriving DecidableEq, Repr

inductive Json where
  | null
  | bool (b : Bool)
  | number (n : Json.Number)
  | string (s : String)
  | array (items : List Json)
  | object (fields : List (String × Json))
deriving Repr, Inhabited

namespace Json

def isNull : Json → Bool
  | .null => true
  | _ => false

/-- A key that is present keeps its place and takes the new value; a new key goes to the end. -/
def insertField (key : String) (value : Json) : List (String × Json) → List (String × Json)
  | [] => [(key, value)]
  | (k, v) :: rest =>
    if k = key then (k, value) :: rest else (k, v) :: insertField key value rest

/-- The fields in order, of a repeated key the first place and the last value. -/
def ofPairs (pairs : List (String × Json)) : Json :=
  .object (pairs.foldl (fun fields p => insertField p.1 p.2 fields) [])

mutual

/-- Leaves out the null fields of every object at any depth. Null items of arrays stay, and so does
a value that is itself null. -/
def withoutNulls : Json → Json
  | .array items => .array (withoutNullItems items)
  | .object fields => .object (withoutNullFields fields)
  | .null => .null
  | .bool b => .bool b
  | .number n => .number n
  | .string s => .string s

def withoutNullItems : List Json → List Json
  | [] => []
  | v :: rest => withoutNulls v :: withoutNullItems rest

def withoutNullFields : List (String × Json) → List (String × Json)
  | [] => []
  | (k, v) :: rest =>
    if v.isNull then withoutNullFields rest
    else (k, withoutNulls v) :: withoutNullFields rest

end

end Json

end EventHub
