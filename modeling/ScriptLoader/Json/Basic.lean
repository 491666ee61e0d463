import ScriptLoader.Decimal.Double

/-!
# JSON values

Values with exact integers, doubles, and objects whose fields are sorted by key.

* `Json.insertField`: a field put into a sorted object replaces an earlier one of its key.
-/

namespace ScriptLoader

/-- A number is an integer of 64 bits, signed or not, or a double. -/
inductive JsonNumber where
  | int (value : Int)
  | double (value : Decimal.Double)
  deriving DecidableEq

/-- A JSON value. -/
inductive Json where
  | null
  | bool (value : Bool)
  | number (value : JsonNumber)
  | string (value : String)
  | array (items : List Json)
  | object (fields : List (String × Json))
  deriving Inhabited

namespace Json

/-- Puts a field into fields sorted by key; a field of that key is replaced. -/
def insertField (key : String) (value : Json) : List (String × Json) → List (String × Json)
  | [] => [(key, value)]
  | (k, v) :: rest =>
    if key < k then (key, value) :: (k, v) :: rest
    else if key = k then (key, value) :: rest
    else (k, v) :: insertField key value rest

/-- An object of the given fields; of two with one key the later counts. -/
def ofFields (fields : List (String × Json)) : Json :=
  .object (fields.foldl (fun acc (k, v) => insertField k v acc) [])

def ofNat (n : Nat) : Json := .number (.int n)

def strings (items : List String) : Json := .array (items.map .string)

def field? (key : String) : Json → Option Json
  | .object fields => (fields.find? (·.1 = key)).map (·.2)
  | _ => none

def isNull : Json → Bool
  | .null => true
  | _ => false

end Json

end ScriptLoader
