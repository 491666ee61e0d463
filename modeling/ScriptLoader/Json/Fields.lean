import ScriptLoader.Json.Basic

/-!
# Reading the fields of an object

Each reader takes the field of a key as a value of one kind. A field that is missing or of another
kind reads as a default: an empty text, `false`, an empty list, or what is given.
-/

namespace ScriptLoader.Json.Fields

def get (j : Json) (key : String) : Json := (j.field? key).getD .null

def has (j : Json) (key : String) : Bool := (j.field? key).isSome

def str? (j : Json) (key : String) : Option String :=
  match get j key with
  | .string s => some s
  | _ => none

def strOr (d : String) (j : Json) (key : String) : String := (str? j key).getD d

def str (j : Json) (key : String) : String := strOr "" j key

def boolOr (d : Bool) (j : Json) (key : String) : Bool :=
  match get j key with
  | .bool b => b
  | _ => d

def bool (j : Json) (key : String) : Bool := boolOr false j key

def list (j : Json) (key : String) : List Json :=
  match get j key with
  | .array xs => xs
  | _ => []

/-- A string as text; any other value as the empty text. -/
def asStr : Json → String
  | .string s => s
  | _ => ""

def strs (j : Json) (key : String) : List String := (list j key).map asStr

/-- The fields of an object, in the order of their keys. -/
def fields (j : Json) (key : String) : List (String × Json) :=
  match get j key with
  | .object fs => fs
  | _ => []

/-- The fields of an object as texts. -/
def texts (j : Json) (key : String) : List (String × String) :=
  (fields j key).map fun (k, v) => (k, asStr v)

def nat? (j : Json) (key : String) : Option Nat :=
  match get j key with
  | .number (.int i) => if 0 ≤ i then some i.toNat else none
  | _ => none

def natOr (d : Nat) (j : Json) (key : String) : Nat := (nat? j key).getD d

end ScriptLoader.Json.Fields
