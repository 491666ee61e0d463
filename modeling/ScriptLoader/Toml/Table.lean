import ScriptLoader.Decimal.Double
import ScriptLoader.Keyed

/-!
# Tables of a TOML document

A document is built one key or one header at a time. What may still be added to a table depends on
how it came about: a table is defined by its header once, a table that only the keys of another
spelled out takes no header, and an inline table takes nothing more.

* `Table.assign`: a value under a dotted key.
* `Table.openTable`, `Table.openItem`: the headers of a table and of an item of an array of tables.
-/

namespace ScriptLoader.Toml

/-- How a table came about. -/
inductive Origin where
  /-- It has a header of its own. -/
  | header
  /-- A header below it names it. -/
  | implied
  /-- A dotted key names it. -/
  | dotted
  /-- It is written inside a value. -/
  | inline
  deriving DecidableEq, Inhabited

/-- A value of a document. -/
inductive Node where
  | integer (value : Int)
  | double (value : Decimal.Double)
  | truth (value : Bool)
  | text (value : String)
  /-- A date, a time or both, as it is written. -/
  | moment (written : String)
  | array (items : List Node)
  | table (origin : Origin) (fields : List (String × Node))
  /-- An array of tables that have headers, the last one first. -/
  | tables (items : List (List (String × Node)))
  deriving Inhabited

namespace Table

/-- The fields of a table. -/
abbrev Fields := List (String × Node)

/-- Changes the fields of the table at the end of a path and puts tables where the path has none.
`dotted` tells that the path is the front of a dotted key. -/
def descend (dotted : Bool) (change : Origin → Fields → Option Fields) :
    List String → Origin → Fields → Option Fields
  | [], origin, fields => change origin fields
  | k :: path, _, fields =>
    match Keyed.get? k fields with
    | none => do
      let origin := if dotted then .dotted else .implied
      let below ← descend dotted change path origin []
      some (Keyed.put k (.table origin below) fields)
    | some (.table origin below) =>
      if origin = .inline ∨ (dotted ∧ origin = .header) then none
      else do
        let below ← descend dotted change path origin below
        some (Keyed.put k (.table origin below) fields)
    | some (.tables (last :: before)) => do
      let last ← descend dotted change path .header last
      some (Keyed.put k (.tables (last :: before)) fields)
    | some _ => none

/-- Puts a value under a key that is not there. -/
def define (k : String) (v : Node) (fields : Fields) : Option Fields :=
  if Keyed.has k fields then none else some (Keyed.put k v fields)

/-- The path of a key and its last part. -/
def splitKey : List String → Option (List String × String)
  | [] => none
  | [k] => some ([], k)
  | k :: rest => (splitKey rest).map fun (path, last) => (k :: path, last)

/-- Puts a value under a dotted key of a table. A dotted key adds only to tables that dotted keys
made. -/
def assign (key : List String) (v : Node) (fields : Fields) : Option Fields := do
  let (path, last) ← splitKey key
  if path.isEmpty then define last v fields
  else
    descend true (fun origin below => if origin = .dotted then define last v below else none)
      path .header fields

/-- Opens the table of a header. -/
def openTable (key : List String) (root : Fields) : Option Fields := do
  let (path, last) ← splitKey key
  descend false (fun _ fields =>
    match Keyed.get? last fields with
    | none => some (Keyed.put last (.table .header []) fields)
    | some (.table .implied below) => some (Keyed.put last (.table .header below) fields)
    | some _ => none) path .header root

/-- Opens the next item of an array of tables. -/
def openItem (key : List String) (root : Fields) : Option Fields := do
  let (path, last) ← splitKey key
  descend false (fun _ fields =>
    match Keyed.get? last fields with
    | none => some (Keyed.put last (.tables [[]]) fields)
    | some (.tables items) => some (Keyed.put last (.tables ([] :: items)) fields)
    | some _ => none) path .header root

/-- Puts a value under a dotted key of the table that a header opened. -/
def assignIn (header key : List String) (v : Node) (root : Fields) : Option Fields :=
  descend false (fun _ fields => assign key v fields) header .header root

end Table

end ScriptLoader.Toml
