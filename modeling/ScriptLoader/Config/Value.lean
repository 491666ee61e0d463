import ScriptLoader.Text.Quoted
import ScriptLoader.Toml.Reader

/-!
# Values of settings

Settings come from several layers as values of a few kinds. A layer is laid over another key by key;
where only one of two values is a table the upper one counts.

* `Setting.laidOver`: a value laid over another.
* `Setting.at?`: the value that keys lead to.
* `Setting.ofToml`: the settings of a document.
-/

namespace ScriptLoader.Config

/-- A value of a setting. -/
inductive Setting where
  | unset
  | truth (value : Bool)
  | signed (value : Int)
  | unsigned (value : Nat)
  | double (value : Decimal.Double)
  | character (value : Char)
  | text (value : String)
  | array (items : List Setting)
  | table (fields : List (String × Setting))
  deriving Inhabited

namespace Setting

mutual

/-- A value laid over another. -/
def laidOver (upper lower : Setting) : Setting :=
  match upper with
  | table fields =>
    match lower with
    | table below => table (laidOverFields fields below)
    | _ => upper
  | _ => upper
termination_by sizeOf upper

/-- Fields laid over others, one after the other. -/
def laidOverFields (fields below : List (String × Setting)) : List (String × Setting) :=
  match fields with
  | [] => below
  | (k, v) :: rest =>
    let v := match Keyed.get? k below with
      | some w => laidOver v w
      | none => v
    laidOverFields rest (Keyed.put k v below)
termination_by sizeOf fields

end

/-- The value that keys lead to. The items of an array have their positions as keys. -/
def at? (s : Setting) : List String → Option Setting
  | [] => some s
  | key :: keys =>
    match s with
    | table fields => (Keyed.get? key fields).bind fun v => v.at? keys
    | array items => (key.toNat?.bind fun i => items[i]?).bind fun v => v.at? keys
    | _ => none

/-- What the description of an unexpected value says. -/
def described : Setting → String
  | unset => "unit"
  | truth b => s!"bool {b}"
  | signed i => s!"signed int \x60{i}\x60"
  | unsigned n => s!"unsigned int \x60{n}\x60"
  | double d => s!"float \x60{d.text}\x60"
  | character c => "char " ++ Text.debugQuotedChar c
  | text s => s!"string {Text.debugQuoted s}"
  | array _ => "sequence"
  | table _ => "map"

/-- The only key of the table that stands for a date or a time. -/
def momentKey : String := "$__toml_private_datetime"

mutual

/-- The setting of a value of a document. -/
def ofNode : Toml.Node → Setting
  | .integer i => signed i
  | .double d => double d
  | .truth b => truth b
  | .text s => text s
  | .moment m => table [(momentKey, text m)]
  | .array items => array (ofNodes items)
  | .table _ fields => table (ofFields fields)
  | .tables items => array (ofItems items).reverse

def ofNodes : List Toml.Node → List Setting
  | [] => []
  | n :: ns => ofNode n :: ofNodes ns

def ofFields : List (String × Toml.Node) → List (String × Setting)
  | [] => []
  | (k, n) :: rest => (k, ofNode n) :: ofFields rest

def ofItems : List (List (String × Toml.Node)) → List Setting
  | [] => []
  | fields :: rest => table (ofFields fields) :: ofItems rest

end

/-- The settings of a document, or `none` if it is none. -/
def ofToml (document : String) : Option Setting :=
  (Toml.read? document).map fun fields => table (ofFields fields)

end Setting

end ScriptLoader.Config
