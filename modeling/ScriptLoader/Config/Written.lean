import ScriptLoader.Config.Value
import ScriptLoader.Text.Classes

/-!
# Settings written on one line

The value of a setting that a variable of the environment holds. Truth values, numbers, quoted
texts, arrays in brackets and tables in braces are read as such; whatever else a text is, it stands
for itself.

* `Written.read`: the setting that a text stands for.
-/

namespace ScriptLoader.Config.Written

open Toml (isGap skipGap)

/-- Whether a character ends a bare value. -/
def isSeparator (c : Char) : Bool := c = ',' || c = '\x7b' || c = '\x7d' || c = '[' || c = ']'

/-- A whole number without a sign, or with a plus sign, below `2 ^ 64`. -/
def unsigned? (cs : List Char) : Option Nat :=
  let ds := match cs with
    | '+' :: rest => rest
    | cs => cs
  if ds.isEmpty || !ds.all Decimal.isDigit then none
  else if Decimal.ofDigits ds < 1 <<< 64 then some (Decimal.ofDigits ds) else none

/-- A whole number behind a minus sign, down to `-2 ^ 63`. -/
def negative? : List Char → Option Int
  | '-' :: ds =>
    if ds.isEmpty || !ds.all Decimal.isDigit then none
    else if Decimal.ofDigits ds ≤ 1 <<< 63 then some (-(Decimal.ofDigits ds : Int)) else none
  | _ => none

/-- A value without delimiters: a number or a text. -/
def bare (cs : List Char) : Setting :=
  let double := if cs.contains '.' then Decimal.Double.read? cs else none
  match double, unsigned? cs, negative? cs with
  | some d, _, _ => .double d
  | none, some n, _ => .unsigned n
  | none, none, some i => .signed i
  | none, none, none => .text (String.ofList cs)

/-- The characters up to a quote that no backslash stands before, and those behind it. -/
def quotedBody? : List Char → Option (List Char × List Char)
  | [] => none
  | '"' :: rest => some ([], rest)
  | '\\' :: c :: rest => (quotedBody? rest).map fun (body, rest) => ('\\' :: c :: body, rest)
  | c :: rest => (quotedBody? rest).map fun (body, rest) => (c :: body, rest)

/-- The text of the characters between quotes. `fuel` bounds them. -/
def unescape? : Nat → List Char → Option (List Char)
  | 0, _ => none
  | _ + 1, [] => some []
  | fuel + 1, '\\' :: cs => do
    let (c, rest) ← Toml.escape? cs
    (unescape? fuel rest).map (c :: ·)
  | fuel + 1, c :: cs => if Toml.isPlain c then (unescape? fuel cs).map (c :: ·) else none

/-- A text behind its opening quote. -/
def quoted? (cs : List Char) : Option (String × List Char) := do
  let (body, rest) ← quotedBody? cs
  let s ← unescape? (body.length + 1) body
  some (String.ofList s, rest)

/-- Items up to a closing mark, behind the opening one; a comma may follow the last. `fuel` bounds
the items. -/
def items? {α : Type} (close : Char) (item : List Char → Option (α × List Char)) :
    Nat → List Char → Option (List α × List Char)
  | 0, _ => none
  | fuel + 1, cs =>
    if cs.head? = some close then some ([], cs.drop 1)
    else do
      let (x, rest) ← item cs
      match rest with
      | ',' :: rest =>
        let (xs, rest) ← items? close item fuel rest
        some (x :: xs, rest)
      | rest => (Toml.expect? close rest).map fun rest => ([x], rest)

/-- A key of a table, with blanks around it. -/
def key? (cs : List Char) : Option (String × List Char) :=
  match skipGap cs with
  | '"' :: rest => (quoted? rest).map fun (k, rest) => (k, skipGap rest)
  | cs =>
    let k := cs.takeWhile Toml.isBare
    if k.isEmpty then none else some (String.ofList k, skipGap (cs.drop k.length))

/-- A value with blanks around it. `depth` bounds the containers inside each other. -/
def value? : Nat → List Char → Option (Setting × List Char)
  | 0, _ => none
  | depth + 1, cs =>
    let read := match skipGap cs with
      | 't' :: 'r' :: 'u' :: 'e' :: rest => some (Setting.truth true, rest)
      | 'f' :: 'a' :: 'l' :: 's' :: 'e' :: rest => some (.truth false, rest)
      | '\x7b' :: rest =>
        let pair := fun cs => do
          let (k, rest) ← key? cs
          let (v, rest) ← value? depth (← Toml.expect? '=' rest)
          some ((k, v), rest)
        (items? '\x7d' pair (rest.length + 1) rest).map fun (ps, rest) =>
          (.table (Keyed.putAll ps []), rest)
      | '[' :: rest =>
        (items? ']' (value? depth) (rest.length + 1) rest).map fun (vs, rest) => (.array vs, rest)
      | '"' :: rest => (quoted? rest).map fun (s, rest) => (.text s, rest)
      | '\x27' :: c :: '\x27' :: rest => some (.character c, rest)
      | '\x27' :: _ => none
      | cs =>
        let written := cs.takeWhile fun c => !isSeparator c
        some (bare (Text.trim written), cs.drop written.length)
    read.map fun (v, rest) => (v, skipGap rest)

/-- The setting that a text stands for. -/
def read (text : String) : Setting :=
  let cs := text.toList
  match value? (cs.length + 1) cs with
  | some (v, []) => v
  | _ => .text text

end ScriptLoader.Config.Written
