import ScriptLoader.Json.Basic
import ScriptLoader.Text.Quoted

/-!
# Writing JSON

The compact text, the indented text and the debug text of a value. A double is written with its
shortest digits, positionally while its point lies between 5 zeros before the digits and 16
digits, and with a fraction of at least one digit.

* `Json.render`: the compact text.
* `Json.renderPretty`: two blanks of indentation for each level.
* `Json.debugText`: constructors with their arguments.
-/

namespace ScriptLoader

open ScriptLoader.Decimal

/-- A finite double in JSON. -/
def doubleText (d : Double) : List Char :=
  let digits := d.digits
  let sign := if d.isNegative then ['-'] else []
  if d.isNaN || d.isInfinite then "null".toList
  else if -5 < digits.point ∧ digits.point ≤ 16 then
    let text := digits.positional
    sign ++ (if text.contains '.' then text else text ++ ['.', '0'])
  else sign ++ digits.scientific []

def JsonNumber.text : JsonNumber → List Char
  | .int i => intText i
  | .double d => doubleText d

namespace Json

/-- Pieces with a separator between any two neighbours. -/
def between (sep : String) : List String → String
  | [] => ""
  | p :: ps => ps.foldl (fun acc q => acc ++ sep ++ q) p

mutual

/-- The text of a value without blanks. -/
def render : Json → String
  | .null => "null"
  | .bool true => "true"
  | .bool false => "false"
  | .number n => String.ofList n.text
  | .string s => Text.jsonQuoted s
  | .array items => "[" ++ between "," (renderItems items) ++ "]"
  | .object fields => "\x7b" ++ between "," (renderFields fields) ++ "\x7d"

def renderItems : List Json → List String
  | [] => []
  | v :: vs => render v :: renderItems vs

def renderFields : List (String × Json) → List String
  | [] => []
  | (k, v) :: fs => (Text.jsonQuoted k ++ ":" ++ render v) :: renderFields fs

end

/-- A line feed and the indentation of a level. -/
def newline (level : Nat) : String := String.ofList ('\n' :: List.replicate (2 * level) ' ')

mutual

/-- The text of a value with one item or field on a line. -/
def renderPretty (level : Nat) : Json → String
  | .array [] => "[]"
  | .array (v :: vs) =>
    "[" ++ newline (level + 1) ++
      between ("," ++ newline (level + 1)) (prettyItems (level + 1) (v :: vs)) ++
      newline level ++ "]"
  | .object [] => "\x7b\x7d"
  | .object (f :: fs) =>
    "\x7b" ++ newline (level + 1) ++
      between ("," ++ newline (level + 1)) (prettyFields (level + 1) (f :: fs)) ++
      newline level ++ "\x7d"
  | .null => "null"
  | .bool b => render (.bool b)
  | .number n => render (.number n)
  | .string s => render (.string s)

def prettyItems (level : Nat) : List Json → List String
  | [] => []
  | v :: vs => renderPretty level v :: prettyItems level vs

def prettyFields (level : Nat) : List (String × Json) → List String
  | [] => []
  | (k, v) :: fs => (Text.jsonQuoted k ++ ": " ++ renderPretty level v) :: prettyFields level fs

end

mutual

/-- A value by its constructors. -/
def debugText : Json → String
  | .null => "Null"
  | .bool true => "Bool(true)"
  | .bool false => "Bool(false)"
  | .number n => "Number(" ++ String.ofList n.text ++ ")"
  | .string s => "String(" ++ Text.debugQuoted s ++ ")"
  | .array items => "Array [" ++ between ", " (debugItems items) ++ "]"
  | .object fields => "Object \x7b" ++ between ", " (debugFields fields) ++ "\x7d"

def debugItems : List Json → List String
  | [] => []
  | v :: vs => debugText v :: debugItems vs

def debugFields : List (String × Json) → List String
  | [] => []
  | (k, v) :: fs => (Text.debugQuoted k ++ ": " ++ debugText v) :: debugFields fs

end

end Json

end ScriptLoader
