import ScriptLoader.Text.Hex
import ScriptLoader.Text.Classes

/-!
# Quoted text

Two ways to write a string in double quotes: the JSON way, where control characters have short
escapes or four hexadecimal digits, and the debug way, where everything that is not shown as it
is stands as a braced code point.
-/

namespace ScriptLoader.Text

/-- One character of a JSON string. -/
def jsonEscape (c : Char) : List Char :=
  if c = '"' then ['\\', '"']
  else if c = '\\' then ['\\', '\\']
  else if c = '\n' then ['\\', 'n']
  else if c = '\r' then ['\\', 'r']
  else if c = '\t' then ['\\', 't']
  else if c.toNat = 8 then ['\\', 'b']
  else if c.toNat = 12 then ['\\', 'f']
  else if c.toNat < 32 then ['\\', 'u'] ++ hexDigits 4 c.toNat
  else [c]

/-- A JSON string literal. -/
def jsonQuote (cs : List Char) : List Char := '"' :: cs.flatMap jsonEscape ++ ['"']

/-- `jsonQuote` on strings. -/
def jsonQuoted (s : String) : String := String.ofList (jsonQuote s.toList)

/-- One character of a debug text. -/
def debugEscape (c : Char) : List Char :=
  if c = '"' then ['\\', '"']
  else if c = '\\' then ['\\', '\\']
  else if c = '\n' then ['\\', 'n']
  else if c = '\r' then ['\\', 'r']
  else if c = '\t' then ['\\', 't']
  else if c.toNat = 0 then ['\\', '0']
  else if isShown c then [c]
  else ['\\', 'u', '\x7b'] ++ Nat.toDigits 16 c.toNat ++ ['\x7d']

/-- A string in debug text. -/
def debugQuoted (s : String) : String :=
  String.ofList ('"' :: s.toList.flatMap debugEscape ++ ['"'])

/-- A character between single quotes, escaped as in a text but for the other kind of quote. -/
def debugQuotedChar (c : Char) : String :=
  let body := if c = '"' then ['"'] else if c = '\x27' then ['\\', '\x27'] else debugEscape c
  String.ofList ('\x27' :: body ++ ['\x27'])

end ScriptLoader.Text
