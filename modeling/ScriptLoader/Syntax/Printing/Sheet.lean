import ScriptLoader.Syntax.Token
import ScriptLoader.Decimal.Double

/-!
# The printed sheet

Printed code as it grows: the text, the indentation, and what decides about blanks and parentheses
between two pieces. Indentation is by tabs, strings stand in double quotes, numbers are written in
the shortest way that reads back.

* `Sheet`: the state of printing.
* `Print`: an action on it.
* `numberText`: the shortest text of a number.
* `quoteString`: a string literal.
-/

namespace ScriptLoader.Syntax

open ScriptLoader.Decimal

/-- Printed code and what is known at its end. -/
structure Sheet where
  text : String := ""
  /-- The number of characters of the text. -/
  size : Nat := 0
  /-- The last character. -/
  last : Option Char := none
  level : Nat := 0
  /-- Whether the next indentation is one blank: a body stands on the line of its head. -/
  onLine : Bool := false
  /-- Where the current statement, default export and arrow body begin. -/
  statementAt : Option Nat := none
  exportAt : Option Nat := none
  arrowAt : Option Nat := none
  /-- Where a whole number ends that a dot would continue. -/
  numberAt : Option Nat := none
  /-- Where a sign ends, and the sign. -/
  sign : Option (Nat × String) := none
  comments : List Comment := []

/-- An action on a sheet. -/
abbrev Print := StateM Sheet

namespace Print

def str (s : String) : Print Unit := modify fun sh =>
  { sh with
    text := sh.text ++ s, size := sh.size + s.length,
    last := match s.toList.getLast? with | some c => some c | none => sh.last }

def newline : Print Unit := str "\n"

def space : Print Unit := str " "

def deeper : Print Unit := modify fun sh => { sh with level := sh.level + 1 }

def shallower : Print Unit := modify fun sh => { sh with level := sh.level - 1 }

/-- The indentation of a line. -/
def indent : Print Unit := do
  let sh ← get
  if sh.onLine then
    set { sh with onLine := false }
    space
  else str (String.ofList (List.replicate sh.level '\t'))

def semicolonLine : Print Unit := str ";\n"

/-- A blank that keeps a word apart from a word before it. -/
def apart : Print Unit := do
  let sh ← get
  if sh.last.any isNamePart then space

/-- A blank that keeps a sign apart from a sign before it. -/
def apartSign (next : String) : Print Unit := do
  let sh ← get
  match sh.sign with
  | some (place, before) =>
    if place = sh.size then
      let plus := before = "+" && (next = "+" || next = "++")
      let minus := before = "-" && (next = "-" || next = "--")
      if plus || minus then space
  | none => pure ()

/-- Notes that a sign ends here. -/
def noteSign (s : String) : Print Unit := modify fun sh => { sh with sign := some (sh.size, s) }

def here : Print Nat := return (← get).size

/-- Prints in parentheses if asked to. -/
def wrap (parens : Bool) (p : Print Unit) : Print Unit := do
  if parens then str "("
  p
  if parens then str ")"

/-- Whether the end of the sheet is where a statement begins. -/
def atStatement : Print Bool := do let sh ← get; return sh.statementAt = some sh.size
def atArrow : Print Bool := do let sh ← get; return sh.arrowAt = some sh.size
def atExport : Print Bool := do let sh ← get; return sh.exportAt = some sh.size

/-- Items with commas between them. -/
def commas {α : Type} (item : α → Print Unit) : List α → Print Unit
  | [] => pure ()
  | [a] => item a
  | a :: as => do
    item a
    str ", "
    commas item as

/-! ## Comments -/

/-- The comments in front of the token at a place; they are taken off the sheet. -/
def takeComments (place : Nat) : Print (List Comment) := modifyGet fun sh =>
  (sh.comments.filter (·.attached = place),
    { sh with comments := sh.comments.filter (·.attached ≠ place) })

/-- Whether comments stand in front of the token at a place. -/
def hasComments (place : Nat) : Print Bool := return (← get).comments.any (·.attached = place)

/-- The lines of a text between line ends of any kind. -/
def linesOf : List Char → List (List Char)
  | [] => [[]]
  | c :: cs =>
    if isLineEnd c then [] :: linesOf cs
    else
      match linesOf cs with
      | [] => [[c]]
      | l :: ls => (c :: l) :: ls

/-- A comment; the lines of a block are indented anew. -/
def comment (c : Comment) : Print Unit := do
  if c.isLine then str c.text
  else
    for line in linesOf c.text.toList do
      if !((firstFront? [['/', '*']] line).isSome) then indent
      str (String.ofList (line.dropWhile fun d => d = ' ' || d = '\t'))
      if !((firstFront? [['/', '*']] line.reverse).isSome) then newline

/-- Comments one after the other, the first of them with its indentation. -/
def commentRun : Bool → List Comment → Print Unit
  | _, [] => pure ()
  | first, c :: cs => do
    let sh ← get
    if first then
      if c.newlineBefore then
        match sh.last with
        | some '\n' => indent
        | some '\t' => pure ()
        | some _ => do newline; indent
        | none => pure ()
      else indent
    else if c.newlineBefore then
      newline
      indent
    comment c
    if cs.isEmpty then
      if c.isLine || c.newlineAfter then newline
      else modify fun sh => { sh with onLine := true }
    commentRun false cs

/-- The comments in front of the token at a place. -/
def commentsAt (place : Nat) : Print Unit := do commentRun true (← takeComments place)

/-- The comments in front of an operand, each on a line of its own. -/
def operandComments (place : Nat) : Print Bool := do
  let cs ← takeComments place
  for c in cs do
    newline
    indent
    comment c
  if cs.isEmpty then return false
  newline
  return true

end Print

/-! ## Numbers -/

/-- Positional while at most 21 digits stand before the point and at most 6 zeros after it. -/
def plainNumber (d : Digits) : List Char :=
  if -6 < d.point ∧ d.point ≤ 21 then d.positional else d.scientific ['+']

/-- The text before and after the first occurrence of a character. -/
def breakAt (c : Char) (cs : List Char) : Option (List Char × List Char) :=
  if cs.contains c then some (cs.takeWhile (· ≠ c), (cs.dropWhile (· ≠ c)).drop 1) else none

/-- The shorter of two texts, the first if they are equally long. -/
def shorter (a b : List Char) : List Char := if b.length < a.length then b else a

/-- `1.2e101` as `12e100`, if that is shorter. -/
def joinPoint (cs : List Char) : List Char :=
  match breakAt '.' cs with
  | some (whole, rest) =>
    match breakAt 'e' rest with
    | some (frac, ex) =>
      let value : Int :=
        match ex with
        | '-' :: ds => -(((Text.ofDigits? 10 ds).getD 0 : Nat) : Int)
        | ds => ((Text.ofDigits? 10 ds).getD 0 : Nat)
      shorter cs (whole ++ frac ++ 'e' :: intText (value - frac.length))
    | none => cs
  | none => cs

/-- Zeros at the end as an exponent, if that is shorter. -/
def foldZeros (cs : List Char) : List Char :=
  let count := (cs.reverse.takeWhile (· = '0')).length
  if count = 0 then cs
  else shorter cs (cs.take (cs.length - count) ++ 'e' :: Nat.toDigits 10 count)

/-- Zeros behind the point as an exponent, if that is shorter. -/
def foldSmall (cs : List Char) : List Char :=
  match cs with
  | '.' :: '0' :: rest =>
    let digits := rest.dropWhile (· = '0')
    if digits.isEmpty then cs
    else shorter cs (digits ++ 'e' :: '-' :: Nat.toDigits 10 (cs.length - 1))
  | _ => cs

/-- The shortest text of a number that is not negative. -/
def numberText (d : Double) : List Char :=
  if d.isNaN then "NaN".toList
  else if d.isInfinite then "Infinity".toList
  else
    let plain := plainNumber d.digits
    match d.natAbs? with
    | some n =>
      if n < 1000 then plain
      else
        let decimal := plain.filter (· ≠ '+')
        let hex := '0' :: 'x' :: Nat.toDigits 16 n
        if n < 1 <<< 128 ∧ hex.length < decimal.length then hex
        else joinPoint (foldZeros decimal)
    | none =>
      let short := match plain with | '0' :: '.' :: ds => '.' :: ds | cs => cs
      joinPoint (foldZeros (foldSmall short))

/-- The value of a numeric literal. -/
def literalValue (raw : List Char) : Double :=
  let cs := raw.filter (· ≠ '_')
  let based (base : Nat) (ds : List Char) : Double :=
    .ofFloat (Float.ofNat ((Text.ofDigits? base ds).getD 0))
  match cs with
  | '0' :: 'x' :: ds => based 16 ds
  | '0' :: 'o' :: ds => based 8 ds
  | '0' :: 'b' :: ds => based 2 ds
  | _ =>
    if cs.length > 1 ∧ cs.head? = some '0' ∧ cs.all isOctal then based 8 cs
    else
      let mantissa := cs.takeWhile fun c => c ≠ 'e' && c ≠ 'E'
      let ex := (cs.dropWhile fun c => c ≠ 'e' && c ≠ 'E').drop 1
      let (negative, ds) :=
        match ex with
        | '-' :: ds => (true, ds)
        | '+' :: ds => (false, ds)
        | ds => (false, ds)
      let e : Int := (Text.ofDigits? 10 ds).getD 0
      let e := if negative then -e else e
      let whole := mantissa.takeWhile (· ≠ '.')
      let frac := (mantissa.dropWhile (· ≠ '.')).drop 1
      let n := (Text.ofDigits? 10 (whole ++ frac)).getD 0
      let e := e - frac.length
      .ofFloat (if 0 ≤ e then Float.ofScientific n false e.toNat
        else Float.ofScientific n true e.natAbs)

/-! ## Strings -/

/-- One character of a string literal; `digit` tells that a digit follows. -/
def stringChar (c : Char) (digit : Bool) : List Char :=
  let n := c.toNat
  if c = '"' then ['\\', '"']
  else if c = '\\' then ['\\', '\\']
  else if n = 0 then if digit then "\\x00".toList else ['\\', '0']
  else if n = 7 then "\\x07".toList
  else if n = 8 then ['\\', 'b']
  else if n = 11 then ['\\', 'v']
  else if n = 12 then ['\\', 'f']
  else if n = 10 then ['\\', 'n']
  else if n = 13 then ['\\', 'r']
  else if n = 27 then "\\x1B".toList
  else if n = 0xA0 then "\\xA0".toList
  else if n = 0x2028 then "\\u2028".toList
  else if n = 0x2029 then "\\u2029".toList
  else [c]

/-- The characters of a string literal. -/
def stringChars : List Char → List Char
  | [] => []
  | c :: cs => stringChar c (cs.head?.any Text.isAsciiDigit) ++ stringChars cs

/-- A closing tag of a script is written with an escaped slash. -/
def escapeScript : Nat → List Char → List Char
  | 0, cs => cs
  | _, [] => []
  | fuel + 1, c :: cs =>
    match c, cs with
    | '<', '/' :: rest =>
      if (rest.take 6).map Char.toLower = "script".toList then
        '<' :: '\\' :: '/' :: escapeScript fuel rest
      else c :: escapeScript fuel cs
    | _, _ => c :: escapeScript fuel cs

/-- A string literal. -/
def quoteString (s : String) : String :=
  let cs := stringChars s.toList
  String.ofList ('"' :: escapeScript (cs.length + 1) cs ++ ['"'])

end ScriptLoader.Syntax
