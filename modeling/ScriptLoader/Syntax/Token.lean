import ScriptLoader.Syntax.Node
import ScriptLoader.Text.Classes
import ScriptLoader.Text.Hex

/-!
# Tokens

The lexical grammar: blanks and comments, names, numbers, strings, templates, regular expressions
and punctuators. Every scanner takes the characters that are left and answers what it read with
the characters after it.

* `Token.scan`: the token at the front of a text.
* `skipTrivia`: the blanks and comments in front of a token.
-/

namespace ScriptLoader.Syntax

/-- A token. A name is an identifier or a keyword. -/
inductive Token where
  | name (text : String) (escaped : Bool)
  | privateName (text : String)
  | punct (text : String)
  | number (raw : String)
  | bigint (raw : String)
  | string (value : String)
  /-- A piece of a template: its raw text, whether its escapes are sound, and whether it is the
  last one. -/
  | quasi (raw : String) (sound : Bool) (last : Bool)
  | invalid
  | eof
  deriving DecidableEq

/-- A comment, kept when it stands in front of a token. -/
structure Comment where
  text : String
  isLine : Bool
  /-- Start of the token that follows. -/
  attached : Nat
  /-- Whether a line ends before the comment, and after it. -/
  newlineBefore : Bool
  newlineAfter : Bool
  deriving DecidableEq

/-- A comment without its marks. -/
def Comment.content (c : Comment) : List Char :=
  let inner := c.text.toList.drop 2
  if c.isLine then inner else inner.dropLast.dropLast

/-! ## Characters -/

def isLineEnd (c : Char) : Bool :=
  c = '\n' || c = '\r' || c.toNat = 0x2028 || c.toNat = 0x2029

def isSpace (c : Char) : Bool :=
  c = ' ' || c = '\t' || c.toNat = 0x0B || c.toNat = 0x0C || c.toNat = 0xA0 || c.toNat = 0xFEFF ||
    c.toNat = 0x1680 || (0x2000 ≤ c.toNat && c.toNat ≤ 0x200A) || c.toNat = 0x202F ||
    c.toNat = 0x205F || c.toNat = 0x3000

def isNameStart (c : Char) : Bool := c = '$' || c = '_' || Text.isIdStart c

def isNamePart (c : Char) : Bool :=
  c = '$' || Text.isIdContinue c || c.toNat = 0x200C || c.toNat = 0x200D

def isHexChar (c : Char) : Bool := (Text.hexValue? c).isSome

/-! ## Escapes -/

/-- A code point, or one half of a surrogate pair, written `\uXXXX` or `\u{…}`, after the `u`. -/
def unicodeEscape? : List Char → Option (Nat × List Char)
  | '\x7b' :: rest =>
    let ds := rest.takeWhile isHexChar
    match rest.dropWhile isHexChar with
    | '\x7d' :: rest =>
      match Text.ofDigits? 16 ds with
      | some n => if ds.isEmpty ∨ n > 0x10FFFF then none else some (n, rest)
      | none => none
    | _ => none
  | a :: b :: c :: d :: rest => (Text.ofDigits? 16 [a, b, c, d]).map (·, rest)
  | _ => none

def isOctal (c : Char) : Bool := '0' ≤ c && c ≤ '7'

/-- The octal escape at the front: at most three digits, the first at most `3` if there are
three. -/
def octalEscape (cs : List Char) : Nat × List Char :=
  let value (ds : List Char) := ds.foldl (fun n c => 8 * n + (c.toNat - 48)) 0
  match cs with
  | a :: b :: c :: rest =>
    if isOctal b then
      if isOctal c ∧ a ≤ '3' then (value [a, b, c], rest) else (value [a, b], c :: rest)
    else (value [a], b :: c :: rest)
  | [a, b] => if isOctal b then (value [a, b], []) else (value [a], [b])
  | [a] => (value [a], [])
  | [] => (0, [])

/-- The text after a backslash: the code point that it denotes, if any. Octal escapes are refused
unless `octal` admits them. -/
def escape? (octal : Bool) : List Char → Option (Option Nat × List Char)
  | [] => none
  | '\r' :: '\n' :: rest => some (none, rest)
  | c :: rest =>
    if isLineEnd c then some (none, rest)
    else if c = 'n' then some (some 10, rest)
    else if c = 't' then some (some 9, rest)
    else if c = 'r' then some (some 13, rest)
    else if c = 'b' then some (some 8, rest)
    else if c = 'v' then some (some 11, rest)
    else if c = 'f' then some (some 12, rest)
    else if c = 'x' then
      match rest with
      | a :: b :: rest => (Text.ofDigits? 16 [a, b]).map fun n => (some n, rest)
      | _ => none
    else if c = 'u' then (unicodeEscape? rest).map fun (n, rest) => (some n, rest)
    else if c = '0' ∧ !(rest.head?.any Text.isAsciiDigit) then some (some 0, rest)
    else if isOctal c then
      if octal then
        let (n, rest) := octalEscape (c :: rest)
        some (some n, rest)
      else none
    else if !octal ∧ Text.isAsciiDigit c then none
    else some (some c.toNat, rest)

def isLead (n : Nat) : Bool := 0xD800 ≤ n && n ≤ 0xDBFF
def isTrail (n : Nat) : Bool := 0xDC00 ≤ n && n ≤ 0xDFFF

/-- Joins surrogate pairs. -/
def joinPairs : List Nat → List Nat
  | [] => []
  | [n] => [n]
  | a :: b :: rest =>
    if isLead a ∧ isTrail b then
      (0x10000 + (a - 0xD800) * 0x400 + (b - 0xDC00)) :: joinPairs rest
    else a :: joinPairs (b :: rest)

/-- The text of code points. If lone surrogates occur, each of them, and each replacement
character, is a replacement character followed by four digits. -/
def textOfPoints (points : List Nat) : List Char :=
  let points := joinPairs points
  let lone (n : Nat) := isLead n || isTrail n
  if points.any lone then
    points.flatMap fun n =>
      if lone n || n = 0xFFFD then Char.ofNat 0xFFFD :: Text.hexDigits 4 n else [Char.ofNat n]
  else points.map Char.ofNat

/-! ## Strings, templates, regular expressions -/

/-- The rest of a string literal after its opening quote: its code points. -/
def stringBody? (quote : Char) : Nat → List Nat → List Char → Option (List Nat × List Char)
  | 0, _, _ => none
  | _ + 1, _, [] => none
  | fuel + 1, acc, c :: cs =>
    if c = quote then some (acc.reverse, cs)
    else if c = '\\' then
      match escape? true cs with
      | some (some n, rest) => stringBody? quote fuel (n :: acc) rest
      | some (none, rest) => stringBody? quote fuel acc rest
      | none => none
    else if c = '\n' ∨ c = '\r' then none
    else stringBody? quote fuel (c.toNat :: acc) cs

/-- A piece of template text up to the closing quote or a substitution: the raw characters,
whether its escapes are sound, whether the template ends. -/
def quasiBody? : Nat → List Char → Bool → List Char → Option (List Char × Bool × Bool × List Char)
  | 0, _, _, _ => none
  | _ + 1, _, _, [] => none
  | fuel + 1, acc, sound, c :: cs =>
    if c = '\x60' then some (acc.reverse, sound, true, cs)
    else
      match c, cs with
      | '$', '\x7b' :: rest => some (acc.reverse, sound, false, rest)
      | '\\', _ =>
        match escape? false cs with
        | some (_, rest) =>
          let raw := cs.take (cs.length - rest.length)
          quasiBody? fuel (raw.reverse ++ c :: acc) sound rest
        | none =>
          match cs with
          | d :: rest => quasiBody? fuel (d :: c :: acc) false rest
          | [] => none
      | '\r', '\n' :: rest => quasiBody? fuel ('\n' :: acc) sound rest
      | '\r', _ => quasiBody? fuel ('\n' :: acc) sound cs
      | _, _ => quasiBody? fuel (c :: acc) sound cs

/-- A template piece as a token. -/
def scanQuasi (fuel : Nat) (cs : List Char) : Token × List Char :=
  match quasiBody? fuel [] true cs with
  | some (raw, sound, last, rest) => (.quasi (String.ofList raw) sound last, rest)
  | none => (.invalid, [])

/-- The body of a regular expression after its opening slash. -/
def regexBody? : Nat → Bool → List Char → List Char → Option (List Char × List Char)
  | 0, _, _, _ => none
  | _ + 1, _, _, [] => none
  | fuel + 1, inClass, acc, c :: cs =>
    if isLineEnd c then none
    else if c = '\\' then
      match cs with
      | d :: rest => if isLineEnd d then none else regexBody? fuel inClass (d :: c :: acc) rest
      | [] => none
    else if c = '/' ∧ !inClass then some (acc.reverse, cs)
    else
      let inClass := if c = '[' then true else if c = ']' then false else inClass
      regexBody? fuel inClass (c :: acc) cs

def regexFlags : List Char := ['d', 'g', 'i', 'm', 's', 'u', 'v', 'y']

/-- A regular expression whose first slash stands at the front: its text and the rest. -/
def scanRegex? (fuel : Nat) : List Char → Option (String × List Char)
  | '/' :: cs => do
    let (body, rest) ← regexBody? fuel false [] cs
    let flags := rest.takeWhile isNamePart
    if body.isEmpty ∨ !(flags.all regexFlags.contains) ∨ flags.eraseDups.length ≠ flags.length then
      none
    else some (String.ofList ('/' :: body ++ '/' :: flags), rest.dropWhile isNamePart)
  | _ => none

/-! ## Names and numbers -/

/-- The characters of a name; escapes are decoded. -/
def nameBody? : Nat → List Char → Bool → List Char → Option (List Char × Bool × List Char)
  | 0, _, _, _ => none
  | _ + 1, acc, escaped, [] => some (acc.reverse, escaped, [])
  | fuel + 1, acc, escaped, c :: cs =>
    if c = '\\' then
      match cs with
      | 'u' :: cs =>
        match unicodeEscape? cs with
        | some (n, rest) =>
          let d := Char.ofNat n
          if (if acc.isEmpty then isNameStart d else isNamePart d) then
            nameBody? fuel (d :: acc) true rest
          else none
        | none => none
      | _ => none
    else if (if acc.isEmpty then isNameStart c else isNamePart c) then
      nameBody? fuel (c :: acc) escaped cs
    else some (acc.reverse, escaped, c :: cs)

/-- A name at the front, if the text begins with one. -/
def scanName (fuel : Nat) (cs : List Char) : Option (String × Bool × List Char) :=
  match nameBody? fuel [] false cs with
  | some (name, escaped, rest) =>
    if name.isEmpty then none else some (String.ofList name, escaped, rest)
  | none => none

/-- Digits of a class with single separators between them. -/
def digitRun? (isDigit : Char → Bool) (cs : List Char) : Option (List Char × List Char) :=
  let run := cs.takeWhile fun c => isDigit c || c = '_'
  let doubled := (run.zip (run.drop 1)).any fun (a, b) => a = '_' && b = '_'
  if run.head? = some '_' ∨ run.getLast? = some '_' ∨ doubled then none
  else some (run, cs.dropWhile fun c => isDigit c || c = '_')

/-- A literal with a base mark: `0x`, `0o` or `0b`, its digits and perhaps `n`. -/
def scanBased (isDigit : Char → Bool) (mark cs : List Char) : Token × List Char :=
  match digitRun? isDigit cs with
  | none => (.invalid, [])
  | some (ds, rest) =>
    if ds.isEmpty then (.invalid, [])
    else
      match rest with
      | 'n' :: rest => (.bigint (String.ofList (mark ++ ds ++ ['n'])), rest)
      | _ => (.number (String.ofList (mark ++ ds)), rest)

/-- The exponent of a decimal literal, if there is one. -/
def exponentRun? (cs : List Char) : Option (List Char × List Char) :=
  match cs with
  | [] => some ([], cs)
  | e :: rest =>
    if e ≠ 'e' ∧ e ≠ 'E' then some ([], cs)
    else
      let (sign, rest) :=
        match rest with
        | '+' :: r => (['+'], r)
        | '-' :: r => (['-'], r)
        | r => ([], r)
      match digitRun? Text.isAsciiDigit rest with
      | some (ds, rest) => if ds.isEmpty then none else some (e :: sign ++ ds, rest)
      | none => none

/-- A decimal literal. -/
def scanDecimal (cs : List Char) : Token × List Char :=
  let answer : Option (Token × List Char) := do
    let (whole, rest) ← digitRun? Text.isAsciiDigit cs
    match rest with
    | 'n' :: rest' =>
      if whole.isEmpty ∨ (whole.head? = some '0' ∧ whole.length > 1) then none
      else some (.bigint (String.ofList (whole ++ ['n'])), rest')
    | '.' :: rest =>
      let (frac, rest) ← digitRun? Text.isAsciiDigit rest
      let (ex, rest) ← exponentRun? rest
      some (.number (String.ofList (whole ++ '.' :: frac ++ ex)), rest)
    | _ =>
      let (ex, rest) ← exponentRun? rest
      some (.number (String.ofList (whole ++ ex)), rest)
  answer.getD (.invalid, [])

/-- A number at the front of a text that begins with a digit, or a dot and a digit. -/
def scanNumber (cs : List Char) : Token × List Char :=
  let (token, rest) :=
    match cs with
    | '0' :: b :: rest =>
      if b = 'x' ∨ b = 'X' then scanBased isHexChar ['0', 'x'] rest
      else if b = 'o' ∨ b = 'O' then scanBased isOctal ['0', 'o'] rest
      else if b = 'b' ∨ b = 'B' then scanBased (fun c => c = '0' || c = '1') ['0', 'b'] rest
      else if Text.isAsciiDigit b then
        let ds := (b :: rest).takeWhile Text.isAsciiDigit
        if ds.all isOctal then
          (.number (String.ofList ('0' :: ds)), rest.dropWhile Text.isAsciiDigit)
        else scanDecimal cs
      else scanDecimal cs
    | _ => scanDecimal cs
  match rest with
  | c :: _ =>
    if isNameStart c || Text.isAsciiDigit c || c = '\\' then (.invalid, []) else (token, rest)
  | [] => (token, rest)

/-! ## Punctuators -/

/-- The punctuators of more than one character, longer ones first. One that begins with `>` is
always read as `>` alone: type arguments close one at a time. -/
def longPuncts : List (List Char) :=
  ["...", "===", "!==", "**=", "<<=", "&&=", "||=", "??=", "=>", "==", "!=", "<=", "&&", "||",
    "??", "?.", "++", "--", "+=", "-=", "*=", "/=", "%=", "&=", "|=", "^=", "<<", "**"].map
    String.toList

def onePuncts : List Char :=
  ['\x7b', '\x7d', '(', ')', '[', ']', ';', ',', '<', '>', '+', '-', '*', '/', '%', '&', '|', '^',
    '!', '~', '?', ':', '=', '.', '@', '#']

/-- The first of the given texts that stands at the front. -/
def firstFront? : List (List Char) → List Char → Option (List Char × List Char)
  | [], _ => none
  | p :: ps, cs =>
    if p.isPrefixOf cs then some (p, cs.drop p.length) else firstFront? ps cs

/-- A punctuator at the front. An optional link is no link before a digit. -/
def scanPunct (cs : List Char) : Token × List Char :=
  match firstFront? longPuncts cs with
  | some (p, rest) =>
    if p = ['?', '.'] ∧ rest.head?.any Text.isAsciiDigit then (.punct "?", '.' :: rest)
    else (.punct (String.ofList p), rest)
  | none =>
    match cs with
    | c :: rest =>
      if onePuncts.contains c then (.punct (String.singleton c), rest) else (.invalid, [])
    | [] => (.eof, [])

/-- The token at the front of a text without leading blanks. `fuel` exceeds the length of the
text. -/
def Token.scan (fuel : Nat) (cs : List Char) : Token × List Char :=
  match cs with
  | [] => (.eof, [])
  | c :: rest =>
    if isNameStart c || c = '\\' then
      match scanName fuel cs with
      | some (text, escaped, rest) => (.name text escaped, rest)
      | none => (.invalid, [])
    else if Text.isAsciiDigit c || (c = '.' && rest.head?.any Text.isAsciiDigit) then scanNumber cs
    else if c = '"' || c = '\x27' then
      match stringBody? c fuel [] rest with
      | some (points, rest) => (.string (String.ofList (textOfPoints points)), rest)
      | none => (.invalid, [])
    else if c = '\x60' then scanQuasi fuel rest
    else if c = '#' then
      match scanName fuel rest with
      | some (text, _, rest) => (.privateName text, rest)
      | none => (.punct "#", rest)
    else scanPunct cs

/-! ## Blanks and comments -/

/-- What stands before a token. -/
structure Trivia where
  newline : Bool
  /-- Comments not yet known to trail the token before, latest first; `attached` is unset. -/
  pending : List Comment
  deriving Inhabited

/-- The characters of a block comment up to its end, after the opening mark. -/
def blockBody? : Nat → List Char → List Char → Option (List Char × List Char)
  | 0, _, _ => none
  | _ + 1, _, [] => none
  | fuel + 1, acc, c :: cs =>
    match c, cs with
    | '*', '/' :: rest => some ((['/', '*'] ++ acc).reverse, rest)
    | _, _ => blockBody? fuel (c :: acc) cs

/-- A line ends: the comments so far trail the token before them unless a line ended before. -/
def Trivia.endLine (t : Trivia) : Trivia :=
  if t.newline then
    match t.pending with
    | c :: cs => { t with pending := { c with newlineAfter := true } :: cs }
    | [] => t
  else { newline := true, pending := [] }

/-- Adds a comment; a line comment ends its line. After `=` and `(` a comment never trails. -/
def Trivia.addComment (t : Trivia) (text : List Char) (isLine holds : Bool) : Trivia :=
  let c : Comment := ⟨String.ofList text, isLine, 0, t.newline, isLine⟩
  if isLine then
    if !t.newline && !holds then { newline := true, pending := [] }
    else { newline := true, pending := c :: t.pending }
  else { t with pending := c :: t.pending }

/-- Skips blanks and comments. `broken` tells whether a line has ended since the token before.
In a script the marks of markup comments begin line comments; in a module they are refused. -/
def skipTrivia (isModule holds : Bool) :
    Nat → Trivia → Bool → List Char → Option (Trivia × Bool × List Char)
  | 0, _, _, _ => none
  | fuel + 1, t, broken, cs =>
    match cs with
    | [] => some (t, broken, cs)
    | c :: rest =>
      if isLineEnd c then skipTrivia isModule holds fuel t.endLine true rest
      else if isSpace c then skipTrivia isModule holds fuel t broken rest
      else
        let lineComment (body : List Char) :=
          let text := body.takeWhile fun c => !isLineEnd c
          skipTrivia isModule holds fuel (t.addComment text true holds) broken
            (body.dropWhile fun c => !isLineEnd c)
        match c, rest with
        | '/', '/' :: _ => lineComment cs
        | '/', '*' :: body =>
          match blockBody? (fuel + 1) ['*', '/'] body with
          | some (text, after) =>
            let spans := text.any isLineEnd
            skipTrivia isModule holds fuel (t.addComment text false holds) (broken || spans) after
          | none => none
        | '<', '!' :: '-' :: '-' :: _ => if isModule then none else lineComment cs
        | '-', '-' :: '>' :: _ =>
          if isModule ∨ !broken then some (t, broken, cs) else lineComment cs
        | _, _ => some (t, broken, cs)

end ScriptLoader.Syntax
