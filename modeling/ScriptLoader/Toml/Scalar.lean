import ScriptLoader.Decimal.Reading
import ScriptLoader.Text.Hex

/-!
# Blanks, keys and plain values of TOML

Readers of what stands on one line of a document, and of texts over several lines. Each takes its
value from the front and gives what is behind it; `none` is a fault.

* `lineEnd?`: blanks, a comment and the end of a line.
* `string?`: the four kinds of texts.
* `moment?`, `double?`, `integer?`: dates, times and numbers.
-/

namespace ScriptLoader.Toml

open Decimal (isDigit ofDigits)

def isGap (c : Char) : Bool := c = ' ' || c = '\t'

def skipGap (cs : List Char) : List Char := cs.dropWhile isGap

/-- The rest behind a line feed, before which a carriage return may stand. -/
def newline? : List Char → Option (List Char)
  | '\n' :: rest => some rest
  | '\r' :: '\n' :: rest => some rest
  | _ => none

/-- Whether a character may stand in a comment, and in a text if it is no delimiter. -/
def isPlain (c : Char) : Bool := c = '\t' || (0x20 ≤ c.toNat && c.toNat ≠ 0x7F)

/-- The rest behind a comment, if there is one. -/
def skipComment : List Char → List Char
  | '#' :: rest => rest.dropWhile isPlain
  | cs => cs

/-- The rest behind the end of a line; a comment may stand before it. -/
def lineEnd? (cs : List Char) : Option (List Char) :=
  match skipComment (skipGap cs) with
  | [] => some []
  | cs => newline? cs

/-- Skips blanks, comments and ends of lines. `fuel` bounds the lines. -/
def skipLines : Nat → List Char → List Char
  | 0, cs => cs
  | fuel + 1, cs =>
    let rest := skipComment (skipGap cs)
    match newline? rest with
    | some next => skipLines fuel next
    | none => rest

/-! ## Texts -/

/-- The character whose number a list of hexadecimal digits is. -/
def scalar? (digits : List Char) : Option Char := do
  let n ← Text.ofDigits? 16 digits
  if n.isValidChar then some (Char.ofNat n) else none

/-- What an escape stands for, behind its backslash. -/
def escape? : List Char → Option (Char × List Char)
  | 'b' :: cs => some ('\x08', cs)
  | 't' :: cs => some ('\t', cs)
  | 'n' :: cs => some ('\n', cs)
  | 'f' :: cs => some ('\x0c', cs)
  | 'r' :: cs => some ('\r', cs)
  | '"' :: cs => some ('"', cs)
  | '\\' :: cs => some ('\\', cs)
  | 'u' :: cs => if cs.length < 4 then none else (scalar? (cs.take 4)).map (·, cs.drop 4)
  | 'U' :: cs => if cs.length < 8 then none else (scalar? (cs.take 8)).map (·, cs.drop 8)
  | _ => none

/-- A text with escapes behind its opening quote. `fuel` bounds the characters. -/
def basicBody? : Nat → List Char → List Char → Option (List Char × List Char)
  | 0, _, _ => none
  | _ + 1, _, [] => none
  | fuel + 1, acc, c :: cs =>
    if c = '"' then some (acc.reverse, cs)
    else if c = '\\' then
      match escape? cs with
      | some (d, cs) => basicBody? fuel (d :: acc) cs
      | none => none
    else if isPlain c then basicBody? fuel (c :: acc) cs
    else none

/-- A text without escapes behind its opening quote. -/
def literalBody? (cs : List Char) : Option (List Char × List Char) :=
  let body := cs.takeWhile fun c => c ≠ '\'' && isPlain c
  match cs.drop body.length with
  | '\'' :: rest => some (body, rest)
  | _ => none

/-- The rest behind three quotes, with one or two more before them that belong to the text. -/
def closing? (quote : Char) (cs : List Char) : Option (List Char × List Char) :=
  let quotes := (cs.takeWhile (· = quote)).take 5
  if quotes.length < 3 then none else some (quotes.drop 3, cs.drop quotes.length)

/-- Skips blanks and ends of lines. `fuel` bounds the lines. -/
def skipBlankLines : Nat → List Char → List Char
  | 0, cs => cs
  | fuel + 1, cs =>
    match newline? (skipGap cs) with
    | some next => skipBlankLines fuel next
    | none => skipGap cs

/-- The rest behind blanks and at least one end of a line that a backslash stands before. -/
def continuation? (cs : List Char) : Option (List Char) :=
  (newline? (skipGap cs)).map fun rest => skipBlankLines rest.length rest

/-- A text over several lines behind its opening quotes. `fuel` bounds the characters. -/
def linesBody? (quote : Char) (escapes : Bool) :
    Nat → List Char → List Char → Option (List Char × List Char)
  | 0, _, _ => none
  | fuel + 1, acc, cs =>
    match closing? quote cs with
    | some (more, rest) => some (acc.reverse ++ more, rest)
    | none =>
      match newline? cs, cs with
      | some rest, _ => linesBody? quote escapes fuel ('\n' :: acc) rest
      | none, [] => none
      | none, c :: rest =>
        if escapes && c = '\\' then
          match continuation? rest, escape? rest with
          | some rest, _ => linesBody? quote escapes fuel acc rest
          | none, some (d, rest) => linesBody? quote escapes fuel (d :: acc) rest
          | none, none => none
        else if isPlain c then linesBody? quote escapes fuel (c :: acc) rest
        else none

/-- A text over several lines; the end of the line behind the quotes is no part of it. -/
def lines? (quote : Char) (escapes : Bool) (cs : List Char) : Option (List Char × List Char) :=
  linesBody? quote escapes (cs.length + 1) [] ((newline? cs).getD cs)

/-- A text on one line. -/
def lineString? : List Char → Option (List Char × List Char)
  | '"' :: cs => basicBody? (cs.length + 1) [] cs
  | '\'' :: cs => literalBody? cs
  | _ => none

/-- A text. -/
def string? : List Char → Option (List Char × List Char)
  | '"' :: '"' :: '"' :: cs => lines? '"' true cs
  | '\'' :: '\'' :: '\'' :: cs => lines? '\'' false cs
  | cs => lineString? cs

/-! ## Keys -/

def isBare (c : Char) : Bool := c.isAlphanum || c = '_' || c = '-'

def simpleKey? (cs : List Char) : Option (String × List Char) :=
  let bare := cs.takeWhile isBare
  if bare.isEmpty then (lineString? cs).map fun (k, rest) => (String.ofList k, rest)
  else some (String.ofList bare, cs.drop bare.length)

/-- The parts of a key, with blanks around each. `fuel` bounds the parts. -/
def keyParts? : Nat → List Char → Option (List String × List Char)
  | 0, _ => none
  | fuel + 1, cs => do
    let (k, rest) ← simpleKey? (skipGap cs)
    match skipGap rest with
    | '.' :: rest =>
      let (ks, rest) ← keyParts? fuel rest
      some (k :: ks, rest)
    | rest => some ([k], rest)

/-- How many containers may be inside each other, and how many parts a key may have. -/
def maxDepth : Nat := 79

def key? (cs : List Char) : Option (List String × List Char) := keyParts? maxDepth cs

/-! ## Dates and times -/

/-- A number of as many digits as are wanted. -/
def fixed? (width : Nat) (cs : List Char) : Option (Nat × List Char) :=
  let ds := cs.take width
  if ds.length = width && ds.all isDigit then some (ofDigits ds, cs.drop width) else none

def expect? (c : Char) : List Char → Option (List Char)
  | d :: rest => if c = d then some rest else none
  | [] => none

def isLeap (year : Nat) : Bool := year % 4 = 0 && (year % 100 ≠ 0 || year % 400 = 0)

def daysIn (year month : Nat) : Nat :=
  if month = 2 then if isLeap year then 29 else 28
  else if month = 4 ∨ month = 6 ∨ month = 9 ∨ month = 11 then 30
  else 31

/-- The rest behind a date. -/
def date? (cs : List Char) : Option (List Char) := do
  let (year, cs) ← fixed? 4 cs
  let (month, cs) ← fixed? 2 (← expect? '-' cs)
  let (day, cs) ← fixed? 2 (← expect? '-' cs)
  if 1 ≤ month ∧ month ≤ 12 ∧ 1 ≤ day ∧ day ≤ daysIn year month then some cs else none

/-- The rest behind the fraction of a second, if there is one. -/
def skipFraction : List Char → List Char
  | '.' :: c :: rest => if isDigit c then rest.dropWhile isDigit else '.' :: c :: rest
  | cs => cs

/-- The rest behind a time. -/
def time? (cs : List Char) : Option (List Char) := do
  let (hour, cs) ← fixed? 2 cs
  let (minute, cs) ← fixed? 2 (← expect? ':' cs)
  let (second, cs) ← fixed? 2 (← expect? ':' cs)
  if hour < 24 ∧ minute < 60 ∧ second ≤ 60 then some (skipFraction cs) else none

/-- The rest behind a distance from universal time, if there is one. -/
def skipOffset (cs : List Char) : List Char :=
  match cs with
  | [] => []
  | c :: rest =>
    if c = 'Z' ∨ c = 'z' then rest
    else if c = '+' ∨ c = '-' then
      let offset := do
        let (hour, rest) ← fixed? 2 rest
        let (minute, rest) ← fixed? 2 (← expect? ':' rest)
        if hour < 24 ∧ minute < 60 then some rest else none
      offset.getD cs
    else cs

/-- The rest behind a date, a time or both. -/
def momentRest? (cs : List Char) : Option (List Char) :=
  match date? cs with
  | none => time? cs
  | some rest =>
    match rest with
    | [] => some []
    | c :: later =>
      if c = 'T' ∨ c = 't' ∨ c = ' ' then
        match time? later with
        | some rest => some (skipOffset rest)
        | none => some rest
      else some rest

/-- A date, a time or both. -/
def moment? (cs : List Char) : Option (String × List Char) :=
  (momentRest? cs).map fun rest => (String.ofList (cs.take (cs.length - rest.length)), rest)

/-! ## Numbers -/

/-- Digits, with single low lines between two of them. `fuel` bounds the groups. -/
def grouped? (accepts : Char → Bool) : Nat → List Char → Option (List Char × List Char)
  | 0, _ => none
  | fuel + 1, cs =>
    let ds := cs.takeWhile accepts
    if ds.isEmpty then none
    else
      match cs.drop ds.length with
      | '_' :: rest => do
        let (more, rest) ← grouped? accepts fuel rest
        some (ds ++ more, rest)
      | rest => some (ds, rest)

def digits? (cs : List Char) : Option (List Char × List Char) :=
  grouped? isDigit (cs.length + 1) cs

def takeSign : List Char → List Char × List Char
  | '+' :: cs => (['+'], cs)
  | '-' :: cs => (['-'], cs)
  | cs => ([], cs)

/-- A whole number with its sign, as digits without low lines; it begins with a zero only if that
is all. -/
def decimal? (cs : List Char) : Option (List Char × List Char × List Char) :=
  let (sign, cs) := takeSign cs
  match cs with
  | '0' :: rest => some (sign, ['0'], rest)
  | cs => (digits? cs).map fun (ds, rest) => (sign, ds, rest)

/-- The exponent behind a number, if there is one. -/
def exponent? : List Char → Option (List Char × List Char)
  | [] => none
  | c :: cs =>
    if c = 'e' ∨ c = 'E' then
      let (sign, cs) := takeSign cs
      (digits? cs).map fun (ds, rest) => ('e' :: (sign ++ ds), rest)
    else none

/-- The names of infinity and of no number, with an optional sign. -/
def namedDouble? (cs : List Char) : Option (Decimal.Double × List Char) :=
  let (sign, rest) := takeSign cs
  let magnitude := match rest with
    | 'i' :: 'n' :: 'f' :: rest => some (Decimal.Double.infinity, rest)
    | 'n' :: 'a' :: 'n' :: rest => some (Decimal.Double.nan, rest)
    | _ => none
  magnitude.map fun (d, rest) => (if sign = ['-'] then d.negate else d, rest)

/-- The text of a number with a fraction or an exponent, without low lines. -/
def doubleText? (cs : List Char) : Option (List Char × List Char) := do
  let (sign, whole, rest) ← decimal? cs
  match rest with
  | '.' :: rest =>
    let (fraction, rest) ← digits? rest
    match exponent? rest with
    | some (e, rest) => some (sign ++ whole ++ '.' :: fraction ++ e, rest)
    | none => some (sign ++ whole ++ '.' :: fraction, rest)
  | rest =>
    let (e, rest) ← exponent? rest
    some (sign ++ whole ++ e, rest)

/-- A number with a fraction or an exponent. One that is too large is refused. -/
def double? (cs : List Char) : Option (Decimal.Double × List Char) :=
  match doubleText? cs with
  | some (text, rest) => do
    let d ← Decimal.Double.read? text
    if d = .infinity then none else some (d, rest)
  | none => namedDouble? cs

/-- The value of a digit in any base. -/
def isDigitOf (base : Nat) (c : Char) : Bool := (Text.hexValue? c).any (· < base)

/-- Digits of a base behind its mark. -/
def based? (base : Nat) (cs : List Char) : Option (Int × List Char) := do
  let (ds, rest) ← grouped? (isDigitOf base) (cs.length + 1) cs
  let n ← Text.ofDigits? base ds
  if n < 1 <<< 63 then some (n, rest) else none

/-- A whole number of 64 bits. -/
def integer? : List Char → Option (Int × List Char)
  | '0' :: 'x' :: cs => based? 16 cs
  | '0' :: 'o' :: cs => based? 8 cs
  | '0' :: 'b' :: cs => based? 2 cs
  | cs => do
    let (sign, ds, rest) ← decimal? cs
    let n := ofDigits ds
    if sign = ['-'] then if n ≤ 1 <<< 63 then some (-(n : Int), rest) else none
    else if n < 1 <<< 63 then some (n, rest) else none

end ScriptLoader.Toml
