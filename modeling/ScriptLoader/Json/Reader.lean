import ScriptLoader.Json.Basic
import ScriptLoader.Text.Hex

/-!
# Reading JSON

A strict reader: no blanks but the four of JSON, no numbers with leading zeros, no control
characters inside strings, no lone surrogates, and at most 127 nested containers. A number
outside the 64-bit integers is a double; one whose magnitude has no double is refused.

* `Json.read?`: the value that a whole text denotes.
-/

namespace ScriptLoader.Json

open ScriptLoader.Decimal

def isJsonBlank (c : Char) : Bool := c = ' ' || c = '\n' || c = '\t' || c = '\r'

def skipBlanks (cs : List Char) : List Char := cs.dropWhile isJsonBlank

def isDigit (c : Char) : Bool := '0' ≤ c && c ≤ '9'

def digitValue (c : Char) : Nat := c.toNat - 48

/-! ## Strings -/

/-- Four hexadecimal digits as a number. -/
def hexUnit? : List Char → Option (Nat × List Char)
  | a :: b :: c :: d :: rest =>
    (Text.ofDigits? 16 [a, b, c, d]).map fun n => (n, rest)
  | _ => none

/-- The character of a `\u` escape whose digits stand at the front. -/
def unicodeEscape? (cs : List Char) : Option (Char × List Char) := do
  let (n, rest) ← hexUnit? cs
  if 0xD800 ≤ n ∧ n ≤ 0xDBFF then
    match rest with
    | '\\' :: 'u' :: rest =>
      let (m, rest) ← hexUnit? rest
      if 0xDC00 ≤ m ∧ m ≤ 0xDFFF then
        some (Char.ofNat (0x10000 + (n - 0xD800) * 0x400 + (m - 0xDC00)), rest)
      else none
    | _ => none
  else if 0xDC00 ≤ n ∧ n ≤ 0xDFFF then none
  else some (Char.ofNat n, rest)

/-- The rest of a string literal after its opening quote. `fuel` bounds the characters. -/
def stringBody? : Nat → List Char → List Char → Option (List Char × List Char)
  | 0, _, _ => none
  | _ + 1, _, [] => none
  | fuel + 1, acc, c :: cs =>
    if c = '"' then some (acc.reverse, cs)
    else if c = '\\' then
      match cs with
      | '"' :: cs => stringBody? fuel ('"' :: acc) cs
      | '\\' :: cs => stringBody? fuel ('\\' :: acc) cs
      | '/' :: cs => stringBody? fuel ('/' :: acc) cs
      | 'b' :: cs => stringBody? fuel ('\x08' :: acc) cs
      | 'f' :: cs => stringBody? fuel ('\x0c' :: acc) cs
      | 'n' :: cs => stringBody? fuel ('\n' :: acc) cs
      | 'r' :: cs => stringBody? fuel ('\r' :: acc) cs
      | 't' :: cs => stringBody? fuel ('\t' :: acc) cs
      | 'u' :: cs =>
        match unicodeEscape? cs with
        | some (d, cs) => stringBody? fuel (d :: acc) cs
        | none => none
      | _ => none
    else if c.toNat < 32 then none
    else stringBody? fuel (c :: acc) cs

/-! ## Numbers -/

/-- `10^e` as a double, for `e` up to 308. -/
def tenPow (e : Nat) : Float := Float.ofScientific 1 false e

/-- A significand scaled by a power of ten, by one multiplication or by divisions. -/
def scale? : Nat → Float → Int → Option Float
  | 0, _, _ => none
  | fuel + 1, f, e =>
    if e.natAbs ≤ 308 then
      if 0 ≤ e then
        let g := f * tenPow e.natAbs
        if g.isInf then none else some g
      else some (f / tenPow e.natAbs)
    else if f == 0.0 then some f
    else if 0 ≤ e then none
    else scale? fuel (f / tenPow 308) (e + 308)

/-- The double of a signed significand and a decimal exponent. -/
def doubleOf? (negative : Bool) (significand : Nat) (e : Int) : Option JsonNumber :=
  (scale? 40 (UInt64.ofNat significand).toFloat e).map fun f =>
    .double (.ofFloat (if negative then -f else f))

/-- Collects digits into a significand of 64 bits; digits past that size are dropped. The answer
counts the digits kept and the digits dropped. -/
def takeDigits (start : Nat) (ds : List Char) : Nat × Nat × Nat :=
  ds.foldl (fun (n, kept, dropped) c =>
    let m := n * 10 + digitValue c
    if dropped = 0 ∧ m < 1 <<< 64 then (m, kept + 1, 0) else (n, kept, dropped + 1)) (start, 0, 0)

/-- The exponent part after the mark `e`: sign and digits. -/
def exponent? (cs : List Char) : Option (Int × List Char) :=
  let (negative, cs) :=
    match cs with
    | '+' :: cs => (false, cs)
    | '-' :: cs => (true, cs)
    | cs => (false, cs)
  let ds := cs.takeWhile isDigit
  if ds.isEmpty then none
  else
    let n := ds.foldl (fun n c => n * 10 + digitValue c) 0
    some (if negative then -(n : Int) else n, cs.dropWhile isDigit)

/-- The rest of a number once its significand and the exponent so far are known. -/
def scaled? (negative : Bool) (significand : Nat) (e : Int) (cs : List Char) :
    Option (JsonNumber × List Char) :=
  match cs with
  | [] => (doubleOf? negative significand e).map (·, cs)
  | c :: rest =>
    if c = 'e' ∨ c = 'E' then
      match exponent? rest with
      | none => none
      | some (x, rest) =>
        if significand = 0 then (doubleOf? negative 0 0).map (·, rest)
        else (doubleOf? negative significand (e + x)).map (·, rest)
    else (doubleOf? negative significand e).map (·, cs)

/-- A number after its sign. -/
def magnitude? (negative : Bool) (cs : List Char) : Option (JsonNumber × List Char) :=
  let ds := cs.takeWhile isDigit
  let rest := cs.dropWhile isDigit
  if ds.isEmpty ∨ (ds.head? = some '0' ∧ ds.length > 1) then none
  else
    let (n, _, dropped) := takeDigits 0 ds
    match rest with
    | '.' :: frac =>
      let fs := frac.takeWhile isDigit
      if fs.isEmpty then none
      else if dropped > 0 then scaled? negative n dropped (frac.dropWhile isDigit)
      else
        let (n, kept, _) := takeDigits n fs
        scaled? negative n (-(kept : Int)) (frac.dropWhile isDigit)
    | _ =>
      let marked := rest.head? = some 'e' ∨ rest.head? = some 'E'
      if dropped > 0 ∨ marked then scaled? negative n dropped rest
      else if !negative then some (.int n, rest)
      else if 0 < n ∧ n ≤ 1 <<< 63 then some (.int (-(n : Int)), rest)
      else (doubleOf? true n 0).map (·, rest)

def number? : List Char → Option (JsonNumber × List Char)
  | '-' :: cs => magnitude? true cs
  | cs => magnitude? false cs

/-! ## Values -/

/-- Items up to the closing bracket, after the opening one; `first` allows it at once. -/
def items? (value : List Char → Option (Json × List Char)) :
    Nat → Bool → List Json → List Char → Option (List Json × List Char)
  | 0, _, _, _ => none
  | fuel + 1, first, acc, cs =>
    match skipBlanks cs, first with
    | ']' :: rest, true => some (acc.reverse, rest)
    | cs, _ => do
      let (v, rest) ← value cs
      match skipBlanks rest with
      | ',' :: rest => items? value fuel false (v :: acc) rest
      | ']' :: rest => some ((v :: acc).reverse, rest)
      | _ => none

/-- Fields up to the closing brace, after the opening one. -/
def fields? (value : List Char → Option (Json × List Char)) :
    Nat → Bool → List (String × Json) → List Char → Option (List (String × Json) × List Char)
  | 0, _, _, _ => none
  | fuel + 1, first, acc, cs =>
    match skipBlanks cs, first with
    | '\x7d' :: rest, true => some (acc.reverse, rest)
    | '"' :: rest, _ => do
      let (key, rest) ← stringBody? (rest.length + 1) [] rest
      match skipBlanks rest with
      | ':' :: rest =>
        let (v, rest) ← value (skipBlanks rest)
        let acc := (String.ofList key, v) :: acc
        match skipBlanks rest with
        | ',' :: rest => fields? value fuel false acc rest
        | '\x7d' :: rest => some (acc.reverse, rest)
        | _ => none
      | _ => none
    | _, _ => none

/-- The value at the front of a text that does not begin with a blank. `depth` bounds the nested
containers. -/
def value? : Nat → List Char → Option (Json × List Char)
  | _, 'n' :: 'u' :: 'l' :: 'l' :: rest => some (.null, rest)
  | _, 't' :: 'r' :: 'u' :: 'e' :: rest => some (.bool true, rest)
  | _, 'f' :: 'a' :: 'l' :: 's' :: 'e' :: rest => some (.bool false, rest)
  | _, '"' :: rest =>
    (stringBody? (rest.length + 1) [] rest).map fun (s, rest) => (.string (String.ofList s), rest)
  | depth + 1, '[' :: rest =>
    (items? (value? depth) (rest.length + 1) true [] rest).map fun (xs, rest) =>
      (.array xs, rest)
  | depth + 1, '\x7b' :: rest =>
    (fields? (value? depth) (rest.length + 1) true [] rest).map fun (fs, rest) =>
      (Json.ofFields fs, rest)
  | _, cs => (number? cs).map fun (n, rest) => (.number n, rest)

/-- The value that the whole text denotes. -/
def read? (cs : List Char) : Option Json :=
  match value? 127 (skipBlanks cs) with
  | some (v, rest) => if (skipBlanks rest).isEmpty then some v else none
  | none => none

end ScriptLoader.Json
