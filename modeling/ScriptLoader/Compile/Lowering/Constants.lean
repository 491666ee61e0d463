import ScriptLoader.Syntax.Printing.Sheet

/-!
# Constant expressions

The values of the members of enumerations: numbers and strings, computed from literals, operators
and members that are known.

* `Constant.evaluate`: the value of an expression, if it is constant.
-/

namespace ScriptLoader.Compile

open Syntax Decimal

/-- The value of a member of an enumeration. -/
inductive Constant where
  | number (value : Double)
  | text (value : String)
  deriving DecidableEq

/-- The members of an enumeration so far, each with its value if that is constant. -/
abbrev Members := List (String × Option Constant)

namespace Constant

/-- The text of a number. -/
def numberText (d : Double) : String :=
  if d.isNaN then "NaN"
  else
    let sign := if d.isNegative && d.parts.1 ≠ 0 then "-" else ""
    if d.isInfinite then sign ++ "Infinity" else sign ++ String.ofList (plainNumber d.digits)

/-- The text of a constant. -/
def toText : Constant → String
  | number d => numberText d
  | text s => s

/-- The whole part of a number, as a word of 32 bits with a sign. -/
def toInt32 (d : Double) : Int :=
  if d.isNaN || d.isInfinite then 0
  else
    let (m, q) := d.parts
    let magnitude := if 0 ≤ q then m <<< q.toNat else m >>> (-q).toNat
    Int.bmod (if d.isNegative then -(magnitude : Int) else magnitude) (1 <<< 32)

def ofInt (i : Int) : Constant := number (.ofFloat (Float.ofInt i))

/-- The exact remainder, with the sign of the dividend. -/
def remainder (a b : Double) : Double :=
  if a.isNaN || a.isInfinite || b.isNaN || b.parts.1 = 0 then .ofFloat (0.0 / 0.0)
  else if b.isInfinite then a
  else
    let (m, p) := a.parts
    let (n, q) := b.parts
    let e := if p ≤ q then p else q
    let r := (m <<< (p - e).toNat) % (n <<< (q - e).toNat)
    let rest := (Float.ofNat r).scaleB e
    .ofFloat (if a.isNegative then -rest else rest)

/-- Two words of 32 bits as the bits of a natural number. -/
def word (i : Int) : Nat := (i % ((1 <<< 32 : Nat) : Int)).toNat

def ofWord (n : Nat) : Constant := ofInt (Int.bmod n (1 <<< 32))

/-- A binary operator on numbers. -/
def arithmetic (op : String) (a b : Double) : Option Constant :=
  let x := a.toFloat
  let y := b.toFloat
  let i := toInt32 a
  let j := toInt32 b
  let shift := (j % 32).toNat
  match op with
  | "+" => some (number (.ofFloat (x + y)))
  | "-" => some (number (.ofFloat (x - y)))
  | "*" => some (number (.ofFloat (x * y)))
  | "/" => some (number (.ofFloat (x / y)))
  | "%" => some (number (remainder a b))
  | "**" => some (number (.ofFloat (x.pow y)))
  | "|" => some (ofWord (word i ||| word j))
  | "&" => some (ofWord (word i &&& word j))
  | "^" => some (ofWord (word i ^^^ word j))
  | "<<" => some (ofWord ((word i <<< shift) % (1 <<< 32)))
  | ">>" => some (ofInt (i >>> shift))
  | ">>>" => some (ofInt (word i >>> shift : Nat))
  | _ => none

/-- A binary operator. A sum with a string is a string. -/
def binary (op : String) : Constant → Constant → Option Constant
  | number a, number b => arithmetic op a b
  | a, b => if op = "+" then some (text (a.toText ++ b.toText)) else none

def unary (op : String) : Constant → Option Constant
  | number d =>
    match op with
    | "+" => some (number d)
    | "-" => some (number (.ofFloat (-d.toFloat)))
    | "~" => some (ofInt (-(toInt32 d) - 1))
    | _ => none
  | text _ =>
    match op with
    | "+" | "-" => some (number (.ofFloat (0.0 / 0.0)))
    | "~" => some (ofInt (-1))
    | _ => none

/-- The escapes of a piece of template text, decoded. -/
def cooked : Nat → List Char → List Char
  | 0, _ => []
  | _, [] => []
  | fuel + 1, c :: cs =>
    if c = '\\' then
      match escape? false cs with
      | some (some n, rest) => Char.ofNat n :: cooked fuel rest
      | some (none, rest) => cooked fuel rest
      | none => cooked fuel cs
    else c :: cooked fuel cs

mutual

/-- The value of an expression; `known` finds members by their name, `other` members of other
enumerations. -/
def evaluate (known : String → Option Constant) (other : String → String → Option Constant) :
    Node → Option Constant
  | .mk .numberLit _ raw _ _ => some (number (literalValue raw.toList))
  | .mk .stringLit _ value _ _ => some (text value)
  | .mk .template _ _ _ parts => (pieces known other parts).map text
  | .mk .paren _ _ _ [e] => evaluate known other e
  | .mk .unary _ op _ [e] => (evaluate known other e).bind (unary op)
  | .mk .binary _ op _ [a, b] =>
    match evaluate known other a, evaluate known other b with
    | some x, some y => binary op x y
    | _, _ => none
  | .mk .reference _ name _ _ =>
    match known name with
    | some c => some c
    | none =>
      if name = "Infinity" then some (number (.ofFloat (1.0 / 0.0)))
      else if name = "NaN" then some (number (.ofFloat (0.0 / 0.0)))
      else none
  | .mk .member _ _ _ [.mk .reference _ name _ _, .mk .word _ m _ _] => other name m
  | .mk .index _ _ _ [.mk .reference _ name _ _, .mk .stringLit _ m _ _] => other name m
  | _ => none

/-- The text of a template. -/
def pieces (known : String → Option Constant) (other : String → String → Option Constant) :
    List Node → Option String
  | [] => some ""
  | .mk .quasi _ raw _ _ :: ps =>
    (pieces known other ps).map
      (String.ofList (cooked (raw.length + 1) raw.toList) ++ ·)
  | e :: ps =>
    match evaluate known other e, pieces known other ps with
    | some c, some s => some (c.toText ++ s)
    | _, _ => none

end

end Constant

end ScriptLoader.Compile
