/-!
# Shortest decimal digits of a binary fraction

A positive double is `m · 2^q`. Its shortest digits are the fewest decimal digits that name a
number inside the interval of reals which round to the double; among those of that length, the
nearest. Grids of 1, 2, … 17 digits are tried in exact integer arithmetic.

* `Digits`: a digit string with the place of its decimal point.
* `shortest`: the digits of `m · 2^q`.
-/

namespace ScriptLoader.Decimal

/-- The number `0.d₁d₂… · 10^point`, given by its digits. -/
structure Digits where
  digits : List Char
  point : Int
  deriving Repr, DecidableEq

/-- `b^e` as a quotient of natural numbers. -/
def powRatio (b : Nat) (e : Int) : Nat × Nat :=
  if 0 ≤ e then (b.pow e.toNat, 1) else (1, b.pow (-e).toNat)

/-- Whether `10^e ≤ num / den`. -/
def tenPowLe (e : Int) (num den : Nat) : Bool :=
  let (n, d) := powRatio 10 e
  n * den ≤ num * d

/-- Corrects a guess of the decimal logarithm of `num / den`, one step at a time. -/
def adjustLog (num den : Nat) : Nat → Int → Int
  | 0, e => e
  | fuel + 1, e =>
    if !tenPowLe e num den then adjustLog num den fuel (e - 1)
    else if tenPowLe (e + 1) num den then adjustLog num den fuel (e + 1)
    else e

/-- The largest `e` with `10^e ≤ m · 2^q`. -/
def floorLog (m : Nat) (q : Int) : Int :=
  let (n, d) := powRatio 2 q
  let guess := (((m.log2 : Int) + q) * 30103).fdiv 100000
  adjustLog (m * n) d 8 guess

/-- The multiple of `10^k` nearest to `m · 2^q` that still rounds to it, as a factor, if one of
the two neighbours on that grid does. `half` tells that the gap below is half the gap above. -/
def onGrid? (m : Nat) (q : Int) (half : Bool) (k : Int) : Option Nat :=
  let (n2, d2) := powRatio 2 (q - 2)
  let (n10, d10) := powRatio 10 k
  let unit := n2 * d10
  let scale := d2 * n10
  let value := 4 * m * unit
  let low := (4 * m - (if half then 1 else 2)) * unit
  let high := (4 * m + 2) * unit
  let inside (c : Nat) : Bool :=
    if m % 2 = 0 then low ≤ c * scale && c * scale ≤ high
    else low < c * scale && c * scale < high
  let below := value / scale
  let above := below + 1
  match inside below, inside above with
  | false, false => none
  | true, false => some below
  | false, true => some above
  | true, true =>
    let down := value - below * scale
    let up := above * scale - value
    if down < up then some below
    else if up < down then some above
    else some (if below % 2 = 0 then below else above)

/-- Tries the grids with `n`, `n + 1`, … significant digits. -/
def firstGrid (m : Nat) (q : Int) (half : Bool) (log : Int) : Nat → Nat → Nat × Int
  | 0, n => (m, n)
  | fuel + 1, n =>
    let k := log - (n : Int) + 1
    match onGrid? m q half k with
    | some c => (c, k)
    | none => firstGrid m q half log fuel (n + 1)

/-- Removes the zeros at the end of a digit list. -/
def dropZeros (ds : List Char) : List Char := (ds.reverse.dropWhile (· = '0')).reverse

/-- The shortest digits of `m · 2^q` for `m > 0`. -/
def shortest (m : Nat) (q : Int) (half : Bool) : Digits :=
  let log := floorLog m q
  let (c, k) := firstGrid m q half log 18 1
  let ds := Nat.toDigits 10 c
  { digits := dropZeros ds, point := (ds.length : Int) + k }

/-- `count` zeros. -/
def zeros (count : Int) : List Char := List.replicate count.toNat '0'

/-- The digits written out with a point, without an exponent; no point after a whole number. -/
def Digits.positional (d : Digits) : List Char :=
  let len := (d.digits.length : Int)
  if d.point ≤ 0 then '0' :: '.' :: (zeros (-d.point) ++ d.digits)
  else if d.point < len then d.digits.take d.point.toNat ++ '.' :: d.digits.drop d.point.toNat
  else d.digits ++ zeros (d.point - len)

/-- The decimal text of an integer. -/
def intText (i : Int) : List Char :=
  if i < 0 then '-' :: Nat.toDigits 10 i.natAbs else Nat.toDigits 10 i.natAbs

/-- One digit before the point, then the mark `e` with the given text between it and the
exponent's digits. -/
def Digits.scientific (d : Digits) (plus : List Char) : List Char :=
  let e := d.point - 1
  let sign := if e < 0 then ['-'] else plus
  let mantissa :=
    match d.digits with
    | [] => ['0']
    | [c] => [c]
    | c :: cs => c :: '.' :: cs
  mantissa ++ 'e' :: sign ++ Nat.toDigits 10 e.natAbs

end ScriptLoader.Decimal
