import ScriptLoader.Decimal.Double

/-!
# Doubles from decimal digits

The double nearest to a significand times a power of ten, and a double written without an exponent.

* `Double.ofDecimal`: the nearest double; too large a number is infinite.
* `Double.read?`: the double of a text with digits, a point and an exponent.
* `Double.text`: the shortest digits that read back.
-/

namespace ScriptLoader.Decimal

def isDigit (c : Char) : Bool := '0' ≤ c && c ≤ '9'

/-- The number of some decimal digits. -/
def ofDigits (ds : List Char) : Nat := ds.foldl (fun n c => 10 * n + (c.toNat - 48)) 0

namespace Double

def infinity : Double := ⟨0x7FF0000000000000⟩

def nan : Double := ⟨0x7FF8000000000000⟩

def zero : Double := ⟨0⟩

def negate (d : Double) : Double := ⟨d.bits ^^^ 0x8000000000000000⟩

/-- No double reaches `10^310`, and none but zero is below `10^-330`. -/
def largest : Int := 310

def smallest : Int := -330

/-- The double nearest to `significand · 10^e`. -/
def ofDecimal (significand : Nat) (e : Int) : Double :=
  let magnitude := (Nat.toDigits 10 significand).length + e
  if significand = 0 ∨ magnitude < smallest then zero
  else if largest < magnitude then infinity
  else ofFloat (Float.ofScientific significand (e < 0) e.natAbs)

/-- A sign at the front, and what follows. -/
def takeSign : List Char → Bool × List Char
  | '+' :: cs => (false, cs)
  | '-' :: cs => (true, cs)
  | cs => (false, cs)

/-- The exponent behind its mark: an optional sign and digits to the end. -/
def exponent? (cs : List Char) : Option Int :=
  let (negative, ds) := takeSign cs
  if ds.isEmpty || !ds.all isDigit then none
  else some (if negative then -(ofDigits ds : Int) else ofDigits ds)

/-- The magnitude of digits around an optional point, and an optional exponent. -/
def magnitude? (cs : List Char) : Option Double :=
  let whole := cs.takeWhile isDigit
  let (fraction, rest) := match cs.dropWhile isDigit with
    | '.' :: rest => (rest.takeWhile isDigit, rest.dropWhile isDigit)
    | rest => ([], rest)
  if whole.isEmpty && fraction.isEmpty then none
  else
    let value := fun (e : Int) => ofDecimal (ofDigits (whole ++ fraction)) (e - fraction.length)
    match rest with
    | [] => some (value 0)
    | mark :: rest =>
      if mark = 'e' ∨ mark = 'E' then (exponent? rest).map value else none

/-- The double of a text: an optional sign, digits around an optional point, and an optional
exponent; or the name of infinity or of no number. -/
def read? (cs : List Char) : Option Double :=
  let (negative, cs) := takeSign cs
  let named := String.ofList (cs.map Char.toLower)
  let magnitude :=
    if named = "inf" ∨ named = "infinity" then some infinity
    else if named = "nan" then some nan
    else magnitude? cs
  magnitude.map fun d => if negative then d.negate else d

/-- The text of a double: no exponent, and no point after a whole number. -/
def text (d : Double) : String :=
  if d.isNaN then "NaN"
  else
    let magnitude := if d.isInfinite then "inf".toList else d.digits.positional
    String.ofList (if d.isNegative then '-' :: magnitude else magnitude)

end Double

end ScriptLoader.Decimal
