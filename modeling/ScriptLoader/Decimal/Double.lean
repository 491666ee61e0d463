import ScriptLoader.Decimal.Shortest

/-!
# Double precision numbers by their bits

A double is kept as its 64 bits, so that two doubles are equal exactly when they are the same
number with the same sign. `Float` does the arithmetic.
-/

namespace ScriptLoader.Decimal

/-- A double, given by its bits. -/
structure Double where
  bits : UInt64
  deriving DecidableEq, Repr, Inhabited

namespace Double

def ofFloat (f : Float) : Double := ⟨f.toBits⟩

def toFloat (d : Double) : Float := Float.ofBits d.bits

def isNegative (d : Double) : Bool := d.bits.toNat >>> 63 = 1

def exponentBits (d : Double) : Nat := (d.bits.toNat >>> 52) % 2048

def fractionBits (d : Double) : Nat := d.bits.toNat % (1 <<< 52)

def isNaN (d : Double) : Bool := d.exponentBits = 2047 && d.fractionBits ≠ 0

def isInfinite (d : Double) : Bool := d.exponentBits = 2047 && d.fractionBits = 0

/-- The magnitude of a finite double as `m · 2^q`. -/
def parts (d : Double) : Nat × Int :=
  if d.exponentBits = 0 then (d.fractionBits, -1074)
  else ((1 <<< 52) + d.fractionBits, (d.exponentBits : Int) - 1075)

/-- The shortest digits of the magnitude; zero has the digit `0`. -/
def digits (d : Double) : Digits :=
  let (m, q) := d.parts
  if m = 0 then ⟨['0'], 1⟩
  else shortest m q (d.fractionBits = 0 && d.exponentBits > 1)

/-- The magnitude as a whole number, when it is one. -/
def natAbs? (d : Double) : Option Nat :=
  let (m, q) := d.parts
  if d.exponentBits = 2047 then none
  else if 0 ≤ q then some (m <<< q.toNat)
  else
    let p := 1 <<< (-q).toNat
    if m % p = 0 then some (m / p) else none

end Double

end ScriptLoader.Decimal
