/-!
# Sizes for people

A number of bytes in bytes, or in kilobytes or megabytes with two places. A half goes to the even
neighbour.
-/

namespace ScriptLoader.Text

/-- The quotient rounded to the nearest whole number, a half to the even one. -/
def roundDiv (num den : Nat) : Nat :=
  let q := num / den
  let r := num % den
  if den < 2 * r then q + 1
  else if 2 * r = den then q + q % 2
  else q

/-- A quotient with two places. -/
def twoPlaces (num den : Nat) : String :=
  let n := roundDiv (100 * num) den
  let places := n % 100
  s!"{n / 100}." ++ (if places < 10 then "0" else "") ++ toString places

/-- A number of bytes. -/
def sizeText (bytes : Nat) : String :=
  if 1024 * 1024 ≤ bytes then twoPlaces bytes (1024 * 1024) ++ " MB"
  else if 1024 ≤ bytes then twoPlaces bytes 1024 ++ " KB"
  else s!"{bytes} B"

end ScriptLoader.Text
