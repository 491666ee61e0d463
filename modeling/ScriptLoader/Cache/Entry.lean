import ScriptLoader.Cache.Checksum
import ScriptLoader.Text.Utf8

/-!
# Stored compiles and their layout

A stored compile is what a compiler told of a module and generated for it, under the checksum that
it was compiled from. Stored in a database it is a list of bytes: a number is eight bytes with the
lowest first, a text its number of bytes and then these, a truth value one byte, a list the number
of its items and then these. What follows the last field is ignored.

* `Entry.bytes`: the layout.
* `Entry.read`: reads it, or tells why it cannot.
-/

namespace ScriptLoader.Cache

/-- A stored compile. -/
structure Entry where
  checksum : Checksum
  report : Compile.Report
  code : String
  deriving DecidableEq, Inhabited

/-- Why bytes are no stored compile. -/
inductive ReadFault where
  /-- The bytes end within a number or before a truth value. -/
  | ended
  /-- A text is said to be longer than what is left. -/
  | shortText
  | notTruth (byte : UInt8)
  | notText (fault : Text.Utf8.Fault)
  deriving DecidableEq, Inhabited

def ReadFault.message : ReadFault → String
  | .ended => "io error: unexpected end of file"
  | .shortText => "io error: "
  | .notTruth b => s!"invalid u8 while decoding bool, expected 0 or 1, found {b.toNat}"
  | .notText f => s!"string is not valid utf8: {f.message}"

/-! ## Writing -/

/-- The lowest `width` bytes of a number, the lowest first. -/
def littleEndian : Nat → Nat → List UInt8
  | 0, _ => []
  | width + 1, n => UInt8.ofNat n :: littleEndian width (n / 256)

def numberBytes (n : Nat) : List UInt8 := littleEndian 8 n

def textBytes (s : String) : List UInt8 :=
  let data := s.toUTF8.toList
  numberBytes data.length ++ data

def textsBytes (texts : List String) : List UInt8 :=
  numberBytes texts.length ++ texts.flatMap textBytes

/-- The layout of a stored compile. -/
def Entry.bytes (e : Entry) : List UInt8 :=
  textBytes e.checksum.hex ++ (if e.report.isModule then 1 else 0) ::
    (textsBytes (e.report.static.map (·.text)) ++ textsBytes (e.report.dynamic.map (·.text)) ++
      textBytes e.code)

/-!
## Reading

Each reader takes a value from the front and gives what is behind it.
-/

/-- The number that bytes with the lowest first stand for. -/
def ofLittleEndian : List UInt8 → Nat
  | [] => 0
  | b :: rest => b.toNat + 256 * ofLittleEndian rest

def readNumber (data : List UInt8) : Except ReadFault (Nat × List UInt8) :=
  if data.length < 8 then .error .ended
  else .ok (ofLittleEndian (data.take 8), data.drop 8)

def readTruth : List UInt8 → Except ReadFault (Bool × List UInt8)
  | [] => .error .ended
  | b :: rest =>
    if b = 0 then .ok (false, rest) else if b = 1 then .ok (true, rest) else .error (.notTruth b)

/-- The text that bytes are. -/
def decodeText (data : List UInt8) : Except ReadFault String :=
  match String.fromUTF8? ⟨data.toArray⟩ with
  | some s => .ok s
  | none => .error (.notText ((Text.Utf8.fault? data).getD default))

def readText (data : List UInt8) : Except ReadFault (String × List UInt8) := do
  let (size, data) ← readNumber data
  if data.length < size then throw .shortText
  else
    let s ← decodeText (data.take size)
    pure (s, data.drop size)

/-- Reads as many texts as are wanted. -/
def readItems : Nat → List UInt8 → Except ReadFault (List String × List UInt8)
  | 0, data => .ok ([], data)
  | n + 1, data => do
    let (s, data) ← readText data
    let (rest, data) ← readItems n data
    pure (s :: rest, data)

def readTexts (data : List UInt8) : Except ReadFault (List String × List UInt8) := do
  let (count, data) ← readNumber data
  readItems count data

/-- The stored compile that bytes hold. -/
def Entry.read (data : List UInt8) : Except ReadFault Entry := do
  let (hex, data) ← readText data
  let (isModule, data) ← readTruth data
  let (static, data) ← readTexts data
  let (dynamic, data) ← readTexts data
  let (code, _) ← readText data
  pure
    { checksum := ⟨hex⟩
      report := { isModule, static := static.map Specifier.mk, dynamic := dynamic.map Specifier.mk }
      code }

end ScriptLoader.Cache
