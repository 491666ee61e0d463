import ScriptLoader.Text.Ranges

/-!
# Character classes

Classes of Unicode characters: alphabetic and numeric characters, the characters of identifiers,
and the characters that a debug text shows as they are. Each class decides ASCII by itself and
asks the tables of `Ranges` for the rest.

* `isBlank`: the property `White_Space`. Specifiers, error messages and configuration values are
  trimmed by this class and no other (`trim`).
* `isBlank_of_isWhitespace`: every character that the core library calls white space is blank.
-/

namespace ScriptLoader.Text

/-- Whether a code point lies in one of the inclusive ranges. -/
def inRanges (n : Nat) (ranges : List (Nat × Nat)) : Bool :=
  ranges.any fun (a, b) => a ≤ n && n ≤ b

def isAsciiLetter (c : Char) : Bool :=
  ('a' ≤ c && c ≤ 'z') || ('A' ≤ c && c ≤ 'Z')

def isAsciiDigit (c : Char) : Bool := '0' ≤ c && c ≤ '9'

/-- The property `Alphabetic`. -/
def isAlphabetic (c : Char) : Bool :=
  if c.toNat < 128 then isAsciiLetter c
  else inRanges c.toNat Ranges.letters || inRanges c.toNat Ranges.otherAlphabetic

/-- The numbers: the categories `Nd`, `Nl` and `No`. Those of `Nl` are alphabetic too. -/
def isNumeric (c : Char) : Bool :=
  if c.toNat < 128 then isAsciiDigit c
  else inRanges c.toNat Ranges.decimalDigits || inRanges c.toNat Ranges.otherNumbers

def isAlphanumeric (c : Char) : Bool := isAlphabetic c || isNumeric c

/-- Characters of a word: alphabetic characters, marks, decimal digits, connectors and the two
joiners. -/
def isWordChar (c : Char) : Bool :=
  if c.toNat < 128 then isAsciiLetter c || isAsciiDigit c || c = '_'
  else isAlphabetic c || inRanges c.toNat Ranges.marks || inRanges c.toNat Ranges.decimalDigits ||
    inRanges c.toNat Ranges.connectors || inRanges c.toNat Ranges.extenders ||
    c.toNat = 0x200C || c.toNat = 0x200D

/-- The property `ID_Start`. -/
def isIdStart (c : Char) : Bool :=
  if c.toNat < 128 then isAsciiLetter c
  else inRanges c.toNat Ranges.letters ||
    [0x1885, 0x1886, 0x2118, 0x212E, 0x309B, 0x309C].contains c.toNat

/-- The property `ID_Continue`. -/
def isIdContinue (c : Char) : Bool :=
  if c.toNat < 128 then isAsciiLetter c || isAsciiDigit c || c = '_'
  else isIdStart c || inRanges c.toNat Ranges.marks || inRanges c.toNat Ranges.decimalDigits ||
    inRanges c.toNat Ranges.connectors ||
    [0xB7, 0x387, 0x19DA, 0x30FB, 0xFF65].contains c.toNat ||
    (0x1369 ≤ c.toNat && c.toNat ≤ 0x1371)

/-- Characters that a debug text shows as they are. -/
def isShown (c : Char) : Bool :=
  if c.toNat < 128 then ' ' ≤ c && c.toNat < 127
  else !(inRanges c.toNat Ranges.extenders || inRanges c.toNat Ranges.unprintable)

/-! ## Blank characters -/

/-- Membership in the Unicode property `White_Space`. -/
def isBlank (c : Char) : Bool :=
  let n := c.toNat
  (0x09 ≤ n && n ≤ 0x0D) || n == 0x20 || n == 0x85 || n == 0xA0 || n == 0x1680 ||
    (0x2000 ≤ n && n ≤ 0x200A) || n == 0x2028 || n == 0x2029 || n == 0x202F || n == 0x205F ||
    n == 0x3000

/-- Drops the blanks in front. -/
def trimStart (cs : List Char) : List Char := cs.dropWhile isBlank

/-- Drops the blanks behind. -/
def trimEnd (cs : List Char) : List Char := (cs.reverse.dropWhile isBlank).reverse

/-- Drops the blanks on both sides. -/
def trim (cs : List Char) : List Char := trimEnd (trimStart cs)

/-- `trim` on strings. -/
def trimText (s : String) : String := String.ofList (trim s.toList)

theorem isBlank_of_isWhitespace {c : Char} (h : c.isWhitespace = true) : isBlank c = true := by
  simp only [Char.isWhitespace, Bool.or_eq_true, decide_eq_true_eq] at h
  rcases h with ((rfl | rfl) | rfl) | rfl <;> rfl

end ScriptLoader.Text
