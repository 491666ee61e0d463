import ScriptLoader.Compile.Basic
import ScriptLoader.Json.Reader
import ScriptLoader.Keyed
import ScriptLoader.Text.Classes

/-!
# Reading imports and exports line by line

A compiler that generates nothing: it finds imports and exports by the shape of single lines and
hands the source on as it is. A line with the mark of a failure makes the compile fail with the
rest of the line as its message.

* `Lines.staticImport?`, `Lines.dynamicImports`: what a line imports.
* `Lines.compile`: the compile.
* `Lines.declared`: the values that lines of the form `export const name = value;` declare.
-/

namespace ScriptLoader.Compile.Lines

open Text

/-- The mark of a failure. -/
def failureMark : List Char := "@compile-error".toList

def isQuote (c : Char) : Bool := c = '"' || c = '\x27'

/-- The text after one of the given words at the front of a line, behind blanks. -/
def afterWord? (words : List String) (line : List Char) : Option (List Char) :=
  words.findSome? fun w => dropFront? w.toList (trimStart line)

/-- The text without blanks at its end, if there are some. -/
def trimSome? (cs : List Char) : Option (List Char) :=
  let t := trimEnd cs
  if t.length = cs.length then none else some t

/-- Whether the text between a keyword and the opening quote fits an import: blanks, or names and
`from` with blanks around it. -/
def fitsImport (between : List Char) : Bool :=
  match between with
  | [] => false
  | c :: rest =>
    isBlank c && ((trim rest).isEmpty ||
      match trimSome? rest with
      | none => false
      | some t =>
        match dropFront? "morf".toList t.reverse with
        | some before => before.head?.any isBlank
        | none => false)

/-- The text between two quotes of any kind at the front, not empty, and what follows. -/
def quoted? (cs : List Char) : Option (List Char × List Char) :=
  match cs with
  | [] => none
  | q :: rest =>
    if !isQuote q then none
    else
      let body := rest.takeWhile fun c => !isQuote c
      match rest.dropWhile fun c => !isQuote c with
      | _ :: after => if body.isEmpty then none else some (body, after)
      | [] => none

/-- What a line imports when its module is loaded. -/
def staticImport? (line : List Char) : Option (List Char) :=
  match afterWord? ["import", "export"] line with
  | none => none
  | some rest =>
    if fitsImport (rest.takeWhile fun c => !isQuote c) then
      (quoted? (rest.dropWhile fun c => !isQuote c)).map (·.1)
    else none

/-- Whether a line begins with the word `export`. -/
def isExport (line : List Char) : Bool :=
  match afterWord? ["export"] line with
  | some (c :: _) => isBlank c
  | _ => false

/-- A call that imports at the front: its argument, and what follows. -/
def dynamicImport? (cs : List Char) : Option (List Char × List Char) :=
  match dropFront? "import(".toList cs with
  | none => none
  | some rest =>
    match quoted? (trimStart rest) with
    | none => none
    | some (raw, after) => (dropFront? [')'] (trimStart after)).map (raw, ·)

/-- What the calls in a text import, from left to right. `fuel` exceeds the length. -/
def dynamicImportsFrom : Nat → List Char → List (List Char)
  | 0, _ => []
  | _ + 1, [] => []
  | fuel + 1, c :: cs =>
    match dynamicImport? (c :: cs) with
    | some (raw, after) => raw :: dynamicImportsFrom fuel after
    | none => dynamicImportsFrom fuel cs

def dynamicImports (line : List Char) : List (List Char) :=
  dynamicImportsFrom (line.length + 1) line

/-- The specifier of an import inside the module at a location. -/
def dependency (raw : List Char) (location : String) : Except Failure Specifier :=
  let raw := String.ofList raw
  match Specifier.resolve raw location with
  | .ok s => .ok s
  | .error e => .error { message := s!"invalid module specifier '{raw}': {e.message}" }

/-- Adds calls that import to a report. -/
def addDynamic (location : String) : Report → List (List Char) → Except Failure Report
  | r, [] => .ok r
  | r, raw :: raws =>
    match dependency raw location with
    | .error e => .error e
    | .ok s => addDynamic location (r.pushDynamic s) raws

/-- Adds a line to a report. -/
def addLine (location : String) (r : Report) (line : List Char) : Except Failure Report :=
  match splitFirst? failureMark line with
  | some (_, reason) => .error { message := String.ofList (trim reason) }
  | none =>
    match staticImport? line with
    | some raw =>
      match dependency raw location with
      | .error e => .error e
      | .ok s =>
        addDynamic location ({ r with isModule := true }.pushStatic s) (dynamicImports line)
    | none => addDynamic location { r with isModule := r.isModule || isExport line }
        (dynamicImports line)

def addLines (location : String) : Report → List (List Char) → Except Failure Report
  | r, [] => .ok r
  | r, l :: ls =>
    match addLine location r l with
    | .error e => .error e
    | .ok r => addLines location r ls

/-- The source as it is, and the dependencies if they became known. -/
def compile : Compiler := fun r =>
  match addLines r.location {} (lines r.source.toList) with
  | .error e => (.error e, none)
  | .ok report => (.ok r.source, some report)

/-! ## Declared values -/

/-- The text behind one blank or more. -/
def afterBlanks? (cs : List Char) : Option (List Char) :=
  if cs.head?.any isBlank then some (trimStart cs) else none

/-- The value's text behind an equals sign: without blanks around it and without one semicolon at
its end. -/
def valueText? (cs : List Char) : Option (List Char) :=
  let body := trim cs
  if cs.isEmpty then none
  else if body.length ≥ 2 ∧ body.getLast? = some ';' then some (trim body.dropLast)
  else some body

/-- The name and the value's text that a line declares. -/
def declaration? (line : List Char) : Option (List Char × List Char) := do
  let rest ← dropFront? "export".toList (trimStart line)
  let rest ← afterBlanks? rest
  let rest ← dropFront? "const".toList rest
  let rest ← afterBlanks? rest
  let name := rest.takeWhile isWordChar
  if name.isEmpty then none
  let rest ← dropFront? ['='] (trimStart (rest.dropWhile isWordChar))
  let value ← valueText? rest
  return (name, value)

/-- A value's text as JSON, or as a string if it is none. -/
def value (text : List Char) : Json := (Json.read? text).getD (.string (String.ofList text))

/-- The names and values that a source declares, in order. A name that is declared again keeps its
place and takes the new value. -/
def declared (code : String) : Keyed String Json :=
  Keyed.putAll (((lines code.toList).filterMap declaration?).map fun (name, text) =>
    (String.ofList name, value text)) []

end ScriptLoader.Compile.Lines
