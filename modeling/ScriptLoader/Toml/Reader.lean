import ScriptLoader.Toml.Scalar
import ScriptLoader.Toml.Table

/-!
# Reading a TOML document

A document is a list of lines: blank ones, keys with values, and headers that open a table for the
keys below them. Arrays go over several lines; inline tables do not.

* `Toml.read?`: the fields of a document, or `none` if it is none.
-/

namespace ScriptLoader.Toml

/-! ## Values -/

/-- Items up to the closing bracket, behind the opening one. `fuel` bounds the items. -/
def items? (value : List Char → Option (Node × List Char)) :
    Nat → List Char → Option (List Node × List Char)
  | 0, _ => none
  | fuel + 1, cs =>
    match skipLines cs.length cs with
    | ']' :: rest => some ([], rest)
    | cs => do
      let (v, rest) ← value cs
      match skipLines rest.length rest with
      | ',' :: rest =>
        let (vs, rest) ← items? value fuel rest
        some (v :: vs, rest)
      | ']' :: rest => some ([v], rest)
      | _ => none

/-- A key, the sign between and the value behind it. -/
def pair? (value : List Char → Option (Node × List Char)) (cs : List Char) :
    Option ((List String × Node) × List Char) := do
  let (key, rest) ← key? cs
  let (v, rest) ← value (skipGap (← expect? '=' rest))
  some ((key, v), rest)

/-- Pairs up to the closing brace, behind the opening one. `fuel` bounds the pairs. -/
def pairs? (value : List Char → Option (Node × List Char)) :
    Nat → List Char → Option (List (List String × Node) × List Char)
  | 0, _ => none
  | fuel + 1, cs => do
    let (p, rest) ← pair? value cs
    match skipGap rest with
    | ',' :: rest =>
      let (ps, rest) ← pairs? value fuel rest
      some (p :: ps, rest)
    | '\x7d' :: rest => some ([p], rest)
    | _ => none

/-- The inline table of some pairs. -/
def inlineTable? (pairs : List (List String × Node)) : Option Node :=
  (pairs.foldlM (fun fields (key, v) => Table.assign key v fields) []).map (.table .inline)

/-- A date, a time or a number. -/
def number? (cs : List Char) : Option (Node × List Char) :=
  match moment? cs, double? cs with
  | some (m, rest), _ => some (.moment m, rest)
  | none, some (d, rest) => some (.double d, rest)
  | none, none => (integer? cs).map fun (i, rest) => (.integer i, rest)

/-- A value. `depth` bounds the containers inside each other. -/
def value? : Nat → List Char → Option (Node × List Char)
  | _, 't' :: 'r' :: 'u' :: 'e' :: rest => some (.truth true, rest)
  | _, 'f' :: 'a' :: 'l' :: 's' :: 'e' :: rest => some (.truth false, rest)
  | depth + 1, '[' :: cs =>
    (items? (value? depth) (cs.length + 1) cs).map fun (vs, rest) => (.array vs, rest)
  | depth + 1, '\x7b' :: cs =>
    match skipGap cs with
    | '\x7d' :: rest => some (.table .inline [], rest)
    | cs => do
      let (ps, rest) ← pairs? (value? depth) (cs.length + 1) cs
      (inlineTable? ps).map (·, rest)
  | _, cs =>
    match string? cs with
    | some (s, rest) => some (.text (String.ofList s), rest)
    | none => number? cs

/-! ## Documents -/

/-- A document that is being read. -/
structure Reading where
  root : Table.Fields := []
  /-- The table that keys are put into. -/
  header : List String := []

/-- Reads a header behind its opening bracket. -/
def header? (r : Reading) : List Char → Option (Reading × List Char)
  | '[' :: cs => do
    let (key, rest) ← key? cs
    let rest ← lineEnd? (← expect? ']' (← expect? ']' rest))
    some (⟨← Table.openItem key r.root, key⟩, rest)
  | cs => do
    let (key, rest) ← key? cs
    let rest ← lineEnd? (← expect? ']' rest)
    some (⟨← Table.openTable key r.root, key⟩, rest)

/-- Reads a line. -/
def line? (r : Reading) (cs : List Char) : Option (Reading × List Char) :=
  match cs with
  | '[' :: rest => header? r rest
  | cs => do
    let ((key, v), rest) ← pair? (value? maxDepth) cs
    let root ← Table.assignIn r.header key v r.root
    some ({ r with root }, ← lineEnd? rest)

/-- Reads lines to the end. `fuel` bounds the lines. -/
def lines : Nat → Reading → List Char → Option Reading
  | 0, _, _ => none
  | fuel + 1, r, cs =>
    match skipLines cs.length cs with
    | [] => some r
    | cs => do
      let (r, rest) ← line? r cs
      lines fuel r rest

/-- The mark that may stand before a document. -/
def dropMark : List Char → List Char
  | '\uFEFF' :: cs => cs
  | cs => cs

/-- The fields of a document. -/
def read? (text : String) : Option Table.Fields :=
  let cs := dropMark text.toList
  (lines (cs.length + 1) {} cs).map (·.root)

end ScriptLoader.Toml
