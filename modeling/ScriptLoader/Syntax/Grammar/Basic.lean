import ScriptLoader.Syntax.Cursor

/-!
# The grammar as a table

The rules of the grammar refer to each other. Each rule takes the table of all rules as an
argument and does not recur by itself; the grammar of a depth is the table built from the grammar
of the depth below, and a nesting deeper than the source is long does not occur.

* `Nonterminal`: what a rule reads.
* `Grammar`: a parser for each nonterminal.
* Names, property keys and literals, which need only the table's expressions.
-/

namespace ScriptLoader.Syntax

/-- What the rules of the grammar read. -/
inductive Nonterminal where
  /-- An expression with commas. -/
  | expression
  /-- An expression without commas. -/
  | assignment
  /-- An operand of a binary operator. -/
  | unary
  /-- A call or member access. -/
  | leftHand
  /-- What may stand after `new`: a member access without calls. -/
  | constructed
  /-- A name or pattern that is declared. -/
  | binding
  | statement
  | type
  /-- An element of markup, up to but not including its last bracket. -/
  | element
  deriving DecidableEq, Repr

/-- A parser for every nonterminal. -/
abbrev Grammar := Nonterminal → Parser Node

namespace Grammar

open Syntax.Parser

/-! ## Words -/

/-- The words that are never names of variables. -/
def reserved : List String :=
  ["break", "case", "catch", "class", "const", "continue", "debugger", "default", "delete", "do",
    "else", "enum", "export", "extends", "false", "finally", "for", "function", "if", "import",
    "in", "instanceof", "new", "null", "return", "super", "switch", "this", "throw", "true",
    "try", "typeof", "var", "void", "while", "with"]

/-- Whether a word may name a variable in a setting. -/
def nameable (s : Setting) (w : String) : Bool :=
  !(reserved.contains w) && !(w == "await" && s.awaitOk) && !(w == "yield" && s.yieldOk)

/-- Whether the cursor is on the name of a variable. -/
def atVariable : Parser Bool := fun s c =>
  .ok (match c.token with | .name w _ => nameable s w | _ => false, c)

/-- Whether the cursor is on any name or keyword. -/
def atName : Parser Bool := fun _ c =>
  .ok (match c.token with | .name _ _ => true | _ => false, c)

/-- The name of a variable as a node of a kind. -/
def variable_ (kind : Kind) : Parser Node := do
  let c ← cursor
  match c.token with
  | .name w escaped =>
    if nameable (← setting) w then leaf kind w (if escaped then [.escaped] else [])
    else refuse s!"{w} is no name of a variable"
  | _ => refuse "expected a name"

/-- Any name or keyword. -/
def word : Parser Node := do
  let c ← cursor
  match c.token with
  | .name w _ => leaf .word w
  | _ => refuse "expected a name"

/-- The cursor after the current token. -/
def next : Parser Cursor := ahead (do advance; cursor)

/-- The punctuator of a cursor, else the empty text. -/
def punctAt (c : Cursor) : String := match c.token with | .punct p => p | _ => ""

/-- The unescaped name of a cursor, else the empty text. -/
def wordAt (c : Cursor) : String := match c.token with | .name w false => w | _ => ""

def isNameAt (c : Cursor) : Bool := match c.token with | .name _ _ => true | _ => false

def isStringAt (c : Cursor) : Bool := match c.token with | .string _ => true | _ => false

/-! ## Literals -/

def stringLiteral : Parser Node := do
  let c ← cursor
  match c.token with
  | .string v => leaf .stringLit v
  | _ => refuse "expected a string"

/-- Reads the template text after a substitution, whose closing brace is the current token. -/
def continueTemplate : Parser Unit := fun s c =>
  match c.token with
  | .punct "\x7d" =>
    let (token, rest) := scanQuasi (s.size - c.span.stop + 2) c.rest
    .ok ((), { c with token, rest, span := ⟨c.span.start, s.size - rest.length⟩ })
  | _ => .error ⟨c.span.start, "expected \x7d"⟩

/-- The pieces of a template with `part` in its substitutions. Unsound escapes are allowed after a
tag only. -/
def templatePieces (part : Parser Node) (tagged : Bool) : Parser (List Node) :=
  loop (fun (acc : List Node) => do
    let c ← cursor
    match c.token with
    | .quasi raw sound last =>
      if !sound && !tagged then refuse "unsound escape" else
      let q : Node := .mk .quasi [] raw c.span []
      if last then
        advance
        return .inr (q :: acc).reverse
      else
        advance
        let e ← part
        continueTemplate
        return .inl (e :: q :: acc)
    | _ => refuse "expected template text") []

/-- A template with `part` in its substitutions. -/
def templateOf (part : Parser Node) (tagged : Bool) : Parser Node := do
  let start ← position
  let pieces ← templatePieces part tagged
  finish start .template pieces

/-- The key of a property: a name, a string, a number, a private name or a bracketed expression.
A bracketed key carries the mark `computed`. -/
def propertyKey (g : Grammar) : Parser Node := do
  let c ← cursor
  match c.token with
  | .name w _ => leaf .word w
  | .string v => leaf .stringLit v
  | .number raw => leaf .numberLit raw
  | .bigint raw => leaf .bigintLit raw
  | .privateName w => leaf .privateName w
  | .punct "[" =>
    advance
    let e ← within (fun s => { s with allowIn := true }) (g .assignment)
    expect "]"
    return e.withMark .computed
  | _ => refuse "expected a key"

/-- Whether a key is written in brackets. -/
def isComputed (key : Node) : Bool := key.has .computed

end Grammar

end ScriptLoader.Syntax
