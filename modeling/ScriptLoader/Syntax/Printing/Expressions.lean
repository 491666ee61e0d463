import ScriptLoader.Syntax.Printing.Sheet

/-!
# Printed expressions

Expressions, patterns, functions and classes. Parentheses are not taken from the source: an
expression stands in parentheses where it binds less tightly than its place demands.

The rules refer to each other through a table, as the rules of the grammar do: `Renderers` holds
what prints nested expressions, patterns and statements.

* `Level`: how tightly an expression binds.
* `expressionRule`, `patternRule`: one rule for each kind of node.
-/

namespace ScriptLoader.Syntax

namespace Level

def lowest : Nat := 0
def comma : Nat := 1
def yield : Nat := 3
def assign : Nat := 4
def conditional : Nat := 5
def coalesce : Nat := 6
def equals : Nat := 12
def compare : Nat := 13
def power : Nat := 17
def prefixOp : Nat := 18
def postfixOp : Nat := 19
def new : Nat := 20
def call : Nat := 21
def member : Nat := 22

/-- How tightly a binary operator binds. -/
def ofOperator (op : String) : Nat :=
  match op with
  | "??" => 6
  | "||" => 7
  | "&&" => 8
  | "|" => 9
  | "^" => 10
  | "&" => 11
  | "==" | "!=" | "===" | "!==" => 12
  | "<" | ">" | "<=" | ">=" | "in" | "instanceof" => 13
  | "<<" | ">>" | ">>>" => 14
  | "+" | "-" => 15
  | "*" | "/" | "%" => 16
  | _ => 17

end Level

/-- What an expression may not be at its place. -/
structure Place where
  /-- `in` needs parentheses: the place is the head of a loop. -/
  noIn : Bool := false
  /-- A call needs parentheses: the place is behind `new`. -/
  noCall : Bool := false

namespace Place

def free : Place := {}

def keepIn (p : Place) : Place := { noIn := p.noIn }

def keepCall (p : Place) : Place := { noCall := p.noCall }

end Place

/-- What prints nested nodes. -/
structure Renderers where
  expression : Nat → Place → Node → Print Unit
  pattern : Node → Print Unit
  statement : Node → Print Unit

/-- The mark of a call without side effects. -/
def pureMarkText : String := "/* @__PURE__ */ "

namespace Printing

open Print

variable (r : Renderers)

/-- An expression without parentheses around it. -/
def bare : Node → Node
  | .mk .paren _ _ _ [e] => bare e
  | n => n

/-- Anything in braces; on one line if asked to. -/
def braces (oneLine : Bool) (p : Print Unit) : Print Unit := do
  str "\x7b"
  if !oneLine then
    newline
    deeper
  p
  if !oneLine then
    shallower
    indent
  str "\x7d"

/-- A statement that is only a string, which must not become a directive. -/
def bareString? : Node → Option Node
  | .mk .expression _ _ _ [e] => if (bare e).is .stringLit then some (bare e) else none
  | _ => none

/-- Statements at the start of a body: a string that is no directive stands in parentheses. -/
def bodyStatements (statements : List Node) : Print Unit :=
  match statements with
  | [] => pure ()
  | first :: rest => do
    match bareString? first with
    | some s =>
      str "("
      str (quoteString s.text)
      str ")"
      semicolonLine
    | none => r.statement first
    rest.forM r.statement

/-- A block of statements. -/
def block (n : Node) : Print Unit :=
  braces n.children.isEmpty (n.children.forM r.statement)

/-- The body of a function, with the comments in front of its last brace. -/
def functionBody (n : Node) : Print Unit := do
  let final ← takeComments (n.span.stop - 1)
  let oneLine := n.children.isEmpty && final.all fun c => !(c.newlineBefore || c.newlineAfter)
  braces oneLine do
    bodyStatements r n.children
    commentRun true final
    if oneLine then modify fun sh => { sh with onLine := false }

/-! ## Keys and properties -/

/-- A key of a property. -/
def key (computed : Bool) (k : Node) : Print Unit := do
  if computed then str "["
  match k with
  | .mk .word _ name _ _ => str name
  | .mk .privateName _ name _ _ => str ("#" ++ name)
  | k => r.expression Level.comma .free k
  if computed then str "]"

/-- A value behind an equals sign, if there is one. -/
def initializer (place : Place) (value : Node) : Print Unit := do
  if !value.isAbsent then
    str " = "
    r.expression Level.comma place value

def decorators (ds : List Node) : Print Unit :=
  ds.forM fun d => do
    str "@"
    r.expression Level.lowest .free (d.child 0)
    space

/-- A parameter. -/
def parameter : Node → Print Unit
  | .mk .param _ _ _ (p :: ds) => do
    decorators r ds
    r.pattern p
  | p => r.pattern p

def parameters (ps : Node) : Print Unit := do
  str "("
  commas (parameter r) ps.children
  str ")"

/-- The parameters and the body of a method. -/
def methodRest (f : Node) : Print Unit := do
  parameters r (f.child 1)
  space
  functionBody r (f.child 2)

/-- The words in front of the key of a method. -/
def methodWords (n : Node) : Print Unit := do
  if n.has .getter then str "get "
  if n.has .setter then str "set "
  if n.has .async then str "async "
  if n.has .generator then str "*"

/-- Whether a property is written by its value's name alone. -/
def isShorthand (n : Node) : Bool :=
  let k := n.child 0
  let value := bare (n.child 1)
  if !(k.is .word) || n.has .computed then false
  else if k.text = "__proto__" then n.has .shorthand
  else value.is .reference && value.text = k.text

/-- An item of an object. -/
def objectItem : Node → Print Unit
  | .mk .spread _ _ _ [e] => do
    str "..."
    r.expression Level.comma .free e
  | n@(.mk .method _ _ _ [k, f]) => do
    methodWords n
    key r (n.has .computed) k
    methodRest r f
  | n => do
    if !(isShorthand n) then
      key r (n.has .computed) (n.child 0)
      str ": "
    r.expression Level.comma .free (n.child 1)

/-- Items between brackets, each on a line of its own if they are many. -/
def lined (manyLines : Bool) (item : Node → Print Unit) (gap : Print Unit) :
    Nat → List Node → Print Unit
  | _, [] => pure ()
  | i, n :: ns => do
    if i ≠ 0 then str ","
    if manyLines then
      newline
      indent
    else if i ≠ 0 then space
    else gap
    item n
    lined manyLines item gap (i + 1) ns

def object (n : Node) : Print Unit := do
  let manyLines := n.children.length > 1
  let parens := (← atStatement) || (← atArrow)
  wrap parens do
    str "\x7b"
    if manyLines then deeper
    lined manyLines (objectItem r) space 0 n.children
    if manyLines then
      newline
      shallower
      indent
    else if !n.children.isEmpty then space
    str "\x7d"

/-- An item of an array or argument list. -/
def listItem (n : Node) : Print Unit :=
  match n with
  | .mk .elision _ _ _ _ => pure ()
  | .mk .spread _ _ _ [e] => do
    str "..."
    r.expression Level.comma .free e
  | n => r.expression Level.comma .free n

def array (n : Node) : Print Unit := do
  let manyLines := n.children.length > 2
  str "["
  if manyLines then deeper
  lined manyLines (listItem r) (pure ()) 0 n.children
  if n.children.getLast?.any (·.is .elision) then str ","
  if manyLines then
    newline
    shallower
    indent
  str "]"

/-- Arguments in parentheses. With comments in front of them each stands on a line of its own. -/
def arguments (close : Nat) (items : List Node) : Print Unit := do
  let commented ← items.anyM fun n => hasComments n.span.start
  let commented := (← hasComments close) || commented
  str "("
  if commented then
    deeper
    items.zipIdx.forM fun (n, i) => do
      if i ≠ 0 then str ","
      if !(← operandComments n.span.start) then newline
      indent
      listItem r n
    if !(← operandComments close) then newline
    shallower
    indent
  else commas (listItem r) items
  str ")"

/-! ## Functions and classes -/

def function (n : Node) : Print Unit := do
  let parens := n.is .functionExpr && ((← atStatement) || (← atExport))
  wrap parens do
    apart
    if n.has .async then str "async "
    str "function"
    if n.has .generator then str "* "
    let name := n.child 0
    if !name.isAbsent then
      apart
      str name.text
    parameters r (n.child 1)
    space
    functionBody r (n.child 2)

def classMember (n : Node) : Print Unit := do
  commentsAt n.span.start
  indent
  match n with
  | .mk .staticBlock _ _ _ body => do
    str "static "
    braces body.isEmpty (body.forM r.statement)
    newline
  | .mk .classMethod _ _ _ (k :: f :: ds) => do
    decorators r ds
    if n.has .static then str "static "
    methodWords n
    key r (n.has .computed) k
    methodRest r f
    newline
  | .mk .field _ _ _ (k :: value :: ds) => do
    decorators r ds
    if n.has .static then str "static "
    if n.has .accessor then str "accessor "
    key r (n.has .computed) k
    initializer r .free value
    semicolonLine
  | _ => pure ()

def class_ (n : Node) : Print Unit := do
  let parens := n.is .classExpr && ((← atStatement) || (← atExport))
  wrap parens do
    decorators r (n.children.drop 3)
    apart
    str "class"
    let name := n.child 0
    if !name.isAbsent then str (" " ++ name.text)
    let superclass := n.child 1
    if !superclass.isAbsent then
      str " extends "
      r.expression Level.postfixOp .free superclass
    space
    let members := (n.child 2).children
    braces members.isEmpty (members.forM (classMember r))

def arrow (level : Nat) (place : Place) (n : Node) : Print Unit :=
  wrap (level ≥ Level.assign) do
    if n.has .async then
      apart
      str "async "
    parameters r (n.child 0)
    str " => "
    if n.has .concise then
      modify fun sh => { sh with arrowAt := some sh.size }
      r.expression Level.comma place (n.child 1)
    else functionBody r (n.child 1)

/-! ## Operators -/

/-- Whether a logical operand needs parentheses inside another kind of logical operator. -/
def mixes (op : String) (operand : Node) : Bool :=
  operand.is .binary &&
    (if op = "??" then ["||", "&&"].contains operand.text
    else (op = "||" || op = "&&") && operand.text = "??")

/-- Two operands with an operator between them. -/
def binary (level : Nat) (place : Place) (op : String) (left right : Node) : Print Unit := do
  let own := Level.ofOperator op
  let parens := level ≥ own || (op = "in" && place.noIn)
  let place : Place := { noIn := place.noIn && !parens }
  let isPower := op = "**"
  let leftLevel :=
    if mixes op (bare left) then Level.prefixOp
    else if isPower then
      if (bare left).is .unary || (bare left).is .await then Level.call else own
    else own - 1
  let rightLevel :=
    if mixes op (bare right) then Level.prefixOp else if isPower then own - 1 else own
  wrap parens do
    match left with
    | .mk .privateName _ name _ _ => str ("#" ++ name)
    | left => r.expression leftLevel place left
    space
    str op
    space
    r.expression rightLevel place right

def unary (level : Nat) (place : Place) (op : String) (operand : Node) : Print Unit :=
  wrap (level ≥ Level.prefixOp) do
    if ["delete", "void", "typeof"].contains op then
      apart
      str op
      space
    else
      apartSign op
      str op
      noteSign op
    r.expression Level.power place operand

def update (level : Nat) (place : Place) (n : Node) : Print Unit := do
  let before := n.has .before
  wrap (level ≥ (if before then Level.prefixOp else Level.postfixOp)) do
    if before then
      apartSign n.text
      str n.text
      noteSign n.text
      r.expression Level.prefixOp place (n.child 0)
    else
      r.expression Level.postfixOp place (n.child 0)
      str n.text
      noteSign n.text

def assignment (level : Nat) (place : Place) (n : Node) : Print Unit := do
  let target := n.child 0
  let parens := target.is .objectTarget && ((← atStatement) || (← atArrow))
  wrap (parens || level ≥ Level.assign) do
    match target.kind with
    | .arrayTarget | .objectTarget => r.pattern target
    | _ => r.expression Level.comma .free target
    str s!" {n.text} "
    r.expression Level.comma place (n.child 1)

/-! ## Calls and members -/

def call (level : Nat) (place : Place) (n : Node) : Print Unit := do
  let isStatement ← atStatement
  let isExport ← atExport
  let isPure := n.has .pure
  let parens := level ≥ Level.new || place.noCall || (isPure && level ≥ Level.postfixOp)
  wrap parens do
    if isPure then str pureMarkText
    if isExport then modify fun sh => { sh with exportAt := some sh.size }
    else if isStatement then modify fun sh => { sh with statementAt := some sh.size }
    r.expression Level.postfixOp .free (n.child 0)
    if n.has .optional then str "?."
    arguments r (n.span.stop - 1) (n.children.drop 1)

def new_ (level : Nat) (n : Node) : Print Unit := do
  let isPure := n.has .pure
  wrap (level ≥ Level.member || (isPure && level ≥ Level.postfixOp)) do
    if isPure then str pureMarkText
    apart
    str "new "
    r.expression Level.new { noCall := true } (n.child 0)
    arguments r (n.span.stop - 1) (n.children.drop 1)

/-- A property of an object. -/
def member (place : Place) (n : Node) : Print Unit := do
  r.expression Level.postfixOp place.keepCall (n.child 0)
  if n.has .optional then str "?"
  else
    let sh ← get
    if sh.numberAt = some sh.size then space
  str "."
  let m := n.child 1
  str (if m.is .privateName then "#" ++ m.text else m.text)

def index (place : Place) (n : Node) : Print Unit := do
  let target := n.child 0
  let isLet := target.is .reference && target.text = "let"
  wrap isLet (r.expression Level.postfixOp place.keepCall target)
  if n.has .optional then str "?."
  str "["
  r.expression Level.lowest .free (n.child 1)
  str "]"

def importCall (level : Nat) (place : Place) (n : Node) : Print Unit := do
  let source := n.child 0
  let options := n.child 1
  let close := n.span.stop - 1
  let a ← hasComments source.span.start
  let b ← hasComments close
  let commented := a || b
  wrap (level ≥ Level.new || place.noCall) do
    apart
    str "import"
    if n.text ≠ "" then str ("." ++ n.text)
    str "("
    if commented then deeper
    if ← operandComments source.span.start then indent
    else if commented then
      newline
      indent
    r.expression Level.comma .free source
    if !options.isAbsent then
      str ","
      if commented then
        newline
        indent
      else space
      r.expression Level.comma .free options
    if commented then
      if !(← operandComments close) then newline
      shallower
      indent
    str ")"

/-- The pieces of a template. -/
def templateParts : List Node → Print Unit
  | [] => pure ()
  | n :: ns => do
    match n with
    | .mk .quasi _ raw _ _ => str (String.ofList (escapeScript (raw.length + 1) raw.toList))
    | e => do
      str "$\x7b"
      r.expression Level.lowest .free e
      str "\x7d"
    templateParts ns

def template (n : Node) : Print Unit := do
  str "\x60"
  templateParts r n.children
  str "\x60"

/-! ## Literals -/

/-- A number that is not negative. -/
def number (raw : String) : Print Unit := do
  apart
  let text := numberText (literalValue raw.toList)
  str (String.ofList text)
  if text.all Text.isAsciiDigit then modify fun sh => { sh with numberAt := some sh.size }

/-- A big integer in decimal digits. -/
def bigint (raw : String) : Print Unit := do
  apart
  let cs := (raw.toList.dropLast).filter (· ≠ '_')
  let value :=
    match cs with
    | '0' :: 'x' :: ds => Text.ofDigits? 16 ds
    | '0' :: 'o' :: ds => Text.ofDigits? 8 ds
    | '0' :: 'b' :: ds => Text.ofDigits? 2 ds
    | ds => Text.ofDigits? 10 ds
  str (String.ofList (Nat.toDigits 10 (value.getD 0)) ++ "n")

/-- A regular expression with its flags in order. -/
def regex (text : String) : Print Unit := do
  let sh ← get
  let flags := text.toList.reverse.takeWhile (· ≠ '/')
  let body := (text.toList.reverse.dropWhile (· ≠ '/')).reverse
  let script := (body.drop 1).take 6 = "script".toList
  if sh.last = some '/' || (sh.last = some '<' && script) then space
  str (String.ofList (body ++ flags.mergeSort fun a b => decide (a ≤ b)))

def word (w : String) : Print Unit := do
  apart
  str w

/-! ## The rules -/

/-- An expression at a place that demands a level. -/
def expressionRule (level : Nat) (place : Place) (n : Node) : Print Unit :=
  match n with
  | .mk .reference _ name _ _ => word name
  | .mk .nullLit _ _ _ _ => word "null"
  | .mk .boolLit _ w _ _ => word w
  | .mk .this _ _ _ _ => word "this"
  | .mk .super _ _ _ _ => word "super"
  | .mk .metaProperty _ w _ _ => word w
  | .mk .numberLit _ raw _ _ => number raw
  | .mk .bigintLit _ raw _ _ => bigint raw
  | .mk .stringLit _ value _ _ => str (quoteString value)
  | .mk .regexLit _ text _ _ => regex text
  | .mk .template _ _ _ _ => template r n
  | .mk .taggedTemplate _ _ _ [tag, t] => do
    r.expression Level.postfixOp .free tag
    template r t
  | .mk .array _ _ _ _ => array r n
  | .mk .object _ _ _ _ => object r n
  | .mk .functionExpr _ _ _ _ => function r n
  | .mk .functionDecl _ _ _ _ => function r n
  | .mk .classExpr _ _ _ _ => class_ r n
  | .mk .classDecl _ _ _ _ => class_ r n
  | .mk .arrow _ _ _ _ => arrow r level place n
  | .mk .unary _ op _ [e] => unary r level place op e
  | .mk .update _ _ _ _ => update r level place n
  | .mk .binary _ op _ [a, b] => binary r level place op a b
  | .mk .assign _ _ _ _ => assignment r level place n
  | .mk .conditional _ _ _ [test, yes, no] =>
    wrap (level ≥ Level.conditional) do
      r.expression Level.conditional place.keepIn test
      str " ? "
      r.expression Level.yield .free yes
      str " : "
      r.expression Level.yield place.keepIn no
  | .mk .call _ _ _ _ => call r level place n
  | .mk .new _ _ _ _ => new_ r level n
  | .mk .member _ _ _ _ => member r place n
  | .mk .tagMember _ _ _ _ => member r place n
  | .mk .index _ _ _ _ => index r place n
  | .mk .chain _ _ _ [e] => wrap (level ≥ Level.postfixOp) (r.expression level place e)
  | .mk .sequence _ _ _ es =>
    wrap (level ≥ Level.comma) (commas (r.expression Level.lowest place.keepIn) es)
  | .mk .paren _ _ _ [e] => r.expression level place e
  | .mk .typed _ _ _ [e] => r.expression level place e
  | .mk .await _ _ _ [e] =>
    wrap (level ≥ Level.prefixOp) do
      word "await "
      r.expression Level.power place e
  | .mk .yield _ _ _ [e] =>
    wrap (level ≥ Level.yield) do
      word "yield"
      if n.has .delegate then str "*"
      if !e.isAbsent then
        space
        r.expression Level.yield .free e
  | .mk .importCall _ _ _ _ => importCall r level place n
  | _ => pure ()

/-- A property of a pattern; `gap` stands between the brackets of its object and the properties. -/
def patternProperty : Node → Print Unit
  | n@(.mk .patternProperty marks _ _ [k, value]) => do
    if !(marks.contains .shorthand) && !(declaresSame k value) then
      key r (n.has .computed) k
      str ": "
    r.pattern value
  | n => r.pattern n
where
  /-- Whether a key is the name that its pattern declares. -/
  declaresSame (k value : Node) : Bool :=
    let p := if value.is .withDefault then value.child 0 else value
    k.is .word && p.is .binding && p.text = k.text

/-- Items of an array pattern. A comma stands in front of a rest element, and behind a missing
item at the end. -/
def arrayPattern (declared : Bool) (items : List Node) : Print Unit := do
  let plain := items.filter fun n => !(n.is .rest)
  let final := items.find? (·.is .rest)
  str "["
  commas r.pattern plain
  if plain.getLast?.any (·.is .elision) || (final.isSome && !plain.isEmpty) then str ","
  match final with
  | some n =>
    if declared || !plain.isEmpty then space
    r.pattern n
  | none => pure ()
  str "]"

/-- A pattern, a target of an assignment, or a name that is declared. -/
def patternRule (n : Node) : Print Unit :=
  match n with
  | .mk .binding _ name _ _ => word name
  | .mk .param _ _ _ (p :: _) => r.pattern p
  | .mk .withDefault _ _ _ [p, value] => do
    r.pattern p
    str " = "
    r.expression Level.comma .free value
  | .mk .rest _ _ _ (p :: _) => do
    str "..."
    r.pattern p
  | .mk .objectPattern _ _ _ items => do
    str "\x7b"
    if !items.isEmpty then
      space
      commas (patternProperty r) items
      space
    str "\x7d"
  | .mk .objectTarget _ _ _ items => do
    str "\x7b"
    commas (patternProperty r) items
    str "\x7d"
  | .mk .arrayPattern _ _ _ items => arrayPattern r true items
  | .mk .arrayTarget _ _ _ items => arrayPattern r false items
  | .mk .elision _ _ _ _ => pure ()
  | e => r.expression Level.comma .free e

end Printing

end ScriptLoader.Syntax
