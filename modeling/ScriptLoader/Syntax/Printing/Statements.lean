import ScriptLoader.Syntax.Printing.Expressions
import ScriptLoader.Syntax.Program

/-!
# Printed statements

Statements, declarations and whole programs.

* `statementRule`: one rule for each kind of statement.
* `Program.print`: the text of a program.
-/

namespace ScriptLoader.Syntax

namespace Printing

open Print

variable (r : Renderers)

/-- A full expression. -/
def whole (e : Node) : Print Unit := r.expression Level.lowest .free e

/-- The statement behind the head of another one: a block on the same line, else the statement
itself after one blank. -/
def body (n : Node) : Print Unit :=
  match n.kind with
  | .block => do
    space
    block r n
    newline
  | .empty => semicolonLine
  | _ => do
    modify fun sh => { sh with onLine := true }
    r.statement n

/-- Whether an `else` behind the statement would belong to it. -/
def takesElse : Node → Bool
  | .mk .ifStmt _ _ _ [_, _, no] => if no.isAbsent then true else takesElse no
  | .mk .forStmt _ _ _ [_, _, _, b] => takesElse b
  | .mk .forIn _ _ _ [_, _, b] => takesElse b
  | .mk .forOf _ _ _ [_, _, b] => takesElse b
  | .mk .whileStmt _ _ _ [_, b] => takesElse b
  | .mk .withStmt _ _ _ [_, b] => takesElse b
  | .mk .labeled _ _ _ [_, b] => takesElse b
  | _ => false

/-- A condition from its word on. -/
def condition : Nat → Node → Print Unit
  | 0, _ => pure ()
  | fuel + 1, n => do
    let yes := n.child 1
    let no := n.child 2
    str "if ("
    whole r (n.child 0)
    str ")"
    if yes.is .block then
      space
      block r yes
      if no.isAbsent then newline else space
    else if takesElse yes then
      space
      braces false (r.statement yes)
      if no.isAbsent then newline else space
    else
      body r yes
      if !no.isAbsent then indent
    if !no.isAbsent then
      apart
      str "else"
      if no.is .block then
        space
        block r no
        newline
      else if no.is .ifStmt then
        space
        condition fuel no
      else body r no

/-- Declarators behind the word of their declaration. -/
def variableList (place : Place) (n : Node) : Print Unit := do
  word n.text
  space
  commas (fun d => do
    r.pattern (d.child 0)
    initializer r place (d.child 1)) n.children

/-- The first part of the head of a loop. -/
def loopHead (n : Node) : Print Unit :=
  match n.kind with
  | .absent => pure ()
  | .variableDecl => variableList r { noIn := true } n
  | .arrayTarget | .objectTarget => r.pattern n
  | _ => r.expression Level.lowest { noIn := true } n

def switchCase (n : Node) : Print Unit := do
  indent
  let test := n.child 0
  if test.isAbsent then str "default"
  else
    str "case "
    whole r test
  str ":"
  match n.children.drop 1 with
  | [s] => body r s
  | statements =>
    newline
    deeper
    statements.forM r.statement
    shallower

def handler (n : Node) : Print Unit := do
  str " catch "
  let p := n.child 0
  if !p.isAbsent then
    str "("
    r.pattern p
    str ") "
  block r (n.child 1)

/-! ## Imports and exports -/

/-- The name of an import or export. -/
def portName (n : Node) : Print Unit :=
  if n.is .stringLit then str (quoteString n.text) else str n.text

/-- Two names, the second one only if it differs. -/
def namePair (a b : Node) : Print Unit := do
  portName a
  if a.text ≠ b.text then
    str " as "
    portName b

/-- Names in braces. -/
def nameList (item : Node → Print Unit) (names : List Node) : Print Unit := do
  str "\x7b"
  if !names.isEmpty then
    space
    commas item names
    space
  str "\x7d"

/-- The attributes of an import, if there are any. -/
def attributes (n : Node) : Print Unit := do
  if !n.isAbsent then
    str s!" {n.text} "
    nameList (fun a => do
      portName (a.child 0)
      str ": "
      portName (a.child 1)) n.children

/-- Where an import or export comes from. -/
def source (n attributesNode : Node) : Print Unit := do
  str (quoteString n.text)
  attributes attributesNode

/-- The names of an import: the default, then the whole module or a list. -/
def importNames (names : List Node) : Print Unit := do
  let listed := names.filter (·.is .importName)
  let others := names.filter fun n => !(n.is .importName)
  commas (fun n => do
    if n.is .importNamespace then str "* as "
    str (n.child 0).text) others
  if !listed.isEmpty || names.isEmpty then
    if !others.isEmpty then str ", "
    nameList (fun n => namePair (n.child 0) (n.child 1)) listed

def importDecl (n : Node) : Print Unit := do
  str "import "
  if n.text ≠ "" then str (n.text ++ " ")
  let names := n.child 1
  if !names.isAbsent then
    importNames names.children
    str " from "
  source (n.child 0) (n.child 2)
  semicolonLine

def exportNames (n : Node) : Print Unit := do
  str "export "
  nameList (fun i => namePair (i.child 0) (i.child 1)) (n.child 0).children
  if !(n.child 1).isAbsent then
    str " from "
    source (n.child 1) (n.child 2)
  semicolonLine

def exportAll (n : Node) : Print Unit := do
  str "export *"
  if !(n.child 1).isAbsent then
    str " as "
    portName (n.child 1)
  str " from "
  source (n.child 0) (n.child 2)
  semicolonLine

/-- A declaration, without its indentation. -/
def declaration (n : Node) : Print Unit :=
  match n.kind with
  | .variableDecl => do
    variableList r .free n
    semicolonLine
  | .functionDecl => do
    function r n
    newline
  | .classDecl => do
    class_ r n
    newline
  | _ => pure ()

def exportDefault (n : Node) : Print Unit := do
  str "export default "
  let d := n.child 0
  match d.kind with
  | .functionDecl | .classDecl => declaration r d
  | _ =>
    modify fun sh => { sh with exportAt := some sh.size }
    r.expression Level.comma .free d
    semicolonLine

/-- The quote of a directive: single quotes if its first quote is a double one. -/
def directiveQuote : List Char → Char
  | [] => '"'
  | '\\' :: _ :: cs => directiveQuote cs
  | c :: cs => if c = '"' then '\x27' else if c = '\x27' then '"' else directiveQuote cs

/-! ## The rule -/

/-- A label's line is indented only inside other statements. -/
def labelIndent : Print Unit := do
  let sh ← get
  if sh.level > 0 || sh.onLine then indent

/-- A statement, from its comments to the end of its last line. -/
def statementRule (n : Node) : Print Unit := do
  commentsAt n.span.start
  if n.is .labeled then labelIndent else indent
  match n with
  | .mk .directive _ raw _ _ => do
    let q := String.singleton (directiveQuote raw.toList)
    str (q ++ raw ++ q)
    semicolonLine
  | .mk .block _ _ _ _ => do
    block r n
    newline
  | .mk .empty _ _ _ _ => semicolonLine
  | .mk .expression _ _ _ [e] => do
    modify fun sh => { sh with statementAt := some sh.size }
    whole r e
    semicolonLine
  | .mk .ifStmt _ _ _ _ => condition r (n.size + 1) n
  | .mk .forStmt _ _ _ [first, test, step, b] => do
    str "for ("
    loopHead r first
    str ";"
    if !test.isAbsent then
      space
      whole r test
    str ";"
    if !step.isAbsent then
      space
      whole r step
    str ")"
    body r b
  | .mk .forIn _ _ _ [target, e, b] => do
    str "for ("
    loopHead r target
    str " in "
    whole r e
    str ")"
    body r b
  | .mk .forOf _ _ _ [target, e, b] => do
    str (if n.has .async then "for await (" else "for (")
    loopHead r target
    str " of "
    r.expression Level.comma .free e
    str ")"
    body r b
  | .mk .whileStmt _ _ _ [test, b] => do
    str "while ("
    whole r test
    str ")"
    body r b
  | .mk .doWhile _ _ _ [b, test] => do
    str "do"
    if b.is .block then
      space
      block r b
      space
    else
      newline
      deeper
      r.statement b
      shallower
      indent
    str "while ("
    whole r test
    str ")"
    semicolonLine
  | .mk .continueStmt _ _ _ [label] => do
    str (if label.isAbsent then "continue" else "continue " ++ label.text)
    semicolonLine
  | .mk .breakStmt _ _ _ [label] => do
    str (if label.isAbsent then "break" else "break " ++ label.text)
    semicolonLine
  | .mk .returnStmt _ _ _ [e] => do
    str "return"
    if !e.isAbsent then
      space
      whole r e
    semicolonLine
  | .mk .withStmt _ _ _ [e, b] => do
    str "with ("
    whole r e
    str ")"
    body r b
  | .mk .switchStmt _ _ _ (e :: cases) => do
    str "switch ("
    whole r e
    str ") "
    braces cases.isEmpty (cases.forM (switchCase r))
    newline
  | .mk .labeled _ _ _ [label, b] => do
    str label.text
    str ":"
    body r b
  | .mk .throwStmt _ _ _ [e] => do
    str "throw "
    whole r e
    semicolonLine
  | .mk .tryStmt _ _ _ [b, h, final] => do
    str "try "
    block r b
    if !h.isAbsent then handler r h
    if !final.isAbsent then
      str " finally "
      block r final
    newline
  | .mk .debugger _ _ _ _ => do
    str "debugger"
    semicolonLine
  | .mk .importDecl _ _ _ _ => importDecl n
  | .mk .exportNames _ _ _ _ => exportNames n
  | .mk .exportAll _ _ _ _ => exportAll n
  | .mk .exportDefault _ _ _ _ => exportDefault r n
  | .mk .exportDecl _ _ _ [d] => do
    str "export "
    declaration r d
  | n => declaration r n

/-- The rules over what prints nested nodes, for trees nested at most `depth` deep. -/
def renderers : Nat → Renderers
  | 0 => ⟨fun _ _ _ => pure (), fun _ => return (), fun _ => return ()⟩
  | depth + 1 =>
    let r := renderers depth
    ⟨expressionRule r, patternRule r, statementRule r⟩

end Printing

mutual

/-- The number of nodes on the longest path of a tree. -/
def Node.depth : Node → Nat
  | .mk _ _ _ _ cs => 1 + depthAll cs

def Node.depthAll : List Node → Nat
  | [] => 0
  | c :: cs => max (Node.depth c) (Node.depthAll cs)

end

open Print in
/-- The text of a program. -/
def Program.print (p : Program) : String :=
  let r := Printing.renderers (2 * p.tree.depth + 2)
  let run : Print Unit := do
    match p.hashbang with
    | some line => do
      str ("#!" ++ line)
      newline
    | none => pure ()
    Printing.bodyStatements r p.statements
    commentsAt p.tree.span.stop
  (run.run { comments := p.comments }).2.text

end ScriptLoader.Syntax
