import ScriptLoader.Syntax.Grammar.Expressions

/-!
# Imports and exports

The clauses of import and export declarations. Declarations that are exported are statements and
are read with those.
-/

namespace ScriptLoader.Syntax.Grammar

open Syntax.Parser

variable (g : Grammar)

/-- Whether a name or string stands at a cursor. -/
def isExportNameAt (c : Cursor) : Bool := isNameAt c || isStringAt c

/-- The name of an export: a word or a string. -/
def exportName_ : Parser Node := do
  let c ← cursor
  if isStringAt c then return (← stringLiteral).withMark .named else word

/-- One name of an import or export list: whether only its type is meant, the name at its source
and the name at its destination. -/
def specifier : Parser (Bool × Node × Node) := do
  let first ← exportName_
  let c ← cursor
  if first.is .word && first.text = "type" && wordAt c = "as" then
    let second ← word
    let c ← cursor
    if wordAt c = "as" then
      let third ← word
      let c ← cursor
      if isExportNameAt c then return (true, second, ← exportName_)
      else return (false, first, third)
    else if isExportNameAt c then return (false, first, ← exportName_)
    else return (true, second, second)
  else
    let typeOnly := first.is .word && first.text = "type" && isExportNameAt c
    let name ← if typeOnly then exportName_ else pure first
    if ← skipWord "as" then return (typeOnly, name, ← exportName_)
    else return (typeOnly, name, name)

/-- Whether a word can be declared by an import. -/
def declarable (s : Setting) (n : Node) : Bool := n.is .word && nameable s n.text

/-- Marks of a name list's item. -/
def typeMark (typeOnly : Bool) : List Mark := if typeOnly then [.typeOnly] else []

/-- A name of an import list. -/
def importItem : Parser Node := do
  let start ← position
  let (typeOnly, imported, local_) ← specifier
  let s ← setting
  if typeOnly && !s.dialect.typed then refuse "an import of a type"
  if !(declarable s local_) then refuse "expected the name of a variable"
  finish start .importName [imported, .mk .binding [] local_.text local_.span []] ""
    (typeMark typeOnly)

/-- A name of an export list. -/
def exportItem : Parser Node := do
  let start ← position
  let (typeOnly, local_, exported) ← specifier
  if typeOnly && !(← setting).dialect.typed then refuse "an export of a type"
  finish start .exportName [local_, exported] "" (typeMark typeOnly)

/-- Attributes of an import, if there are any. -/
def attributesClause : Parser Node := do
  let c ← cursor
  if wordAt c = "with" || (wordAt c = "assert" && !c.newline) then
    let start ← position
    advance
    expect "\x7b"
    let items ← commaUntil "\x7d" do
      let start ← position
      let key ← exportName_
      expect ":"
      let value ← stringLiteral
      finish start .property [key, value]
    finish start .attributes items (wordAt c)
  else return .absent

/-- The names of an import between its words. -/
def importClause : Parser (List Node) := do
  let named : Parser Node := do
    let start ← position
    if ← skip "*" then
      expectWord "as"
      let b ← variable_ .binding
      finish start .importNamespace [b]
    else
      expect "\x7b"
      let items ← commaUntil "\x7d" importItem
      finish start .names items
  let c ← cursor
  if punctAt c = "*" || punctAt c = "\x7b" then
    let n ← named
    return if n.is .names then n.children else [n]
  else
    let start ← position
    let b ← variable_ .binding
    let d ← finish start .importDefault [b]
    if ← skip "," then
      let n ← named
      return d :: (if n.is .names then n.children else [n])
    else return [d]

/-- A dotted name as an expression. -/
def entity : Parser Node := do
  let start ← position
  let root ← variable_ .reference
  loop (fun (e : Node) => do
    if ← skip "." then
      let m ← word
      return .inl (← finish start .member [e, m])
    else return .inr e) root

/-- What an import assignment binds: a required module or a dotted name. -/
def importEqualsRest (start : Nat) (name : Node) (typeOnly : Bool) : Parser Node := do
  expect "="
  let n ← next
  if (← atWord "require") && punctAt n = "(" then
    advance
    advance
    let source ← stringLiteral
    expect ")"
    endStatement
    finish start .importEquals [name, source] "" (.require :: typeMark typeOnly)
  else
    let e ← entity
    endStatement
    finish start .importEquals [name, e] "" (typeMark typeOnly)

/-- The source of an import or export, and its attributes. -/
def fromClause : Parser (Node × Node) := do
  expectWord "from"
  let source ← stringLiteral
  let attributes ← attributesClause
  return (source, attributes)

/-- Whether a word after `import` or `export` says that types are meant. -/
def atTypeWord : Parser Bool := do
  if !(← setting).dialect.typed || !(← atWord "type") then return false
  let n ← next
  if punctAt n = "\x7b" || punctAt n = "*" then return true
  if !(isNameAt n) then return false
  if wordAt n ≠ "from" then return true
  let after ← ahead (do advance; advance; cursor)
  return wordAt after = "from" || punctAt after = "="

/-- Whether a phase of loading is named after `import`. -/
def phaseAt : Parser String := do
  let c ← cursor
  let n ← next
  if wordAt c = "defer" && punctAt n = "*" then return "defer"
  if wordAt c = "source" && isNameAt n then
    let after ← ahead (do advance; advance; cursor)
    if wordAt n ≠ "from" || wordAt after = "from" then return "source"
  return ""

/-- An import declaration. -/
def importDeclaration : Parser Node := do
  let start ← position
  expectWord "import"
  let c ← cursor
  if isStringAt c then
    let source ← stringLiteral
    let attributes ← attributesClause
    endStatement
    finish start .importDecl [source, .absent, attributes]
  else
    let typeOnly ← atTypeWord
    if typeOnly then advance
    let phase ← if typeOnly then pure "" else phaseAt
    if phase ≠ "" then advance
    let n ← next
    if (← setting).dialect.typed && (← atVariable) && punctAt n = "=" then
      let name ← variable_ .binding
      importEqualsRest start name typeOnly
    else
      let namesStart ← position
      let items ← importClause
      let names ← finish namesStart .names items
      let (source, attributes) ← fromClause
      endStatement
      finish start .importDecl [source, names, attributes] phase (typeMark typeOnly)

/-- An export list with or without a source, from its brace on. -/
def exportList (start : Nat) (typeOnly : Bool) : Parser Node := do
  let namesStart ← position
  expect "\x7b"
  let items ← commaUntil "\x7d" exportItem
  let names ← finish namesStart .names items
  if ← atWord "from" then
    let (source, attributes) ← fromClause
    endStatement
    finish start .exportNames [names, source, attributes] "" (typeMark typeOnly)
  else
    let s ← setting
    if items.any fun i => !(declarable s (i.child 0)) then refuse "expected the name of a variable"
    endStatement
    let items := items.map fun i =>
      let local_ := i.child 0
      i.withChildren [.mk .reference [] local_.text local_.span [], i.child 1]
    finish start .exportNames [names.withChildren items, .absent, .absent] "" (typeMark typeOnly)

/-- An export of everything, from its star on. -/
def exportStar (start : Nat) (typeOnly : Bool) : Parser Node := do
  expect "*"
  let exported ← if ← skipWord "as" then exportName_ else pure .absent
  let (source, attributes) ← fromClause
  endStatement
  finish start .exportAll [source, exported, attributes] "" (typeMark typeOnly)

end ScriptLoader.Syntax.Grammar
