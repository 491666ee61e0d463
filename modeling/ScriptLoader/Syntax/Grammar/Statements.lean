import ScriptLoader.Syntax.Grammar.Modules

/-!
# Statements

Statements and declarations, those of types among them.
-/

namespace ScriptLoader.Syntax.Grammar

open Syntax.Parser

variable (g : Grammar)

/-! ## Variables -/

/-- The type of a variable, if there is one. -/
def variableType : Parser Node := do
  let c ← cursor
  if !c.newline then let _ ← skip "!"
  annotation? g

/-- A declarator; without `bare` it needs a value where its form asks for one. -/
def declarator (kind : String) (bare : Bool) : Parser Node := do
  let start ← position
  let p ← g .binding
  let s ← setting
  let t ← if s.dialect.typed then variableType g else pure untyped
  let value ← if ← skip "=" then g .assignment else pure .absent
  if value.isAbsent && !bare && !s.ambient then
    if !(p.is .binding) || kind = "const" || kind = "using" || kind = "await using" then
      refuse "a declaration without a value"
  finish start .declarator (Node.withType [p, value] t)

/-- Declarators after the word of a declaration. -/
def variablesRest (start : Nat) (kind : String) (bare : Bool) : Parser Node := do
  let items ← separated "," (declarator g kind bare)
  finish start .variableDecl items kind

/-- The word of a declaration of variables at the cursor, if it is one. -/
def variablesAt : Parser String := do
  let c ← cursor
  let w := wordAt c
  if w = "var" then return "var"
  let n ← next
  if w = "const" then
    if wordAt n = "enum" then return "" else return "const"
  if w = "let" then
    let starts := match n.token with
      | .name v _ => v ≠ "in" && v ≠ "instanceof" && v ≠ "of" || (v = "of" && !n.newline)
      | .punct p => p = "[" || p = "\x7b"
      | _ => false
    return if starts then "let" else ""
  let declares (n : Cursor) : Bool := match n.token with
    | .name v _ => !n.newline && !(reserved.contains v) && v ≠ "of"
    | _ => false
  if w = "using" then return if declares n then "using" else ""
  if w = "await" && (← setting).awaitOk && wordAt n = "using" then
    let after ← ahead (do advance; advance; cursor)
    return if declares after && !n.newline then "await using" else ""
  return ""

/-- Reads the word or words of a declaration of variables. -/
def skipVariablesWord (kind : String) : Parser Unit := do
  advance
  if kind = "await using" then advance

/-! ## Bodies of control statements -/

/-- A statement where no declaration may stand. -/
def body : Parser Node := do
  let kind ← variablesAt
  if kind ≠ "" && kind ≠ "var" then refuse "a declaration needs a block"
  if ← atWord "class" then refuse "a declaration needs a block"
  g .statement

/-- An expression in parentheses. -/
def parenthesized : Parser Node := do
  expect "("
  let e ← innerExpression g
  expect ")"
  return e

/-- The right side and body of a loop over items, once its target is known. -/
def overRest (start : Nat) (target : Node) (waits : Bool) : Parser Node := do
  if ← skipWord "of" then
    let e ← within inside (g .assignment)
    expect ")"
    let b ← body g
    finish start .forOf [target, e, b] "" (if waits then [.async] else [])
  else
    if waits then refuse "expected of"
    expectWord "in"
    let e ← innerExpression g
    expect ")"
    let b ← body g
    finish start .forIn [target, e, b]

/-- The test, step and body of a counting loop. -/
def countingRest (start : Nat) (first : Node) : Parser Node := do
  expect ";"
  let test ← if ← atPunct ";" then pure .absent else innerExpression g
  expect ";"
  let step ← if ← atPunct ")" then pure .absent else innerExpression g
  expect ")"
  let b ← body g
  finish start .forStmt [first, test, step, b]

/-- A loop with a head in parentheses. -/
def forStatement : Parser Node := do
  let start ← position
  expectWord "for"
  let waits ← if (← setting).awaitOk then skipWord "await" else pure false
  expect "("
  if ← atPunct ";" then
    if waits then refuse "expected of"
    countingRest g start .absent
  else
    let headStart ← position
    let kind ← variablesAt
    if kind ≠ "" then
      skipVariablesWord kind
      let head ← within (fun s => { s with allowIn := false }) (variablesRest g headStart kind true)
      let iterates := (← atWord "of") || (← atWord "in")
      if iterates then
        match head.children with
        | [.mk .declarator _ _ _ (_ :: value :: _)] =>
          if !value.isAbsent then refuse "a loop variable with a value"
          overRest g start head waits
        | _ => refuse "one loop variable"
      else
        let needs := head.children.any fun d =>
          (d.child 1).isAbsent && (!((d.child 0).is .binding) || kind = "const")
        if needs && !(← setting).ambient then refuse "a declaration without a value"
        if waits then refuse "expected of"
        countingRest g start head
    else
      let head ← within (fun s => { s with allowIn := false, arrowTypes := true }) (g .expression)
      let iterates := (← atWord "of") || (← atWord "in")
      if iterates then
        match toTarget? head with
        | some target => overRest g start target waits
        | none => refuse "nothing to assign to"
      else
        if waits then refuse "expected of"
        countingRest g start head

/-- A case of a switch. -/
def switchCase : Parser Node := do
  let start ← position
  let test ←
    if ← skipWord "case" then innerExpression g
    else do
      expectWord "default"
      pure .absent
  expect ":"
  let items ← loop (fun (acc : List Node) => do
    if (← atWord "case") || (← atWord "default") || (← atPunct "\x7d") then
      return .inr acc.reverse
    else return .inl ((← g .statement) :: acc)) []
  finish start .switchCase (test :: items)

/-- What a handler declares, behind its parenthesis, and what is left of its type. -/
def caught : Parser (Node × Node) := do
  let p ← g .binding
  let t ← if (← setting).dialect.typed then annotation? g else pure untyped
  expect ")"
  return (p, t)

/-- A statement that guards another. -/
def tryStatement : Parser Node := do
  let start ← position
  expectWord "try"
  let b ← block g
  let handlerStart ← position
  let handler ←
    if ← skipWord "catch" then do
      let (p, t) ← if ← skip "(" then caught g else pure (.absent, untyped)
      let b ← block g
      finish handlerStart .handler (Node.withType [p, b] t)
    else pure .absent
  let last ← if ← skipWord "finally" then block g else pure .absent
  if handler.isAbsent && last.isAbsent then refuse "expected a handler"
  finish start .tryStmt [b, handler, last]

/-- A jump with an optional label. -/
def jump (kind : Kind) : Parser Node := do
  let start ← position
  advance
  let c ← cursor
  let label ← if !c.newline && (← atVariable) then variable_ .label else pure .absent
  endStatement
  finish start kind [label]

/-! ## Declarations of types -/

/-- An alias of a type, from its word on. -/
def typeAliasDeclaration (start : Nat) : Parser Node := do
  advance
  let name ← variable_ .binding
  let ps ← typeParameters? g
  expect "="
  let c ← cursor
  let t ← if wordAt c = "intrinsic" then do advance; pure untyped else type g
  endStatement
  finish start .typeAlias (Node.withType [] (.ofTypes [ps, t])) name.text

/-- An interface, from its word on. -/
def interfaceDeclaration (start : Nat) : Parser Node := do
  advance
  let name ← variable_ .binding
  let ps ← typeParameters? g
  let bases ← if ← skipWord "extends" then separated "," (type g) else pure []
  expect "\x7b"
  let members ← typeLiteralRest g
  finish start .interface (Node.withType [] (.ofTypes (ps :: bases ++ [members]))) name.text

/-- A member of an enumeration. -/
def enumMember_ : Parser Node := do
  let start ← position
  let key ← propertyKey g
  if isComputed key && !(key.is .stringLit) && !(key.is .template && key.children.length = 1) then
    refuse "a computed member"
  if key.is .numberLit || key.is .bigintLit || key.is .privateName then refuse "no member name"
  let value ← if ← skip "=" then g .assignment else pure .absent
  finish start .enumMember [key, value]

/-- An enumeration, from its word on. -/
def enumDeclaration (start : Nat) (marks : List Mark) : Parser Node := do
  expectWord "enum"
  let name ← variable_ .binding
  expect "\x7b"
  let members ← commaUntil "\x7d" (enumMember_ g)
  finish start .enumDecl (name :: members) "" marks

/-- The statements of a namespace in braces. -/
def namespaceBody : Parser (List Node) := do
  expect "\x7b"
  within (fun s => { s with returnOk := false, awaitOk := false })
    (itemsUntil "\x7d" (g .statement))

/-- A namespace, from its word on. A dotted name is a chain of namespaces, each of which exports the
next. -/
def namespaceDeclaration (start : Nat) (marks : List Mark) : Parser Node := do
  advance
  let names ← separated "." (do
    let start ← position
    let name ← variable_ .binding
    return (start, name))
  let items ← namespaceBody g
  let c ← cursor
  let stop := c.lastStop
  match names.reverse with
  | [] => refuse "expected a name"
  | (_, last) :: outer =>
    let children := outer.foldl (fun (inner : List Node) (_, name) =>
      let span : Span := ⟨(inner.head?.map (·.span.start)).getD start, stop⟩
      [name, .mk .exportDecl [] "" span [.mk .namespace [] "" span inner]]) (last :: items)
    return .mk .namespace marks "" ⟨start, stop⟩ children

/-- A declared module with a quoted name, or the global scope, from its word on. -/
def ambientModuleDeclaration (start : Nat) : Parser Node := do
  advance
  let c ← cursor
  if isStringAt c then advance
  let items ← if ← atPunct "\x7b" then namespaceBody g else do endStatement; pure []
  finish start .ambientModule items

/-- The declaration of the typed dialect that the words at the cursor begin. -/
inductive TypedDeclaration where
  | alias | interface | enum | constEnum | namespace | ambientModule | globalScope | abstractClass
  | declared
  deriving DecidableEq

/-- Whether a declaration may follow `declare`. -/
def declarableWords : List String :=
  ["const", "let", "var", "function", "class", "abstract", "enum", "namespace", "module", "global",
    "interface", "type", "async", "import"]

/-- What declaration of the typed dialect begins at the cursor. -/
def typedDeclarationAt : Parser (Option TypedDeclaration) := do
  let c ← cursor
  if !(← setting).dialect.typed then return none
  match c.token with
  | .name w false =>
    if w = "enum" then return some .enum
    if !(["type", "interface", "const", "namespace", "module", "global", "abstract",
        "declare"].contains w) then return none
    let n ← next
    let named := isNameAt n && !n.newline && !(reserved.contains (wordAt n))
    match w with
    | "type" => return if named then some .alias else none
    | "interface" => return if named then some .interface else none
    | "const" => return if wordAt n = "enum" then some .constEnum else none
    | "namespace" => return if named then some .namespace else none
    | "module" =>
      return if isStringAt n && !n.newline then some .ambientModule
        else if named then some .namespace else none
    | "global" => return if punctAt n = "\x7b" && !n.newline then some .globalScope else none
    | "abstract" => return if wordAt n = "class" && !n.newline then some .abstractClass else none
    | _ =>
      return if !n.newline && declarableWords.contains (wordAt n) then some .declared else none
  | _ => return none

/-- A declaration of the typed dialect. -/
def typedDeclaration (start : Nat) (d : TypedDeclaration) : Parser Node := do
  match d with
  | .alias => typeAliasDeclaration g start
  | .interface => interfaceDeclaration g start
  | .enum => enumDeclaration g start []
  | .constEnum => do advance; enumDeclaration g start [.constant]
  | .namespace => namespaceDeclaration g start []
  | .ambientModule => ambientModuleDeclaration g start
  | .globalScope => ambientModuleDeclaration g start
  | .abstractClass => do advance; classRest g start .classDecl [] [.abstract]
  | .declared =>
    advance
    let n ← within (fun s => { s with ambient := true }) (g .statement)
    return (n.withMark .declared).withSpan ⟨start, n.span.stop⟩

/-! ## Exports -/

/-- A declaration, as after `export`. -/
def declaration (start : Nat) (decorated : List Node) : Parser Node := do
  let c ← cursor
  let n ← next
  let kind ← variablesAt
  match ← typedDeclarationAt with
  | some .abstractClass => do
    advance
    classRest g start .classDecl decorated [.abstract]
  | some d => typedDeclaration g start d
  | none =>
    if kind ≠ "" then
      skipVariablesWord kind
      let v ← variablesRest g start kind false
      endStatement
      return v.withSpan ⟨start, (← cursor).lastStop⟩
    else if wordAt c = "function" then functionRest g start false true .functionDecl
    else if wordAt c = "async" && wordAt n = "function" && !n.newline then
      advance
      functionRest g start true true .functionDecl
    else if wordAt c = "class" then classRest g start .classDecl decorated []
    else refuse "expected a declaration"

/-- What a default export exports. -/
def defaultRest (decorated : List Node) : Parser Node := do
  let start ← position
  let more ← decorators g
  let c ← cursor
  let n ← next
  let w := wordAt c
  let typed := (← setting).dialect.typed
  if w = "function" then functionRest g start false false .functionDecl
  else if w = "async" && wordAt n = "function" && !n.newline then
    advance
    functionRest g start true false .functionDecl
  else if w = "class" then classRest g start .classDecl (decorated ++ more) []
  else if typed && w = "abstract" && wordAt n = "class" then
    advance
    classRest g start .classDecl (decorated ++ more) [.abstract]
  else if typed && w = "interface" && isNameAt n && !n.newline then interfaceDeclaration g start
  else
    let e ← g .assignment
    endStatement
    return e

/-- An export declaration. -/
def exportDeclaration (start : Nat) (decorated : List Node) : Parser Node := do
  expectWord "export"
  let c ← cursor
  let typed := (← setting).dialect.typed
  match punctAt c with
  | "\x7b" => exportList start false
  | "*" => exportStar start false
  | "=" =>
    if !typed then refuse "unexpected ="
    advance
    let e ← g .assignment
    endStatement
    finish start .exportEquals [e]
  | _ =>
    let n ← next
    if wordAt c = "default" then
      advance
      let d ← defaultRest g decorated
      finish start .exportDefault [d]
    else if typed && wordAt c = "as" && wordAt n = "namespace" then
      advance
      advance
      let name ← variable_ .binding
      endStatement
      finish start .exportAsNamespace [] name.text
    else if typed && wordAt c = "type" && (punctAt n = "\x7b" || punctAt n = "*") then
      advance
      if ← atPunct "*" then exportStar start true else exportList start true
    else if typed && wordAt c = "import" then
      let d ← importDeclaration
      if !(d.is .importEquals) then refuse "expected ="
      finish start .exportDecl [d]
    else
      let declStart ← position
      let more ← decorators g
      let d ← declaration g declStart (decorated ++ more)
      finish start .exportDecl [d]

/-! ## Statements -/

/-- An expression as a statement, or a statement with a label. -/
def expressionStatement : Parser Node := do
  let start ← position
  let n ← next
  if (← atVariable) && punctAt n = ":" then
    let label ← variable_ .label
    expect ":"
    let b ← body g
    finish start .labeled [label, b]
  else
    let e ← within inside (g .expression)
    endStatement
    finish start .expression [e]

/-- A statement that begins with a keyword, if the cursor is on one. -/
def keywordStatement (w : String) : Parser (Option Node) := do
  let start ← position
  match w with
  | "if" =>
    advance
    let test ← parenthesized g
    let yes ← body g
    let no ← if ← skipWord "else" then body g else pure .absent
    return some (← finish start .ifStmt [test, yes, no])
  | "for" => return some (← forStatement g)
  | "while" =>
    advance
    let test ← parenthesized g
    let b ← body g
    return some (← finish start .whileStmt [test, b])
  | "do" =>
    advance
    let b ← body g
    expectWord "while"
    let test ← parenthesized g
    let _ ← skip ";"
    return some (← finish start .doWhile [b, test])
  | "continue" => return some (← jump .continueStmt)
  | "break" => return some (← jump .breakStmt)
  | "return" =>
    if !(← setting).returnOk then refuse "return outside of a function"
    advance
    let c ← cursor
    let bare := c.newline || punctAt c = ";" || punctAt c = "\x7d" || (← atEnd)
    let e ← if bare then pure .absent else innerExpression g
    endStatement
    return some (← finish start .returnStmt [e])
  | "with" =>
    advance
    let e ← parenthesized g
    let b ← body g
    return some (← finish start .withStmt [e, b])
  | "switch" =>
    advance
    let e ← parenthesized g
    expect "\x7b"
    let cases ← itemsUntil "\x7d" (switchCase g)
    return some (← finish start .switchStmt (e :: cases))
  | "throw" =>
    advance
    let c ← cursor
    if c.newline then refuse "a line ends after throw"
    let e ← innerExpression g
    endStatement
    return some (← finish start .throwStmt [e])
  | "try" => return some (← tryStatement g)
  | "debugger" =>
    advance
    endStatement
    return some (← finish start .debugger [])
  | "function" => return some (← functionRest g start false true .functionDecl)
  | "class" => return some (← classRest g start .classDecl [] [])
  | "export" => return some (← exportDeclaration g start [])
  | "import" =>
    let n ← next
    if punctAt n = "(" || punctAt n = "." then return none
    else return some (← importDeclaration)
  | _ => return none

def statementRule : Parser Node := do
  let start ← position
  let c ← cursor
  match c.token with
  | .punct "\x7b" => block g
  | .punct ";" => leaf .empty ""
  | .punct "@" =>
    let ds ← decorators g
    if ← atWord "export" then exportDeclaration g start ds
    else if ← atWord "abstract" then
      advance
      classRest g start .classDecl ds [.abstract]
    else classRest g start .classDecl ds []
  | .name w false =>
    let kind ← variablesAt
    if kind ≠ "" then
      skipVariablesWord kind
      let v ← within (fun s => { s with allowIn := true, arrowTypes := true })
        (variablesRest g start kind false)
      endStatement
      return v.withSpan ⟨start, (← cursor).lastStop⟩
    else
      match ← typedDeclarationAt with
      | some d => typedDeclaration g start d
      | none =>
        match ← keywordStatement g w with
        | some n => return n
        | none =>
          let n ← next
          if w = "async" && wordAt n = "function" && !n.newline then
            advance
            functionRest g start true true .functionDecl
          else expressionStatement g
  | _ => expressionStatement g

end ScriptLoader.Syntax.Grammar
