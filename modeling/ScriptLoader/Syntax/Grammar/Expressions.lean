import ScriptLoader.Syntax.Grammar.Classes

/-!
# Expressions

Operators, calls, literals and arrow functions.

* `assignmentRule`, `expressionRule`: the rules with and without commas at the top.
* `arrowLikely`: what the tokens in front tell about an arrow function.
-/

namespace ScriptLoader.Syntax.Grammar

open Syntax.Parser

variable (g : Grammar)

/-- The setting inside brackets of any kind. -/
def inside (s : Setting) : Setting := { s with allowIn := true, arrowTypes := true }

/-- An expression inside brackets. -/
def innerExpression : Parser Node := within inside (g .expression)

/-- An item of an argument list or array. -/
def spreadItem : Parser Node := do
  let start ← position
  if ← skip "..." then
    let e ← g .assignment
    finish start .spread [e]
  else g .assignment

/-- Arguments, after their opening parenthesis. -/
def argumentsRest : Parser (List Node) := within inside (commaUntil ")" (spreadItem g))

/-! ## Literals -/

/-- An array, after its bracket. -/
def arrayRest (start : Nat) : Parser Node := do
  let items ← within inside (loop (fun (acc : List Node) => do
    if ← skip "]" then return .inr acc.reverse
    let place ← position
    if ← skip "," then return .inl (.mk .elision [] "" ⟨place, place⟩ [] :: acc)
    let e ← spreadItem g
    if ← skip "]" then return .inr (e :: acc).reverse
    expect ","
    return .inl (e :: acc)) [])
  finish start .array items

/-- A property, method or spread of an object. -/
def objectItem : Parser Node := do
  let start ← position
  if ← skip "..." then
    let e ← g .assignment
    finish start .spread [e]
  else
    let marks ← methodMarks
    let c ← cursor
    let isVariable ← atVariable
    let key ← propertyKey g
    let computed := if isComputed key then [Mark.computed] else []
    if ← atParameters then
      let bodyStart ← position
      let f ← methodRest g bodyStart (marks.contains .async) (marks.contains .generator)
      checkAccessor marks f
      if (f.child 2).isAbsent then refuse "expected a body"
      finish start .method [key, f] "" (computed ++ marks)
    else if marks ≠ [] then refuse "expected parameters"
    else if ← skip ":" then
      let e ← g .assignment
      finish start .property [key, e] "" computed
    else if isVariable then
      let value : Node := .mk .reference [] key.text key.span []
      let _ := c
      if ← skip "=" then
        let e ← g .assignment
        let v ← finish start .withDefault [value, e]
        finish start .property [key, v] "" [.shorthand]
      else finish start .property [key, value] "" [.shorthand]
    else refuse "expected a value"

/-- An object, after its brace. -/
def objectRest (start : Nat) : Parser Node := do
  let items ← within inside (commaUntil "\x7d" (objectItem g))
  finish start .object items

/-! ## Primary expressions -/

/-- A call that loads a module, or a property of the module, after its word. -/
def importRest (start : Nat) : Parser Node := do
  let phase ←
    if ← skip "." then do
      let w ← currentWord
      advance
      if w = "meta" || w = "source" || w = "defer" then pure w else refuse "no such property"
    else pure ""
  if phase = "meta" then finish start .metaProperty [] "import.meta"
  else
    expect "("
    within inside do
      if ← atPunct "..." then refuse "an import takes no spread"
      let source ← g .assignment
      let options ←
        if ← skip "," then do
          if ← atPunct ")" then pure .absent
          else
            let e ← g .assignment
            let _ ← skip ","
            pure e
        else pure .absent
      expect ")"
      finish start .importCall [source, options] phase

/-- `new` and what follows it. -/
def newRest (start : Nat) : Parser Node := do
  if ← skip "." then
    expectWord "target"
    finish start .metaProperty [] "new.target"
  else
    let callee ← g .constructed
    if callee.is .importCall then refuse "an import is no constructor"
    if ← atPunct "?." then refuse "no optional link after new"
    let arguments ← if ← skip "(" then argumentsRest g else pure []
    finish start .new (callee :: arguments)

/-- An expression of one operand. -/
def primary : Parser Node := do
  let start ← position
  let c ← cursor
  match c.token with
  | .name w escaped =>
    if escaped then variable_ .reference
    else if w = "this" then leaf .this ""
    else if w = "super" then
      let e ← leaf .super ""
      let p ← currentPunct
      if p = "." || p = "[" || p = "(" then return e else refuse "super alone"
    else if w = "null" then leaf .nullLit ""
    else if w = "true" || w = "false" then leaf .boolLit w
    else if w = "function" then functionRest g start false false .functionExpr
    else if w = "class" then classRest g start .classExpr [] []
    else if w = "new" then do advance; newRest g start
    else if w = "import" then do advance; importRest g start
    else if w = "async" then
      let n ← next
      if wordAt n = "function" && !n.newline then
        advance
        functionRest g start true false .functionExpr
      else variable_ .reference
    else variable_ .reference
  | .number raw => leaf .numberLit raw
  | .bigint raw => leaf .bigintLit raw
  | .string v => leaf .stringLit v
  | .quasi _ _ _ => templateOf (innerExpression g) false
  | .punct "(" =>
    advance
    let e ← innerExpression g
    expect ")"
    finish start .paren [e]
  | .punct "[" => do advance; arrayRest g start
  | .punct "\x7b" => do advance; objectRest g start
  | .punct "@" =>
    let ds ← decorators g
    classRest g start .classExpr ds []
  | .punct "<" =>
    if (← setting).dialect.markup then
      let e ← g .element
      advance
      return e
    else refuse "expected an expression"
  | .punct p =>
    if p = "/" || p = "/=" then
      let s ← setting
      match scanRegex? (s.size - c.span.start + 2) c.here with
      | some (text, rest) =>
        retoken .eof rest
        leaf .regexLit text
      | none => refuse "unterminated regular expression"
    else refuse "expected an expression"
  | _ => refuse "expected an expression"

/-! ## Calls and member accesses -/

/-- Operators of two operands and their precedence. -/
def binaryOperators : List (String × Nat) :=
  [("??", 1), ("||", 2), ("&&", 3), ("|", 4), ("^", 5), ("&", 6), ("==", 7), ("!=", 7),
    ("===", 7), ("!==", 7), ("<", 8), (">", 8), ("<=", 8), (">=", 8), ("instanceof", 8),
    ("in", 8), ("<<", 9), (">>", 9), (">>>", 9), ("+", 10), ("-", 10), ("*", 11), ("/", 11),
    ("%", 11), ("**", 12)]

/-- Whether type arguments before the cursor belong to the expression in front of them. -/
def typeArgumentsEnd : Parser Bool := do
  let c ← cursor
  match c.token with
  | .quasi _ _ _ => return true
  | .punct p =>
    if p = "(" then return true
    else if ["<", ">", "+", "-"].contains p then return false
    else return c.newline || (binaryOperators.lookup p).isSome ||
      !(["[", "\x7b", "!", "~", "++", "--", "@", "/", "/="].contains p)
  | .name w _ =>
    return c.newline || (binaryOperators.lookup w).isSome || w = "as" || w = "satisfies" ||
      (reserved.contains w && !(["this", "super", "null", "true", "false", "function", "class",
        "new", "import", "typeof", "void", "delete"].contains w))
  | .eof => return true
  | _ => return c.newline

/-- Type arguments of the expression in front of them. -/
def instantiation : Parser Node := do
  let t ← typeArguments? g
  if !(← typeArgumentsEnd) then refuse "no type arguments"
  return t

/-- A step of a chain of calls and member accesses: the expression so far and whether an optional
link occurred. -/
def suffixStep (calls : Bool) (start : Nat) (state : Node × Bool) :
    Parser ((Node × Bool) ⊕ (Node × Bool)) := do
  let (e, chained) := state
  let c ← cursor
  let typed := (← setting).dialect.typed
  let memberName : Parser Node := do
    let c ← cursor
    match c.token with
    | .name _ _ => word
    | .privateName w => leaf .privateName w
    | _ => refuse "expected a property"
  match c.token with
  | .quasi _ _ _ =>
    if chained then refuse "a template after an optional link"
    let t ← templateOf (innerExpression g) true
    return .inl (← finish start .taggedTemplate [e, t], chained)
  | .punct "." =>
    advance
    let m ← memberName
    return .inl (← finish start .member [e, m], chained)
  | .punct "?." =>
    if !calls then return .inr state
    advance
    let p ← currentPunct
    if p = "[" then
      advance
      let i ← innerExpression g
      expect "]"
      return .inl (← finish start .index [e, i] "" [.optional], true)
    else if p = "(" || (typed && p = "<") then
      let t ← typeArguments? g
      expect "("
      let arguments ← argumentsRest g
      return .inl (← finish start .call (Node.withType (e :: arguments) t) "" [.optional], true)
    else
      let m ← memberName
      return .inl (← finish start .member [e, m] "" [.optional], true)
  | .punct "[" =>
    advance
    let i ← innerExpression g
    expect "]"
    return .inl (← finish start .index [e, i], chained)
  | .punct "(" =>
    if calls then
      advance
      let arguments ← argumentsRest g
      return .inl (← finish start .call (e :: arguments), chained)
    else return .inr state
  | .punct "!" =>
    if typed && !c.newline then
      advance
      return .inl (← finish start .typed [e], chained)
    else return .inr state
  | .punct p =>
    if typed && (p = "<" || p = "<<") then
      match ← attempt (instantiation g) with
      | some t =>
        let after ← cursor
        let followed := match after.token with
          | .quasi _ _ _ => true
          | .punct p => p = "("
          | _ => false
        if followed && t.isBareType then return .inl (e, chained)
        else return .inl (← finish start .typed (Node.withType [e] t), chained)
      | none => return .inr state
    else return .inr state
  | _ => return .inr state

/-- Calls and member accesses after an expression. -/
def suffixes (calls : Bool) (start : Nat) (e : Node) : Parser Node := do
  let (e, chained) ← loop (suffixStep g calls start) (e, false)
  if chained then finish start .chain [e] else return e

def leftHandRule : Parser Node := do
  let start ← position
  let e ← primary g
  suffixes g true start e

def constructedRule : Parser Node := do
  let start ← position
  let e ← primary g
  suffixes g false start e

/-! ## Operators -/

/-- Whether an update operator can change the expression. -/
def updatable (e : Node) : Bool := isSimpleTarget e

/-- Marks the call that a comment declares free of side effects. -/
def markCallPure : Node → Node
  | .mk .chain m t s [.mk .call cm ct cs cc] => .mk .chain m t s [.mk .call (.pure :: cm) ct cs cc]
  | .mk .call m t s cs => .mk .call (.pure :: m) t s cs
  | .mk .new m t s cs => .mk .new (.pure :: m) t s cs
  | n => n

/-- An expression with an update operator behind it, if there is one. -/
def updateRest (start : Nat) (e : Node) : Parser Node := do
  let c ← cursor
  let p := punctAt c
  if (p = "++" || p = "--") && !c.newline then
    if !(updatable e) then refuse "nothing to update"
    advance
    finish start .update [e] p
  else return e

/-- The type that an expression is asserted to have. -/
def assertedType : Parser Node := do
  if ← skipWord "const" then return untyped else type g

/-- An operand of a binary operator. -/
def unaryRule : Parser Node := do
  let start ← position
  let c ← cursor
  let isPure := c.pureMark
  let operand (kind : Kind) (text : String) : Parser Node := do
    advance
    let e ← g .unary
    finish start kind [e] text
  match c.token with
  | .punct p =>
    if ["+", "-", "~", "!"].contains p then operand .unary p
    else if p = "++" || p = "--" then
      advance
      let e ← g .unary
      if !(updatable e) then refuse "nothing to update"
      finish start .update [e] p [.before]
    else if p = "<" && (← setting).dialect.typed && !(← setting).dialect.markup then
      advance
      let t ← assertedType g
      expect ">"
      let e ← g .unary
      finish start .typed (Node.withType [e] t)
    else
      let e ← leftHandRule g
      let e := if isPure then markCallPure e else e
      updateRest start e
  | .name w false =>
    if ["delete", "void", "typeof"].contains w then operand .unary w
    else if w = "await" && (← setting).awaitOk then operand .await ""
    else
      let e ← leftHandRule g
      let e := if isPure then markCallPure e else e
      updateRest start e
  | .privateName w =>
    let n ← next
    if wordAt n = "in" && (← setting).allowIn then leaf .privateName w
    else refuse "a private name alone"
  | _ =>
    let e ← leftHandRule g
    updateRest start e

/-- An operator of two operands at the cursor; what begins with `>` is put together here. -/
def operatorAt : Parser (Option (String × Nat × List Char)) := do
  let c ← cursor
  match c.token with
  | .punct ">" =>
    let long := [">>>=", ">>=", ">=", ">>>", ">>"].map String.toList
    match firstFront? long c.here with
    | some (p, rest) =>
      return (binaryOperators.lookup (String.ofList p)).map fun n => (String.ofList p, n, rest)
    | none => return some (">", 8, c.rest)
  | .punct p => return (binaryOperators.lookup p).map fun n => (p, n, c.rest)
  | .name w false =>
    if w = "in" && !(← setting).allowIn then return none
    else return (binaryOperators.lookup w).map fun n => (w, n, c.rest)
  | _ => return none

/-- Whether `??` meets `||` or `&&` without parentheses. -/
def mixesCoalescing (op : String) (a b : Node) : Bool :=
  let is (n : Node) (ops : List String) := n.is .binary && ops.contains n.text
  if op = "??" then is a ["||", "&&"] || is b ["||", "&&"]
  else if op = "||" || op = "&&" then is a ["??"] || is b ["??"]
  else false

/-- A pending left operand with its operator. -/
abbrev Pending := Node × String × Nat

/-- Joins the current operand with pending ones that bind at least as tightly as `level`. -/
def reduce (level : Nat) (right : Bool) : List Pending → Node → Parser (List Pending × Node)
  | [], e => return ([], e)
  | (a, op, n) :: stack, e =>
    if n > level || (n = level && !right) then
      if mixesCoalescing op a e then refuse "mixed operators"
      else reduce level right stack
        (.mk .binary [] op ⟨a.span.start, e.span.stop⟩ [a, e])
    else return ((a, op, n) :: stack, e)

/-- Operands with binary operators between them. -/
def binaryRule : Parser Node := do
  let first ← unaryRule g
  loop (fun ((stack, e) : List Pending × Node) => do
    let c ← cursor
    let w := wordAt c
    if (w = "as" || w = "satisfies") && (← setting).dialect.typed && !c.newline then
      let (stack, e) ← reduce 8 false stack e
      advance
      let t ← assertedType g
      let e ← finish e.span.start .typed (Node.withType [e] t)
      return .inl (stack, e)
    else
      match ← operatorAt with
      | none => do
        let (_, e) ← reduce 0 false stack e
        return .inr e
      | some (op, n, rest) =>
        if op = "**" && (e.is .unary || e.is .await) then refuse "an operand needs parentheses"
        let (stack, e) ← reduce n (op = "**") stack e
        retoken (.punct op) rest
        advance
        let operand ← g .unary
        return .inl ((e, op, n) :: stack, operand)) ([], first)

/-! ## Arrow functions -/

/-- What the tokens in front tell about an arrow function with parentheses. -/
inductive Likely where
  | yes | no | maybe
  deriving DecidableEq

/-- Whether the tokens at the cursor begin an arrow function with parentheses. -/
def arrowLikely : Parser Likely := ahead do
  if ← atWord "async" then
    advance
    let c ← cursor
    if c.newline || !(["(", "<"].contains (punctAt c)) then return .no
  let first ← currentPunct
  if first = "(" then
    advance
    let c ← cursor
    let p := punctAt c
    if p = ")" then
      advance
      let p ← currentPunct
      return if p = "=>" || p = ":" || p = "\x7b" then .maybe else .no
    if p = "[" || p = "\x7b" then return .maybe
    if p = "..." then return .yes
    if p = "@" then return .maybe
    let n ← next
    if promoters.contains (wordAt c) && isNameAt n then
      return if wordAt n = "as" then .no else .yes
    let isVariable ← atVariable
    if !isVariable && wordAt c ≠ "this" then return .no
    match punctAt n with
    | ":" => return .yes
    | "?" =>
      advance
      advance
      let p ← currentPunct
      return if [":", ",", "=", ")"].contains p then .yes else .no
    | "," | "=" | ")" => return .maybe
    | _ => return .no
  else if first = "<" && (← setting).dialect.typed then
    advance
    if !(← atVariable) && !(← atWord "const") then return .no
    if (← setting).dialect.markup then
      let _ ← skipWord "const"
      advance
      if ← atWord "extends" then
        advance
        let p ← currentPunct
        return if ["=", ">", "/"].contains p then .no else .yes
      let p ← currentPunct
      return if p = "," || p = "=" then .yes else .no
    return .maybe
  else return .no

/-- The arrow and the body of an arrow function. -/
def arrowBody (start : Nat) (async : Bool) (ps : Node) : Parser Node := do
  let c ← cursor
  if c.newline then refuse "a line ends before an arrow"
  expect "=>"
  let asynchronous := if async then [Mark.async] else []
  if ← atPunct "\x7b" then
    let body ← functionBody g async false
    finish start .arrow [ps, body] "" asynchronous
  else
    let body ← within (fun s => { s with awaitOk := async, yieldOk := false }) (g .assignment)
    finish start .arrow [ps, body] "" (.concise :: asynchronous)

/-- The result type of an arrow function, from its colon on. -/
def arrowResult : Parser Node := do
  advance
  within (fun s => { s with conditionalTypes := true }) (returnType g)

/-- An arrow function with parentheses. -/
def parenthesizedArrow : Parser Node := do
  let start ← position
  let async ← skipWord "async"
  let typed := (← setting).dialect.typed
  let ps ← within (fun s => { s with awaitOk := s.awaitOk || async }) do
    let types ← if typed then typeParameters? g else pure untyped
    let ps ← parameters g
    return ps.withSignature [types]
  let annotated ← if typed then atPunct ":" else pure false
  let result ← if annotated then arrowResult g else pure untyped
  let arrow ← arrowBody g start async (ps.withSignature [result])
  if annotated && !(← setting).arrowTypes && !(← atPunct ":") then refuse "no arrow function"
  return arrow

/-- An arrow function with one bare parameter, whose name is at the cursor. -/
def bareArrow (start : Nat) (async : Bool) : Parser Node := do
  let p ← within (fun s => { s with awaitOk := s.awaitOk || async }) (variable_ .binding)
  let ps : Node := .mk .params [] "" p.span [.mk .param [] "" p.span [p]]
  arrowBody g start async ps

/-! ## Assignments -/

def assignmentOperators : List String :=
  ["=", "+=", "-=", "*=", "/=", "%=", "**=", "<<=", "&=", "|=", "^=", "&&=", "||=", "??="]

/-- An assignment operator at the cursor, with the characters after it. -/
def assignmentAt : Parser (Option (String × List Char)) := do
  let c ← cursor
  match c.token with
  | .punct ">" =>
    return (firstFront? ([">>>=", ">>="].map String.toList) c.here).map fun (p, rest) =>
      (String.ofList p, rest)
  | .punct p => return if assignmentOperators.contains p then some (p, c.rest) else none
  | _ => return none

/-- `yield` and its operand. -/
def yieldRest (start : Nat) : Parser Node := do
  expectWord "yield"
  let c ← cursor
  if !c.newline && punctAt c = "*" then
    advance
    let e ← g .assignment
    finish start .yield [e] "" [.delegate]
  else
    let stops := [")", "]", "\x7d", ",", ";", ":"].contains (punctAt c) || (← atEnd) ||
      wordAt c = "in" || wordAt c = "of"
    if c.newline || stops then finish start .yield [.absent]
    else
      let e ← g .assignment
      finish start .yield [e]

/-- A condition with its two branches, or an assignment, or the expression alone. -/
def assignmentRest (start : Nat) (e : Node) : Parser Node := do
  match ← assignmentAt with
  | some (op, rest) =>
    let target? := if op = "=" then toTarget? e else if isSimpleTarget e then some e else none
    match target? with
    | none => refuse "nothing to assign to"
    | some target =>
      retoken (.punct "=") rest
      advance
      let value ← g .assignment
      finish start .assign [target, value] op
  | none =>
    if ← skip "?" then
      let yes ← within (fun s => { s with allowIn := true, arrowTypes := false }) (g .assignment)
      expect ":"
      let no ← g .assignment
      finish start .conditional [e, yes, no]
    else return e

/-- Whether an asynchronous arrow function with one bare parameter begins at the cursor. -/
def atAsyncBare : Parser Bool := do
  let c ← cursor
  if wordAt c ≠ "async" then return false
  ahead do
    advance
    let n ← cursor
    if !(isNameAt n) || n.newline then return false
    advance
    return (← currentPunct) = "=>"

/-- An expression without commas. -/
def assignmentRule : Parser Node := do
  let start ← position
  let c ← cursor
  let n ← next
  if wordAt c = "yield" && (← setting).yieldOk then yieldRest g start
  else if (← atVariable) && punctAt n = "=>" then bareArrow g start false
  else if ← atAsyncBare then
    advance
    bareArrow g start true
  else
    let arrow ←
      match ← arrowLikely with
      | .yes => do pure (some (← parenthesizedArrow g))
      | .maybe => attempt (parenthesizedArrow g)
      | .no => pure none
    match arrow with
    | some e => return e
    | none =>
      let e ← binaryRule g
      assignmentRest g start e

/-- Expressions with commas between them. -/
def expressionRule : Parser Node := do
  let start ← position
  let first ← g .assignment
  if ← atPunct "," then
    let rest ← loop (fun (acc : List Node) => do
      if ← skip "," then return .inl ((← g .assignment) :: acc)
      else return .inr acc.reverse) [first]
    finish start .sequence rest
  else return first

end ScriptLoader.Syntax.Grammar
