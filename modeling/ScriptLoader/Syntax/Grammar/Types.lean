import ScriptLoader.Syntax.Grammar.Basic

/-!
# Types

What is read here decides where a type ends and whether the source is a program. Of a type nothing
is left but the expressions inside of it (`Node.ofTypes`): the computed keys of its members, the
options of an imported type, and what the patterns and defaults of parameters have.
-/

namespace ScriptLoader.Syntax.Grammar

open Syntax.Parser

variable (g : Grammar)

/-- A type. -/
def type : Parser Node := g .type

/-- What is left where no type stands. -/
def untyped : Node := .ofTypes []

/-- The punctuator `<`, also when it is the first half of `<<`. -/
def openAngle : Parser Bool := do
  let c ← cursor
  match c.token with
  | .punct "<" => advance; return true
  | .punct "<<" =>
    retoken (.punct "<") (c.here.drop 1)
    advance
    return true
  | _ => return false

/-- Type arguments, after their opening bracket. -/
def typeArgumentsRest : Parser Node := do
  let items ← commaUntil ">" (type g)
  if items.isEmpty then refuse "expected a type"
  return .ofTypes items

/-- Type arguments, if there are any. -/
def typeArguments? : Parser Node := do
  if ← openAngle then typeArgumentsRest g else return untyped

/-- One type parameter. -/
def typeParameter : Parser Node := do
  let _ ← loop (fun (_ : Unit) => do
    let c ← cursor
    let n ← next
    if ["const", "in", "out"].contains (wordAt c) && isNameAt n && wordAt n ≠ "extends" then
      advance
      return .inl ()
    else return .inr ()) ()
  let _ ← variable_ .binding
  let bound ← if ← skipWord "extends" then type g else pure untyped
  let default ← if ← skip "=" then type g else pure untyped
  return .ofTypes [bound, default]

/-- Type parameters, if there are any. -/
def typeParameters? : Parser Node := do
  if ← openAngle then
    let items ← commaUntil ">" (typeParameter g)
    if items.isEmpty then refuse "expected a type parameter"
    return .ofTypes items
  else return untyped

/-- A type annotation after a colon, if there is one. -/
def annotation? : Parser Node := do
  if ← skip ":" then type g else return untyped

/-- A parameter of a signature. -/
def signatureParameter : Parser Node := do
  let _ ← skip "..."
  let c ← cursor
  let p ← if wordAt c = "this" then do advance; pure .absent else g .binding
  let _ ← skip "?"
  let t ← annotation? g
  let e ← if ← skip "=" then g .assignment else pure .absent
  return .ofTypes [p, t, e]

/-- Parameters of a signature in parentheses. -/
def signatureParameters : Parser Node := do
  expect "("
  let items ← commaUntil ")" (signatureParameter g)
  return .ofTypes items

/-- A result type: a type, or a statement about a parameter. -/
def returnType : Parser Node := do
  let c ← cursor
  let n ← next
  if wordAt c = "asserts" && isNameAt n && !n.newline then
    advance
    advance
    if ← skipWord "is" then type g else return untyped
  else if isNameAt c && wordAt n = "is" && !n.newline then
    advance
    advance
    type g
  else type g

/-- A result type after a colon, if there is one. -/
def resultType? : Parser Node := do
  if ← skip ":" then returnType g else return untyped

/-- Whether the parenthesis at the cursor begins the parameters of a function type. -/
def atFunctionType : Parser Bool := do
  if !(← atPunct "(") then return false
  ahead do
    advance
    let c ← cursor
    if punctAt c = ")" || punctAt c = "..." then return true
    let skipped ←
      if punctAt c = "[" || punctAt c = "\x7b" then
        pure (← attempt (g .binding)).isSome
      else if isNameAt c then do advance; pure true
      else pure false
    if !skipped then return false
    let p ← currentPunct
    if [":", ",", "?", "="].contains p then return true
    if p = ")" then
      advance
      return (← currentPunct) = "=>"
    return false

/-- A signature after its type parameters, with an optional result type. -/
def signatureRest (parameters : Node) : Parser Node := do
  let ps ← signatureParameters g
  let result ← resultType? g
  return .ofTypes [parameters, ps, result]

/-- A function type after its type parameters. -/
def functionTypeRest (parameters : Node) : Parser Node := do
  let ps ← signatureParameters g
  expect "=>"
  let result ← returnType g
  return .ofTypes [parameters, ps, result]

/-- The end of a member of a type literal. -/
def endMember : Parser Unit := do
  if ← skip ";" then return ()
  if ← skip "," then return ()
  let c ← cursor
  if c.newline || punctAt c = "\x7d" then return ()
  refuse "expected a separator"

/-- Whether the bracket at the cursor begins an index signature. -/
def atIndexSignature : Parser Bool :=
  ahead do
    if !(← skip "[") then return false
    if !(← atName) then return false
    advance
    return (← currentPunct) = ":"

/-- An index signature without its end. -/
def indexSignature : Parser Node := do
  expect "["
  advance
  expect ":"
  let key ← type g
  let _ ← skip ","
  expect "]"
  let value ← annotation? g
  return .ofTypes [key, value]

/-- The rest of a member of a type literal after its key. -/
def memberRest : Parser Node := do
  let _ ← skip "?"
  let p ← currentPunct
  if p = "(" || p = "<" || p = "<<" then
    let ps ← typeParameters? g
    signatureRest g ps
  else annotation? g

/-- Whether a word before a member is a modifier: a key follows it on the line. -/
def modifies (n : Cursor) : Bool :=
  !n.newline && (isNameAt n || isStringAt n ||
    (match n.token with
      | .number _ => true | .bigint _ => true | .privateName _ => true | .punct p => p = "["
      | _ => false))

/-- A member of a type literal that has a key. -/
def keyedMember : Parser Node := do
  let key ← propertyKey g
  let rest ← memberRest g
  if isComputed key then return .ofTypes [key, rest] else return rest

/-- A member of a type literal or interface. -/
def typeMember : Parser Node := do
  let c ← cursor
  let n ← next
  let w := wordAt c
  let member ←
    if punctAt c = "(" || punctAt c = "<" then do
      let ps ← typeParameters? g
      signatureRest g ps
    else if w = "new" && (punctAt n = "(" || punctAt n = "<") then do
      advance
      let ps ← typeParameters? g
      signatureRest g ps
    else do
      if (w = "readonly" || w = "get" || w = "set") && modifies n then advance
      if ← atIndexSignature then indexSignature g else keyedMember g
  endMember
  return member

/-- A type literal, after its opening brace. -/
def typeLiteralRest : Parser Node := do
  let items ← itemsUntil "\x7d" (typeMember g)
  return .ofTypes items

/-- Whether the brace at the cursor begins a mapped type. -/
def atMappedType : Parser Bool :=
  ahead do
    advance
    let p ← currentPunct
    if p = "+" || p = "-" then
      advance
      return ← atWord "readonly"
    if ← atWord "readonly" then advance
    if !(← skip "[") then return false
    if !(← atName) then return false
    advance
    atWord "in"

/-- An optional sign and word, as before and after the key of a mapped type. -/
def signed (item : Parser Bool) : Parser Unit := do
  let p ← currentPunct
  if p = "+" || p = "-" then
    advance
    if !(← item) then refuse "expected a modifier"
  else let _ ← item

/-- A mapped type. -/
def mappedType : Parser Node := do
  expect "\x7b"
  signed (skipWord "readonly")
  expect "["
  advance
  expectWord "in"
  let keys ← type g
  let names ← if ← skipWord "as" then type g else pure untyped
  expect "]"
  signed (skip "?")
  let value ← annotation? g
  let _ ← skip ";"
  let _ ← skip ","
  expect "\x7d"
  return .ofTypes [keys, names, value]

/-- An element of a tuple type. -/
def tupleElement : Parser Node := do
  let _ ← skip "..."
  let c ← cursor
  let labeled ← ahead do
    if !(isNameAt c) then return false
    advance
    let _ ← skip "?"
    return (← currentPunct) = ":"
  if labeled then
    advance
    let _ ← skip "?"
    expect ":"
  let t ← type g
  let _ ← skip "?"
  return t

/-- A dotted name. -/
def entityName : Parser Unit := do
  if !(← atName) then refuse "expected a name"
  advance
  loop (fun (_ : Unit) => do
    if ← skip "." then
      let c ← cursor
      match c.token with
      | .name _ _ => advance; return .inl ()
      | .privateName _ => advance; return .inl ()
      | _ => refuse "expected a name"
    else return .inr ()) ()

/-- Type arguments on the line of what they belong to, if there are any. -/
def typeArgumentsBehind? : Parser Node := do
  let c ← cursor
  if c.newline then return untyped else typeArguments? g

/-- The options of an imported type, behind a comma. -/
def importTypeOptions : Parser Node := do
  if ← atPunct ")" then return .absent
  let e ← g .assignment
  let _ ← skip ","
  return e

/-- An import type, from its word on. -/
def importType : Parser Node := do
  expectWord "import"
  expect "("
  let source ← type g
  let options ← if ← skip "," then importTypeOptions g else pure .absent
  expect ")"
  let _ ← loop (fun (_ : Unit) => do
    if ← skip "." then advance; return .inl ()
    else return .inr ()) ()
  let arguments ← typeArguments? g
  return .ofTypes [source, options, arguments]

/-- A query of the type of a value, after `typeof`. -/
def typeQueryRest : Parser Node := do
  if ← atWord "import" then importType g
  else
    entityName
    typeArgumentsBehind? g

/-- A type that begins with a word. -/
def namedType (w : String) : Parser Node := do
  if w = "typeof" then do advance; typeQueryRest g
  else if w = "import" then importType g
  else if ["void", "null", "true", "false", "undefined"].contains w then do
    advance
    return untyped
  else if w = "this" then
    advance
    let n ← cursor
    if wordAt n = "is" && !n.newline then do advance; type g else return untyped
  else if reserved.contains w then refuse s!"{w} is no type"
  else
    entityName
    typeArgumentsBehind? g

/-- A type without operators. -/
def primaryType : Parser Node := do
  let c ← cursor
  match c.token with
  | .punct "\x7b" => if ← atMappedType then mappedType g else do advance; typeLiteralRest g
  | .punct "[" =>
    advance
    let items ← commaUntil "]" (tupleElement g)
    return .ofTypes items
  | .punct "(" =>
    advance
    let t ← type g
    expect ")"
    return t
  | .punct "-" =>
    advance
    let c ← cursor
    match c.token with
    | .number _ => do advance; return untyped
    | .bigint _ => do advance; return untyped
    | _ => refuse "expected a number"
  | .string _ => do advance; return untyped
  | .number _ => do advance; return untyped
  | .bigint _ => do advance; return untyped
  | .quasi _ _ _ =>
    let pieces ← templatePieces (type g) false
    return .ofTypes (pieces.filter fun n => !(n.is .quasi))
  | .name w _ => namedType g w
  | _ => refuse "expected a type"

/-- Whether the cursor is where a type may begin. -/
def atTypeStart : Parser Bool := do
  let c ← cursor
  return match c.token with
    | .punct p => ["\x7b", "[", "(", "<", "-", "|", "&", "<<"].contains p
    | .string _ | .number _ | .bigint _ | .quasi _ _ _ => true
    | .name w _ =>
      ["void", "null", "true", "false", "this", "typeof", "import", "new"].contains w ||
        !(reserved.contains w)
    | _ => false

/-- A type with brackets behind it. -/
def postfixType : Parser Node := do
  let first ← primaryType g
  let parts ← loop (fun (acc : List Node) => do
    let c ← cursor
    if !c.newline && punctAt c = "[" then
      advance
      if ← skip "]" then return .inl acc
      let t ← type g
      expect "]"
      return .inl (t :: acc)
    else return .inr acc.reverse) [first]
  return .ofTypes parts

/-- The operators in front of a type, and whether the last of them names an inferred type. -/
def typeOperators : Parser Bool :=
  loop (fun (_ : Unit) => do
    let c ← cursor
    let n ← next
    let w := wordAt c
    let operand ← ahead (do advance; atTypeStart)
    if (w = "keyof" || w = "unique" || w = "readonly") && operand then
      advance
      return .inl ()
    else if w = "infer" && isNameAt n && !n.newline then
      advance
      advance
      return .inr true
    else return .inr false) ()

/-- The constraint of an inferred type. Before a question mark it is a condition. -/
def constraint : Parser Node := do
  advance
  let t ← within (fun s => { s with conditionalTypes := false }) (type g)
  if (← setting).conditionalTypes && (← atPunct "?") then refuse "a condition"
  return t

/-- A type with operators in front of it. -/
def operatorType : Parser Node := do
  if ← typeOperators then
    if ← atWord "extends" then
      match ← attempt (constraint g) with
      | some t => return t
      | none => return untyped
    else return untyped
  else within (fun s => { s with conditionalTypes := true }) (postfixType g)

/-- An intersection of types. -/
def intersectionType : Parser Node := do
  let _ ← skip "&"
  let parts ← separated "&" (operatorType g)
  return .ofTypes parts

/-- A union of types. -/
def unionType : Parser Node := do
  let _ ← skip "|"
  let parts ← separated "|" (intersectionType g)
  return .ofTypes parts

/-- What stands behind `extends` in a conditional type. -/
def conditionRest (checked : Node) : Parser Node := do
  let bound ← within (fun s => { s with conditionalTypes := false }) (type g)
  within (fun s => { s with conditionalTypes := true }) do
    expect "?"
    let yes ← type g
    expect ":"
    let no ← type g
    return .ofTypes [checked, bound, yes, no]

/-- Any type. -/
def typeRule : Parser Node := do
  let c ← cursor
  let n ← next
  let w := wordAt c
  if punctAt c = "<" || punctAt c = "<<" then
    let ps ← typeParameters? g
    functionTypeRest g ps
  else if ← atFunctionType g then functionTypeRest g untyped
  else if w = "new" || (w = "abstract" && wordAt n = "new") then
    if w = "abstract" then advance
    advance
    let ps ← typeParameters? g
    functionTypeRest g ps
  else
    let t ← unionType g
    let c ← cursor
    if (← setting).conditionalTypes && wordAt c = "extends" && !c.newline then
      advance
      conditionRest g t
    else return t

end ScriptLoader.Syntax.Grammar
