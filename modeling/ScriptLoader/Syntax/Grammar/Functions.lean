import ScriptLoader.Syntax.Grammar.Types

/-!
# Patterns, parameters and bodies

Declared patterns, targets of assignments, formal parameters and the bodies of functions.

* `toTarget?`: an expression as the target of an assignment, if it can be one.
-/

namespace ScriptLoader.Syntax.Grammar

open Syntax.Parser

/-! ## Targets -/

/-- The expression inside parentheses and types that can be assigned as a whole. -/
def isSimpleTarget : Node → Bool
  | .mk .reference _ _ _ _ => true
  | .mk .member marks _ _ _ => !(marks.contains .optional)
  | .mk .index marks _ _ _ => !(marks.contains .optional)
  | .mk .paren _ _ _ [e] => isSimpleTarget e
  | .mk .typed _ _ _ (e :: _) => isSimpleTarget e
  | _ => false

mutual

/-- An expression as a target. -/
def toTarget? : Node → Option Node
  | .mk .array _ t s cs => (itemTargets? cs).map fun cs => .mk .arrayTarget [] t s cs
  | .mk .object _ t s cs => (fieldTargets? cs).map fun cs => .mk .objectTarget [] t s cs
  | n => if isSimpleTarget n then some n else none

/-- A target that may have a default. -/
def withDefault? : Node → Option Node
  | .mk .assign m "=" s [target, value] => some (.mk .withDefault m "" s [target, value])
  | .mk .withDefault m t s cs => some (.mk .withDefault m t s cs)
  | n => toTarget? n

def itemTargets? : List Node → Option (List Node)
  | [] => some []
  | [.mk .spread m t s [e]] =>
    match toTarget? e with
    | some e => some [.mk .rest m t s [e]]
    | none => none
  | .mk .elision m t s c :: cs => (itemTargets? cs).map (.mk .elision m t s c :: ·)
  | c :: cs =>
    match withDefault? c, itemTargets? cs with
    | some c, some cs => some (c :: cs)
    | _, _ => none

def fieldTargets? : List Node → Option (List Node)
  | [] => some []
  | [.mk .spread m t s [e]] =>
    if isSimpleTarget e then some [.mk .rest m t s [e]] else none
  | .mk .property m t s [key, value] :: cs =>
    match withDefault? value, fieldTargets? cs with
    | some v, some cs => some (.mk .patternProperty m t s [key, v] :: cs)
    | _, _ => none
  | _ => none

end

/-! ## Declared patterns -/

variable (g : Grammar)

/-- A pattern with a default, if one follows. -/
def defaulted (start : Nat) (pattern : Node) : Parser Node := do
  if ← skip "=" then
    let e ← within (fun s => { s with allowIn := true }) (g .assignment)
    finish start .withDefault [pattern, e]
  else return pattern

/-- A rest element after its dots. -/
def restPattern (start : Nat) : Parser Node := do
  let p ← g .binding
  finish start .rest [p]

/-- An item of an array pattern. -/
def arrayPatternItem : Parser Node := do
  let start ← position
  if ← atPunct "," then return .mk .elision [] "" ⟨start, start⟩ []
  if ← skip "..." then restPattern g start
  else
    let p ← g .binding
    defaulted g start p

/-- A property of an object pattern. -/
def objectPatternItem : Parser Node := do
  let start ← position
  if ← skip "..." then restPattern g start
  else
    let c ← cursor
    let n ← next
    let isVariable ← atVariable
    if isVariable && punctAt n ≠ ":" then
      let key ← word
      let p : Node := .mk .binding [] key.text key.span []
      let value ← defaulted g start p
      finish start .patternProperty [key, value] "" [.shorthand]
    else
      let _ := c
      let key ← propertyKey g
      expect ":"
      let valueStart ← position
      let p ← g .binding
      let value ← defaulted g valueStart p
      finish start .patternProperty [key, value] "" (if isComputed key then [.computed] else [])

/-- Whether only the last node is a rest element. -/
def restIsLast (ns : List Node) : Bool := ns.dropLast.all fun n => !(n.is .rest)

/-- Items of an array pattern up to its bracket. A missing item stands before a comma. -/
def arrayItems (item : Parser Node) : Parser (List Node) :=
  loop (fun (acc : List Node) => do
    if ← skip "]" then return .inr acc.reverse
    let a ← item
    if a.is .elision then
      expect ","
      return .inl (a :: acc)
    if ← skip "]" then return .inr (a :: acc).reverse
    expect ","
    if a.is .rest then refuse "a rest element is last"
    return .inl (a :: acc)) []

/-- A declared name or pattern. -/
def bindingRule : Parser Node := do
  let start ← position
  if ← skip "[" then
    let items ← arrayItems (arrayPatternItem g)
    finish start .arrayPattern items
  else if ← skip "\x7b" then
    let items ← commaUntil "\x7d" (objectPatternItem g)
    if !(restIsLast items) then refuse "a rest element is last"
    finish start .objectPattern items
  else variable_ .binding

/-! ## Parameters -/

/-- The words that make a parameter of a constructor a field. -/
def promoters : List String := ["public", "private", "protected", "readonly", "override"]

/-- The modifiers in front of a parameter. -/
def parameterModifiers : Parser Bool :=
  loop (fun (seen : Bool) => do
    let c ← cursor
    let n ← next
    if promoters.contains (wordAt c) &&
        (isNameAt n || punctAt n = "[" || punctAt n = "\x7b") && !n.newline then
      advance
      return .inl true
    else return .inr seen) false

/-- Decorators in front of a declaration. -/
def decorators : Parser (List Node) :=
  loop (fun (acc : List Node) => do
    let start ← position
    if ← skip "@" then
      let e ← g .leftHand
      let d ← finish start .decorator [e]
      return .inl (d :: acc)
    else return .inr acc.reverse) []

/-- A formal parameter. -/
def parameter : Parser Node := do
  let start ← position
  let typed := (← setting).dialect.typed
  let decorated ← decorators g
  let promoted ← if typed then parameterModifiers else pure false
  if ← skip "..." then
    let p ← g .binding
    let _ ← if typed then skip "?" else pure false
    let t ← if typed then annotation? g else pure untyped
    let r ← finish start .rest (Node.withType [p] t)
    if !(← atPunct ")") then refuse "a rest parameter is last"
    return r
  let c ← cursor
  if typed && wordAt c = "this" then
    advance
    let t ← annotation? g
    finish start .param (Node.withType [] t) "" [.receiver]
  else
    let p ← g .binding
    let question ← if typed then skip "?" else pure false
    let t ← if typed then annotation? g else pure untyped
    let p ← defaulted g start p
    let marks :=
      (if promoted then [Mark.promoted] else []) ++ (if question then [.question] else [])
    finish start .param (Node.withType (p :: decorated) t) "" marks

/-- Formal parameters in parentheses. The parameter that types `this` stands for what is left of its
type. -/
def parameters : Parser Node := do
  let start ← position
  expect "("
  let items ← within (fun s => { s with allowIn := true, arrowTypes := true })
    (commaUntil ")" (parameter g))
  finish start .params (items.filter fun p => !(p.has .receiver) || !p.children.isEmpty)

/-! ## Bodies -/

/-- Whether a node is a statement of one bare string. -/
def isDirective : Node → Bool
  | .mk .expression _ _ _ [.mk .stringLit _ _ _ _] => true
  | _ => false

/-- Statements up to the end that `close` recognises, with the directives in front of them. -/
def statementsUntil (close : Parser Bool) : Parser (List Node) :=
  loop (fun ((directives, acc) : Bool × List Node) => do
    if ← close then return .inr acc.reverse
    let c ← cursor
    let n ← g .statement
    if directives && isStringAt c && isDirective n then
      let length := (n.child 0).span.stop - c.span.start
      let raw := ((c.here.take length).drop 1).dropLast
      return .inl (true, .mk .directive [] (String.ofList raw) n.span [] :: acc)
    else return .inl (false, n :: acc)) (true, [])

/-- A block of statements without directives. -/
def block : Parser Node := do
  let start ← position
  expect "\x7b"
  let items ← itemsUntil "\x7d" (g .statement)
  finish start .block items

/-- The body of a function in braces. -/
def functionBody (async generator : Bool) : Parser Node := do
  let start ← position
  expect "\x7b"
  let items ← within (fun s => { s with
      allowIn := true, awaitOk := async, yieldOk := generator, returnOk := true,
      arrowTypes := true, ambient := false })
    (statementsUntil g (skip "\x7d"))
  finish start .block items

/-- Type parameters, parameters and result type. -/
def signature (async generator : Bool) : Parser Node :=
  within (fun s => { s with awaitOk := async, yieldOk := generator }) do
    let typed := (← setting).dialect.typed
    let types ← if typed then typeParameters? g else pure untyped
    let ps ← parameters g
    let result ← if typed then resultType? g else pure untyped
    return ps.withSignature [types, result]

/-- A body, or in a typed dialect the end of a signature without one. -/
def bodyOrEnd (async generator : Bool) : Parser Node := do
  if ← atPunct "\x7b" then functionBody g async generator
  else if (← setting).dialect.typed then
    endStatement
    return .absent
  else refuse "expected a body"

/-- A function from its word on; `declares` asks for a name. -/
def functionRest (start : Nat) (async declares : Bool) (kind : Kind) : Parser Node := do
  expectWord "function"
  let generator ← skip "*"
  let name ←
    if declares then
      if ← atVariable then variable_ .binding
      else refuse "expected the name of a function"
    else
      within (fun s => { s with awaitOk := async, yieldOk := generator }) do
        if ← atVariable then variable_ .binding else return .absent
  let ps ← signature g async generator
  let body ← bodyOrEnd g async generator
  finish start kind [name, ps, body] ""
    ((if async then [Mark.async] else []) ++ (if generator then [.generator] else []))

/-- A method from its parameters on. -/
def methodRest (start : Nat) (async generator : Bool) : Parser Node := do
  let ps ← signature g async generator
  let body ← bodyOrEnd g async generator
  finish start .functionExpr [.absent, ps, body] ""
    ((if async then [Mark.async] else []) ++ (if generator then [.generator] else []))

end ScriptLoader.Syntax.Grammar
