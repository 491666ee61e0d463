import ScriptLoader.Syntax.Grammar.Functions

/-!
# Classes

The head of a class and its members.
-/

namespace ScriptLoader.Syntax.Grammar

open Syntax.Parser

variable (g : Grammar)

/-- Whether a key may begin at a cursor. -/
def keyStartsAt (c : Cursor) : Bool :=
  match c.token with
  | .name _ _ | .string _ | .number _ | .bigint _ | .privateName _ => true
  | .punct p => p = "["
  | _ => false

/-- Modifiers of the typed dialect that stand before a member on one line with it. -/
def memberModifiers : List (String × Option Mark) :=
  [("public", none), ("private", none), ("protected", none), ("override", none),
    ("readonly", none), ("abstract", some .abstract), ("declare", some .declared)]

/-- The modifiers in front of a member, as marks. -/
def modifierMarks : Parser (List Mark) :=
  loop (fun (acc : List Mark) => do
    let c ← cursor
    let n ← next
    let w := wordAt c
    let follows := keyStartsAt n || punctAt n = "*"
    if w = "static" && follows then
      advance
      return .inl (.static :: acc)
    else if w = "accessor" && keyStartsAt n && !n.newline then
      advance
      return .inl (.accessor :: acc)
    else
      match (← setting).dialect.typed, memberModifiers.lookup w with
      | true, some mark =>
        if follows && !n.newline then
          advance
          return .inl (mark.toList ++ acc)
        else return .inr acc
      | _, _ => return .inr acc) []

/-- The marks of a method that its head spells out: `async`, `*`, `get` and `set`. -/
def methodMarks : Parser (List Mark) := do
  let c ← cursor
  let n ← next
  let w := wordAt c
  if w = "async" && !n.newline && (keyStartsAt n || punctAt n = "*") then
    advance
    if ← skip "*" then return [.async, .generator] else return [.async]
  else if punctAt c = "*" then
    advance
    return [.generator]
  else if (w = "get" || w = "set") && keyStartsAt n then
    advance
    return [if w = "get" then .getter else .setter]
  else return []

/-- Getters take no parameter, setters one. -/
def checkAccessor (marks : List Mark) (function : Node) : Parser Unit := do
  let count := ((function.child 1).children.filter fun p => !p.isTypes).length
  if marks.contains .getter && count ≠ 0 then refuse "a getter has no parameters"
  if marks.contains .setter && count ≠ 1 then refuse "a setter has one parameter"

/-- Whether the parameters of a method follow. -/
def atParameters : Parser Bool := do
  let p ← currentPunct
  return p = "(" || ((← setting).dialect.typed && (p = "<" || p = "<<"))

/-- A member of a class; a lone semicolon is none. -/
def classMember : Parser Node := do
  let start ← position
  if ← skip ";" then return .absent
  let decorated ← decorators g
  let c ← cursor
  let n ← next
  if wordAt c = "static" && punctAt n = "\x7b" then
    advance
    expect "\x7b"
    let body ← within (fun s => { s with
        awaitOk := false, yieldOk := false, returnOk := false, allowIn := true })
      (itemsUntil "\x7d" (g .statement))
    finish start .staticBlock body
  else
    let modifiers ← modifierMarks
    let typed := (← setting).dialect.typed
    let indexed ← if typed then atIndexSignature else pure false
    if indexed then
      let t ← indexSignature g
      endStatement
      finish start .indexSignature (Node.withType [] t)
    else
      let methodic ← methodMarks
      let key ← propertyKey g
      let computed := if isComputed key then [Mark.computed] else []
      if typed then
        let _ ← skip "?"
        let c ← cursor
        if !c.newline then let _ ← skip "!"
      let marks := computed ++ modifiers ++ methodic
      if ← atParameters then
        let bodyStart ← position
        let f ← methodRest g bodyStart (methodic.contains .async) (methodic.contains .generator)
        checkAccessor methodic f
        finish start .classMethod (key :: f :: decorated) "" marks
      else if methodic ≠ [] then refuse "expected parameters"
      else
        let t ← if typed then annotation? g else pure untyped
        let value ←
          if ← skip "=" then
            within (fun s => { s with awaitOk := false, yieldOk := false, allowIn := true })
              (g .assignment)
          else pure .absent
        endStatement
        finish start .field (Node.withType (key :: value :: decorated) t) "" marks

/-- A clause after the name of a class, if there is one: what is known of the superclass and of the
types. -/
def heritageStep (found : Node × Node) : Parser ((Node × Node) ⊕ (Node × Node)) := do
  let (superclass, types) := found
  if (← atWord "extends") && superclass.isAbsent then
    advance
    let e ← g .leftHand
    let t ← if (← setting).dialect.typed then typeArguments? g else pure untyped
    return .inl (e, .ofTypes [types, t])
  else if (← setting).dialect.typed && (← atWord "implements") then
    advance
    let ts ← separated "," (type g)
    return .inl (superclass, .ofTypes (types :: ts))
  else return .inr (superclass, types)

/-- The clauses after the name of a class: its superclass, and what is left of the types. -/
def heritage : Parser (Node × Node) := loop (heritageStep g) (.absent, untyped)

/-- A class from its word on. -/
def classRest (start : Nat) (kind : Kind) (decorated : List Node) (marks : List Mark) :
    Parser Node := do
  expectWord "class"
  let c ← cursor
  let named ← atVariable
  let name ← if named && wordAt c ≠ "implements" then variable_ .binding else pure .absent
  let ps ← if (← setting).dialect.typed then typeParameters? g else pure untyped
  let (superclass, types) ← heritage g
  let bodyStart ← position
  expect "\x7b"
  let members ← itemsUntil "\x7d" (classMember g)
  let body ← finish bodyStart .classBody (members.filter fun m => !m.isAbsent)
  let parts := Node.withType (name :: superclass :: body :: decorated) (.ofTypes [ps, types])
  finish start kind parts "" marks

end ScriptLoader.Syntax.Grammar
