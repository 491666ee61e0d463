import ScriptLoader.Syntax.Grammar.Expressions

/-!
# Elements of markup

Elements and fragments with their attributes and children. The text between two elements is no
sequence of tokens, so the last bracket of an element is left unread: its caller knows whether
tokens or text follow.
-/

namespace ScriptLoader.Syntax.Grammar

open Syntax.Parser

variable (g : Grammar)

/-- A name of markup at the cursor, which may contain hyphens. -/
def markupName : Parser (String × Span) := do
  let c ← cursor
  match c.token with
  | .name w _ =>
    let more := c.rest.takeWhile fun d => isNamePart d || d = '-'
    retoken (.name (w ++ String.ofList more) false) (c.rest.drop more.length)
    let c ← cursor
    advance
    return (w ++ String.ofList more, c.span)
  | _ => refuse "expected a name"

/-- Whether a tag names an element of the page and no variable. -/
def isIntrinsic (name : String) : Bool :=
  name.toList.contains '-' ||
    match name.toList with
    | c :: _ => 'a' ≤ c && c ≤ 'z'
    | [] => true

/-- A tag: an intrinsic name, a variable, a member of one, or a name with a colon. -/
def tag : Parser Node := do
  let start ← position
  let (name, span) ← markupName
  if ← skip ":" then
    let (member, _) ← markupName
    finish start .tagName [] (name ++ ":" ++ member)
  else if ← atPunct "." then
    let root : Node :=
      if name = "this" then .mk .this [] "" span [] else .mk .reference [] name span []
    loop (fun (e : Node) => do
      if ← skip "." then
        let (member, span) ← markupName
        let e ← finish start .tagMember [e, .mk .word [] member span []]
        return .inl e
      else return .inr e) root
  else if name = "this" then return .mk .this [] "" span []
  else if isIntrinsic name then return .mk .tagName [] name span []
  else return .mk .reference [] name span []

/-- Whether two tags are written alike. -/
def sameTag : Node → Node → Bool
  | .mk .tagMember _ _ _ [a, b], .mk .tagMember _ _ _ [c, d] => b.text = d.text && sameTag a c
  | .mk k _ t _ _, .mk l _ u _ _ => k = l && t = u && k ≠ .tagMember

/-- The text of an attribute in quotes, as it stands in the source. -/
def quotedValue : Parser Node := do
  let c ← cursor
  match c.here with
  | q :: cs =>
    if q = '"' || q = '\x27' then
      let text := cs.takeWhile (· ≠ q)
      match cs.dropWhile (· ≠ q) with
      | _ :: rest =>
        retoken .eof rest
        leaf .markupText (String.ofList text)
      | [] => refuse "unterminated attribute"
    else refuse "expected a value"
  | [] => refuse "expected a value"

/-- The value of an attribute, after the equals sign. -/
def attributeValue : Parser Node := do
  let start ← position
  let c ← cursor
  if punctAt c = "\x7b" then
    advance
    if ← atPunct "\x7d" then refuse "expected a value"
    let e ← innerExpression g
    expect "\x7d"
    finish start .markupExpr [e]
  else if punctAt c = "<" then
    let e ← g .element
    advance
    return e
  else quotedValue

/-- An attribute or a spread of attributes. -/
def attribute_ : Parser Node := do
  let start ← position
  if ← skip "\x7b" then
    expect "..."
    let e ← innerExpression g
    expect "\x7d"
    finish start .spreadAttribute [e]
  else
    let (name, span) ← markupName
    let (name, span) ←
      if ← skip ":" then
        let (member, last) ← markupName
        pure (name ++ ":" ++ member, ⟨span.start, last.stop⟩)
      else pure (name, span)
    let key : Node := .mk .word [] name span []
    let value ← if ← skip "=" then attributeValue g else pure .absent
    finish start .tagAttribute [key, value]

/-- Attributes up to the end of an opening tag, which stays unread. -/
def attributes_ : Parser (List Node) :=
  loop (fun (acc : List Node) => do
    let p ← currentPunct
    if p = ">" || p = "/" then return .inr acc.reverse
    let a ← attribute_ g
    return .inl (a :: acc)) []

/-- One token further into text between elements: the cursor is put on the bracket or brace at
which the text ends, and the text is answered. -/
def markupText : Parser Node := fun s c =>
  let start := c.span.stop
  let text := c.rest.takeWhile fun d => d ≠ '\x7b' && d ≠ '<'
  let here := c.rest.dropWhile fun d => d ≠ '\x7b' && d ≠ '<'
  let stop := s.size - here.length
  if text.any fun d => d = '>' || d = '\x7d' then .error ⟨start, "a bracket in text"⟩
  else
    match here with
    | d :: rest =>
      .ok (.mk .markupText [] (String.ofList text) ⟨start, stop⟩ [],
        { c with
          token := .punct (String.singleton d), span := ⟨stop, stop + 1⟩, newline := false,
          here, rest, lastStop := stop, pureMark := false })
    | [] => .error ⟨stop, "unterminated element"⟩

/-- The children of an element whose opening tag ends at the cursor, up to the name in the
closing tag. -/
def markupChildren : Parser (List Node) :=
  loop (fun (acc : List Node) => do
    let text ← markupText
    let acc := if text.text = "" then acc else text :: acc
    let start ← position
    if ← atPunct "\x7b" then
      advance
      if ← atPunct "\x7d" then
        let c ← cursor
        return .inl (.mk .markupExpr [] "" ⟨start, c.span.stop⟩ [.absent] :: acc)
      let spread ← skip "..."
      let e ← innerExpression g
      let c ← cursor
      if punctAt c ≠ "\x7d" then refuse "expected \x7d"
      let kind := if spread then Kind.markupSpread else .markupExpr
      return .inl (.mk kind [] "" ⟨start, c.span.stop⟩ [e] :: acc)
    else
      let n ← next
      if punctAt n = "/" then
        advance
        advance
        return .inr acc.reverse
      else
        let e ← g .element
        return .inl (e :: acc)) []

/-- An element or fragment; its last bracket stays unread. -/
def elementRule : Parser Node := do
  let start ← position
  expect "<"
  if ← atPunct ">" then
    let children ← markupChildren g
    let c ← cursor
    if punctAt c ≠ ">" then refuse "expected a closing tag"
    return .mk .element [] "" ⟨start, c.span.stop⟩
      [.absent, .mk .children [] "" ⟨start, c.span.stop⟩ children]
  else
    let name ← tag
    let t ← if (← setting).dialect.typed then typeArguments? g else pure untyped
    let attributes ← attributes_ g
    let attributes := fun (children : List Node) (stop : Nat) =>
      (Node.withType [] t ++ attributes ++
        [Node.mk .children [] "" ⟨start, stop⟩ children] : List Node)
    if ← skip "/" then
      let c ← cursor
      if punctAt c ≠ ">" then refuse "expected >"
      return .mk .element [] "" ⟨start, c.span.stop⟩ (name :: attributes [] c.span.stop)
    else
      let children ← markupChildren g
      let closing ← tag
      let c ← cursor
      if punctAt c ≠ ">" then refuse "expected >"
      if !(sameTag name closing) then refuse "a closing tag of another element"
      return .mk .element [] "" ⟨start, c.span.stop⟩ (name :: attributes children c.span.stop)

end ScriptLoader.Syntax.Grammar
