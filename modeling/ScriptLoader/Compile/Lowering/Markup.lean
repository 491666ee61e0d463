import ScriptLoader.Syntax.Node
import ScriptLoader.Syntax.Token
import ScriptLoader.Text.Entities

/-!
# Markup as calls

An element is a call of the function that makes elements: with its tag, its attributes as an
object, and its children. A fragment has a tag of its own.

* `Build.node`: nodes that lowering makes. They cover no characters of the source, so no comment
  belongs to them.
* `Markup.text`: what the text between two elements says.
* `Markup.element`: the call for an element whose parts are lowered already.
-/

namespace ScriptLoader.Compile.Build

open Syntax

/-- A span of no characters. -/
def nowhere : Span := ⟨0, 0⟩

def node (kind : Kind) (children : List Node) (text : String := "") (marks : List Mark := []) :
    Node :=
  .mk kind marks text nowhere children

def reference (name : String) : Node := node .reference [] name

def binding (name : String) : Node := node .binding [] name

def word (name : String) : Node := node .word [] name

def string (value : String) : Node := node .stringLit [] value

def member (target : Node) (name : String) : Node := node .member [target, word name]

def index (target key : Node) : Node := node .index [target, key]

def assign (target value : Node) : Node := node .assign [target, value] "="

def either (a b : Node) : Node := node .binary [a, b] "||"

def object (items : List Node) : Node := node .object items

def call (callee : Node) (arguments : List Node) : Node := node .call (callee :: arguments)

def statement (e : Node) : Node := node .expression [e]

/-- A declaration of one variable. -/
def declare (kind name : String) (value : Node) : Node :=
  node .variableDecl [node .declarator [binding name, value]] kind

/-- A function of one parameter. -/
def function (parameter : String) (body : List Node) : Node :=
  node .functionExpr
    [.absent, node .params [node .param [binding parameter]], node .block body]

end ScriptLoader.Compile.Build

namespace ScriptLoader.Compile.Markup

open Syntax

/-- The functions that markup is made with. -/
structure Makers where
  pragma : String
  fragment : String

/-! ## Text -/

/-- A line without the blanks at its end. -/
def trimEnd (cs : List Char) : List Char := (cs.reverse.dropWhile isSpace).reverse

/-- The lines of a text. -/
def linesOf : List Char → List (List Char)
  | [] => [[]]
  | c :: cs =>
    if isLineEnd c then [] :: linesOf cs
    else
      match linesOf cs with
      | [] => [[c]]
      | l :: ls => (c :: l) :: ls

/-- The lines after the first one: blanks in front are dropped, and those behind unless the line is
the last. -/
def laterLines : List (List Char) → List (List Char)
  | [] => []
  | [l] => [l.dropWhile isSpace]
  | l :: ls => trimEnd (l.dropWhile isSpace) :: laterLines ls

/-- Text between elements: lines are trimmed where they meet, empty ones dropped, and one blank
stands between the others. -/
def text (raw : List Char) : List Char :=
  let trimmed :=
    match linesOf raw with
    | [] => []
    | [l] => [l]
    | l :: ls => trimEnd l :: laterLines ls
  let kept := trimmed.filter fun l => !l.isEmpty
  [' '].intercalate (kept.map Text.decodeEntities)

/-! ## Attributes -/

/-- The value of an attribute, `true` if it has none. -/
def attributeValue : Node → Node
  | .mk .absent _ _ _ _ => Build.node .boolLit [] "true"
  | .mk .markupText _ raw span _ =>
    .mk .stringLit [] (String.ofList (Text.decodeEntities raw.toList)) span []
  | .mk .markupExpr _ _ _ [e] => e
  | n => n

/-- The key of an attribute: quoted unless it is a name. -/
def attributeKey (name : String) : Node :=
  if name.toList.any fun c => c = '-' || c = ':' then Build.string name else Build.word name

/-- Whether an object sets its prototype, so that its properties cannot be moved. -/
def setsPrototype (n : Node) : Bool :=
  n.children.any fun p =>
    p.is .property && !(p.has .computed) && (p.child 0).text = "__proto__"

/-- An attribute as properties of the object. -/
def properties : Node → List Node
  | .mk .spreadAttribute _ _ span [e] =>
    if e.is .object && !(setsPrototype e) then e.children
    else [.mk .spread [] "" span [e]]
  | .mk .tagAttribute _ _ span [key, value] =>
    [.mk .property [] "" span [attributeKey key.text, attributeValue value]]
  | _ => []

/-- The argument for the attributes. -/
def attributes (items : List Node) : Node :=
  match items with
  | [] => Build.node .nullLit []
  | [.mk .spreadAttribute _ _ _ [e]] =>
    if e.is .object && setsPrototype e then Build.object (items.flatMap properties) else e
  | _ => Build.object (items.flatMap properties)

/-! ## Elements -/

/-- A child as arguments. -/
def child : Node → List Node
  | .mk .markupText _ raw span _ =>
    let cs := text raw.toList
    if cs.isEmpty then [] else [.mk .stringLit [] (String.ofList cs) span []]
  | .mk .markupExpr _ _ _ [e] => if e.isAbsent then [] else [e]
  | .mk .markupSpread _ _ span [e] => [.mk .spread [] "" span [e]]
  | n => [n]

/-- The tag of an element. -/
def tag (makers : Makers) : Node → Node
  | .mk .absent _ _ _ _ => Build.reference makers.fragment
  | .mk .tagName _ name span _ => .mk .stringLit [] name span []
  | n => n

/-- Whether a tag has a colon in it; no element can be made with such a tag. -/
def isForeign (n : Node) : Bool := n.is .tagName && n.text.toList.contains ':'

/-- The call for an element. -/
def element (makers : Makers) (span : Span) (parts : List Node) : Node :=
  let items := (parts.drop 1).filter fun n => !(n.is .children)
  let children := (parts.filter (·.is .children)).flatMap Node.children
  .mk .call [.pure] "" span
    (Build.reference makers.pragma :: tag makers (parts.head?.getD .absent) ::
      attributes items :: children.flatMap child)

end ScriptLoader.Compile.Markup
