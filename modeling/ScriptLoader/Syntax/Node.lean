/-!
# Syntax trees

A program is a tree of nodes of one shape: a kind, marks, a text, the span of source characters
it covers, and its children in source order. Walks over a tree (import sites, scopes, spans) are
then one recursion each, and only printing and lowering look at single kinds.

A type leaves the expressions inside of it and nothing else, since what it says does not matter
after reading. They stand behind the other children, and a type without any leaves no node. A child
that may be missing is a node of kind `absent`.

* `Node.withoutTypes`: a tree without what types left.
-/

namespace ScriptLoader.Syntax

/-- The characters from `start` up to, but not including, `stop`. -/
structure Span where
  start : Nat
  stop : Nat
  deriving DecidableEq, Repr, Inhabited

/-- What a node is; the comment names its children. -/
inductive Kind where
  | absent
  -- names
  | reference      -- a variable that is read or written
  | binding        -- a variable that is declared
  | label
  | word           -- a property or export name
  | privateName
  -- literals
  | nullLit | boolLit | numberLit | bigintLit | stringLit | regexLit
  | quasi          -- a piece of template text
  | template       -- quasi, expression, quasi, …
  | taggedTemplate -- tag, template
  -- expressions
  | this | super
  | array          -- items, `elision` and `spread` among them
  | elision
  | spread         -- expression
  | object         -- properties, methods, spreads
  | property       -- key, value
  | method         -- key, function
  | functionExpr   -- name or absent, params, body or absent
  | arrow          -- params, body or expression
  | classExpr      -- name or absent, superclass or absent, classBody, decorators, types
  | unary | update -- operand
  | binary         -- left, right
  | assign         -- target, value
  | conditional    -- test, then, else
  | call | new     -- callee, arguments, type
  | member         -- object, word or privateName
  | index          -- object, expression
  | chain          -- an optional chain as a whole
  | sequence       -- expressions
  | paren          -- expression
  | await          -- expression
  | yield          -- expression or absent
  | importCall     -- argument, options or absent
  | metaProperty
  | typed          -- an expression with a type that says nothing at run time, type
  | types          -- what is left of a type: the expressions inside of it, and other types
  | decorator      -- expression
  -- elements of markup
  | element        -- tag or absent, type, attributes, `children`
  | children       -- the children of an element
  | tagName        -- an intrinsic tag
  | tagMember      -- object, word
  | tagAttribute   -- name, value or absent
  | spreadAttribute -- expression
  | markupText
  | markupExpr     -- expression or absent
  | markupSpread   -- expression
  -- patterns
  | arrayPattern   -- patterns, `elision` and `rest` among them
  | objectPattern  -- properties, `rest`
  | patternProperty -- key, pattern
  | withDefault    -- pattern, expression
  | rest           -- pattern
  | arrayTarget | objectTarget -- like the patterns, on targets of an assignment
  | params         -- parameters, types of the signature
  | param          -- pattern, decorators, type
  -- statements
  | program        -- statements
  | directive
  | block          -- statements
  | empty
  | expression     -- expression
  | ifStmt         -- test, then, else or absent
  | forStmt        -- start, test, step, body; all but the body may be absent
  | forIn | forOf  -- target, expression, body
  | whileStmt      -- test, body
  | doWhile        -- body, test
  | continueStmt | breakStmt -- label or absent
  | returnStmt     -- expression or absent
  | withStmt       -- expression, body
  | switchStmt     -- expression, cases
  | switchCase     -- test or absent, statements
  | labeled        -- label, body
  | throwStmt      -- expression
  | tryStmt        -- block, handler or absent, block or absent
  | handler        -- pattern or absent, block, type
  | debugger
  | variableDecl   -- declarators
  | declarator     -- pattern, expression or absent, type
  | functionDecl | classDecl -- like the expressions
  | classBody      -- members
  | field          -- key, value or absent, decorators, type
  | classMethod    -- key, function, decorators
  | staticBlock    -- statements
  | indexSignature -- type
  -- module declarations
  | importDecl     -- source, `names` or absent, `attributes` or absent
  | names          -- import or export names
  | importDefault | importNamespace -- binding
  | importName     -- imported name, binding
  | exportDecl     -- declaration
  | exportNames    -- `names`, source or absent, `attributes` or absent
  | exportName     -- local name, exported name
  | exportAll      -- source, exported name or absent, `attributes` or absent
  | exportDefault  -- declaration or expression
  | attributes     -- properties
  -- declarations of types and their relatives
  | typeAlias | interface -- types
  | enumDecl       -- binding, members
  | enumMember     -- key, value or absent
  | namespace      -- name, statements or one nested namespace
  | ambientModule  -- a declared module with a quoted name, or the global scope
  | importEquals   -- binding, expression
  | exportEquals   -- expression
  | exportAsNamespace
  deriving DecidableEq, Repr, Inhabited

/-- What else is known of a node. -/
inductive Mark where
  | async | generator | computed | shorthand | static | getter | setter
  | optional       -- a link of an optional chain
  | typeOnly       -- an import or export of types
  | declared       -- a declaration without a value
  | abstract
  | constant       -- a constant enumeration
  | before         -- an update operator in front of its operand
  | concise        -- an arrow function whose body is an expression
  | delegate       -- a `yield` of all values
  | accessor       -- a field with generated accessors
  | promoted       -- a parameter that becomes a field
  | require        -- an import assignment of a required module
  | named          -- a word written as a string
  | pure           -- a call without side effects
  | escaped        -- written with escapes
  | receiver       -- the parameter that only types `this`
  | question       -- an optional parameter or member
  deriving DecidableEq, Repr

/-- A syntax tree. -/
inductive Node where
  | mk (kind : Kind) (marks : List Mark) (text : String) (span : Span) (children : List Node)
  deriving Inhabited

namespace Node

def kind : Node → Kind | mk k _ _ _ _ => k
def marks : Node → List Mark | mk _ m _ _ _ => m
def text : Node → String | mk _ _ t _ _ => t
def span : Node → Span | mk _ _ _ s _ => s
def children : Node → List Node | mk _ _ _ _ c => c

/-- Whether the node carries a mark. -/
def has (n : Node) (m : Mark) : Bool := n.marks.contains m

/-- Whether the node is of a kind. -/
def is (n : Node) (k : Kind) : Bool := n.kind = k

/-- The missing child. -/
def absent : Node := mk .absent [] "" ⟨0, 0⟩ []

def isAbsent (n : Node) : Bool := n.kind = .absent

/-- The child at a place, `absent` past the last. -/
def child (n : Node) (i : Nat) : Node := (n.children[i]?).getD absent

def withMark (m : Mark) : Node → Node
  | mk k ms t s c => mk k (if ms.contains m then ms else m :: ms) t s c

def withoutMark (m : Mark) : Node → Node
  | mk k ms t s c => mk k (ms.filter (· ≠ m)) t s c

def withChildren (cs : List Node) : Node → Node
  | mk k ms t s _ => mk k ms t s cs

def withKind (k : Kind) : Node → Node
  | mk _ ms t s cs => mk k ms t s cs

def withSpan (s : Span) : Node → Node
  | mk k ms t _ cs => mk k ms t s cs

mutual

/-- The number of nodes of a tree. -/
def size : Node → Nat
  | mk _ _ _ _ cs => 1 + sizeAll cs

def sizeAll : List Node → Nat
  | [] => 0
  | c :: cs => size c + sizeAll cs

end

/-! ## What types leave -/

/-- Whether a part of a type has no expression inside of it. -/
def isBareType (n : Node) : Bool :=
  n.children.isEmpty && (n.isAbsent || n.is .binding || n.is .types)

/-- What is left of a type whose parts left these. -/
def ofTypes (parts : List Node) : Node :=
  mk .types [] "" ⟨0, 0⟩ (parts.filter fun n => !n.isBareType)

/-- Children of a node with what a type left behind them. -/
def withType (cs : List Node) (type : Node) : List Node :=
  cs ++ [type].filter fun n => !n.isBareType

/-- Parameters with what the other types of their signature left. -/
def withSignature (types : List Node) : Node → Node
  | mk .params m t s ps => mk .params m t s (ps ++ types.filter fun n => !n.isBareType)
  | n => n

/-- What types left, and the parameter that only types `this`. -/
def isTypes (n : Node) : Bool := n.is .types || n.has .receiver

mutual

/-- The tree without what types left. -/
def withoutTypes : Node → Node
  | mk k ms t s cs => mk k ms t s (withoutTypesAll cs)

def withoutTypesAll : List Node → List Node
  | [] => []
  | c :: cs => if c.isTypes then withoutTypesAll cs else withoutTypes c :: withoutTypesAll cs

end

end Node

end ScriptLoader.Syntax
