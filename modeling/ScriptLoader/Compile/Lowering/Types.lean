import ScriptLoader.Compile.Lowering.Constants
import ScriptLoader.Compile.Lowering.Markup
import ScriptLoader.Syntax.Scope

/-!
# Typed programs as plain ones

Declarations of types go, and with them imports and exports that only name types. Enumerations
and namespaces become functions that fill an object, parameters that are fields become
assignments, and markup becomes calls.

* `Lower.statement`, `Lower.tree`: a statement as statements, any other node as a node.
* `Lower.program`: a whole program.
-/

namespace ScriptLoader.Compile.Lower

open Syntax

/-- What does not change while a program is lowered. -/
structure Rules where
  typed : Bool
  makers : Markup.Makers
  /-- Whether an imported variable is kept. -/
  keeps : String → Bool
  /-- Whether a name that is exported means only a type. -/
  namesType : String → Bool

/-- What is known so far. -/
structure Progress where
  /-- The enumerations lowered so far. -/
  enums : List (String × Members) := []
  /-- All names of the program. -/
  taken : List String
  /-- Whether something cannot be lowered. -/
  failed : Bool := false

/-- A step of lowering. -/
abbrev Step := StateM Progress

/-- Where a statement stands. -/
structure Place where
  /-- Whether at the top of the program. -/
  top : Bool := false
  /-- Names that earlier statements of the list declare. -/
  declared : List String := []
  /-- The object that exports of the enclosing namespace go to. -/
  owner : Option String := none

def refuse : Step Unit := modify fun s => { s with failed := true }

/-- A variable that no other name equals: the name behind an underscore, without the underscores
in front and the digits behind, and with a number if that is taken. -/
def fresh (name : String) : Step String := do
  let s ← get
  let core := (name.toList.dropWhile (· = '_')).reverse.dropWhile Text.isAsciiDigit |>.reverse
  let base := String.ofList ('_' :: core)
  let candidates := base :: (List.range (s.taken.length + 1)).map fun n => base ++ toString (n + 2)
  let name := (candidates.find? fun c => !(s.taken.contains c)).getD base
  set { s with taken := name :: s.taken }
  return name

/-! ## Enumerations -/

/-- The name of a member. -/
def memberName (key : Node) : String :=
  match key with
  | .mk .template _ _ _ [q] => q.text
  | k => k.text

/-- A constant as an expression. -/
def constantNode : Constant → Node
  | .text s => Build.string s
  | .number d =>
    let magnitude : Decimal.Double := .ofFloat d.toFloat.abs
    let e :=
      if d.isInfinite then Build.reference "Infinity"
      else if d.isNaN then Build.reference "NaN"
      else Build.node .numberLit [] (String.ofList (numberText magnitude))
    if d.isNegative && magnitude.parts.1 ≠ 0 && !d.isNaN then Build.node .unary [e] "-" else e

mutual

/-- An expression in which the members of an enumeration are read from its object. -/
def qualify (object : String) (names : List String) : Node → Node
  | .mk .reference m name s cs =>
    if names.contains name then Build.member (Build.reference object) name
    else .mk .reference m name s cs
  | .mk k m t s cs => .mk k m t s (qualifyAll object names cs)

def qualifyAll (object : String) (names : List String) : List Node → List Node
  | [] => []
  | c :: cs => qualify object names c :: qualifyAll object names cs

end

/-- The members of an enumeration so far and what the next member without a value gets. -/
structure Counter where
  members : Members
  previous : Option Constant
  last : Option String

/-- The value of a member, and the counter after it. -/
def memberValue (object : String) (enums : List (String × Members)) (c : Counter) (name : String)
    (value : Node) : Node × Counter :=
  if value.isAbsent then
    match c.previous with
    | some (.number d) =>
      let next : Constant := .number (.ofFloat (d.toFloat + 1))
      (constantNode next, ⟨(name, some next) :: c.members, some next, some name⟩)
    | _ =>
      let e := match c.last with
        | some l => Build.node .binary
            [Build.node .numberLit [] "1",
              Build.index (Build.reference object) (Build.string l)] "+"
        | none => Build.node .numberLit [] "0"
      (e, { c with last := some name })
  else
    let known (m : String) : Option Constant := (c.members.lookup m).bind id
    let other (e m : String) : Option Constant :=
      (enums.lookup e).bind fun ms => (ms.lookup m).bind id
    match Constant.evaluate known other value with
    | some k => (constantNode k, ⟨(name, some k) :: c.members, some k, some name⟩)
    | none =>
      let members := (name, none) :: c.members
      (qualify object (members.map (·.1)) value, ⟨members, none, some name⟩)

/-- The statement that enters a member: a number is entered both ways. -/
def memberStatement (object name : String) (span : Span) (value : Node) : Node :=
  let there := Build.assign (Build.index (Build.reference object) (Build.string name)) value
  let e :=
    if value.is .stringLit then there
    else Build.assign (Build.index (Build.reference object) there) (Build.string name)
  .mk .expression [] "" span [e]

/-- The statements for members whose values are lowered. -/
def memberStatements (object : String) (enums : List (String × Members)) :
    Counter → List Node → List Node × Counter
  | c, [] => ([], c)
  | c, m :: ms =>
    let name := memberName (m.child 0)
    let (value, c) := memberValue object enums c name (m.child 1)
    let (rest, c) := memberStatements object enums c ms
    (memberStatement object name m.span value :: rest, c)

/-- Whether making a member may do more than make it. -/
def isEffect (m : Node) : Bool := (m.child 1).is .call || (m.child 1).is .new

/-- An enumeration whose members' values are lowered. -/
def enumeration (place : Place) (exported : Bool) (span : Span) (name : String)
    (members : List Node) : Step Node := do
  let s ← get
  let before := s.enums.lookup name
  let start : Counter := ⟨before.getD [], some (.number (.ofFloat (-1))), none⟩
  let (statements, c) := memberStatements name s.enums start members
  set { s with enums := (name, c.members) :: s.enums }
  let again := before.isSome
  let body := statements ++ [Build.node .returnStmt [Build.reference name]]
  let nested := exported || !place.top
  let argument :=
    if nested && !again then Build.object []
    else Build.either (Build.reference name) (Build.object [])
  let marks := if members.any isEffect then [] else [Mark.pure]
  let call := Build.node .call [Build.function name body, argument] "" marks
  if again then
    return .mk .expression [] "" span [Build.assign (Build.reference name) call]
  else
    let declarator := Build.node .declarator [Build.binding name, call]
    return .mk .variableDecl [] (if nested then "let" else "var") span [declarator]

/-! ## Namespaces -/

/-- The call that fills a namespace. -/
def fill (span : Span) (name object : String) (owner : Option String) (body : List Node) : Node :=
  let own := Build.reference name
  let empty := Build.object []
  let filled :=
    match owner with
    | none => Build.assign own empty
    | some o =>
      let shared := Build.member (Build.reference o) name
      Build.assign own (Build.either shared (Build.assign shared empty))
  let call := Build.call (Build.function object body) [Build.either own filled]
  .mk .expression [] "" span [call]

/-- The statement that exports a variable from a namespace. -/
def exportTo (object name : String) : Node :=
  Build.statement (Build.assign (Build.member (Build.reference object) name) (Build.reference name))

/-- A declaration of variables that a namespace exports. -/
def exportVariables (object : String) (n : Node) : Step (List Node) := do
  if n.text ≠ "const" then refuse
  if n.children.all fun d => (d.child 0).is .binding then
    let declarators := n.children.map fun d =>
      let name := (d.child 0).text
      if (d.child 1).isAbsent then d
      else d.withChildren
        [d.child 0, Build.assign (Build.member (Build.reference object) name) (d.child 1)]
    return [n.withChildren declarators]
  else
    let names := n.children.flatMap fun d => Program.boundNames (d.child 0)
    let assignments := names.map fun name =>
      Build.assign (Build.member (Build.reference object) name) (Build.reference name)
    return [n, Build.statement (Build.node .sequence assignments)]

/-- The names with values that a statement declares at its own level. -/
def valueNames (n : Node) : List String :=
  match n with
  | .mk .exportDecl _ _ _ [d] => if d.has .declared then [] else Scope.blockNames n
  | n => if n.has .declared then [] else Scope.blockNames n

/-! ## Classes -/

/-- Whether a member of a class only says something about types. -/
def isTypeMember (n : Node) : Bool :=
  n.is .indexSignature || n.has .abstract || n.has .declared ||
    (n.is .classMethod && ((n.child 1).child 2).isAbsent)

/-- Whether a statement calls the constructor of the superclass. -/
def callsSuper : Node → Bool
  | .mk .expression _ _ _ [.mk .call _ _ _ (callee :: _)] => callee.is .super
  | _ => false

/-- The assignments for parameters that are fields. -/
def fieldAssignments (ps : Node) : List Node :=
  (ps.children.filter (·.has .promoted)).flatMap fun p =>
    (Program.boundNames p).map fun name =>
      Build.statement (Build.assign (Build.member (Build.node .this []) name)
        (Build.reference name))

/-- Statements put behind the call of the superclass's constructor, or in front. -/
def afterSuper (added statements : List Node) : List Node :=
  let before := statements.takeWhile fun s => !(callsSuper s)
  match statements.drop before.length with
  | [] => added ++ statements
  | s :: rest => before ++ s :: (added ++ rest)

/-- A constructor whose parameters are fields. -/
def constructor_ (n : Node) : Node :=
  match n with
  | .mk .classMethod m t s (key :: .mk .functionExpr fm ft fs [name, ps, body] :: ds) =>
    if key.text = "constructor" && !(m.contains .static) && !(m.contains .computed) then
      let body := body.withChildren (afterSuper (fieldAssignments ps) body.children)
      .mk .classMethod m t s (key :: .mk .functionExpr fm ft fs [name, ps, body] :: ds)
    else n
  | n => n

/-! ## Imports and exports -/

/-- Whether an import declaration's name is kept. -/
def keepsName (rules : Rules) (n : Node) : Bool :=
  !(n.has .typeOnly) && rules.keeps (n.child (if n.is .importName then 1 else 0)).text

/-- An import declaration with the names that are kept, if any are. Without a list of names it is
kept; with an empty list it loads the module and nothing else. -/
def importDecl (rules : Rules) (n : Node) : List Node :=
  if n.has .typeOnly then []
  else
    let names := n.child 1
    if names.isAbsent then [n]
    else if names.children.isEmpty then [n.withChildren [n.child 0, .absent, n.child 2]]
    else
      let kept := names.children.filter (keepsName rules)
      if kept.isEmpty then []
      else [n.withChildren [n.child 0, names.withChildren kept, n.child 2]]

/-- An export list without the names of types. -/
def exportNames (rules : Rules) (n : Node) : List Node :=
  if n.has .typeOnly then []
  else
    let names := n.child 0
    let isLocal := (n.child 1).isAbsent
    let kept := names.children.filter fun i =>
      !(i.has .typeOnly) && !(isLocal && rules.namesType (i.child 0).text)
    if kept.isEmpty && !names.children.isEmpty then []
    else [n.withChildren [names.withChildren kept, n.child 1, n.child 2]]

/-- Whether a declaration says nothing at run time. -/
def isTypeDeclaration (n : Node) : Bool :=
  match n.kind with
  | .typeAlias | .interface | .ambientModule | .exportAsNamespace => true
  | .functionDecl => n.has .declared || (n.child 2).isAbsent
  | _ => n.has .declared

/-! ## The recursion -/

mutual

/-- A node that is no list of statements. -/
def tree (rules : Rules) : Node → Step Node
  | .mk .block m t s cs => return .mk .block m t s (← statements rules {} cs)
  | .mk .staticBlock m t s cs => return .mk .staticBlock m t s (← statements rules {} cs)
  | .mk .switchCase m t s (test :: cs) =>
    return .mk .switchCase m t s ((← tree rules test) :: (← statements rules {} cs))
  | .mk .classBody m t s cs => do
    let members ← trees rules cs
    return .mk .classBody m t s ((members.filter (!isTypeMember ·)).map constructor_)
  | .mk .element _ _ s cs => do
    let parts ← trees rules cs
    if parts.head?.any Markup.isForeign then refuse
    return Markup.element rules.makers s parts
  | .mk .paren m t s [e] => return .mk .paren m t s [← tree rules e]
  | .mk .typed _ _ _ [e] => tree rules e
  | .mk k m t s cs => return .mk k m t s (← trees rules cs)

def trees (rules : Rules) : List Node → Step (List Node)
  | [] => return []
  | c :: cs => return (← tree rules c) :: (← trees rules cs)

/-- The statements that stand for one. -/
def statement (rules : Rules) (place : Place) : Node → Step (List Node)
  | .mk .enumDecl m _ s (name :: members) => do
    if m.contains .declared then return []
    return [← enumeration place false s name.text (← trees rules members)]
  | .mk .namespace m _ s (name :: body) => do
    if m.contains .declared then return []
    let object ← fresh name.text
    let filled ← statements rules { owner := some object } body
    if filled.isEmpty then return []
    let call := fill s name.text object none filled
    if place.declared.contains name.text then return [call]
    return [Build.declare "let" name.text .absent, call]
  | .mk .importEquals m _ s [name, source] => do
    if m.contains .typeOnly || !(rules.keeps name.text) then return []
    return [importAssignment m s name source]
  | .mk .exportEquals _ _ s [e] => do
    let target := Build.member (Build.reference "module") "exports"
    return [.mk .expression [] "" s [Build.assign target (← tree rules e)]]
  | .mk .exportDecl m t s [d] => do
    match d with
    | .mk .enumDecl em _ _ (name :: members) =>
      if em.contains .declared then return []
      let n ← enumeration place true s name.text (← trees rules members)
      match place.owner with
      | some object => return [n, exportTo object name.text]
      | none => return if n.is .variableDecl then [.mk .exportDecl m t s [n]] else [n]
    | .mk .namespace nm _ ns (name :: body) =>
      if nm.contains .declared then return []
      let object ← fresh name.text
      let filled ← statements rules { owner := some object } body
      if filled.isEmpty then return []
      let call := fill ns name.text object place.owner filled
      if place.declared.contains name.text then return [call]
      let declaration := Build.declare "let" name.text .absent
      return [if place.owner.isNone then .mk .exportDecl m t s [declaration] else declaration, call]
    | .mk .importEquals im _ is [name, source] =>
      if im.contains .typeOnly then return []
      let n := importAssignment im is name source
      match place.owner with
      | some object => return [n, exportTo object name.text]
      | none => return [.mk .exportDecl m t s [n]]
    | d =>
      if isTypeDeclaration d then return []
      let lowered ← tree rules d
      match place.owner with
      | none => return [.mk .exportDecl m t s [lowered]]
      | some object =>
        if lowered.is .variableDecl then exportVariables object lowered
        else return [lowered, exportTo object (lowered.child 0).text]
  | .mk .exportDefault m t s [d] => do
    if isTypeDeclaration d || (d.is .reference && rules.namesType d.text) then return []
    return [.mk .exportDefault m t s [← tree rules d]]
  | .mk .importDecl m t s cs =>
    return if rules.typed then importDecl rules (.mk .importDecl m t s cs)
      else [.mk .importDecl m t s cs]
  | .mk .exportNames m t s cs =>
    return if rules.typed then exportNames rules (.mk .exportNames m t s cs)
      else [.mk .exportNames m t s cs]
  | .mk .exportAll m t s cs =>
    return if m.contains .typeOnly then [] else [.mk .exportAll m t s cs]
  | .mk k m t s cs => do
    if isTypeDeclaration (.mk k m t s cs) then return []
    match k with
    | .block => return [.mk .block m t s (← statements rules {} cs)]
    | _ => return [.mk k m t s (← trees rules cs)]
where
  /-- An import assignment as a declaration of a variable. -/
  importAssignment (m : List Mark) (s : Span) (name source : Node) : Node :=
    let required := m.contains .require
    let value :=
      if required then Build.call (Build.reference "require") [source] else source
    .mk .variableDecl [] (if required then "const" else "var") s
      [Build.node .declarator [name, value]]

def statements (rules : Rules) (place : Place) : List Node → Step (List Node)
  | [] => return []
  | n :: ns => do
    let first ← statement rules place n
    let place := { place with declared := valueNames n ++ place.declared }
    return first ++ (← statements rules place ns)

end

end ScriptLoader.Compile.Lower
