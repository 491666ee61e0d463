import ScriptLoader.Syntax.Scope

/-!
# Names declared twice

A scope may declare a name more than once only where the declarations merge: variables of
functions, overloads, enumerations, a namespace and what it extends, an interface and its class.

* `Meaning.clashes`: whether a declaration may not follow another one of its name.
* `Redeclared.occurs`: whether some scope of a tree declares a name twice.
-/

namespace ScriptLoader.Syntax

/-- What a declaration makes of its name. -/
inductive Meaning where
  | varName | letName | functionName | className | importName | typeImportName | enumName
  | constEnumName | namespaceName | aliasName | interfaceName
  deriving DecidableEq

namespace Meaning

/-- Meanings with a value at run time. -/
def isValue : Meaning → Bool
  | varName | letName | functionName | className | enumName | constEnumName | namespaceName => true
  | _ => false

/-- Meanings that name a type. -/
def isType : Meaning → Bool
  | className | enumName | constEnumName | aliasName | interfaceName => true
  | _ => false

/-- The meanings that a declaration of values may be joined to. `merging` tells that functions of
one name may stand side by side. -/
def joins (merging : Bool) : Meaning → List Meaning
  | varName => [varName, functionName]
  | functionName => if merging then [functionName, namespaceName, className] else []
  | className => [functionName, namespaceName, interfaceName]
  | enumName => [enumName, namespaceName]
  | constEnumName => [constEnumName]
  | namespaceName => [functionName, className, enumName, namespaceName]
  | _ => []

/-- Whether the second declaration may not follow the first. -/
def clashes (merging : Bool) (first second : Meaning) : Bool :=
  match second with
  | aliasName => first.isType
  | interfaceName => first.isType && first ≠ interfaceName && first ≠ className
  | typeImportName => first = importName || first = typeImportName
  | importName => first.isValue || first = importName || first = typeImportName
  | _ =>
    first = importName ||
      (first.isValue || (second.isType && first.isType)) && !((joins merging second).contains first)

end Meaning

namespace Redeclared

/-- A name with its meaning. -/
abbrev Entry := String × Meaning

/-- Whether a statement of a namespace has a value at run time. -/
def hasValue (n : Node) : Bool :=
  match n.kind with
  | .typeAlias | .interface => false
  | .exportDecl => !((n.child 0).is .typeAlias || (n.child 0).is .interface)
  | _ => true

def named (m : Meaning) (names : List String) : List Entry := names.map (·, m)

/-- What an import declaration's name declares. -/
def importEntry (typeOnly : Bool) (n : Node) : List Entry :=
  let b := n.child (if n.is .importName then 1 else 0)
  [(b.text, if typeOnly || n.has .typeOnly then .typeImportName else .importName)]

/-- What a declaration declares in the list of statements that it stands in. -/
def declarationEntries (n : Node) : List Entry :=
  match n.kind with
  | .variableDecl =>
    named (if n.text = "var" then .varName else .letName)
      (n.children.flatMap fun d => Program.boundNames (d.child 0))
  | .functionDecl => named .functionName (Program.boundNames (n.child 0))
  | .classDecl => named .className (Program.boundNames (n.child 0))
  | .enumDecl =>
    named (if n.has .constant then .constEnumName else .enumName) (Program.boundNames (n.child 0))
  | .namespace =>
    if (n.children.drop 1).any hasValue then named .namespaceName (Program.boundNames (n.child 0))
    else []
  | .typeAlias => [(n.text, .aliasName)]
  | .interface => [(n.text, .interfaceName)]
  | .importEquals => named .importName (Program.boundNames (n.child 0))
  | .importDecl => (n.child 1).children.flatMap (importEntry (n.has .typeOnly))
  | _ => named .varName (Scope.varNames n)

/-- What a statement declares. -/
def entries (n : Node) : List Entry :=
  match n with
  | .mk .exportDecl _ _ _ [d] => declarationEntries d
  | .mk .exportDefault _ _ _ [d] =>
    match d.kind with
    | .functionDecl | .classDecl | .interface => declarationEntries d
    | _ => []
  | n => declarationEntries n

/-- Whether an entry clashes with an earlier one. -/
def clash (merging : Bool) : List Entry → Bool
  | [] => false
  | (name, m) :: rest =>
    (rest.any fun (other, k) => other = name && m.clashes merging k) || clash merging rest

/-- The names of parameters, which are variables, and whether one of them occurs twice. -/
def parameterEntries (ps : Node) : List Entry := named .varName (Program.boundNames ps)

def repeatsParameter (ps : Node) : Bool := (Program.firstRepeated (Program.boundNames ps)).isSome

/-- The name of a caught value may be declared again as a variable, the names of a pattern not. -/
def caughtEntries (p : Node) : List Entry :=
  named (if p.is .binding then .varName else .letName) (Program.boundNames p)

mutual

/-- Whether some scope of a tree declares a name twice. -/
def occurs (typed : Bool) : Node → Bool
  | .mk .program _ _ _ cs => clash typed (cs.flatMap entries) || occursAll typed cs
  | .mk .functionExpr _ _ _ [_, ps, .mk .block _ _ _ cs] =>
    repeatsParameter ps || clash true (parameterEntries ps ++ cs.flatMap entries) ||
      occurs typed ps || occursAll typed cs
  | .mk .functionDecl _ _ _ [_, ps, .mk .block _ _ _ cs] =>
    repeatsParameter ps || clash true (parameterEntries ps ++ cs.flatMap entries) ||
      occurs typed ps || occursAll typed cs
  | .mk .arrow _ _ _ [ps, .mk .block _ _ _ cs] =>
    repeatsParameter ps || clash true (parameterEntries ps ++ cs.flatMap entries) ||
      occurs typed ps || occursAll typed cs
  | .mk .arrow _ _ _ [ps, e] => repeatsParameter ps || occurs typed ps || occurs typed e
  | .mk .handler _ _ _ (p :: .mk .block _ _ _ cs :: _) =>
    clash typed (caughtEntries p ++ cs.flatMap entries) || occurs typed p || occursAll typed cs
  | .mk .switchStmt _ _ _ cs =>
    clash typed ((cs.drop 1).flatMap fun c => (c.children.drop 1).flatMap entries) ||
      occursAll typed cs
  | .mk .block _ _ _ cs => clash typed (cs.flatMap entries) || occursAll typed cs
  | .mk .staticBlock _ _ _ cs => clash true (cs.flatMap entries) || occursAll typed cs
  | .mk .namespace _ _ _ cs => clash true ((cs.drop 1).flatMap entries) || occursAll typed cs
  | .mk .forStmt _ _ _ cs => clash typed (cs.flatMap entries) || occursAll typed cs
  | .mk .forIn _ _ _ cs => clash typed (cs.flatMap entries) || occursAll typed cs
  | .mk .forOf _ _ _ cs => clash typed (cs.flatMap entries) || occursAll typed cs
  | .mk _ _ _ _ cs => occursAll typed cs

def occursAll (typed : Bool) : List Node → Bool
  | [] => false
  | c :: cs => occurs typed c || occursAll typed cs

end

end Redeclared

end ScriptLoader.Syntax
