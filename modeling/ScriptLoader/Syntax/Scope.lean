import ScriptLoader.Syntax.Program

/-!
# Scopes

Which variables a tree reads or writes without declaring them. A name inside a type is no such
use, nor is one in an expression there.

* `Scope.free`: the free variables of a tree.
-/

namespace ScriptLoader.Syntax.Scope

open Program (boundNames)

/-! ## What statements declare -/

/-- The name in front of a list of children. -/
def firstName : List Node → List String
  | n :: _ => boundNames n
  | [] => []

/-- The names with values that a statement declares in its own block. -/
def blockNames : Node → List String
  | .mk .variableDecl _ kind _ ds =>
    if kind = "var" then [] else ds.flatMap fun d => boundNames (d.child 0)
  | .mk .functionDecl _ _ _ cs => firstName cs
  | .mk .classDecl _ _ _ cs => firstName cs
  | .mk .enumDecl _ _ _ cs => firstName cs
  | .mk .namespace _ _ _ cs => firstName cs
  | .mk .importEquals _ _ _ cs => firstName cs
  | .mk .exportDecl _ _ _ [d] =>
    match d with
    | .mk .variableDecl _ kind _ ds =>
      if kind = "var" then [] else ds.flatMap fun d => boundNames (d.child 0)
    | .mk .functionDecl _ _ _ cs => firstName cs
    | .mk .classDecl _ _ _ cs => firstName cs
    | .mk .enumDecl _ _ _ cs => firstName cs
    | .mk .namespace _ _ _ cs => firstName cs
    | .mk .importEquals _ _ _ cs => firstName cs
    | _ => []
  | _ => []

mutual

/-- The names of `var` declarations in a tree, those inside functions left out. -/
def varNames : Node → List String
  | .mk .variableDecl _ kind _ ds =>
    if kind = "var" then ds.flatMap fun d => boundNames (d.child 0) else []
  | .mk .functionExpr _ _ _ _ => []
  | .mk .functionDecl _ _ _ _ => []
  | .mk .arrow _ _ _ _ => []
  | .mk .classExpr _ _ _ _ => []
  | .mk .classDecl _ _ _ _ => []
  | .mk .namespace _ _ _ _ => []
  | .mk .expression _ _ _ _ => []
  | .mk _ _ _ _ cs => varNamesAll cs

def varNamesAll : List Node → List String
  | [] => []
  | c :: cs => varNames c ++ varNamesAll cs

end

/-- The names that the statements of a block declare in it. -/
def declaredIn (statements : List Node) : List String := statements.flatMap blockNames

/-- The names that the statements of a function body declare in it. -/
def declaredInBody (statements : List Node) : List String :=
  declaredIn statements ++ varNamesAll statements

/-- The names without those that a scope declares. -/
def without (bound names : List String) : List String := names.filter fun n => !(bound.contains n)

/-! ## Free variables -/

/-- The names declared in the head of a loop. -/
def headNames (head : Node) : List String := blockNames head

/-- The names of the members of an enumeration. -/
def memberNames (members : List Node) : List String := members.map fun m => (m.child 0).text

mutual

/-- The variables that a tree uses and does not declare. The names of a body are not declared for
the defaults of its parameters, and those of the cases of a switch not for what it switches on. -/
def free : Node → List String
  | .mk .reference _ name _ _ => [name]
  | .mk .types _ _ _ _ => []
  | .mk .functionExpr _ _ _ [name, ps, body] =>
    without (boundNames name ++ boundNames ps)
      (free ps ++ without (declaredInBody body.children) (free body))
  | .mk .functionDecl _ _ _ [_, ps, body] =>
    without (boundNames ps) (free ps ++ without (declaredInBody body.children) (free body))
  | .mk .arrow marks _ _ [ps, body] =>
    without (boundNames ps)
      (free ps ++
        without (if marks.contains .concise then [] else declaredInBody body.children) (free body))
  | .mk .classExpr _ _ _ (name :: superclass :: body :: decorators) =>
    without (boundNames name) (free superclass ++ free body) ++ freeAll decorators
  | .mk .classDecl _ _ _ (name :: superclass :: body :: decorators) =>
    without (boundNames name) (free superclass ++ free body) ++ freeAll decorators
  | .mk .block _ _ _ cs => without (declaredIn cs) (freeAll cs)
  | .mk .staticBlock _ _ _ cs => without (declaredInBody cs) (freeAll cs)
  | .mk .switchStmt _ _ _ (on :: cases) =>
    free on ++ without (cases.flatMap fun c => declaredIn (c.children.drop 1)) (freeAll cases)
  | .mk .forStmt _ _ _ cs => without ((cs.head?.map headNames).getD []) (freeAll cs)
  | .mk .forIn _ _ _ cs => without ((cs.head?.map headNames).getD []) (freeAll cs)
  | .mk .forOf _ _ _ cs => without ((cs.head?.map headNames).getD []) (freeAll cs)
  | .mk .handler _ _ _ cs => without (firstName cs) (freeAll cs)
  | .mk .enumDecl _ _ _ cs => without (memberNames (cs.drop 1)) (freeAll cs)
  | .mk .namespace _ _ _ cs => without (declaredInBody (cs.drop 1)) (freeAll cs)
  | .mk .importEquals marks _ _ cs => if marks.contains .typeOnly then [] else freeAll cs
  | .mk .exportNames marks _ _ cs => if marks.contains .typeOnly then [] else freeAll cs
  | .mk .exportName marks _ _ cs => if marks.contains .typeOnly then [] else freeAll cs
  | .mk _ _ _ _ cs => freeAll cs

def freeAll : List Node → List String
  | [] => []
  | c :: cs => free c ++ freeAll cs

end

end ScriptLoader.Syntax.Scope
