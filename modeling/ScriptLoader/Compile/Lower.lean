import ScriptLoader.Compile.Linked
import ScriptLoader.Compile.Lowering.Directives
import ScriptLoader.Compile.Lowering.Types
import ScriptLoader.Syntax.Printing.Statements
import ScriptLoader.Syntax.Redeclared

/-!
# Lowering a module

A source with types or markup is read, checked for names declared twice, lowered and printed.

* `Lower.program`: a lowered program, if it can be lowered.
* `Lower.run`: the printed text, or the stage that failed.
* `compile`: a source without module syntax, lowered where its dialect asks for it.
-/

namespace ScriptLoader.Compile

open Syntax

namespace Lower

mutual

/-- The names that occur in a tree. -/
def namesIn : Node → List String
  | .mk .reference _ name _ _ => [name]
  | .mk .binding _ name _ _ => [name]
  | .mk _ _ _ _ cs => namesInAll cs

def namesInAll : List Node → List String
  | [] => []
  | c :: cs => namesIn c ++ namesInAll cs

/-- Whether a tree has elements with a tag, or fragments. -/
def hasMarkup (fragment : Bool) : Node → Bool
  | .mk .element _ _ _ (tag :: cs) => tag.isAbsent = fragment || hasMarkupAny fragment cs
  | .mk _ _ _ _ cs => hasMarkupAny fragment cs

def hasMarkupAny (fragment : Bool) : List Node → Bool
  | [] => false
  | c :: cs => hasMarkup fragment c || hasMarkupAny fragment cs

end

/-- The names that a statement at the top declares without a value. -/
def typeNames (n : Node) : List String :=
  let d := if n.is .exportDecl then n.child 0 else n
  match d.kind with
  | .typeAlias | .interface => [d.text]
  | .importDecl =>
    (d.child 1).children.flatMap fun i =>
      if d.has .typeOnly || i.has .typeOnly then
        [(i.child (if i.is .importName then 1 else 0)).text]
      else []
  | _ => if d.has .declared then Scope.blockNames d ++ Scope.varNames d else []

/-- The names that a statement at the top declares with a value. -/
def valueNamesAt (n : Node) : List String :=
  let d := if n.is .exportDecl then n.child 0 else n
  match d.kind with
  | .importDecl =>
    (d.child 1).children.flatMap fun i =>
      if d.has .typeOnly || i.has .typeOnly then []
      else [(i.child (if i.is .importName then 1 else 0)).text]
  | _ => valueNames n ++ if d.has .declared then [] else Scope.varNames n

/-- The rules for a program. -/
def rulesFor (p : Program) (plan : Markup.Plan) : Rules :=
  let used := Scope.freeAll p.statements
  let elements := hasMarkupAny false p.statements
  let fragments := hasMarkupAny true p.statements
  let types := p.statements.flatMap typeNames
  let values := p.statements.flatMap valueNamesAt
  { typed := p.dialect.typed
    makers := plan.makers
    keeps := fun name => plan.keeps elements fragments name || used.contains name
    namesType := fun name => types.contains name && !(values.contains name) }

/-- Whether a statement makes its source a module. -/
def isModuleItem (n : Node) : Bool :=
  match n.kind with
  | .importDecl | .exportDecl | .exportNames | .exportAll | .exportDefault => true
  | _ => false

/-- An empty export list, which keeps a program a module whose imports and exports are all gone. -/
def keepModule (before after : List Node) : List Node :=
  if before.any isModuleItem && !(after.any isModuleItem) then
    after ++ [Build.node .exportNames [Build.node .names [], .absent, .absent]]
  else after

/-- How the markup of a program is made: as the options say unless its comments say otherwise, which
are heeded where the dialect has markup. -/
def planFor (p : Program) (options : Options) : Markup.Plan :=
  .ofComments ⟨options.pragma, options.fragment⟩ (if p.dialect.markup then p.comments else [])

/-- A lowered program, if it can be lowered. A program that only declares leaves nothing. -/
def program (p : Program) (options : Options) : Option Program :=
  let plan := planFor p options
  if !plan.isSound then none
  else if p.dialect.definition then some { p with hashbang := none, tree := p.tree.withChildren [] }
  else
    let start : Progress := { taken := namesIn p.tree }
    let (after, s) := (statements (rulesFor p plan) { top := true } p.statements).run start
    if s.failed then none
    else
      let after := if p.dialect.typed then keepModule p.statements after else after
      some { p with tree := p.tree.withChildren after }

/-- The lowered text of a source. -/
def run (source location : String) (dialect : Dialect) (options : Options) :
    Except Failure String :=
  match Program.read dialect source.toList with
  | .error e => .error (.ofStage "parse" location e.reason)
  | .ok p =>
    if Redeclared.occurs dialect.typed p.tree then
      .error (.ofStage "analyze" location "a name is declared twice")
    else
      match program p.withoutTypes options with
      | none => .error (.ofStage "transform" location "unsupported construct")
      | some p => .ok p.print

end Lower

/-- The generated code of a request, and the dependencies if they became known. -/
def compile : Compiler := fun r =>
  let dialect := Dialect.ofLocation r.location.toList
  match Linked.ofSource .own r.source r.location dialect r.options with
  | .error stop => (.error (stop.failure r.source), none)
  | .ok linked =>
    if Dialect.needsLowering r.location.toList then
      (Lower.run linked.code r.location dialect r.options, some linked.report)
    else (.ok linked.code, some linked.report)

end ScriptLoader.Compile
