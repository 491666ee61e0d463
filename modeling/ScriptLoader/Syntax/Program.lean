import ScriptLoader.Syntax.Grammar.Markup
import ScriptLoader.Syntax.Grammar.Statements

/-!
# Programs

The grammar put together, and the checks that need the whole tree.

* `Program.read`: the program that a source spells in a dialect, or where it fails to.
* `Program.exportedTwice`: an export name that is given twice.
-/

namespace ScriptLoader.Syntax

/-- The rules of the grammar over the rules of nested phrases. -/
def Grammar.rules (g : Grammar) : Grammar
  | .expression => Grammar.expressionRule g
  | .assignment => Grammar.assignmentRule g
  | .unary => Grammar.unaryRule g
  | .leftHand => Grammar.leftHandRule g
  | .constructed => Grammar.constructedRule g
  | .binding => Grammar.bindingRule g
  | .statement => Grammar.statementRule g
  | .type => Grammar.typeRule g
  | .element => Grammar.elementRule g

/-- The grammar of phrases nested at most `depth` deep. -/
def Grammar.ofDepth : Nat → Grammar
  | 0, _ => Parser.refuse "nested too deeply"
  | depth + 1, t => Grammar.rules (Grammar.ofDepth depth) t

/-- A program as it is read. -/
structure Program where
  dialect : Dialect
  /-- The first line, if it names an interpreter. -/
  hashbang : Option String
  tree : Node
  /-- Comments in front of tokens, in source order. -/
  comments : List Comment

namespace Program

/-- The statements at the top. -/
def statements (p : Program) : List Node := p.tree.children

/-- The program without what types left. -/
def withoutTypes (p : Program) : Program := { p with tree := p.tree.withoutTypes }

/-! ## Checks on the whole tree -/

mutual

/-- Whether an object expression has a default where only a pattern may have one. -/
def strayDefault : Node → Bool
  | .mk .object _ _ _ cs => cs.any isDefaulted || strayDefaults cs
  | .mk _ _ _ _ cs => strayDefaults cs

def strayDefaults : List Node → Bool
  | [] => false
  | c :: cs => strayDefault c || strayDefaults cs

/-- A property whose value is a default. -/
def isDefaulted : Node → Bool
  | .mk .property _ _ _ [_, .mk .withDefault _ _ _ _] => true
  | _ => false

end

mutual

/-- The names that a pattern declares. -/
def boundNames : Node → List String
  | .mk .binding _ name _ _ => [name]
  | .mk .withDefault _ _ _ [p, _] => boundNames p
  | .mk .patternProperty _ _ _ [_, p] => boundNames p
  | .mk .rest _ _ _ ps => boundNamesAll ps
  | .mk .arrayPattern _ _ _ ps => boundNamesAll ps
  | .mk .objectPattern _ _ _ ps => boundNamesAll ps
  | .mk .param _ _ _ (p :: _) => boundNames p
  | .mk .params _ _ _ ps => boundNamesAll ps
  | _ => []

def boundNamesAll : List Node → List String
  | [] => []
  | p :: ps => boundNames p ++ boundNamesAll ps

end

/-- The names that a declaration declares. -/
def declaredNames : Node → List String
  | .mk .variableDecl _ _ _ ds => ds.flatMap fun d => boundNames (d.child 0)
  | .mk .functionDecl _ _ _ (name :: _) => boundNames name
  | .mk .classDecl _ _ _ (name :: _) => boundNames name
  | _ => []

/-- The export names that a statement gives. -/
def exportNames : Node → List String
  | .mk .exportDecl _ _ _ [d] => declaredNames d
  | .mk .exportNames _ _ _ (names :: _) => names.children.map fun i => (i.child 1).text
  | .mk .exportAll _ _ _ (_ :: exported :: _) =>
    if exported.isAbsent then [] else [exported.text]
  | .mk .exportDefault _ _ _ _ => ["default"]
  | _ => []

/-- The first item that occurs again later. -/
def firstRepeated : List String → Option String
  | [] => none
  | a :: as => if as.contains a then some a else firstRepeated as

/-- An export name that is given twice. -/
def exportedTwice (statements : List Node) : Option String :=
  firstRepeated (statements.flatMap exportNames)

/-! ## Reading -/

/-- The setting of the top of a program. -/
def setting (dialect : Dialect) (size : Nat) : Setting where
  dialect := dialect
  size := size
  allowIn := true
  awaitOk := dialect.isModule
  yieldOk := false
  returnOk := false
  ambient := dialect.definition
  conditionalTypes := true
  arrowTypes := true

/-- The line that names an interpreter, and the rest. -/
def splitHashbang (source : List Char) : Option String × List Char :=
  match source with
  | '#' :: '!' :: rest =>
    (some (String.ofList (rest.takeWhile fun c => !isLineEnd c)),
      rest.dropWhile fun c => !isLineEnd c)
  | _ => (none, source)

/-- A bound on the nesting of phrases in a source of a size. -/
def depthFor (size : Nat) : Nat := 4 * size + 16

/-- The program that a source spells. -/
def read (dialect : Dialect) (source : List Char) : Except Fault Program :=
  let size := source.length
  let s := setting dialect size
  let (hashbang, rest) := splitHashbang source
  let start := size - rest.length
  let g := Grammar.ofDepth (depthFor size)
  let first := Parser.cursorAt s true false start start rest []
  match Grammar.statementsUntil g Parser.atEnd s first with
  | .error e => .error e
  | .ok (statements, last) =>
    if strayDefaults statements then .error ⟨0, "a default outside of a pattern"⟩
    else
      match if dialect.typed then none else exportedTwice statements with
      | some name => .error ⟨0, "exported twice: " ++ name⟩
      | none => .ok
        { dialect, hashbang
          tree := .mk .program [] "" ⟨0, size⟩ statements
          comments := last.comments.reverse }

end Program

end ScriptLoader.Syntax
