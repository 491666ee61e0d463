import ScriptLoader.Compile.Basic
import ScriptLoader.Compile.Splice
import ScriptLoader.Syntax.Reader
import ScriptLoader.Text.Quoted

/-!
# Module syntax without modules

Linked code has no import declarations. What they bind is read from a scope object in
statements that stand in front of the first line, and the calls that load modules go to the
loader:

* `import d, { a as b } from './m'` leaves nothing but line feeds and puts
  `const { default: d, a: b } = scope["/m"];` in front;
* `export { a as b } from './m'` becomes `export { temporary as b };`;
* `import(x)` becomes a call of the loader with `x` and the location of the module.

In a typed dialect an imported name is kept only if a value of that name is used, or if elements
of markup are made with it. A declaration without a kept name is no dependency.

A call inside of the options of another one is inside of what the outer call's edit removes, and
has edits of its own. Such edits cannot be applied, and the compiler breaks down.

* `Linked.plan`: what is put in front, the edits, and the dependencies.
* `Linked.ofSource`: the linked text.
-/

namespace ScriptLoader.Compile

open Syntax

/-- A module whose imports are read from a scope. -/
structure Linked where
  code : String
  report : Report
  deriving DecidableEq

namespace Linked

/-- The object from which compiled code reads its imports. -/
def scopeObject : String := "__tsb_modules"

/-- The function that compiled code calls to load a module. -/
def loadFunction : String := "__tsb_import_dynamic"

/-- The variable that holds a re-exported value. -/
def temporary (n : Nat) : String := s!"__tsb_reexport_{n}"

/-! ## Names and keys -/

/-- Whether a text can stand as a key without quotes. -/
def isIdentifier (name : String) : Bool :=
  match name.toList with
  | [] => false
  | c :: cs => (c = '_' || c = '$' || Text.isAlphabetic c) &&
      cs.all fun c => c = '_' || c = '$' || Text.isAlphanumeric c

/-- A key of a pattern, or a name after `as`. -/
def key (name : String) : String := if isIdentifier name then name else Text.jsonQuoted name

/-- The entry of the scope object for a module. -/
def scopeEntry (dep : Specifier) : String := s!"{scopeObject}[{Text.jsonQuoted dep.text}]"

/-! ## What stands in front -/

/-- One name of a binding pattern. -/
inductive Field where
  | same (name : String)
  | renamed (property name : String)
  deriving DecidableEq

/-- A statement in front of the code: the whole scope entry of a module under one name, or some of
its exports. -/
inductive Hoist where
  | whole (name : String) (dep : Specifier)
  | fields (names : List Field) (dep : Specifier)
  deriving DecidableEq

def Field.text : Field → String
  | .same name => name
  | .renamed property name => s!"{key property}: {name}"

/-- Items with commas between them. -/
def commas (items : List String) : String := ", ".intercalate items

def Hoist.text : Hoist → String
  | .whole name dep => s!"const {name} = {scopeEntry dep};"
  | .fields names dep =>
    "const \x7b " ++ commas (names.map Field.text) ++ s!" \x7d = {scopeEntry dep};"

/-- The statements in front, on one line. -/
def preface (hoists : List Hoist) : List Char :=
  match hoists with
  | [] => []
  | _ => (" ".intercalate (hoists.map Hoist.text) ++ " ").toList

/-! ## Import declarations -/

/-- What the names of an import declaration leave. -/
structure Kept where
  whole : Option String := none
  fields : List Field := []

/-- Whether any name is left. -/
def Kept.isEmpty (k : Kept) : Bool := k.whole.isNone && k.fields.isEmpty

/-- The names of an import declaration that are kept; `retained` tells which bindings are. -/
def keep (retained : Node → Bool) (k : Kept) : Node → Kept
  | .mk .importDefault _ _ _ [b] =>
    if retained b then { k with fields := k.fields ++ [.renamed "default" b.text] } else k
  | .mk .importNamespace _ _ _ [b] =>
    if retained b then { k with whole := some b.text } else k
  | .mk .importName marks _ _ [imported, b] =>
    if marks.contains .typeOnly || !(retained b) then k
    else
      let field :=
        if imported.text = b.text then Field.same b.text else .renamed imported.text b.text
      { k with fields := k.fields ++ [field] }
  | _ => k

/-- The statements in front for the names that are kept. -/
def Kept.hoists (k : Kept) (dep : Specifier) : List Hoist :=
  (match k.whole with | some name => [.whole name dep] | none => []) ++
    (if k.fields.isEmpty then [] else [.fields k.fields dep])

/-! ## The plan -/

/-- What is known while the statements are gone through. -/
structure Plan where
  hoists : List Hoist := []
  edits : List Edit := []
  report : Report := {}
  /-- The number of temporaries so far. -/
  temporaries : Nat := 0

/-- The specifier of an import inside the module at a location. -/
def dependency (raw location : String) : Except Failure Specifier :=
  match Specifier.resolve raw location with
  | .ok s => .ok s
  | .error e => .error { message := s!"invalid module specifier '{raw}': {e.message}" }

/-- The characters of a span. -/
def slice (source : List Char) (s : Span) : List Char :=
  (source.drop s.start).take (s.stop - s.start)

/-- Replaces a span by its line feeds. -/
def blank (source : List Char) (s : Span) : Edit :=
  ⟨s, List.replicate (lineFeeds (slice source s)) '\n'⟩

namespace Plan

def withEdit (p : Plan) (e : Edit) : Plan := { p with edits := p.edits ++ [e] }

def withHoists (p : Plan) (hs : List Hoist) : Plan := { p with hoists := p.hoists ++ hs }

def withStatic (p : Plan) (dep : Specifier) : Plan := { p with report := p.report.pushStatic dep }

end Plan

/-- The exported names of a list with a source, and the temporaries that hold them. -/
def reexports (first : Nat) (items : List Node) : List (Field × String) :=
  let values := items.filter fun i => !(i.has .typeOnly)
  values.zipIdx.map fun (i, n) =>
    let name := temporary (first + n)
    (.renamed (i.child 0).text name, s!"{name} as {key (i.child 1).text}")

/-- The export list of temporaries. -/
def localExports (items : List String) : List Char :=
  ("export \x7b " ++ commas items ++ " \x7d;").toList

/-- One statement at the top. -/
def declaration (source : List Char) (location : String) (retained : Node → Bool) (p : Plan) :
    Node → Except Failure Plan
  | .mk .importDecl marks _ span [raw, names, _] =>
    if marks.contains .typeOnly then .ok (p.withEdit (blank source span))
    else if names.isAbsent then
      match dependency raw.text location with
      | .error e => .error e
      | .ok dep => .ok ((p.withStatic dep).withEdit (blank source span))
    else
      let kept := names.children.foldl (keep retained) {}
      if kept.isEmpty && !names.children.isEmpty then .ok (p.withEdit (blank source span))
      else
        match dependency raw.text location with
        | .error e => .error e
        | .ok dep =>
          .ok (((p.withStatic dep).withHoists (kept.hoists dep)).withEdit (blank source span))
  | .mk .exportNames marks _ span [names, raw, _] =>
    if raw.isAbsent then .ok p
    else if marks.contains .typeOnly then .ok (p.withEdit (blank source span))
    else
      match dependency raw.text location with
      | .error e => .error e
      | .ok dep =>
        let items := reexports p.temporaries names.children
        let fields := items.map (·.1)
        let p := (p.withStatic dep).withHoists
          (if fields.isEmpty then [] else [.fields fields dep])
        .ok { p.withEdit ⟨span, localExports (items.map (·.2))⟩ with
          temporaries := p.temporaries + items.length }
  | .mk .exportAll marks _ span [raw, exported, _] =>
    if marks.contains .typeOnly then .ok (p.withEdit (blank source span))
    else if exported.isAbsent then
      .error { message := s!"'export * from \"{raw.text}\"' is not supported in {location}; " ++
        "re-export names explicitly" }
    else
      match dependency raw.text location with
      | .error e => .error e
      | .ok dep =>
        let name := temporary p.temporaries
        let p := (p.withStatic dep).withHoists [.whole name dep]
        .ok { p.withEdit ⟨span, localExports [s!"{name} as {key exported.text}"]⟩ with
          temporaries := p.temporaries + 1 }
  | _ => .ok p

/-- The statements at the top, one after the other. -/
def declarations (source : List Char) (location : String) (retained : Node → Bool) :
    Plan → List Node → Except Failure Plan
  | p, [] => .ok p
  | p, n :: ns =>
    match declaration source location retained p n with
    | .error e => .error e
    | .ok p => declarations source location retained p ns

/-! ## Calls that load modules -/

/-- A call that loads a module: its span, the span of its argument, and the argument's text if it
is a string. -/
structure Site where
  span : Span
  argument : Span
  literal : Option String
  deriving DecidableEq, Repr

mutual

/-- The calls in a tree, outer ones first. -/
def sites : Node → List Site
  | .mk .importCall _ _ span (argument :: options) =>
    ⟨span, argument.span, if argument.is .stringLit then some argument.text else none⟩ ::
      (sites argument ++ sitesAll options)
  | .mk _ _ _ _ cs => sitesAll cs

def sitesAll : List Node → List Site
  | [] => []
  | c :: cs => sites c ++ sitesAll cs

end

/-- The two edits of a call: what stands before its argument and what stands behind it. -/
def siteEdits (location : String) (s : Site) : List Edit :=
  [⟨⟨s.span.start, s.argument.start⟩, (loadFunction ++ "(").toList⟩,
    ⟨⟨s.argument.stop, s.span.stop⟩, (", " ++ Text.jsonQuoted location ++ ")").toList⟩]

/-- Adds a call to the plan. -/
def addSite (location : String) (p : Plan) (s : Site) : Except Failure Plan :=
  let edited : Plan := { p with edits := p.edits ++ siteEdits location s }
  match s.literal with
  | none => .ok edited
  | some raw =>
    match dependency raw location with
    | .error e => .error e
    | .ok dep => .ok { edited with report := p.report.pushDynamic dep }

def addSites (location : String) : Plan → List Site → Except Failure Plan
  | p, [] => .ok p
  | p, s :: ss =>
    match addSite location p s with
    | .error e => .error e
    | .ok p => addSites location p ss

/-- Calls by their place in the source. -/
def sortSites (ss : List Site) : List Site :=
  ss.mergeSort fun a b => decide (a.span.start ≤ b.span.start)

/-! ## The whole module -/

/-- Whether a statement makes its source a module. -/
def isModuleSyntax (n : Node) : Bool :=
  match n.kind with
  | .importDecl | .exportDecl | .exportNames | .exportAll | .exportDefault | .exportEquals
  | .exportAsNamespace => true
  | _ => false

/-- The variables with which elements of markup are made. -/
def markupRoots (dialect : Dialect) (options : Options) : List String :=
  if dialect.markup then
    [options.pragma, options.fragment].map fun p => String.ofList (p.toList.takeWhile (· ≠ '.'))
  else []

/-- Whether an imported name is kept: in a dialect with types only if elements of markup are made
with it, or something at run time needs the variable that it declares. -/
def retains (R : Reader) (dialect : Dialect) (program : Program) (options : Options) (b : Node) :
    Bool :=
  !dialect.typed || (markupRoots dialect options).contains b.text ||
    match R.references program b with
    | none => true
    | some rs => rs.any Reference.isUse

/-- What is put in front of a program, its edits and its dependencies. -/
def plan (R : Reader) (dialect : Dialect) (program : Program) (source : List Char)
    (location : String) (options : Options) : Except Failure Plan :=
  let start : Plan := { report := { isModule := program.statements.any isModuleSyntax } }
  match declarations source location (retains R dialect program options) start
    program.statements with
  | .error e => .error e
  | .ok p => addSites location p (sortSites (sitesAll program.statements))

/-- The text of a plan, or the gap between two of its edits that is not there. -/
def Plan.apply (p : Plan) (source : List Char) : Except Span (List Char) :=
  (splice source p.edits).map (preface p.hoists ++ ·)

/-- Why there is no linked text. -/
inductive Stop where
  | refused (f : Failure)
  /-- The edits are not disjoint; the compiler does not return. -/
  | breakdown (gap : Span)
  deriving DecidableEq

/-- A source without module syntax, and its dependencies, as a reader reads it. -/
def ofSource (R : Reader) (source location : String) (dialect : Dialect) (options : Options) :
    Except Stop Linked :=
  match R.read dialect source.toList with
  | .error e => .error (.refused (.ofStage "parse" location e.reason))
  | .ok program =>
    match plan R dialect program source.toList location options with
    | .error e => .error (.refused e)
    | .ok p =>
      match p.apply source.toList with
      | .error gap => .error (.breakdown gap)
      | .ok code => .ok ⟨String.ofList code, p.report⟩

/-- What becomes of a request whose text cannot be linked. Where the compiler breaks down, whoever
runs it tells that it did. -/
def Stop.failure (source : String) : Stop → Failure
  | .refused f => f
  | .breakdown gap => { message := "compiler panicked: " ++ gapMessage source.toList gap }

end Linked

end ScriptLoader.Compile
