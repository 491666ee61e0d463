import ScriptLoader.Assembly
import ScriptLoader.Graph.Closure
import ScriptLoader.Resolution.Run

/-!
# The loader

A loader keeps every module that it has loaded, and every compiled module that a request found but
did not load. A request leaves out what is loaded or compiled under its options when it resolves its
graph, and takes the compiled modules that it depends on statically into the graph again before it
assembles.

* `Loader.skips`: the modules that a request does not resolve.
* `Loader.adopt`: takes compiled modules into a graph.
* `Loader.assemble`, `Loader.retain`: loads an entry, and keeps what is left over.
-/

namespace ScriptLoader

/-- A compiled module that was not loaded. -/
structure Prepared where
  /-- The options it was compiled under. -/
  options : Compile.Options
  record : CompiledRecord

/-- What a loader is told to do. -/
structure LoaderSettings where
  options : Compile.Options := {}
  /-- How many modules a request may discover. -/
  limit : Nat := 10000
  deriving DecidableEq, Inhabited

/-- A loader with functions of type `F` and a host whose state is of type `σ`. -/
structure Loader (F σ : Type) where
  /-- Tells loaders apart. -/
  number : Nat := 0
  settings : LoaderSettings := {}
  workshop : Workshop
  assembly : Assembly F σ
  prepared : Keyed Specifier Prepared := []
  /-- What was logged. -/
  events : List Log.Event := []

namespace Loader

variable {F σ : Type}

def log (l : Loader F σ) (e : Log.Event) : Loader F σ := { l with events := l.events ++ [e] }

/-- All that was logged. -/
def allEvents (l : Loader F σ) : List Log.Event :=
  l.events ++ l.workshop.events ++ l.assembly.events

def registry (l : Loader F σ) : Registry F := l.assembly.registry

/-- The handle through which modules import at run time. -/
def importer (l : Loader F σ) : Importer := ⟨some l.number⟩

/-- The record of a module that was compiled under options and not loaded. -/
def preparedRecord? (l : Loader F σ) (options : Compile.Options) (s : Specifier) :
    Option CompiledRecord :=
  match l.prepared.get? s with
  | some p => if p.options = options then some p.record else none
  | none => none

/-- Whether a request under options does not resolve a module. -/
def skips (l : Loader F σ) (options : Compile.Options) (s : Specifier) : Bool :=
  l.registry.isLoaded s || (l.preparedRecord? options s).isSome

/-- What the log tells of a loader that starts with a pool of some units. -/
def startEvents (units : Nat) (w : Workshop) : List Log.Event :=
  .poolStarted units :: (List.range units).map .unitReady ++ [.loaderReady units w.cache.isSome]

/-! ## Compiled modules -/

/-- The static dependencies of every module that is not loaded and has a record: in a graph, or
else among those prepared under options. -/
def recordTable (l : Loader F σ) (options : Compile.Options) (g : Graph) :
    Keyed Specifier (List Specifier) :=
  let prepared := l.prepared.filterMap fun (_, p) =>
    if p.options = options then some p.record else none
  ((g.records ++ prepared).filter fun r => !l.registry.isLoaded r.specifier).map fun r =>
    (r.specifier, r.report.static)

/-- The prepared modules that an entry depends on statically and that a graph lacks. -/
def missing (l : Loader F σ) (options : Compile.Options) (entry : Specifier) (g : Graph) :
    List CompiledRecord :=
  (Closure.visit (l.recordTable options g) [] [entry]).filterMap fun s =>
    if g.contains s then none else l.preparedRecord? options s

/-- Takes the prepared modules that an entry depends on into a graph. -/
def adopt (l : Loader F σ) (options : Compile.Options) (entry : Specifier) (g : Graph) :
    Graph × Loader F σ :=
  let records := l.missing options entry g
  (records.foldl Graph.insert g,
    { l with events := l.events ++ records.map fun r => .reusing r.specifier })

/-- Keeps a record of a graph unless its module is loaded. -/
def retainRecord (options : Compile.Options) (l : Loader F σ) (r : CompiledRecord) : Loader F σ :=
  { l with prepared :=
      if l.registry.isLoaded r.specifier then l.prepared.erase r.specifier
      else l.prepared.put r.specifier ⟨options, r⟩ }

/-- Keeps the records of a graph whose modules are not loaded. -/
def retain (l : Loader F σ) (options : Compile.Options) (g : Graph) : Loader F σ :=
  g.records.foldl (retainRecord options) l

/-! ## Assembling and failing -/

/-- Loads an entry from a graph. -/
def assemble (l : Loader F σ) (host : Host F σ) (g : Graph) (entry : Specifier) :
    Except LoadError (LoadedModule F) × Loader F σ :=
  let (result, assembly) := l.assembly.load host l.importer g entry
  (result, { l with assembly })

/-- Forgets every stored compile. -/
def discardCache (l : Loader F σ) : Loader F σ := { l with workshop := l.workshop.discardCache }

/-- Resolves the graph of entries; nothing is left out. A failure empties the store of compiles. -/
def resolve (l : Loader F σ) (options : Compile.Options) (entries : List Specifier) :
    Except LoadError Graph × Loader F σ :=
  let (result, workshop) := l.workshop.resolve (fun _ => false) l.settings.limit options entries
  let l := { l with workshop }
  match result with
  | .ok g => (.ok g, l)
  | .error e => (.error e, l.discardCache)

end Loader

end ScriptLoader
