import ScriptLoader.Cache.Lookup
import ScriptLoader.Fetch
import ScriptLoader.Graph.Basic

/-!
# Making records of modules

The record of a module is made from its source: fetched, and then taken from the store of compiles
or compiled. A fresh compile is stored only once somebody has waited for its code, so that a store
never holds a compile whose generation failed.

* `Workshop.order`: begins to make a record.
* `Workshop.awaitCode`: waits for the code of a graph and stores what is fresh.
-/

namespace ScriptLoader

/-- What records are made with, and what was done. -/
structure Workshop where
  source : Source
  compiler : Compile.Compiler
  cache : Option Cache.Store := none
  /-- Stored compiles are replaced without being used. -/
  refresh : Bool := false
  /-- The locations that were asked for, in order. -/
  requested : List String := []
  /-- The modules that were given to the compiler, in order. -/
  compiled : List Specifier := []
  /-- What was logged. -/
  events : List Log.Event := []

/-- A record that is being made. -/
inductive Order where
  /-- It is there at once, or never will be. -/
  | done (outcome : Except LoadError CompiledRecord)
  /-- It is there, or fails, once the compiler has answered. -/
  | compiling (outcome : Except LoadError CompiledRecord)

namespace Order

/-- What comes of it. -/
def outcome : Order → Except LoadError CompiledRecord
  | done o => o
  | compiling o => o

end Order

namespace Workshop

def log (w : Workshop) (e : Log.Event) : Workshop := { w with events := w.events ++ [e] }

/-- Asks for the source of a module. -/
def fetch (w : Workshop) (s : Specifier) (markup : Bool) :
    Except LoadError Fetch.Found × Workshop :=
  let (fetched, asked) := Fetch.run w.source s markup
  (fetched,
    { w with
      requested := w.requested ++ asked
      events := w.events ++ Fetch.events w.source s markup })

/-- Looks for the compile of a source, unless stored compiles are not to be used. -/
def lookUp (w : Workshop) (s : Specifier) (checksum? : Option Cache.Checksum) :
    Option Cache.Entry × Workshop :=
  match w.cache, checksum?, w.refresh with
  | some store, some checksum, false =>
    let (found, event) := store.lookUp s checksum
    (found, w.log event)
  | _, _, _ => (none, w)

/-- Gives a module to the compiler. -/
def compile (w : Workshop) (request : Compile.Request) (checksum? : Option Cache.Checksum) :
    Except LoadError CompiledRecord × Workshop :=
  let s := request.specifier
  let w := w.log (.submitting s request.location)
  let (code, report?) := w.compiler request
  let event := match code with
    | .ok _ => Log.Event.compiled 0 s
    | .error f => .compileFailed 0 s f.message
  let w := { w with compiled := w.compiled ++ [s] }.log event
  let outcome := code.mapError fun f => LoadError.notCompiled s f.message f.stack
  match report?, outcome with
  | some report, _ => (.ok { specifier := s, location := request.location, report, outcome,
                             checksum? }, w)
  | none, .error e => (.error e, w)
  | none, .ok _ =>
    (.error (.unexpectedMessage 0 "code without a dependency report"), w)

/-- Begins to make the record of a module. -/
def order (w : Workshop) (options : Compile.Options) (s : Specifier) : Order × Workshop :=
  match w.fetch s options.markup with
  | (.error e, w) => (.done (.error e), w)
  | (.ok found, w) =>
    let checksum? := w.cache.map fun _ => Cache.Checksum.compute found.text options
    match w.lookUp s checksum? with
    | (some e, w) =>
      (.done (.ok
        { specifier := s, location := found.location, report := e.report, outcome := .ok e.code,
          awaited := true, cached := true }), w)
    | (none, w) =>
      let (outcome, w) := w.compile ⟨s, found.location, found.text, options⟩ checksum?
      (.compiling outcome, w)

/-! ## Storing -/

/-- Stores the compile of a record that has code. -/
def store (w : Workshop) (r : CompiledRecord) : Workshop :=
  match w.cache, r.checksum?, r.readyCode? with
  | some cache, some checksum, some code =>
    { w with cache := some (cache.put r.specifier ⟨checksum, r.report, code⟩) }
  | _, _, _ => w

/-- Waits for all code of a graph and stores what nobody had waited for before. -/
def awaitCode (w : Workshop) (g : Graph) : (Graph × Except LoadError Unit) × Workshop :=
  let (waited, result) := g.awaitCode
  let newly := (g.records.zip waited.records).filterMap fun (old, new) =>
    if old.awaited then none else some new
  ((waited, result), newly.foldl store w)

/-- Forgets every stored compile. -/
def discardCache (w : Workshop) : Workshop :=
  match w.cache with
  | none => w
  | some store =>
    let (store, event) := store.discard
    { w with cache := some store }.log event

end Workshop

end ScriptLoader
