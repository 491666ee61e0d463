import ScriptLoader.Graph.Basic
import ScriptLoader.Json.Printer
import ScriptLoader.Module.Registry
import ScriptLoader.Loader.Basic
import ScriptLoader.Pool.Basic
import ScriptLoader.Text.Quoted

/-!
# Descriptions of values for diagnosis

One line of text that shows what a value is made of: the name of its type, and its parts by name in
braces. Two dots stand for parts that are not shown.
-/

namespace ScriptLoader.Described

open Text (debugQuoted)

/-- Parts by name. -/
def record (name : String) (parts : List (String × String)) (closed : Bool) : String :=
  let shown := parts.map (fun (n, v) => s!"{n}: {v}") ++ (if closed then [] else [".."])
  name ++ " \x7b " ++ ", ".intercalate shown ++ " \x7d"

def list (items : List String) : String := "[" ++ ", ".intercalate items ++ "]"

/-- A table from keys to values. -/
def table (items : List (String × String)) : String :=
  "\x7b" ++ ", ".intercalate (items.map fun (k, v) => s!"{k}: {v}") ++ "\x7d"

def optional : Option String → String
  | none => "None"
  | some s => s!"Some({s})"

def specifier (s : Specifier) : String := s!"ModuleSpecifier({debugQuoted s.text})"

def binding {F : Type} : Binding F → String
  | .value v => "Value(" ++ v.debugText ++ ")"
  | .function _ => "Function(..)"
  | .deferred s name => s!"Deferred({debugQuoted s.target.text}, {debugQuoted name})"

/-- A deferred name with the state of its stub. -/
def deferred {F : Type} (r : Registry F) (s : Stub) (name : String) : String :=
  record "DeferredBinding"
    [("target", specifier s.target), ("requester", specifier s.requester),
      ("name", debugQuoted name), ("ready", toString (r.isReady s))] true

def report (r : Compile.Report) : String :=
  record "DependencyReport"
    [("is_module_source", toString r.isModule),
      ("static_deps", list (r.static.map specifier)),
      ("dynamic_deps", list (r.dynamic.map specifier))] true

def compiledRecord (r : CompiledRecord) : String :=
  record "CompiledRecord"
    [("specifier", specifier r.specifier), ("location", debugQuoted r.location),
      ("report", report r.report), ("from_cache", toString r.cached)] false

def loadedModule {F : Type} (m : LoadedModule F) : String :=
  let kind := match m.kind with
    | .module => "Module"
    | .script => "Script"
  let exports := table (m.exports.map fun (n, b) => (debugQuoted n, binding b))
  record "LoadedModule"
    [("specifier", specifier m.specifier), ("kind", kind), ("exports", s!"Exports({exports})"),
      ("code", debugQuoted m.code)] true

def registry {F : Type} (r : Registry F) : String :=
  let slots := r.slots.map fun (n, m) =>
    (specifier n.owner, "OnceLock(" ++ (m.map loadedModule).getD "<uninit>" ++ ")")
  record "ModuleRegistry" [("slots", table slots)] true

/-- What assembles modules, by its registry. -/
def assembler {F : Type} (r : Registry F) : String :=
  record "Assembler" [("registry", registry r)] false

/-- A store of compiles in a database; nothing of it is shown. -/
def databaseStore : String := "RedbCacheStore \x7b .. \x7d"

def entry (e : Cache.Entry) : String :=
  let compiled := record "CachedCompile"
    [("report", report e.report), ("code", debugQuoted e.code)] true
  record "CacheEntry"
    [("checksum", s!"Checksum({debugQuoted e.checksum.hex})"), ("compiled", compiled)] true

/-- A store of compiles. -/
def store : Cache.Store → String
  | .database _ => databaseStore
  | .memory m =>
    let entries := table (m.entries.map fun (s, e) => (debugQuoted (Cache.storageKey s), entry e))
    record "MemoryCacheStore"
      [("entries", record "RwLock" [("data", entries)] true)] true

/-- What a caller of the pool got. -/
def compileOutput (r : Compile.Report) : String :=
  record "CompileOutput" [("report", report r)] false

/-- A pool by the numbers of its units, those that live and those that work, and of waiting jobs. -/
def poolOf (units live busy queued : Nat) : String :=
  let stats := record "PoolStats"
    [("units", toString units), ("live_units", toString live), ("busy_units", toString busy),
      ("queued", toString queued)] true
  record "CompilerPool" [("stats", stats)] true

def pool (p : Pool) : String := poolOf p.size p.live p.busy p.queue.length

/-- A loader with a pool of idle units. -/
def loader {F σ : Type} (units : Nat) (l : Loader F σ) : String :=
  record "ModuleLoader"
    [("pool", poolOf units units 0 0), ("loaded", toString l.registry.size),
      ("cache", optional (l.workshop.cache.map store))] false

def importer (attached : Bool) : String :=
  record "DynamicImporter" [("attached", toString attached)] true

end ScriptLoader.Described
