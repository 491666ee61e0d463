import ScriptLoader.Cache.Database
import ScriptLoader.Cli.Failure
import ScriptLoader.Cli.Invocation
import ScriptLoader.Cli.Message
import ScriptLoader.Compile.Lower
import ScriptLoader.Loader.Request
import ScriptLoader.Source.Directory

/-!
# Sessions

What every command that compiles does first: it lays the switches of the command line over the
configuration, opens the store of compiles, and resolves a graph.

* `Effects`: what a command has done so far.
* `Action`: a part of a command.
* `loaderConfig`: the configuration of a command that compiles.
* `Session.openWith`, `Session.resolve`: a session and a graph of it.
-/

namespace ScriptLoader.Cli

/-- What a command finds around it, besides the disk. -/
structure Surroundings where
  environment : List (String × String) := []
  /-- How many processors the machine has. -/
  processors : Nat := 4
  deriving Inhabited

/-- What a command has done so far, and the disk as it is. -/
structure Effects where
  disk : Disk
  /-- The standard output. -/
  output : String := ""
  notices : List Notice := []
  /-- The paths that were looked at, in order. -/
  asked : List String := []

/-- A part of a command. What was done before a failure stays done. -/
abbrev Action := ExceptT Failure (StateM Effects)

namespace Action

def print (text : String) : Action Unit :=
  modify fun x => { x with output := x.output ++ text }

def tell (m : Message) : Action Unit :=
  modify fun x => { x with notices := x.notices ++ [.message m] }

def log (events : List Log.Event) : Action Unit :=
  modify fun x => { x with notices := x.notices ++ events.map .event }

/-- The disk, of which some paths are looked at. -/
def look (paths : List String) : Action Disk := do
  modify fun x => { x with asked := x.asked ++ paths }
  return (← get).disk

def setDisk (d : Disk) : Action Unit := modify fun x => { x with disk := d }

/-- Goes on with a result, or fails for its reason. -/
def ofExcept {ε α : Type} (failure : ε → Failure) (r : Except ε α) : Action α :=
  match r with
  | .ok a => pure a
  | .error e => throw (failure e)

end Action

open Cli.Action

/-! ## Configurations -/

/-- A layer with one setting. -/
def override (keys : List String) (value : Config.Setting) : Config.Layer :=
  ⟨.caller, Config.nested keys value⟩

/-- The layers of the switches, the uppermost first. -/
def LoaderArguments.layers (a : LoaderArguments) : List Config.Layer :=
  (if a.refresh then [override ["cache", "force_refresh"] (.truth true)] else []) ++
  (if a.uncached then [override ["cache", "enabled"] (.truth false)] else []) ++
  (a.units?.toList.map fun n => override ["pool_size"] (.unsigned n)) ++
  (a.fragment?.toList.map fun t => override ["compile", "jsx_pragma_frag"] (.text t)) ++
  (a.pragma?.toList.map fun t => override ["compile", "jsx_pragma"] (.text t)) ++
  (if a.markup then [override ["compile", "jsx"] (.truth true)] else [])

/-- The file that a configuration is read from. -/
def configFile? (named : Option String) (usual : String) : Action (Option String) := do
  return Config.file? (← look [usual]) named usual

/-- The layers of a file and the environment. -/
def layersOf (around : Surroundings) (file : Option String) : Action (List Config.Layer) := do
  let d ← look []
  let d ← look (file.toList.flatMap (Config.candidates d))
  ofExcept .config (Config.layers d file around.environment)

/-- The configuration of a command that compiles. Without a named file the usual one in the root is
read. -/
def loaderConfig (around : Surroundings) (named : Option String) (a : LoaderArguments) :
    Action Config := do
  let file ← configFile? named (FilePath.joinText a.root Config.defaultFile)
  log (file.toList.map .configFile)
  let layers ← layersOf around file
  ofExcept .config (Config.ofLayers (a.layers ++ layers))

/-! ## Sessions -/

/-- A configuration, and what records are made with. -/
structure Session where
  config : Config
  root : DirectorySource
  workshop : Workshop

namespace Session

/-- The number of units of a configuration. -/
def units (around : Surroundings) (c : Config) : Nat :=
  c.units?.getD (max 1 (min 4 around.processors))

/-- The source below the root of the arguments. -/
def sourceOf (d : Disk) (a : LoaderArguments) : Except Failure DirectorySource :=
  if a.origin?.isSome then
    .error (.argument "--origin requires tsb to be built with the \x60http\x60 feature")
  else if d.isDirectory a.root then .ok (.ofText a.root)
  else .error (.argument s!"root '{a.root}' is not a directory")

/-- Works on a database. What it leaves of the disk stays, also if it fails. -/
def onDatabase {α : Type} (a : Cache.Database.Action Cache.fileEngine α) :
    Action (Except Cache.Fault α) := do
  let world : Cache.World (Keyed String (List UInt8)) := ⟨← look [], []⟩
  let (result, world) := a.run.run world
  setDisk world.disk
  return result

/-- Opens the store of compiles. One that cannot be opened only costs time. -/
def openStore (c : Config) : Action (Option Cache.Store) := do
  let _ ← look (if c.cache.enabled then [Cache.Database.path c.cache.directory] else [])
  match ← onDatabase (do (← Cache.Database.ofSettings c.cache).mapM Cache.Database.records) with
  | .ok store => return store.map .database
  | .error e =>
    log [.sessionCacheUnavailable e.message]
    tell (.warning ("Compile cache unavailable: " ++ e.message))
    return none

/-- Opens a session. -/
def openWith (around : Surroundings) (c : Config) (a : LoaderArguments) : Action Session := do
  let root ← ofExcept id (sourceOf (← look [a.root]) a)
  let n := units around c
  log (.poolStarted n :: (List.range n).map .unitReady)
  let cache ← openStore c
  let source := root.source (← look [])
  let refresh := c.refreshes around.environment
  pure ⟨c, root, { source, compiler := Compile.compile, cache, refresh }⟩

/-- Puts the store of compiles back into its database. What cannot be stored only costs time. -/
def saveStore (c : Config) (w : Workshop) : Action Unit := do
  match w.cache with
  | some (.database store) =>
    let result ← onDatabase do
      Cache.Database.replace (← Cache.Database.open c.cache.directory) store
    match result with
    | .ok () => pure ()
    | .error e => log [.cacheUnwritable e.message]
  | _ => pure ()

/-- The graph of entries with the code of all modules, and what it was made with. -/
def graph (s : Session) (entries : List Specifier) : Except LoadError Graph × Workshop :=
  match s.workshop.resolve (fun _ => false) s.config.limit s.config.compile entries with
  | (.error e, w) => (.error e, w)
  | (.ok g, w) =>
    match w.awaitCode g with
    | ((g, .ok ()), w) => (.ok g, w)
    | ((_, .error e), w) => (.error e, w)

/-- The graph of entries with the code of all modules. A failure empties the store of compiles. -/
def resolve (s : Session) (entries : List Specifier) : Action Graph := do
  let (result, w) := s.graph entries
  let w := match result with
    | .ok _ => w
    | .error _ => w.discardCache
  log w.events
  let _ ← look (w.requested.filterMap fun l => (s.root.pathOf l).toOption)
  saveStore s.config w
  ofExcept .load result

end Session

end ScriptLoader.Cli
