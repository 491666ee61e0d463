import ScriptLoader.Cli.Session
import ScriptLoader.Emit.OutputPath
import ScriptLoader.Graph.Tree
import ScriptLoader.Json.Printer
import ScriptLoader.Text.Size

/-!
# The commands

* `resolveCommand`: prints a graph.
* `emitCommand`: writes the modules of a graph and a manifest.
* `clearCommand`, `statsCommand`: empty and count a store of compiles.
* `Command.run`: any of them.
-/

namespace ScriptLoader.Cli

open Cli.Action

/-- The entries of a command that compiles. -/
def parseEntries (raws : List String) : Except Failure (List Specifier) :=
  if raws.isEmpty then .error (.argument "at least one entry is required")
  else (raws.mapM Loader.parseEntry).mapError .load

/-- The graph of a command that compiles. -/
def graphOf (around : Surroundings) (named : Option String) (raws : List String)
    (a : LoaderArguments) : Action Graph := do
  let config ← loaderConfig around named a
  let entries ← ofExcept id (parseEntries raws)
  let session ← Session.openWith around config a
  session.resolve entries

/-- Prints a graph, as a tree or as JSON. -/
def resolveCommand (around : Surroundings) (named : Option String) (raws : List String)
    (a : LoaderArguments) (json : Bool) : Action Unit := do
  let g ← graphOf around named raws a
  let cached := (g.records.filter (·.cached)).length
  log [.graphResolved g.size cached]
  if json then print (g.summary.renderPretty 0 ++ "\n")
  else do
    print g.tree
    tell (.success s!"Resolved {g.size} modules" s!"({cached} from cache)")

/-! ## Writing modules -/

/-- Creates a directory and those around it. -/
def createDirectory (path : String) : Action Unit := do
  setDisk (← ofExcept (.write path) ((← look [path]).createDirectories path))

def writeFile (path text : String) : Action Unit := do
  setDisk (← ofExcept (.write path) ((← look [path]).write path text))

/-- The directory of a file in an output directory. -/
def directoryOf (output file : String) : String :=
  let names := FilePath.split (FilePath.joinText output file)
  let outer := (names.dropLast.reverse.dropWhile (· = "")).reverse
  "/".intercalate outer

/-- Writes a module into the output directory and returns the size of its code. -/
def writeModule (output : String) (w : Emit.Written) : Action Nat := do
  let code ← ofExcept .load w.record.outcome
  let path := FilePath.joinText output w.file
  createDirectory (directoryOf output w.file)
  writeFile path code
  log [.moduleWritten w.record.specifier path]
  pure code.utf8ByteSize

/-- Writes the modules of a graph, each to a file of its own, and a manifest. -/
def emitCommand (around : Surroundings) (named : Option String) (raws : List String)
    (a : LoaderArguments) (output : String) : Action Unit := do
  let g ← graphOf around named raws a
  let modules ← ofExcept .collision (Emit.outputs g)
  createDirectory output
  let sizes ← modules.mapM (writeModule output)
  let size := sizes.foldl (· + ·) 0
  writeFile (FilePath.joinText output Emit.manifestName)
    ((Emit.manifest g.entries modules).renderPretty 0)
  tell (.success s!"Wrote {g.size} modules ({Text.sizeText size}) to {output}" "")

/-! ## The store of compiles -/

/-- The directory of the store: the one that is named, or else the configured one. -/
def storeDirectory (around : Surroundings) (named directory? : Option String) : Action String := do
  match directory? with
  | some directory => pure directory
  | none => do
    let layers ← layersOf around (← configFile? named Config.defaultFile)
    let c ← ofExcept .config (Config.ofLayers layers)
    pure c.cache.directory

/-- What a request to the store in a directory comes to, if its file is there. -/
def inStore (directory : String)
    (request : Cache.fileEngine.Handle (Cache.Database.path directory) →
      Cache.Database.Action Cache.fileEngine Nat) : Action (Option Nat) := do
  let file := Cache.Database.path directory
  if (← look [file]).holds file then do
    let result ← Session.onDatabase (do request (← Cache.Database.open directory))
    return some (← ofExcept .cache result)
  else return none

/-- Removes every compile of a store. -/
def clearCommand (around : Surroundings) (named directory? : Option String) : Action Unit := do
  let directory ← storeDirectory around named directory?
  match ← inStore directory Cache.Database.clear with
  | none => tell (.info s!"No compile cache in {directory}")
  | some removed => do
    log [.cacheDirectoryCleared removed directory]
    tell (.success s!"Removed {removed} cached compiles" "")

/-- Tells how many compiles a store has. -/
def statsCommand (around : Surroundings) (named directory? : Option String) : Action Unit := do
  let directory ← storeDirectory around named directory?
  match ← inStore directory Cache.Database.size with
  | none => print s!"no compile cache in {directory}\n"
  | some size => print s!"{size} cached compiles in {directory}\n"

/-- What a command does. -/
def Command.run (around : Surroundings) (named : Option String) : Command → Action Unit
  | resolve entries loader json => resolveCommand around named entries loader json
  | emit entries loader output => emitCommand around named entries loader output
  | clear directory? => clearCommand around named directory?
  | stats directory? => statsCommand around named directory?

end ScriptLoader.Cli
