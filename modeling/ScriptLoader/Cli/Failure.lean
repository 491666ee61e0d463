import ScriptLoader.Cache.Lookup
import ScriptLoader.Config.Layers
import ScriptLoader.Emit.OutputPath
import ScriptLoader.LoadError

/-!
# Why a command fails

Every cause that can end a command, its wording, and a hint where something can be done. A failed
load is told with the stack of a failed compile behind its message.

* `LoadError.report`, `LoadError.hint?`: what is told about a failed load.
* `Failure.report`, `Failure.hint?`: what the command line tells about a failure.
-/

namespace ScriptLoader

namespace LoadError

/-- The text of the report. -/
def report : LoadError → String
  | notCompiled s reason (some stack) => (notCompiled s reason none).message ++ "\n\n" ++ stack
  | e => e.message

/-- What can be done. -/
def hint? : LoadError → Option String
  | notFetched _ _ =>
    some ("check the import path and that --root points at the directory the page is served from")
  | notConverged _ => some "raise max_resolution_steps in tsb.toml for very large graphs"
  | unavailable _ => some "run with --verbose to see why the compiler workers stopped"
  | _ => none

end LoadError

/-- The text of a collision. -/
def Graph.Collision.message (c : Graph.Collision) : String :=
  s!"'{c.first.text}' and '{c.second.text}' would both be written to {c.pathText}"

namespace Cli

/-- Why a command fails. -/
inductive Failure where
  | load (e : LoadError)
  | config (e : Config.ConfigError)
  | cache (e : Cache.Fault)
  | argument (reason : String)
  | collision (c : Graph.Collision)
  /-- A file or a directory cannot be written. -/
  | write (path : String) (fault : DiskFault)

namespace Failure

/-- The text of the report. -/
def report : Failure → String
  | load e => e.report
  | config e => "Configuration error: " ++ e.message
  | cache e => "Cache error: " ++ e.message
  | argument reason => "Invalid argument: " ++ reason
  | collision c => c.message
  | write path fault => s!"Failed to write {path}: {fault.text}"

/-- What can be done. -/
def hint? : Failure → Option String
  | load e => e.hint?
  | config _ => some "check tsb.toml and TSB_* environment variables"
  | collision _ => some "import each module through one spelling of its path"
  | cache _ | argument _ | write .. => none

/-- The report as it is printed. -/
def printed (f : Failure) : String :=
  let lines := Text.splitText '\n' f.report
  let hint := match f.hint? with
    | some h => "  help: " ++ h ++ "\n"
    | none => ""
  "Error:   × " ++ "\n  │ ".intercalate lines ++ "\n" ++ hint

end Failure

end Cli

end ScriptLoader
