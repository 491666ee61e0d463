import ScriptLoader.Cli.Commands
import ScriptLoader.Log.Filter

/-!
# The program

A run of the program from its command line to its exit status.

* `perform`: what an invocation does.
* `run`: what a command line does.
-/

namespace ScriptLoader.Cli

/-- What an invocation came to. -/
structure Outcome where
  failure? : Option Failure
  effects : Effects

/-- What an invocation does on a disk. -/
def perform (around : Surroundings) (d : Disk) (i : Invocation) : Outcome :=
  match (i.command.run around i.config?).run { disk := d } with
  | (.ok (), effects) => ⟨none, effects⟩
  | (.error f, effects) => ⟨some f, effects⟩

/-- The components of the program. -/
def components : List String := ["tsb_core", "tsb_transpile", "tsb_cli"]

/-- The filter that keeps the same of all components. -/
def filterOf (level : Log.Level) : Log.Filter := ⟨components.map fun c => .component c level⟩

/-- The variable with the filter of the log. -/
def filterVariable : String := "RUST_LOG"

/-- The variables that a run depends on. -/
def variableNames : List String :=
  Config.variableNames ++ [filterVariable, "NO_COLOR", "CLICOLOR", "CLICOLOR_FORCE"]

/-- What an invocation keeps of the log. -/
def Invocation.filter (i : Invocation) (environment : List (String × String)) : Log.Filter :=
  if i.verbose then filterOf .debug
  else if i.quiet then filterOf .error
  else ((environment.lookup filterVariable).bind Log.Filter.parse?).getD (filterOf .info)

/-- What is printed on the error output, piece by piece. -/
inductive Piece where
  /-- A line of the log. -/
  | log (line : String)
  | text (text : String)
  deriving DecidableEq, Inhabited

/-- A run of the program. -/
structure Ending where
  status : Nat
  output : String := ""
  errors : List Piece := []
  /-- The paths that were looked at. -/
  asked : List String := []
  disk : Disk

/-- What is printed of a notice. -/
def Notice.piece? (f : Log.Filter) (painted : Bool) : Notice → Option Piece
  | event e => if f.admits e then some (.log e.line) else none
  | message m => some (.text (m.line painted))

/-- What a command line does. Messages are painted if `painted`. -/
def run (around : Surroundings) (painted : Bool) (d : Disk) (words : List String) : Ending :=
  match Invocation.read words with
  | .error r =>
    if r.isAnswer then { status := r.status, output := r.text, disk := d }
    else { status := r.status, errors := [.text r.text], disk := d }
  | .ok i =>
    let outcome := perform around d i
    let pieces := outcome.effects.notices.filterMap
      (Notice.piece? (i.filter around.environment) painted)
    let report := outcome.failure?.toList.map fun f => Piece.text f.printed
    { status := if outcome.failure?.isSome then 1 else 0
      output := outcome.effects.output
      errors := pieces ++ report
      asked := outcome.effects.asked
      disk := outcome.effects.disk }

end ScriptLoader.Cli
