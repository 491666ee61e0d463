import ScriptLoader.Cli.Arguments

/-!
# Invocations

What a command line asks the program to do.

* `Invocation.read`: the invocation of a command line.
-/

namespace ScriptLoader.Cli

/-- How a graph is resolved. -/
structure LoaderArguments where
  /-- The directory that sources are below. -/
  root : String := "."
  origin? : Option String := none
  markup : Bool := false
  pragma? : Option String := none
  fragment? : Option String := none
  units? : Option Nat := none
  uncached : Bool := false
  refresh : Bool := false
  deriving DecidableEq, Inhabited

/-- The directory that modules are written to when none is named. -/
def defaultOutput : String := "dist"

inductive Command where
  | resolve (entries : List String) (loader : LoaderArguments) (json : Bool)
  | emit (entries : List String) (loader : LoaderArguments) (output : String)
  | clear (directory? : Option String)
  | stats (directory? : Option String)
  deriving DecidableEq, Inhabited

structure Invocation where
  verbose : Bool := false
  quiet : Bool := false
  /-- Whether colours are kept away. -/
  plain : Bool := false
  config? : Option String := none
  command : Command
  deriving DecidableEq, Inhabited

namespace Given

/-- The arguments of a command that compiles. -/
def loader (g : Given) : LoaderArguments :=
  { root := (g.operand? .root).getD "."
    origin? := g.operand? .origin
    markup := g.has .markup
    pragma? := g.operand? .pragma
    fragment? := g.operand? .fragment
    units? := (g.operand? .units).bind count?
    uncached := g.has .uncached
    refresh := g.has .refresh }

/-- The command with this behind it. -/
def command? (g : Given) : Level → Option Command
  | .resolve => some (.resolve g.entries g.loader (g.has .json))
  | .emit => some (.emit g.entries g.loader ((g.operand? .output).getD defaultOutput))
  | .clear => some (.clear (g.operand? .directory))
  | .stats => some (.stats (g.operand? .directory))
  | .program | .cache => none

end Given

namespace Invocation

/-- The invocation of commands, the innermost of which is last. A switch that every command knows
counts wherever it stands, and of two operands the inner one. -/
def ofLevels (levels : List (Level × Given)) : Except Refusal Invocation :=
  let anywhere (s : Switch) : Bool := levels.any fun (_, g) => g.has s
  match levels.getLast? with
  | none => .error (.bareCommand .program)
  | some (l, g) =>
    match g.command? l with
    | none => .error (.missingCommand l)
    | some command => .ok
      { verbose := anywhere .verbose
        quiet := anywhere .quiet
        plain := anywhere .plain
        config? := levels.reverse.findSome? fun (_, g) => g.operand? .config
        command }

/-- The invocation of a command line without the name of the program. -/
def read (words : List String) : Except Refusal Invocation := do
  ofLevels (← scan .program {} words)

end Invocation

end ScriptLoader.Cli
