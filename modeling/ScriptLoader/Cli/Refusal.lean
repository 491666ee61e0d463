import ScriptLoader.Cli.Switch

/-!
# Command lines that are not run

A command line that asks for a description is answered with it. Every other command line that is no
invocation of the program is refused with a reason.

* `Refusal.status`: the exit status.
* `Refusal.text`: what is printed.
-/

namespace ScriptLoader.Cli

/-- Why a command line is not run. -/
inductive Refusal where
  /-- A description is asked for. -/
  | help (level : Level)
  | version
  /-- Nothing stands behind a command that needs another one. -/
  | bareCommand (level : Level)
  /-- Only switches stand behind a command that needs another one. -/
  | missingCommand (level : Level)
  | unknownCommand (word : String)
  | unknownSwitch (word : String)
  | missingOperand (switch : Switch)
  | unusableOperand (switch : Switch) (operand : String)
  /-- A switch that takes nothing has an operand. -/
  | surplusOperand (switch : Switch) (operand : String)
  /-- Two switches exclude each other, or one stands there twice. -/
  | conflict (first second : Switch)
  | missingEntry
  deriving DecidableEq, Inhabited

/-! ## Descriptions -/

/-- The text in a field of a width. -/
def padded (width : Nat) (text : String) : String :=
  text ++ String.ofList (List.replicate (width - text.length) ' ')

/-- Lines of two columns. -/
def columns (rows : List (String × String)) : String :=
  let width := rows.foldl (fun n r => max n r.1.length) 0
  String.join (rows.map fun (name, about) => "  " ++ padded width name ++ "  " ++ about ++ "\n")

/-- How a switch is written. -/
def Switch.usage (s : Switch) : String :=
  let letter := match s.short? with
    | some c => "-" ++ String.singleton c ++ ", "
    | none => "    "
  let operand := match s.operand with
    | .nothing => ""
    | _ => " <" ++ s.placeholder ++ ">"
  letter ++ "--" ++ s.long ++ operand

namespace Level

/-- How a command is written. -/
def usage (l : Level) : String :=
  "Usage: " ++ l.words ++ " [OPTIONS]" ++
    (if l.takesEntries then " <ENTRY>..." else if l.commands.isEmpty then "" else " <COMMAND>")

/-- The description of a command. -/
def description (l : Level) : String :=
  let commands := if l.commands.isEmpty then "" else
    "\nCommands:\n" ++ columns (l.commands.map (fun (name, c) => (name, c.about)) ++
      [(helpName, "Print this message or the help of the given subcommand(s)")])
  let entries := if l.takesEntries then
      "\nArguments:\n  <ENTRY>...  Entry specifiers, e.g. /src/main\n"
    else ""
  l.about ++ "\n\n" ++ l.usage ++ "\n" ++ commands ++ entries ++
    "\nOptions:\n" ++ columns (l.switches.map fun s => (s.usage, s.about))

end Level

/-- The version of the program as it tells it. -/
def versionText : String := "tsb 0.1.0\n"

/-! ## Answers -/

namespace Refusal

/-- Whether the command line asks for what it gets. -/
def isAnswer : Refusal → Bool
  | help _ | version => true
  | _ => false

/-- The exit status. -/
def status (r : Refusal) : Nat := if r.isAnswer then 0 else 2

def reason : Refusal → String
  | missingCommand l => s!"'{l.words}' requires a subcommand but one was not provided"
  | unknownCommand w => s!"unrecognized subcommand '{w}'"
  | unknownSwitch w => s!"unexpected argument '{w}' found"
  | missingOperand s => s!"a value is required for '--{s.long}' but none was supplied"
  | unusableOperand s v => s!"invalid value '{v}' for '--{s.long}'"
  | surplusOperand s v => s!"unexpected value '{v}' for '--{s.long}' found; no more were expected"
  | conflict a b =>
    if a = b then s!"the argument '--{a.long}' cannot be used multiple times"
    else s!"the argument '--{a.long}' cannot be used with '--{b.long}'"
  | missingEntry => "the following required arguments were not provided:\n  <ENTRY>..."
  | help _ | version | bareCommand _ => ""

/-- What is printed: an answer to the standard output, everything else to the error output. -/
def text : Refusal → String
  | help l | bareCommand l => l.description
  | version => versionText
  | r => "error: " ++ r.reason ++ "\n\nFor more information, try '--help'.\n"

end Refusal

end ScriptLoader.Cli
