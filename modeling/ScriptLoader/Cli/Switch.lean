/-!
# Switches and commands

What the command line of the program consists of: commands, some of which have commands of their
own, and the switches that each of them knows. Switches that every command knows may stand before or
behind its name.

* `Switch.long`, `Switch.short?`, `Switch.operand`: how a switch is written.
* `Level.commands`, `Level.switches`: what may stand behind a command.
* `conflicts`: switches that exclude each other.
-/

namespace ScriptLoader.Cli

/-- What a switch takes behind it. -/
inductive Operand where
  | nothing
  | text
  /-- A text that is not empty. -/
  | path
  /-- A number of up to 64 bits. -/
  | count
  deriving DecidableEq, Inhabited

/-- A switch of the command line. -/
inductive Switch where
  | help
  | version
  | verbose
  | quiet
  | plain
  | config
  | root
  | origin
  | markup
  | pragma
  | fragment
  | units
  | uncached
  | refresh
  | json
  | output
  | directory
  deriving DecidableEq, Inhabited

namespace Switch

/-- The name behind two hyphens. -/
def long : Switch → String
  | help => "help"
  | version => "version"
  | verbose => "verbose"
  | quiet => "quiet"
  | plain => "no-color"
  | config => "config"
  | root => "root"
  | origin => "origin"
  | markup => "jsx"
  | pragma => "jsx-pragma"
  | fragment => "jsx-pragma-frag"
  | units => "pool-size"
  | uncached => "no-cache"
  | refresh => "force-refresh"
  | json => "json"
  | output => "out-dir"
  | directory => "dir"

/-- The letter behind one hyphen. -/
def short? : Switch → Option Char
  | help => some 'h'
  | version => some 'V'
  | verbose => some 'v'
  | quiet => some 'q'
  | config => some 'c'
  | root => some 'r'
  | output => some 'o'
  | _ => none

def operand : Switch → Operand
  | config | root | output | directory => .path
  | origin | pragma | fragment => .text
  | units => .count
  | _ => .nothing

/-- What stands for the operand in a description. -/
def placeholder : Switch → String
  | config => "FILE"
  | root => "ROOT"
  | origin => "URL"
  | pragma | fragment => "EXPR"
  | units => "N"
  | output => "OUT_DIR"
  | directory => "DIR"
  | _ => ""

def about : Switch → String
  | help => "Print help"
  | version => "Print version"
  | verbose => "Enable verbose logging (debug level)"
  | quiet => "Suppress all output except errors"
  | plain => "Disable colored output"
  | config => "Configuration file (defaults to tsb.toml in the project root)"
  | root => "Directory that root-relative specifiers are served from [default: .]"
  | origin => "Fetch sources over HTTP relative to this URL instead of --root"
  | markup => "Enable JSX (probes .tsx candidates)"
  | pragma => "JSX element factory"
  | fragment => "JSX fragment factory"
  | units => "Number of compiler workers"
  | uncached => "Disable the persistent compile cache"
  | refresh => "Recompile everything but still write results to the cache"
  | json => "Print the graph as JSON"
  | output => "Output directory [default: dist]"
  | directory => "Cache directory (defaults to the configured one)"

end Switch

/-- Switches that exclude each other. -/
def conflicts : List (Switch × Switch) := [(.quiet, .verbose), (.uncached, .refresh)]

/-- The program or a command of it. -/
inductive Level where
  | program
  | resolve
  | emit
  | cache
  | clear
  | stats
  deriving DecidableEq, Inhabited

namespace Level

/-- The commands that a command has, by name. -/
def commands : Level → List (String × Level)
  | program => [("resolve", resolve), ("emit", emit), ("cache", cache)]
  | cache => [("clear", clear), ("stats", stats)]
  | _ => []

/-- The name of the command that describes others. Every command with commands has it. -/
def helpName : String := "help"

/-- Switches that every command knows. -/
def everywhere : List Switch := [.verbose, .quiet, .plain, .config, .help]

/-- Switches of the commands that compile. -/
def loading : List Switch :=
  [.root, .origin, .markup, .pragma, .fragment, .units, .uncached, .refresh]

/-- The switches that a command knows. -/
def switches : Level → List Switch
  | program => everywhere ++ [.version]
  | resolve => loading ++ .json :: everywhere
  | emit => loading ++ .output :: everywhere
  | cache => everywhere
  | clear | stats => .directory :: everywhere

/-- Whether words behind a command are entries. At least one is needed. -/
def takesEntries : Level → Bool
  | resolve | emit => true
  | _ => false

def about : Level → String
  | program => "Resolve and compile TypeScript module graphs"
  | resolve => "Resolve entries and print their dependency graph"
  | emit => "Compile a graph and write one JavaScript file per module"
  | cache => "Manage the persistent compile cache"
  | clear => "Remove every cached compile"
  | stats => "Show how many compiles are cached"

/-- The words that lead to a command. -/
def words : Level → String
  | program => "tsb"
  | resolve => "tsb resolve"
  | emit => "tsb emit"
  | cache => "tsb cache"
  | clear => "tsb cache clear"
  | stats => "tsb cache stats"

end Level

end ScriptLoader.Cli
