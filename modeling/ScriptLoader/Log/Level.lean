import ScriptLoader.Text.Case

/-!
# Log levels

How much is logged: nothing, or everything from one severity upwards.

* `Level.parse`: the level that a text names, whatever its case.
-/

namespace ScriptLoader.Log

/-- How much is logged. -/
inductive Level where
  | silent | error | warn | info | debug | trace
  deriving DecidableEq, Inhabited

namespace Level

/-- The name of a level. -/
def name : Level → String
  | silent => "off"
  | error => "error"
  | warn => "warn"
  | info => "info"
  | debug => "debug"
  | trace => "trace"

/-- The level that a text names, or why it names none. -/
def parse (text : String) : Except String Level :=
  let lowered := String.ofList (Text.lower text.toList)
  match lowered with
  | "silent" | "off" => .ok silent
  | "error" => .ok error
  | "warn" | "warning" => .ok warn
  | "info" => .ok info
  | "debug" => .ok debug
  | "trace" => .ok trace
  | other => .error s!"Invalid log level: {other}"

/-- Levels by how much they log. -/
def rank : Level → Nat
  | silent => 0
  | error => 1
  | warn => 2
  | info => 3
  | debug => 4
  | trace => 5

/-- Whether a message of a severity is logged at a level. -/
def admits (level severity : Level) : Bool := severity.rank ≤ level.rank

/-- Reading the name of a level gives the level back. -/
theorem parse_name (l : Level) : parse l.name = .ok l := by
  cases l <;> rfl

end Level

end ScriptLoader.Log
