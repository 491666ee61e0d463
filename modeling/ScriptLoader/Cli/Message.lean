import ScriptLoader.Log.Event

/-!
# Messages

What a command tells on the error output while it runs: messages to the user, and events of the log.
Whether messages and log lines are coloured depends on the environment and on the terminal.

* `useColors`: whether log lines are coloured.
* `paints`: whether messages are coloured.
* `Paint.text`: a text in a colour.
* `Message.line`: the line of a message.
-/

namespace ScriptLoader.Cli

/-! ## Colours -/

/-- Whether log lines are coloured, given the environment and what the terminal can: never with
`NO_COLOR`, else always with `FORCE_COLOR`, else if the terminal can. -/
def useColors (environment : List (String × String)) (terminal : Bool) : Bool :=
  if (environment.lookup "NO_COLOR").isSome then false
  else (environment.lookup "FORCE_COLOR").isSome || terminal

/-- Whether messages are coloured, given the environment and what the terminal can: always with a
`CLICOLOR_FORCE` that is not `0`, else if the terminal can and nothing forbids it. -/
def paints (environment : List (String × String)) (terminal : Bool) : Bool :=
  let forces (variableName : String) : Bool :=
    match environment.lookup variableName with
    | some value => value ≠ "0"
    | none => false
  forces "CLICOLOR_FORCE" ||
    (terminal && (environment.lookup "NO_COLOR").isNone && environment.lookup "CLICOLOR" ≠ some "0")

/-- How a text is painted. -/
inductive Paint where
  | bold (color : Nat)
  | colored (color : Nat)
  | dim
  deriving DecidableEq, Inhabited

namespace Paint

def green : Nat := 32

def yellow : Nat := 33

def blue : Nat := 34

/-- A terminal's command to draw what follows in a way. -/
def command (code : Nat) : String := "\x1b[" ++ toString code ++ "m"

def commands : Paint → String
  | bold color => command color ++ command 1
  | colored color => command color
  | dim => command 2

/-- A text as it is painted, if it is. -/
def text (painted : Bool) (p : Paint) (t : String) : String :=
  if painted then p.commands ++ t ++ command 0 else t

end Paint

/-! ## Messages and notices -/

/-- A message to the user. -/
inductive Message where
  /-- Something is done. A detail that is not empty follows. -/
  | success (text detail : String)
  | info (text : String)
  | warning (text : String)
  deriving DecidableEq, Inhabited

/-- The line of a message. -/
def Message.line (painted : Bool) : Message → String
  | success text detail =>
    let shown := if detail = "" then "" else " " ++ Paint.dim.text painted detail
    (Paint.bold Paint.green).text painted "✓" ++ " " ++ text ++ shown ++ "\n"
  | info text => (Paint.bold Paint.blue).text painted "ℹ" ++ " " ++ text ++ "\n"
  | warning text =>
    (Paint.bold Paint.yellow).text painted "⚠" ++ " " ++
      (Paint.colored Paint.yellow).text painted text ++ "\n"

/-- Something that a command tells while it runs. -/
inductive Notice where
  | event (e : Log.Event)
  | message (m : Message)
  deriving DecidableEq

namespace Notice

def event? : Notice → Option Log.Event
  | event e => some e
  | message _ => none

def message? : Notice → Option Message
  | event _ => none
  | message m => some m

end Notice

end ScriptLoader.Cli
