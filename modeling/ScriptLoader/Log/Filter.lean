import ScriptLoader.Log.Event
import ScriptLoader.Text.Classes
import ScriptLoader.Text.Split

/-!
# Filters of the log

A filter is a list of directives that commas stand between. A directive is a level for everything,
or a level for the components whose names begin with a text. Of the directives that a component
falls under the longest name decides, and of two with one name the later.

* `Filter.parse?`: the filter of a text without faults.
* `Filter.parseLenient`: the filter of a text, where directives that cannot be read are left out.
* `Filter.admits`: whether a filter lets an event through.
-/

namespace ScriptLoader.Log

/-- A part of a filter. -/
inductive Directive where
  | everything (level : Level)
  | component (name : String) (level : Level)
  /-- Speaks of circumstances that no event has. -/
  | elsewhere
  deriving DecidableEq, Inhabited

namespace Directive

/-- The levels by name, or by number from nothing to everything. -/
def levels : List (String × Level) :=
  [("off", .silent), ("error", .error), ("warn", .warn), ("info", .info), ("debug", .debug),
    ("trace", .trace), ("0", .silent), ("1", .error), ("2", .warn), ("3", .info), ("4", .debug),
    ("5", .trace)]

/-- The level that a text names, whatever the case of its letters. -/
def level? (text : List Char) : Option Level :=
  levels.lookup (String.ofList (text.map Char.toLower))

/-- Whether a character may begin a name. -/
def beginsName (c : Char) : Bool := c.isAlphanum || c = '-' || c = ':' || c = '_'

/-- The directive that a text is. A name without a level is for all levels. -/
def parse? (text : List Char) : Option Directive :=
  let text := Text.trim text
  match text with
  | [] => none
  | '[' :: rest => if rest.contains ']' then some elsewhere else none
  | c :: _ =>
    if !beginsName c then none
    else if text.contains '[' then if text.contains ']' then some elsewhere else none
    else
      match Text.splitFirst? ['='] text with
      | none =>
        match level? text with
        | some l => some (everything l)
        | none => some (component (String.ofList text) .trace)
      | some (name, []) => some (component (String.ofList name) .trace)
      | some (name, l) => (level? l).map (component (String.ofList name))

end Directive

/-- How much of the log is kept. -/
structure Filter where
  directives : List Directive
  deriving DecidableEq, Inhabited

namespace Filter

/-- The texts between commas, without the empty ones. -/
def parts (text : String) : List (List Char) :=
  (Text.splitOn ',' text.toList).filter fun p => !p.isEmpty

/-- The filter of a text in which every directive can be read. -/
def parse? (text : String) : Option Filter := ((parts text).mapM Directive.parse?).map Filter.mk

/-- The directives of a text that can be read; without one, a level for everything. -/
def parseLenient (level : Level) (text : String) : Filter :=
  match (parts text).filterMap Directive.parse? with
  | [] => ⟨[.everything level]⟩
  | ds => ⟨ds⟩

/-- The better of two directives for a component, the second of which is later. -/
def better (component : String) (best : Option (Nat × Level)) (d : Directive) :
    Option (Nat × Level) :=
  let candidate := match d with
    | .everything l => some (0, l)
    | .component name l =>
      if name.toList.isPrefixOf component.toList then some (name.length + 1, l) else none
    | .elsewhere => none
  match best, candidate with
  | some b, some c => if b.1 ≤ c.1 then some c else some b
  | none, c => c
  | b, none => b

/-- The level for a component. -/
def levelOf (f : Filter) (component : String) : Level :=
  match f.directives.foldl (better component) none with
  | some (_, l) => l
  | none => .silent

/-- Whether an event is kept. -/
def admits (f : Filter) (e : Event) : Bool := (f.levelOf e.component).admits e.severity

/-- The lines of the events that are kept. -/
def lines (f : Filter) (events : List Event) : List String :=
  (events.filter f.admits).map Event.line

/-- The filter of a level, unless a text has directives. -/
def ofLevel (level : Level) (text? : Option String) : Filter := parseLenient level (text?.getD "")

/-- The filter of a text alone: what cannot be read is left out, and without a text everything from
`info` upwards is kept. -/
def ofText (text? : Option String) : Filter :=
  match text? with
  | none => parseLenient .info ""
  | some text => (parse? text).getD (parseLenient .info text)

end Filter

end ScriptLoader.Log
