import ScriptLoader.Cli.Refusal
import ScriptLoader.Text.Split

/-!
# Reading a command line

The words of a command line are read from the left to the right. A word is the operand of the switch
in front of it, a switch, the name of a command, or an entry; behind `--` every word is an entry.
What an operand says is looked at when the next switch or entry comes, and all that belongs to a
command before what belongs to the command around it.

* `Given`: what stands behind a command.
* `scan`: what stands behind each of the commands of a command line.
-/

namespace ScriptLoader.Cli

/-- The largest number that a count may be. -/
def largestCount : Nat := (1 <<< 64) - 1

/-- The count that a text spells. A plus may stand in front. -/
def count? (text : String) : Option Nat :=
  let digits := match text.toList with
    | '+' :: rest => rest
    | cs => cs
  if digits.isEmpty || !digits.all Char.isDigit then none
  else
    let n := digits.foldl (fun n c => 10 * n + (c.toNat - 48)) 0
    if n ≤ largestCount then some n else none

/-- What stands behind a command: switches with their operands, and entries, in order. -/
structure Given where
  switches : List (Switch × String) := []
  entries : List String := []
  deriving DecidableEq, Inhabited

namespace Given

def has (g : Given) (s : Switch) : Bool := g.switches.any (·.1 = s)

def operand? (g : Given) (s : Switch) : Option String := g.switches.lookup s

/-- Takes a switch with its operand, which is empty if the switch takes none. -/
def accept (g : Given) (s : Switch) (operand : String) : Except Refusal Given :=
  if g.has s then .error (.conflict s s)
  else if s.operand = .path ∧ operand = "" then .error (.missingOperand s)
  else if s.operand = .count ∧ (count? operand).isNone then
    .error (.unusableOperand s operand)
  else .ok { g with switches := g.switches ++ [(s, operand)] }

/-- The first two switches that exclude each other. -/
def conflict? (g : Given) : Option (Switch × Switch) :=
  conflicts.find? fun (a, b) => g.has a && g.has b

/-- Whether this may stand behind a command, with another command behind it or without. -/
def check (g : Given) (l : Level) (entered : Bool) : Except Refusal Unit :=
  if !entered && !l.commands.isEmpty then
    .error (if g.switches.isEmpty then .bareCommand l else .missingCommand l)
  else
    match g.conflict? with
    | some (a, b) => .error (.conflict a b)
    | none => if l.takesEntries && g.entries.isEmpty then .error .missingEntry else .ok ()

end Given

/-- How far the words behind a command are read. -/
structure Reading where
  given : Given := {}
  /-- The last switch that takes an operand, and its operand once that was read. -/
  pending : Option (Switch × Option String) := none
  /-- Whether `--` was read. -/
  trailing : Bool := false
  deriving DecidableEq, Inhabited

namespace Reading

/-- Whether the next word is an operand unless it is a switch. -/
def awaits (r : Reading) : Bool :=
  match r.pending with
  | some (_, none) => !r.trailing
  | _ => false

/-- Looks at the pending operand. -/
def settle (r : Reading) : Except Refusal Reading :=
  match r.pending with
  | none => .ok r
  | some (s, none) => .error (.missingOperand s)
  | some (s, some operand) =>
    (r.given.accept s operand).map fun given => { r with given, pending := none }

/-- Reads a switch with its operand. -/
def take (r : Reading) (s : Switch) (operand : String) : Except Refusal Reading := do
  let r ← r.settle
  let given ← r.given.accept s operand
  pure { r with given }

/-- Reads a switch that takes no operand. -/
def mark (l : Level) (r : Reading) (s : Switch) : Except Refusal Reading :=
  match s with
  | .help => r.settle.bind fun _ => .error (.help l)
  | .version => r.settle.bind fun _ => .error .version
  | _ => r.take s ""

/-- Reads a switch whose operand is the next word. -/
def await (r : Reading) (s : Switch) : Except Refusal Reading :=
  r.settle.map fun r => { r with pending := some (s, none) }

/-- The name and the operand of a long switch. -/
def splitLong (body : List Char) : String × Option String :=
  match Text.splitFirst? ['='] body with
  | some (name, operand) => (String.ofList name, some (String.ofList operand))
  | none => (String.ofList body, none)

/-- Reads the text behind two hyphens. -/
def readLong (l : Level) (r : Reading) (body : List Char) : Except Refusal Reading :=
  let (name, operand?) := splitLong body
  match l.switches.find? fun s => s.long = name with
  | none => .error (.unknownSwitch ("--" ++ name))
  | some s =>
    match s.operand, operand? with
    | .nothing, some operand => .error (.surplusOperand s operand)
    | .nothing, none => mark l r s
    | _, some operand => r.take s operand
    | _, none => r.await s

/-- Reads the text behind one hyphen: letters of switches, the last of which may be followed by its
operand. -/
def readShort (l : Level) (r : Reading) : List Char → Except Refusal Reading
  | [] => .ok r
  | c :: rest =>
    match l.switches.find? fun s => s.short? = some c with
    | none => .error (.unknownSwitch ("-" ++ String.singleton c))
    | some s =>
      match s.operand, rest with
      | .nothing, _ => do readShort l (← mark l r s) rest
      | _, [] => r.await s
      | _, '=' :: operand => r.take s (String.ofList operand)
      | _, operand => r.take s (String.ofList operand)

/-- Reads an entry, where there may be one. -/
def readEntry (l : Level) (r : Reading) (word : String) : Except Refusal Reading :=
  if l.takesEntries then
    r.settle.map fun r => { r with given := { r.given with entries := r.given.entries ++ [word] } }
  else if l.commands.isEmpty then .error (.unknownSwitch word)
  else if r.trailing && ((l.commands.lookup word).isSome || word = Level.helpName) then
    .error (.unknownSwitch word)
  else .error (.unknownCommand word)

/-- Reads a word that is not the name of a command. -/
def readWord (l : Level) (r : Reading) (word : String) : Except Refusal Reading :=
  if r.trailing then readEntry l r word
  else
    match word.toList with
    | ['-', '-'] => .ok { r with trailing := true }
    | '-' :: '-' :: body => readLong l r body
    | '-' :: c :: rest => readShort l r (c :: rest)
    | _ =>
      match r.pending with
      | some (s, none) => .ok { r with pending := some (s, some word) }
      | _ => readEntry l r word

end Reading

/-- The answer to words that ask for the description of a command. -/
def helpOf (l : Level) : List String → Refusal
  | [] => .help l
  | word :: rest =>
    match l.commands.lookup word with
    | some c => helpOf c rest
    | none =>
      if word = Level.helpName && !l.commands.isEmpty && rest.isEmpty then .help l
      else .unknownCommand word

/-- What stands behind a command and behind those that it leads to, the outermost first. -/
def scan (l : Level) (r : Reading) : List String → Except Refusal (List (Level × Given))
  | [] => do
    let r ← r.settle
    r.given.check l false
    pure [(l, r.given)]
  | word :: rest =>
    if r.trailing || r.awaits then do scan l (← r.readWord l word) rest
    else
      match l.commands.lookup word with
      | some c => do
        let behind ← scan c {} rest
        let r ← r.settle
        r.given.check l true
        pure ((l, r.given) :: behind)
      | none =>
        if word = Level.helpName && !l.commands.isEmpty then .error (helpOf l rest)
        else do scan l (← r.readWord l word) rest

end ScriptLoader.Cli
