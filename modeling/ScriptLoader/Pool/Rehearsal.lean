import ScriptLoader.Json.Fields
import ScriptLoader.Keyed
import ScriptLoader.Pool.Run
import ScriptLoader.Text.Split

/-!
# A pool whose compilers follow scripts

Each submission brings the script that the compiler follows for it. A script can stop at a gate
until the gate is opened. Nothing runs until somebody asks for a result: then every unit is run as
far as it goes.

* `Rehearsal.settle`: runs every unit up to its next gate.
* `Rehearsal.awaitReport`, `Rehearsal.code`: what a caller gets.

As JSON, what a unit of a rehearsal does is an array of objects, whose field `do` names the step,
and how it starts is a text.

* `Rehearsal.unitStart`, `Rehearsal.step`: read them.
-/

namespace ScriptLoader

/-- What a compiler does next. -/
inductive ScriptStep where
  | report (report : Compile.Report)
  /-- Waits until the gate is opened. -/
  | gate
  | finish (ending : RunEnd)

/-- A unit in the middle of a script. -/
structure Running where
  unit : Nat
  reference : Nat
  name : Specifier
  rest : List ScriptStep

/-- How a unit starts: well, or not. -/
abbrev UnitStart := Option String

structure Rehearsal where
  pool : Pool
  /-- Units that have not said yet how they started. -/
  starting : List (Nat × UnitStart) := []
  scripts : Keyed Nat (List ScriptStep) := []
  running : List Running := []
  opened : List Specifier := []
  /-- The number of requests that units have taken. -/
  taken : Nat := 0
  /-- The submissions whose scripts were started, in order. -/
  started : List Specifier := []
  /-- Submissions that are waited for, by number. -/
  outstanding : Keyed Specifier Nat := []
  /-- Submissions whose report came. -/
  awaited : Keyed Specifier (Nat × Compile.Report) := []
  refused : List Specifier := []
  submitted : Nat := 0
  /-- Whether the pool is gone. -/
  dropped : Bool := false

namespace Rehearsal

/-- A pool of a size whose units start as told; those that are not told start well. -/
def create (size : Nat) (starts : List UnitStart) : Except LoadError Rehearsal :=
  (Pool.create size).map fun pool =>
    { pool, starting := (List.range size).map fun u => (u, (starts[u]?).join) }

def startMessage : UnitStart → UnitMessage
  | none => .ready
  | some reason => .initFailed reason

/-- Lets the units say how they started. -/
def start (r : Rehearsal) : Rehearsal :=
  { r with
    pool := r.starting.foldl (fun p (u, s) => p.handle u (startMessage s)) r.pool
    starting := [] }

/-- Lets units take the requests that were sent to them. -/
def take (r : Rehearsal) : Rehearsal :=
  let fresh := r.pool.sent.drop r.taken
  { r with
    taken := r.pool.sent.length
    started := r.started ++ fresh.map (·.job.specifier)
    running := r.running ++ fresh.map fun q =>
      ⟨q.unit, q.reference, q.job.specifier, (r.scripts.get? q.job.number).getD []⟩ }

/-- Runs one script up to its next closed gate: the messages on the way, and what is left. -/
def advance (opened : Bool) (reference : Nat) :
    List ScriptStep → List UnitMessage × Option (List ScriptStep)
  | [] => ([RunEnd.message reference (.code "")], none)
  | .report report :: rest =>
    let (messages, left) := advance opened reference rest
    (.report reference report :: messages, left)
  | .gate :: rest => if opened then advance opened reference rest else ([], some (.gate :: rest))
  | .finish ending :: _ => ([ending.message reference], none)

/-- Runs the units that run, one after the other. -/
def runUnits (opened : List Specifier) : List Running → Pool → Pool × List Running
  | [], p => (p, [])
  | u :: us, p =>
    let (messages, left) := advance (opened.contains u.name) u.reference u.rest
    let p := messages.foldl (fun p m => p.handle u.unit m) p
    let (p, rest) := runUnits opened us p
    match left with
    | some steps => (p, { u with rest := steps } :: rest)
    | none => (p, rest)

/-- Lets units take requests and run, so many times. -/
def settleWithin : Nat → Rehearsal → Rehearsal
  | 0, r => r
  | turns + 1, r =>
    let r := r.take
    let (pool, running) := runUnits r.opened r.running r.pool
    settleWithin turns { r with pool, running }

/-- Runs every unit up to its next gate. Each turn finishes a submission or is the last. -/
def settle (r : Rehearsal) : Rehearsal := settleWithin (r.submitted + 1) r.start

/-- Hands in a submission. One of the same name that is waited for is given up. -/
def submit (r : Rehearsal) (name : Specifier) (script : List ScriptStep) :
    Except LoadError Unit × Rehearsal :=
  let number := r.submitted
  let r := { r with submitted := number + 1, scripts := r.scripts.put number script }
  match r.pool.enqueue ⟨number, name⟩ with
  | (.error e, pool) => (.error e, { r with pool, refused := name :: r.refused })
  | (.ok (), pool) =>
    let pool := match r.outstanding.get? name with
      | some old => pool.abandon old
      | none => pool
    (.ok (), { r with pool, outstanding := r.outstanding.put name number })

/-- Gives up a submission; whether it was waited for. -/
def abandon (r : Rehearsal) (name : Specifier) : Bool × Rehearsal :=
  match r.outstanding.get? name with
  | none => (false, r)
  | some number =>
    (true, { r with pool := r.pool.abandon number, outstanding := r.outstanding.erase name })

/-- Opens the gate of a submission. -/
def release (r : Rehearsal) (name : Specifier) : Rehearsal :=
  { r with opened := name :: r.opened }

def reportOf? (p : Pool) (number : Nat) : Option (Except LoadError Compile.Report) :=
  p.answers.findSome? fun a =>
    match a with
    | .report n result => if n = number then some result else none
    | .code _ _ => none

def codeOf? (p : Pool) (number : Nat) : Option (Except LoadError String) :=
  p.answers.findSome? fun a =>
    match a with
    | .code n result => if n = number then some result else none
    | .report _ _ => none

/-- Waits for the report of a submission that is waited for. -/
def awaitReport (r : Rehearsal) (name : Specifier) :
    Option (Except LoadError Compile.Report) × Rehearsal :=
  let r := r.settle
  match r.outstanding.get? name with
  | none => (none, r)
  | some number =>
    let r := { r with outstanding := r.outstanding.erase name }
    match (reportOf? r.pool number).getD (.error (Pool.wentAway name)) with
    | .error e => (some (.error e), { r with refused := name :: r.refused })
    | .ok report =>
      (some (.ok report), { r with awaited := r.awaited.put name (number, report) })

/-- What there is to a submission's code. -/
inductive CodeState where
  | notAwaited
  | refused
  | done (result : Except LoadError String)

/-- Waits for the code of a submission whose report came. -/
def code (r : Rehearsal) (name : Specifier) : CodeState × Rehearsal :=
  let r := if r.dropped then r else r.settle
  match r.awaited.get? name with
  | some (number, _) => (.done ((codeOf? r.pool number).getD (.error (Pool.wentAway name))), r)
  | none => (if r.refused.contains name then .refused else .notAwaited, r)

/-- Drops the pool and every submission that is waited for. -/
def drop (r : Rehearsal) : Rehearsal := { r with dropped := true, outstanding := [] }

end Rehearsal

/-! ## As JSON -/

section Reading

open Json.Fields

/-- Specifiers that are taken as they are written. -/
def Specifier.ofArray (j : Json) (key : String) : List Specifier := (strs j key).map Specifier.mk

/-- A report of dependencies as an object. -/
def Compile.Report.ofJson (j : Json) : Compile.Report :=
  ⟨bool j "module", Specifier.ofArray j "static", Specifier.ofArray j "dynamic"⟩

namespace Rehearsal

/-- How a unit starts: with a failure, breaking down, or well. -/
def unitStart (text : String) : UnitStart :=
  if text = "panic_static" then some "static init text"
  else (Text.stripFront? "fail:" text).or (Text.stripFront? "panic:" text)

/-- A step of a unit. One that is not known returns its text. -/
def step (j : Json) : ScriptStep :=
  match str j "do" with
  | "report" => .report (Compile.Report.ofJson j)
  | "gate" => .gate
  | "error" => .finish (.failure ⟨str j "message", str? j "stack"⟩)
  | "panic" => .finish (.breakdown (str j "message"))
  | "panic_str" => .finish (.breakdown "static text")
  | "panic_other" => .finish (.breakdown "unknown panic")
  | _ => .finish (.code (str j "text"))

end Rehearsal

end Reading

end ScriptLoader
