import ScriptLoader.Compile.Basic
import ScriptLoader.Keyed
import ScriptLoader.LoadError
import ScriptLoader.Log.Event

/-!
# The pool of compilers

A fixed number of units, each with a compiler of its own, and a queue of jobs that is served in the
order of arrival. A unit is given a job when it is idle, answers with the report of its dependencies
and then with the code, and is idle again. A unit that says anything else is retired; when the last
one is gone the pool is closed and every job is refused.

* `Pool.enqueue`: a caller hands in a job.
* `Pool.handle`: a unit says something.
* `Pool.abandon`: a caller no longer waits.
-/

namespace ScriptLoader

/-- A compile that a caller waits for. The number tells jobs apart. -/
structure Job where
  number : Nat
  specifier : Specifier
  deriving DecidableEq, Inhabited

/-- What a unit says. Once it compiles it names the request that it answers. -/
inductive UnitMessage where
  | ready
  | initFailed (reason : String)
  | report (reference : Nat) (report : Compile.Report)
  | code (reference : Nat) (code : String)
  | failed (reference : Nat) (failure : Compile.Failure) (fatal : Bool)
  deriving DecidableEq, Inhabited

def UnitMessage.kind : UnitMessage → String
  | .ready => "ready"
  | .initFailed _ => "init-failed"
  | .report .. => "deps"
  | .code .. => "code"
  | .failed .. => "error"

/-- A job that a unit works on. -/
structure InFlight where
  reference : Nat
  job : Job
  /-- Whether the report was answered, so that only the code is waited for. -/
  reported : Bool := false
  deriving DecidableEq, Inhabited

/-- What the pool knows of a unit. -/
structure UnitSlot where
  /-- Whether requests can be sent to it. -/
  connected : Bool := true
  current : Option InFlight := none
  ready : Bool := false
  retired : Bool := false
  deriving DecidableEq, Inhabited

/-- An answer to a caller: the report of a job, or its code. -/
inductive Answer where
  | report (job : Nat) (result : Except LoadError Compile.Report)
  | code (job : Nat) (result : Except LoadError String)

/-- A request for a unit. -/
structure UnitRequest where
  unit : Nat
  reference : Nat
  job : Job
  /-- Whether it could be sent. -/
  delivered : Bool
  deriving DecidableEq, Inhabited

structure Pool where
  units : List UnitSlot
  /-- Units that wait for a job, the one that waits longest first. -/
  idle : List Nat := []
  /-- Jobs that wait for a unit, in the order of arrival. -/
  queue : List Job := []
  /-- The number of units that are ready and not retired. -/
  live : Nat := 0
  /-- The number of units that are neither ready nor retired. -/
  initializing : Nat
  /-- Why no job is taken any more. -/
  closed : Option String := none
  nextReference : Nat := 0
  /-- Jobs whose callers no longer wait for the report. -/
  abandoned : List Nat := []
  /-- Units whose thread has ended: nothing can be sent to them. -/
  stopped : List Nat := []
  /-- The answers given, in order. -/
  answers : List Answer := []
  /-- The requests made, in order. -/
  requests : List UnitRequest := []
  /-- Jobs that were taken from the queue because their callers no longer waited, in order. -/
  skipped : List Nat := []
  events : List Log.Event := []

namespace Pool

/-- A pool of units that have not started yet. Units without a thread are told with the reason. -/
def create (size : Nat) (unspawned : Keyed Nat String := []) : Except LoadError Pool :=
  if size = 0 then .error (.unavailable "pool size must be at least 1")
  else
    let units : List UnitSlot := (List.range size).map fun unit =>
      if unspawned.has unit then { connected := false, retired := true } else {}
    let initializing := (units.filter fun u => !u.retired).length
    let failures := (List.range size).filterMap fun unit =>
      (unspawned.get? unit).map (.unitNotSpawned unit)
    if initializing = 0 then .error (.unavailable "no compiler unit could be started")
    else .ok { units, initializing, events := failures ++ [.poolStarted size] }

/-- The requests sent, in order. -/
def sent (p : Pool) : List UnitRequest := p.requests.filter (·.delivered)

def size (p : Pool) : Nat := p.units.length

def log (p : Pool) (e : Log.Event) : Pool := { p with events := p.events ++ [e] }

def answer (p : Pool) (a : Answer) : Pool := { p with answers := p.answers ++ [a] }

/-- Changes what is known of a unit. -/
def setUnit (p : Pool) (unit : Nat) (slot : UnitSlot) : Pool :=
  { p with units := p.units.set unit slot }

/-- Answers a failure to whichever half of a job is waited for. -/
def fail (p : Pool) (f : InFlight) (e : LoadError) : Pool :=
  p.answer (if f.reported then .code f.job.number (.error e) else .report f.job.number (.error e))

/-- Closes the pool when no unit is left. -/
def closeIfExhausted (p : Pool) (lastError : String) : Pool :=
  if 0 < p.live ∨ 0 < p.initializing ∨ p.closed.isSome then p
  else
    let reason := s!"no compiler units left (last error: {lastError})"
    let p := p.log (.poolClosed reason p.queue.length)
    { p with
      answers := p.answers ++ p.queue.map fun j => .report j.number (.error (.unavailable reason))
      queue := []
      closed := some reason }

/-- Stops using a unit. A job that it works on fails. -/
def retire (p : Pool) (unit : Nat) (error : Option LoadError) (reason : String) : Pool :=
  match p.units[unit]? with
  | none => p
  | some slot =>
    if slot.retired then p
    else
      let p := p.setUnit unit { slot with retired := true, connected := false, current := none }
      let p := match slot.current with
        | some f => p.fail f (error.getD (.unavailable reason))
        | none => p
      let p := if slot.ready then { p with live := p.live - 1 }
        else { p with initializing := p.initializing - 1 }
      let p := { p with idle := p.idle.filter (· ≠ unit) }
      (p.log (.unitRetired unit reason)).closeIfExhausted reason

/-- Stops using a unit that said something out of turn. -/
def retireUnexpected (p : Pool) (unit : Nat) (kind : String) : Pool :=
  let error := LoadError.unexpectedMessage unit kind
  p.retire unit (some error) error.message

/-- Takes the jobs from the front of the queue whose callers no longer wait. -/
def skipAbandoned (p : Pool) : Pool :=
  let isAbandoned (j : Job) := p.abandoned.contains j.number
  { p with
    queue := p.queue.dropWhile isAbandoned
    skipped := p.skipped ++ (p.queue.takeWhile isAbandoned).map (·.number) }

/-- Gives the first waiting job to a unit that was idle. -/
def send (p : Pool) (unit : Nat) (job : Job) : Pool :=
  match p.units[unit]? with
  | none => p
  | some slot =>
    let reference := p.nextReference
    let p := { p with nextReference := reference + 1 }
    if !slot.connected then
      let reason := s!"compiler unit {unit} has no request channel"
      (p.answer (.report job.number (.error (.unavailable reason)))).retire unit none
        "compiler unit lost its request channel"
    else if p.stopped.contains unit then
      let p : Pool := { p with
        requests := p.requests ++ [{ unit, reference, job, delivered := false }]
        queue := job :: p.queue }
      p.retire unit none "compiler unit thread exited"
    else
      { p.setUnit unit { slot with current := some { reference, job } } with
        requests := p.requests ++ [{ unit, reference, job, delivered := true }] }

/-- Hands waiting jobs to idle units, at most so many times. -/
def dispatchWithin : Nat → Pool → Pool
  | 0, p => p
  | turns + 1, p =>
    match p.queue, p.idle with
    | [], _ => p
    | _, [] => p
    | _, unit :: idle =>
      let p := p.skipAbandoned
      match p.queue with
      | [] => p
      | job :: rest => dispatchWithin turns ({ p with idle, queue := rest }.send unit job)

/-- Hands waiting jobs to idle units. Each turn uses up an idle unit. -/
def dispatch (p : Pool) : Pool := dispatchWithin p.idle.length p

/-- A caller hands in a job. -/
def enqueue (p : Pool) (job : Job) : Except LoadError Unit × Pool :=
  match p.closed with
  | some reason => (.error (.unavailable reason), p)
  | none => (.ok (), { p with queue := p.queue ++ [job] }.dispatch)

/-- A caller no longer waits for the report of its job. -/
def abandon (p : Pool) (job : Nat) : Pool := { p with abandoned := job :: p.abandoned }

/-- The thread of a unit ends; nothing can be sent to it any more. -/
def stop (p : Pool) (unit : Nat) : Pool := { p with stopped := unit :: p.stopped }

/-- What a message of a unit that is not retired does, before waiting jobs are handed out. -/
def receive (p : Pool) (unit : Nat) (slot : UnitSlot) : UnitMessage → Pool
  | .ready =>
    if slot.ready then p.retireUnexpected unit UnitMessage.ready.kind
    else
      let p := p.setUnit unit { slot with ready := true }
      { p with
        initializing := p.initializing - 1, live := p.live + 1, idle := p.idle ++ [unit] }.log
        (.unitReady unit)
  | .initFailed reason =>
    if slot.ready then p.retireUnexpected unit (UnitMessage.initFailed reason).kind
    else
      let p := p.setUnit unit { slot with retired := true, connected := false }
      ({ p with initializing := p.initializing - 1 }.log
        (.unitInitFailed unit reason)).closeIfExhausted reason
  | .report reference report =>
    match slot.current with
    | some f =>
      if f.reference = reference ∧ !f.reported then
        (p.setUnit unit { slot with current := some { f with reported := true } }).answer
          (.report f.job.number (.ok report))
      else p.retireUnexpected unit (UnitMessage.report reference report).kind
    | none => p.retireUnexpected unit (UnitMessage.report reference report).kind
  | .code reference code =>
    match slot.current with
    | some f =>
      if f.reference = reference ∧ f.reported then
        let p := (p.setUnit unit { slot with current := none }).log
          (.compiled unit f.job.specifier)
        { p.answer (.code f.job.number (.ok code)) with idle := p.idle ++ [unit] }
      else p.retireUnexpected unit (UnitMessage.code reference code).kind
    | none => p.retireUnexpected unit (UnitMessage.code reference code).kind
  | .failed reference failure fatal =>
    match slot.current with
    | some f =>
      if f.reference = reference then
        let p := (p.setUnit unit { slot with current := none }).log
          (.compileFailed unit f.job.specifier failure.message)
        let p := p.fail f (.notCompiled f.job.specifier failure.message failure.stack)
        if fatal then p.retire unit none failure.message
        else { p with idle := p.idle ++ [unit] }
      else p.retireUnexpected unit (UnitMessage.failed reference failure fatal).kind
    | none => p.retireUnexpected unit (UnitMessage.failed reference failure fatal).kind

/-- A unit says something. What a retired unit says is not heard. -/
def handle (p : Pool) (unit : Nat) (m : UnitMessage) : Pool :=
  match p.units[unit]? with
  | none => p
  | some slot => if slot.retired then p else (p.receive unit slot m).dispatch

/-- The number of units that work on a job. -/
def busy (p : Pool) : Nat := (p.units.filter fun u => u.current.isSome).length

/-- The failure of a caller whose answer will never come. -/
def wentAway (s : Specifier) : LoadError :=
  .unavailable s!"compiler unit stopped while compiling '{s.text}'"

/-- The failure of a pool that is made where nothing can run it. -/
def noRuntime : LoadError :=
  .unavailable <| "compiler pool requires a tokio runtime: there is no reactor running, must be " ++
    "called from the context of a Tokio 1.x runtime"

end Pool

end ScriptLoader
