import ScriptLoader.Pool.Rehearsal

/-!
# A pool and the threads of its units

Each unit has a thread of its own. It says how it started, and then takes one request after the
other and says what its compiler does with it. What all units say goes through one channel, which
the pool hears in order. Callers, threads and the pool take turns in any order.

* `UnitThread`: what a thread is about to do.
* `Crew.act`, `Crew.run`: the turns.
-/

namespace ScriptLoader

/-- What the thread of a unit will say before it waits for a request, or before it ends. -/
structure UnitThread where
  unsaid : List UnitMessage
  stops : Bool
  deriving DecidableEq, Inhabited

namespace UnitThread

/-- A thread that waits for a request. -/
def waiting : UnitThread := ⟨[], false⟩

/-- A thread that ends, or has ended. -/
def ended : UnitThread := ⟨[], true⟩

/-- A thread that starts. -/
def starting (s : UnitStart) : UnitThread := ⟨[Rehearsal.startMessage s], s.isSome⟩

/-- A thread whose compiler runs for the request of a reference. -/
def compiling (reference : Nat) (run : CompilerRun) : UnitThread :=
  ⟨run.messages reference, run.ending.stops⟩

end UnitThread

/-- A pool with the threads of its units. -/
structure Crew where
  pool : Pool
  /-- What the pool has accepted, in order. The number of a job is its place. -/
  submitted : List Specifier := []
  threads : Nat → UnitThread
  /-- What units have said and the pool has not heard yet, in order. -/
  events : List (Nat × UnitMessage) := []
  /-- The requests that units have taken, in order, and the runs of their compilers. -/
  begun : List (UnitRequest × CompilerRun) := []

namespace Crew

/-- A pool that was just created. Its units start as told, as far as they have threads. -/
def start (starts : Nat → UnitStart) (pool : Pool) : Crew where
  pool
  threads unit :=
    if (pool.units[unit]?).any (!·.retired) then .starting (starts unit) else .ended

/-- The requests that were sent to a unit and that it has not taken yet. -/
def inbox (c : Crew) (unit : Nat) : List UnitRequest :=
  (c.pool.sent.filter (·.unit = unit)).drop (c.begun.filter (·.1.unit = unit)).length

/-- Whether a unit will get no more requests. -/
def isCutOff (c : Crew) (unit : Nat) : Bool :=
  (c.inbox unit).isEmpty && (c.pool.units[unit]?).any (!·.connected)

def setThread (c : Crew) (unit : Nat) (t : UnitThread) : Crew :=
  { c with threads := fun u => if u = unit then t else c.threads u }

inductive Action where
  | submit (s : Specifier)
  /-- The caller of a job goes away. -/
  | abandon (job : Nat)
  /-- The thread of a unit says the next thing. -/
  | say (unit : Nat)
  /-- The pool hears the next thing that was said. -/
  | hear
  /-- The thread of a unit takes a request, for which its compiler runs as told. -/
  | take (unit : Nat) (run : CompilerRun)
  /-- The thread of a unit ends. -/
  | leave (unit : Nat)

/-- What an action leads to. One that is not possible changes nothing. -/
def act (c : Crew) : Action → Crew
  | .submit s =>
    match c.pool.enqueue ⟨c.submitted.length, s⟩ with
    | (.ok (), pool) => { c with pool, submitted := c.submitted ++ [s] }
    | (.error _, _) => c
  | .abandon job => { c with pool := c.pool.abandon job }
  | .say unit =>
    match c.threads unit with
    | ⟨m :: rest, stops⟩ =>
      { c.setThread unit ⟨rest, stops⟩ with events := c.events ++ [(unit, m)] }
    | ⟨[], _⟩ => c
  | .hear =>
    match c.events with
    | (unit, m) :: rest => { c with pool := c.pool.handle unit m, events := rest }
    | [] => c
  | .take unit run =>
    match c.inbox unit with
    | q :: _ =>
      if c.threads unit = .waiting then
        { c.setThread unit (.compiling q.reference run) with begun := c.begun ++ [(q, run)] }
      else c
    | [] => c
  | .leave unit =>
    if c.threads unit = .ended ∨ c.threads unit = .waiting ∧ c.isCutOff unit then
      { c.setThread unit .ended with pool := c.pool.stop unit }
    else c

def run (c : Crew) (actions : List Action) : Crew := actions.foldl act c

end Crew

end ScriptLoader
