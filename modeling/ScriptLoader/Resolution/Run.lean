import ScriptLoader.Resolution.Basic
import ScriptLoader.Workshop

/-!
# The order of a resolution

Modules are begun in the order of discovery, and the compiler answers in the order in which it was
asked. A module that needs no compile, or has no source, is finished as soon as it is begun, before
the next one is begun.

* `Resolving.next?`: the module that finishes next.
* `Resolving.run`: a resolution to its end.
-/

namespace ScriptLoader

/-- A resolution, with its pending modules sorted by whether they were begun. -/
structure Resolving where
  resolution : Resolution
  /-- Those that were not begun, in order. -/
  queue : List Specifier
  /-- Those that are being compiled, in order, and what comes of them. -/
  running : List (Specifier × Except LoadError CompiledRecord) := []

/-- A pending module that is finished, and the others. -/
structure Finished where
  specifier : Specifier
  outcome : Except LoadError CompiledRecord
  queue : List Specifier
  running : List (Specifier × Except LoadError CompiledRecord)

namespace Resolving

def start (skip : Specifier → Bool) (limit : Nat) (entries : List Specifier) : Resolving :=
  let (resolution, queue) := Resolution.start skip limit entries
  { resolution, queue }

/-- Begins modules until one is finished. -/
def nextOf (options : Compile.Options) :
    List Specifier → List (Specifier × Except LoadError CompiledRecord) → Workshop →
      Option Finished × Workshop
  | [], [], w => (none, w)
  | [], (s, outcome) :: running, w => (some ⟨s, outcome, [], running⟩, w)
  | s :: queue, running, w =>
    match w.order options s with
    | (.done outcome, w) => (some ⟨s, outcome, queue, running⟩, w)
    | (.compiling outcome, w) => nextOf options queue (running ++ [(s, outcome)]) w

/-- The module that finishes next. -/
def next? (options : Compile.Options) (r : Resolving) (w : Workshop) : Option Finished × Workshop :=
  nextOf options r.queue r.running w

/-- Takes what became of a module. -/
def finish (skip : Specifier → Bool) (r : Resolving) (f : Finished) :
    Except LoadError Resolving :=
  match r.resolution.finish skip f.outcome with
  | .error e => .error e
  | .ok (resolution, new) => .ok { resolution, queue := f.queue ++ new, running := f.running }

theorem budget_finish {skip : Specifier → Bool} {r next : Resolving} {f : Finished}
    (h : finish skip r f = .ok next) : next.resolution.budget < r.resolution.budget := by
  unfold finish at h
  split at h
  · simp at h
  · next hf =>
    injection h with h
    subst h
    exact Resolution.budget_finish hf

/-- What the log tells of a resolution that a module was finished in. -/
def event (r : Resolving) : Log.Event :=
  .resolutionStep r.resolution.graph.size r.resolution.pending.length

/-- One step: what the resolution came to, if it is at its end, or the resolution after the step. -/
def step (skip : Specifier → Bool) (options : Compile.Options) (r : Resolving) (w : Workshop) :
    (Except LoadError Graph ⊕ { next : Resolving // next.resolution.budget < r.resolution.budget })
      × Workshop :=
  match r.next? options w with
  | (none, w) => (.inl (.ok r.resolution.graph), w)
  | (some f, w) =>
    match h : r.finish skip f with
    | .error e => (.inl (.error e), w)
    | .ok next => (.inr ⟨next, budget_finish h⟩, w.log next.event)

/-- A resolution to its end. -/
def run (skip : Specifier → Bool) (options : Compile.Options) (r : Resolving) (w : Workshop) :
    Except LoadError Graph × Workshop :=
  match r.step skip options w with
  | (.inl result, w) => (result, w)
  | (.inr ⟨next, _⟩, w) => run skip options next w
termination_by r.resolution.budget

end Resolving

/-- The graph of entries, without the modules that are skipped. -/
def Workshop.resolve (w : Workshop) (skip : Specifier → Bool) (limit : Nat)
    (options : Compile.Options) (entries : List Specifier) : Except LoadError Graph × Workshop :=
  (Resolving.start skip limit entries).run skip options w

end ScriptLoader
