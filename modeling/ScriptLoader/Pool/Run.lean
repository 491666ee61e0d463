import ScriptLoader.Pool.Basic

/-!
# What the run of a compiler says

A compiler reports dependencies as often as it likes and then ends with code, with a failure, or by
breaking down. Its unit tells the pool each of these, and stops after a breakdown.

* `CompilerRun.messages`: the messages of a run.
-/

namespace ScriptLoader

/-- How the run of a compiler ends. -/
inductive RunEnd where
  | code (text : String)
  | failure (failure : Compile.Failure)
  /-- The compiler broke down. -/
  | breakdown (reason : String)
  deriving DecidableEq, Inhabited

/-- The run of a compiler. -/
structure CompilerRun where
  reports : List Compile.Report
  ending : RunEnd
  deriving DecidableEq, Inhabited

namespace RunEnd

/-- The message that ends a run. -/
def message (reference : Nat) : RunEnd → UnitMessage
  | code text => .code reference text
  | failure f => .failed reference f false
  | breakdown reason => .failed reference { message := s!"compiler panicked: {reason}" } true

/-- Whether the unit stops. -/
def stops : RunEnd → Bool
  | breakdown _ => true
  | _ => false

end RunEnd

namespace CompilerRun

/-- The messages of a run that answers the request of a reference. -/
def messages (r : CompilerRun) (reference : Nat) : List UnitMessage :=
  r.reports.map (.report reference) ++ [r.ending.message reference]

end CompilerRun

end ScriptLoader
