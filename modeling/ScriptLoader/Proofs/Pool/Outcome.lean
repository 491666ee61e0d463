import ScriptLoader.Pool.Run
import ScriptLoader.Proofs.Pool.Ledger

/-!
# What the run of a compiler comes to

The number of reports and the ending of a run decide what the job that it runs for is answered, and
whether its unit can be used again. The first report is passed on. A second one is out of turn, and
nothing that follows it counts; so is code without a report.

* `CompilerRun.answers`, `CompilerRun.retires`: the outcome.
-/

namespace ScriptLoader

/-- What the end of a run makes of the code. -/
def RunEnd.result (specifier : Specifier) : RunEnd → Except LoadError String
  | code text => .ok text
  | failure f => .error (.notCompiled specifier f.message f.stack)
  | breakdown reason => .error (.notCompiled specifier s!"compiler panicked: {reason}" none)

namespace CompilerRun

/-- The answers to a job that a unit runs its compiler for. -/
def answers (run : CompilerRun) (unit : Nat) (job : Job) : List Answer :=
  let result := run.ending.result job.specifier
  match run.reports with
  | [] =>
    [.report job.number <| match result with
      | .ok _ => .error (.unexpectedMessage unit "code")
      | .error e => .error e]
  | [x] => [.report job.number (.ok x), .code job.number result]
  | x :: _ :: _ =>
    [.report job.number (.ok x), .code job.number (.error (.unexpectedMessage unit "deps"))]

/-- Whether the unit of a run is not used again. -/
def retires (run : CompilerRun) : Bool :=
  match run.reports, run.ending with
  | _, .breakdown _ => true
  | [], .code _ => true
  | [], .failure _ => false
  | [_], _ => false
  | _ :: _ :: _, _ => true

theorem job_of_mem_answers {run : CompilerRun} {unit : Nat} {job : Job} {a : Answer}
    (ha : a ∈ run.answers unit job) : a.job = job.number := by
  unfold answers at ha
  split at ha <;> simp only [List.mem_cons, List.not_mem_nil, or_false] at ha
  · rw [ha]
    rfl
  · rcases ha with rfl | rfl <;> rfl
  · rcases ha with rfl | rfl <;> rfl

/-- The last answer of a run ends its job. -/
theorem exists_last (run : CompilerRun) (unit : Nat) (job : Job) :
    ∃ a ∈ run.answers unit job, a.last? = some job.number := by
  unfold answers
  split
  · refine ⟨_, List.mem_cons_self, ?_⟩
    split <;> rfl
  · exact ⟨_, List.mem_cons_of_mem _ List.mem_cons_self, rfl⟩
  · exact ⟨_, List.mem_cons_of_mem _ List.mem_cons_self, rfl⟩

end CompilerRun

end ScriptLoader
