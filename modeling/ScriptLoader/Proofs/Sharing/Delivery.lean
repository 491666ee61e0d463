import ScriptLoader.Proofs.Pool.Outcome
import ScriptLoader.Proofs.Sharing.Stages

/-!
# What a pool delivers

A module is fetched, and its source is handed in to the pool of compilers. Which unit takes it, and
as which job, depends on all that is handed in. As long as no run of a compiler retires its unit the
answers do not depend on it: a run reports once or fails before it does, and it does not break down.

* `Sharing.Delivered`: what may come of a module.
* `Sharing.delivered_iff_made`: it is what a workshop of the same source makes, whose compiler goes
  by the runs.
-/

namespace ScriptLoader

/-- What a run of a compiler comes to. -/
def CompilerRun.code (run : CompilerRun) : Except Compile.Failure String :=
  match run.ending with
  | .code text => .ok text
  | .failure f => .error f
  | .breakdown reason => .error { message := s!"compiler panicked: {reason}" }

/-- The workshop of a source whose compiler goes by runs. -/
def Workshop.ofRuns (source : Source) (run : Compile.Request → CompilerRun) : Workshop :=
  { source, compiler := fun q => ((run q).code, (run q).reports.head?) }

namespace Sharing

/-- What a caller makes of all answers to its job: the record, once the dependencies are there, or
why there is none. -/
def recordOf (q : Compile.Request) : List Answer → Option (Except LoadError CompiledRecord)
  | [.report _ (.error e)] => some (.error e)
  | [.report _ (.ok report), .code _ outcome] =>
    some (.ok { specifier := q.specifier, location := q.location, report, outcome })
  | _ => none

/-- What may come of a module: some unit answers some job of it. -/
def Delivered (source : Source) (run : Compile.Request → CompilerRun) : Supply :=
  fun options s outcome =>
    match (Fetch.run source s options.markup).1 with
    | .error e => outcome = .error e
    | .ok found => ∃ unit job, job.specifier = s ∧
      recordOf ⟨s, found.location, found.text, options⟩
        ((run ⟨s, found.location, found.text, options⟩).answers unit job) = some outcome

/-- The answers to a job come to what the compiler comes to, if the run leaves its unit in use. -/
theorem recordOf_answers {w : Workshop} {q : Compile.Request} {run : CompilerRun}
    (hw : w.compiler q = (run.code, run.reports.head?)) (hrun : run.retires = false) (unit : Nat)
    {job : Job} (hjob : job.specifier = q.specifier) :
    recordOf q (run.answers unit job) = some (w.compile q none).1 := by
  obtain ⟨reports, ending⟩ := run
  unfold Workshop.compile
  simp only [Workshop.log, hw]
  rcases reports with _ | ⟨x, _ | ⟨y, rest⟩⟩ <;> rcases ending with text | f | reason
  case nil.failure => simp [CompilerRun.answers, RunEnd.result, recordOf, CompilerRun.code, hjob,
    Except.mapError]
  case cons.nil.code => simp [CompilerRun.answers, RunEnd.result, recordOf, CompilerRun.code,
    Except.mapError]
  case cons.nil.failure => simp [CompilerRun.answers, RunEnd.result, recordOf, CompilerRun.code,
    hjob, Except.mapError]
  all_goals cases hrun

/-- What is delivered is what a workshop makes, if every run leaves its unit in use. -/
theorem delivered_iff_made {source : Source} {run : Compile.Request → CompilerRun}
    (hrun : ∀ q, (run q).retires = false) (options : Compile.Options) (s : Specifier)
    (outcome : Except LoadError CompiledRecord) :
    Delivered source run options s outcome ↔ Made (.ofRuns source run) options s outcome := by
  unfold Delivered Made Workshop.outcomes
  simp only
  rw [Workshop.order_eq]
  change _ ↔ outcome = (match (Fetch.run source s options.markup).1 with
    | .error e => _ | .ok found => _ : Order × Workshop).1.outcome
  cases (Fetch.run source s options.markup).1 with
  | error e => exact Iff.rfl
  | ok found =>
    have hcode := fun unit (job : Job) (hjob : job.specifier = s) =>
      recordOf_answers (w := .ofRuns source run) (q := ⟨s, found.location, found.text, options⟩)
        rfl (hrun _) unit hjob
    have hsame : ∀ v : Workshop, v.Alike (.ofRuns source run) →
        (v.compile ⟨s, found.location, found.text, options⟩ none).1 =
          ((Workshop.ofRuns source run).compile ⟨s, found.location, found.text, options⟩ none).1 :=
      fun v hv => Workshop.outcome_compile hv _ _
    change (∃ unit, ∃ job : Job, job.specifier = s ∧ _) ↔ outcome = (Workshop.compile _ _ none).1
    rw [hsame _ (Workshop.alike_lookUp _ _ _ |>.trans (Workshop.alike_fetch _ _ _))]
    constructor
    · rintro ⟨unit, job, hjob, hout⟩
      exact Option.some.inj (hout.symm.trans (hcode unit job hjob))
    · rintro rfl
      exact ⟨0, ⟨0, s⟩, rfl, hcode 0 ⟨0, s⟩ rfl⟩

end Sharing

end ScriptLoader
