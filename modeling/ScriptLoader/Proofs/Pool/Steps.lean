import Mathlib.Data.List.Nodup
import Mathlib.Logic.Relation
import ScriptLoader.Pool.Basic

/-!
# The steps of a pool

Whatever happens to a pool, it comes to a few kinds of steps: a job arrives, is skipped, sent or
left at the front of the queue, a unit becomes ready, reports, finishes or is retired, and the pool
closes. What is proved of jobs is proved of these steps, one case each. Counters and the log play no
part in them.

* `Pool.Board`, `Pool.Step`: what jobs depend on, and the kinds of steps.
* `Pool.Manned`: what holds of units. An idle unit exists, is ready and works on no job.
* `Pool.steps_handle`, `Pool.steps_enqueue`: a message and a new job come to such steps.
-/

namespace ScriptLoader.Pool

/-- What the jobs of a pool depend on, and how many jobs it has accepted. -/
structure Board where
  accepted : Nat
  units : List UnitSlot
  idle : List Nat
  queue : List Job
  closed : Option String
  abandoned : List Nat
  answers : List Answer
  requests : List UnitRequest
  skipped : List Nat

def board (p : Pool) (accepted : Nat) : Board :=
  { accepted
    units := p.units
    idle := p.idle
    queue := p.queue
    closed := p.closed
    abandoned := p.abandoned
    answers := p.answers
    requests := p.requests
    skipped := p.skipped }

/-- The answer is the last one to a job: the code of one that was reported, or a failure. -/
inductive Ends (f : InFlight) : Answer → Prop where
  | code (result : Except LoadError String) : f.reported = true → Ends f (.code f.job.number result)
  | refusal (e : LoadError) : f.reported = false → Ends f (.report f.job.number (.error e))

def withdrawn (slot : UnitSlot) : UnitSlot :=
  { slot with retired := true, connected := false, current := none }

inductive Step : Board → Board → Prop where
  /-- A job arrives at a pool that is open. -/
  | accept {b : Board} (s : Specifier) : b.closed = none →
    Step b { b with queue := b.queue ++ [⟨b.accepted, s⟩], accepted := b.accepted + 1 }
  /-- A caller no longer waits. -/
  | abandon {b : Board} (job : Nat) : Step b { b with abandoned := job :: b.abandoned }
  /-- Jobs whose callers no longer wait leave the front of the queue. -/
  | skip {b : Board} : Step b
    { b with
      queue := b.queue.dropWhile fun j => b.abandoned.contains j.number
      skipped := b.skipped ++
        (b.queue.takeWhile fun j => b.abandoned.contains j.number).map (·.number) }
  /-- The first job of the queue is sent to the unit that is idle for the longest time. -/
  | send {b : Board} {unit reference : Nat} {slot : UnitSlot} {job : Job} {idle : List Nat}
    {rest : List Job} : b.units[unit]? = some slot → b.idle = unit :: idle → b.queue = job :: rest →
    Step b
      { b with
        units := b.units.set unit { slot with current := some { reference, job } }
        idle
        queue := rest
        requests := b.requests ++ [{ unit, reference, job, delivered := true }] }
  /-- The first job of the queue could not be sent, and is put back to the front. -/
  | requeue {b : Board} {unit reference : Nat} {job : Job} {idle : List Nat} {rest : List Job} :
    b.idle = unit :: idle → b.queue = job :: rest →
    Step b
      { b with
        idle
        queue := job :: rest
        requests := b.requests ++ [{ unit, reference, job, delivered := false }] }
  | ready {b : Board} {unit : Nat} {slot : UnitSlot} : b.units[unit]? = some slot →
    slot.retired = false → slot.ready = false →
    Step b
      { b with
        units := b.units.set unit { slot with ready := true }
        idle := b.idle ++ [unit] }
  | report {b : Board} {unit : Nat} {slot : UnitSlot} {f : InFlight} (r : Compile.Report) :
    b.units[unit]? = some slot → slot.current = some f → f.reported = false →
    Step b
      { b with
        units := b.units.set unit { slot with current := some { f with reported := true } }
        answers := b.answers ++ [.report f.job.number (.ok r)] }
  /-- A unit is done with its job, and is idle again. -/
  | finish {b : Board} {unit : Nat} {slot : UnitSlot} {f : InFlight} {a : Answer} :
    b.units[unit]? = some slot → slot.current = some f → Ends f a →
    Step b
      { b with
        units := b.units.set unit { slot with current := none }
        answers := b.answers ++ [a]
        idle := b.idle ++ [unit] }
  /-- A unit is done with its job, and is not idle. -/
  | settle {b : Board} {unit : Nat} {slot : UnitSlot} {f : InFlight} {a : Answer} :
    b.units[unit]? = some slot → slot.current = some f → Ends f a →
    Step b
      { b with
        units := b.units.set unit { slot with current := none }
        answers := b.answers ++ [a] }
  /-- A unit without a job is retired. -/
  | retire {b : Board} {unit : Nat} {slot : UnitSlot} : b.units[unit]? = some slot →
    slot.current = none →
    Step b
      { b with
        units := b.units.set unit (withdrawn slot)
        idle := b.idle.filter (· ≠ unit) }
  /-- The last unit is gone, and every job that waits is refused. -/
  | close {b : Board} (reason : String) (e : LoadError) : b.closed = none →
    Step b
      { b with
        answers := b.answers ++ b.queue.map fun j => .report j.number (.error e)
        queue := []
        closed := some reason }

abbrev Steps : Board → Board → Prop := Relation.ReflTransGen Step

/-! ## Units -/

/-- What holds of the units of a pool and those of them that are idle. -/
structure Manned (units : List UnitSlot) (idle : List Nat) : Prop where
  nodup : idle.Nodup
  /-- An idle unit exists, is ready and works on no job. -/
  idle : ∀ u ∈ idle, ∃ slot, units[u]? = some slot ∧ slot.ready = true ∧ slot.retired = false ∧
    slot.current = none
  /-- A unit that works on a job is ready. -/
  working : ∀ slot ∈ units, slot.current ≠ none → slot.ready = true ∧ slot.retired = false
  connected : ∀ slot ∈ units, slot.connected = !slot.retired

namespace Manned

variable {units : List UnitSlot} {idle : List Nat} {u : Nat} {slot : UnitSlot}

theorem notMem_idle (h : Manned units idle) (hu : units[u]? = some slot)
    (hs : slot.current ≠ none ∨ slot.ready = false) : u ∉ idle := by
  intro hmem
  obtain ⟨slot', hu', hready, -, hcurrent⟩ := h.idle u hmem
  rw [hu] at hu'
  cases hu'
  rcases hs with hs | hs
  · exact hs hcurrent
  · rw [hready] at hs
    cases hs

/-- A unit that is not ready works on no job. -/
theorem current_eq_none (h : Manned units idle) (hu : units[u]? = some slot)
    (hready : slot.ready = false) : slot.current = none := by
  by_contra hc
  rw [(h.working slot (List.mem_of_getElem? hu) hc).1] at hready
  cases hready

theorem set (h : Manned units idle) (hu : u ∉ idle)
    (hworking : slot.current ≠ none → slot.ready = true ∧ slot.retired = false)
    (hconnected : slot.connected = !slot.retired) : Manned (units.set u slot) idle := by
  refine ⟨h.nodup, ?_, ?_, ?_⟩
  · intro v hv
    have hne : u ≠ v := fun he => hu (he ▸ hv)
    rw [List.getElem?_set_ne hne]
    exact h.idle v hv
  · intro x hx
    rcases List.mem_or_eq_of_mem_set hx with hx | rfl
    · exact h.working x hx
    · exact hworking
  · intro x hx
    rcases List.mem_or_eq_of_mem_set hx with hx | rfl
    · exact h.connected x hx
    · exact hconnected

theorem push (h : Manned units idle) (hu : u ∉ idle) (hslot : units[u]? = some slot)
    (hready : slot.ready = true) (hretired : slot.retired = false)
    (hcurrent : slot.current = none) : Manned units (idle ++ [u]) := by
  refine ⟨?_, ?_, h.working, h.connected⟩
  · refine List.nodup_append.2 ⟨h.nodup, List.nodup_singleton _, ?_⟩
    rintro v hv w hw rfl
    exact hu (List.mem_singleton.1 hw ▸ hv)
  · intro v hv
    rcases List.mem_append.1 hv with hv | hv
    · exact h.idle v hv
    · rw [List.mem_singleton.1 hv]
      exact ⟨slot, hslot, hready, hretired, hcurrent⟩

theorem sublist (h : Manned units idle) {fewer : List Nat} (hs : fewer.Sublist idle) :
    Manned units fewer :=
  ⟨h.nodup.sublist hs, fun u hu => h.idle u (hs.subset hu), h.working, h.connected⟩

theorem release (h : Manned units idle) (hu : units[u]? = some slot)
    (hc : slot.current ≠ none) : Manned (units.set u { slot with current := none }) idle :=
  h.set (h.notMem_idle hu (Or.inl hc)) (fun hn => absurd rfl hn)
    (h.connected slot (List.mem_of_getElem? hu))

end Manned

theorem manned_step {b c : Board} (hs : Step b c) (h : Manned b.units b.idle) :
    Manned c.units c.idle := by
  cases hs with
  | accept | abandon | skip | close => exact h
  | @send unit reference slot job idle rest hu hi hq =>
    rw [hi] at h
    obtain ⟨slot', hu', hready, hretired, -⟩ := h.idle unit List.mem_cons_self
    rw [hu] at hu'
    cases hu'
    exact (h.sublist (List.sublist_cons_self _ _)).set (List.nodup_cons.1 h.nodup).1
      (fun _ => ⟨hready, hretired⟩) (h.connected slot (List.mem_of_getElem? hu))
  | requeue hi hq =>
    rw [hi] at h
    exact h.sublist (List.sublist_cons_self _ _)
  | @ready unit slot hu hretired hready =>
    have hmem : slot ∈ b.units := List.mem_of_getElem? hu
    have hnot : unit ∉ b.idle := h.notMem_idle hu (Or.inr hready)
    have hset : Manned (b.units.set unit { slot with ready := true }) b.idle :=
      h.set hnot (fun _ => ⟨rfl, hretired⟩) (h.connected slot hmem)
    refine hset.push hnot (List.getElem?_set_self ?_) rfl hretired ?_
    · exact (List.getElem?_eq_some_iff.1 hu).1
    · by_contra hc
      rw [(h.working slot hmem hc).1] at hready
      cases hready
  | @report unit slot f r hu hf hr =>
    have hmem : slot ∈ b.units := List.mem_of_getElem? hu
    have hc : slot.current ≠ none := by simp [hf]
    exact h.set (h.notMem_idle hu (Or.inl hc)) (fun _ => h.working slot hmem hc)
      (h.connected slot hmem)
  | @finish unit slot f a hu hf ha =>
    have hc : slot.current ≠ none := by simp [hf]
    obtain ⟨hready, hretired⟩ := h.working slot (List.mem_of_getElem? hu) hc
    exact (h.release hu hc).push (h.notMem_idle hu (Or.inl hc))
      (List.getElem?_set_self (List.getElem?_eq_some_iff.1 hu).1) hready hretired rfl
  | @settle unit slot f a hu hf ha => exact h.release hu (by simp [hf])
  | @retire unit slot hu hc =>
    exact (h.sublist List.filter_sublist).set (by simp) (fun hn => absurd rfl hn) rfl

theorem manned_steps {b c : Board} (hs : Steps b c) (h : Manned b.units b.idle) :
    Manned c.units c.idle := by
  induction hs with
  | refl => exact h
  | tail _ hs ih => exact manned_step hs ih

/-! ## What a pool does -/

theorem steps_closeIfExhausted (p : Pool) (n : Nat) (e : String) :
    Steps (p.board n) ((p.closeIfExhausted e).board n) := by
  unfold closeIfExhausted
  split
  · exact .refl
  · next h =>
    have hopen : p.closed = none := by
      simp only [not_or, Bool.not_eq_true, Option.isSome_eq_false_iff,
        Option.isNone_iff_eq_none] at h
      exact h.2.2
    exact .single (.close _ _ hopen)

def failure (f : InFlight) (e : LoadError) : Answer :=
  if f.reported then .code f.job.number (.error e) else .report f.job.number (.error e)

theorem ends_failure (f : InFlight) (e : LoadError) : Ends f (failure f e) := by
  unfold failure
  split
  · next h => exact .code _ h
  · next h => exact .refusal e (by simpa using h)

/-- A unit that works on a job is retired: the job fails first. -/
theorem steps_withdraw {b : Board} {unit : Nat} {slot : UnitSlot} {f : InFlight} {a : Answer}
    (hu : b.units[unit]? = some slot) (hf : slot.current = some f) (ha : Ends f a) :
    Steps b
      { b with
        units := b.units.set unit (withdrawn slot)
        answers := b.answers ++ [a]
        idle := b.idle.filter (· ≠ unit) } := by
  have hbound : unit < b.units.length := (List.getElem?_eq_some_iff.1 hu).1
  have hretire := Step.retire (b :=
    { b with
      units := b.units.set unit { slot with current := none }
      answers := b.answers ++ [a] }) (List.getElem?_set_self hbound) rfl
  rw [List.set_set] at hretire
  exact .tail (.single (.settle hu hf ha)) hretire

theorem steps_retire (p : Pool) (n unit : Nat) (e : Option LoadError) (reason : String) :
    Steps (p.board n) ((p.retire unit e reason).board n) := by
  unfold retire
  split
  · exact .refl
  · next slot hu =>
    split
    · exact .refl
    · refine .trans ?_ (steps_closeIfExhausted _ n reason)
      cases hc : slot.current with
      | none =>
        have hstep := Step.retire (b := p.board n) hu hc
        refine .single ?_
        dsimp only
        split <;> exact hstep
      | some f =>
        have hsteps := steps_withdraw (b := p.board n) hu hc
          (ends_failure f (e.getD (.unavailable reason)))
        dsimp only
        split <;> exact hsteps

/-- The unit that is idle for the longest time is given the first job of the queue. -/
theorem steps_send {p : Pool} {n unit : Nat} {slot : UnitSlot} {job : Job} {idle : List Nat}
    {rest : List Job} (hu : p.units[unit]? = some slot) (hconnected : slot.connected = true)
    (hi : p.idle = unit :: idle) (hq : p.queue = job :: rest) :
    Steps (p.board n) ((({ p with idle, queue := rest } : Pool).send unit job).board n) := by
  unfold send
  rw [hu]
  dsimp only
  rw [if_neg (by simp [hconnected])]
  split
  · refine .trans ?_ (steps_retire _ n unit none _)
    exact .single (Step.requeue (b := p.board n) hi hq)
  · exact .single (Step.send (b := p.board n) hu hi hq)

theorem steps_dispatchWithin (turns : Nat) (p : Pool) (n : Nat) (h : Manned p.units p.idle) :
    Steps (p.board n) ((p.dispatchWithin turns).board n) := by
  induction turns generalizing p with
  | zero => exact .refl
  | succ turns ih =>
    unfold dispatchWithin
    split
    · exact .refl
    · exact .refl
    · next unit idle hi _ =>
      have hskip : Step (p.board n) (p.skipAbandoned.board n) := .skip
      dsimp only
      split
      · exact .single hskip
      · next job rest hq =>
        have hidle : p.skipAbandoned.idle = unit :: idle := hi
        obtain ⟨slot, hu, -, hretired, -⟩ := h.idle unit (by simp [hi])
        have hconnected : slot.connected = true := by
          rw [h.connected slot (List.mem_of_getElem? hu), hretired]
          rfl
        have hsend := steps_send (p := p.skipAbandoned) (n := n) hu hconnected hidle hq
        have hsteps := Relation.ReflTransGen.head hskip hsend
        exact hsteps.trans (ih _ (manned_steps hsteps h))

theorem steps_dispatch (p : Pool) (n : Nat) (h : Manned p.units p.idle) :
    Steps (p.board n) (p.dispatch.board n) := steps_dispatchWithin _ p n h

theorem steps_receive {p : Pool} {n unit : Nat} {slot : UnitSlot} (h : Manned p.units p.idle)
    (hu : p.units[unit]? = some slot) (hretired : slot.retired = false) (m : UnitMessage) :
    Steps (p.board n) ((p.receive unit slot m).board n) := by
  have hunexpected : ∀ kind, Steps (p.board n) ((p.retireUnexpected unit kind).board n) :=
    fun _ => steps_retire _ _ _ _ _
  cases m with
  | ready =>
    unfold receive
    dsimp only
    split
    · exact hunexpected _
    · next hr => exact .single (.ready (b := p.board n) hu hretired (by simpa using hr))
  | initFailed reason =>
    unfold receive
    dsimp only
    split
    · exact hunexpected _
    · next hr =>
      have hr : slot.ready = false := by simpa using hr
      have hc := h.current_eq_none hu hr
      have hidle : p.idle.filter (· ≠ unit) = p.idle := by
        refine List.filter_eq_self.2 fun v hv => ?_
        simp only [ne_eq, decide_eq_true_eq]
        rintro rfl
        exact h.notMem_idle hu (Or.inr hr) hv
      have hstep := Step.retire (b := p.board n) hu hc
      have hslot : withdrawn slot = { slot with retired := true, connected := false } := by
        rw [withdrawn, ← hc]
      rw [hslot, show (p.board n).idle.filter (· ≠ unit) = p.idle from hidle] at hstep
      refine .trans ?_ (steps_closeIfExhausted _ n reason)
      exact .single hstep
  | report reference r =>
    unfold receive
    dsimp only
    split
    · next f hf =>
      split
      · next hm =>
        exact .single (.report (b := p.board n) r hu hf (by simpa using hm.2))
      · exact hunexpected _
    · exact hunexpected _
  | code reference code =>
    unfold receive
    dsimp only
    split
    · next f hf =>
      split
      · next hm => exact .single (.finish (b := p.board n) hu hf (.code _ hm.2))
      · exact hunexpected _
    · exact hunexpected _
  | failed reference failure fatal =>
    unfold receive
    dsimp only
    split
    · next f hf =>
      split
      · have hends := ends_failure f (.notCompiled f.job.specifier failure.message failure.stack)
        split
        · refine .trans ?_ (steps_retire _ n unit none _)
          exact .single (.settle (b := p.board n) hu hf hends)
        · exact .single (.finish (b := p.board n) hu hf hends)
      · exact hunexpected _
    · exact hunexpected _

theorem steps_handle {p : Pool} (n unit : Nat) (m : UnitMessage) (h : Manned p.units p.idle) :
    Steps (p.board n) ((p.handle unit m).board n) := by
  unfold handle
  split
  · exact .refl
  · next slot hu =>
    split
    · exact .refl
    · next hr =>
      have hsteps : Steps (p.board n) ((p.receive unit slot m).board n) :=
        steps_receive h hu (by simpa using hr) m
      exact hsteps.trans (steps_dispatch _ n (manned_steps hsteps h))

theorem steps_enqueue {p q : Pool} {n : Nat} {s : Specifier} (h : Manned p.units p.idle)
    (hq : p.enqueue ⟨n, s⟩ = (.ok (), q)) : Steps (p.board n) (q.board (n + 1)) := by
  unfold enqueue at hq
  split at hq
  · cases hq
  · next hopen =>
    cases hq
    refine .trans ?_ (steps_dispatch _ (n + 1) h)
    exact .single (Step.accept (b := p.board n) s hopen)

theorem enqueue_error {p q : Pool} {job : Job} {e : LoadError}
    (hq : p.enqueue job = (.error e, q)) : q = p := by
  unfold enqueue at hq
  split at hq
  · cases hq
    rfl
  · cases hq

end ScriptLoader.Pool
