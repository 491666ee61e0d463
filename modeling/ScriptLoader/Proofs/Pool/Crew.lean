import ScriptLoader.Pool.Crew
import ScriptLoader.Proofs.Pool.FloorSteps

/-!
# The outcome of a job is that of its own run

However callers, unit threads and the pool take turns, the answers to a job are those that the run
of the unit that took it comes to, and no answer depends on what another unit says.

* `Crew.Kept`: what every action keeps.
* `Crew.outcome_is_of_own_run`: what requests, runs and units have come to behind any actions.
-/

namespace ScriptLoader.Crew

open Pool (Floor answersTo sentTo)

/-- What a unit has said and the pool has not heard yet. -/
def said (c : Crew) (unit : Nat) : List UnitMessage :=
  (c.events.filter (·.1 = unit)).map (·.2)

/-- What the pool has not heard yet of a unit. -/
def pending (c : Crew) (unit : Nat) : List UnitMessage := c.said unit ++ (c.threads unit).unsaid

def floor (c : Crew) : Floor where
  pending := c.pending
  halts unit := (c.threads unit).stops
  begun := c.begun

/-- What holds of a pool and the threads of its units. -/
structure Kept (c : Crew) : Prop where
  board : Pool.Kept (c.pool.board c.submitted.length) c.floor
  stopped : ∀ u ∈ c.pool.stopped, (c.threads u).stops = true
  named : ∀ j ∈ (c.pool.board c.submitted.length).jobs,
    c.submitted[j.number]? = some j.specifier

variable {c : Crew}

/-! ## What actions do to the floor -/

theorem threads_setThread (c : Crew) (unit : Nat) (t : UnitThread) :
    (c.setThread unit t).threads = Function.update c.threads unit t := by
  funext u
  rw [Function.update_apply]
  rfl

theorem stops_setThread (c : Crew) (unit : Nat) (t : UnitThread) :
    (fun u => ((c.setThread unit t).threads u).stops) =
      Function.update (fun u => (c.threads u).stops) unit t.stops := by
  rw [threads_setThread]
  exact Function.comp_update UnitThread.stops c.threads unit t

theorem pending_setThread (c : Crew) (unit : Nat) (t : UnitThread) :
    (c.setThread unit t).pending = Function.update c.pending unit (c.said unit ++ t.unsaid) := by
  funext u
  rw [pending, threads_setThread]
  by_cases hne : u = unit
  · subst hne
    rw [Function.update_self, Function.update_self]
    rfl
  · rw [Function.update_of_ne hne, Function.update_of_ne hne]
    rfl

/-- It makes no difference whether a message has been said. -/
theorem floor_say (c : Crew) (unit : Nat) : (c.act (.say unit)).floor = c.floor := by
  unfold act
  dsimp only
  split
  · next m rest stops ht =>
    unfold floor
    congr 1
    · funext u
      by_cases hne : u = unit
      · subst hne
        simp [pending, said, setThread, ht]
      · simp [pending, said, setThread, hne, Ne.symm hne]
    · refine (stops_setThread c unit ⟨rest, stops⟩).trans ?_
      rw [show (UnitThread.mk rest stops).stops = (c.threads unit).stops by rw [ht]]
      exact Function.update_eq_self ..
  · rfl

theorem floor_hear {unit : Nat} {m : UnitMessage} {rest : List (Nat × UnitMessage)}
    (he : c.events = (unit, m) :: rest) (pool : Pool) :
    c.pending unit = m :: ({ c with pool, events := rest } : Crew).pending unit ∧
      ({ c with pool, events := rest } : Crew).floor =
        c.floor.hear unit (({ c with pool, events := rest } : Crew).pending unit) := by
  refine ⟨by simp [pending, said, he], ?_⟩
  unfold floor Floor.hear
  congr 1
  funext u
  by_cases hne : u = unit
  · subst hne
    rw [Function.update_self]
  · rw [Function.update_of_ne hne]
    simp [pending, said, he, Ne.symm hne]

theorem floor_take {q : UnitRequest} (hp : c.pending q.unit = []) (run : CompilerRun) :
    ({ c.setThread q.unit (.compiling q.reference run) with
      begun := c.begun ++ [(q, run)] } : Crew).floor = c.floor.take q run := by
  unfold floor Floor.take
  congr 1
  · refine (pending_setThread c q.unit (.compiling q.reference run)).trans ?_
    rw [show c.said q.unit = [] from (List.append_eq_nil_iff.1 hp).1]
    rfl
  · exact stops_setThread c q.unit (.compiling q.reference run)

theorem floor_leave {unit : Nat} (ht : (c.threads unit).unsaid = []) (pool : Pool) :
    ({ c.setThread unit .ended with pool } : Crew).floor = c.floor.leave unit := by
  unfold floor Floor.leave
  congr 1
  · refine (pending_setThread c unit .ended).trans ?_
    rw [show c.said unit ++ UnitThread.ended.unsaid = c.pending unit by rw [pending, ht]; rfl]
    exact Function.update_eq_self ..
  · exact stops_setThread c unit .ended

/-! ## What every action keeps -/

namespace Kept

theorem inbox_eq (h : c.Kept) (unit : Nat) :
    c.inbox unit = c.floor.inbox c.pool.requests unit := by
  have hsent : c.pool.sent = c.pool.requests :=
    List.filter_eq_self.2 fun q hq => (h.board.requests q hq).1
  have htaken : (c.begun.filter (·.1.unit = unit)).length = (c.floor.taken unit).length := by
    rw [Floor.taken, List.filter_map, List.length_map]
    rfl
  rw [inbox, hsent, htaken]
  rfl

/-- A request that a unit has not taken is the only one for it, and the unit waits. -/
theorem waiting_of_inbox (h : c.Kept) {unit : Nat} {q : UnitRequest}
    (hq : q ∈ c.inbox unit) : q.unit = unit ∧ c.inbox unit = [q] ∧ c.pending unit = [] ∧
      c.threads unit = .waiting := by
  rw [h.inbox_eq] at hq ⊢
  cases hbox : c.floor.inbox c.pool.requests unit with
  | nil =>
    rw [hbox] at hq
    cases hq
  | cons q' requests =>
    have hunit : ∀ r ∈ c.floor.inbox c.pool.requests unit, r.unit = unit := fun r hr => by
      simpa using (List.mem_filter.1 (List.mem_of_mem_drop hr)).2
    have hunit' := hunit q' (hbox ▸ List.mem_cons_self)
    subst hunit'
    obtain ⟨-, -, -, hp, hh, rfl⟩ := h.board.sent_of_inbox hbox
    rw [hbox] at hq
    rw [List.mem_singleton.1 hq]
    refine ⟨rfl, rfl, hp, ?_⟩
    rw [UnitThread.waiting, ← (List.append_eq_nil_iff.1 hp).2, ← hh]
    rfl

theorem submit (h : c.Kept) (s : Specifier) : (c.act (.submit s)).Kept := by
  unfold Crew.act
  dsimp only
  split
  · next pool hp =>
    obtain ⟨hboard, hstopped⟩ := h.board.enqueue h.stopped hp
    have hlength : (c.submitted ++ [s]).length = c.submitted.length + 1 := List.length_append
    refine ⟨?_, hstopped.symm ▸ h.stopped, fun j hj => ?_⟩
    · rw [hlength]
      exact hboard
    · rw [hlength] at hj
      rcases Pool.jobs_enqueue h.board.sound.manned hp j hj with rfl | hj
      · exact List.getElem?_concat_length
      · have hname := h.named j hj
        rw [List.getElem?_append_left (List.getElem?_eq_some_iff.1 hname).1]
        exact hname
  · exact h

theorem abandon (h : c.Kept) (job : Nat) : (c.act (.abandon job)).Kept :=
  ⟨h.board.abandon job, h.stopped, h.named⟩

theorem say (h : c.Kept) (unit : Nat) : (c.act (.say unit)).Kept := by
  have hfloor := floor_say c unit
  have hstops : ∀ u, ((c.act (.say unit)).threads u).stops = (c.threads u).stops :=
    congrFun (congrArg Floor.halts hfloor)
  have hpool : (c.act (.say unit)).pool = c.pool ∧
      (c.act (.say unit)).submitted = c.submitted := by
    unfold Crew.act
    dsimp only
    split <;> exact ⟨rfl, rfl⟩
  refine ⟨?_, fun u hu => ?_, ?_⟩
  · rw [hfloor, hpool.1, hpool.2]
    exact h.board
  · rw [hstops]
    exact h.stopped u (hpool.1 ▸ hu)
  · rw [hpool.1, hpool.2]
    exact h.named

theorem hear (h : c.Kept) : (c.act .hear).Kept := by
  unfold Crew.act
  dsimp only
  split
  · next unit m rest he =>
    obtain ⟨hpending, hfloor⟩ := floor_hear he (c.pool.handle unit m)
    obtain ⟨hboard, hstopped⟩ := h.board.handle h.stopped hpending
    have hsteps := Pool.steps_handle c.submitted.length unit m h.board.sound.manned
    refine ⟨?_, hstopped.symm ▸ h.stopped, fun j hj => ?_⟩
    · rw [hfloor]
      exact hboard
    · exact h.named j ((Pool.jobs_steps hsteps).2 rfl hj)
  · exact h

theorem take (h : c.Kept) (unit : Nat) (run : CompilerRun) : (c.act (.take unit run)).Kept := by
  unfold Crew.act
  dsimp only
  split
  · next q requests hbox =>
    split
    · next ht =>
      obtain ⟨rfl, -, hp, -⟩ := h.waiting_of_inbox (hbox ▸ List.mem_cons_self)
      refine ⟨?_, fun u hu => ?_, h.named⟩
      · rw [floor_take hp]
        exact h.board.take ((h.inbox_eq q.unit).symm.trans hbox) run
      · have hstops := h.stopped u hu
        have hne : u ≠ q.unit := by
          rintro rfl
          rw [ht] at hstops
          cases hstops
        rw [threads_setThread, Function.update_of_ne hne]
        exact hstops
    · exact h
  · exact h

theorem leave (h : c.Kept) (unit : Nat) : (c.act (.leave unit)).Kept := by
  unfold Crew.act
  dsimp only
  split
  · next hn =>
    have hunsaid : (c.threads unit).unsaid = [] := by
      rcases hn with hn | ⟨hn, -⟩ <;> rw [hn] <;> rfl
    refine ⟨?_, fun u hu => ?_, h.named⟩
    · rw [floor_leave hunsaid]
      refine h.board.leave (hn.imp (fun hn => ?_) fun hn => ?_)
      · exact congrArg UnitThread.stops hn
      · have hcut := hn.2
        simp only [isCutOff, Bool.and_eq_true, Option.any_eq_true] at hcut
        obtain ⟨-, slot, hu, hc⟩ := hcut
        exact ⟨slot, hu, by simpa using hc⟩
    · rw [threads_setThread]
      by_cases hne : u = unit
      · subst hne
        rw [Function.update_self]
        rfl
      · rw [Function.update_of_ne hne]
        exact h.stopped u ((List.mem_cons.1 hu).resolve_left hne)
  · exact h

theorem act (h : c.Kept) (a : Action) : (c.act a).Kept := by
  cases a with
  | submit s => exact h.submit s
  | abandon job => exact h.abandon job
  | say unit => exact h.say unit
  | hear => exact h.hear
  | take unit run => exact h.take unit run
  | leave unit => exact h.leave unit

theorem run (h : c.Kept) (actions : List Action) : (c.run actions).Kept := by
  unfold Crew.run
  induction actions generalizing c with
  | nil => exact h
  | cons a actions ih => exact ih (h.act a)

end Kept

/-! ## How a pool starts -/

theorem created {size : Nat} {unspawned : Keyed Nat String} {pool : Pool}
    (h : Pool.create size unspawned = .ok pool) :
    pool.queue = [] ∧ pool.requests = [] ∧ pool.stopped = [] ∧
      ∀ slot ∈ pool.units, slot.ready = false := by
  unfold Pool.create at h
  split at h
  · cases h
  · dsimp only at h
    split at h
    · cases h
    · cases h
      refine ⟨rfl, rfl, rfl, fun slot hslot => ?_⟩
      obtain ⟨unit, -, rfl⟩ := List.mem_map.1 hslot
      split <;> rfl

theorem kept_start {size : Nat} {unspawned : Keyed Nat String} {pool : Pool}
    (h : Pool.create size unspawned = .ok pool) (starts : Nat → UnitStart) :
    (start starts pool).Kept := by
  obtain ⟨hqueue, hrequests, hstopped, hready⟩ := created h
  refine ⟨⟨Pool.sound_create h, ?_, fun _ => List.nil_prefix, ?_, ?_⟩, ?_, ?_⟩
  · intro q hq
    have hq : q ∈ pool.requests := hq
    rw [hrequests] at hq
    cases hq
  · intro q run hx
    cases hx
  · intro unit slot hu
    have hslot := hready slot (List.mem_of_getElem? hu)
    have hbox : (start starts pool).floor.inbox pool.requests unit = [] := by
      rw [Floor.inbox, hrequests]
      rfl
    cases hr : slot.retired with
    | true => exact .retired hr hbox fun hn => absurd (hslot.symm.trans hn) Bool.false_ne_true
    | false =>
      have hthread : (start starts pool).threads unit = .starting (starts unit) := by
        have hu : pool.units[unit]? = some slot := hu
        simp [start, hu, hr]
      refine .starting (starts unit) hslot hr ?_ ?_ hbox
      · show pending _ unit = _
        rw [pending, hthread]
        rfl
      · show ((start starts pool).threads unit).stops = _
        rw [hthread]
        rfl
  · intro u hu
    have hu : u ∈ pool.stopped := hu
    rw [hstopped] at hu
    cases hu
  · intro j hj
    have hj : j ∈ pool.queue ++ pool.requests.map (·.job) := hj
    rw [hqueue, hrequests] at hj
    cases hj

/-! ## What requests, runs and units have come to -/

namespace Kept

/-- A request was sent. Its unit has taken it, or can take it next. -/
theorem begun_or_waiting (h : c.Kept) {q : UnitRequest} (hq : q ∈ c.pool.requests) :
    (∃ run, (q, run) ∈ c.begun) ∨
      c.inbox q.unit = [q] ∧ (∀ run, (q, run) ∈ (c.act (.take q.unit run)).begun) ∧
      answersTo c.pool.answers q.job.number = [] := by
  have hsent : q ∈ sentTo c.pool.requests q.unit := List.mem_filter.2 ⟨hq, by simp⟩
  rw [show sentTo c.pool.requests q.unit = _ from
    (List.prefix_iff_eq_append.1 (h.board.taken q.unit)).symm] at hsent
  rcases List.mem_append.1 hsent with hq | hq
  · obtain ⟨⟨q', run⟩, hx, rfl⟩ := List.mem_map.1 (List.mem_of_mem_filter hq)
    exact .inl ⟨run, hx⟩
  · have hq : q ∈ c.inbox q.unit := (h.inbox_eq q.unit).symm ▸ hq
    obtain ⟨-, hbox, -, hthread⟩ := h.waiting_of_inbox hq
    obtain ⟨slot, hu, hc, -⟩ := h.board.sent_of_inbox ((h.inbox_eq q.unit).symm.trans hbox)
    refine .inr ⟨hbox, fun run => ?_, h.board.unanswered hu hc rfl⟩
    rw [Crew.act, hbox]
    dsimp only
    rw [if_pos hthread]
    exact List.mem_append_right _ List.mem_cons_self

/-- A job that was taken is answered what its run comes to, as far as the pool has heard of it. -/
theorem answered_so_far (h : c.Kept) {q : UnitRequest} {run : CompilerRun}
    (hx : (q, run) ∈ c.begun) :
    answersTo c.pool.answers q.job.number <+: run.answers q.unit q.job ∧
      (c.pending q.unit = [] →
        answersTo c.pool.answers q.job.number = run.answers q.unit q.job) := by
  obtain ⟨slot, hu, -, hi | hf⟩ := h.board.begun q run hx
  · refine ⟨?_, fun hp => absurd hp hi.pending_ne_nil⟩
    cases hi with
    | compiling hc =>
      have hn : answersTo c.pool.answers q.job.number = [] := h.board.unanswered hu hc rfl
      exact hn ▸ List.nil_prefix
    | generating x reports hr _ _ _ ha =>
      rw [show answersTo c.pool.answers q.job.number = _ from ha, CompilerRun.answers, hr]
      cases reports <;> exact List.prefix_append [_] [_]
  · have ha : answersTo c.pool.answers q.job.number = run.answers q.unit q.job := hf.answers
    exact ⟨ha ▸ List.prefix_refl _, fun _ => ha⟩

/-- A ready unit is retired by a run of its own, and otherwise it is used again. -/
theorem retired_iff (h : c.Kept) {unit : Nat} {slot : UnitSlot}
    (hu : c.pool.units[unit]? = some slot) (hready : slot.ready = true) :
    slot.retired = true ↔ ∃ q run, (q, run) ∈ c.begun ∧ q.unit = unit ∧ run.retires = true ∧
      answersTo c.pool.answers q.job.number = run.answers q.unit q.job := by
  refine ⟨fun hr => (h.board.of_retired hu hr).2 hready, ?_⟩
  rintro ⟨q, run, hx, rfl, hretires, ha⟩
  obtain ⟨slot', hu', -, hi | hf⟩ := h.board.begun q run hx
  · -- a unit that works on a job has not given the last answer to it
    obtain ⟨_, hc⟩ := hi.exists_current
    have hf : Pool.Finished (c.pool.board c.submitted.length) q run { slot with retired := true } :=
      ⟨ha, fun _ => rfl⟩
    have hended := List.count_pos_iff.2 hf.mem_ended
    have hworking := List.count_pos_iff.2 (Pool.mem_working (List.mem_of_getElem? hu') hc)
    have hle := h.board.sound.ledger.le_one q.job.number
    dsimp only at hworking
    omega
  · cases hu.symm.trans hu'
    exact hf.retired hretires

theorem idle_or_working (h : c.Kept) {unit : Nat} {slot : UnitSlot}
    (hu : c.pool.units[unit]? = some slot) (hready : slot.ready = true)
    (hr : slot.retired = false) : unit ∈ c.pool.idle ∨ slot.current.isSome := by
  cases h.board.units unit slot hu with
  | starting _ hn => cases hready.symm.trans hn
  | idle hi => exact .inl hi
  | sent _ hc => exact .inr (by rw [hc]; rfl)
  | working _ _ _ _ hi =>
    obtain ⟨_, hc⟩ := hi.exists_current
    exact .inr (by rw [hc]; rfl)
  | retired hn => cases hr.symm.trans hn

end Kept

/-! ## Until everything is heard -/

/-- The thread of a unit says everything. -/
theorem run_say (c : Crew) (unit : Nat) {unsaid : List UnitMessage} {stops : Bool}
    (ht : c.threads unit = ⟨unsaid, stops⟩) :
    (c.run (.replicate unsaid.length (.say unit))).begun = c.begun ∧
      (c.run (.replicate unsaid.length (.say unit))).threads =
        Function.update c.threads unit ⟨[], stops⟩ := by
  induction unsaid generalizing c with
  | nil => exact ⟨rfl, by rw [← ht, Function.update_eq_self]; rfl⟩
  | cons m rest ih =>
    have hact : c.act (.say unit) =
        { c.setThread unit ⟨rest, stops⟩ with events := c.events ++ [(unit, m)] } := by
      rw [Crew.act, ht]
    have hthreads : (c.act (.say unit)).threads = Function.update c.threads unit ⟨rest, stops⟩ := by
      rw [hact]
      exact threads_setThread c unit ⟨rest, stops⟩
    obtain ⟨hbegun, hrest⟩ := ih (c.act (.say unit)) (by rw [hthreads, Function.update_self])
    rw [hthreads, Function.update_idem] at hrest
    refine ⟨hbegun.trans ?_, hrest⟩
    rw [hact]
    rfl

/-- The pool hears everything that was said. -/
theorem run_hear (c : Crew) {events : List (Nat × UnitMessage)} (he : c.events = events) :
    (c.run (.replicate events.length .hear)).begun = c.begun ∧
      (c.run (.replicate events.length .hear)).threads = c.threads ∧
      (c.run (.replicate events.length .hear)).events = [] := by
  induction events generalizing c with
  | nil => exact ⟨rfl, rfl, he⟩
  | cons e rest ih =>
    have hact : c.act .hear = { c with pool := c.pool.handle e.1 e.2, events := rest } := by
      rw [Crew.act, he]
    obtain ⟨hbegun, hthreads, hnone⟩ := ih (c.act .hear) (by rw [hact])
    refine ⟨hbegun.trans ?_, hthreads.trans ?_, hnone⟩ <;> rw [hact]

theorem run_append (c : Crew) (actions more : List Action) :
    c.run (actions ++ more) = (c.run actions).run more := List.foldl_append ..

/-- The threads of some units say everything. -/
theorem exists_said (c : Crew) (units : List Nat) :
    ∃ turns : List Action, (∀ a ∈ turns, ∃ unit, a = .say unit) ∧
      (c.run turns).begun = c.begun ∧
      ∀ unit ∈ units, ((c.run turns).threads unit).unsaid = [] := by
  induction units with
  | nil => exact ⟨[], by simp, rfl, by simp⟩
  | cons unit units ih =>
    obtain ⟨turns, hturns, hbegun, hnone⟩ := ih
    cases ht : (c.run turns).threads unit with
    | mk unsaid stops =>
      obtain ⟨hbegun', hthreads⟩ := run_say (c.run turns) unit ht
      refine ⟨turns ++ .replicate unsaid.length (.say unit), ?_, ?_, ?_⟩
      · intro a ha
        rcases List.mem_append.1 ha with ha | ha
        · exact hturns a ha
        · exact ⟨unit, List.eq_of_mem_replicate ha⟩
      · rw [run_append]
        exact hbegun'.trans hbegun
      · intro u hu
        rw [run_append, hthreads]
        by_cases hne : u = unit
        · rw [hne, Function.update_self]
        · rw [Function.update_of_ne hne]
          exact hnone u ((List.mem_cons.1 hu).resolve_left hne)

/-- The threads of some units say everything, and the pool hears it. -/
theorem exists_heard (c : Crew) (units : List Nat) :
    ∃ more, (∀ a ∈ more, a = .hear ∨ ∃ unit, a = .say unit) ∧
      (c.run more).begun = c.begun ∧ ∀ unit ∈ units, (c.run more).pending unit = [] := by
  obtain ⟨turns, hturns, hbegun, hnone⟩ := c.exists_said units
  obtain ⟨hbegun', hthreads, hevents⟩ := run_hear (c.run turns) rfl
  refine ⟨turns ++ .replicate (c.run turns).events.length .hear, ?_, ?_, ?_⟩
  · intro a ha
    rcases List.mem_append.1 ha with ha | ha
    · exact .inr (hturns a ha)
    · exact .inl (List.eq_of_mem_replicate ha)
  · rw [run_append]
    exact hbegun'.trans hbegun
  · intro unit hu
    rw [run_append, pending, said, hevents, hthreads, hnone unit hu]
    rfl

/-- Callers, unit threads and a pool that was created take turns in any order, and units start and
compilers run in any way. Every request is for a job as it was handed in, and could be sent; its
unit has taken it, or can take it next, and no job is taken twice. A job that was taken is answered
what the run of its compiler comes to: so much as the pool has heard of its unit, and all of it as
soon as the unit says what it has to say and the pool hears it. A ready unit is retired exactly by a
run that retires it, and otherwise it is idle or at work. -/
theorem outcome_is_of_own_run {size : Nat} {unspawned : Keyed Nat String} {pool : Pool} {c : Crew}
    {starts : Nat → UnitStart} {actions : List Action}
    (hpool : Pool.create size unspawned = .ok pool)
    (hrun : (start starts pool).run actions = c) :
    (∀ q ∈ c.pool.requests, q.delivered = true ∧
      c.submitted[q.job.number]? = some q.job.specifier ∧
      ((∃ run, (q, run) ∈ c.begun) ∨
        c.inbox q.unit = [q] ∧ (∀ run, (q, run) ∈ (c.act (.take q.unit run)).begun) ∧
        answersTo c.pool.answers q.job.number = [])) ∧
    (c.begun.map (·.1.job.number)).Nodup ∧
    (∀ q run, (q, run) ∈ c.begun →
      answersTo c.pool.answers q.job.number <+: run.answers q.unit q.job ∧
      (c.pending q.unit = [] →
        answersTo c.pool.answers q.job.number = run.answers q.unit q.job)) ∧
    (∀ unit slot, c.pool.units[unit]? = some slot → slot.ready = true →
      (slot.retired = true ↔ ∃ q run, (q, run) ∈ c.begun ∧ q.unit = unit ∧ run.retires = true ∧
        answersTo c.pool.answers q.job.number = run.answers q.unit q.job) ∧
      (slot.retired = false → unit ∈ c.pool.idle ∨ slot.current.isSome)) ∧
    ∃ more, (∀ a ∈ more, a = .hear ∨ ∃ unit, a = .say unit) ∧
      ∀ q run, (q, run) ∈ c.begun →
        answersTo (c.run more).pool.answers q.job.number = run.answers q.unit q.job := by
  have h : c.Kept := hrun ▸ (kept_start hpool starts).run actions
  refine ⟨fun q hq => ⟨(h.board.requests q hq).1,
      h.named q.job (List.mem_append_right _ (List.mem_map_of_mem hq)), h.begun_or_waiting hq⟩,
    h.board.nodup_begun, fun q run hx => h.answered_so_far hx,
    fun unit slot hu hready => ⟨h.retired_iff hu hready, h.idle_or_working hu hready⟩, ?_⟩
  obtain ⟨more, hmore, hbegun, hnone⟩ := c.exists_heard (c.begun.map (·.1.unit))
  refine ⟨more, hmore, fun q run hx => ?_⟩
  exact ((h.run more).answered_so_far (hbegun.symm ▸ hx)).2
    (hnone q.unit (List.mem_map_of_mem (f := fun x => x.1.unit) hx))

/-- A compiler that reports twice. -/
def doubled : CompilerRun := ⟨[{}, {}], .code ""⟩

/-- A compiler that fails behind its report. -/
def halfway : CompilerRun := ⟨[{}], .failure { message := "unexpected token" }⟩

/-- Two units at one job each. What the first one says last is not heard any more. -/
def interleaved : List Action :=
  [.say 0, .say 1, .hear, .hear, .submit ⟨"/a"⟩, .submit ⟨"/b"⟩, .take 1 halfway, .take 0 doubled,
    .say 1, .say 0, .say 0, .hear, .say 1, .hear, .say 0, .hear, .hear, .hear, .leave 0]

theorem interleaved_runs_are_apart :
    ∃ pool c, Pool.create 2 = .ok pool ∧ (start (fun _ => none) pool).run interleaved = c ∧
      answersTo c.pool.answers 0 =
        [.report 0 (.ok {}), .code 0 (.error (.unexpectedMessage 0 "deps"))] ∧
      answersTo c.pool.answers 1 =
        [.report 1 (.ok {}), .code 1 (.error (.notCompiled ⟨"/b"⟩ "unexpected token" none))] ∧
      c.pool.units.map (·.retired) = [true, false] ∧ c.pool.idle = [1] := by
  obtain ⟨pool, hpool⟩ : ∃ pool, Pool.create 2 = .ok pool := ⟨_, rfl⟩
  obtain ⟨-, -, hanswers, -⟩ :=
    @outcome_is_of_own_run 2 [] pool _ (fun _ => none) interleaved hpool rfl
  cases hpool
  refine ⟨_, _, rfl, rfl, ?_, ?_, by decide +kernel, by decide +kernel⟩
  · exact (hanswers ⟨0, 0, ⟨0, ⟨"/a"⟩⟩, true⟩ doubled (by decide +kernel)).2 (by decide +kernel)
  · exact (hanswers ⟨1, 1, ⟨1, ⟨"/b"⟩⟩, true⟩ halfway (by decide +kernel)).2 (by decide +kernel)

end ScriptLoader.Crew
