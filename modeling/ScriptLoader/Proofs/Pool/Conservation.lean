import ScriptLoader.Proofs.Pool.Fifo
import ScriptLoader.Proofs.Pool.Ledger

/-!
# No job is lost, answered twice or overtaken

What happens to a pool from its creation on, in any order: callers hand in jobs and go away, units
say whatever they like, and their threads end, so that nothing can be sent to them.

* `Pool.Action`, `Pool.run`: what happens. Jobs are numbered in the order in which they are
  accepted.
* `Pool.Standing`: where a job is, and what it was answered by then.
* `Pool.jobs_are_conserved`: behind any actions, every accepted job is in one place and stands well,
  and jobs were requested in the order in which they were accepted.
-/

namespace ScriptLoader.Pool

inductive Action where
  | submit (s : Specifier)
  /-- The caller of a job goes away. -/
  | abandon (job : Nat)
  /-- A unit says something, whether it is its turn or not. -/
  | message (unit : Nat) (m : UnitMessage)
  /-- The thread of a unit ends. -/
  | stop (unit : Nat)

/-- A pool and the number of jobs that it has accepted, behind an action. -/
def act (x : Pool × Nat) : Action → Pool × Nat
  | .submit s =>
    match x.1.enqueue ⟨x.2, s⟩ with
    | (.ok (), p) => (p, x.2 + 1)
    | (.error _, p) => (p, x.2)
  | .abandon job => (x.1.abandon job, x.2)
  | .message unit m => (x.1.handle unit m, x.2)
  | .stop unit => (x.1.stop unit, x.2)

def run (x : Pool × Nat) (actions : List Action) : Pool × Nat := actions.foldl act x

/-! ## What every action preserves -/

/-- What holds of a pool that has accepted a number of jobs. -/
structure Sound (b : Board) : Prop where
  manned : Manned b.units b.idle
  ledger : Ledger b
  inOrder : InOrder b

theorem sound_steps {b c : Board} (hs : Steps b c) (h : Sound b) : Sound c := by
  induction hs with
  | refl => exact h
  | tail _ hs ih =>
    exact ⟨manned_step hs ih.manned, ledger_step hs ih.manned ih.ledger,
      inOrder_step hs ih.inOrder⟩

theorem steps_act {p : Pool} {n : Nat} (h : Manned p.units p.idle) (a : Action) :
    Steps (p.board n) ((act (p, n) a).1.board (act (p, n) a).2) := by
  cases a with
  | submit s =>
    unfold act
    dsimp only
    split
    · next q hq => exact steps_enqueue h hq
    · next e q hq =>
      rw [enqueue_error hq]
  | abandon job => exact .single (.abandon job)
  | message unit m => exact steps_handle n unit m h
  | stop unit => exact .refl

theorem sound_run (actions : List Action) {x : Pool × Nat} (h : Sound (x.1.board x.2)) :
    Sound ((run x actions).1.board (run x actions).2) := by
  unfold run
  induction actions generalizing x with
  | nil => exact h
  | cons a actions ih => exact ih (sound_steps (steps_act h.manned a) h)

/-- Nothing was asked of the pool and no unit works. -/
theorem sound_new {units : List UnitSlot}
    (h : ∀ slot ∈ units, slot.current = none ∧ slot.connected = !slot.retired) :
    Sound ⟨0, units, [], [], none, [], [], [], []⟩ := by
  have hworking : working units = [] := by
    refine List.filterMap_eq_nil_iff.2 fun slot hslot => ?_
    rw [UnitSlot.job?, (h slot hslot).1]
    rfl
  refine ⟨⟨List.nodup_nil, by simp, ?_, fun slot hslot => (h slot hslot).2⟩, ?_, ?_⟩
  · exact fun slot hslot hc => absurd (h slot hslot).1 hc
  · refine ⟨fun k => ?_, by simp, by simp, fun slot hslot f hf => ?_, by simp [ended], by simp⟩
    · simp [hworking, ended]
    · rw [(h slot hslot).1] at hf
      cases hf
  · exact ⟨by simp, by simp, by simp, by simp, by simp, by simp, by simp, by simp⟩

theorem sound_create {size : Nat} {unspawned : Keyed Nat String} {start : Pool}
    (h : create size unspawned = .ok start) : Sound (start.board 0) := by
  unfold create at h
  split at h
  · cases h
  · dsimp only at h
    split at h
    · cases h
    · cases h
      refine sound_new fun slot hslot => ?_
      obtain ⟨unit, -, rfl⟩ := List.mem_map.1 hslot
      split <;> exact ⟨rfl, rfl⟩

/-! ## Where jobs stand -/

/-- Where a job is, and what it was answered by then. Only a job whose caller has gone away is done
without an answer. -/
inductive Standing (p : Pool) (k : Nat) : Prop where
  | queued {j : Job} : j ∈ p.queue → j.number = k → answersTo p.answers k = [] → Standing p k
  | working {slot : UnitSlot} {f : InFlight} : slot ∈ p.units → slot.current = some f →
    f.job.number = k → Waits p.answers f → Standing p k
  | answered : Answered p.answers k → Standing p k
  | skipped : k ∈ p.skipped → k ∈ p.abandoned → answersTo p.answers k = [] → Standing p k

theorem standing {p : Pool} {n k : Nat} (h : Ledger (p.board n)) (hk : k < n) : Standing p k := by
  have honce : (p.queue.map (·.number)).count k + (Pool.working p.units).count k +
      (ended p.answers).count k + p.skipped.count k = 1 := (h.once k).trans (if_pos hk)
  by_cases hq : k ∈ p.queue.map (·.number)
  · obtain ⟨j, hj, rfl⟩ := List.mem_map.1 hq
    exact .queued hj rfl (h.queued j hj)
  by_cases hw : k ∈ Pool.working p.units
  · obtain ⟨slot, hslot, hjob⟩ := List.mem_filterMap.1 hw
    obtain ⟨f, hf, rfl⟩ := Option.map_eq_some_iff.1 hjob
    exact .working hslot hf rfl (h.waits slot hslot f hf)
  by_cases he : k ∈ ended p.answers
  · exact .answered (h.answered k he)
  have hs : k ∈ p.skipped := by
    have h0 := List.count_eq_zero.2 hq
    have h1 := List.count_eq_zero.2 hw
    have h2 := List.count_eq_zero.2 he
    refine List.count_pos_iff.1 ?_
    omega
  exact .skipped hs (h.skipped k hs).2 (h.skipped k hs).1

/-- Behind any actions on a pool that was created: every accepted job is in the queue, with one unit
or done with, and counted once among these; it was answered what it is to be answered there, so
that a caller who still waits is never left without an answer; requests were made in the order in
which jobs were accepted, again only if they could not be sent; and no job was requested before an
earlier one whose caller still waits. -/
theorem jobs_are_conserved {size n : Nat} {unspawned : Keyed Nat String} {start p : Pool}
    {actions : List Action} (hstart : create size unspawned = .ok start)
    (hrun : run (start, 0) actions = (p, n)) :
    (∀ k, (p.queue.map (·.number)).count k + (working p.units).count k +
      (ended p.answers).count k + p.skipped.count k = if k < n then 1 else 0) ∧
    (∀ k < n, Standing p k) ∧
    (p.requests.Pairwise fun q r => Precedes q r.job.number) ∧
    (∀ q ∈ p.requests, ∀ j ∈ p.queue, Precedes q j.number) ∧
    ∀ r ∈ p.requests, ∀ k < r.job.number, k ∉ p.abandoned → k ∈ requested p.requests := by
  have h : Sound (p.board n) := by
    have := sound_run actions (x := (start, 0)) (sound_create hstart)
    rwa [hrun] at this
  refine ⟨h.ledger.once, fun k hk => standing h.ledger hk, h.inOrder.requests, h.inOrder.ahead, ?_⟩
  intro r hr k hk hwaits
  exact (h.inOrder.passed r hr k hk).resolve_right
    fun hs => hwaits (h.ledger.skipped k hs).2

/-- Two units of which one ends before it is given a job, and three jobs of which the second one is
given up. -/
def episode : List Action :=
  [.message 0 .ready, .message 1 .ready, .stop 0, .submit ⟨"/a"⟩, .submit ⟨"/b"⟩, .submit ⟨"/c"⟩,
    .abandon 1, .message 1 (.report 1 {}), .message 1 (.code 1 "")]

theorem episode_is_conserved :
    ∃ start p, create 2 = .ok start ∧ run (start, 0) episode = (p, 3) ∧
      requested p.requests = [0, 0, 2] ∧ p.skipped = [1] ∧ (∀ k < 3, Standing p k) ∧
      p.requests.Pairwise fun q r => Precedes q r.job.number := by
  obtain ⟨start, hstart⟩ : ∃ start, create 2 = .ok start := ⟨_, rfl⟩
  have hrun : run (start, 0) episode = ((run (start, 0) episode).1, 3) := by
    cases hstart
    exact Prod.ext rfl (by decide +kernel)
  obtain ⟨-, hstanding, horder, -⟩ := jobs_are_conserved hstart hrun
  refine ⟨start, _, hstart, hrun, ?_, ?_, hstanding, horder⟩
  · cases hstart
    decide +kernel
  · cases hstart
    decide +kernel

end ScriptLoader.Pool
