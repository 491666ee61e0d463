import Mathlib.Data.List.Infix
import Mathlib.Logic.Function.Basic
import ScriptLoader.Pool.Rehearsal
import ScriptLoader.Proofs.Pool.Conservation
import ScriptLoader.Proofs.Pool.Hearing
import ScriptLoader.Proofs.Pool.Outcome

/-!
# Units and the runs of their compilers

What the pool knows of a unit goes with what the unit will still say. A unit that was sent a request
has taken it and says what is left of the run, or it is about to take it.

* `Pool.Floor`: what jobs depend on of the threads of units.
* `Pool.Phase`, `Pool.Progress`: where a unit is, and where the run for a request is.
* `Pool.Kept`: both for all units and all runs. What a unit says and what the pool does keeps it.
-/

namespace ScriptLoader.Pool

/-- What jobs depend on of the threads of units. -/
structure Floor where
  /-- What a unit says that the pool has not heard yet. -/
  pending : Nat → List UnitMessage
  halts : Nat → Bool
  begun : List (UnitRequest × CompilerRun)

/-- The requests that a unit has taken. -/
def Floor.taken (v : Floor) (unit : Nat) : List UnitRequest :=
  (v.begun.map (·.1)).filter (·.unit = unit)

/-- The requests for a unit. -/
def sentTo (requests : List UnitRequest) (unit : Nat) : List UnitRequest :=
  requests.filter (·.unit = unit)

/-- The requests that a unit has not taken yet. -/
def Floor.inbox (v : Floor) (requests : List UnitRequest) (unit : Nat) : List UnitRequest :=
  (sentTo requests unit).drop (v.taken unit).length

theorem sentTo_concat (requests : List UnitRequest) (q : UnitRequest) (unit : Nat) :
    sentTo (requests ++ [q]) unit =
      sentTo requests unit ++ if q.unit = unit then [q] else [] := by
  rw [sentTo, List.filter_append]
  by_cases h : q.unit = unit <;> simp [h, sentTo]

/-- A unit works on a request, and says what is left of the run. -/
inductive InHand (b : Board) (v : Floor) (q : UnitRequest) (run : CompilerRun) (slot : UnitSlot) :
    Prop where
  | compiling : slot.current = some { reference := q.reference, job := q.job } →
    v.pending q.unit = run.messages q.reference → v.halts q.unit = run.ending.stops →
    InHand b v q run slot
  | generating (x : Compile.Report) (rest : List Compile.Report) : run.reports = x :: rest →
    slot.current = some { reference := q.reference, job := q.job, reported := true } →
    v.pending q.unit = (CompilerRun.mk rest run.ending).messages q.reference →
    v.halts q.unit = run.ending.stops →
    answersTo b.answers q.job.number = [.report q.job.number (.ok x)] → InHand b v q run slot

/-- The job of a request was answered what the run comes to. -/
structure Finished (b : Board) (q : UnitRequest) (run : CompilerRun) (slot : UnitSlot) : Prop where
  answers : answersTo b.answers q.job.number = run.answers q.unit q.job
  retired : run.retires = true → slot.retired = true

/-- Where the run for a request is. -/
inductive Progress (b : Board) (v : Floor) (q : UnitRequest) (run : CompilerRun) : Prop where
  | intro (slot : UnitSlot) : b.units[q.unit]? = some slot → slot.ready = true →
    InHand b v q run slot ∨ Finished b q run slot → Progress b v q run

/-- Where a unit is. -/
inductive Phase (b : Board) (v : Floor) (unit : Nat) (slot : UnitSlot) : Prop where
  | starting (s : UnitStart) : slot.ready = false → slot.retired = false →
    v.pending unit = [Rehearsal.startMessage s] → v.halts unit = s.isSome →
    v.inbox b.requests unit = [] → Phase b v unit slot
  | idle : unit ∈ b.idle → v.pending unit = [] → v.halts unit = false →
    v.inbox b.requests unit = [] → Phase b v unit slot
  | sent (q : UnitRequest) : slot.current = some { reference := q.reference, job := q.job } →
    v.pending unit = [] → v.halts unit = false → v.inbox b.requests unit = [q] → Phase b v unit slot
  | working (q : UnitRequest) (run : CompilerRun) : (q, run) ∈ v.begun → q.unit = unit →
    InHand b v q run slot → v.inbox b.requests unit = [] → Phase b v unit slot
  /-- Only a run retires a unit that was ready. -/
  | retired : slot.retired = true → v.inbox b.requests unit = [] →
    (slot.ready = true → ∃ q run, (q, run) ∈ v.begun ∧ q.unit = unit ∧ run.retires = true ∧
      answersTo b.answers q.job.number = run.answers q.unit q.job) → Phase b v unit slot

/-- What holds of units and runs. -/
structure Kept (b : Board) (v : Floor) : Prop where
  sound : Sound b
  requests : ∀ q ∈ b.requests, q.delivered = true ∧ q.unit < b.units.length
  taken : ∀ unit, v.taken unit <+: sentTo b.requests unit
  begun : ∀ q run, (q, run) ∈ v.begun → Progress b v q run
  units : ∀ unit slot, b.units[unit]? = some slot → Phase b v unit slot

/-! ## Answers that are not given again -/

section

variable {b c : Board} {q : UnitRequest} {run : CompilerRun} {slot slot' : UnitSlot}

/-- A job that has had its last answer gets no other one. -/
theorem answersTo_of_ended (hb : Ledger b) (hc : Ledger c) (ha : b.answers <+: c.answers) {k : Nat}
    (hk : k ∈ ended b.answers) : answersTo c.answers k = answersTo b.answers k := by
  have hprefix : answersTo b.answers k <+: answersTo c.answers k := ha.filter _
  have hk' : k ∈ ended c.answers := (ha.filterMap _).subset hk
  rcases hb.answered k hk with ⟨e, he⟩ | ⟨x, result, he⟩ <;>
    rcases hc.answered k hk' with ⟨e', he'⟩ | ⟨x', result', he'⟩ <;>
    rw [he, he'] at hprefix ⊢ <;> simp_all

/-- A job that a unit works on gets no other report. -/
theorem answersTo_of_reported {f : InFlight} (hb : Waits b.answers f) (hc : Waits c.answers f)
    (ha : b.answers <+: c.answers) :
    answersTo c.answers f.job.number = answersTo b.answers f.job.number := by
  have hprefix : answersTo b.answers f.job.number <+: answersTo c.answers f.job.number :=
    ha.filter _
  rcases hb with ⟨hr, he⟩ | ⟨x, hr, he⟩ <;> rcases hc with ⟨hr', he'⟩ | ⟨x', hr', he'⟩ <;>
    rw [he, he'] at hprefix ⊢ <;> simp_all

theorem Finished.mem_ended (h : Finished b q run slot) : q.job.number ∈ ended b.answers := by
  obtain ⟨a, ha, hlast⟩ := run.exists_last q.unit q.job
  rw [← h.answers] at ha
  exact List.mem_filterMap.2 ⟨a, List.mem_of_mem_filter ha, hlast⟩

/-- What a job was answered stays, and so does the retirement of the unit. -/
theorem Finished.later (h : Finished b q run slot) (hb : Ledger b) (hc : Ledger c)
    (ha : b.answers <+: c.answers) (hr : slot.retired = true → slot'.retired = true) :
    Finished c q run slot' :=
  ⟨(answersTo_of_ended hb hc ha h.mem_ended).trans h.answers, fun hn => hr (h.retired hn)⟩

end

/-! ## Which run a unit is at -/

namespace InHand

variable {b : Board} {v : Floor} {q : UnitRequest} {run : CompilerRun} {slot : UnitSlot}

theorem exists_current (h : InHand b v q run slot) :
    ∃ reported, slot.current = some { reference := q.reference, job := q.job, reported } := by
  cases h with
  | compiling hc => exact ⟨_, hc⟩
  | generating _ _ _ hc => exact ⟨_, hc⟩

theorem pending_ne_nil (h : InHand b v q run slot) : v.pending q.unit ≠ [] := by
  cases h with
  | compiling _ hp => simp [hp, CompilerRun.messages]
  | generating _ _ _ _ hp => simp [hp, CompilerRun.messages]

end InHand

namespace Kept

variable {b : Board} {v : Floor}

theorem mem_requests (h : Kept b v) {q : UnitRequest} {run : CompilerRun}
    (hx : (q, run) ∈ v.begun) : q ∈ b.requests := by
  have hq : q ∈ v.taken q.unit :=
    List.mem_filter.2 ⟨List.mem_map_of_mem (f := Prod.fst) hx, by simp⟩
  exact List.mem_of_mem_filter ((h.taken q.unit).subset hq)

/-- No job is requested twice, since every request could be sent. -/
theorem nodup_requests (h : Kept b v) : (requested b.requests).Nodup := by
  rw [requested, List.Nodup, List.pairwise_map]
  refine h.sound.inOrder.requests.imp_of_mem ?_
  rintro q q' hq - (hlt | ⟨-, hd⟩)
  · exact Nat.ne_of_lt hlt
  · rw [(h.requests q hq).1] at hd
    cases hd

/-- No job has two runs. -/
theorem nodup_begun (h : Kept b v) : (v.begun.map (·.1.job.number)).Nodup := by
  have hinj := List.inj_on_of_nodup_map h.nodup_requests
  -- Units take what was sent to them, so a request was taken at most as often as it was sent.
  have hbegun : (v.begun.map (·.1)).Nodup := by
    refine List.nodup_iff_count_le_one.2 fun q => ?_
    calc (v.begun.map (·.1)).count q = (v.taken q.unit).count q :=
          (List.count_filter (by simp)).symm
      _ ≤ (sentTo b.requests q.unit).count q := (h.taken q.unit).sublist.count_le q
      _ ≤ b.requests.count q := List.filter_sublist.count_le q
      _ ≤ 1 := List.nodup_iff_count_le_one.1 (.of_map _ h.nodup_requests) q
  rw [show (fun x : UnitRequest × CompilerRun => x.1.job.number) =
    (fun q => q.job.number) ∘ Prod.fst from rfl, ← List.map_map]
  refine List.Nodup.map_on (fun q hq q' hq' heq => ?_) hbegun
  obtain ⟨x, hx, rfl⟩ := List.mem_map.1 hq
  obtain ⟨y, hy, rfl⟩ := List.mem_map.1 hq'
  exact hinj (h.mem_requests hx) (h.mem_requests hy) heq

/-- A unit works on one request at a time. -/
theorem unique (h : Kept b v) {q q' : UnitRequest} {run run' : CompilerRun} {slot : UnitSlot}
    (hx : (q, run) ∈ v.begun) (hx' : (q', run') ∈ v.begun) (hi : InHand b v q run slot)
    (hi' : InHand b v q' run' slot) : (q', run') = (q, run) := by
  obtain ⟨_, hc⟩ := hi.exists_current
  obtain ⟨_, hc'⟩ := hi'.exists_current
  obtain ⟨-, hjob, -⟩ := InFlight.mk.inj (Option.some.inj (hc'.symm.trans hc))
  exact List.inj_on_of_nodup_map h.nodup_begun hx' hx (congrArg Job.number hjob)

/-- A job whose report is waited for was answered nothing. -/
theorem unanswered (h : Kept b v) {u : Nat} {slot : UnitSlot} {f : InFlight}
    (hu : b.units[u]? = some slot) (hf : slot.current = some f) (hr : f.reported = false) :
    answersTo b.answers f.job.number = [] := by
  rcases h.sound.ledger.waits slot (List.mem_of_getElem? hu) f hf with ⟨-, hn⟩ | ⟨_, hn, -⟩
  · exact hn
  · cases hr.symm.trans hn

/-- A run whose unit has no current job or has said everything is over. -/
theorem finished (h : Kept b v) {q : UnitRequest} {run : CompilerRun} {slot : UnitSlot}
    (hx : (q, run) ∈ v.begun) (hu : b.units[q.unit]? = some slot)
    (hn : v.pending q.unit = [] ∨ slot.current = none) : Finished b q run slot := by
  obtain ⟨slot', hu', -, hi | hf⟩ := h.begun q run hx
  · rw [hu] at hu'
    cases hu'
    obtain ⟨_, hc⟩ := hi.exists_current
    rcases hn with hn | hn
    · exact absurd hn hi.pending_ne_nil
    · rw [hn] at hc
      cases hc
  · rw [hu] at hu'
    cases hu'
    exact hf

theorem ready_of_begun (h : Kept b v) {q : UnitRequest} {run : CompilerRun} {slot : UnitSlot}
    (hx : (q, run) ∈ v.begun) (hu : b.units[q.unit]? = some slot) : slot.ready = true := by
  obtain ⟨slot', hu', hready, -⟩ := h.begun q run hx
  rw [hu] at hu'
  cases hu'
  exact hready

/-- An idle unit has nothing to say and waits. -/
theorem quiet_of_idle (h : Kept b v) {u : Nat} (hi : u ∈ b.idle) :
    v.pending u = [] ∧ v.halts u = false ∧ v.inbox b.requests u = [] := by
  obtain ⟨slot, hu, hready, hretired, hc⟩ := h.sound.manned.idle u hi
  cases h.units u slot hu with
  | starting _ hn => cases hready.symm.trans hn
  | idle _ hp hh hbox => exact ⟨hp, hh, hbox⟩
  | sent _ hn => cases hc.symm.trans hn
  | working _ _ _ _ hn =>
    obtain ⟨_, hn⟩ := hn.exists_current
    cases hc.symm.trans hn
  | retired hn => cases hretired.symm.trans hn

end Kept

/-! ## What one unit does is nothing to the others -/

/-- What the other units see of something that happens to one unit. -/
structure Apart (unit : Nat) (b c : Board) (v w : Floor) : Prop where
  answers : b.answers <+: c.answers
  units : ∀ u ≠ unit, c.units[u]? = b.units[u]?
  idle : ∀ u ≠ unit, u ∈ b.idle → u ∈ c.idle
  requests : ∀ u ≠ unit, sentTo c.requests u = sentTo b.requests u
  pending : ∀ u ≠ unit, w.pending u = v.pending u
  halts : ∀ u ≠ unit, w.halts u = v.halts u
  begun : ∃ new, w.begun = v.begun ++ new ∧ ∀ x ∈ new, x.1.unit = unit

namespace Apart

variable {unit : Nat} {b c : Board} {v w : Floor}

theorem mem_begun (h : Apart unit b c v w) {x : UnitRequest × CompilerRun} (hx : x ∈ v.begun) :
    x ∈ w.begun := by
  obtain ⟨new, hnew, -⟩ := h.begun
  exact hnew ▸ List.mem_append_left _ hx

theorem of_mem_begun (h : Apart unit b c v w) {x : UnitRequest × CompilerRun} (hx : x ∈ w.begun)
    (hne : x.1.unit ≠ unit) : x ∈ v.begun := by
  obtain ⟨new, hnew, hunit⟩ := h.begun
  rw [hnew] at hx
  exact (List.mem_append.1 hx).resolve_right fun hx => hne (hunit x hx)

theorem taken (h : Apart unit b c v w) {u : Nat} (hne : u ≠ unit) : w.taken u = v.taken u := by
  obtain ⟨new, hnew, hunit⟩ := h.begun
  have hnone : (new.map (·.1)).filter (·.unit = u) = [] := by
    refine List.filter_eq_nil_iff.2 fun q hq => ?_
    obtain ⟨x, hx, rfl⟩ := List.mem_map.1 hq
    simpa [hunit x hx] using hne.symm
  rw [Floor.taken, hnew, List.map_append, List.filter_append, hnone, List.append_nil]
  rfl

theorem inbox (h : Apart unit b c v w) {u : Nat} (hne : u ≠ unit) :
    w.inbox c.requests u = v.inbox b.requests u := by
  rw [Floor.inbox, h.taken hne, h.requests u hne]
  rfl

variable {q : UnitRequest} {run : CompilerRun}

theorem inHand (h : Apart unit b c v w) (hb : Ledger b) (hc : Ledger c) {slot : UnitSlot}
    (hu : b.units[q.unit]? = some slot) (hne : q.unit ≠ unit) (hi : InHand b v q run slot) :
    InHand c w q run slot := by
  have hu' : c.units[q.unit]? = some slot := (h.units _ hne).trans hu
  cases hi with
  | compiling hcurrent hp hh =>
    exact .compiling hcurrent ((h.pending _ hne).trans hp) ((h.halts _ hne).trans hh)
  | generating x rest hr hcurrent hp hh ha =>
    -- The ledger has one report for the job, before and behind.
    have hsame := answersTo_of_reported (hb.waits slot (List.mem_of_getElem? hu) _ hcurrent)
      (hc.waits slot (List.mem_of_getElem? hu') _ hcurrent) h.answers
    exact .generating x rest hr hcurrent ((h.pending _ hne).trans hp) ((h.halts _ hne).trans hh)
      (hsame.trans ha)

theorem progress (h : Apart unit b c v w) (hb : Ledger b) (hc : Ledger c) (hne : q.unit ≠ unit)
    (hp : Progress b v q run) : Progress c w q run := by
  obtain ⟨slot, hu, hready, hp⟩ := hp
  exact ⟨slot, (h.units _ hne).trans hu, hready, hp.imp (h.inHand hb hc hu hne)
    fun hf => hf.later hb hc h.answers id⟩

theorem phase (h : Apart unit b c v w) (hk : Kept b v) (hc : Ledger c) {u : Nat} {slot : UnitSlot}
    (hu : b.units[u]? = some slot) (hne : u ≠ unit) : Phase c w u slot := by
  have hpending := h.pending u hne
  have hhalts := h.halts u hne
  have hinbox := h.inbox hne
  cases hk.units u slot hu with
  | starting s hready hretired hp hh hbox =>
    exact .starting s hready hretired (hpending.trans hp) (hhalts.trans hh) (hinbox.trans hbox)
  | idle hi hp hh hbox =>
    exact .idle (h.idle u hne hi) (hpending.trans hp) (hhalts.trans hh) (hinbox.trans hbox)
  | sent q hcurrent hp hh hbox =>
    exact .sent q hcurrent (hpending.trans hp) (hhalts.trans hh) (hinbox.trans hbox)
  | working q run hx hunit hi hbox =>
    subst hunit
    exact .working q run (h.mem_begun hx) rfl (h.inHand hk.sound.ledger hc hu hne hi)
      (hinbox.trans hbox)
  | retired hretired hbox hrun =>
    refine .retired hretired (hinbox.trans hbox) fun hready => ?_
    obtain ⟨q, run, hx, rfl, hn, ha⟩ := hrun hready
    have hf : Finished b q run slot := ⟨ha, fun _ => hretired⟩
    exact ⟨q, run, h.mem_begun hx, rfl, hn, (hf.later hk.sound.ledger hc h.answers id).answers⟩

end Apart

namespace Kept

variable {b c : Board} {v w : Floor}

/-- Something happens to one unit: what is kept is to be shown of that unit. -/
theorem apart (h : Kept b v) (unit : Nat) (ha : Apart unit b c v w) (hs : Sound c)
    (hr : ∀ q ∈ c.requests, q.delivered = true ∧ q.unit < c.units.length)
    (ht : w.taken unit <+: sentTo c.requests unit)
    (hx : ∀ q run, (q, run) ∈ w.begun → q.unit = unit → Progress c w q run)
    (hu : ∀ slot, c.units[unit]? = some slot → Phase c w unit slot) : Kept c w := by
  refine ⟨hs, hr, fun u => ?_, fun q run hq => ?_, fun u slot hslot => ?_⟩
  · by_cases hne : u = unit
    · exact hne ▸ ht
    · rw [ha.taken hne, ha.requests u hne]
      exact h.taken u
  · by_cases hne : q.unit = unit
    · exact hx q run hq hne
    · exact ha.progress h.sound.ledger hs.ledger hne (h.begun q run (ha.of_mem_begun hq hne))
  · by_cases hne : u = unit
    · subst hne
      exact hu slot hslot
    · exact ha.phase h hs.ledger ((ha.units u hne).symm.trans hslot) hne

/-- Nothing happens to units. -/
theorem beside (h : Kept b v) (hs : Sound c) (ha : b.answers <+: c.answers)
    (hu : c.units = b.units) (hi : c.idle = b.idle) (hr : c.requests = b.requests) : Kept c v := by
  refine h.apart b.units.length ⟨ha, fun u _ => by rw [hu], fun u _ hm => hi ▸ hm,
    fun u _ => by rw [hr], fun _ _ => rfl, fun _ _ => rfl, [], by simp, by simp⟩ hs
    (hr ▸ hu ▸ h.requests) (hr ▸ h.taken _) ?_ ?_
  · rintro q run hx hunit
    obtain ⟨slot, hslot, -⟩ := h.begun q run hx
    rw [hunit] at hslot
    simp at hslot
  · intro slot hslot
    rw [hu] at hslot
    simp at hslot

end Kept

end ScriptLoader.Pool
