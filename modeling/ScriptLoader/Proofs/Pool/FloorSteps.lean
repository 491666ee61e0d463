import ScriptLoader.Proofs.Pool.Floor

/-!
# What units say keeps them with their runs

A message of a unit is the next one of the run that the unit is at. So it is passed on, frees the
unit or dismisses it as the run has it, and whatever else the pool hears is of a unit that it has
retired.

* `Pool.Kept.handle`: what the pool does with a message.
* `Pool.Kept.take`, `Pool.Kept.leave`: what threads do beside.
-/

namespace ScriptLoader.Pool

/-- A message of a unit was heard. -/
def Floor.hear (v : Floor) (unit : Nat) (rest : List UnitMessage) : Floor :=
  { v with pending := Function.update v.pending unit rest }

/-- A unit takes a request. -/
def Floor.take (v : Floor) (q : UnitRequest) (run : CompilerRun) : Floor where
  pending := Function.update v.pending q.unit (run.messages q.reference)
  halts := Function.update v.halts q.unit run.ending.stops
  begun := v.begun ++ [(q, run)]

/-- The thread of a unit ends. -/
def Floor.leave (v : Floor) (unit : Nat) : Floor :=
  { v with halts := Function.update v.halts unit true }

theorem Floor.pending_hear (v : Floor) (unit : Nat) (rest : List UnitMessage) :
    (v.hear unit rest).pending unit = rest := Function.update_self ..

variable {b c : Board} {v : Floor}

theorem Apart.hear {unit : Nat} {rest : List UnitMessage} (ha : b.answers <+: c.answers)
    (hu : ∀ u ≠ unit, c.units[u]? = b.units[u]?) (hi : ∀ u ≠ unit, u ∈ b.idle → u ∈ c.idle)
    (hr : c.requests = b.requests) : Apart unit b c v (v.hear unit rest) :=
  ⟨ha, hu, hi, fun u _ => by rw [hr],
    fun _ hne => Function.update_of_ne hne _ _, fun _ _ => rfl, [], by simp [Floor.hear], by simp⟩

namespace Kept

/-! ## The pool by itself -/

theorem closes (h : Kept b v) (hc : Closes b c) : Kept c v := by
  have hs := sound_steps hc.steps h.sound
  cases hc with
  | stays => exact h
  | closed reason e hopen => exact h.beside hs (List.prefix_append _ _) rfl rfl rfl

theorem turn (h : Kept b v) (ht : Turn b c) : Kept c v := by
  have hs := sound_steps (.single ht.step) h.sound
  cases ht with
  | skip => exact h.beside hs (List.prefix_refl _) rfl rfl rfl
  | @send unit reference slot job idle rest hu hi hq =>
    have hmem : unit ∈ b.idle := hi ▸ List.mem_cons_self
    obtain ⟨slot', hu', hready, hretired, hcurrent⟩ := h.sound.manned.idle unit hmem
    rw [hu] at hu'
    cases hu'
    obtain ⟨hpending, hhalts, hinbox⟩ := h.quiet_of_idle hmem
    have hbound := (List.getElem?_eq_some_iff.1 hu).1
    refine h.apart unit ⟨List.prefix_refl _, ?_, ?_, ?_, fun _ _ => rfl, fun _ _ => rfl,
      [], by simp, by simp⟩ hs ?_ ?_ ?_ ?_
    · exact fun u hne => List.getElem?_set_ne hne.symm
    · intro u hne hm
      rw [hi] at hm
      exact (List.mem_cons.1 hm).resolve_left hne
    · intro u hne
      rw [sentTo_concat, if_neg hne.symm, List.append_nil]
    · intro q hq
      rw [List.length_set]
      rcases List.mem_append.1 hq with hq | hq
      · exact h.requests q hq
      · rw [List.mem_singleton.1 hq]
        exact ⟨rfl, hbound⟩
    · rw [sentTo_concat]
      exact (h.taken unit).trans (List.prefix_append _ _)
    · rintro q run hx rfl
      have hf := h.finished hx hu (.inr hcurrent)
      exact ⟨_, List.getElem?_set_self hbound, hready,
        .inr (hf.later h.sound.ledger hs.ledger (List.prefix_refl _) id)⟩
    · intro slot' hslot
      rw [List.getElem?_set_self hbound] at hslot
      cases hslot
      -- The unit has taken all that was sent to it before, so the new request is alone.
      refine .sent { unit, reference, job, delivered := true } rfl hpending hhalts ?_
      rw [Floor.inbox, sentTo_concat, if_pos rfl,
        List.drop_append_of_le_length (h.taken unit).length_le]
      exact congrArg (· ++ _) hinbox

theorem turns (h : Kept b v) (ht : Relation.ReflTransGen Turn b c) : Kept c v := by
  induction ht with
  | refl => exact h
  | tail _ ht ih => exact ih.turn ht

/-! ## Messages -/

section

variable {q : UnitRequest} {run : CompilerRun} {slot slot' : UnitSlot} {rest : List UnitMessage}

/-- Every other run of the unit that is at a run is over. -/
theorem finished_of_ne (h : Kept b v) (hx : (q, run) ∈ v.begun)
    (hu : b.units[q.unit]? = some slot) (hi : InHand b v q run slot) {q' : UnitRequest}
    {run' : CompilerRun} (hx' : (q', run') ∈ v.begun) (hunit : q'.unit = q.unit)
    (hne : (q', run') ≠ (q, run)) : Finished b q' run' slot := by
  obtain ⟨slot', hu', -, hi' | hf⟩ := h.begun q' run' hx'
  · rw [hunit, hu] at hu'
    cases hu'
    exact absurd (h.unique hx hx' hi hi') hne
  · rw [hunit, hu] at hu'
    cases hu'
    exact hf

/-- A message of a unit that is not retired: what is kept is to be shown of that unit. -/
theorem hear (h : Kept b v) {unit : Nat} (hu : b.units[unit]? = some slot) (hs : Sound c)
    (ha : b.answers <+: c.answers) (hunits : c.units = b.units.set unit slot')
    (hidle : ∀ u ≠ unit, u ∈ b.idle → u ∈ c.idle) (hr : c.requests = b.requests)
    (hx : ∀ q run, (q, run) ∈ v.begun → q.unit = unit → slot'.ready = true ∧
      (InHand c (v.hear unit rest) q run slot' ∨ Finished c q run slot'))
    (hphase : Phase c (v.hear unit rest) unit slot') : Kept c (v.hear unit rest) := by
  have hslot : c.units[unit]? = some slot' := by
    rw [hunits]
    exact List.getElem?_set_self (List.getElem?_eq_some_iff.1 hu).1
  refine h.apart _ (.hear ha ?_ hidle hr) hs ?_ (hr ▸ h.taken _) ?_ ?_
  · intro u hne
    rw [hunits, List.getElem?_set_ne hne.symm]
  · rw [hr, hunits, List.length_set]
    exact h.requests
  · rintro q run hq rfl
    obtain ⟨hready, hp⟩ := hx q run hq rfl
    exact ⟨slot', hslot, hready, hp⟩
  · intro slot'' hu''
    rw [hslot] at hu''
    cases hu''
    exact hphase

/-- A message of the run that a unit is at: what is kept is to be shown of that run. -/
theorem hear_inHand (h : Kept b v) (hx : (q, run) ∈ v.begun) (hu : b.units[q.unit]? = some slot)
    (hi : InHand b v q run slot) (hs : Sound c) (ha : b.answers <+: c.answers)
    (hunits : c.units = b.units.set q.unit slot')
    (hidle : ∀ u ≠ q.unit, u ∈ b.idle → u ∈ c.idle) (hr : c.requests = b.requests)
    (hready : slot'.ready = slot.ready)
    (hp : InHand c (v.hear q.unit rest) q run slot' ∨ Finished c q run slot')
    (hphase : Phase c (v.hear q.unit rest) q.unit slot') : Kept c (v.hear q.unit rest) := by
  have hretired : slot.retired = false := by
    obtain ⟨_, hc⟩ := hi.exists_current
    exact (h.sound.manned.working slot (List.mem_of_getElem? hu) (by simp [hc])).2
  refine h.hear hu hs ha hunits hidle hr (fun q' run' hx' hunit => ?_) hphase
  refine ⟨hready.trans (h.ready_of_begun hx hu), ?_⟩
  by_cases hne : (q', run') = (q, run)
  · cases hne
    exact hp
  · -- The slot is of one run only: the others are over, and no answer is added to them.
    refine .inr ((h.finished_of_ne hx hu hi hx' hunit hne).later h.sound.ledger hs.ledger ha ?_)
    simp [hretired]

theorem inbox_of_inHand (h : Kept b v) (hx : (q, run) ∈ v.begun)
    (hu : b.units[q.unit]? = some slot) (hi : InHand b v q run slot) :
    v.inbox b.requests q.unit = [] := by
  have hpending := hi.pending_ne_nil
  cases h.units q.unit slot hu with
  | starting _ hn => cases (h.ready_of_begun hx hu).symm.trans hn
  | idle _ hn => exact absurd hn hpending
  | sent _ _ hn => exact absurd hn hpending
  | working _ _ _ _ _ hbox => exact hbox
  | retired _ hbox => exact hbox

/-- The first report is passed on. -/
theorem passOn (h : Kept b v) (hx : (q, run) ∈ v.begun) (hu : b.units[q.unit]? = some slot)
    (hc : slot.current = some { reference := q.reference, job := q.job })
    (hi : InHand b v q run slot) (hh : v.halts q.unit = run.ending.stops) {x : Compile.Report}
    {reports : List Compile.Report} (hr : run.reports = x :: reports) :
    Kept (b.passOn q.unit slot { reference := q.reference, job := q.job } x)
      (v.hear q.unit ((CompilerRun.mk reports run.ending).messages q.reference)) := by
  have hs := sound_steps (.single (.report x hu hc rfl)) h.sound
  have hnone : answersTo b.answers q.job.number = [] := h.unanswered hu hc rfl
  have hi' : InHand (b.passOn q.unit slot ⟨q.reference, q.job, false⟩ x)
      (v.hear q.unit ((CompilerRun.mk reports run.ending).messages q.reference)) q run
      { slot with current := some ⟨q.reference, q.job, true⟩ } := by
    refine .generating x reports hr rfl (v.pending_hear _ _) hh ?_
    rw [Board.passOn, answersTo_append, hnone]
    simp [answersTo, Answer.job]
  exact h.hear_inHand hx hu hi hs (List.prefix_append _ _) rfl (fun _ _ hm => hm) rfl rfl
    (.inl hi') (.working q run hx rfl hi' (h.inbox_of_inHand hx hu hi))

/-- The answer that the run of a job still lacked was given. -/
theorem answersTo_concat {answers : List Answer} {a : Answer}
    (h : answersTo answers q.job.number ++ [a] = run.answers q.unit q.job) :
    answersTo (answers ++ [a]) q.job.number = run.answers q.unit q.job := by
  have hjob : a.job = q.job.number :=
    CompilerRun.job_of_mem_answers (h ▸ List.mem_append_right _ List.mem_cons_self)
  rw [answersTo_append, ← h]
  simp [answersTo, hjob]

/-- The last message of a run frees the unit. -/
theorem free (h : Kept b v) (hx : (q, run) ∈ v.begun) (hu : b.units[q.unit]? = some slot)
    {f : InFlight} (hf : slot.current = some f) (hi : InHand b v q run slot) {a : Answer}
    (ha : Ends f a)
    (hanswers : answersTo b.answers q.job.number ++ [a] = run.answers q.unit q.job)
    (hretires : run.retires = false) (hh : v.halts q.unit = false) :
    Kept (b.free q.unit slot a) (v.hear q.unit []) := by
  have hs := sound_steps (.single (.finish hu hf ha)) h.sound
  have hfinished : Finished (b.free q.unit slot a) q run { slot with current := none } :=
    ⟨answersTo_concat hanswers, fun hn => absurd (hretires.symm.trans hn) Bool.false_ne_true⟩
  exact h.hear_inHand hx hu hi hs (List.prefix_append _ _) rfl
    (fun _ _ hm => List.mem_append_left _ hm) rfl rfl (.inr hfinished)
    (.idle (List.mem_append_right _ List.mem_cons_self) (v.pending_hear _ _) hh
      (h.inbox_of_inHand hx hu hi))

/-- A message dismisses the unit, whatever follows. -/
theorem dismiss (h : Kept b v) (hx : (q, run) ∈ v.begun) (hu : b.units[q.unit]? = some slot)
    {f : InFlight} (hf : slot.current = some f) (hi : InHand b v q run slot) {a : Answer}
    (ha : Ends f a)
    (hanswers : answersTo b.answers q.job.number ++ [a] = run.answers q.unit q.job)
    (hretires : run.retires = true) :
    Kept (b.dismiss q.unit slot a) (v.hear q.unit rest) := by
  have hs := sound_steps (steps_withdraw hu hf ha) h.sound
  have hfinished : Finished (b.dismiss q.unit slot a) q run (withdrawn slot) :=
    ⟨answersTo_concat hanswers, fun _ => rfl⟩
  exact h.hear_inHand hx hu hi hs (List.prefix_append _ _) rfl
    (fun u hne hm => List.mem_filter.2 ⟨hm, by simpa using hne⟩) rfl rfl (.inr hfinished)
    (.retired rfl (h.inbox_of_inHand hx hu hi) fun _ =>
      ⟨q, run, hx, rfl, hretires, hfinished.answers⟩)

/-! ## The runs of a unit

A run is at its first message as long as nothing of it was heard, and otherwise its report was
passed on. The message is the next report, or the end of the run. -/

variable {p : Pool} {n : Nat} {m : UnitMessage}

/-- The first message of a run. -/
theorem receive_compiling (h : Kept (p.board n) v) (hx : (q, run) ∈ v.begun)
    (hu : p.units[q.unit]? = some slot) (hretired : slot.retired = false)
    (hc : slot.current = some { reference := q.reference, job := q.job })
    (hp : v.pending q.unit = run.messages q.reference)
    (hh : v.halts q.unit = run.ending.stops) (hm : v.pending q.unit = m :: rest) :
    Kept ((p.receive q.unit slot m).board n) (v.hear q.unit rest) := by
  have hi : InHand (p.board n) v q run slot := .compiling hc hp hh
  have hfirst : ∀ a, answersTo (p.board n).answers q.job.number ++ [a] = [a] := by
    intro a
    rw [h.unanswered hu hc rfl, List.nil_append]
  obtain ⟨reports, ending⟩ := run
  cases reports with
  | cons x reports =>
    cases hm.symm.trans hp
    rw [receive_report hc rfl]
    exact h.passOn hx hu hc hi hh rfl
  | nil =>
    simp only [CompilerRun.messages, List.map_nil, List.nil_append] at hp
    cases ending with
    | code text =>
      rw [RunEnd.message] at hp
      cases hm.symm.trans hp
      exact (h.dismiss hx hu hc hi (.refusal _ rfl) (hfirst _) rfl).closes
        (closes_code hu hretired hc rfl text)
    | failure e =>
      rw [RunEnd.message] at hp
      cases hm.symm.trans hp
      rw [receive_failed hc]
      exact h.free hx hu hc hi (ends_failure _ _) (hfirst _) rfl hh
    | breakdown reason =>
      rw [RunEnd.message] at hp
      cases hm.symm.trans hp
      exact (h.dismiss hx hu hc hi (ends_failure _ _) (hfirst _) rfl).closes
        (closes_failed hu hretired hc { message := s!"compiler panicked: {reason}" })

/-- The message behind the first report of a run. -/
theorem receive_generating (h : Kept (p.board n) v) (hx : (q, run) ∈ v.begun)
    (hu : p.units[q.unit]? = some slot) (hretired : slot.retired = false) {x : Compile.Report}
    {reports : List Compile.Report} (hr : run.reports = x :: reports)
    (hc : slot.current = some { reference := q.reference, job := q.job, reported := true })
    (hp : v.pending q.unit = (CompilerRun.mk reports run.ending).messages q.reference)
    (hh : v.halts q.unit = run.ending.stops)
    (ha : answersTo p.answers q.job.number = [.report q.job.number (.ok x)])
    (hm : v.pending q.unit = m :: rest) :
    Kept ((p.receive q.unit slot m).board n) (v.hear q.unit rest) := by
  have hi : InHand (p.board n) v q run slot := .generating x reports hr hc hp hh ha
  have hsecond : ∀ a, answersTo (p.board n).answers q.job.number ++ [a] =
      [.report q.job.number (.ok x), a] := fun a => congrArg (· ++ [a]) ha
  obtain ⟨_, ending⟩ := run
  cases hr
  cases reports with
  | cons y reports =>
    cases hm.symm.trans hp
    refine (h.dismiss hx hu hc hi (.code _ rfl) (hsecond _) ?_).closes
      (closes_report hu hretired hc rfl y)
    cases ending <;> rfl
  | nil =>
    simp only [CompilerRun.messages, List.map_nil, List.nil_append] at hp
    cases ending with
    | code text =>
      rw [RunEnd.message] at hp
      cases hm.symm.trans hp
      rw [receive_code hc rfl]
      exact h.free hx hu hc hi (.code _ rfl) (hsecond _) rfl hh
    | failure e =>
      rw [RunEnd.message] at hp
      cases hm.symm.trans hp
      rw [receive_failed hc]
      exact h.free hx hu hc hi (ends_failure _ _) (hsecond _) rfl hh
    | breakdown reason =>
      rw [RunEnd.message] at hp
      cases hm.symm.trans hp
      exact (h.dismiss hx hu hc hi (ends_failure _ _) (hsecond _) rfl).closes
        (closes_failed hu hretired hc { message := s!"compiler panicked: {reason}" })

end

theorem current_of_retired (h : Kept b v) {unit : Nat} {slot : UnitSlot}
    (hu : b.units[unit]? = some slot) (hr : slot.retired = true) : slot.current = none := by
  by_contra hc
  have hn := (h.sound.manned.working slot (List.mem_of_getElem? hu) hc).2
  rw [hr] at hn
  cases hn

/-- A unit that was retired has taken every request. If it was ready, a run retired it. -/
theorem of_retired (h : Kept b v) {unit : Nat} {slot : UnitSlot} (hu : b.units[unit]? = some slot)
    (hr : slot.retired = true) : v.inbox b.requests unit = [] ∧ (slot.ready = true →
      ∃ q run, (q, run) ∈ v.begun ∧ q.unit = unit ∧ run.retires = true ∧
        answersTo b.answers q.job.number = run.answers q.unit q.job) := by
  have hfree := h.current_of_retired hu hr
  cases h.units unit slot hu with
  | starting _ _ hn => cases hr.symm.trans hn
  | idle hi =>
    obtain ⟨slot', hu', -, hn, -⟩ := h.sound.manned.idle unit hi
    cases hu.symm.trans hu'
    cases hr.symm.trans hn
  | sent _ hn => cases hfree.symm.trans hn
  | working _ _ _ _ hi =>
    obtain ⟨_, hn⟩ := hi.exists_current
    cases hfree.symm.trans hn
  | retired _ hbox hrun => exact ⟨hbox, hrun⟩

/-- The pool does not hear a unit that it has retired, and the thread of that unit may end. -/
theorem of_apart_retired (h : Kept b v) {w : Floor} (unit : Nat) (ha : Apart unit b b v w)
    (hb : w.begun = v.begun) (hr : ∀ slot, b.units[unit]? = some slot → slot.retired = true) :
    Kept b w := by
  have ht : w.taken = v.taken := by
    funext u
    rw [Floor.taken, hb]
    rfl
  refine h.apart unit ha h.sound h.requests (ht ▸ h.taken unit) ?_ ?_
  · rintro q run hx rfl
    rw [hb] at hx
    obtain ⟨slot, hu, hready, -⟩ := h.begun q run hx
    exact ⟨slot, hu, hready, .inr (h.finished hx hu (.inr (h.current_of_retired hu (hr slot hu))))⟩
  · intro slot hu
    obtain ⟨hbox, hrun⟩ := h.of_retired hu (hr slot hu)
    refine .retired (hr slot hu) ?_ (hb ▸ hrun)
    rw [Floor.inbox, ht]
    exact hbox

theorem hear_retired (h : Kept b v) {unit : Nat} {rest : List UnitMessage}
    (hr : ∀ slot, b.units[unit]? = some slot → slot.retired = true) :
    Kept b (v.hear unit rest) :=
  h.of_apart_retired unit
    (.hear (List.prefix_refl _) (fun _ _ => rfl) (fun _ _ hm => hm) rfl) rfl hr

/-- A unit says how it started. -/
theorem receive_starting {p : Pool} {n unit : Nat} {slot : UnitSlot} (h : Kept (p.board n) v)
    (hu : p.units[unit]? = some slot) (hr : slot.retired = false) (hready : slot.ready = false)
    (s : UnitStart) (hh : v.halts unit = s.isSome)
    (hbox : v.inbox (p.board n).requests unit = []) :
    Kept ((p.receive unit slot (Rehearsal.startMessage s)).board n) (v.hear unit []) := by
  have hs := sound_steps (steps_receive h.sound.manned hu hr (Rehearsal.startMessage s)) h.sound
  have hnone : ∀ q run, (q, run) ∈ v.begun → q.unit ≠ unit := by
    rintro q run hx rfl
    cases (h.ready_of_begun hx hu).symm.trans hready
  cases s with
  | none =>
    have hboard := receive_ready p n unit hready
    rw [Rehearsal.startMessage] at hs ⊢
    rw [hboard] at hs ⊢
    exact h.hear hu hs (List.prefix_refl _) rfl (fun _ _ hi => List.mem_append_left _ hi) rfl
      (fun q run hx hunit => absurd hunit (hnone q run hx))
      (.idle (List.mem_append_right _ List.mem_cons_self) (v.pending_hear _ _) hh hbox)
  | some reason =>
    have hclose := closes_initFailed p n unit hready reason
    rw [Rehearsal.startMessage] at hs ⊢
    generalize (p.receive unit slot (.initFailed reason)).board n = c at hs hclose
    have ha := hclose.answers
    -- The pool may close here, which is nothing to units: both cases are alike.
    cases hclose <;> exact h.hear hu hs ha rfl (fun _ _ hi => hi) rfl
      (fun q run hx hunit => absurd hunit (hnone q run hx))
      (.retired rfl hbox fun hn => absurd (hready.symm.trans hn) Bool.false_ne_true)

/-- The next message of a unit that is not retired. -/
theorem receive {p : Pool} {n unit : Nat} {slot : UnitSlot} {m : UnitMessage}
    {rest : List UnitMessage} (h : Kept (p.board n) v) (hu : p.units[unit]? = some slot)
    (hr : slot.retired = false) (hm : v.pending unit = m :: rest) :
    Kept ((p.receive unit slot m).board n) (v.hear unit rest) := by
  cases h.units unit slot hu with
  | starting s hready _ hp hh hbox =>
    cases hm.symm.trans hp
    exact h.receive_starting hu hr hready s hh hbox
  | idle _ hp => cases hm.symm.trans hp
  | sent _ _ hp => cases hm.symm.trans hp
  | working q run hx hunit hi =>
    subst hunit
    cases hi with
    | compiling hc hp hh => exact h.receive_compiling hx hu hr hc hp hh hm
    | generating x reports hreports hc hp hh ha =>
      exact h.receive_generating hx hu hr hreports hc hp hh ha hm
  | retired hn => cases hr.symm.trans hn

/-- Jobs are handed to units whose threads have not ended. -/
theorem dispatch {p : Pool} {n : Nat} (h : Kept (p.board n) v)
    (hs : ∀ u ∈ p.stopped, v.halts u = true) :
    Kept (p.dispatch.board n) v ∧ p.dispatch.stopped = p.stopped := by
  -- Only a thread that halts ends, and the thread of an idle unit waits.
  have hthreads : ∀ u ∈ p.idle, u ∉ p.stopped := by
    intro u hi hn
    have hh := (h.quiet_of_idle hi).2.1
    rw [hs u hn] at hh
    cases hh
  obtain ⟨hturns, hstopped⟩ := turns_dispatch n h.sound.manned hthreads
  exact ⟨h.turns hturns, hstopped⟩

/-- The pool hears the next message of a unit. -/
theorem handle {p : Pool} {n unit : Nat} {m : UnitMessage} {rest : List UnitMessage}
    (h : Kept (p.board n) v) (hs : ∀ u ∈ p.stopped, v.halts u = true)
    (hm : v.pending unit = m :: rest) :
    Kept ((p.handle unit m).board n) (v.hear unit rest) ∧
      (p.handle unit m).stopped = p.stopped := by
  unfold Pool.handle
  split
  · next hu => exact ⟨h.hear_retired fun slot hslot => absurd (hu.symm.trans hslot) (by simp), rfl⟩
  · next slot hu =>
    split
    · next hr =>
      refine ⟨h.hear_retired fun slot' hslot => ?_, rfl⟩
      cases hu.symm.trans hslot
      exact hr
    · next hr =>
      have hstopped := stopped_receive p unit slot m
      have hk := h.receive hu (by simpa using hr) hm
      obtain ⟨hk', hsame⟩ := hk.dispatch (by rw [hstopped]; exact hs)
      exact ⟨hk', hsame.trans hstopped⟩

/-! ## Callers and threads -/

theorem enqueue {p p' : Pool} {n : Nat} {s : Specifier} (h : Kept (p.board n) v)
    (hs : ∀ u ∈ p.stopped, v.halts u = true) (hp : p.enqueue ⟨n, s⟩ = (.ok (), p')) :
    Kept (p'.board (n + 1)) v ∧ p'.stopped = p.stopped := by
  unfold Pool.enqueue at hp
  split at hp
  · cases hp
  · next hopen =>
    cases hp
    have hstep := Step.accept (b := p.board n) s hopen
    have hk : Kept (({ p with queue := p.queue ++ [⟨n, s⟩] } : Pool).board (n + 1)) v :=
      h.beside (sound_steps (.single hstep) h.sound) (List.prefix_refl _) rfl rfl rfl
    exact hk.dispatch hs

theorem abandon {p : Pool} {n : Nat} (h : Kept (p.board n) v) (job : Nat) :
    Kept ((p.abandon job).board n) v :=
  h.beside (sound_steps (.single (.abandon job)) h.sound) (List.prefix_refl _) rfl rfl rfl

/-- A unit that takes a request has said everything, and the request is the only one. -/
theorem sent_of_inbox (h : Kept b v) {q : UnitRequest} {requests : List UnitRequest}
    (hbox : v.inbox b.requests q.unit = q :: requests) : ∃ slot, b.units[q.unit]? = some slot ∧
      slot.current = some { reference := q.reference, job := q.job } ∧ v.pending q.unit = [] ∧
      v.halts q.unit = false ∧ requests = [] := by
  have hq : q ∈ v.inbox b.requests q.unit := hbox ▸ List.mem_cons_self
  have hbound := (h.requests q (List.mem_of_mem_filter (List.mem_of_mem_drop hq))).2
  refine ⟨_, List.getElem?_eq_getElem hbound, ?_⟩
  cases h.units q.unit _ (List.getElem?_eq_getElem hbound) with
  | starting _ _ _ _ _ hn => cases hbox.symm.trans hn
  | idle _ _ _ hn => cases hbox.symm.trans hn
  | sent q' hc hp hh hn =>
    cases hbox.symm.trans hn
    exact ⟨hc, hp, hh, rfl⟩
  | working _ _ _ _ _ hn => cases hbox.symm.trans hn
  | retired _ hn => cases hbox.symm.trans hn

/-- A unit takes the request that was sent to it. -/
theorem take (h : Kept b v) {q : UnitRequest} {requests : List UnitRequest}
    (hbox : v.inbox b.requests q.unit = q :: requests) (run : CompilerRun) :
    Kept b (v.take q run) := by
  obtain ⟨slot, hu, hc, hp, -, rfl⟩ := h.sent_of_inbox hbox
  have htaken : (v.take q run).taken q.unit = v.taken q.unit ++ [q] := by
    simp [Floor.taken, Floor.take]
  have hsent : v.taken q.unit ++ [q] = sentTo b.requests q.unit := by
    rw [← hbox]
    exact (List.prefix_iff_eq_append.1 (h.taken q.unit))
  have hi : InHand b (v.take q run) q run slot :=
    .compiling hc (Function.update_self ..) (Function.update_self ..)
  have hmem : (q, run) ∈ (v.take q run).begun := List.mem_append_right _ List.mem_cons_self
  refine h.apart q.unit ⟨List.prefix_refl _, fun _ _ => rfl, fun _ _ hm => hm,
    fun _ _ => rfl, fun _ hne => Function.update_of_ne hne _ _,
    fun _ hne => Function.update_of_ne hne _ _, [(q, run)], rfl, by simp⟩
    h.sound h.requests ?_ ?_ ?_
  · rw [htaken, hsent]
  · intro q' run' hx hunit
    refine ⟨slot, hunit ▸ hu, ?_, ?_⟩
    · exact (h.sound.manned.working slot (List.mem_of_getElem? hu) (by simp [hc])).1
    · rcases List.mem_append.1 hx with hx | hx
      · have hf := h.finished hx (hunit ▸ hu) (.inl (hunit ▸ hp))
        exact .inr ⟨hf.answers, hf.retired⟩
      · cases List.mem_singleton.1 hx
        exact .inl hi
  · intro slot' hu'
    cases hu.symm.trans hu'
    refine .working q run hmem rfl hi ?_
    rw [Floor.inbox, htaken, hsent, List.drop_length]

/-- The thread of a unit ends. -/
theorem leave (h : Kept b v) {unit : Nat} (hn : v.halts unit = true ∨
    ∃ slot, b.units[unit]? = some slot ∧ slot.connected = false) : Kept b (v.leave unit) := by
  rcases hn with hn | ⟨slot, hu, hn⟩
  · have hsame : v.leave unit = v := by
      rw [Floor.leave, ← hn, Function.update_eq_self]
    rw [hsame]
    exact h
  · refine h.of_apart_retired unit ⟨List.prefix_refl _, fun _ _ => rfl, fun _ _ hm => hm,
      fun _ _ => rfl, fun _ _ => rfl, fun _ hne => Function.update_of_ne hne _ _, [],
      by simp [Floor.leave], by simp⟩ rfl fun slot' hslot => ?_
    cases hu.symm.trans hslot
    have hconnected := h.sound.manned.connected slot (List.mem_of_getElem? hu)
    rw [hn] at hconnected
    simpa using hconnected

end Kept

end ScriptLoader.Pool
