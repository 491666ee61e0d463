import Mathlib.Data.List.TakeWhile
import ScriptLoader.Proofs.Pool.Steps

/-!
# Where jobs are and what they were answered

A ledger of jobs: each job that was accepted is in the queue, with a unit, or done with, and counted
once among these. What it was answered tells where it is.

* `Pool.Waits`, `Pool.Answered`: the answers to a job that a unit works on, and to one that is done.
* `Pool.Ledger`: the ledger. Every step keeps it (`Pool.ledger_step`).
-/

namespace ScriptLoader

def Answer.job : Answer → Nat
  | report k _ => k
  | code k _ => k

/-- The job that an answer is the last one to. -/
def Answer.last? : Answer → Option Nat
  | report k (.error _) => some k
  | report _ (.ok _) => none
  | code k _ => some k

/-- The job that a unit works on. -/
def UnitSlot.job? (slot : UnitSlot) : Option Nat := slot.current.map (·.job.number)

namespace Pool

def working (units : List UnitSlot) : List Nat := units.filterMap (·.job?)

/-- The jobs that have had their last answer. -/
def ended (answers : List Answer) : List Nat := answers.filterMap (·.last?)

/-- The answers to a job, in order. -/
def answersTo (answers : List Answer) (k : Nat) : List Answer := answers.filter (·.job = k)

/-- The answers to a job that a unit works on: the report, as soon as it was made. -/
inductive Waits (answers : List Answer) (f : InFlight) : Prop where
  | compiling : f.reported = false → answersTo answers f.job.number = [] → Waits answers f
  | generating (r : Compile.Report) : f.reported = true →
    answersTo answers f.job.number = [.report f.job.number (.ok r)] → Waits answers f

/-- The answers to a job that is done: a refusal, or a report and then the code or why there is
none. -/
inductive Answered (answers : List Answer) (k : Nat) : Prop where
  | refused (e : LoadError) : answersTo answers k = [.report k (.error e)] → Answered answers k
  | compiled (r : Compile.Report) (result : Except LoadError String) :
    answersTo answers k = [.report k (.ok r), .code k result] → Answered answers k

theorem Waits.of_eq {answers answers' : List Answer} {f : InFlight}
    (heq : answersTo answers' f.job.number = answersTo answers f.job.number)
    (h : Waits answers f) : Waits answers' f := by
  rcases h with ⟨hr, hn⟩ | ⟨r, hr, hn⟩
  · exact .compiling hr (heq.trans hn)
  · exact .generating r hr (heq.trans hn)

theorem Answered.of_eq {answers answers' : List Answer} {k : Nat}
    (heq : answersTo answers' k = answersTo answers k) (h : Answered answers k) :
    Answered answers' k := by
  rcases h with ⟨e, he⟩ | ⟨r, result, he⟩
  · exact .refused e (heq.trans he)
  · exact .compiled r result (heq.trans he)

/-! ## Counting -/

theorem working_cons (slot : UnitSlot) (units : List UnitSlot) :
    working (slot :: units) = slot.job?.toList ++ working units := by
  unfold working
  cases h : slot.job? <;> simp [h]

theorem count_working_set {units : List UnitSlot} {u : Nat} {slot : UnitSlot}
    (hu : units[u]? = some slot) (slot' : UnitSlot) (k : Nat) :
    (working (units.set u slot')).count k + slot.job?.toList.count k =
      (working units).count k + slot'.job?.toList.count k := by
  induction units generalizing u with
  | nil => simp at hu
  | cons x xs ih =>
    cases u with
    | zero =>
      simp only [List.getElem?_cons_zero, Option.some.injEq] at hu
      subst hu
      rw [List.set_cons_zero, working_cons, working_cons, List.count_append, List.count_append]
      omega
    | succ u =>
      have := ih hu
      rw [List.set_cons_succ, working_cons, working_cons, List.count_append, List.count_append]
      omega

theorem job?_of_current {slot : UnitSlot} {f : InFlight} (h : slot.current = some f) :
    slot.job?.toList = [f.job.number] := by
  simp [UnitSlot.job?, h]

theorem job?_of_current_eq_none {slot : UnitSlot} (h : slot.current = none) :
    slot.job?.toList = [] := by
  simp [UnitSlot.job?, h]

theorem mem_working {units : List UnitSlot} {slot : UnitSlot} {f : InFlight}
    (hs : slot ∈ units) (hf : slot.current = some f) : f.job.number ∈ working units :=
  List.mem_filterMap.2 ⟨slot, hs, by simp [UnitSlot.job?, hf]⟩

theorem answersTo_append (answers new : List Answer) (k : Nat) :
    answersTo (answers ++ new) k = answersTo answers k ++ answersTo new k := List.filter_append ..

theorem answersTo_of_ne {a : Answer} {k : Nat} (h : k ≠ a.job) : answersTo [a] k = [] := by
  simp [answersTo, Ne.symm h]

/-- Each job of a list is refused as often as it is in the list. -/
theorem answersTo_refusals (queue : List Job) (e : LoadError) (k : Nat) :
    answersTo (queue.map fun j => .report j.number (.error e)) k =
      List.replicate ((queue.map (·.number)).count k) (.report k (.error e)) := by
  induction queue with
  | nil => rfl
  | cons j queue ih =>
    simp only [answersTo, Answer.job] at ih
    by_cases hj : j.number = k
    · simp [answersTo, Answer.job, hj, ih, List.replicate_succ]
    · simp [answersTo, Answer.job, hj, ih]

theorem ended_refusals (queue : List Job) (e : LoadError) :
    ended (queue.map fun j => .report j.number (.error e)) = queue.map (·.number) := by
  induction queue with
  | nil => rfl
  | cons j queue ih =>
    rw [List.map_cons, List.map_cons, ← ih]
    rfl

/-! ## The ledger -/

/-- Each accepted job is in one place, and was answered what it is to be answered there. -/
structure Ledger (b : Board) : Prop where
  once : ∀ k, (b.queue.map (·.number)).count k + (working b.units).count k +
    (ended b.answers).count k + b.skipped.count k = if k < b.accepted then 1 else 0
  queued : ∀ j ∈ b.queue, answersTo b.answers j.number = []
  skipped : ∀ k ∈ b.skipped, answersTo b.answers k = [] ∧ k ∈ b.abandoned
  waits : ∀ slot ∈ b.units, ∀ f, slot.current = some f → Waits b.answers f
  answered : ∀ k ∈ ended b.answers, Answered b.answers k
  known : ∀ a ∈ b.answers, a.job < b.accepted

namespace Ledger

variable {b : Board}

/-- The ledger does not depend on the units that are idle, the requests and the end of the pool. -/
theorem beside (h : Ledger b) (idle : List Nat) (closed : Option String)
    (requests : List UnitRequest) : Ledger { b with idle, closed, requests } :=
  ⟨h.once, h.queued, h.skipped, h.waits, h.answered, h.known⟩

theorem le_one (h : Ledger b) (k : Nat) : (b.queue.map (·.number)).count k +
    (working b.units).count k + (ended b.answers).count k + b.skipped.count k ≤ 1 := by
  rw [h.once k]
  split <;> omega

theorem lt_accepted (h : Ledger b) {k : Nat} (hk : 0 < (b.queue.map (·.number)).count k +
    (working b.units).count k + (ended b.answers).count k + b.skipped.count k) :
    k < b.accepted := by
  rw [h.once k] at hk
  by_contra hn
  rw [if_neg hn] at hk
  omega

/-- Behind a change of a unit that works on a job, the other units work on other jobs. -/
theorem others (h : Ledger b) {u : Nat} {slot slot' x : UnitSlot} {f f' : InFlight}
    (hu : b.units[u]? = some slot) (hf : slot.current = some f) (hx : x ∈ b.units.set u slot')
    (hf' : x.current = some f') :
    x = slot' ∨ x ∈ b.units ∧ f'.job.number ≠ f.job.number := by
  obtain ⟨v, hv⟩ := List.mem_iff_getElem?.1 hx
  by_cases hvu : u = v
  · subst hvu
    rw [List.getElem?_set_self (List.getElem?_eq_some_iff.1 hu).1] at hv
    exact Or.inl (Option.some.inj hv).symm
  · rw [List.getElem?_set_ne hvu] at hv
    refine Or.inr ⟨List.mem_of_getElem? hv, fun heq => ?_⟩
    -- With its job taken from it, the unit leaves the other one to be counted.
    have hcount := count_working_set hu { slot with current := none } f.job.number
    have hmem : f'.job.number ∈ working (b.units.set u { slot with current := none }) :=
      mem_working (List.mem_iff_getElem?.2 ⟨v, by rwa [List.getElem?_set_ne hvu]⟩) hf'
    have hpos := List.count_pos_iff.2 hmem
    have hle := h.le_one f.job.number
    rw [job?_of_current hf, job?_of_current_eq_none rfl, List.count_nil,
      List.count_singleton_self] at hcount
    rw [heq] at hpos
    omega

theorem accept (h : Ledger b) (s : Specifier) :
    Ledger { b with queue := b.queue ++ [⟨b.accepted, s⟩], accepted := b.accepted + 1 } := by
  have hnone : answersTo b.answers b.accepted = [] := by
    refine List.filter_eq_nil_iff.2 fun a ha => ?_
    have := h.known a ha
    simp only [decide_eq_true_eq]
    omega
  refine ⟨?_, ?_, h.skipped, h.waits, h.answered, fun a ha => Nat.lt_succ_of_lt (h.known a ha)⟩
  · intro k
    have := h.once k
    simp only [List.map_append, List.map_cons, List.map_nil, List.count_append, List.count_cons,
      List.count_nil, beq_iff_eq]
    by_cases hk : b.accepted = k
    · subst hk
      simp only [Nat.lt_irrefl, if_false] at this
      simp only [if_true, Nat.lt_succ_self]
      omega
    · have hlt : k < b.accepted + 1 ↔ k < b.accepted := by omega
      simp only [hk, if_false, hlt]
      omega
  · intro j hj
    rcases List.mem_append.1 hj with hj | hj
    · exact h.queued j hj
    · rw [List.mem_singleton.1 hj]
      exact hnone

theorem skip (h : Ledger b) : Ledger
    { b with
      queue := b.queue.dropWhile fun j => b.abandoned.contains j.number
      skipped := b.skipped ++
        (b.queue.takeWhile fun j => b.abandoned.contains j.number).map (·.number) } := by
  have hsplit := List.takeWhile_append_dropWhile (p := fun j : Job => b.abandoned.contains j.number)
    (l := b.queue)
  refine ⟨?_, ?_, ?_, h.waits, h.answered, h.known⟩
  · intro k
    rw [← h.once k, List.count_append]
    conv_rhs => rw [← hsplit, List.map_append, List.count_append]
    dsimp only
    omega
  · exact fun j hj => h.queued j ((List.dropWhile_sublist _).subset hj)
  · intro k hk
    rcases List.mem_append.1 hk with hk | hk
    · exact h.skipped k hk
    · obtain ⟨j, hj, rfl⟩ := List.mem_map.1 hk
      exact ⟨h.queued j ((List.takeWhile_sublist _).subset hj),
        by simpa using List.mem_takeWhile_imp hj⟩

theorem send (h : Ledger b) {u : Nat} {slot : UnitSlot} {f : InFlight} {rest : List Job}
    (hu : b.units[u]? = some slot) (hc : slot.current = none) (hr : f.reported = false)
    (hq : b.queue = f.job :: rest) :
    Ledger { b with units := b.units.set u { slot with current := some f }, queue := rest } := by
  refine ⟨?_, ?_, h.skipped, ?_, h.answered, h.known⟩
  · intro k
    have honce := h.once k
    have hcount := count_working_set hu { slot with current := some f } k
    rw [job?_of_current_eq_none hc, job?_of_current rfl, List.count_nil] at hcount
    rw [hq, List.map_cons, ← List.singleton_append, List.count_append] at honce
    dsimp only
    omega
  · exact fun j hj => h.queued j (hq ▸ List.mem_cons_of_mem _ hj)
  · intro x hx f' hf'
    rcases List.mem_or_eq_of_mem_set hx with hx | rfl
    · exact h.waits x hx f' hf'
    · cases hf'
      exact .compiling hr (h.queued _ (hq ▸ List.mem_cons_self))

theorem set (h : Ledger b) {u : Nat} {slot : UnitSlot} (hu : b.units[u]? = some slot)
    (slot' : UnitSlot) (hs : slot'.current = slot.current) :
    Ledger { b with units := b.units.set u slot' } := by
  refine ⟨?_, h.queued, h.skipped, ?_, h.answered, h.known⟩
  · intro k
    have hcount := count_working_set hu slot' k
    have hjob : slot'.job? = slot.job? := by rw [UnitSlot.job?, UnitSlot.job?, hs]
    rw [hjob] at hcount
    rw [← h.once k]
    dsimp only
    omega
  · intro x hx f hf
    rcases List.mem_or_eq_of_mem_set hx with hx | rfl
    · exact h.waits x hx f hf
    · exact h.waits slot (List.mem_of_getElem? hu) f (hs ▸ hf)

/-- Answers to the job of a unit leave the answers to all jobs elsewhere as they are. -/
theorem elsewhere (h : Ledger b) {slot : UnitSlot} {f : InFlight} (hslot : slot ∈ b.units)
    (hf : slot.current = some f) {a : Answer} (ha : a.job = f.job.number) {k : Nat}
    (hk : 0 < (b.queue.map (·.number)).count k + (ended b.answers).count k + b.skipped.count k) :
    answersTo (b.answers ++ [a]) k = answersTo b.answers k := by
  have hne : k ≠ a.job := by
    rintro rfl
    have hle := h.le_one a.job
    have hpos := List.count_pos_iff.2 (mem_working hslot hf)
    rw [← ha] at hpos
    omega
  rw [answersTo_append, answersTo_of_ne hne, List.append_nil]

/-- A unit answers its job, and goes on with it or is done with it. -/
theorem respond (h : Ledger b) {u : Nat} {slot : UnitSlot} {f : InFlight} {a : Answer}
    (hu : b.units[u]? = some slot) (hf : slot.current = some f) (ha : a.job = f.job.number)
    (current : Option InFlight)
    (hjob : (current.map (·.job.number)).toList ++ ended [a] = [f.job.number])
    (hwaits : ∀ f', current = some f' → Waits (b.answers ++ [a]) f')
    (hanswered : ∀ k ∈ ended [a], Answered (b.answers ++ [a]) k) :
    Ledger
      { b with
        units := b.units.set u { slot with current }
        answers := b.answers ++ [a] } := by
  have hslot := List.mem_of_getElem? hu
  have hended : ended (b.answers ++ [a]) = ended b.answers ++ ended [a] := List.filterMap_append ..
  have same {k : Nat} := h.elsewhere hslot hf ha (k := k)
  refine ⟨?_, ?_, ?_, ?_, ?_, ?_⟩
  · intro k
    have hcount := count_working_set hu { slot with current } k
    have hnew := congrArg (List.count k) hjob
    rw [job?_of_current hf] at hcount
    rw [List.count_append] at hnew
    rw [← h.once k, hended, List.count_append]
    dsimp only [UnitSlot.job?] at hcount ⊢
    omega
  · intro j hj
    have hpos := List.count_pos_iff.2 (List.mem_map_of_mem (f := (·.number)) hj)
    exact (same (by dsimp only at hpos; omega)).trans (h.queued j hj)
  · intro k hk
    have hpos := List.count_pos_iff.2 hk
    obtain ⟨hnone, habandoned⟩ := h.skipped k hk
    exact ⟨(same (by dsimp only at hpos; omega)).trans hnone, habandoned⟩
  · intro x hx f' hf'
    rcases h.others hu hf hx hf' with rfl | ⟨hx, hne⟩
    · exact hwaits f' hf'
    · refine (h.waits x hx f' hf').of_eq ?_
      rw [answersTo_append, answersTo_of_ne (ha ▸ hne), List.append_nil]
  · intro k hk
    dsimp only at hk
    rw [hended] at hk
    rcases List.mem_append.1 hk with hk | hk
    · have hpos := List.count_pos_iff.2 hk
      exact (h.answered k hk).of_eq (same (by omega))
    · exact hanswered k hk
  · intro a' ha'
    rcases List.mem_append.1 ha' with ha' | ha'
    · exact h.known a' ha'
    · rw [List.mem_singleton.1 ha', ha]
      have hpos := List.count_pos_iff.2 (mem_working hslot hf)
      exact h.lt_accepted (k := f.job.number) (by omega)

theorem report (h : Ledger b) {u : Nat} {slot : UnitSlot} {f : InFlight} (r : Compile.Report)
    (hu : b.units[u]? = some slot) (hf : slot.current = some f) (hr : f.reported = false) :
    Ledger
      { b with
        units := b.units.set u { slot with current := some { f with reported := true } }
        answers := b.answers ++ [.report f.job.number (.ok r)] } := by
  refine h.respond hu hf rfl _ rfl ?_ ?_
  · rintro f' ⟨⟩
    refine .generating r rfl ?_
    rcases h.waits slot (List.mem_of_getElem? hu) f hf with ⟨-, hn⟩ | ⟨r', hr', -⟩
    · dsimp only
      rw [answersTo_append, hn]
      simp [answersTo, Answer.job]
    · rw [hr] at hr'
      cases hr'
  · intro k hk
    cases hk

theorem done (h : Ledger b) {u : Nat} {slot : UnitSlot} {f : InFlight} {a : Answer}
    (hu : b.units[u]? = some slot) (hf : slot.current = some f) (ha : Ends f a) :
    Ledger
      { b with
        units := b.units.set u { slot with current := none }
        answers := b.answers ++ [a] } := by
  have hjob : a.job = f.job.number := by cases ha <;> rfl
  have hended : ended [a] = [f.job.number] := by cases ha <;> rfl
  refine h.respond hu hf hjob none hended (fun f' hf' => nomatch hf') ?_
  intro k hk
  rw [hended] at hk
  rw [List.mem_singleton.1 hk]
  have hself : answersTo [a] f.job.number = [a] := by simp [answersTo, hjob]
  rcases h.waits slot (List.mem_of_getElem? hu) f hf with ⟨hr, hn⟩ | ⟨r, hr, hn⟩
  · cases ha with
    | code _ hr' =>
      rw [hr] at hr'
      cases hr'
    | refusal e _ => exact .refused e (by rw [answersTo_append, hn, hself]; rfl)
  · cases ha with
    | code result _ => exact .compiled r result (by rw [answersTo_append, hn, hself]; rfl)
    | refusal _ hr' =>
      rw [hr] at hr'
      cases hr'

theorem close (h : Ledger b) (e : LoadError) :
    Ledger
      { b with
        answers := b.answers ++ b.queue.map fun j => .report j.number (.error e)
        queue := [] } := by
  have hanswers : ∀ k, answersTo (b.answers ++ b.queue.map fun j => .report j.number (.error e)) k =
      answersTo b.answers k ++
        List.replicate ((b.queue.map (·.number)).count k) (.report k (.error e)) := by
    intro k
    rw [answersTo_append, answersTo_refusals]
  have same : ∀ k, (b.queue.map (·.number)).count k = 0 →
      answersTo (b.answers ++ b.queue.map fun j => .report j.number (.error e)) k =
        answersTo b.answers k := by
    intro k hk
    rw [hanswers, hk, List.replicate_zero, List.append_nil]
  have hended : ended (b.answers ++ b.queue.map fun j => .report j.number (.error e)) =
      ended b.answers ++ b.queue.map (·.number) := by
    rw [ended, List.filterMap_append]
    exact congrArg _ (ended_refusals b.queue e)
  refine ⟨?_, by simp, ?_, ?_, ?_, ?_⟩
  · intro k
    rw [← h.once k, hended, List.count_append]
    simp only [List.map_nil, List.count_nil]
    omega
  · intro k hk
    have hpos := List.count_pos_iff.2 hk
    have hle := h.le_one k
    dsimp only at hpos ⊢
    rw [same k (by omega)]
    exact h.skipped k hk
  · intro x hx f hf
    have hpos := List.count_pos_iff.2 (mem_working hx hf)
    have hle := h.le_one f.job.number
    dsimp only at hpos
    exact (h.waits x hx f hf).of_eq (same f.job.number (by omega))
  · intro k hk
    have hle := h.le_one k
    dsimp only at hk ⊢
    rw [hended] at hk
    rcases List.mem_append.1 hk with hk | hk
    · have hpos := List.count_pos_iff.2 hk
      exact (h.answered k hk).of_eq (same k (by omega))
    · have hpos := List.count_pos_iff.2 hk
      obtain ⟨j, hj, rfl⟩ := List.mem_map.1 hk
      have hone : (b.queue.map (·.number)).count j.number = 1 := by omega
      refine .refused e ?_
      rw [hanswers, h.queued j hj, hone]
      rfl
  · intro a ha
    rcases List.mem_append.1 ha with ha | ha
    · exact h.known a ha
    · obtain ⟨j, hj, rfl⟩ := List.mem_map.1 ha
      have hpos := List.count_pos_iff.2 (List.mem_map_of_mem (f := (·.number)) hj)
      exact h.lt_accepted (k := j.number) (by omega)

end Ledger

/-- Every step keeps the ledger, as long as no idle unit works on a job. -/
theorem ledger_step {b c : Board} (hs : Step b c) (hm : Manned b.units b.idle) (h : Ledger b) :
    Ledger c := by
  cases hs with
  | accept s _ => exact h.accept s
  | abandon job =>
    refine ⟨h.once, h.queued, fun k hk => ?_, h.waits, h.answered, h.known⟩
    obtain ⟨hnone, habandoned⟩ := h.skipped k hk
    exact ⟨hnone, List.mem_cons_of_mem _ habandoned⟩
  | skip => exact h.skip
  | @send unit reference slot job idle rest hu hi hq =>
    obtain ⟨slot', hu', -, -, hc⟩ := hm.idle unit (by simp [hi])
    rw [hu] at hu'
    cases hu'
    exact (h.send (f := { reference, job }) hu hc rfl hq).beside _ _ _
  | requeue hi hq => exact hq ▸ h.beside _ _ _
  | @ready unit slot hu _ _ => exact (h.set hu { slot with ready := true } rfl).beside _ _ _
  | report r hu hf hr => exact h.report r hu hf hr
  | finish hu hf ha => exact (h.done hu hf ha).beside _ _ _
  | settle hu hf ha => exact h.done hu hf ha
  | @retire unit slot hu hc => exact (h.set hu (withdrawn slot) hc.symm).beside _ _ _
  | close reason e _ => exact (h.close e).beside _ _ _

end Pool

end ScriptLoader
