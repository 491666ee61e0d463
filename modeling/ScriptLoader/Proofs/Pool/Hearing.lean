import ScriptLoader.Proofs.Pool.Steps

/-!
# What a pool hears

A message of a unit that works on a job is passed on, frees the unit or dismisses it. When the last
unit is dismissed, the pool closes. Then waiting jobs are handed out in turns, as long as the idle
units have threads.

* `Pool.Board.passOn`, `Pool.Board.free`, `Pool.Board.dismiss`, `Pool.Closes`: what a message does.
* `Pool.Turn`, `Pool.turns_dispatch`: the turns.
-/

namespace ScriptLoader.Pool

/-- The report of a job is passed on. -/
def Board.passOn (b : Board) (unit : Nat) (slot : UnitSlot) (f : InFlight) (x : Compile.Report) :
    Board :=
  { b with
    units := b.units.set unit { slot with current := some { f with reported := true } }
    answers := b.answers ++ [.report f.job.number (.ok x)] }

/-- A unit is done with its job and idle again. -/
def Board.free (b : Board) (unit : Nat) (slot : UnitSlot) (a : Answer) : Board :=
  { b with
    units := b.units.set unit { slot with current := none }
    answers := b.answers ++ [a]
    idle := b.idle ++ [unit] }

/-- A unit is done with its job and retired. -/
def Board.dismiss (b : Board) (unit : Nat) (slot : UnitSlot) (a : Answer) : Board :=
  { b with
    units := b.units.set unit (withdrawn slot)
    answers := b.answers ++ [a]
    idle := b.idle.filter (· ≠ unit) }

/-- The pool closes, or it stays as it is. -/
inductive Closes (b : Board) : Board → Prop where
  | stays : Closes b b
  | closed (reason : String) (e : LoadError) : b.closed = none →
    Closes b
      { b with
        answers := b.answers ++ b.queue.map fun j => .report j.number (.error e)
        queue := []
        closed := some reason }

theorem Closes.steps {b c : Board} (h : Closes b c) : Steps b c := by
  cases h with
  | stays => exact .refl
  | closed reason e hopen => exact .single (.close reason e hopen)

theorem Closes.answers {b c : Board} (h : Closes b c) : b.answers <+: c.answers := by
  cases h with
  | stays => exact List.prefix_refl _
  | closed => exact List.prefix_append _ _

theorem closes_closeIfExhausted {p : Pool} {n : Nat} {b : Board} (hb : p.board n = b)
    (lastError : String) : Closes b ((p.closeIfExhausted lastError).board n) := by
  subst hb
  unfold closeIfExhausted
  split
  · exact .stays
  · next h =>
    simp only [not_or, Bool.not_eq_true, Option.isSome_eq_false_iff,
      Option.isNone_iff_eq_none] at h
    exact .closed _ _ h.2.2

section

variable {p : Pool} {n unit : Nat} {slot : UnitSlot} {f : InFlight}

theorem closes_retire_free (hu : p.units[unit]? = some slot) (hr : slot.retired = false)
    (hc : slot.current = none) (e : Option LoadError) (reason : String) :
    Closes
      { p.board n with
        units := p.units.set unit (withdrawn slot)
        idle := p.idle.filter (· ≠ unit) }
      ((p.retire unit e reason).board n) := by
  unfold retire
  rw [hu]
  dsimp only
  rw [if_neg (by simp [hr]), hc]
  dsimp only
  split
  · refine closes_closeIfExhausted ?_ _
    rfl
  · refine closes_closeIfExhausted ?_ _
    rfl

theorem closes_retire (hu : p.units[unit]? = some slot) (hr : slot.retired = false)
    (hf : slot.current = some f) (e : Option LoadError) (reason : String) :
    Closes ((p.board n).dismiss unit slot (failure f (e.getD (.unavailable reason))))
      ((p.retire unit e reason).board n) := by
  unfold retire
  rw [hu]
  dsimp only
  rw [if_neg (by simp [hr]), hf]
  dsimp only
  split
  · refine closes_closeIfExhausted ?_ _
    rfl
  · refine closes_closeIfExhausted ?_ _
    rfl

/-! ## How a unit starts -/

theorem receive_ready (p : Pool) (n unit : Nat) (hr : slot.ready = false) :
    (p.receive unit slot .ready).board n =
      { p.board n with
        units := p.units.set unit { slot with ready := true }
        idle := p.idle ++ [unit] } := by
  unfold receive
  rw [hr]
  rfl

theorem closes_initFailed (p : Pool) (n unit : Nat) (hr : slot.ready = false) (reason : String) :
    Closes
      { p.board n with units := p.units.set unit { slot with retired := true, connected := false } }
      ((p.receive unit slot (.initFailed reason)).board n) := by
  unfold receive
  rw [hr]
  refine closes_closeIfExhausted ?_ _
  rfl

/-! ## The messages of a unit that works on a job -/

theorem receive_report (hf : slot.current = some f) (hr : f.reported = false)
    (x : Compile.Report) :
    (p.receive unit slot (.report f.reference x)).board n = (p.board n).passOn unit slot f x := by
  simp only [receive, hf, hr, Bool.not_false, and_self, if_true]
  rfl

theorem closes_report (hu : p.units[unit]? = some slot) (hn : slot.retired = false)
    (hf : slot.current = some f) (hr : f.reported = true) (x : Compile.Report) :
    Closes
      ((p.board n).dismiss unit slot (.code f.job.number (.error (.unexpectedMessage unit "deps"))))
      ((p.receive unit slot (.report f.reference x)).board n) := by
  have hclose := closes_retire (n := n) hu hn hf (some (.unexpectedMessage unit "deps"))
    (LoadError.unexpectedMessage unit "deps").message
  rw [failure, if_pos hr] at hclose
  simp only [receive, hf, hr, Bool.not_true, Bool.false_eq_true, and_false, if_false]
  exact hclose

theorem receive_code (hf : slot.current = some f) (hr : f.reported = true) (text : String) :
    (p.receive unit slot (.code f.reference text)).board n =
      (p.board n).free unit slot (.code f.job.number (.ok text)) := by
  simp only [receive, hf, hr, and_self, if_true]
  rfl

theorem closes_code (hu : p.units[unit]? = some slot) (hn : slot.retired = false)
    (hf : slot.current = some f) (hr : f.reported = false) (text : String) :
    Closes
      ((p.board n).dismiss unit slot
        (.report f.job.number (.error (.unexpectedMessage unit "code"))))
      ((p.receive unit slot (.code f.reference text)).board n) := by
  have hclose := closes_retire (n := n) hu hn hf (some (.unexpectedMessage unit "code"))
    (LoadError.unexpectedMessage unit "code").message
  rw [failure, if_neg (by simp [hr])] at hclose
  simp only [receive, hf, hr, Bool.false_eq_true, and_false, if_false]
  exact hclose

theorem receive_failed (hf : slot.current = some f) (e : Compile.Failure) :
    (p.receive unit slot (.failed f.reference e false)).board n =
      (p.board n).free unit slot (failure f (.notCompiled f.job.specifier e.message e.stack)) := by
  simp only [receive, hf, if_true, Bool.false_eq_true, if_false]
  rfl

theorem closes_failed (hu : p.units[unit]? = some slot) (hn : slot.retired = false)
    (hf : slot.current = some f) (e : Compile.Failure) :
    Closes
      ((p.board n).dismiss unit slot (failure f (.notCompiled f.job.specifier e.message e.stack)))
      ((p.receive unit slot (.failed f.reference e true)).board n) := by
  have hbound : unit < p.units.length := (List.getElem?_eq_some_iff.1 hu).1
  simp only [receive, hf, if_true]
  have hclose := closes_retire_free (n := n)
    (p := ((p.setUnit unit { slot with current := none }).log
      (.compileFailed unit f.job.specifier e.message)).fail f
        (.notCompiled f.job.specifier e.message e.stack))
    (List.getElem?_set_self hbound) hn rfl none e.message
  refine Eq.mp (congrArg (Closes · _) ?_) hclose
  simp only [board, Board.dismiss, fail, answer, log, setUnit, List.set_set]
  rfl

end

/-! ## Handing out jobs -/

/-- A turn at handing out jobs to units that have threads. -/
inductive Turn : Board → Board → Prop where
  | skip {b : Board} : Turn b
    { b with
      queue := b.queue.dropWhile fun j => b.abandoned.contains j.number
      skipped := b.skipped ++
        (b.queue.takeWhile fun j => b.abandoned.contains j.number).map (·.number) }
  | send {b : Board} {unit reference : Nat} {slot : UnitSlot} {job : Job} {idle : List Nat}
    {rest : List Job} : b.units[unit]? = some slot → b.idle = unit :: idle → b.queue = job :: rest →
    Turn b
      { b with
        units := b.units.set unit { slot with current := some { reference, job } }
        idle
        queue := rest
        requests := b.requests ++ [{ unit, reference, job, delivered := true }] }

theorem Turn.step {b c : Board} (h : Turn b c) : Step b c := by
  cases h with
  | skip => exact .skip
  | send hu hi hq => exact .send hu hi hq

/-- An idle unit that has a thread is sent the first job of the queue. -/
theorem send_of_idle {p : Pool} {unit : Nat} {slot : UnitSlot} (hu : p.units[unit]? = some slot)
    (hconnected : slot.connected = true) (hs : unit ∉ p.stopped) (job : Job) :
    p.send unit job =
      { p.setUnit unit { slot with current := some { reference := p.nextReference, job } } with
        nextReference := p.nextReference + 1
        requests := p.requests ++
          [{ unit, reference := p.nextReference, job, delivered := true }] } := by
  unfold send
  rw [hu]
  simp [hconnected, hs, setUnit]

theorem turns_dispatchWithin (turns : Nat) {p : Pool} (n : Nat) (h : Manned p.units p.idle)
    (hs : ∀ u ∈ p.idle, u ∉ p.stopped) :
    Relation.ReflTransGen Turn (p.board n) ((p.dispatchWithin turns).board n) ∧
      (p.dispatchWithin turns).stopped = p.stopped := by
  induction turns generalizing p with
  | zero => exact ⟨.refl, rfl⟩
  | succ turns ih =>
    unfold dispatchWithin
    split
    · exact ⟨.refl, rfl⟩
    · exact ⟨.refl, rfl⟩
    · next unit idle hi _ =>
      have hskip : Turn (p.board n) (p.skipAbandoned.board n) := .skip
      dsimp only
      split
      · exact ⟨.single hskip, rfl⟩
      · next job rest hq =>
        have hidle : p.skipAbandoned.idle = unit :: idle := hi
        obtain ⟨slot, hu, -, hretired, -⟩ := h.idle unit (by simp [hi])
        have hconnected : slot.connected = true := by
          rw [h.connected slot (List.mem_of_getElem? hu), hretired]
          rfl
        have hsend := @Turn.send (p.skipAbandoned.board n) unit p.nextReference _ _ _ _ hu hidle hq
        have hmanned := manned_step hsend.step (manned_step hskip.step h)
        rw [send_of_idle (p := { p.skipAbandoned with idle, queue := rest }) hu hconnected
          (hs unit (by simp [hi]))]
        obtain ⟨hturns, hstopped⟩ := ih (p :=
          { ({ p.skipAbandoned with idle, queue := rest } : Pool).setUnit unit
              { slot with current := some { reference := p.nextReference, job } } with
            nextReference := p.nextReference + 1
            requests := p.requests ++
              [{ unit, reference := p.nextReference, job, delivered := true }] })
          hmanned fun u hu => hs u (by rw [hi]; exact List.mem_cons_of_mem _ hu)
        exact ⟨.head hskip (.head hsend hturns), hstopped⟩

theorem turns_dispatch {p : Pool} (n : Nat) (h : Manned p.units p.idle)
    (hs : ∀ u ∈ p.idle, u ∉ p.stopped) :
    Relation.ReflTransGen Turn (p.board n) (p.dispatch.board n) ∧ p.dispatch.stopped = p.stopped :=
  turns_dispatchWithin _ n h hs

/-! ## Jobs -/

/-- The jobs that wait and those that a unit was requested to do. -/
def Board.jobs (b : Board) : List Job := b.queue ++ b.requests.map (·.job)

theorem jobs_step {b c : Board} (h : Step b c) :
    b.accepted ≤ c.accepted ∧ (c.accepted = b.accepted → c.jobs ⊆ b.jobs) := by
  cases h with
  | accept => exact ⟨Nat.le_succ _, fun hn => absurd hn (Nat.succ_ne_self _)⟩
  | skip =>
    refine ⟨Nat.le_refl _, fun _ => ?_⟩
    exact List.append_subset.2 ⟨List.Subset.trans (List.dropWhile_sublist _).subset
      (List.subset_append_left _ _), List.subset_append_right _ _⟩
  | send _ _ hq | requeue _ hq =>
    refine ⟨Nat.le_refl _, fun _ => ?_⟩
    intro j hj
    simp only [Board.jobs, hq, List.map_append, List.mem_append, List.mem_cons, List.map_cons,
      List.map_nil, List.not_mem_nil, or_false] at hj ⊢
    tauto
  | close =>
    exact ⟨Nat.le_refl _, fun _ => List.append_subset.2 ⟨List.nil_subset _,
      List.subset_append_right _ _⟩⟩
  | _ => exact ⟨Nat.le_refl _, fun _ => List.Subset.refl _⟩

/-- Only the arrival of a job adds one. -/
theorem jobs_steps {b c : Board} (h : Steps b c) :
    b.accepted ≤ c.accepted ∧ (c.accepted = b.accepted → c.jobs ⊆ b.jobs) := by
  induction h with
  | refl => exact ⟨Nat.le_refl _, fun _ => List.Subset.refl _⟩
  | tail _ hs ih =>
    obtain ⟨hle, hsub⟩ := jobs_step hs
    refine ⟨Nat.le_trans ih.1 hle, fun he => List.Subset.trans (hsub ?_) (ih.2 ?_)⟩ <;> omega

theorem jobs_enqueue {p q : Pool} {n : Nat} {s : Specifier} (h : Manned p.units p.idle)
    (hq : p.enqueue ⟨n, s⟩ = (.ok (), q)) :
    ∀ j ∈ (q.board (n + 1)).jobs, j = ⟨n, s⟩ ∨ j ∈ (p.board n).jobs := by
  unfold enqueue at hq
  split at hq
  · cases hq
  · cases hq
    intro j hj
    have hj := (jobs_steps (steps_dispatch { p with queue := p.queue ++ [⟨n, s⟩] } (n + 1) h)).2 rfl
      hj
    simp only [Board.jobs, board, List.mem_append, List.mem_singleton] at hj ⊢
    tauto

/-! ## Threads -/

theorem stopped_closeIfExhausted (p : Pool) (lastError : String) :
    (p.closeIfExhausted lastError).stopped = p.stopped := by
  unfold closeIfExhausted
  split <;> rfl

theorem stopped_retire (p : Pool) (unit : Nat) (e : Option LoadError) (reason : String) :
    (p.retire unit e reason).stopped = p.stopped := by
  unfold retire
  split
  · rfl
  · split
    · rfl
    · refine (stopped_closeIfExhausted _ reason).trans ?_
      split <;> split <;> rfl

/-- What a unit says ends no thread. -/
theorem stopped_receive (p : Pool) (unit : Nat) (slot : UnitSlot) (m : UnitMessage) :
    (p.receive unit slot m).stopped = p.stopped := by
  have hunexpected : ∀ kind, (p.retireUnexpected unit kind).stopped = p.stopped :=
    fun _ => stopped_retire _ _ _ _
  unfold receive
  split
  · split
    · exact hunexpected _
    · rfl
  · split
    · exact hunexpected _
    · exact stopped_closeIfExhausted _ _
  · split
    · split
      · rfl
      · exact hunexpected _
    · exact hunexpected _
  · split
    · split
      · rfl
      · exact hunexpected _
    · exact hunexpected _
  · split
    · split
      · dsimp only
        split
        · exact stopped_retire _ _ _ _
        · rfl
      · exact hunexpected _
    · exact hunexpected _

end ScriptLoader.Pool
