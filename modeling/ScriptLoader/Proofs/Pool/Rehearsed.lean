import ScriptLoader.Proofs.Pool.Crew

/-!
# A rehearsal is one way to take turns

A rehearsal runs its units one after the other, each as far as its script goes, and the pool hears
what they say at once. Callers, threads and a pool can take turns in this way, so what holds however
they take turns holds of every rehearsal.

* `CompilerRun.ofScript`, `Rehearsal.advance_ofScript`: the run of a compiler that follows a script.
* `Rehearsal.Follows`: the turns that a rehearsal has taken.
* `Rehearsal.answered_by_own_script`: the answers to a job are those of the script that came with
  it, as far as its unit has gone.
-/

namespace ScriptLoader

/-- The run of a compiler that follows a script. A script that does not end returns nothing. -/
def CompilerRun.ofScript : List ScriptStep → CompilerRun
  | [] => ⟨[], .code ""⟩
  | .report x :: rest => { ofScript rest with reports := x :: (ofScript rest).reports }
  | .gate :: rest => ofScript rest
  | .finish ending :: _ => ⟨[], ending⟩

namespace Pool

/-! ## What steps leave -/

theorem requests_step {b c : Board} (h : Step b c) :
    b.requests <+: c.requests ∧ (c.closed = none → b.closed = none) := by
  cases h with
  | send | requeue => exact ⟨List.prefix_append _ _, id⟩
  | close => exact ⟨List.prefix_refl _, fun hc => nomatch hc⟩
  | _ => exact ⟨List.prefix_refl _, id⟩

/-- Requests stay, and a pool that is closed is not opened again. -/
theorem requests_steps {b c : Board} (h : Steps b c) :
    b.requests <+: c.requests ∧ (c.closed = none → b.closed = none) := by
  induction h with
  | refl => exact ⟨List.prefix_refl _, id⟩
  | tail _ hs ih =>
    obtain ⟨hrequests, hclosed⟩ := requests_step hs
    exact ⟨ih.1.trans hrequests, fun hc => ih.2 (hclosed hc)⟩

theorem steps_handleAll (n unit : Nat) (messages : List UnitMessage) {p : Pool}
    (h : Manned p.units p.idle) :
    Steps (p.board n) ((messages.foldl (fun p m => p.handle unit m) p).board n) := by
  induction messages generalizing p with
  | nil => exact .refl
  | cons m messages ih =>
    have hs := steps_handle n unit m h
    exact hs.trans (ih (manned_steps hs h))

end Pool

namespace Crew

/-- A unit says something, and the pool hears it at once. -/
theorem exists_uttered {c : Crew} {unit : Nat} {messages rest : List UnitMessage} {stops : Bool}
    (he : c.events = []) (ht : c.threads unit = ⟨messages ++ rest, stops⟩) :
    ∃ turns, (c.run turns).events = [] ∧ (c.run turns).submitted = c.submitted ∧
      (c.run turns).begun = c.begun ∧
      (c.run turns).threads = Function.update c.threads unit ⟨rest, stops⟩ ∧
      (c.run turns).pool = messages.foldl (fun p m => p.handle unit m) c.pool := by
  induction messages generalizing c with
  | nil =>
    refine ⟨[], he, rfl, rfl, ?_, rfl⟩
    rw [show (⟨rest, stops⟩ : UnitThread) = c.threads unit from ht.symm]
    exact (Function.update_eq_self ..).symm
  | cons m messages ih =>
    have hsay : c.act (.say unit) =
        { c.setThread unit ⟨messages ++ rest, stops⟩ with events := c.events ++ [(unit, m)] } := by
      rw [act, ht]
      rfl
    have hboth : c.run [.say unit, .hear] =
        { c.setThread unit ⟨messages ++ rest, stops⟩ with
          pool := c.pool.handle unit m, events := [] } := by
      show (c.act (.say unit)).act .hear = _
      rw [hsay, he]
      rfl
    have hthreads : (c.run [.say unit, .hear]).threads =
        Function.update c.threads unit ⟨messages ++ rest, stops⟩ := by
      rw [hboth]
      exact threads_setThread ..
    obtain ⟨turns, hevents, hsubmitted, hbegun, hthreads', hpool⟩ :=
      ih (c := c.run [.say unit, .hear]) (by rw [hboth]) (by rw [hthreads, Function.update_self])
    rw [hthreads, Function.update_idem] at hthreads'
    refine ⟨[.say unit, .hear] ++ turns, ?_⟩
    rw [run_append]
    refine ⟨hevents, hsubmitted.trans ?_, hbegun.trans ?_, hthreads', hpool.trans ?_⟩ <;>
      rw [hboth] <;> rfl

end Crew

namespace Rehearsal

/-! ## What the threads are about to say -/

/-- A script says what its run says, up to a gate that is closed. -/
theorem advance_ofScript (opened : Bool) (reference : Nat) (script : List ScriptStep) :
    (advance opened reference script =
        ((CompilerRun.ofScript script).messages reference, none)) ∨
      ∃ messages rest, advance opened reference script = (messages, some (.gate :: rest)) ∧
        opened = false ∧
        (CompilerRun.ofScript script).messages reference =
          messages ++ (CompilerRun.ofScript rest).messages reference ∧
        (CompilerRun.ofScript rest).ending = (CompilerRun.ofScript script).ending := by
  induction script with
  | nil => exact .inl rfl
  | cons step script ih =>
    cases step with
    | report x =>
      rcases ih with h | ⟨messages, rest, h, hopened, hsaid, hending⟩
      · refine .inl ?_
        rw [advance, h]
        rfl
      · refine .inr ⟨.report reference x :: messages, rest, ?_, hopened, ?_, hending⟩
        · rw [advance, h]
        · exact congrArg (UnitMessage.report reference x :: ·) hsaid
    | gate =>
      cases opened with
      | true => exact ih
      | false => exact .inr ⟨[], script, rfl, rfl, rfl, rfl⟩
    | finish ending => exact .inl rfl

/-- The threads that have something to say. -/
structure Speaking (talking : List (Nat × UnitThread)) (threads : Nat → UnitThread) : Prop where
  told : ∀ x ∈ talking, threads x.1 = x.2
  nodup : (talking.map (·.1)).Nodup
  silent : ∀ unit ∉ talking.map (·.1), (threads unit).unsaid = []

namespace Speaking

variable {before after talking : List (Nat × UnitThread)} {threads : Nat → UnitThread} {unit : Nat}
  {t t' : UnitThread}

/-- A thread goes on. -/
theorem update (h : Speaking (before ++ (unit, t) :: after) threads) (t' : UnitThread) :
    Speaking (before ++ (unit, t') :: after) (Function.update threads unit t') := by
  have hnodup := h.nodup
  rw [List.map_append, List.map_cons] at hnodup
  refine ⟨fun x hx => ?_, ?_, fun u hu => ?_⟩
  · rcases List.mem_cons.1 (List.perm_middle.mem_iff.1 hx) with rfl | hm
    · exact Function.update_self ..
    · have hne : x.1 ≠ unit := by
        intro heq
        have hmem : x.1 ∈ (before ++ after).map (·.1) := List.mem_map_of_mem hm
        rw [heq, List.map_append] at hmem
        exact (List.nodup_middle.1 hnodup).notMem hmem
      rw [Function.update_of_ne hne]
      exact h.told x (List.perm_middle.mem_iff.2 (List.mem_cons_of_mem _ hm))
  · rw [List.map_append, List.map_cons]
    exact hnodup
  · rw [List.map_append, List.map_cons] at hu
    have hne : u ≠ unit := by
      rintro rfl
      exact hu (List.mem_append_right _ List.mem_cons_self)
    rw [Function.update_of_ne hne]
    refine h.silent u ?_
    rw [List.map_append, List.map_cons]
    exact hu

/-- A thread that has nothing to say any more is left out. -/
theorem leaveOut (h : Speaking (before ++ (unit, t) :: after) threads) (ht : t.unsaid = []) :
    Speaking (before ++ after) threads := by
  have hnodup := h.nodup
  rw [List.map_append, List.map_cons] at hnodup
  refine ⟨fun x hx => h.told x (List.perm_middle.mem_iff.2 (List.mem_cons_of_mem _ hx)), ?_,
    fun u hu => ?_⟩
  · rw [List.map_append]
    exact (List.nodup_middle.1 hnodup).of_cons
  · by_cases hne : u = unit
    · rw [hne, h.told (unit, t) (List.mem_append_right _ List.mem_cons_self)]
      exact ht
    · refine h.silent u fun hm => hu ?_
      rw [List.map_append, List.map_cons] at hm
      rw [List.map_append]
      exact (List.mem_cons.1 (List.perm_middle.mem_iff.1 hm)).resolve_left hne

/-- A thread that had nothing to say starts to speak. -/
theorem push (h : Speaking talking threads) (hu : unit ∉ talking.map (·.1)) (t : UnitThread) :
    Speaking (talking ++ [(unit, t)]) (Function.update threads unit t) := by
  refine ⟨fun x hx => ?_, ?_, fun u hn => ?_⟩
  · rcases List.mem_append.1 hx with hx | hx
    · have hne : x.1 ≠ unit := fun he => hu (he ▸ List.mem_map_of_mem hx)
      rw [Function.update_of_ne hne]
      exact h.told x hx
    · rw [List.mem_singleton.1 hx]
      exact Function.update_self ..
  · rw [List.map_append]
    refine List.nodup_append.2 ⟨h.nodup, List.nodup_singleton _, ?_⟩
    rintro u hm v hv rfl
    rw [List.mem_singleton.1 hv] at hm
    exact hu hm
  · rw [List.map_append] at hn
    have hne : u ≠ unit := by
      rintro rfl
      exact hn (List.mem_append_right _ List.mem_cons_self)
    rw [Function.update_of_ne hne]
    exact h.silent u fun hm => hn (List.mem_append_left _ hm)

end Speaking

/-! ## The turns that a rehearsal has taken -/

/-- The run of the compiler for a job. -/
def runOf (r : Rehearsal) (job : Job) : CompilerRun :=
  .ofScript ((r.scripts.get? job.number).getD [])

/-- What is left of a script. -/
def speaker (u : Running) : Nat × UnitThread :=
  (u.unit, .compiling u.reference (.ofScript u.rest))

/-- What units are about to say: how they started, or what is left of their scripts. -/
def talking (starting : List (Nat × UnitStart)) (running : List Running) :
    List (Nat × UnitThread) :=
  starting.map (fun x => (x.1, .starting x.2)) ++ running.map speaker

theorem talking_append (starting : List (Nat × UnitStart)) (before after : List Running) :
    talking starting (before ++ after) = talking starting before ++ after.map speaker := by
  rw [talking, List.map_append, ← List.append_assoc]
  rfl

theorem unsaid_of_talking {starting : List (Nat × UnitStart)} {running : List Running}
    {x : Nat × UnitThread} (hx : x ∈ talking starting running) : x.2.unsaid ≠ [] := by
  rcases List.mem_append.1 hx with hx | hx
  · obtain ⟨_, -, rfl⟩ := List.mem_map.1 hx
    simp [UnitThread.starting]
  · obtain ⟨_, -, rfl⟩ := List.mem_map.1 hx
    simp [speaker, UnitThread.compiling, CompilerRun.messages]

/-- A rehearsal is where the turns of callers, threads and a pool have led, and everything that was
said is heard. -/
structure Follows (r : Rehearsal) (c : Crew) : Prop where
  kept : c.Kept
  pool : c.pool = r.pool
  heard : c.events = []
  accepted : c.submitted.length ≤ r.submitted
  /-- Only a pool that is closed refuses a job. -/
  counted : r.pool.closed = none → c.submitted.length = r.submitted
  taken : c.begun.length = r.taken
  begun : c.begun.map (·.1) <+: r.pool.sent
  scripted : ∀ q run, (q, run) ∈ c.begun → run = r.runOf q.job
  speaking : Speaking (talking r.starting r.running) c.threads

namespace Follows

variable {r : Rehearsal} {c : Crew}

/-- A unit says something, and the pool hears it. -/
theorem utter (h : Follows r c) {unit : Nat} {messages rest : List UnitMessage} {stops : Bool}
    {before after : List (Nat × UnitThread)} (starting : List (Nat × UnitStart))
    (running : List Running)
    (hbefore : talking r.starting r.running =
      before ++ (unit, ⟨messages ++ rest, stops⟩) :: after)
    (hbehind : rest = [] ∧ talking starting running = before ++ after ∨
      talking starting running = before ++ (unit, ⟨rest, stops⟩) :: after) :
    ∃ turns, Follows
      { r with
        pool := messages.foldl (fun p m => p.handle unit m) r.pool
        starting
        running } (c.run turns) := by
  have hspeaking := h.speaking
  rw [hbefore] at hspeaking
  obtain ⟨turns, hevents, hsubmitted, hbegun, hthreads, hpool⟩ := Crew.exists_uttered h.heard
    (hspeaking.told _ (List.mem_append_right _ List.mem_cons_self))
  rw [h.pool] at hpool
  have hmanned : Pool.Manned r.pool.units r.pool.idle := h.pool ▸ h.kept.board.sound.manned
  obtain ⟨hrequests, hclosed⟩ :=
    Pool.requests_steps (Pool.steps_handleAll r.submitted unit messages hmanned)
  refine ⟨turns, h.kept.run turns, hpool, hevents, hsubmitted ▸ h.accepted, fun hc => ?_,
    hbegun ▸ h.taken, ?_, hbegun ▸ h.scripted, ?_⟩
  · rw [hsubmitted]
    exact h.counted (hclosed hc)
  · rw [hbegun]
    exact h.begun.trans (hrequests.filter _)
  · rw [hthreads]
    have hupdate := hspeaking.update ⟨rest, stops⟩
    rcases hbehind with ⟨rfl, htalking⟩ | htalking
    · exact htalking.symm ▸ hupdate.leaveOut rfl
    · exact htalking.symm ▸ hupdate

/-- The units say how they started. -/
theorem start (h : Follows r c) : ∃ turns, Follows r.start (c.run turns) := by
  generalize hs : r.starting = starting
  induction starting generalizing r c with
  | nil =>
    refine ⟨[], ?_⟩
    have hr : r.start = r := by
      obtain ⟨⟩ := r
      subst hs
      rfl
    exact hr.symm ▸ h
  | cons x starting ih =>
    have htalking : talking r.starting r.running =
        [] ++ (x.1, ⟨[startMessage x.2] ++ [], x.2.isSome⟩) :: talking starting r.running := by
      rw [hs]
      rfl
    obtain ⟨turns, hturns⟩ := h.utter starting r.running htalking (.inl ⟨rfl, rfl⟩)
    obtain ⟨more, hmore⟩ := ih hturns rfl
    refine ⟨turns ++ more, ?_⟩
    rw [Crew.run_append]
    have hr : r.start = Rehearsal.start { r with
        pool := [startMessage x.2].foldl (fun p m => p.handle x.1 m) r.pool, starting } := by
      unfold Rehearsal.start
      rw [hs]
      rfl
    exact hr.symm ▸ hmore

/-- A unit takes the first request that was sent and not taken. -/
theorem takeFirst (h : Follows r c) {q : UnitRequest} {fresh : List UnitRequest}
    (hq : r.pool.sent.drop r.taken = q :: fresh) (started : List Specifier) :
    ∃ turns, Follows
      { r with
        taken := r.taken + 1
        started
        running := r.running ++
          [⟨q.unit, q.reference, q.job.specifier, (r.scripts.get? q.job.number).getD []⟩] }
      (c.run turns) := by
  have hsent : r.pool.sent = c.begun.map (·.1) ++ q :: fresh := by
    have htaken : r.taken = (c.begun.map (·.1)).length := by rw [List.length_map, h.taken]
    rw [← hq, htaken]
    exact (List.prefix_iff_eq_append.1 h.begun).symm
  have hbox : c.inbox q.unit = q :: fresh.filter (·.unit = q.unit) := by
    have hlength : (c.begun.filter (·.1.unit = q.unit)).length =
        ((c.begun.map (·.1)).filter (·.unit = q.unit)).length := by
      rw [List.filter_map, List.length_map]
      rfl
    rw [Crew.inbox, h.pool, hsent, hlength, List.filter_append, List.drop_left,
      List.filter_cons_of_pos (by simp)]
  obtain ⟨-, -, -, hwaiting⟩ := h.kept.waiting_of_inbox (hbox ▸ List.mem_cons_self)
  have hact : c.run [.take q.unit (r.runOf q.job)] =
      { c.setThread q.unit (.compiling q.reference (r.runOf q.job)) with
        begun := c.begun ++ [(q, r.runOf q.job)] } := by
    show c.act (.take q.unit (r.runOf q.job)) = _
    rw [Crew.act, hbox]
    exact if_pos hwaiting
  have hquiet : q.unit ∉ (talking r.starting r.running).map (·.1) := by
    -- a unit that is sent a request waits, and one that is about to speak does not
    intro hm
    obtain ⟨x, hx, hunit⟩ := List.mem_map.1 hm
    have hthread := h.speaking.told x hx
    rw [hunit, hwaiting] at hthread
    exact unsaid_of_talking hx (hthread ▸ rfl)
  have hkept := h.kept.run [.take q.unit (r.runOf q.job)]
  refine ⟨[.take q.unit (r.runOf q.job)], ?_⟩
  rw [hact] at hkept ⊢
  refine ⟨hkept, h.pool, h.heard, h.accepted, h.counted, ?_, ?_, ?_, ?_⟩
  · exact List.length_append.trans (congrArg (· + 1) h.taken)
  · rw [List.map_append]
    exact ⟨fresh, by rw [List.append_assoc]; exact hsent.symm⟩
  · intro q' run hx
    rcases List.mem_append.1 hx with hx | hx
    · exact h.scripted q' run hx
    · cases List.mem_singleton.1 hx
      rfl
  · rw [talking_append]
    exact (Crew.threads_setThread c q.unit _) ▸ h.speaking.push hquiet _

/-- The units take the requests that were sent to them. -/
theorem take (h : Follows r c) : ∃ turns, Follows r.take (c.run turns) := by
  generalize hf : r.pool.sent.drop r.taken = fresh
  induction fresh generalizing r c with
  | nil =>
    refine ⟨[], ?_⟩
    have htaken : r.pool.sent.length = r.taken := by
      have hle := h.begun.length_le
      rw [List.length_map, h.taken] at hle
      exact Nat.le_antisymm (List.drop_eq_nil_iff.1 hf) hle
    have hr : r.take = r := by
      unfold Rehearsal.take
      rw [hf, htaken]
      simp
    exact hr.symm ▸ h
  | cons q fresh ih =>
    obtain ⟨turns, hturns⟩ := h.takeFirst hf (r.started ++ [q.job.specifier])
    have hfresh : r.pool.sent.drop (r.taken + 1) = fresh := by
      rw [← List.drop_drop, hf]
      rfl
    obtain ⟨more, hmore⟩ := ih hturns hfresh
    refine ⟨turns ++ more, ?_⟩
    rw [Crew.run_append]
    convert hmore using 1
    unfold Rehearsal.take
    dsimp only
    rw [hf, hfresh]
    simp

/-- The units that run do so, one after the other. -/
theorem runUnits (h : Follows r c) {before after : List Running}
    (hr : r.running = before ++ after) :
    ∃ turns, Follows
      { r with
        pool := (Rehearsal.runUnits r.opened after r.pool).1
        running := before ++ (Rehearsal.runUnits r.opened after r.pool).2 } (c.run turns) := by
  induction after generalizing r c before with
  | nil =>
    refine ⟨[], ?_⟩
    obtain ⟨⟩ := r
    subst hr
    exact h
  | cons u after ih =>
    have htalking : talking r.starting r.running =
        talking r.starting before ++ speaker u :: after.map speaker := by
      rw [hr, talking_append, List.map_cons]
    rcases advance_ofScript (r.opened.contains u.name) u.reference u.rest with
      hall | ⟨messages, rest, hsome, -, hsaid, hending⟩
    · -- the script is over, and the unit is not heard again
      rw [speaker, UnitThread.compiling, ← List.append_nil (CompilerRun.messages _ _)] at htalking
      obtain ⟨turns, hturns⟩ := h.utter r.starting (before ++ after) htalking
        (.inl ⟨rfl, talking_append ..⟩)
      obtain ⟨more, hmore⟩ := ih hturns rfl
      refine ⟨turns ++ more, ?_⟩
      rw [Crew.run_append, Rehearsal.runUnits, hall]
      exact hmore
    · -- a gate is closed, and the thread is about to say the rest of the run
      rw [speaker, UnitThread.compiling, hsaid, ← hending] at htalking
      obtain ⟨turns, hturns⟩ := h.utter r.starting
        (before ++ [{ u with rest := .gate :: rest }] ++ after) htalking
        (.inr (by rw [talking_append, talking_append, List.append_assoc]; rfl))
      obtain ⟨more, hmore⟩ := ih hturns rfl
      refine ⟨turns ++ more, ?_⟩
      rw [Crew.run_append, Rehearsal.runUnits, hsome]
      dsimp only at hmore ⊢
      rw [List.append_cons]
      exact hmore

/-- The units take requests and run, so many times. -/
theorem settleWithin (h : Follows r c) (times : Nat) :
    ∃ turns, Follows (r.settleWithin times) (c.run turns) := by
  induction times generalizing r c with
  | zero => exact ⟨[], h⟩
  | succ times ih =>
    obtain ⟨taking, htaking⟩ := h.take
    obtain ⟨running, hrunning⟩ := htaking.runUnits (List.nil_append _).symm
    obtain ⟨more, hmore⟩ := ih hrunning
    refine ⟨taking ++ running ++ more, ?_⟩
    rw [Crew.run_append, Crew.run_append]
    exact hmore

theorem settle (h : Follows r c) : ∃ turns, Follows r.settle (c.run turns) := by
  obtain ⟨starting, hstarting⟩ := h.start
  obtain ⟨more, hmore⟩ := hstarting.settleWithin (r.submitted + 1)
  refine ⟨starting ++ more, ?_⟩
  rw [Crew.run_append]
  exact hmore

/-- What a pool does not depend on. -/
theorem beside (h : Follows r c) (opened : List Specifier) (outstanding : Keyed Specifier Nat)
    (awaited : Keyed Specifier (Nat × Compile.Report)) (refused : List Specifier)
    (dropped : Bool) : Follows { r with opened, outstanding, awaited, refused, dropped } c :=
  ⟨h.kept, h.pool, h.heard, h.accepted, h.counted, h.taken, h.begun, h.scripted, h.speaking⟩

/-- Scripts that were followed came with submissions before. -/
theorem scripted_put (h : Follows r c) (script : List ScriptStep) {q : UnitRequest}
    {run : CompilerRun} (hx : (q, run) ∈ c.begun) :
    run = runOf { r with scripts := r.scripts.put r.submitted script } q.job := by
  have hq := h.kept.board.mem_requests hx
  have hname := h.kept.named q.job (List.mem_append_right _ (List.mem_map_of_mem hq))
  have hlt : q.job.number < c.submitted.length := (List.getElem?_eq_some_iff.1 hname).1
  have hne : q.job.number ≠ r.submitted := Nat.ne_of_lt (Nat.lt_of_lt_of_le hlt h.accepted)
  rw [h.scripted q run hx, runOf, runOf, Keyed.get?_put, if_neg hne]

/-- A pool that is closed refuses a job. -/
theorem refused (h : Follows r c) (script : List ScriptStep) (hclosed : r.pool.closed ≠ none) :
    Follows { r with
      submitted := r.submitted + 1
      scripts := r.scripts.put r.submitted script } c :=
  ⟨h.kept, h.pool, h.heard, Nat.le_succ_of_le h.accepted, fun hc => absurd hc hclosed, h.taken,
    h.begun, fun _ _ hx => h.scripted_put script hx, h.speaking⟩

theorem enqueued (h : Follows r c) (script : List ScriptStep) {name : Specifier} {pool : Pool}
    (hq : r.pool.enqueue ⟨r.submitted, name⟩ = (.ok (), pool)) :
    Follows
      { r with
        pool
        submitted := r.submitted + 1
        scripts := r.scripts.put r.submitted script } (c.run [.submit name]) := by
  have hopen : r.pool.closed = none := by
    unfold Pool.enqueue at hq
    split at hq
    · cases hq
    · next hopen => exact hopen
  have hcount := h.counted hopen
  have hact : c.run [.submit name] = { c with pool, submitted := c.submitted ++ [name] } := by
    show c.act (.submit name) = _
    rw [Crew.act, h.pool, hcount, hq]
  have hcount' : (c.submitted ++ [name]).length = r.submitted + 1 := by
    rw [List.length_append, hcount]
    rfl
  have hsteps := Pool.steps_enqueue (h.pool ▸ h.kept.board.sound.manned) hq
  have hkept := h.kept.run [.submit name]
  rw [hact] at hkept ⊢
  exact ⟨hkept, rfl, h.heard, hcount'.le, fun _ => hcount', h.taken,
    h.begun.trans ((Pool.requests_steps hsteps).1.filter _),
    fun _ _ hx => h.scripted_put script hx, h.speaking⟩

theorem givenUp (h : Follows r c) (job : Nat) :
    Follows { r with pool := r.pool.abandon job } (c.run [.abandon job]) :=
  ⟨h.kept.run _, congrArg (Pool.abandon · job) h.pool, h.heard, h.accepted, h.counted, h.taken,
    h.begun, h.scripted, h.speaking⟩

theorem submit (h : Follows r c) (name : Specifier) (script : List ScriptStep) :
    ∃ turns, Follows (r.submit name script).2 (c.run turns) := by
  unfold Rehearsal.submit
  dsimp only
  split
  · next e pool hq =>
    cases Pool.enqueue_error hq
    refine ⟨[], (h.refused script fun hc => ?_).beside ..⟩
    rw [Pool.enqueue, hc] at hq
    cases hq
  · next pool hq =>
    have henqueued := h.enqueued script hq
    cases r.outstanding.get? name with
    | none => exact ⟨_, henqueued.beside ..⟩
    | some old =>
      refine ⟨[.submit name] ++ [.abandon old], ?_⟩
      rw [Crew.run_append]
      exact (henqueued.givenUp old).beside ..

theorem abandon (h : Follows r c) (name : Specifier) :
    ∃ turns, Follows (r.abandon name).2 (c.run turns) := by
  unfold Rehearsal.abandon
  split
  · exact ⟨[], h⟩
  · next number _ => exact ⟨_, (h.givenUp number).beside ..⟩

theorem awaitReport (h : Follows r c) (name : Specifier) :
    ∃ turns, Follows (r.awaitReport name).2 (c.run turns) := by
  obtain ⟨turns, hturns⟩ := h.settle
  refine ⟨turns, ?_⟩
  unfold Rehearsal.awaitReport
  dsimp only
  split
  · exact hturns
  · split <;> exact hturns.beside ..

theorem code (h : Follows r c) (name : Specifier) :
    ∃ turns, Follows (r.code name).2 (c.run turns) := by
  obtain ⟨turns, hturns⟩ : ∃ turns,
      Follows (if r.dropped then r else r.settle) (c.run turns) := by
    split
    · exact ⟨[], h⟩
    · exact h.settle
  refine ⟨turns, ?_⟩
  unfold Rehearsal.code
  dsimp only
  split <;> exact hturns

end Follows

/-! ## Every rehearsal -/

/-- What is done in a rehearsal. -/
inductive Call where
  | start
  | submit (name : Specifier) (script : List ScriptStep)
  | abandon (name : Specifier)
  | release (name : Specifier)
  | settle
  | awaitReport (name : Specifier)
  | code (name : Specifier)
  | drop

def call (r : Rehearsal) : Call → Rehearsal
  | .start => r.start
  | .submit name script => (r.submit name script).2
  | .abandon name => (r.abandon name).2
  | .release name => r.release name
  | .settle => r.settle
  | .awaitReport name => (r.awaitReport name).2
  | .code name => (r.code name).2
  | .drop => r.drop

def callAll (r : Rehearsal) (calls : List Call) : Rehearsal := calls.foldl call r

namespace Follows

variable {r : Rehearsal} {c : Crew}

theorem call (h : Follows r c) (x : Call) : ∃ turns, Follows (r.call x) (c.run turns) := by
  cases x with
  | start => exact h.start
  | submit name script => exact h.submit name script
  | abandon name => exact h.abandon name
  | release name => exact ⟨[], h.beside ..⟩
  | settle => exact h.settle
  | awaitReport name => exact h.awaitReport name
  | code name => exact h.code name
  | drop => exact ⟨[], h.beside ..⟩

theorem callAll (h : Follows r c) (calls : List Call) :
    ∃ turns, Follows (r.callAll calls) (c.run turns) := by
  induction calls generalizing r c with
  | nil => exact ⟨[], h⟩
  | cons x calls ih =>
    obtain ⟨turns, hturns⟩ := h.call x
    obtain ⟨more, hmore⟩ := ih hturns
    refine ⟨turns ++ more, ?_⟩
    rw [Crew.run_append]
    exact hmore

end Follows

theorem units_create {size : Nat} {pool : Pool} (h : Pool.create size = .ok pool) :
    pool.units = List.replicate size {} := by
  unfold Pool.create at h
  split at h
  · cases h
  · dsimp only at h
    split at h
    · cases h
    · cases h
      exact List.eq_replicate_iff.2 ⟨by simp, by simp [Keyed.has, Keyed.get?]⟩

theorem follows_create {size : Nat} {starts : List UnitStart} {r : Rehearsal}
    (h : create size starts = .ok r) :
    ∃ pool, Pool.create size = .ok pool ∧
      Follows r (Crew.start (fun unit => (starts[unit]?).join) pool) := by
  unfold create at h
  cases hpool : Pool.create size with
  | error e =>
    rw [hpool] at h
    cases h
  | ok pool =>
    rw [hpool] at h
    cases h
    have hthreads : ∀ unit, (Crew.start (fun unit => (starts[unit]?).join) pool).threads unit =
        if unit < size then .starting (starts[unit]?).join else .ended := by
      intro unit
      simp only [Crew.start, units_create hpool, List.getElem?_replicate]
      split <;> rfl
    refine ⟨pool, rfl, Crew.kept_start hpool _, rfl, rfl, Nat.le_refl _, fun _ => rfl, rfl,
      List.nil_prefix, (by rintro _ _ ⟨⟩), ?_, ?_, fun unit hu => ?_⟩
    · intro x hx
      simp only [talking, List.map_map, List.map_nil, List.append_nil, List.mem_map,
        List.mem_range] at hx
      obtain ⟨unit, hlt, rfl⟩ := hx
      exact (hthreads unit).trans (if_pos hlt)
    · simpa [talking, Function.comp_def] using List.nodup_range
    · have hge : ¬ unit < size := by simpa [talking, Function.comp_def] using hu
      rw [hthreads, if_neg hge]
      rfl

/-- Every rehearsal is where some turns of callers, threads and a pool lead. -/
theorem exists_crew {size : Nat} {starts : List UnitStart} {r : Rehearsal}
    (h : create size starts = .ok r) (calls : List Call) :
    ∃ pool turns, Pool.create size = .ok pool ∧ Follows (r.callAll calls)
      ((Crew.start (fun unit => (starts[unit]?).join) pool).run turns) := by
  obtain ⟨pool, hpool, hfollows⟩ := follows_create h
  obtain ⟨turns, hturns⟩ := hfollows.callAll calls
  exact ⟨pool, turns, hpool, hturns⟩

/-! ## What jobs are answered -/

/-- A unit that still runs is at a gate that is closed. -/
theorem gate_of_runUnits {opened : List Specifier} {running : List Running} {p : Pool}
    {u : Running} (hu : u ∈ (runUnits opened running p).2) :
    ∃ rest, u.rest = .gate :: rest ∧ opened.contains u.name = false := by
  induction running generalizing p with
  | nil => cases hu
  | cons x running ih =>
    rw [runUnits] at hu
    rcases advance_ofScript (opened.contains x.name) x.reference x.rest with
      hall | ⟨messages, rest, hsome, hclosed, -⟩
    · rw [hall] at hu
      exact ih hu
    · rw [hsome] at hu
      rcases List.mem_cons.1 hu with rfl | hu
      · exact ⟨rest, rfl, hclosed⟩
      · exact ih hu

theorem gate_of_settleWithin {r : Rehearsal} {times : Nat} {u : Running}
    (hu : u ∈ (r.settleWithin (times + 1)).running) :
    ∃ rest, u.rest = .gate :: rest ∧ r.opened.contains u.name = false := by
  induction times generalizing r with
  | zero => exact gate_of_runUnits hu
  | succ times ih => exact ih (r := { r.take with
      pool := (runUnits r.take.opened r.take.running r.take.pool).1
      running := (runUnits r.take.opened r.take.running r.take.pool).2 }) hu

theorem starting_settleWithin (r : Rehearsal) (times : Nat) :
    (r.settleWithin times).starting = r.starting := by
  induction times generalizing r with
  | zero => rfl
  | succ times ih => exact ih _

/-- Whatever is done in a rehearsal, once its units are run as far as they go, a job that a unit has
taken was answered what the script that came with it says, up to the gate at which the unit is; and
all of it where the unit is at no gate. -/
theorem answered_by_own_script {size : Nat} {starts : List UnitStart} {r s : Rehearsal}
    {calls : List Call} (hr : create size starts = .ok r) (hs : (r.callAll calls).settle = s) :
    (∀ u ∈ s.running, ∃ rest, u.rest = .gate :: rest ∧
      (r.callAll calls).opened.contains u.name = false) ∧
    ∀ q ∈ s.pool.sent.take s.taken,
      Pool.answersTo s.pool.answers q.job.number <+: (s.runOf q.job).answers q.unit q.job ∧
      ((∀ u ∈ s.running, u.unit ≠ q.unit) →
        Pool.answersTo s.pool.answers q.job.number = (s.runOf q.job).answers q.unit q.job) := by
  subst hs
  refine ⟨fun u hu => gate_of_settleWithin (r := (r.callAll calls).start) hu, fun q hq => ?_⟩
  obtain ⟨pool, turns, -, hfollows⟩ := exists_crew hr calls
  obtain ⟨more, h⟩ := hfollows.settle
  -- what units have taken are the requests that have begun, each with the run of its script
  have hbegun := List.prefix_iff_eq_take.1 h.begun
  rw [List.length_map, h.taken] at hbegun
  rw [← hbegun] at hq
  obtain ⟨⟨q, run⟩, hx, rfl⟩ := List.mem_map.1 hq
  obtain ⟨hsofar, hall⟩ := h.kept.answered_so_far hx
  rw [h.pool, h.scripted q run hx] at hsofar hall
  refine ⟨hsofar, fun hn => hall ?_⟩
  rw [Crew.pending, Crew.said, h.heard]
  refine h.speaking.silent q.unit ?_
  have hnone : (r.callAll calls).settle.starting = [] := starting_settleWithin _ _
  rw [hnone, talking]
  simpa [speaker] using hn

end Rehearsal

end ScriptLoader
