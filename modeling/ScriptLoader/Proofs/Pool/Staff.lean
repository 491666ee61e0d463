import ScriptLoader.Proofs.Pool.Conservation

/-!
# What a pool knows of its units

A pool keeps the state of its units in several places: in the slots, in two counters, in the queue
of idle units and in whether it is closed. Each operation changes some of them in turn; the pool may
even retire a unit, and close, while it hands out jobs.

* `Pool.Staffed`: these places agree, up to one unit that is free and not among the idle ones.
* `Pool.staffed_retire`, `Pool.staffed_dispatchWithin`, `Pool.staffed_receive`: the operations.
* `Pool.Coherent`, `Pool.coherent_behind_actions`: what holds of a pool between two operations, and
  in which states it may be while one of them is under way.
-/

namespace ScriptLoader

/-- The unit has started, and its work is heard. -/
def UnitSlot.isLive (s : UnitSlot) : Bool := s.ready && !s.retired

/-- The unit has not started yet, and its start is waited for. -/
def UnitSlot.isInitializing (s : UnitSlot) : Bool := !s.ready && !s.retired

/-- The reference of the request that the unit works on. -/
def UnitSlot.reference? (s : UnitSlot) : Option Nat := s.current.map (·.reference)

namespace Pool

/-- The places in which a pool keeps the state of its units agree. A unit may be `away`: free, and
still not among the idle ones. -/
structure Staffed (away : Option Nat) (p : Pool) : Prop where
  manned : Manned p.units p.idle
  free : ∀ u slot, p.units[u]? = some slot → slot.isLive = true → slot.current = none →
    u ∈ p.idle ∨ away = some u
  live : p.live = p.units.countP (·.isLive)
  initializing : p.initializing = p.units.countP (·.isInitializing)
  distinct : ∀ (u v : Nat) (slot slot' : UnitSlot) (r : Nat), p.units[u]? = some slot →
    p.units[v]? = some slot' → slot.reference? = some r → slot'.reference? = some r → u = v
  below : ∀ slot ∈ p.units, ∀ r, slot.reference? = some r → r < p.nextReference
  shut : p.closed ≠ none → (∀ slot ∈ p.units, slot.retired = true) ∧ p.queue = []

/-- A pool that is open has a unit to wait for. -/
def Held (p : Pool) : Prop := p.closed = none → ∃ slot ∈ p.units, slot.retired = false

/-! ## Counting -/

theorem countP_set_add {units : List UnitSlot} {u : Nat} {slot : UnitSlot}
    (hu : units[u]? = some slot) (slot' : UnitSlot) (f : UnitSlot → Bool) :
    (units.set u slot').countP f + (f slot).toNat = units.countP f + (f slot').toNat := by
  induction units generalizing u with
  | nil => simp at hu
  | cons x xs ih =>
    cases u with
    | zero =>
      simp only [List.getElem?_cons_zero, Option.some.injEq] at hu
      subst hu
      rw [List.set_cons_zero, List.countP_cons, List.countP_cons]
      cases f x <;> cases f slot' <;> simp
    | succ u =>
      have := ih hu
      rw [List.set_cons_succ, List.countP_cons, List.countP_cons]
      omega

namespace Staffed

variable {away away' : Option Nat} {p q : Pool} {u : Nat} {slot slot' : UnitSlot}

theorem open_of_unit (h : Staffed away p) (hs : slot ∈ p.units) (hr : slot.retired = false) :
    p.closed = none := by
  by_contra hc
  have := (h.shut hc).1 slot hs
  rw [hr] at this
  cases this

/-- A unit that is not retired is counted. -/
theorem counted (h : Staffed away p) (hs : slot ∈ p.units) (hr : slot.retired = false) :
    if slot.ready then 0 < p.live else 0 < p.initializing := by
  split
  · next hready =>
    rw [h.live]
    exact List.countP_pos_iff.2 ⟨slot, hs, by simp [UnitSlot.isLive, hready, hr]⟩
  · next hready =>
    rw [h.initializing]
    exact List.countP_pos_iff.2 ⟨slot, hs, by simp [UnitSlot.isInitializing, hready, hr]⟩

/-- What is known of units does not depend on jobs and answers, as long as the pool is open. -/
theorem beside (h : Staffed away p) (hopen : p.closed = none) (queue : List Job)
    (abandoned stopped skipped : List Nat) (answers : List Answer) (requests : List UnitRequest)
    (events : List Log.Event) : Staffed away
      { p with queue, abandoned, stopped, answers, requests, skipped, events } :=
  ⟨h.manned, h.free, h.live, h.initializing, h.distinct, h.below, fun hc => absurd hopen hc⟩

/-- The slot of a unit changes, and what is known of it elsewhere changes with it. -/
theorem update (h : Staffed away p) (hu : p.units[u]? = some slot) (hr : slot.retired = false)
    (haway : ∀ v, away = some v → v = u) (hunits : q.units = p.units.set u slot')
    (hmanned : Manned q.units q.idle) (hidle : ∀ v ∈ p.idle, v ≠ u → v ∈ q.idle)
    (hfree : slot'.isLive = true → slot'.current = none → u ∈ q.idle ∨ away' = some u)
    (hlive : q.live + slot.isLive.toNat = p.live + slot'.isLive.toNat)
    (hinitializing : q.initializing + slot.isInitializing.toNat =
      p.initializing + slot'.isInitializing.toNat)
    (hnext : p.nextReference ≤ q.nextReference)
    (hreference : ∀ r, slot'.reference? = some r → slot.reference? = some r ∨
      r = p.nextReference ∧ r < q.nextReference)
    (hclosed : q.closed = p.closed) : Staffed away' q := by
  have hbound : u < p.units.length := (List.getElem?_eq_some_iff.1 hu).1
  have hself : q.units[u]? = some slot' := by rw [hunits, List.getElem?_set_self hbound]
  have hother : ∀ v, v ≠ u → q.units[v]? = p.units[v]? := fun v hv => by
    rw [hunits, List.getElem?_set_ne hv.symm]
  -- No other unit works on the request that the unit now works on.
  have halone : ∀ v slot'' r, v ≠ u → p.units[v]? = some slot'' → slot'.reference? = some r →
      slot''.reference? ≠ some r := by
    intro v slot'' r hv hs hr' hr''
    rcases hreference r hr' with hold | ⟨rfl, -⟩
    · exact hv (h.distinct v u slot'' slot r hs hu hr'' hold)
    · exact Nat.lt_irrefl _ (h.below slot'' (List.mem_of_getElem? hs) _ hr'')
  refine ⟨hmanned, ?_, ?_, ?_, ?_, ?_, ?_⟩
  · intro v slot'' hv hl hc
    by_cases hvu : v = u
    · subst hvu
      rw [hself, Option.some.injEq] at hv
      subst hv
      exact hfree hl hc
    · rw [hother v hvu] at hv
      rcases h.free v slot'' hv hl hc with hi | ha
      · exact Or.inl (hidle v hi hvu)
      · exact absurd (haway v ha) hvu
  · have := countP_set_add hu slot' (·.isLive)
    rw [← h.live] at this
    rw [hunits]
    omega
  · have := countP_set_add hu slot' (·.isInitializing)
    rw [← h.initializing] at this
    rw [hunits]
    omega
  · intro v w slotv slotw r hv hw hrv hrw
    by_cases hvu : v = u <;> by_cases hwu : w = u
    · rw [hvu, hwu]
    · rw [hvu, hself, Option.some.injEq] at hv
      rw [hother w hwu] at hw
      exact absurd hrw (halone w slotw r hwu hw (hv ▸ hrv))
    · rw [hwu, hself, Option.some.injEq] at hw
      rw [hother v hvu] at hv
      exact absurd hrv (halone v slotv r hvu hv (hw ▸ hrw))
    · rw [hother v hvu] at hv
      rw [hother w hwu] at hw
      exact h.distinct v w slotv slotw r hv hw hrv hrw
  · intro slot'' hs r hr'
    rw [hunits] at hs
    rcases List.mem_or_eq_of_mem_set hs with hs | rfl
    · exact Nat.lt_of_lt_of_le (h.below slot'' hs r hr') hnext
    · rcases hreference r hr' with hold | ⟨-, hlt⟩
      · exact Nat.lt_of_lt_of_le (h.below slot (List.mem_of_getElem? hu) r hold) hnext
      · exact hlt
  · intro hc
    exact absurd (h.open_of_unit (List.mem_of_getElem? hu) hr) (hclosed ▸ hc)

end Staffed

/-! ## Retiring a unit -/

variable {away : Option Nat} {p : Pool} {u : Nat} {slot : UnitSlot}

/-- Closing concerns the queue only. -/
theorem units_closeIfExhausted (p : Pool) (e : String) :
    (p.closeIfExhausted e).units = p.units ∧ (p.closeIfExhausted e).idle = p.idle := by
  unfold closeIfExhausted
  split <;> exact ⟨rfl, rfl⟩

theorem staffed_closeIfExhausted (h : Staffed away p) (e : String) :
    Staffed away (p.closeIfExhausted e) ∧ Held (p.closeIfExhausted e) := by
  unfold closeIfExhausted
  split
  · next hcond =>
    refine ⟨h, fun hopen => ?_⟩
    rcases hcond with hlive | hinit | hclosed
    · rw [h.live] at hlive
      obtain ⟨slot, hs, hl⟩ := List.countP_pos_iff.1 hlive
      exact ⟨slot, hs, by simp_all [UnitSlot.isLive]⟩
    · rw [h.initializing] at hinit
      obtain ⟨slot, hs, hl⟩ := List.countP_pos_iff.1 hinit
      exact ⟨slot, hs, by simp_all [UnitSlot.isInitializing]⟩
    · rw [hopen] at hclosed
      cases hclosed
  · next hcond =>
    -- A unit that is not retired would be counted.
    have hretired : ∀ slot ∈ p.units, slot.retired = true := by
      intro slot hs
      by_contra hr
      have := h.counted hs (by simpa using hr)
      split at this
      · exact hcond (Or.inl this)
      · exact hcond (Or.inr (Or.inl this))
    refine ⟨⟨h.manned, h.free, h.live, h.initializing, h.distinct, h.below,
      fun _ => ⟨hretired, rfl⟩⟩, ?_⟩
    intro hopen
    cases hopen

/-- Retiring a unit withdraws it from every place, and closes the pool if it was the last one. -/
theorem retire_eq (hu : p.units[u]? = some slot) (hr : slot.retired = false)
    (hcounted : if slot.ready then 0 < p.live else 0 < p.initializing) (e : Option LoadError)
    (reason : String) :
    ∃ q : Pool, p.retire u e reason = q.closeIfExhausted reason ∧
      q.units = p.units.set u (withdrawn slot) ∧ q.idle = p.idle.filter (· ≠ u) ∧
      q.live + slot.ready.toNat = p.live ∧
      q.initializing + (!slot.ready).toNat = p.initializing ∧
      q.nextReference = p.nextReference ∧ q.closed = p.closed := by
  unfold retire
  rw [hu]
  dsimp only
  rw [if_neg (by simp [hr])]
  refine ⟨_, rfl, ?_⟩
  have hlowered : ∀ n, 0 < n → n - 1 + 1 = n := fun _ hn => Nat.sub_add_cancel hn
  split at hcounted
  · next hready =>
    rw [if_pos hready, show slot.ready.toNat = 1 by rw [hready]; rfl,
      show (!slot.ready).toNat = 0 by rw [hready]; rfl]
    cases slot.current <;> exact ⟨rfl, rfl, hlowered _ hcounted, rfl, rfl, rfl⟩
  · next hready =>
    have hready' : slot.ready = false := by simpa using hready
    rw [if_neg hready, show slot.ready.toNat = 0 by rw [hready']; rfl,
      show (!slot.ready).toNat = 1 by rw [hready']; rfl]
    cases slot.current <;> exact ⟨rfl, rfl, rfl, hlowered _ hcounted, rfl, rfl⟩

theorem staffed_retire (h : Staffed away p) (hu : p.units[u]? = some slot)
    (hr : slot.retired = false) (haway : ∀ v, away = some v → v = u) (e : Option LoadError)
    (reason : String) :
    Staffed none (p.retire u e reason) ∧ Held (p.retire u e reason) := by
  have hmanned := manned_steps (steps_retire p 0 u e reason) h.manned
  obtain ⟨q, hq, hunits, hidle, hlive, hinitializing, hnext, hclosed⟩ :=
    retire_eq hu hr (h.counted (List.mem_of_getElem? hu) hr) e reason
  rw [hq] at hmanned ⊢
  obtain ⟨hsame, hsame'⟩ := units_closeIfExhausted q reason
  refine staffed_closeIfExhausted (h.update hu hr haway hunits ?_ ?_ ?_ ?_ ?_ ?_ ?_ hclosed) reason
  · rw [← hsame, ← hsame']
    exact hmanned
  · intro v hv hne
    rw [hidle]
    exact List.mem_filter.2 ⟨hv, by simpa using hne⟩
  · intro hl
    simp [UnitSlot.isLive, withdrawn] at hl
  · simpa [UnitSlot.isLive, withdrawn, hr] using hlive
  · simpa [UnitSlot.isInitializing, withdrawn, hr] using hinitializing
  · exact hnext.ge
  · intro r hr'
    simp [UnitSlot.reference?, withdrawn] at hr'

/-! ## Handing out jobs -/

theorem staffed_skipAbandoned (h : Staffed away p) : Staffed away p.skipAbandoned := by
  refine ⟨h.manned, h.free, h.live, h.initializing, h.distinct, h.below, fun hc => ?_⟩
  obtain ⟨hretired, hqueue⟩ := h.shut hc
  exact ⟨hretired, by simp [skipAbandoned, hqueue]⟩

/-- The unit that is idle for the longest time takes a job, or turns out to be gone. -/
theorem staffed_send {idle : List Nat} {job : Job} {rest : List Job} (h : Staffed none p)
    (hi : p.idle = u :: idle) (hq : p.queue = job :: rest) :
    Staffed none (({ p with idle, queue := rest } : Pool).send u job) ∧
      Held (({ p with idle, queue := rest } : Pool).send u job) := by
  obtain ⟨slot, hu, hready, hretired, hcurrent⟩ := h.manned.idle u (hi ▸ List.mem_cons_self)
  have hmem := List.mem_of_getElem? hu
  have hconnected : slot.connected = true := by
    rw [h.manned.connected slot hmem, hretired]
    rfl
  have hopen := h.open_of_unit hmem hretired
  have hmanned := manned_steps (steps_send (n := 0) hu hconnected hi hq) h.manned
  have hless : ∀ v ∈ p.idle, v ≠ u → v ∈ idle := fun v hv hne => by
    rw [hi] at hv
    exact (List.mem_cons.1 hv).resolve_left hne
  unfold send at hmanned ⊢
  rw [hu] at hmanned ⊢
  dsimp only at hmanned ⊢
  rw [if_neg (by simp [hconnected])] at hmanned ⊢
  split
  · -- The unit is away while the pool finds out that it is gone.
    have haway : Staffed (some u)
        { p with
          idle
          queue := job :: rest
          nextReference := p.nextReference + 1
          requests := p.requests ++
            [{ unit := u, reference := p.nextReference, job, delivered := false }] } := by
      refine ⟨h.manned.sublist (hi ▸ List.sublist_cons_self _ _), fun v slot' hv hl hc => ?_,
        h.live, h.initializing, h.distinct,
        fun slot' hs r hr => Nat.lt_succ_of_lt (h.below slot' hs r hr),
        fun hc => absurd hopen hc⟩
      by_cases hvu : v = u
      · exact Or.inr (congrArg some hvu.symm)
      · refine Or.inl (hless v ((h.free v slot' hv hl hc).resolve_right ?_) hvu)
        simp
    exact staffed_retire haway hu hretired (fun v hv => (Option.some.inj hv).symm) _ _
  · next hstopped =>
    rw [if_neg hstopped] at hmanned
    refine ⟨h.update hu hretired (by simp) rfl hmanned hless ?_ rfl rfl (Nat.le_succ _) ?_ rfl, ?_⟩
    · intro _ hc
      cases hc
    · rintro r hr
      exact Or.inr ⟨(Option.some.inj hr).symm, (Option.some.inj hr) ▸ Nat.lt_succ_self _⟩
    · intro _
      exact ⟨_, List.mem_of_getElem? (List.getElem?_set_self
        (List.getElem?_eq_some_iff.1 hu).1), hretired⟩

theorem idle_retire_sublist (p : Pool) (u : Nat) (e : Option LoadError) (reason : String) :
    (p.retire u e reason).idle.Sublist p.idle := by
  unfold retire
  split
  · exact .refl _
  · next slot _ =>
    split
    · exact .refl _
    · rw [(units_closeIfExhausted _ reason).2]
      cases slot.current <;> dsimp only <;> split <;> exact List.filter_sublist

theorem idle_send_sublist (p : Pool) (u : Nat) (job : Job) :
    (p.send u job).idle.Sublist p.idle := by
  unfold send
  split
  · exact .refl _
  · dsimp only
    split
    · exact idle_retire_sublist _ _ _ _
    · split
      · exact idle_retire_sublist _ _ _ _
      · exact .refl _

theorem staffed_dispatchWithin (turns : Nat) (h : Staffed none p) (hh : Held p) :
    Staffed none (p.dispatchWithin turns) ∧ Held (p.dispatchWithin turns) := by
  induction turns generalizing p with
  | zero => exact ⟨h, hh⟩
  | succ turns ih =>
    unfold dispatchWithin
    split
    · exact ⟨h, hh⟩
    · exact ⟨h, hh⟩
    · next unit idle hi _ =>
      have hskip := staffed_skipAbandoned h
      dsimp only
      split
      · exact ⟨hskip, hh⟩
      · next job rest hq =>
        have hfirst : p.skipAbandoned.idle = unit :: idle := hi
        obtain ⟨hsent, hheld⟩ := staffed_send hskip hfirst hq
        exact ih hsent hheld

/-- Each turn uses up an idle unit, so that in the end none is idle or no job is left. -/
theorem handed_dispatchWithin (turns : Nat) (h : Staffed none p) (hh : Held p)
    (hturns : p.idle.length ≤ turns) :
    (p.dispatchWithin turns).queue = [] ∨ (p.dispatchWithin turns).idle = [] := by
  induction turns generalizing p with
  | zero => exact Or.inr (List.length_eq_zero_iff.1 (Nat.le_zero.1 hturns))
  | succ turns ih =>
    unfold dispatchWithin
    split
    · next hq => exact Or.inl hq
    · next hi _ => exact Or.inr hi
    · next unit idle hi _ =>
      have hskip := staffed_skipAbandoned h
      dsimp only
      split
      · next hq => exact Or.inl hq
      · next job rest hq =>
        have hfirst : p.skipAbandoned.idle = unit :: idle := hi
        obtain ⟨hsent, hheld⟩ := staffed_send hskip hfirst hq
        refine ih hsent hheld ?_
        have hfewer := (idle_send_sublist { p.skipAbandoned with idle, queue := rest } unit
          job).length_le
        rw [hi, List.length_cons] at hturns
        dsimp only at hfewer
        omega

/-! ## Hearing a message -/

theorem held_of_unit (hu : p.units[u]? = some slot) (hr : slot.retired = false) : Held p :=
  fun _ => ⟨slot, List.mem_of_getElem? hu, hr⟩

/-- The work of a unit changes while it stays what it is. -/
theorem Staffed.work (h : Staffed none p) (hu : p.units[u]? = some slot)
    (hr : slot.retired = false) (current : Option InFlight) {idle : List Nat}
    (hmanned : Manned (p.units.set u { slot with current }) idle)
    (hidle : ∀ v ∈ p.idle, v ≠ u → v ∈ idle)
    (hfree : current = none → u ∈ idle ∨ away = some u)
    (hreference : ∀ f, current = some f → slot.reference? = some f.reference) :
    Staffed away { p with units := p.units.set u { slot with current }, idle } := by
  refine h.update hu hr (by simp) rfl hmanned hidle (fun _ => hfree) rfl rfl (Nat.le_refl _) ?_ rfl
  intro r hr'
  obtain ⟨f, hf, rfl⟩ := Option.map_eq_some_iff.1 hr'
  exact Or.inl (hreference f hf)

/-- A unit is done with its job and idle again. -/
theorem Staffed.finish (h : Staffed none p) (hu : p.units[u]? = some slot)
    (hr : slot.retired = false) {f : InFlight} (hf : slot.current = some f) {a : Answer}
    (ha : Ends f a) : Staffed none
      { p with units := p.units.set u { slot with current := none }, idle := p.idle ++ [u] } :=
  h.work hu hr none (manned_step (.finish (b := p.board 0) hu hf ha) h.manned)
    (fun _ hv _ => List.mem_append_left _ hv)
    (fun _ => Or.inl (List.mem_append_right _ List.mem_cons_self)) (by simp)

/-- A unit starts, and is idle. -/
theorem staffed_ready (h : Staffed none p) (hu : p.units[u]? = some slot)
    (hr : slot.retired = false) (hready : slot.ready = false) : Staffed none
      { p with
        units := p.units.set u { slot with ready := true }
        idle := p.idle ++ [u]
        live := p.live + 1
        initializing := p.initializing - 1 } := by
  have hcounted := h.counted (List.mem_of_getElem? hu) hr
  rw [hready] at hcounted
  refine h.update hu hr (by simp) rfl (manned_step (.ready (b := p.board 0) hu hr hready) h.manned)
    (fun v hv _ => List.mem_append_left _ hv)
    (fun _ _ => Or.inl (List.mem_append_right _ List.mem_cons_self)) ?_ ?_ (Nat.le_refl _)
    (fun r hr' => Or.inl hr') rfl
  · simp [UnitSlot.isLive, hready, hr]
  · simpa [UnitSlot.isInitializing, hready, hr] using Nat.sub_add_cancel hcounted

/-- A unit cannot start. -/
theorem staffed_initFailed (h : Staffed none p) (hu : p.units[u]? = some slot)
    (hr : slot.retired = false) (hready : slot.ready = false) : Staffed none
      { p with
        units := p.units.set u { slot with retired := true, connected := false }
        initializing := p.initializing - 1 } := by
  have hmem := List.mem_of_getElem? hu
  have hcounted := h.counted hmem hr
  rw [hready] at hcounted
  have hcurrent := h.manned.current_eq_none hu hready
  refine h.update hu hr (by simp) rfl
    (h.manned.set (h.manned.notMem_idle hu (Or.inr hready)) (fun hc => absurd hcurrent hc) rfl)
    (fun v hv _ => hv) ?_ ?_ ?_ (Nat.le_refl _) (fun r hr' => Or.inl hr') rfl
  · intro hl
    simp [UnitSlot.isLive] at hl
  · simp [UnitSlot.isLive, hready]
  · simpa [UnitSlot.isInitializing, hready, hr] using Nat.sub_add_cancel hcounted

theorem staffed_receive (h : Staffed none p) (hu : p.units[u]? = some slot)
    (hr : slot.retired = false) (m : UnitMessage) :
    Staffed none (p.receive u slot m) ∧ Held (p.receive u slot m) := by
  have hbound : u < p.units.length := (List.getElem?_eq_some_iff.1 hu).1
  have hopen := h.open_of_unit (List.mem_of_getElem? hu) hr
  have hunexpected : ∀ kind, Staffed none (p.retireUnexpected u kind) ∧
      Held (p.retireUnexpected u kind) :=
    fun _ => staffed_retire h hu hr (by simp) _ _
  cases m with
  | ready =>
    unfold receive
    dsimp only
    split
    · exact hunexpected _
    · next hready =>
      exact ⟨(staffed_ready h hu hr (by simpa using hready)).beside hopen _ _ _ _ _ _ _,
        held_of_unit (List.getElem?_set_self hbound) hr⟩
  | initFailed reason =>
    unfold receive
    dsimp only
    split
    · exact hunexpected _
    · next hready =>
      exact staffed_closeIfExhausted
        ((staffed_initFailed h hu hr (by simpa using hready)).beside hopen _ _ _ _ _ _ _) _
  | report reference r =>
    unfold receive
    dsimp only
    split
    · next f hf =>
      split
      · next hc =>
        have hwork : Staffed none _ := h.work hu hr (some { f with reported := true })
          (manned_step (.report (b := p.board 0) r hu hf (by simpa using hc.2)) h.manned)
          (fun _ hv _ => hv) (by simp) (by simp [UnitSlot.reference?, hf])
        exact ⟨hwork.beside hopen _ _ _ _ _ _ _, held_of_unit (List.getElem?_set_self hbound) hr⟩
      · exact hunexpected _
    · exact hunexpected _
  | code reference code =>
    unfold receive
    dsimp only
    split
    · next f hf =>
      split
      · next hc =>
        exact ⟨(h.finish hu hr hf (.code (.ok code) hc.2)).beside hopen _ _ _ _ _ _ _,
          held_of_unit (List.getElem?_set_self hbound) hr⟩
      · exact hunexpected _
    · exact hunexpected _
  | failed reference failure fatal =>
    unfold receive
    dsimp only
    split
    · next f hf =>
      split
      · split
        · -- The unit is done with its job and not idle when it is retired.
          have haway : Staffed (some u) _ := h.work hu hr none
            (h.manned.release hu (by simp [hf])) (fun _ hv _ => hv) (fun _ => Or.inr rfl) (by simp)
          exact staffed_retire (haway.beside hopen _ _ _ _ _ _ _) (List.getElem?_set_self hbound)
            hr (fun v hv => (Option.some.inj hv).symm) _ _
        · exact ⟨(h.finish hu hr hf (ends_failure f (.unavailable ""))).beside hopen _ _ _ _ _ _ _,
            held_of_unit (List.getElem?_set_self hbound) hr⟩
      · exact hunexpected _
    · exact hunexpected _

/-! ## Between operations -/

/-- What holds of a pool between two operations: no job waits beside an idle unit. -/
structure Rested (p : Pool) : Prop where
  staffed : Staffed none p
  held : Held p
  handed : p.queue = [] ∨ p.idle = []

theorem rested_dispatch (h : Staffed none p) (hh : Held p) : Rested p.dispatch := by
  obtain ⟨hs, hh'⟩ := staffed_dispatchWithin p.idle.length h hh
  exact ⟨hs, hh', handed_dispatchWithin p.idle.length h hh (Nat.le_refl _)⟩

theorem rested_handle (h : Rested p) (unit : Nat) (m : UnitMessage) : Rested (p.handle unit m) := by
  unfold handle
  split
  · exact h
  · next slot hu =>
    split
    · exact h
    · next hr =>
      obtain ⟨hs, hh⟩ := staffed_receive h.staffed hu (by simpa using hr) m
      exact rested_dispatch hs hh

theorem rested_enqueue (h : Rested p) (job : Job) : Rested (p.enqueue job).2 := by
  unfold enqueue
  split
  · exact h
  · next hopen =>
    exact rested_dispatch (h.staffed.beside hopen _ _ _ _ _ _ _) h.held

theorem rested_act {x : Pool × Nat} (h : Rested x.1) (a : Action) : Rested (act x a).1 := by
  cases a with
  | submit s =>
    have hq := rested_enqueue h ⟨x.2, s⟩
    unfold act
    dsimp only
    split
    · next q heq => rwa [heq] at hq
    · next e q heq => rwa [heq] at hq
  | abandon job =>
    have hs := h.staffed
    exact ⟨⟨hs.manned, hs.free, hs.live, hs.initializing, hs.distinct, hs.below, hs.shut⟩, h.held,
      h.handed⟩
  | message unit m => exact rested_handle h unit m
  | stop unit =>
    have hs := h.staffed
    exact ⟨⟨hs.manned, hs.free, hs.live, hs.initializing, hs.distinct, hs.below, hs.shut⟩, h.held,
      h.handed⟩

theorem rested_run (actions : List Action) {x : Pool × Nat} (h : Rested x.1) :
    Rested (run x actions).1 := by
  unfold run
  induction actions generalizing x with
  | nil => exact h
  | cons a actions ih => exact ih (rested_act h a)

theorem rested_create {size : Nat} {unspawned : Keyed Nat String} {start : Pool}
    (h : create size unspawned = .ok start) : Rested start := by
  have hmanned := (sound_create h).manned
  unfold create at h
  split at h
  · cases h
  · dsimp only at h
    split at h
    · cases h
    · next hsome =>
      cases h
      have hnew : ∀ slot ∈ (List.range size).map fun unit =>
          if unspawned.has unit then ({ connected := false, retired := true } : UnitSlot) else {},
          slot.ready = false ∧ slot.current = none := by
        intro slot hslot
        obtain ⟨unit, -, rfl⟩ := List.mem_map.1 hslot
        split <;> exact ⟨rfl, rfl⟩
      refine ⟨⟨hmanned, ?_, ?_, ?_, ?_, ?_, fun hc => absurd rfl hc⟩, ?_, Or.inl rfl⟩
      · intro u slot hu hl
        simp [UnitSlot.isLive, (hnew slot (List.mem_of_getElem? hu)).1] at hl
      · refine (List.countP_eq_zero.2 fun slot hs => ?_).symm
        simp [UnitSlot.isLive, (hnew slot hs).1]
      · dsimp only
        rw [← List.countP_eq_length_filter]
        refine List.countP_congr fun slot hs => ?_
        simp [UnitSlot.isInitializing, (hnew slot hs).1]
      · intro u v slot slot' r hu _ hr
        simp [UnitSlot.reference?, (hnew slot (List.mem_of_getElem? hu)).2] at hr
      · intro slot hs r hr
        simp [UnitSlot.reference?, (hnew slot hs).2] at hr
      · intro _
        obtain ⟨slot, hs⟩ := List.exists_mem_of_length_pos (Nat.pos_of_ne_zero hsome)
        obtain ⟨hs, hr⟩ := List.mem_filter.1 hs
        exact ⟨slot, hs, by simpa using hr⟩

/-! ## While an operation is under way -/

/-- The pools that a pool is, one after the other, while it hears a message or takes a job: as the
operation begins, and then behind each turn at handing out jobs. -/
inductive Passes (p : Pool) : Pool → Prop where
  | begins : Passes p p
  | hearing {unit : Nat} {slot : UnitSlot} (m : UnitMessage) (turns : Nat) :
    p.units[unit]? = some slot → slot.retired = false →
    Passes p ((p.receive unit slot m).dispatchWithin turns)
  | taking (job : Job) (turns : Nat) : p.closed = none →
    Passes p (({ p with queue := p.queue ++ [job] } : Pool).dispatchWithin turns)

theorem staffed_passes {q : Pool} (h : Rested p) (hq : Passes p q) : Staffed none q := by
  cases hq with
  | begins => exact h.staffed
  | hearing m turns hu hr =>
    obtain ⟨hs, hh⟩ := staffed_receive h.staffed hu hr m
    exact (staffed_dispatchWithin turns hs hh).1
  | taking job turns hopen =>
    have hs := h.staffed.beside hopen (p.queue ++ [job]) p.abandoned p.stopped p.skipped p.answers
      p.requests p.events
    exact (staffed_dispatchWithin turns hs h.held).1

/-! ## When the pool is closed -/

theorem closed_act {x : Pool × Nat} {reason : String} (hc : x.1.closed = some reason)
    (hr : ∀ slot ∈ x.1.units, slot.retired = true) (a : Action) :
    (act x a).1.closed = some reason ∧ (act x a).1.units = x.1.units ∧
      (act x a).1.queue = x.1.queue := by
  cases a with
  | submit s =>
    unfold act enqueue
    dsimp only
    rw [hc]
    exact ⟨hc, rfl, rfl⟩
  | abandon job => exact ⟨hc, rfl, rfl⟩
  | message unit m =>
    unfold act handle
    dsimp only
    split
    · exact ⟨hc, rfl, rfl⟩
    · next slot hu =>
      rw [if_pos (hr slot (List.mem_of_getElem? hu))]
      exact ⟨hc, rfl, rfl⟩
  | stop unit => exact ⟨hc, rfl, rfl⟩

theorem closed_run (actions : List Action) {x : Pool × Nat} {reason : String}
    (hc : x.1.closed = some reason) (hr : ∀ slot ∈ x.1.units, slot.retired = true) :
    (run x actions).1.closed = some reason ∧ (run x actions).1.queue = x.1.queue := by
  unfold run
  induction actions generalizing x with
  | nil => exact ⟨hc, rfl⟩
  | cons a actions ih =>
    obtain ⟨hc', hunits, hqueue⟩ := closed_act hc hr a
    obtain ⟨hlast, hsame⟩ := ih hc' (hunits ▸ hr)
    exact ⟨hlast, hsame.trans hqueue⟩

/-! ## The whole of it -/

/-- The references of the requests that units work on. -/
def references (p : Pool) : List Nat := p.units.filterMap (·.reference?)

/-- What a pool knows of its units between two operations. -/
structure Coherent (p : Pool) : Prop where
  live : p.live = p.units.countP (·.isLive)
  initializing : p.initializing = p.units.countP (·.isInitializing)
  nodup_idle : p.idle.Nodup
  mem_idle_iff : ∀ u, u ∈ p.idle ↔ ∃ slot, p.units[u]? = some slot ∧ slot.ready = true ∧
    slot.retired = false ∧ slot.current = none
  retired : ∀ slot ∈ p.units, slot.retired = true → slot.connected = false ∧ slot.current = none
  nodup_references : p.references.Nodup
  references_lt : ∀ r ∈ p.references, r < p.nextReference
  waiting : p.queue ≠ [] → p.idle = [] ∧ ∃ slot ∈ p.units, slot.retired = false
  closed_iff : p.closed.isSome = true ↔ ∀ slot ∈ p.units, slot.retired = true
  queue_of_closed : p.closed.isSome = true → p.queue = []

theorem Staffed.nodup_references (h : Staffed none p) : p.references.Nodup := by
  refine List.pairwise_filterMap.2 (List.pairwise_iff_getElem.2 ?_)
  intro u v hu hv hlt r hr r' hr' heq
  have := h.distinct u v p.units[u] p.units[v] r (List.getElem?_eq_getElem hu)
    (List.getElem?_eq_getElem hv) hr (heq ▸ hr')
  omega

theorem Rested.coherent (h : Rested p) : Coherent p := by
  have hs := h.staffed
  have hopen : p.queue ≠ [] → p.closed = none := fun hq => by
    by_contra hc
    exact hq (hs.shut hc).2
  refine ⟨hs.live, hs.initializing, hs.manned.nodup, fun u => ⟨hs.manned.idle u, ?_⟩, ?_,
    hs.nodup_references, ?_, fun hq => ⟨h.handed.resolve_left hq, h.held (hopen hq)⟩, ?_, ?_⟩
  · rintro ⟨slot, hu, hready, hretired, hcurrent⟩
    refine (hs.free u slot hu ?_ hcurrent).resolve_right (by simp)
    simp [UnitSlot.isLive, hready, hretired]
  · intro slot hslot hr
    refine ⟨by rw [hs.manned.connected slot hslot, hr]; rfl, ?_⟩
    by_contra hc
    rw [(hs.manned.working slot hslot hc).2] at hr
    cases hr
  · intro r hr
    obtain ⟨slot, hslot, hr⟩ := List.mem_filterMap.1 hr
    exact hs.below slot hslot r hr
  · refine ⟨fun hc => (hs.shut (Option.isSome_iff_ne_none.1 hc)).1, fun hall => ?_⟩
    by_contra hc
    obtain ⟨slot, hslot, hr⟩ := h.held (by simpa using hc)
    rw [hall slot hslot] at hr
    cases hr
  · exact fun hc => (hs.shut (Option.isSome_iff_ne_none.1 hc)).2

/-- Behind any actions on a pool that was created, the pool knows the state of its units everywhere
alike. It does at every moment of the next operation, too, so that a counter is not at zero when a
unit that it counts is taken from it. Once the pool is closed, it stays so and takes no job. -/
theorem coherent_behind_actions {size n : Nat} {unspawned : Keyed Nat String} {start p : Pool}
    {actions : List Action} (hstart : create size unspawned = .ok start)
    (hrun : run (start, 0) actions = (p, n)) :
    Coherent p ∧
    (∀ q, Passes p q → q.live = q.units.countP (·.isLive) ∧
      q.initializing = q.units.countP (·.isInitializing) ∧
      ∀ slot ∈ q.units, slot.retired = false →
        if slot.ready then 0 < q.live else 0 < q.initializing) ∧
    ∀ reason, p.closed = some reason →
      (∀ job, p.enqueue job = (.error (.unavailable reason), p)) ∧
      ∀ later, (run (p, n) later).1.closed = some reason ∧ (run (p, n) later).1.queue = [] := by
  have h : Rested p := by
    have := rested_run actions (x := (start, 0)) (rested_create hstart)
    rwa [hrun] at this
  refine ⟨h.coherent, fun q hq => ?_, fun reason hc => ⟨fun job => ?_, fun later => ?_⟩⟩
  · have hs := staffed_passes h hq
    exact ⟨hs.live, hs.initializing, fun slot hslot hr => hs.counted hslot hr⟩
  · unfold enqueue
    rw [hc]
  · obtain ⟨hretired, hqueue⟩ := h.staffed.shut (by simp [hc])
    obtain ⟨hlast, hsame⟩ := closed_run later (x := (p, n)) hc hretired
    exact ⟨hlast, hsame.trans hqueue⟩

/-- Of three units one was not started, one ends before it is given the second job, and the last one
says something out of turn. -/
def downfall : List Action :=
  [.message 0 .ready, .submit ⟨"/a"⟩, .submit ⟨"/b"⟩, .stop 1, .message 1 .ready,
    .message 0 (.code 7 "")]

theorem downfall_is_coherent :
    ∃ start p, create 3 [(2, "no thread")] = .ok start ∧ run (start, 0) downfall = (p, 2) ∧
      Coherent p ∧ p.live = 0 ∧ p.nextReference = 2 ∧ ∃ reason, p.closed = some reason ∧
        ∀ job, p.enqueue job = (.error (.unavailable reason), p) := by
  obtain ⟨start, hstart⟩ : ∃ start, create 3 [(2, "no thread")] = .ok start := ⟨_, rfl⟩
  have hrun : run (start, 0) downfall = ((run (start, 0) downfall).1, 2) := by
    cases hstart
    exact Prod.ext rfl (by decide +kernel)
  obtain ⟨hcoherent, -, hclosed⟩ := coherent_behind_actions hstart hrun
  have hsome : (run (start, 0) downfall).1.closed.isSome = true := by
    cases hstart
    decide +kernel
  obtain ⟨reason, hreason⟩ := Option.isSome_iff_exists.1 hsome
  refine ⟨start, _, hstart, hrun, hcoherent, ?_, ?_, reason, hreason, (hclosed reason hreason).1⟩
  · cases hstart
    decide +kernel
  · cases hstart
    decide +kernel

end Pool

end ScriptLoader
