import ScriptLoader.Proofs.Sharing.Parts

/-!
# The steps of a loader are touches

Each stage of a request has a conduct that is left. A step to the next stage is a part of this
conduct that nothing comes between, so that requests that take turns step by step touch what they
share in one of the orders that there are. The loader stores no compiles.

* `Stage.conduct`: what is left of a request.
* `Sharing.leads_nextStage`: a step.
* `Sharing.run_advanceBy`: requests that take turns step by step.
-/

namespace ScriptLoader

variable {F σ ι : Type}

open Sharing in
/-- What is left of a request at a stage. -/
def Stage.conduct (limit patience : Nat) (importer : Importer) (options : Compile.Options)
    (entry : Specifier) : Stage F → Conduct F (Except LoadError (LoadedModule F))
  | .starting => request limit patience importer options entry
  | .resolving r => do
    behindGraph patience importer options entry
      (← resolve options r.resolution.budget r.resolution)
  | .resolved g => behindGraph patience importer options entry (.ok g)
  | .compiled g => assemble importer options entry g
  | .assembled g result => behindAssembly options g result
  | .failing e => return .error e
  | .finished result => return result

/-- The request that has the lock behind a step of request `i` from a stage. -/
def Stage.passes (i : ι) (holder : Option ι) : Stage F → Option ι
  | .compiled _ => some i
  | .assembled .. => none
  | _ => holder

/-- What is in flight is what is pending, and comes to what a workshop makes of it. -/
structure Resolving.Tidy (w : Workshop) (options : Compile.Options) (r : Resolving) : Prop where
  inFlight : r.inFlight.Perm r.resolution.pending
  running : Resolving.Runs w options r.running

namespace Sharing

/-- What comes of modules is what a workshop makes of them. -/
def Made (w : Workshop) : Supply := fun options s outcome => outcome = (w.outcomes options).of s

variable {host : Host F σ} {w : Workshop} {i : ι} {l : Loader F σ} {holder : Option ι}
  {options : Compile.Options} {entry : Specifier}

/-! ## Resolving -/

theorem tidy_start (skip : Specifier → Bool) (limit : Nat) (entries : List Specifier) :
    (Resolving.start skip limit entries).Tidy w options := by
  refine ⟨?_, fun p hp => by cases hp⟩
  simp [Resolving.start, Resolution.start, Resolution.discover, Resolving.inFlight]

/-- What is pending behind the record of a module is in flight again. -/
theorem tidy_taken {r : Resolving} {f : Finished} {record : CompiledRecord}
    {skip : Specifier → Bool} {x : Resolution} {new : List Specifier} (hr : r.Tidy w options)
    (hperm : r.inFlight.Perm (f.specifier :: (f.queue ++ f.running.map (·.1))))
    (hruns : Resolving.Runs w options f.running) (hname : record.specifier = f.specifier)
    (hx : Resolution.discover skip (Resolution.dependencies record) (r.resolution.take record) =
      (x, new)) : Resolving.Tidy w options ⟨x, f.queue ++ new, f.running⟩ := by
  have hpending : x.pending = r.resolution.pending.erase f.specifier ++ new := by
    have hnew : _ = new := congrArg Prod.snd hx
    have hnext : _ = x := congrArg Prod.fst hx
    rw [← hnext, ← hnew, ← hname]
    rfl
  refine ⟨?_, hruns⟩
  have hrest := (hr.inFlight.symm.trans hperm).erase f.specifier
  rw [List.erase_cons_head] at hrest
  rw [hpending]
  refine .trans ?_ (hrest.symm.append_right new)
  simp only [Resolving.inFlight, List.append_assoc]
  exact List.perm_append_comm.append_left _

/-- A resolution that waits for a pending module fails or discovers what the module depends on. -/
theorem leads_finish (host : Host F σ) (w : Workshop) (i : ι) (l : Loader F σ)
    (holder : Option ι) (options : Compile.Options) {r : Resolution} {s : Specifier}
    (hs : s ∈ r.pending) :
    (∀ e, r.finish (l.skips options) ((w.outcomes options).of s) = .error e →
      Leads host (Made w) i (l.common holder) (resolve options r.budget r) (l.common holder)
        (.done (.error e))) ∧
    ∀ x new, r.finish (l.skips options) ((w.outcomes options).of s) = .ok (x, new) →
      Leads host (Made w) i (l.common holder) (resolve options r.budget r) (l.common holder)
        (resolve options x.budget x) := by
  have hpending : r.pending ≠ [] := List.ne_nil_of_mem hs
  have hawait : Performs host (Made w) i (l.common holder) (.await options r.pending)
      (s, (w.outcomes options).of s) (l.common holder) := .await hs rfl
  constructor
  · intro e he
    unfold Resolution.finish at he
    cases hbudget : r.budget with
    | zero =>
      rw [if_pos hbudget] at he
      cases he
      rw [resolve, if_neg hpending]
      exact .perform hawait .refl
    | succ budget =>
      rw [if_neg (by rw [hbudget]; simp)] at he
      rw [resolve, if_neg hpending]
      refine .perform hawait ?_
      cases hout : (w.outcomes options).of s with
      | error e' =>
        rw [hout] at he
        cases he
        exact .refl
      | ok record =>
        rw [hout] at he
        cases he
  · intro x new hx
    obtain ⟨hbudget, record, hrecord, hx⟩ := Resolution.finish_eq_ok_iff.1 hx
    obtain ⟨budget, hbudget⟩ := Nat.exists_eq_succ_of_ne_zero hbudget
    have hx : (Resolution.discover (l.skips options) (Resolution.dependencies record)
      (r.take record)).1 = x := congrArg Prod.fst hx
    have hleft : x.budget = budget := by
      rw [← hx]
      simp [Resolution.discover, Resolution.take, hbudget]
    rw [hbudget, resolve, if_neg hpending, hleft, ← hx]
    refine .perform hawait ?_
    rw [hrecord]
    exact .bind (leads_discover _ _) .refl

/-- A step of a resolution finds that no module is pending, or it waits for one. -/
theorem leads_step (host : Host F σ) (i : ι) (holder : Option ι) {r : Resolving}
    (hr : r.Tidy w options) (hw : l.workshop.Alike w) :
    (∀ result, (r.step (l.skips options) options l.workshop).1 = .inl result →
      Leads host (Made w) i (l.common holder) (resolve options r.resolution.budget r.resolution)
        (l.common holder) (.done result)) ∧
    ∀ next, (r.step (l.skips options) options l.workshop).1 = .inr next →
      next.1.Tidy w options ∧
      Leads host (Made w) i (l.common holder) (resolve options r.resolution.budget r.resolution)
        (l.common holder) (resolve options next.1.resolution.budget next.1.resolution) := by
  have hsame : l.workshop.outcomes options = w.outcomes options :=
    Workshop.outcomes_of_alike hw options
  have hruns : Resolving.Runs l.workshop options r.running := by
    unfold Resolving.Runs
    rw [hsame]
    exact hr.running
  rcases Resolving.step_cases (l.skips options) options r l.workshop with ⟨hn, hs⟩ | ⟨f, hn, hf⟩
  · obtain ⟨hq, hrun⟩ := Resolving.nextOf_eq_none hn
    have hdone : r.resolution.pending = [] := by
      have := hr.inFlight
      simpa [Resolving.inFlight, hq, hrun] using this.symm
    rw [hs]
    refine ⟨?_, by simp⟩
    rintro _ ⟨⟩
    cases r.resolution.budget <;>
    · rw [resolve, if_pos hdone]
      exact .refl
  · obtain ⟨hout, hrunning, hperm⟩ := Resolving.nextOf_eq_some hruns hn
    unfold Resolving.Runs at hrunning
    rw [hsame] at hout hrunning
    have hmem : f.specifier ∈ r.resolution.pending :=
      hr.inFlight.mem_iff.1 (hperm.mem_iff.2 List.mem_cons_self)
    obtain ⟨hfail, hnext⟩ := leads_finish host w i l holder options hmem
    rw [← hout] at hfail hnext
    rcases hf with ⟨e, hf, hs⟩ | ⟨x, new, hb, hf, hs⟩
    · rw [hs]
      refine ⟨?_, by simp⟩
      rintro _ ⟨⟩
      exact hfail e hf
    · rw [hs]
      refine ⟨by simp, ?_⟩
      rintro _ ⟨⟩
      obtain ⟨-, record, hrecord, hx⟩ := Resolution.finish_eq_ok_iff.1 hf
      have hname : record.specifier = f.specifier :=
        (w.outcomes options).specifier_eq (hout.symm.trans hrecord)
      exact ⟨tidy_taken hr hperm hrunning hname hx, hnext x new hf⟩

/-! ## One step -/

/-- What holds of a loader while requests take their steps. -/
structure InOrder (w : Workshop) (l : Loader F σ) : Prop where
  alike : l.workshop.Alike w
  nodup : (Keyed.keys l.prepared).Nodup
  named : ∀ s p, l.prepared.get? s = some p → p.record.specifier = s

/-- What holds of a stage. -/
def Fine (w : Workshop) (options : Compile.Options) : Stage F → Prop
  | .resolving r => r.Tidy w options
  | _ => True

theorem alike_awaitCode (hcache : w.cache = none) (v : Workshop) (hv : v.Alike w) (g : Graph) :
    (v.awaitCode g).2.Alike w := by
  have hstore : ∀ rs : List CompiledRecord, rs.foldl Workshop.store v = v := by
    intro rs
    induction rs with
    | nil => rfl
    | cons r rs ih =>
      have : v.store r = v := by
        unfold Workshop.store
        rw [hv.cache, hcache]
      rw [List.foldl_cons, this, ih]
  unfold Workshop.awaitCode
  dsimp only
  rw [hstore]
  exact hv

theorem alike_discardCache (hcache : w.cache = none) {v : Workshop} (hv : v.Alike w) :
    v.discardCache.Alike w := by
  unfold Workshop.discardCache
  rw [hv.cache, hcache]
  exact hv

theorem inOrder_retainRecord (hl : InOrder w l) (options : Compile.Options) (r : CompiledRecord) :
    InOrder w (Loader.retainRecord options l r) := by
  refine ⟨hl.alike, Loader.nodup_foldl_retainRecord [r] hl.nodup, fun s p hp => ?_⟩
  rw [Loader.get?_retainRecord] at hp
  split at hp
  · next hs =>
    split at hp
    · cases hp
    · cases hp
      exact hs.symm
  · exact hl.named s p hp

theorem inOrder_retain (hl : InOrder w l) (options : Compile.Options) (rs : List CompiledRecord) :
    InOrder w (rs.foldl (Loader.retainRecord options) l) := by
  induction rs generalizing l with
  | nil => exact hl
  | cons r rs ih => exact ih (inOrder_retainRecord hl options r)

/-- What is left of a request at a stage goes on to what is left at the next one, with patience
enough. -/
theorem leads_nextStage (host : Host F σ) (i : ι) (entry : Specifier) (hcache : w.cache = none)
    (hl : InOrder w l) {st : Stage F} (hst : Fine w options st) :
    InOrder w (l.nextStage host entry options st).2 ∧
      Fine w options (l.nextStage host entry options st).1 ∧
      ∃ n, ∀ patience, n ≤ patience → ∀ holder : Option ι,
        (st.isCompiled = true → holder = none) → (st.isAssembled = true → holder = some i) →
        Leads host (Made w) i (l.common holder)
          (st.conduct l.settings.limit patience l.importer options entry)
          ((l.nextStage host entry options st).2.common (st.passes i holder))
          ((l.nextStage host entry options st).1.conduct l.settings.limit patience l.importer
            options entry) := by
  cases st with
  | starting =>
    simp only [Loader.nextStage]
    cases hm : l.registry.get? entry with
    | some m =>
      refine ⟨⟨hl.alike, hl.nodup, hl.named⟩, trivial, 0, fun patience _ holder _ _ => ?_⟩
      refine .perform .look ?_
      rw [registry_common, hm]
      exact .refl
    | none =>
      refine ⟨⟨hl.alike, hl.nodup, hl.named⟩, tidy_start _ _ _, 0, fun patience _ holder _ _ => ?_⟩
      refine .perform .look ?_
      rw [registry_common, hm]
      exact .bind (leads_discover _ _) .refl
  | resolving r =>
    have hlead := fun holder => leads_step host i holder hst hl.alike
    have halike := (Resolving.alike_step (l.skips options) options r l.workshop).trans hl.alike
    simp only [Loader.nextStage]
    rcases hs : r.step (l.skips options) options l.workshop with ⟨(e | g) | ⟨next, hb⟩, v⟩ <;>
      rw [hs] at hlead halike
    · exact ⟨⟨halike, hl.nodup, hl.named⟩, trivial, 0,
        fun _ _ holder _ _ => ((hlead holder).1 _ rfl).bind .refl⟩
    · exact ⟨⟨halike, hl.nodup, hl.named⟩, trivial, 0,
        fun _ _ holder _ _ => ((hlead holder).1 _ rfl).bind .refl⟩
    · exact ⟨⟨halike, hl.nodup, hl.named⟩, ((hlead none).2 _ rfl).1, 0,
        fun _ _ holder _ _ => ((hlead holder).2 _ rfl).2.within _⟩
  | resolved g =>
    have halike := alike_awaitCode hcache l.workshop hl.alike g
    have hwait : (l.workshop.awaitCode g).1 = g.awaitCode := rfl
    simp only [Loader.nextStage, Stage.conduct, behindGraph]
    rcases hs : l.workshop.awaitCode g with ⟨⟨g', _ | ⟨⟩⟩, v⟩ <;> rw [hs] at halike hwait <;>
      rw [← hwait]
    · exact ⟨⟨halike, hl.nodup, hl.named⟩, trivial, 0, fun _ _ _ _ _ => .refl⟩
    · let k : Loader F σ := { l with workshop := v }
      refine ⟨⟨halike, hl.nodup, hl.named⟩, trivial,
        Closure.ahead [] (k.recordTable options g') + 2, fun patience hp holder _ _ => ?_⟩
      exact .bind (leads_adopt (l := k) hl.named hl.nodup (by omega)) .refl
  | compiled g =>
    refine ⟨⟨hl.alike, hl.nodup, hl.named⟩, trivial, 0, fun patience _ holder hfree _ => ?_⟩
    exact .perform (.acquire (hfree rfl)) (.bind (leads_load g entry l.assembly) .refl)
  | assembled g result =>
    have hkeep : Leads host (Made w) i (l.common (some i))
        (behindAssembly options g result) ((l.retain options g).common none) (.done result) :=
      .bind (leads_retain g.records l) (.perform (.release rfl) .refl)
    have hin := inOrder_retain hl options g.records
    cases result with
    | ok m => exact ⟨hin, trivial, 0, fun _ _ holder _ hhold => hhold rfl ▸ hkeep⟩
    | error e => exact ⟨hin, trivial, 0, fun _ _ holder _ hhold => hhold rfl ▸ hkeep⟩
  | failing e =>
    exact ⟨⟨alike_discardCache hcache hl.alike, hl.nodup, hl.named⟩, trivial, 0,
      fun _ _ _ _ _ => .refl⟩
  | finished result => exact ⟨hl, trivial, 0, fun _ _ _ _ _ => .refl⟩

/-! ## Taking turns -/

theorem importer_nextStage (host : Host F σ) (entry : Specifier) (options : Compile.Options)
    (l : Loader F σ) (st : Stage F) :
    (l.nextStage host entry options st).2.importer = l.importer := by
  have hretain : ∀ rs : List CompiledRecord,
      (rs.foldl (Loader.retainRecord options) l).number = l.number := by
    intro rs
    induction rs generalizing l with
    | nil => rfl
    | cons r rs ih => exact ih (Loader.retainRecord options l r)
  cases st with
  | assembled g result =>
    simp only [Loader.nextStage]
    split <;> simp only [Loader.importer, Loader.retain, hretain]
  | compiled g => rfl
  | failing e => rfl
  | finished result => rfl
  | _ =>
    simp only [Loader.nextStage]
    split <;> rfl

theorem isAssembled_nextStage (host : Host F σ) (entry : Specifier) (options : Compile.Options)
    (l : Loader F σ) (st : Stage F) :
    (l.nextStage host entry options st).1.isAssembled = st.isCompiled := by
  cases st with
  | compiled g => rfl
  | failing e => rfl
  | finished result => rfl
  | _ =>
    simp only [Loader.nextStage]
    split <;> rfl

/-- The lock is with a request that was assembled and is not behind the keeping. -/
def Locked (qs : List (LoadRequest F)) (holder : Option ℕ) : Prop :=
  ∀ i, holder = some i ↔ ∃ q, qs[i]? = some q ∧ q.stage.isAssembled = true

theorem locked_set {qs : List (LoadRequest F)} {holder : Option ℕ} {i : ℕ} {q : LoadRequest F}
    {next : Stage F} (h : Locked qs holder) (hq : qs[i]? = some q)
    (hcompiled : q.stage.isCompiled = true → holder = none)
    (hnext : next.isAssembled = q.stage.isCompiled) :
    Locked (qs.set i { q with stage := next }) (q.stage.passes i holder) := by
  have hi : i < qs.length := (List.getElem?_eq_some_iff.1 hq).1
  intro j
  by_cases hj : i = j
  · subst hj
    have hold : holder = some i ↔ q.stage.isAssembled = true := by simp [h i, hq]
    rw [List.getElem?_set_self hi]
    simp only [Option.some.injEq, exists_eq_left', hnext]
    cases hst : q.stage <;> simp_all [Stage.passes, Stage.isAssembled, Stage.isCompiled]
  · rw [List.getElem?_set_ne hj, ← h j]
    cases hst : q.stage with
    | compiled g => simp [Stage.passes, hj, hcompiled (by rw [hst]; rfl)]
    | assembled g result =>
      have hhold := (h i).2 ⟨q, hq, by rw [hst]; rfl⟩
      simp [Stage.passes, hj, hhold]
    | _ => rfl

/-- Requests to a loader at their stages, and what is left of each of them. -/
structure Stands (limit patience : Nat) (importer : Importer) (l : Loader F σ)
    (qs : List (LoadRequest F)) (x : State F σ ℕ (Except LoadError (LoadedModule F))) : Prop where
  shared : ∃ holder, x.shared = l.common holder ∧ Locked qs holder
  conduct : ∀ i q, qs[i]? = some q →
    x.conduct i = q.stage.conduct limit patience importer q.options q.entry

/-- What holds of a loader and its requests while they take turns. -/
structure Turns (w : Workshop) (l : Loader F σ) (qs : List (LoadRequest F)) : Prop where
  inOrder : InOrder w l
  fine : ∀ q ∈ qs, Fine w q.options q.stage

/-- Where requests stand, they may come to where a loader takes them. -/
def Follows (host : Host F σ) (w : Workshop) (limit : Nat) (importer : Importer)
    (s t : Loader F σ × List (LoadRequest F)) : Prop :=
  s.2.length = t.2.length ∧
  ∃ n, ∀ patience, n ≤ patience → ∀ x, Stands limit patience importer s.1 s.2 x →
    ∃ events y, Run host (Made w) x events y ∧ Stands limit patience importer t.1 t.2 y ∧
      ∀ e ∈ events, e.request < s.2.length

theorem Follows.refl {limit : Nat} {importer : Importer}
    (s : Loader F σ × List (LoadRequest F)) : Follows host w limit importer s s :=
  ⟨rfl, 0, fun _ _ x hx => ⟨[], x, .nil, hx, by simp⟩⟩

theorem Follows.trans {limit : Nat} {importer : Importer}
    {s t u : Loader F σ × List (LoadRequest F)} (h : Follows host w limit importer s t)
    (k : Follows host w limit importer t u) : Follows host w limit importer s u := by
  obtain ⟨hlength, n, hn⟩ := h
  obtain ⟨hlength', m, hm⟩ := k
  refine ⟨hlength.trans hlength', max n m, fun patience hp x hx => ?_⟩
  obtain ⟨before, y, hrun, hy, hbefore⟩ := hn patience (by omega) x hx
  obtain ⟨after, z, hrun', hz, hafter⟩ := hm patience (by omega) y hy
  rw [← hlength] at hafter
  exact ⟨before ++ after, z, hrun.append hrun', hz,
    List.forall_mem_append.2 ⟨hbefore, hafter⟩⟩

theorem follows_advanceAt (host : Host F σ) (hcache : w.cache = none) {qs : List (LoadRequest F)}
    (h : Turns w l qs) (i : ℕ) :
    Turns w (Loader.advanceAt host (l, qs) i).1 (Loader.advanceAt host (l, qs) i).2 ∧
      (Loader.advanceAt host (l, qs) i).1.settings = l.settings ∧
      (Loader.advanceAt host (l, qs) i).1.importer = l.importer ∧
      Follows host w l.settings.limit l.importer (l, qs) (Loader.advanceAt host (l, qs) i) := by
  unfold Loader.advanceAt
  dsimp only
  split
  · exact ⟨h, rfl, rfl, .refl _⟩
  · next q hq =>
    split
    · exact ⟨h, rfl, rfl, .refl _⟩
    · next hfree =>
      obtain ⟨hin, hfine, n, hn⟩ := leads_nextStage host i q.entry hcache h.inOrder
        (h.fine q (List.mem_of_getElem? hq))
      have hsettings := Loader.settings_nextStage host q.entry q.options l q.stage
      have hi : i < qs.length := (List.getElem?_eq_some_iff.1 hq).1
      refine ⟨⟨hin, ?_⟩, hsettings, importer_nextStage host q.entry q.options l q.stage,
        List.length_set.symm, n, fun patience hp x hx => ?_⟩
      · intro p hp
        rcases List.mem_or_eq_of_mem_set hp with hp | rfl
        · exact h.fine p hp
        · exact hfine
      · obtain ⟨⟨holder, hshared, hlocked⟩, hconduct⟩ := hx
        have hnobody : q.stage.isCompiled = true → holder = none := by
          intro hc
          by_contra hsome
          obtain ⟨j, hj⟩ := Option.ne_none_iff_exists'.1 hsome
          obtain ⟨other, ho, ha⟩ := (hlocked j).1 hj
          refine hfree ?_
          simp only [Loader.isBlocked, hc, Bool.true_and, List.any_eq_true]
          exact ⟨other, List.mem_of_getElem? ho, ha⟩
        obtain ⟨events, hrun, hown⟩ := (hn patience hp holder hnobody fun ha =>
          (hlocked i).2 ⟨q, hq, ha⟩).run (hconduct i q hq)
        obtain ⟨shared, conduct⟩ := x
        subst hshared
        refine ⟨events, _, hrun, ⟨⟨_, rfl, locked_set hlocked hq hnobody
          (isAssembled_nextStage host q.entry q.options l q.stage)⟩, fun j p hp => ?_⟩,
          fun e he => hown e he ▸ hi⟩
        by_cases hij : i = j
        · subst hij
          rw [List.getElem?_set_self hi] at hp
          cases hp
          exact Function.update_self ..
        · rw [List.getElem?_set_ne hij] at hp
          exact (Function.update_of_ne (Ne.symm hij) ..).trans (hconduct j p hp)

theorem follows_advanceBy (host : Host F σ) (hcache : w.cache = none) {qs : List (LoadRequest F)}
    (h : Turns w l qs) (order : List ℕ) :
    Follows host w l.settings.limit l.importer (l, qs) (Loader.advanceBy host (l, qs) order) := by
  unfold Loader.advanceBy
  induction order generalizing l qs with
  | nil => exact .refl _
  | cons i order ih =>
    obtain ⟨hnext, hsettings, himporter, hfollows⟩ := follows_advanceAt host hcache h i
    have hrest := ih hnext
    rw [hsettings, himporter] at hrest
    exact hfollows.trans hrest

/-- Requests that take turns step by step, in any order, touch what they share in some order. -/
theorem run_advanceBy (host : Host F σ) {l : Loader F σ} (hcache : l.workshop.cache = none)
    (hnodup : (Keyed.keys l.prepared).Nodup)
    (hnamed : ∀ s p, l.prepared.get? s = some p → p.record.specifier = s)
    (asks : ℕ → Ask) (count : ℕ) (order : List ℕ) :
    ∃ n, ∀ patience, n ≤ patience → ∃ events y,
      Run host (Made l.workshop)
        (asked l.settings.limit l.importer (l.common none)
          fun i => { asks i with patience := patience }) events y ∧
      Stands l.settings.limit patience l.importer
        (Loader.advanceBy host (l, (List.range count).map fun i =>
          { entry := (asks i).entry, options := (asks i).options }) order).1
        (Loader.advanceBy host (l, (List.range count).map fun i =>
          { entry := (asks i).entry, options := (asks i).options }) order).2 y ∧
      ∀ e ∈ events, e.request < count := by
  have hturns : Turns l.workshop l ((List.range count).map fun i =>
      { entry := (asks i).entry, options := (asks i).options }) := by
    refine ⟨⟨.rfl, hnodup, hnamed⟩, fun q hq => ?_⟩
    obtain ⟨i, -, rfl⟩ := List.mem_map.1 hq
    trivial
  obtain ⟨-, n, hn⟩ := follows_advanceBy host hcache hturns order
  rw [List.length_map, List.length_range] at hn
  refine ⟨n, fun patience hp => hn patience hp _ ⟨⟨none, rfl, fun i => ?_⟩, fun i q hq => ?_⟩⟩
  · simp [Stage.isAssembled]
  · simp only [List.getElem?_map, Option.map_eq_some_iff] at hq
    obtain ⟨j, hj, rfl⟩ := hq
    obtain ⟨hi, rfl⟩ := List.getElem?_eq_some_iff.1 hj
    rw [List.getElem_range]
    rfl

end Sharing

end ScriptLoader
