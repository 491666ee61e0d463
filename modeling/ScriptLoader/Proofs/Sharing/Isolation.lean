import Mathlib.Logic.Pairwise
import ScriptLoader.Proofs.Resolution.AnyOrder
import ScriptLoader.Proofs.Sharing.Delivery
import ScriptLoader.Proofs.Sharing.Footprint
import ScriptLoader.Proofs.Sharing.Provenance

/-!
# Requests that do not meet

Requests under the same options whose entries depend on different modules do not meet, but for the
lock. What others do, and how they fail, is apart from the modules of a request. So its own touches,
taken out of a run of all, are a run of the request alone.

* `Sharing.reach`: the modules of a request.
* `Sharing.Settled`: what is prepared is what would be made again.
* `Sharing.AsAlone`: a request fares as it does alone.
* `Sharing.projected_run`: the touches of one request are a run.
* `Sharing.ends_alone`: a request that need not wait for the lock comes to its end.
* `Sharing.request_as_alone`: requests that do not meet fare as they do alone.
-/

namespace ScriptLoader.Sharing

open Resolution

variable {F σ ι : Type}

/-! ## The modules of a request -/

/-- The modules that an entry depends on, statically or by a literal call. -/
def reach (w : Workshop) (options : Compile.Options) (entry : Specifier) : Set Specifier :=
  {s | Wanted (fun _ => false) (w.outcomes options) [entry] s}

/-- A record is what a workshop makes of its module, but for waiting for its code. -/
def IsMade (w : Workshop) (options : Compile.Options) (r : CompiledRecord) : Prop :=
  ∃ q, (w.outcomes options).of r.specifier = .ok q ∧ q.waited = r.waited

/-- The duty of a request: to touch the modules of its entry, and to hold what is made of them. -/
def isolation (w : Workshop) (options : Compile.Options) (entry : Specifier) : Duty where
  options
  Owns s := s ∈ reach w options entry
  Fits r := r.specifier ∈ reach w options entry ∧ IsMade w options r
  fits_waited h := h
  owns_specifier h := h.1
  owns_dependency := by
    rintro r s ⟨hr, q, hq, hqr⟩ hs
    have hreport : q.waited.report = r.waited.report := congrArg CompiledRecord.report hqr
    change q.report = r.report at hreport
    refine .dependency hr hq ?_ rfl
    unfold dependencies
    rw [hreport]
    exact hs

/-- What is prepared under options is what would be made again. -/
def Settled (w : Workshop) (options : Compile.Options) (h : Shared F σ ι) : Prop :=
  ∀ s r, Prepared.under? options (h.prepared.get? s) = some r →
    r.specifier = s ∧ IsMade w options r

variable {host : Host F σ} {w : Workshop} {options : Compile.Options} {entry : Specifier} {i j : ι}
  {h k after : Shared F σ ι} {t : Touch F} {a : t.Answer} {held : Bool}

theorem settled_of_empty (hempty : h.prepared = []) : Settled w options h := by
  intro s r hr
  rw [hempty] at hr
  cases hr

theorem Settled.step (hs : Settled w options h)
    (hallows : (isolation w options entry).Allows held t)
    (hp : Performs host (Made w) i h t a after) : Settled w options after := by
  cases hp with
  | @keep p =>
    intro s r hr
    rw [Keyed.get?_put] at hr
    split at hr
    · next hsp =>
      obtain ⟨ho, -, hmade⟩ := hallows
      change p.options = options at ho
      simp only [Prepared.under?] at hr
      rw [if_pos ho] at hr
      cases hr
      exact ⟨hsp.symm, hmade⟩
    · exact hs s r hr
  | @forget t =>
    intro s r hr
    rw [Keyed.get?_erase] at hr
    split at hr
    · cases hr
    · exact hs s r hr
  | look => exact hs
  | seek => exact hs
  | await => exact hs
  | acquire => exact hs
  | release => exact hs
  | allocate => exact hs
  | peek => exact hs
  | instantiate => exact hs
  | fill => exact hs

/-- What a request is answered is made, whether it is prepared or is awaited. -/
theorem Settled.trusts (hs : Settled w options h)
    (hallows : (isolation w options entry).Allows held t)
    (hp : Performs host (Made w) i h t a after) : (isolation w options entry).Trusts t a := by
  cases hp with
  | @seek s =>
    intro r hr
    obtain ⟨rfl, hmade⟩ := hs s r hr
    exact ⟨hallows, hmade⟩
  | @await o pending s outcome hmem hmade =>
    obtain ⟨rfl, -, howns⟩ := hallows
    refine ⟨hmem, fun r hr => ?_⟩
    have hof : (w.outcomes _).of s = .ok r := hmade.symm.trans hr
    obtain rfl := (w.outcomes _).specifier_eq hof
    exact ⟨howns _ hmem, r, hof, rfl⟩
  | look => trivial
  | acquire => trivial
  | release => trivial
  | allocate => exact Registry.owner_slot _ _
  | peek => trivial
  | instantiate => trivial
  | fill => trivial
  | keep => trivial
  | forget => trivial

/-! ## Faring as alone -/

/-- Modules have the same entries in the registry and among what is prepared. -/
def SameAt (own : Set Specifier) (h k : Shared F σ ι) : Prop :=
  ∀ s ∈ own, h.registry.slot? s = k.registry.slot? s ∧ h.registry.get? s = k.registry.get? s ∧
    h.prepared.get? s = k.prepared.get? s

theorem Agree.sameAt {own : Set Specifier} (hk : Agree (· ∈ own) i h k) : SameAt own h k :=
  fun s hs => ⟨hk.slot s hs, Registry.get?_congr (hk.slot s hs) fun n hn => hk.inside n (hn ▸ hs),
    hk.prepared s hs⟩

variable [DecidableEq ι] {α : Type}

/-- Request `i` fares as it does alone, where a run has led to a state. Its modules are `own`. -/
structure AsAlone (host : Host F σ) (supply : Supply) (start : State F σ ι α) (own : Set Specifier)
    (i : ι) (all : List (Event F ι)) (x : State F σ ι α) : Prop where
  /-- Its own touches, as they were answered, are a run that leads it to the same conduct, and its
  modules to the same entries. -/
  run : ∃ k, Run host supply start (all.filter (·.request = i))
    ⟨k, Function.update start.conduct i (x.conduct i)⟩ ∧ SameAt own x.shared k
  /-- Whenever it runs alone and modules are there in the same order, all of this is the same. -/
  unique : ∀ alone y u v, Run host supply start alone y → (∀ e ∈ alone, e.request = i) →
    alone.filterMap Event.awaited? = (all.filter (·.request = i)).filterMap Event.awaited? →
    x.conduct i = .done u → y.conduct i = .done v →
    alone = all.filter (·.request = i) ∧ v = u ∧ SameAt own x.shared y.shared
  /-- It may come to its end, behind the request that has the lock at most. -/
  ends : ∃ more y u, Run host supply x more y ∧ y.conduct i = .done u ∧
    ∀ e ∈ more, e.request = i ∨ x.shared.holder = some e.request

variable {entries : ι → Specifier} {start x : State F σ ι α} {all : List (Event F ι)}

/-- What holds while all requests keep to their modules. -/
structure Kempt (w : Workshop) (options : Compile.Options) (entries : ι → Specifier)
    (x : State F σ ι α) : Prop where
  orderly : Orderly (fun i => isolation w options (entries i)) x
  settled : Settled w options x.shared

theorem Kempt.step {next : t.Answer → Conduct F α} (hx : Kempt w options entries x)
    (hi : x.conduct i = .touch t next) (hp : Performs host (Made w) i x.shared t a after) :
    Kempt w options entries ⟨after, Function.update x.conduct i (next a)⟩ :=
  ⟨hx.orderly.step hi hp (hx.settled.trusts (hx.orderly.allows hi) hp),
    hx.settled.step (hx.orderly.allows hi) hp⟩

theorem Kempt.run {y : State F σ ι α} (hx : Kempt w options entries x)
    (hrun : Run host (Made w) x all y) : Kempt w options entries y := by
  induction hrun with
  | nil => exact hx
  | snoc _ hc hp ih => exact ih.step hc hp

/-- The touches of one request are a run, and its modules have the same entries behind it. -/
theorem projected_run {answer : HostModule F → Except LoadError (Exports F)}
    (hhost : ∀ R m s, (host.instantiate R m s).1 = answer m) {part : Set ι}
    (hapart : part.Pairwise fun i j =>
      ∀ s ∈ reach w options (entries i), s ∉ reach w options (entries j))
    (hstart : Kempt w options entries start) (hfree : start.shared.holder = none)
    (hrun : Run host (Made w) start all x) (hpart : ∀ e ∈ all, e.request ∈ part) (hi : i ∈ part) :
    ∃ k, Run host (Made w) start (all.filter (·.request = i))
        ⟨k, Function.update start.conduct i (x.conduct i)⟩ ∧
      Agree (· ∈ reach w options (entries i)) i x.shared k := by
  induction hrun with
  | nil =>
    refine ⟨start.shared, ?_, fun _ _ => rfl, fun _ _ => rfl, fun _ _ => rfl, Iff.rfl, Or.inl hfree⟩
    rw [Function.update_eq_self]
    exact .nil
  | @snoc events x j t a next after hevents hc hp ih =>
    obtain ⟨k, hk, hagree⟩ := ih fun e he => hpart e (List.mem_append_left _ he)
    have hallows := (hstart.run hevents).orderly.allows hc
    by_cases hji : j = i
    · -- The request itself does the same where it is alone.
      subst hji
      obtain ⟨mid, hmid, hagree⟩ :=
        exists_alike (d := isolation w options (entries j)) hhost hallows hp hagree
      refine ⟨mid, ?_, hagree⟩
      have := hk.snoc ((Function.update_self j (x.conduct j) start.conduct).trans hc) hmid
      rw [Function.update_idem] at this
      rw [List.filter_append]
      simpa using this
    · -- What another one touches is apart.
      refine ⟨k, ?_, agree_of_apart (d := isolation w options (entries i))
        (e := isolation w options (entries j)) hji (fun s hs hsj => ?_) hallows hp hagree⟩
      · rw [List.filter_append]
        simpa [hji, Ne.symm hji] using hk
      · have hj : j ∈ part := hpart _ (List.mem_append_right _ (List.mem_singleton.2 rfl))
        exact hapart hi hj (Ne.symm hji) s hs hsj

/-! ## Coming to an end -/

/-- Where a touch is allowed it is answered, unless another request has the lock. -/
theorem exists_performs (host : Host F σ) (hallows : (isolation w options entry).Allows
    (decide (h.holder = some i)) t) (hlock : h.holder = none ∨ h.holder = some i) :
    ∃ a after, Performs host (Made w) i h t a after ∧
      (after.holder = none ∨ after.holder = some i) := by
  cases t with
  | await o pending =>
    obtain ⟨s, hs⟩ := List.exists_mem_of_ne_nil _ hallows.2.1
    exact ⟨_, _, .await hs rfl, hlock⟩
  | acquire =>
    have hother : h.holder ≠ some i := of_decide_eq_false hallows
    exact ⟨_, _, .acquire (hlock.resolve_right hother), Or.inr rfl⟩
  | release => exact ⟨_, _, .release (of_decide_eq_true hallows), Or.inl rfl⟩
  | look s => exact ⟨_, _, .look, hlock⟩
  | seek s => exact ⟨_, _, .seek, hlock⟩
  | allocate s => exact ⟨_, _, .allocate, hlock⟩
  | peek n => exact ⟨_, _, .peek, hlock⟩
  | instantiate m => exact ⟨_, _, .instantiate, hlock⟩
  | fill s m => exact ⟨_, _, .fill, hlock⟩
  | keep p => exact ⟨_, _, .keep, hlock⟩
  | forget s => exact ⟨_, _, .forget, hlock⟩

/-- A request that need not wait for the lock comes to its end while no other touches anything, and
has no lock there. -/
theorem ends_alone (host : Host F σ) (hx : Kempt w options entries x)
    (hlock : x.shared.holder = none ∨ x.shared.holder = some i) :
    ∃ more y u, Run host (Made w) x more y ∧ y.conduct i = .done u ∧ y.shared.holder = none ∧
      ∀ e ∈ more, e.request = i := by
  generalize hp : x.conduct i = p
  induction p generalizing x with
  | done u =>
    refine ⟨[], x, u, .nil, hp, hlock.resolve_right fun hheld => ?_, by simp⟩
    have hnone : decide (x.shared.holder = some i) = false := by
      have := hx.orderly i
      rwa [hp] at this
    exact of_decide_eq_false hnone hheld
  | touch t next ih =>
    obtain ⟨a, after, ht, hafter⟩ := exists_performs host (hx.orderly.allows hp) hlock
    obtain ⟨more, y, u, hrun, hu, hfree, hown⟩ :=
      ih a (hx.step hp ht) hafter (Function.update_self ..)
    exact ⟨_, y, u, (Run.snoc .nil hp ht).append hrun, hu, hfree,
      List.forall_mem_cons.2 ⟨rfl, hown⟩⟩

theorem exists_end (host : Host F σ) (hx : Kempt w options entries x) (i : ι) :
    ∃ more y u, Run host (Made w) x more y ∧ y.conduct i = .done u ∧
      ∀ e ∈ more, e.request = i ∨ x.shared.holder = some e.request := by
  cases hholder : x.shared.holder with
  | none =>
    obtain ⟨more, y, u, hrun, hu, -, hown⟩ := ends_alone (i := i) host hx (Or.inl hholder)
    exact ⟨more, y, u, hrun, hu, fun e he => Or.inl (hown e he)⟩
  | some j =>
    obtain ⟨first, y, -, hfirst, -, hfree, hj⟩ := ends_alone host hx (Or.inr hholder)
    obtain ⟨more, z, u, hrun, hu, -, hi⟩ :=
      ends_alone (i := i) host (hx.run hfirst) (Or.inl hfree)
    refine ⟨first ++ more, z, u, hfirst.append hrun, hu, fun e he => ?_⟩
    rcases List.mem_append.1 he with he | he
    · exact Or.inr (congrArg some (hj e he).symm)
    · exact Or.inl (hi e he)

/-! ## Requests that do not meet -/

theorem asAlone_of_made {answer : HostModule F → Except LoadError (Exports F)}
    (hhost : ∀ R m s, (host.instantiate R m s).1 = answer m) {part : Set ι}
    (hapart : part.Pairwise fun i j =>
      ∀ s ∈ reach w options (entries i), s ∉ reach w options (entries j))
    (hstart : Kempt w options entries start) (hfree : start.shared.holder = none)
    (hrun : Run host (Made w) start all x) (hpart : ∀ e ∈ all, e.request ∈ part) (hi : i ∈ part) :
    AsAlone host (Made w) start (reach w options (entries i)) i all x := by
  obtain ⟨k, hk, hagree⟩ := projected_run hhost hapart hstart hfree hrun hpart hi
  refine ⟨⟨k, hk, hagree.sameAt⟩, fun alone y u v hy halone hawaited hu hv => ?_,
    exists_end host (hstart.run hrun) i⟩
  have hend : Function.update start.conduct i (x.conduct i) i = .done u :=
    (Function.update_self ..).trans hu
  obtain ⟨hsame, rfl⟩ := hy.unique_of_alone hk halone
    (fun e he => of_decide_eq_true (List.mem_filter.1 he).2) hv hend hawaited
  exact ⟨hsame, Conduct.done.inj (hv.symm.trans hend), hagree.sameAt⟩

/-- Requests under the same options whose entries depend on different modules fare as they do alone,
whatever the order of their touches and however the others fail. The host goes by the module alone,
and no run of a compiler retires its unit. -/
theorem request_as_alone {source : Source} {run : Compile.Request → CompilerRun}
    (habides : ∀ q, (run q).retires = false)
    {answer : HostModule F → Except LoadError (Exports F)}
    (hhost : ∀ R m s, (host.instantiate R m s).1 = answer m) {limit : Nat} {importer : Importer}
    {asks : ι → Ask} (hoptions : ∀ i, (asks i).options = options) (hfree : h.holder = none)
    (hsettled : Settled (.ofRuns source run) options h) {part : Set ι}
    (hapart : part.Pairwise fun i j => ∀ s ∈ reach (.ofRuns source run) options (asks i).entry,
      s ∉ reach (.ofRuns source run) options (asks j).entry)
    {x : State F σ ι (Except LoadError (LoadedModule F))}
    (hrun : Run host (Delivered source run) (asked limit importer h asks) all x)
    (hpart : ∀ e ∈ all, e.request ∈ part) :
    ∀ i ∈ part, AsAlone host (Delivered source run) (asked limit importer h asks)
      (reach (.ofRuns source run) options (asks i).entry) i all x := by
  have hsame : Delivered source run = Made (.ofRuns source run) := by
    funext o s outcome
    exact propext (delivered_iff_made habides o s outcome)
  rw [hsame] at hrun ⊢
  have hstart : Kempt (.ofRuns source run) options (fun i => (asks i).entry)
      (asked limit importer h asks) := by
    refine ⟨fun i => ?_, hsettled⟩
    simp only [asked, hfree, hoptions]
    exact keeps_request (d := isolation (.ofRuns source run) options (asks i).entry)
      (.entry List.mem_cons_self rfl)
  exact fun i hi => asAlone_of_made hhost hapart hstart hfree hrun hpart hi

/-! ## Three requests -/

/-- How the compiler runs: it fails for `/broken` before it has a report. -/
def strangersRun (q : Compile.Request) : CompilerRun :=
  if q.specifier = ⟨"/main"⟩ then ⟨[{ isModule := true, static := [⟨"/lib"⟩] }], .code "main"⟩
  else if q.specifier = ⟨"/other"⟩ then
    ⟨[{ isModule := true, static := [⟨"/bad"⟩], dynamic := [⟨"/spare"⟩] }], .code "other"⟩
  else if q.specifier = ⟨"/broken"⟩ then ⟨[], .failure { message := "unexpected token" }⟩
  else ⟨[{ isModule := true }], .code ""⟩

/-- A host that refuses `/bad`. -/
def strangersHost : Host Unit (Unit × List (HostCall Unit)) :=
  Host.observed ⟨fun _ m h =>
    (if m.specifier = ⟨"/bad"⟩ then .error (.evaluation m.specifier "refused") else .ok [], h)⟩

def strangers : Loader Unit (Unit × List (HostCall Unit)) where
  workshop := .ofRuns { retrieve := fun _ => .ok "" } strangersRun
  assembly := { host := ((), []) }

def strangersAsks : ℕ → Ask
  | 0 => { entry := ⟨"/main"⟩, options := {}, patience := 0 }
  | 1 => { entry := ⟨"/other"⟩, options := {}, patience := 0 }
  | _ => { entry := ⟨"/broken"⟩, options := {}, patience := 0 }

/-- What becomes of the requests while they take turns. -/
def strangersBehind : Loader Unit (Unit × List (HostCall Unit)) × List (LoadRequest Unit) :=
  Loader.advanceBy strangersHost
    (strangers, (List.range 3).map fun i =>
      { entry := (strangersAsks i).entry, options := (strangersAsks i).options })
    ((List.range 12).flatMap fun _ => [2, 1, 0])

/-- The request that a module is of. -/
def strangersOwner (s : Specifier) : ℕ :=
  if s ∈ [⟨"/main"⟩, ⟨"/lib"⟩] then 0
  else if s ∈ [⟨"/other"⟩, ⟨"/bad"⟩, ⟨"/spare"⟩] then 1 else 2

theorem strangersOwner_of_mem_reach {i : ℕ} (hi : i < 3) {s : Specifier}
    (hs : s ∈ reach strangers.workshop {} (strangersAsks i).entry) : strangersOwner s = i := by
  change Wanted _ _ _ s at hs
  induction hs with
  | entry hs _ =>
    obtain rfl := List.mem_singleton.1 hs
    rcases i with _ | _ | _ | i
    · decide
    · decide
    · decide
    · omega
  | @dependency s d r _ hr hd _ ih =>
    -- Every call and every import stays with the request.
    obtain rfl := (strangers.workshop.outcomes {}).specifier_eq hr
    obtain ⟨text, code, hcompile, -⟩ := isCompile_of_afresh (afresh_of_made rfl hr.symm)
    have hreport : (strangersRun ⟨r.specifier, r.location, text, {}⟩).reports.head? =
      some r.report := congrArg Prod.snd hcompile
    unfold dependencies at hd
    rw [← ih]
    unfold strangersRun at hreport
    dsimp only at hreport
    split at hreport
    · next hmain =>
      rw [← Option.some.inj hreport] at hd
      obtain rfl := List.mem_singleton.1 hd
      rw [hmain]
      decide
    · split at hreport
      · next hother =>
        rw [← Option.some.inj hreport] at hd
        rw [hother]
        revert d
        decide
      · split at hreport
        · cases hreport
        · rw [← Option.some.inj hreport] at hd
          cases hd

/-- The first request succeeds, the host refuses a module of the second one, and the third fails
while it is resolved. Each of them fares as it does alone. -/
theorem strangers_as_alone :
    strangersBehind.1.assembly.host.2.map (fun c =>
        (c.module.specifier, c.result.toOption.isSome)) =
      [(⟨"/lib"⟩, true), (⟨"/main"⟩, true), (⟨"/bad"⟩, false)] ∧
    Keyed.keys strangersBehind.1.prepared = [⟨"/other"⟩, ⟨"/bad"⟩, ⟨"/spare"⟩] ∧
    ∃ patience all y,
      Run strangersHost (Delivered { retrieve := fun _ => .ok "" } strangersRun)
        (asked 10000 ⟨some 0⟩ (strangers.common none) fun i => { strangersAsks i with patience })
        all y ∧
      y.shared.host = strangersBehind.1.assembly.host ∧
      y.shared.prepared = strangersBehind.1.prepared ∧
      ∀ i ∈ {i | i < 3},
        AsAlone strangersHost (Delivered { retrieve := fun _ => .ok "" } strangersRun)
          (asked 10000 ⟨some 0⟩ (strangers.common none) fun i => { strangersAsks i with patience })
          (reach strangers.workshop {} (strangersAsks i).entry) i all y := by
  obtain ⟨patience, hturns⟩ := run_advanceBy strangersHost (l := strangers) rfl
    (by simp [strangers, Keyed.keys]) (by simp [strangers, Keyed.get?]) strangersAsks 3
    ((List.range 12).flatMap fun _ => [2, 1, 0])
  obtain ⟨all, y, hrun, ⟨⟨holder, hshared, -⟩, -⟩, hpart⟩ := hturns patience (Nat.le_refl _)
  change y.shared = strangersBehind.1.common holder at hshared
  have habides : ∀ q, (strangersRun q).retires = false := by
    intro q
    unfold strangersRun
    split
    · rfl
    · split
      · rfl
      · split <;> rfl
  have hrun := hrun.mono fun o s outcome => (delivered_iff_made habides o s outcome).2
  refine ⟨by decide +kernel, by decide +kernel, patience, all, y, hrun,
    by rw [hshared, host_common], by rw [hshared, prepared_common], ?_⟩
  have hhost : ∀ (R : Registry Unit) (m : HostModule Unit) (s : Unit × List (HostCall Unit)),
      (strangersHost.instantiate R m s).1 =
        if m.specifier = ⟨"/bad"⟩ then .error (.evaluation m.specifier "refused") else .ok [] :=
    fun _ _ _ => rfl
  refine request_as_alone habides hhost (fun i => ?_) rfl (settled_of_empty rfl) ?_ hrun hpart
  · rcases i with _ | _ | i <;> rfl
  · intro i hi j hj hij s hs hs'
    refine hij ?_
    rw [← strangersOwner_of_mem_reach hi hs, ← strangersOwner_of_mem_reach hj hs']

end ScriptLoader.Sharing
