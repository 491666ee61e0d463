import ScriptLoader.Proofs.Assembly.Observed
import ScriptLoader.Proofs.Sharing.Duty
import ScriptLoader.Proofs.Sharing.Stages

/-!
# Where the code of a module comes from

Requests under different options share one place for prepared modules, and one may replace there
what another has left, between any two touches of a third. The options of a prepared module are
kept beside its record, and a request looks at both at once.

* `Sharing.IsCompile`: a record that a compile under options made.
* `Sharing.Told`, `Sharing.Kept`: a request was answered a record, and it kept one.
* `Sharing.code_is_of_own_options`: whatever the order of touches, the host is given code that was
  compiled under the options of the request, by the request or by one that kept the record before.
-/

namespace ScriptLoader.Sharing

variable {F σ ι : Type}

/-! ## Compiles -/

/-- What comes of modules while no compile is stored. The compiler stays, sources may change. -/
def Afresh (compiler : Compile.Compiler) : Supply := fun options s outcome =>
  ∃ w : Workshop, w.compiler = compiler ∧ w.cache = none ∧ (w.order options s).1.outcome = outcome

/-- A record that a compile under options made. -/
def IsCompile (compiler : Compile.Compiler) (options : Compile.Options) (r : CompiledRecord) :
    Prop :=
  ∃ text code, compiler ⟨r.specifier, r.location, text, options⟩ = (code, some r.report) ∧
    r.outcome = code.mapError fun f => .notCompiled r.specifier f.message f.stack

theorem afresh_of_made {w : Workshop} (hcache : w.cache = none) {options : Compile.Options}
    {s : Specifier} {outcome : Except LoadError CompiledRecord} (h : Made w options s outcome) :
    Afresh w.compiler options s outcome := ⟨w, rfl, hcache, h.symm⟩

theorem isCompile_of_afresh {compiler : Compile.Compiler} {options : Compile.Options}
    {s : Specifier} {r : CompiledRecord} (h : Afresh compiler options s (.ok r)) :
    IsCompile compiler options r := by
  obtain ⟨w, rfl, hcache, hr⟩ := h
  rw [Workshop.order_eq] at hr
  split at hr
  · cases hr
  · next found hfound =>
    have hc : (w.fetch s options.markup).2.cache = none := hcache
    have hw : (w.fetch s options.markup).2.compiler = w.compiler := rfl
    simp only [Workshop.lookUp, hc, Option.map_none, Workshop.compile, Workshop.log, hw] at hr
    simp only [Order.outcome] at hr
    split at hr
    · next report heq =>
      cases hr
      exact ⟨found.text, _, Prod.ext rfl heq, rfl⟩
    · cases hr
    · cases hr

/-! ## Who had a record -/

/-- Request `i` was answered a record that was made under options. -/
def Told (events : List (Event F ι)) (i : ι) (options : Compile.Options) (r : CompiledRecord) :
    Prop :=
  ∃ pending s q, ⟨i, .await options pending, (s, .ok q)⟩ ∈ events ∧ q.waited = r.waited

/-- Request `i` kept a record as prepared under options. -/
def Kept (events : List (Event F ι)) (i : ι) (options : Compile.Options) (r : CompiledRecord) :
    Prop :=
  ∃ q, ⟨i, .keep ⟨options, q⟩, ()⟩ ∈ events ∧ q.waited = r.waited

/-- A record that was answered and kept by the same request. -/
def Passed (events : List (Event F ι)) (options : Compile.Options) (r : CompiledRecord) : Prop :=
  ∃ j, Told events j options r ∧ Kept events j options r

theorem Told.congr {events : List (Event F ι)} {i : ι} {options : Compile.Options}
    {r q : CompiledRecord} (h : Told events i options r) (hq : r.waited = q.waited) :
    Told events i options q := by
  obtain ⟨pending, s, p, hp, hr⟩ := h
  exact ⟨pending, s, p, hp, hr.trans hq⟩

theorem Passed.congr {events : List (Event F ι)} {options : Compile.Options}
    {r q : CompiledRecord} (h : Passed events options r) (hq : r.waited = q.waited) :
    Passed events options q := by
  obtain ⟨j, htold, p, hp, hr⟩ := h
  exact ⟨j, htold.congr hq, p, hp, hr.trans hq⟩

/-- The duty of request `i`, among given events: to hold only what it was answered, or what was kept
under its own options. -/
def provenance (compiler : Compile.Compiler) (events : List (Event F ι)) (i : ι)
    (options : Compile.Options) : Duty where
  options
  Owns _ := True
  Fits r := IsCompile compiler options r ∧ (Told events i options r ∨ Passed events options r)
  fits_waited h := ⟨h.1, h.2.imp (·.congr rfl) (·.congr rfl)⟩
  owns_specifier _ := trivial
  owns_dependency _ _ := trivial

/-! ## Runs -/

variable [DecidableEq ι] {α : Type} {host : Host F σ} {compiler : Compile.Compiler}
  {options : ι → Compile.Options} {start x : State F σ ι α} {all events : List (Event F ι)}

/-- Every prepared module was compiled under the options beside it, and answered to the request that
kept it. -/
def Stored (compiler : Compile.Compiler) (all : List (Event F ι)) (h : Shared F σ ι) : Prop :=
  ∀ s p, h.prepared.get? s = some p → p.record.specifier = s ∧
    IsCompile compiler p.options p.record ∧ Passed all p.options p.record

theorem provenance_run (hstart : Orderly (fun i => provenance compiler all i (options i)) start)
    (hempty : start.shared.prepared = []) (hrun : Run host (Afresh compiler) start events x)
    (hall : ∀ e ∈ events, e ∈ all) :
    Orderly (fun i => provenance compiler all i (options i)) x ∧ Stored compiler all x.shared := by
  induction hrun with
  | nil => exact ⟨hstart, by simp [Stored, hempty, Keyed.get?]⟩
  | @snoc events x i t a next after _ hi hp ih =>
    obtain ⟨hx, hstored⟩ := ih fun e he => hall e (List.mem_append_left _ he)
    have hallows := hx.allows hi
    have hlast := hall _ (List.mem_append_right _ (List.mem_singleton.2 rfl))
    refine ⟨hx.step hi hp ?_, ?_⟩
    · -- What is answered is in order.
      cases hp with
      | @seek s =>
        intro r hr
        unfold Prepared.under? at hr
        split at hr
        · next p hget =>
          obtain ⟨-, hcompile, hpassed⟩ := hstored s p hget
          split at hr
          · next ho =>
            cases hr
            rw [ho] at hcompile hpassed
            exact ⟨hcompile, Or.inr hpassed⟩
          · cases hr
        · cases hr
      | @await o pending s outcome hs hsupply =>
        obtain ⟨rfl, -⟩ := hallows
        refine ⟨hs, fun r hr => ?_⟩
        subst hr
        exact ⟨isCompile_of_afresh hsupply, Or.inl ⟨pending, s, r, hlast, rfl⟩⟩
      | look => trivial
      | acquire => trivial
      | release => trivial
      | allocate => exact Registry.owner_slot _ _
      | peek => trivial
      | instantiate => trivial
      | fill => trivial
      | keep => trivial
      | forget => trivial
    · -- What is prepared is as it was, or it is what request `i` keeps.
      cases hp with
      | @keep p =>
        obtain ⟨ho, hcompile, hhas⟩ := hallows
        change p.options = options i at ho
        intro s q hq
        rw [Keyed.get?_put] at hq
        split at hq
        · next hs =>
          cases hq
          rw [ho]
          refine ⟨hs.symm, hcompile, hhas.elim (fun htold => ⟨i, htold, p.record, ?_, rfl⟩) id⟩
          rw [← ho]
          exact hlast
        · exact hstored s q hq
      | @forget s =>
        intro t q hq
        rw [Keyed.get?_erase] at hq
        split at hq
        · cases hq
        · exact hstored t q hq
      | look => exact hstored
      | seek => exact hstored
      | await => exact hstored
      | acquire => exact hstored
      | release => exact hstored
      | allocate => exact hstored
      | peek => exact hstored
      | instantiate => exact hstored
      | fill => exact hstored

/-- Whatever the order in which requests touch what they share, the host is given code that was
compiled under the options of the request: by the request itself, or by one that had kept the
record. Every prepared module was compiled under the options beside it. -/
theorem code_is_of_own_options {h : Shared F σ ι} {limit : Nat} {importer : Importer}
    {asks : ι → Ask} {x : State F σ ι (Except LoadError (LoadedModule F))}
    (hempty : h.prepared = []) (hfree : h.holder = none)
    (hrun : Run host (Afresh compiler) (asked limit importer h asks) all x) :
    (∀ before after i m answer, all = before ++ ⟨i, .instantiate m, answer⟩ :: after →
      ∃ r code, m.specifier = r.specifier ∧ m.code = Compile.withOrigin code r.specifier ∧
        r.outcome = .ok code ∧ IsCompile compiler (asks i).options r ∧
        (Told before i (asks i).options r ∨ Passed before (asks i).options r)) ∧
    ∀ s p, x.shared.prepared.get? s = some p → p.record.specifier = s ∧
      IsCompile compiler p.options p.record ∧ Passed all p.options p.record := by
  have hstart : ∀ events : List (Event F ι),
      Orderly (fun i => provenance compiler events i (asks i).options)
        (asked limit importer h asks) := by
    intro events i
    simp only [asked, hfree]
    exact keeps_request (d := provenance compiler events i (asks i).options) trivial
  refine ⟨?_, (provenance_run (hstart all) hempty hrun fun _ he => he).2⟩
  rintro before after i m answer rfl
  obtain ⟨y, next, hbefore, hi⟩ := hrun.split
  obtain ⟨hy, -⟩ := provenance_run (hstart before) hempty hbefore fun _ he => he
  obtain ⟨r, code, ⟨hcompile, hhas⟩, hcode, hs, hm⟩ := hy.allows hi
  exact ⟨r, code, hs, hm, hcode, hcompile, hhas⟩

/-! ## Requests under different options -/

/-- A loader whose compiler names the function that elements are made by. -/
def keyed : Loader Unit (Unit × List (HostCall Unit)) where
  workshop :=
    { source := { retrieve := fun _ => .ok "" }
      compiler := fun q => (.ok q.options.pragma,
        some { isModule := true
               dynamic :=
                if q.specifier = ⟨"/main"⟩ then [⟨"/lib"⟩, ⟨"/spare"⟩]
                else if q.specifier = ⟨"/other"⟩ then [⟨"/lib"⟩] else [] }) }
  assembly := { host := ((), []) }

/-- Two requests find `/lib` under options of their own, and a third one loads it. -/
def keyedAsks : ℕ → Ask
  | 0 => { entry := ⟨"/main"⟩, options := {}, patience := 0 }
  | 1 => { entry := ⟨"/other"⟩, options := { pragma := "h" }, patience := 0 }
  | _ => { entry := ⟨"/lib"⟩, options := { pragma := "h" }, patience := 0 }

/-- What becomes of the requests while the first two take turns and the third follows. -/
def keyedLoader : Loader Unit (Unit × List (HostCall Unit)) :=
  (Loader.advanceBy (Host.observed ⟨fun _ _ h => (.ok [], h)⟩)
    (keyed, (List.range 3).map fun i =>
      { entry := (keyedAsks i).entry, options := (keyedAsks i).options })
    ((List.range 10).flatMap (fun _ => [0, 0, 1]) ++ List.replicate 10 2)).1

/-- The record of `/lib` that the first request keeps is replaced by that of the second one, and
this is the one that the third request loads. -/
theorem keyed_code_is_of_own_options :
    keyedLoader.assembly.host.2.map (fun c => (c.module.specifier, c.module.code)) =
      [(⟨"/main"⟩, "React.createElement\n//# sourceURL=/main"),
        (⟨"/other"⟩, "h\n//# sourceURL=/other"), (⟨"/lib"⟩, "h\n//# sourceURL=/lib")] ∧
    keyedLoader.workshop.compiled = [⟨"/main"⟩, ⟨"/lib"⟩, ⟨"/spare"⟩, ⟨"/other"⟩, ⟨"/lib"⟩] ∧
    ∃ patience all y,
      Run (Host.observed ⟨fun _ _ h => (.ok [], h)⟩) (Afresh keyed.workshop.compiler)
        (asked 10000 ⟨some 0⟩ (keyed.common none) fun i => { keyedAsks i with patience }) all y ∧
      y.shared.host = keyedLoader.assembly.host ∧ y.shared.prepared = keyedLoader.prepared ∧
      (∀ before after i m answer, all = before ++ ⟨i, .instantiate m, answer⟩ :: after →
        ∃ r code, m.specifier = r.specifier ∧ m.code = Compile.withOrigin code r.specifier ∧
          r.outcome = .ok code ∧ IsCompile keyed.workshop.compiler (keyedAsks i).options r ∧
          (Told before i (keyedAsks i).options r ∨ Passed before (keyedAsks i).options r)) ∧
      ∀ s p, y.shared.prepared.get? s = some p → p.record.specifier = s ∧
        IsCompile keyed.workshop.compiler p.options p.record ∧ Passed all p.options p.record := by
  obtain ⟨patience, hturns⟩ := run_advanceBy (Host.observed ⟨fun _ _ h => (.ok [], h)⟩)
    (l := keyed) rfl (by simp [keyed, Keyed.keys]) (by simp [keyed, Keyed.get?]) keyedAsks 3
    ((List.range 10).flatMap (fun _ => [0, 0, 1]) ++ List.replicate 10 2)
  obtain ⟨all, y, hrun, ⟨⟨holder, hshared, -⟩, -⟩, -⟩ := hturns patience (Nat.le_refl _)
  change y.shared = keyedLoader.common holder at hshared
  have hafresh : Run (Host.observed ⟨fun _ _ h => (.ok [], h)⟩) (Afresh keyed.workshop.compiler)
      (asked 10000 ⟨some 0⟩ (keyed.common none) fun i => { keyedAsks i with patience }) all y :=
    hrun.mono fun _ _ _ => afresh_of_made rfl
  exact ⟨by decide +kernel, by decide +kernel, patience, all, y, hafresh,
    by rw [hshared, host_common], by rw [hshared, prepared_common],
    (code_is_of_own_options rfl rfl hafresh :)⟩

end ScriptLoader.Sharing
