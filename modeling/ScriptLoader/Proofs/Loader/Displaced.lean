import ScriptLoader.Compile.Lines
import ScriptLoader.Proofs.Loader.Requests
import ScriptLoader.Source.Memory

/-!
# Modules that were prepared again

A request leaves out of its graph what is prepared under its options, and expects to take it in
again together with what it depends on. But a loader has one place for the prepared module of a
specifier, and a later request with other options puts its own record there. A module that was
prepared before keeps its own record, and its dependency is then neither loaded nor to be taken in.

* `Loader.Displaced`: a module that an entry needs in this way.
* `Loader.serve_notResolved_iff_displaced`: when everything can be fetched, compiled and
  instantiated, a request misses a module exactly if one is displaced.
* `Loader.serve_ne_notResolved_of_options_eq`: no request misses a module while all of them have
  the same options.
-/

namespace ScriptLoader

open Resolution

variable {F σ : Type}

/-! ## Resolutions that can only run out of steps -/

theorem Resolution.Wanted.of_skip {skip : Specifier → Bool} {outcomes : Outcomes}
    {entries : List Specifier} {s : Specifier} (h : Wanted skip outcomes entries s) :
    Wanted (fun _ => false) outcomes entries s := by
  induction h with
  | entry hs _ => exact .entry hs rfl
  | dependency _ hr hd _ ih => exact .dependency ih hr hd rfl

namespace Workshop

/-- Every module that some entries depend on can be fetched and compiled. -/
def Makes (w : Workshop) (options : Compile.Options) (entries : List Specifier) : Prop :=
  ∀ s, Wanted (fun _ => false) (w.outcomes options) entries s →
    ∃ r code, (w.outcomes options).of s = .ok r ∧ r.outcome = .ok code

variable {w : Workshop} {options : Compile.Options} {entries : List Specifier}
  {skip : Specifier → Bool} {limit : Nat}

theorem Makes.notConverged (h : w.Makes options entries) {e : LoadError}
    (he : (w.resolve skip limit options entries).1 = .error e) : ∃ n, e = .notConverged n := by
  obtain ⟨c, hc, hret⟩ := w.resolve_returns skip limit options entries
  have hsound := Course.sound_of_reaches hc Course.sound_start
  rw [he] at hret
  cases hret with
  | failure hs hf =>
    unfold finish at hf
    split at hf
    · exact ⟨_, (Except.error.inj hf).symm⟩
    · have hw := hsound.started_wanted _ (hsound.mem_started_iff.2 (Or.inr hs))
      obtain ⟨r, -, hr, -⟩ := h _ hw.of_skip
      rw [hr] at hf
      cases hf

theorem Makes.ready (h : w.Makes options entries) {g : Graph}
    (hg : (w.resolve skip limit options entries).1 = .ok g) : g.Ready := by
  obtain ⟨hwanted, hrec⟩ := resolve_wanted hg
  intro r hr
  obtain ⟨q, code, hq, hcode⟩ := h _ ((hwanted _).1 (List.mem_map_of_mem hr)).of_skip
  rw [hrec r hr] at hq
  cases hq
  exact ⟨code, hcode⟩

end Workshop

namespace Loader

variable {host : Host F σ} {l : Loader F σ} {options : Compile.Options} {entry : Specifier}
  {g : Graph}

/-- An entry needs the module and the graph lacks it, since the request knew it as prepared or
never met it; but by now it is prepared under other options. -/
def Displaced (l : Loader F σ) (options : Compile.Options) (entry : Specifier) (g : Graph)
    (s : Specifier) : Prop :=
  Needed l.registry (l.static? options g) entry s ∧ g.contains s = false ∧
    ∃ p, l.prepared.get? s = some p ∧ p.options ≠ options

theorem available?_eq_none_iff {s : Specifier} :
    l.available? options g s = none ↔
      g.contains s = false ∧ l.preparedRecord? options s = none := by
  rw [available?, Option.or_eq_none_iff, Graph.contains, Option.isSome_eq_false_iff,
    Option.isNone_iff_eq_none]

theorem displaced_iff (h : l.Stocked) (hg : l.Resolved options entry g) {s : Specifier}
    (hs : Needed l.registry (l.static? options g) entry s) :
    l.available? options g s = none ↔ l.Displaced options entry g s := by
  rw [available?_eq_none_iff]
  constructor
  · rintro ⟨hlack, hprep⟩
    refine ⟨hs, hlack, ?_⟩
    -- A module of the graph lists only what is of the graph or skipped, so a prepared one lists it.
    have hskip : l.skips options s = false := by
      simp [skips, hs.not_loaded, hprep]
    have hmem : s ∉ g.specifiers := fun hmem => by
      rw [Graph.contains_iff.2 hmem] at hlack
      cases hlack
    have hsome : (l.prepared.get? s).isSome = true := by
      cases hs with
      | entry _ => exact absurd (hg.entry_mem hskip) hmem
      | @dependency t _ ds ht hds hd hk =>
        obtain ⟨r, hr, rfl⟩ := Option.map_eq_some_iff.1 hds
        rcases Option.or_eq_some_iff.1 hr with hr | ⟨-, hr⟩
        · rcases hg.closed (Graph.mem_of_get? hr) hd with hk' | hd'
          · rw [hskip] at hk'
            cases hk'
          · exact absurd hd' hmem
        · refine (h.closed t _ (preparedRecord?_eq_some_iff.1 hr) s hd).resolve_left ?_
          rw [hk]
          exact Bool.false_ne_true
    obtain ⟨p, hp⟩ := Option.isSome_iff_exists.1 hsome
    refine ⟨p, hp, fun ho => ?_⟩
    rw [preparedRecord?, hp] at hprep
    simp [ho] at hprep
  · rintro ⟨-, hlack, p, hp, ho⟩
    refine ⟨hlack, ?_⟩
    rw [preparedRecord?, hp]
    simp [ho]

theorem static?_awaitCode (hg : g.Ready) :
    l.static? options g.awaitCode.1 = l.static? options g := by
  funext s
  rw [static?, static?, available?, available?, Graph.get?_awaitCode hg]
  cases g.get? s <;> rfl

/-- The assembly of a request misses a module exactly if one is displaced. -/
theorem load_assembled_notResolved_iff (h : l.Stocked) (hg : l.Resolved options entry g)
    (hready : g.Ready)
    (htakes : ∀ s, Needed l.registry (l.static? options g) entry s → host.Takes s) :
    (∃ s, (l.assembly.load host l.importer (l.assembled options entry g) entry).1 =
        .error (.notResolved s)) ↔
      ∃ s, l.Displaced options entry g s := by
  have hneeded : ∀ s, Needed l.registry (l.assembled options entry g).static? entry s ↔
      Needed l.registry (l.static? options g) entry s := by
    intro s
    rw [assembled, needed_adopt_iff h, static?_awaitCode hready]
  have hlack : ∀ s, Needed l.registry (l.static? options g) entry s →
      ((l.assembled options entry g).contains s = false ↔ l.Displaced options entry g s) := by
    intro s hs
    rw [← displaced_iff h hg hs, Graph.contains, assembled,
      get?_adopt_of_needed h (by rwa [static?_awaitCode hready]), available?, available?,
      Graph.get?_awaitCode hready]
    cases g.get? s <;> simp
  have hready' : (l.assembled options entry g).Ready := (settled_adopt h hg hready).ready
  rw [Assembly.load_notResolved_iff hready' fun s hs => htakes s ((hneeded s).1 hs)]
  constructor
  · rintro ⟨s, hs, hc⟩
    have hs := (hneeded s).1 hs
    exact ⟨s, (hlack s hs).1 hc⟩
  · rintro ⟨s, hd⟩
    exact ⟨s, (hneeded s).2 hd.1, (hlack s hd.1).2 hd⟩

theorem loadSpecifier_notResolved_iff (h : l.Stocked) (hmakes : l.workshop.Makes options [entry])
    (htakes : ∀ g s, l.Resolved options entry g →
      Needed l.registry (l.static? options g) entry s → host.Takes s) :
    (∃ s, (l.loadSpecifier host entry options).1 = .error (.notResolved s)) ↔
      ∃ g, l.Resolved options entry g ∧ ∃ s, l.Displaced options entry g s := by
  have hserved := served_loadSpecifier host l entry options
  have hload : ∀ g, l.Resolved options entry g → ∀ s, l.Displaced options entry g s →
      l.registry.get? entry = none := by
    intro g _ s hs
    have hentry : l.registry.isLoaded entry = false := by
      have hn := hs.1
      clear hs
      induction hn with
      | entry hk => exact hk
      | dependency _ _ _ _ ih => exact ih
    exact Registry.isLoaded_eq_false_iff.1 hentry
  generalize l.loadSpecifier host entry options = x at hserved ⊢
  cases hserved with
  | found hm _ _ =>
    constructor
    · rintro ⟨s, hs⟩
      cases hs
    · rintro ⟨g, hg, s, hs⟩
      rw [hload g hg s hs] at hm
      cases hm
  | unresolved _ he _ _ =>
    obtain ⟨n, rfl⟩ := hmakes.notConverged he
    constructor
    · rintro ⟨s, hs⟩
      cases hs
    · rintro ⟨g, hg, -⟩
      rw [Resolved, he] at hg
      cases hg
  | uncompiled _ hg hready _ _ _ => exact absurd (hmakes.ready hg) hready
  | @assembled g k b _ hg hready _ _ _ _ =>
    rw [load_assembled_notResolved_iff h hg hready (htakes g · hg)]
    constructor
    · exact fun hs => ⟨g, hg, hs⟩
    · rintro ⟨g', hg', hs⟩
      rw [Resolved, hg] at hg'
      cases hg'
      exact hs

theorem serve_notResolved_iff (h : l.Stocked) {call : Call} (hentry : call.entry = .ok entry)
    (hmakes : l.workshop.Makes (call.options l) [entry])
    (htakes : ∀ g s, l.Resolved (call.options l) entry g →
      Needed l.registry (l.static? (call.options l) g) entry s → host.Takes s) :
    (∃ s, (l.serve host call).1 = .error (.notResolved s)) ↔
      ∃ g, l.Resolved (call.options l) entry g ∧ ∃ s, l.Displaced (call.options l) entry g s := by
  rcases serve_cases host l call with ⟨_, _, he, -⟩ | ⟨entry', events, he, hs⟩
  · rw [he] at hentry
    cases hentry
  · rw [he] at hentry
    cases hentry
    rw [hs]
    exact loadSpecifier_notResolved_iff (l := { l with events }) (h.of_eq rfl rfl) hmakes htakes

/-- No request to a loader that was new misses a module while all requests have the same options,
as long as all modules of its own can be fetched, compiled and instantiated. -/
theorem serve_ne_notResolved_of_options_eq {new l : Loader F σ} {calls : List Call} {call : Call}
    (hnew : new.prepared = []) (hl : new.serveAll host calls = l)
    (hsame : ∀ c ∈ call :: calls, c.options new = options) (hentry : call.entry = .ok entry)
    (hmakes : l.workshop.Makes options [entry])
    (htakes : ∀ g s, l.Resolved options entry g →
      Needed l.registry (l.static? options g) entry s → host.Takes s) (s : Specifier) :
    (l.serve host call).1 ≠ .error (.notResolved s) := by
  subst hl
  have hcall : call.options (new.serveAll host calls) = options := by
    rw [options_eq_of_settings_eq (settings_serveAll host new calls)]
    exact hsame call List.mem_cons_self
  subst hcall
  have h : (new.serveAll host calls).Stocked :=
    stocked_serveAll (stocked_of_prepared_eq_nil hnew) calls
  intro hs
  obtain ⟨_, -, t, -, -, p, hp, hne⟩ :=
    (serve_notResolved_iff h hentry hmakes htakes).1 ⟨s, hs⟩
  exact hne (options_serveAll (fun c hc => hsame c (List.mem_cons_of_mem _ hc))
    (by simp [hnew, Keyed.get?]) hp)

/-- Behind any requests to a loader that was new: a request whose modules can all be fetched,
compiled and instantiated misses a module exactly if one is displaced. -/
theorem serve_notResolved_iff_displaced {host : Host F σ} {new l : Loader F σ} {calls : List Call}
    {call : Call} {entry : Specifier} (hnew : new.prepared = [])
    (hl : new.serveAll host calls = l) (hentry : call.entry = .ok entry)
    (hmakes : l.workshop.Makes (call.options l) [entry])
    (htakes : ∀ g s, l.Resolved (call.options l) entry g →
      Needed l.registry (l.static? (call.options l) g) entry s → host.Takes s) :
    (∃ s, (l.serve host call).1 = .error (.notResolved s)) ↔
      ∃ g, l.Resolved (call.options l) entry g ∧ ∃ s, l.Displaced (call.options l) entry g s := by
  have h : l.Stocked := hl ▸ stocked_serveAll (stocked_of_prepared_eq_nil hnew) calls
  exact serve_notResolved_iff h hentry hmakes htakes

/-- A host that takes everything. -/
def taking : Host Unit Unit := ⟨fun _ _ h => (.ok [], h)⟩

/-- A module `/a` that depends on `/b`, and two modules that import one of them at run time each. -/
def shared : Loader Unit Unit where
  workshop :=
    { source := MemorySource.source
        { files :=
            [("/main.ts", "export const go = () => import('./a');\n"),
              ("/a.ts", "import \x7b b \x7d from './b';\nexport const a = 1;\n"),
              ("/b.ts", "export const b = 2;\n"),
              ("/other.ts", "export const go = () => import('./b');\n")] }
      compiler := Compile.Lines.compile }
  assembly := { host := () }

/-- The loader behind two requests, of which the second one prepares `/b` with another factory. -/
def sharedBehind : Loader Unit Unit :=
  shared.serveAll taking [.loadModule "/main", .loadModuleWith "/other" { pragma := "h" }]

/-- Both `/a` and `/b` can still be fetched and compiled, and nothing else is needed of `/a`. -/
theorem makes_sharedBehind : sharedBehind.workshop.Makes {} [⟨"/a"⟩] := by
  have hrecord : ∀ s ds, ((sharedBehind.workshop.outcomes {}).of s).map
      (fun r => (dependencies r, r.outcome.isOk)) = .ok (ds, true) →
      ∃ r code, (sharedBehind.workshop.outcomes {}).of s = .ok r ∧ r.outcome = .ok code ∧
        dependencies r = ds := by
    intro s ds h
    cases hr : (sharedBehind.workshop.outcomes {}).of s with
    | error e => simp [hr, Except.map] at h
    | ok r =>
      simp only [hr, Except.map, Except.ok.injEq, Prod.mk.injEq] at h
      cases hc : r.outcome with
      | error e => simp [hc, Except.isOk, Except.toBool] at h
      | ok code => exact ⟨r, code, rfl, hc, h.1⟩
  obtain ⟨ra, codeA, ha, hcodeA, hdepsA⟩ := hrecord ⟨"/a"⟩ [⟨"/b"⟩] (by decide +kernel)
  obtain ⟨rb, codeB, hb, hcodeB, hdepsB⟩ := hrecord ⟨"/b"⟩ [] (by decide +kernel)
  intro s hs
  have honly : s = ⟨"/a"⟩ ∨ s = ⟨"/b"⟩ := by
    induction hs with
    | entry hs _ => exact Or.inl (List.mem_singleton.1 hs)
    | dependency _ hr hd _ ih =>
      rcases ih with rfl | rfl
      · rw [ha] at hr
        cases hr
        rw [hdepsA] at hd
        exact Or.inr (List.mem_singleton.1 hd)
      · rw [hb] at hr
        cases hr
        rw [hdepsB] at hd
        cases hd
  rcases honly with rfl | rfl
  · exact ⟨ra, codeA, ha, hcodeA⟩
  · exact ⟨rb, codeB, hb, hcodeB⟩

theorem shared_module_is_displaced :
    (sharedBehind.serve taking (.loadModule "/a")).1 = .error (.notResolved ⟨"/b"⟩) ∧
    ∃ g, sharedBehind.Resolved {} ⟨"/a"⟩ g ∧ ∃ s, sharedBehind.Displaced {} ⟨"/a"⟩ g s := by
  have hlost : (sharedBehind.serve taking (.loadModule "/a")).1 =
      .error (.notResolved ⟨"/b"⟩) := by
    have hmap : (sharedBehind.serve taking (.loadModule "/a")).1.map (fun _ => ()) =
        .error (.notResolved ⟨"/b"⟩) := by decide +kernel
    generalize (sharedBehind.serve taking (.loadModule "/a")).1 = x at hmap ⊢
    cases x with
    | error e =>
      injection hmap with he
      rw [he]
    | ok m => cases hmap
  have hbehind : shared.serveAll taking
      [.loadModule "/main", .loadModuleWith "/other" { pragma := "h" }] = sharedBehind := rfl
  have hentry : Call.entry (.loadModule "/a") = .ok ⟨"/a"⟩ := by decide +kernel
  have hoptions : Call.options sharedBehind (.loadModule "/a") = {} := by decide +kernel
  have hiff := serve_notResolved_iff_displaced rfl hbehind hentry
    (by rw [hoptions]; exact makes_sharedBehind) fun _ _ _ _ _ _ _ _ => ⟨[], _, rfl⟩
  rw [hoptions] at hiff
  exact ⟨hlost, hiff.1 ⟨_, hlost⟩⟩

end Loader

end ScriptLoader
