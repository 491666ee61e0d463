import ScriptLoader.Compile.Lines
import ScriptLoader.Proofs.Graph.Postorder
import ScriptLoader.Proofs.Loader.Apart
import ScriptLoader.Proofs.Loader.Stored
import ScriptLoader.Source.Memory

/-!
# What a failed request leaves

A request that fails before its assembly leaves modules as they were. One whose assembly fails
leaves what the host took until then, keeps the rest of its graph as prepared, and loads neither the
module that failed nor any that waited for it. In both cases nothing is stored any more.

* `Assembly.Performs.exists_failing`: an order that is broken off is so at one module.
* `Loader.FailsEarly`, `Loader.BrokenOff`: the two ways in which a request fails.
* `Loader.failure_leaves`: what each of them leaves, and where modules are behind any request.
-/

namespace ScriptLoader

variable {F σ : Type}

/-- An order that is broken off has been performed up to a module that the host refused, or that has
no record. -/
theorem Assembly.Performs.exists_failing {g : Graph} {importer : Importer}
    {slot : Specifier → Slot} {loaded behind : Specifier → Option (LoadedModule F)}
    {order : List Specifier} {calls : List (HostCall F)} {e : LoadError}
    (h : Performs g importer slot loaded order calls (.error e) behind) :
    ∃ taken failing later, order = taken.map (fun c => c.module.specifier) ++ failing :: later ∧
      (∀ c ∈ taken, ∃ exports, c.result = .ok exports) ∧
      ((∃ m : HostModule F, m.specifier = failing ∧ calls = taken ++ [⟨m, .error e⟩]) ∨
        g.get? failing = none ∧ e = .notResolved failing ∧ calls = taken) := by
  generalize hr : (.error e : Except LoadError Unit) = result at h
  induction h with
  | nil => cases hr
  | @took loaded behind s order r compiled exports calls result hg ho _ ih =>
    obtain ⟨taken, failing, later, horder, htaken, hend⟩ := ih hr
    refine ⟨⟨given importer r (bindings slot loaded r) compiled, .ok exports⟩ :: taken, failing, later,
      ?_, ?_, ?_⟩
    · rw [horder, List.map_cons, specifier_given importer hg, List.cons_append]
    · intro c hc
      rcases List.mem_cons.1 hc with rfl | hc
      · exact ⟨exports, rfl⟩
      · exact htaken c hc
    · rcases hend with ⟨m, hm, rfl⟩ | ⟨hn, he, rfl⟩
      · exact Or.inl ⟨m, hm, rfl⟩
      · exact Or.inr ⟨hn, he, rfl⟩
  | @refused loaded s order r compiled f hg ho =>
    cases hr
    exact ⟨[], s, order, rfl, by simp, Or.inl ⟨_, specifier_given importer hg _ _, rfl⟩⟩
  | @missing loaded s order hg =>
    cases hr
    exact ⟨[], s, order, rfl, by simp, Or.inr ⟨hg, rfl, rfl⟩⟩

namespace Loader

variable {l k : Loader F σ} {options : Compile.Options} {entry : Specifier} {g : Graph}

theorem nodup_assembled (hg : l.Resolved options entry g) (hready : g.Ready) :
    (l.assembled options entry g).specifiers.Nodup := by
  refine Graph.nodup_insertAll _ ?_
  have hsame : g.awaitCode.1.specifiers = g.specifiers := by
    rw [Graph.awaitCode_of_ready hready]
    simp only [Graph.specifiers, List.map_map]
    rfl
  rw [hsame]
  exact Workshop.nodup_resolve hg

/-- What is prepared behind the keeping of what is left over, where modules that were loaded before
were not prepared. -/
theorem get?_prepared_retain (hnodup : g.specifiers.Nodup)
    (hout : ∀ s, l.registry.isLoaded s = true → l.prepared.get? s = none ∨ g.contains s = true)
    (s : Specifier) : (l.retain options g).prepared.get? s =
      if l.registry.isLoaded s = true then none
      else ((g.get? s).map (Prepared.mk options)).or (l.prepared.get? s) := by
  rcases get?_retain l options g s with ⟨hs, hk⟩ | ⟨hl, hk⟩ | ⟨hr, rfl, hl, hk⟩
  · have hnone : g.get? s = none := by
      simpa [Graph.contains] using mt Graph.contains_iff.1 hs
    rw [hk]
    split
    · next hl => exact (hout s hl).resolve_right (mt Graph.contains_iff.1 hs)
    · rw [hnone]
      rfl
  · rw [hk, if_pos hl]
  · rw [hk, hl, if_neg Bool.false_ne_true, Graph.get?_of_mem hnodup hr]
    rfl

theorem modules_resolve (l : Loader F σ) (options : Compile.Options) (entries : List Specifier) :
    (l.resolve options entries).2.assembly = l.assembly ∧
      (l.resolve options entries).2.prepared = l.prepared := by
  unfold resolve
  rcases l.workshop.resolve (fun _ => false) l.settings.limit options entries with ⟨e | g, w⟩
  · exact ⟨rfl, rfl⟩
  · exact ⟨rfl, rfl⟩

/-! ## Two ways to fail -/

/-- The graph of the request cannot be resolved, or the generation of some code fails. -/
def FailsEarly (l : Loader F σ) (options : Compile.Options) (entry : Specifier)
    (e : LoadError) : Prop :=
  (l.workshop.resolve (l.skips options) l.settings.limit options [entry]).1 = .error e ∨
    ∃ g, l.Resolved options entry g ∧ g.awaitCode.2 = .error e

/-- The assembly of the graph `g` fails: the host took modules in depth-first order, then the module
`failing` failed, and the modules `later` were still to be finished. -/
structure BrokenOff (l k : Loader F (σ × List (HostCall F))) (options : Compile.Options)
    (entry : Specifier) (g : Graph) (e : LoadError) (taken : List (HostCall F))
    (failing : Specifier) (later : List Specifier) : Prop where
  order : g.postorder [] l.registry.isLoaded entry =
    taken.map (fun c => c.module.specifier) ++ failing :: later
  taken_ok : ∀ c ∈ taken, ∃ exports, c.result = .ok exports
  /-- The host refused the module, or there is no record of it. -/
  failed : (∃ m : HostModule F, m.specifier = failing ∧
      k.assembly.host.2 = l.assembly.host.2 ++ (taken ++ [⟨m, .error e⟩])) ∨
    g.get? failing = none ∧ e = .notResolved failing ∧
      k.assembly.host.2 = l.assembly.host.2 ++ taken
  loaded : ∀ t m, k.registry.get? t = some m ↔ l.registry.get? t = some m ∨
    ∃ c ∈ taken, ∃ exports, c.result = .ok exports ∧ c.module.specifier = t ∧
      m = c.module.loaded exports
  unloaded : k.registry.isLoaded failing = false
  waiting : ∀ s, g.WaitsFor l.registry.isLoaded entry s failing → k.registry.isLoaded s = false
  prepared : ∀ s, k.prepared.get? s =
    if k.registry.isLoaded s = true then none
    else ((g.get? s).map (Prepared.mk options)).or (l.prepared.get? s)

variable {host : Host F σ}

theorem brokenOff_of_load {l k b : Loader F (σ × List (HostCall F))} {e : LoadError}
    (h : l.UnderWay []) (hg : l.Resolved options entry g) (hready : g.Ready)
    (he : (l.assembly.load host.observed l.importer (l.assembled options entry g) entry).1 =
      .error e)
    (hbp : b.prepared = l.prepared)
    (hba : b.assembly =
      (l.assembly.load host.observed l.importer (l.assembled options entry g) entry).2)
    (hkp : k.prepared = (b.retain options (l.assembled options entry g)).prepared)
    (hka : k.assembly = (b.retain options (l.assembled options entry g)).assembly) :
    ∃ taken failing later,
      BrokenOff l k options entry (l.assembled options entry g) e taken failing later := by
  have hcoded : (l.assembled options entry g).Ready :=
    ready_of_coded h.coded (Graph.awaitCode_ok_iff.2 hready)
  have hnodup := nodup_assembled hg hready
  generalize l.assembled options entry g = graph at he hba hkp hka hcoded hnodup ⊢
  rw [assembly_retain] at hka
  have hkr : k.registry = b.registry := congrArg Assembly.registry hka
  obtain ⟨-, calls, hcalls, hp⟩ := Assembly.performed_load host l.importer entry l.assembly hcoded
  rw [← hba] at hcalls hp
  rw [he] at hp
  obtain ⟨taken, failing, later, horder, htaken, hend⟩ := hp.exists_failing
  -- A module that the host answered with an error is none that it took.
  have hmem : ∀ c exports, c.result = .ok exports → (c ∈ calls ↔ c ∈ taken) := by
    intro c exports hok
    rcases hend with ⟨m, -, rfl⟩ | ⟨-, -, rfl⟩
    · refine ⟨fun hc => (List.mem_append.1 hc).resolve_right fun hc => ?_,
        List.mem_append_left _⟩
      rw [List.mem_singleton.1 hc] at hok
      cases hok
    · rfl
  have hloaded : ∀ t m, k.registry.get? t = some m ↔ l.registry.get? t = some m ∨
      ∃ c ∈ taken, ∃ exports, c.result = .ok exports ∧ c.module.specifier = t ∧
        m = c.module.loaded exports := by
    intro t m
    rw [hkr]
    refine (hp.behind_eq_some_iff Graph.nodup_postorder
      Assembly.unloaded_of_mem_postorder).trans (or_congr_right ?_)
    constructor
    · rintro ⟨c, hc, exports, hok, hrest⟩
      exact ⟨c, (hmem c exports hok).1 hc, exports, hok, hrest⟩
    · rintro ⟨c, hc, exports, hok, hrest⟩
      exact ⟨c, (hmem c exports hok).2 hc, exports, hok, hrest⟩
  have hunloaded : ∀ s ∈ failing :: later, k.registry.isLoaded s = false := by
    intro s hs
    rw [Bool.eq_false_iff]
    intro hload
    obtain ⟨m, hm⟩ := Registry.isLoaded_iff.1 hload
    rcases (hloaded s m).1 hm with hold | ⟨c, hc, -, -, rfl, -⟩
    · have hnew : l.registry.get? s = none := Assembly.unloaded_of_mem_postorder s
        (horder ▸ List.mem_append_right _ hs)
      rw [hnew] at hold
      cases hold
    · have hdisjoint := (List.nodup_append.1 (horder ▸ Graph.nodup_postorder)).2.2
      exact hdisjoint _ (List.mem_map_of_mem hc) _ hs rfl
  refine ⟨taken, failing, later, horder, htaken, ?_, hloaded, hunloaded failing List.mem_cons_self,
    fun s hs => hunloaded s (List.mem_cons_of_mem _ (hs.mem_later horder)), ?_⟩
  · rw [hka]
    rcases hend with ⟨m, hm, rfl⟩ | ⟨hn, hen, rfl⟩
    · exact Or.inl ⟨m, hm, hcalls⟩
    · exact Or.inr ⟨hn, hen, hcalls⟩
  · intro s
    rw [hkp, hkr, ← hbp]
    refine get?_prepared_retain hnodup (fun t ht => ?_) s
    cases hold : l.registry.isLoaded t with
    | true => exact Or.inl ((congrArg _ hbp).trans (h.apart_of_nil hold))
    | false =>
      rw [registry, hba] at ht
      exact Or.inr (Assembly.contains_of_new hold ht)

/-- What a request does that fails, but not for its text. -/
theorem failed_serve {l : Loader F (σ × List (HostCall F))} (h : l.UnderWay []) {call : Call}
    {e : LoadError} (hentry : call.entry = .ok entry)
    (hfail : (l.serve host.observed call).1 = .error e) :
    (l.FailsEarly (call.options l) entry e ∧
      (l.serve host.observed call).2.assembly = l.assembly ∧
      (l.serve host.observed call).2.prepared = l.prepared) ∨
    ∃ g, l.Resolved (call.options l) entry g ∧ g.Ready ∧ ∃ taken failing later,
      BrokenOff l (l.serve host.observed call).2 (call.options l) entry
        (l.assembled (call.options l) entry g) e taken failing later := by
  rcases serve_cases host.observed l call with ⟨_, _, he, -⟩ | ⟨s, events, hs, hl⟩
  · rw [hentry] at he
    cases he
  · cases Except.ok.inj (hentry.symm.trans hs)
    rw [hl] at hfail ⊢
    have hserved := served_loadSpecifier host.observed { l with events } entry (call.options l)
    generalize ({ l with events } : Loader F (σ × List (HostCall F))).loadSpecifier host.observed
      entry (call.options l) = x at hserved hfail ⊢
    cases hserved with
    | found => cases hfail
    | unresolved _ hr hp ha =>
      cases hfail
      exact Or.inl ⟨Or.inl hr, ha, hp⟩
    | uncompiled _ hg _ hc hp ha =>
      cases hfail
      exact Or.inl ⟨Or.inr ⟨_, hg, hc⟩, ha, hp⟩
    | assembled _ hg hready hbp hba hkp hka =>
      exact Or.inr ⟨_, hg, hready, brokenOff_of_load h hg hready hfail hbp hba hkp hka⟩

/-! ## Failed requests -/

/-- Behind a request that fails before its assembly, modules are as before and the host was not
called. Behind one whose assembly fails, the modules that are new are those that the host took;
neither the module that failed nor any that waited for it is loaded; and what is not loaded of the
graph is prepared under the options of the request. In both cases a configured store of compiles is
empty, and what it has later was stored by a later request. A graph that is resolved alone leaves
modules as they were, and empties the store if it fails. Behind any request, no module is both
loaded and prepared. -/
theorem failure_leaves {l : Loader F (σ × List (HostCall F))} (hl : Reached host.observed l) :
    (∀ call entry e, call.entry = .ok entry → (l.serve host.observed call).1 = .error e →
      ((l.FailsEarly (call.options l) entry e ∧
          (l.serve host.observed call).2.assembly = l.assembly ∧
          (l.serve host.observed call).2.prepared = l.prepared) ∨
        ∃ g, l.Resolved (call.options l) entry g ∧ g.Ready ∧ ∃ taken failing later,
          BrokenOff l (l.serve host.observed call).2 (call.options l) entry
            (l.assembled (call.options l) entry g) e taken failing later) ∧
      Cleared host.observed l (l.serve host.observed call).2) ∧
    (∀ options entries, (l.resolve options entries).2.assembly = l.assembly ∧
      (l.resolve options entries).2.prepared = l.prepared ∧
      ∀ e, (l.resolve options entries).1 = .error e →
        Cleared host.observed l (l.resolve options entries).2) ∧
    ∀ call s, ¬ ((l.serve host.observed call).2.registry.isLoaded s = true ∧
      ((l.serve host.observed call).2.prepared.get? s).isSome = true) := by
  refine ⟨?_, ?_, fun call s => apart_of_reached (hl.served call) s⟩
  · intro call entry e hentry hfail
    exact ⟨failed_serve (underWay_of_reached hl) hentry hfail, cleared_of_serve_error hentry hfail⟩
  · intro options entries
    obtain ⟨ha, hp⟩ := modules_resolve l options entries
    exact ⟨ha, hp, fun e hfail => cleared_of_resolve_error hfail⟩

/-- A host that refuses the module `/b`. -/
def refusingOne : Host Unit Unit where
  instantiate _ m h :=
    (if m.specifier = ⟨"/b"⟩ then .error (.evaluation ⟨"/b"⟩ "boom") else .ok [], h)

/-- A loader with an empty store, and a module `/main` that imports `/a` and `/b`, and `/c` at run
time. -/
def stocking : Loader Unit (Unit × List (HostCall Unit)) where
  workshop :=
    { source := MemorySource.source
        { files :=
            [("/main.ts", "import \x7b a \x7d from './a';\nimport \x7b b \x7d from './b';\n" ++
                "export const go = () => import('./c');\n"),
              ("/a.ts", "export const a = 1;\n"),
              ("/b.ts", "export const b = 2;\n"),
              ("/c.ts", "export const c = 3;\n"),
              ("/first.ts", "export const first = 0;\n")] }
      compiler := Compile.Lines.compile
      cache := some (.memory {}) }
  assembly := { host := ((), []) }

/-- The loader behind a request that returned. -/
def stocked : Loader Unit (Unit × List (HostCall Unit)) :=
  (stocking.serve refusingOne.observed (.loadModule "/first")).2

/-- The request for `/main` fails at `/b`, when the host has taken `/a`. -/
theorem stocked_is_broken_off :
    stocked.workshop.cache.map (·.size) = some 1 ∧
    (stocked.serve refusingOne.observed (.loadModule "/main")).1.map (fun _ => ()) =
      .error (.evaluation ⟨"/b"⟩ "boom") ∧
    (∃ g taken failing later, stocked.Resolved {} ⟨"/main"⟩ g ∧
      BrokenOff stocked (stocked.serve refusingOne.observed (.loadModule "/main")).2 {} ⟨"/main"⟩
        (stocked.assembled {} ⟨"/main"⟩ g) (.evaluation ⟨"/b"⟩ "boom") taken failing later) ∧
    (stocked.serve refusingOne.observed (.loadModule "/main")).2.registry.loaded =
      [⟨"/first"⟩, ⟨"/a"⟩] ∧
    Keyed.keys (stocked.serve refusingOne.observed (.loadModule "/main")).2.prepared =
      [⟨"/main"⟩, ⟨"/b"⟩, ⟨"/c"⟩] ∧
    (stocked.serve refusingOne.observed (.loadModule "/main")).2.workshop.cache.map (·.size) =
      some 0 ∧
    Cleared refusingOne.observed stocked
      (stocked.serve refusingOne.observed (.loadModule "/main")).2 := by
  have hentry : Call.entry (.loadModule "/main") = .ok ⟨"/main"⟩ := by decide +kernel
  have hresult : (stocked.serve refusingOne.observed (.loadModule "/main")).1.map (fun _ => ()) =
      .error (.evaluation ⟨"/b"⟩ "boom") := by decide +kernel
  have hloaded : (stocked.serve refusingOne.observed (.loadModule "/main")).2.registry.loaded =
      [⟨"/first"⟩, ⟨"/a"⟩] := by decide +kernel
  have hbefore : stocked.registry.loaded = [⟨"/first"⟩] := by decide +kernel
  have hoptions : Call.options stocked (.loadModule "/main") = {} := by decide +kernel
  obtain ⟨e, he⟩ : ∃ e,
      (stocked.serve refusingOne.observed (.loadModule "/main")).1 = .error e := by
    cases hr : (stocked.serve refusingOne.observed (.loadModule "/main")).1 with
    | error e => exact ⟨e, rfl⟩
    | ok m =>
      rw [hr] at hresult
      cases hresult
  obtain rfl : e = .evaluation ⟨"/b"⟩ "boom" := by
    rw [he] at hresult
    exact Except.error.inj hresult
  have hreached : Reached refusingOne.observed stocked :=
    .served (.loadModule "/first") (.new rfl)
  obtain ⟨hfailed, hcleared⟩ := (failure_leaves hreached).1 _ _ _ hentry he
  refine ⟨by decide +kernel, hresult, ?_, hloaded, by decide +kernel, by decide +kernel, hcleared⟩
  rw [hoptions] at hfailed
  rcases hfailed with ⟨-, ha, -⟩ | ⟨g, hg, -, taken, failing, later, hbroken⟩
  · have hsame : (stocked.serve refusingOne.observed (.loadModule "/main")).2.registry =
        stocked.registry := congrArg Assembly.registry ha
    rw [hsame, hbefore] at hloaded
    cases hloaded
  · exact ⟨g, taken, failing, later, hg, hbroken⟩

end Loader

end ScriptLoader
