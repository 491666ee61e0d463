import Mathlib.Data.List.Induction
import Mathlib.Logic.Relation
import ScriptLoader.Compile.Lines
import ScriptLoader.Proofs.Assembly.Stubs
import ScriptLoader.Proofs.Loader.Requests
import ScriptLoader.Source.Memory

/-!
# Modules that are left waiting

A request that fails inside of a cycle leaves the modules behind that it instantiated before. Some
of them have a stub for a module that did not load. They are in the registry, and a later request
takes them from there without another look at their dependencies; so it may return with a static
dependency still missing.

* `Loader.Instantiated`: what the host made for calls to a loader, and of which record.
* `Loader.DependsOn`, `Loader.LeftWaiting`: one module depends on another, by the record it was made
  of; one waits for another since a request failed.
* `Loader.reachable_is_loaded_unless_left_waiting`: behind a request that returns, a module that the
  entry depends on is missing exactly if another one was left waiting for it.
* `Loader.closure_is_loaded`: without failed requests, none is missing.
-/

namespace ScriptLoader.Loader

variable {F σ : Type}

/-! ## Assemblies of requests -/

/-- A call leaves the assembly as it is, or loads its entry from the graph that it comes to. -/
theorem serve_assembly (host : Host F σ) (l : Loader F σ) (call : Call) :
    (l.serve host call).2.assembly = l.assembly ∨
    ∃ entry g, call.entry = .ok entry ∧ l.Resolved (call.options l) entry g ∧
      (l.serve host call).1 = (l.assembly.load host l.importer
        (l.assembled (call.options l) entry g) entry).1 ∧
      (l.serve host call).2.assembly = (l.assembly.load host l.importer
        (l.assembled (call.options l) entry g) entry).2 := by
  rcases serve_cases host l call with ⟨_, _, -, hs⟩ | ⟨entry, events, hentry, hs⟩
  · exact Or.inl (by rw [hs])
  · rw [hs]
    have hserved := served_loadSpecifier host { l with events } entry (call.options l)
    generalize ({ l with events } : Loader F σ).loadSpecifier host entry (call.options l) = x
      at hserved ⊢
    cases hserved with
    | found _ _ ha => exact Or.inl ha
    | unresolved _ _ _ ha => exact Or.inl ha
    | uncompiled _ _ _ _ _ ha => exact Or.inl ha
    | assembled _ hg _ _ hb _ ha =>
      exact Or.inr ⟨entry, _, hentry, hg, rfl, (ha.trans (assembly_retain _ _ _)).trans hb⟩

theorem get?_of_serve_ok {host : Host F σ} {l : Loader F σ} {call : Call} {entry : Specifier}
    {m : LoadedModule F} (hentry : call.entry = .ok entry) (h : (l.serve host call).1 = .ok m) :
    (l.serve host call).2.registry.get? entry = some m := by
  rcases serve_cases host l call with ⟨_, _, -, hs⟩ | ⟨s, events, hs, hl⟩
  · rw [hs] at h
    cases h
  · rw [hentry] at hs
    cases hs
    rw [hl] at h ⊢
    have hserved := served_loadSpecifier host { l with events } entry (call.options l)
    generalize ({ l with events } : Loader F σ).loadSpecifier host entry (call.options l) = x
      at hserved h ⊢
    cases hserved with
    | found hf _ ha =>
      cases h
      rwa [registry, ha]
    | unresolved => cases h
    | uncompiled => cases h
    | assembled _ hg _ _ hb _ ha =>
      dsimp only at h
      rw [registry, ha, assembly_retain, hb]
      exact Assembly.get?_of_load_ok h

theorem keeps_serve (host : Host F σ) (l : Loader F σ) (call : Call) :
    Assembly.Keeps [] l.assembly (l.serve host call).2.assembly := by
  rcases serve_assembly host l call with hs | ⟨entry, g, -, -, -, hs⟩
  · rw [hs]
    exact .refl
  · rw [hs]
    exact Assembly.keeps_load _ _ _ _ _

theorem serveAll_append (host : Host F σ) (l : Loader F σ) (before after : List Call) :
    l.serveAll host (before ++ after) = (l.serveAll host before).serveAll host after :=
  List.foldl_append

theorem keeps_serveAll (host : Host F σ) (l : Loader F σ) (calls : List Call) :
    Assembly.Keeps [] l.assembly (l.serveAll host calls).assembly := by
  unfold serveAll
  induction calls generalizing l with
  | nil => exact .refl
  | cons call calls ih => exact (keeps_serve host l call).trans (ih _)

/-! ## What calls had the host make -/

/-- What a call gives the host. -/
def made (host : Host F σ) (l : Loader F (σ × List (HostCall F))) (call : Call) :
    List (HostCall F) :=
  (l.serve host.observed call).2.assembly.host.2.drop l.assembly.host.2.length

/-- The host made a module of a record, for one of some calls to a loader; and what that call came
to. -/
inductive Instantiated (host : Host F σ) (new : Loader F (σ × List (HostCall F)))
    (calls : List Call) :
    HostCall F → CompiledRecord → Except LoadError (LoadedModule F) → Prop where
  | of_call {before after : List Call} {call : Call} {l : Loader F (σ × List (HostCall F))}
    {entry : Specifier} {g : Graph} {c : HostCall F} {r : CompiledRecord} {exports : Exports F} :
    calls = before ++ call :: after → new.serveAll host.observed before = l →
    call.entry = .ok entry → l.Resolved (call.options l) entry g →
    c ∈ l.made host call → c.result = .ok exports →
    (l.assembled (call.options l) entry g).get? c.module.specifier = some r →
    Instantiated host new calls c r (l.serve host.observed call).1

/-- The module `s` depends statically on `d`, by the record it was made of. -/
def DependsOn (host : Host F σ) (new : Loader F (σ × List (HostCall F))) (calls : List Call)
    (s d : Specifier) : Prop :=
  ∃ c r result, Instantiated host new calls c r result ∧ c.module.specifier = s ∧
    d ∈ r.report.static

/-- The module `s` has a stub for `d` that it was given for a request that failed. -/
def LeftWaiting (host : Host F σ) (new : Loader F (σ × List (HostCall F))) (calls : List Call)
    (s d : Specifier) : Prop :=
  ∃ c r e, Instantiated host new calls c r (.error e) ∧ c.module.specifier = s ∧
    d ∈ r.report.static ∧
    c.module.scope.get? d = some (.forwarded ⟨d, s, new.registry.slot d⟩)

variable {host : Host F σ} {new l : Loader F (σ × List (HostCall F))} {calls : List Call}
  {call : Call} {c : HostCall F} {r : CompiledRecord}
  {result : Except LoadError (LoadedModule F)} {s d : Specifier}

theorem LeftWaiting.dependsOn (h : LeftWaiting host new calls s d) :
    DependsOn host new calls s d := by
  obtain ⟨c, r, e, hi, hs, hd, -⟩ := h
  exact ⟨c, r, .error e, hi, hs, hd⟩

theorem Instantiated.append (h : Instantiated host new calls c r result) (more : List Call) :
    Instantiated host new (calls ++ more) c r result := by
  cases h with
  | @of_call before after call _ _ _ _ _ _ hcalls hl hentry hg hc hok hr =>
    have hcalls' : calls ++ more = before ++ call :: (after ++ more) := by
      rw [hcalls, List.append_assoc, List.cons_append]
    exact .of_call hcalls' hl hentry hg hc hok hr

theorem Resolved.unique {l : Loader F σ} {options : Compile.Options} {entry : Specifier}
    {g h : Graph} (hg : l.Resolved options entry g) (hh : l.Resolved options entry h) : g = h :=
  Except.ok.inj (hg.symm.trans hh)

/-- What a call gives the host is given for its assembly. -/
theorem load_of_mem_made {entry : Specifier} {g : Graph} (hentry : call.entry = .ok entry)
    (hg : l.Resolved (call.options l) entry g) (hc : c ∈ l.made host call) :
    (l.serve host.observed call).1 = (l.assembly.load host.observed l.importer
        (l.assembled (call.options l) entry g) entry).1 ∧
      (l.serve host.observed call).2.assembly = (l.assembly.load host.observed l.importer
        (l.assembled (call.options l) entry g) entry).2 ∧
      (l.assembly.load host.observed l.importer
        (l.assembled (call.options l) entry g) entry).2.host.2 =
          l.assembly.host.2 ++ l.made host call := by
  rcases serve_assembly host.observed l call with hs | ⟨s, q, hs, hq, hresult, hstate⟩
  · rw [made, hs, List.drop_length] at hc
    cases hc
  · cases Except.ok.inj (hentry.symm.trans hs)
    cases hg.unique hq
    obtain ⟨given, hgiven⟩ := Assembly.exists_calls host l.importer
      (l.assembled (call.options l) entry g) entry l.assembly
    have hmade : l.made host call = given := by rw [made, hstate, hgiven, List.drop_left]
    exact ⟨hresult, hstate, by rw [hgiven, hmade]⟩

/-- A specifier keeps the slot that it had when the loader was new. -/
theorem slot_serveAll (host : Host F σ) (l : Loader F σ) (calls : List Call) (d : Specifier) :
    (l.serveAll host calls).registry.slot d = l.registry.slot d :=
  (keeps_serveAll host l calls).slot d

/-- A static dependency of a module is loaded, or the module was left with a stub for it. -/
theorem Instantiated.loaded_or_forwarded (h : Instantiated host new calls c r result)
    (hd : d ∈ r.report.static) : (new.serveAll host.observed calls).registry.isLoaded d = true ∨
      (∃ e, result = .error e) ∧
        c.module.scope.get? d =
          some (.forwarded ⟨d, c.module.specifier, new.registry.slot d⟩) := by
  cases h with
  | @of_call before after call l entry g _ _ exports hcalls hl hentry hg hc hok hr =>
    obtain ⟨hresult, hstate, hgiven⟩ := load_of_mem_made hentry hg hc
    have hlater : Assembly.Keeps [] (l.serve host.observed call).2.assembly
        (new.serveAll host.observed calls).assembly := by
      rw [hcalls, serveAll_append, hl]
      exact keeps_serveAll _ _ _
    have hslot : l.assembly.registry.slot d = new.registry.slot d := by
      rw [← hl]
      exact slot_serveAll host.observed new before d
    rw [hresult, ← hslot]
    refine (Assembly.loaded_or_forwarded hgiven hc hok hr hd).imp_left fun hd => ?_
    exact hlater.isLoaded (hstate ▸ hd)

/-- A stub that a module was given is for a static dependency. -/
theorem Instantiated.eq_of_forwarded (h : Instantiated host new calls c r result) {stub : Stub}
    (hs : c.module.scope.get? d = some (.forwarded stub)) :
    d ∈ r.report.static ∧ stub = ⟨d, c.module.specifier, new.registry.slot d⟩ := by
  cases h with
  | @of_call before _ _ l _ _ _ _ _ _ hl hentry hg hc _ hr =>
    obtain ⟨-, -, hgiven⟩ := load_of_mem_made hentry hg hc
    have hslot : l.assembly.registry.slot d = new.registry.slot d := by
      rw [← hl]
      exact slot_serveAll host.observed new before d
    exact hslot ▸ Assembly.eq_of_forwarded hgiven hc hr hs

/-- Whatever a loader has loaded since it was new was made by its host. -/
theorem exists_instantiated (hnew : ∀ s, new.registry.get? s = none) (calls : List Call)
    (hs : (new.serveAll host.observed calls).registry.isLoaded s = true) :
    ∃ c r result, Instantiated host new calls c r result ∧ c.module.specifier = s := by
  -- From the last call back to the one behind which the module is loaded for the first time.
  induction calls using List.reverseRecOn with
  | nil =>
    obtain ⟨m, hm⟩ := Registry.isLoaded_iff.1 hs
    rw [show new.serveAll host.observed [] = new from rfl, hnew s] at hm
    cases hm
  | append_singleton calls call ih =>
    cases hold : (new.serveAll host.observed calls).registry.isLoaded s with
    | true =>
      obtain ⟨c, r, result, hi, hname⟩ := ih hold
      exact ⟨c, r, result, hi.append [call], hname⟩
    | false =>
      rw [serveAll_append] at hs
      change ((new.serveAll host.observed calls).serve host.observed
        call).2.assembly.registry.isLoaded s = true at hs
      generalize hl : new.serveAll host.observed calls = l at hold hs
      rcases serve_assembly host.observed l call with hstate | ⟨entry, g, hentry, hg, -, hstate⟩
      · rw [hstate] at hs
        change l.assembly.registry.isLoaded s = false at hold
        rw [hold] at hs
        cases hs
      · obtain ⟨given, hgiven⟩ := Assembly.exists_calls host l.importer
          (l.assembled (call.options l) entry g) entry l.assembly
        have hmade : l.made host call = given := by rw [made, hstate, hgiven, List.drop_left]
        rw [hstate] at hs
        obtain ⟨c, hc, exports, r, hok, hname, hr⟩ := Assembly.exists_call_of_new hgiven hold hs
        exact ⟨c, r, _, .of_call rfl hl hentry hg (hmade ▸ hc) hok (hname ▸ hr), hname⟩

/-! ## What a request that returns leaves missing -/

/-- A module that another one depends on is loaded, or that one was left waiting for it. -/
theorem DependsOn.loaded_or_leftWaiting (h : DependsOn host new calls s d) :
    (new.serveAll host.observed calls).registry.isLoaded d = true ∨
      LeftWaiting host new calls s d := by
  obtain ⟨c, r, result, hi, rfl, hd⟩ := h
  rcases hi.loaded_or_forwarded hd with hl | ⟨⟨e, rfl⟩, hs⟩
  · exact Or.inl hl
  · exact Or.inr ⟨c, r, e, hi, rfl, hd, hs⟩

theorem isLoaded_entry {entry : Specifier} {m : LoadedModule F} (hentry : call.entry = .ok entry)
    (hok : ((new.serveAll host.observed calls).serve host.observed call).1 = .ok m) :
    (new.serveAll host.observed (calls ++ [call])).registry.isLoaded entry = true := by
  rw [serveAll_append]
  exact Registry.isLoaded_iff.2 ⟨m, get?_of_serve_ok hentry hok⟩

/-- Behind requests to a loader that was new, of which the last one returned the module of its
entry: every loaded module was made by the host of a record; a module that the entry depends on is
missing exactly if one that the entry depends on was left waiting for it by a request that failed;
and every other stub that was handed out is ready. -/
theorem reachable_is_loaded_unless_left_waiting {entry : Specifier} {m : LoadedModule F}
    (hnew : ∀ s, new.registry.get? s = none) (hentry : call.entry = .ok entry)
    (hok : ((new.serveAll host.observed calls).serve host.observed call).1 = .ok m) :
    let behind := new.serveAll host.observed (calls ++ [call])
    let Reaches := Relation.ReflTransGen (DependsOn host new (calls ++ [call]))
    (∀ t, behind.registry.isLoaded t = true → ∃ c r result,
      Instantiated host new (calls ++ [call]) c r result ∧ c.module.specifier = t) ∧
    (∀ t, (Reaches entry t ∧ behind.registry.isLoaded t = false) ↔
      ∃ s, Reaches entry s ∧ LeftWaiting host new (calls ++ [call]) s t ∧
        behind.registry.isLoaded t = false) ∧
    ∀ c r result d stub, Instantiated host new (calls ++ [call]) c r result →
      c.module.scope.get? d = some (.forwarded stub) →
      behind.registry.isReady stub = true ∨
        LeftWaiting host new (calls ++ [call]) c.module.specifier stub.target := by
  refine ⟨fun t => exists_instantiated hnew (calls ++ [call]), ?_, ?_⟩
  · intro t
    constructor
    · rintro ⟨hreach, hmissing⟩
      rcases hreach.cases_tail with rfl | ⟨s, hs, hd⟩
      · rw [isLoaded_entry hentry hok] at hmissing
        cases hmissing
      · refine ⟨s, hs, hd.loaded_or_leftWaiting.resolve_left ?_, hmissing⟩
        exact Bool.eq_false_iff.1 hmissing
    · rintro ⟨s, hs, hw, hmissing⟩
      exact ⟨hs.tail hw.dependsOn, hmissing⟩
  · intro c r result d stub hi hstub
    obtain ⟨hd, rfl⟩ := hi.eq_of_forwarded hstub
    have hready : (new.serveAll host.observed (calls ++ [call])).registry.isReady
        ⟨d, c.module.specifier, new.registry.slot d⟩ =
          (new.serveAll host.observed (calls ++ [call])).registry.isLoaded d := by
      rw [Registry.isReady, Registry.isLoaded, Registry.get?_eq_held?, slot_serveAll]
    exact hready ▸ DependsOn.loaded_or_leftWaiting ⟨c, r, result, hi, rfl, hd⟩

/-- Behind requests that all returned, every module that the entry depends on is loaded. -/
theorem closure_is_loaded {entry : Specifier} {m : LoadedModule F}
    (hentry : call.entry = .ok entry)
    (hok : ((new.serveAll host.observed calls).serve host.observed call).1 = .ok m)
    (hall : ∀ before one after, calls ++ [call] = before ++ one :: after →
      ∃ n, ((new.serveAll host.observed before).serve host.observed one).1 = .ok n)
    {t : Specifier} (ht : Relation.ReflTransGen (DependsOn host new (calls ++ [call])) entry t) :
    (new.serveAll host.observed (calls ++ [call])).registry.isLoaded t = true := by
  rcases ht.cases_tail with rfl | ⟨s, -, hd⟩
  · exact isLoaded_entry hentry hok
  · refine hd.loaded_or_leftWaiting.resolve_right ?_
    rintro ⟨c, r, e, hi, -⟩
    generalize hr : (.error e : Except LoadError (LoadedModule F)) = result at hi
    cases hi with
    | of_call hcalls hl =>
      obtain ⟨n, hn⟩ := hall _ _ _ hcalls
      rw [hl, ← hr] at hn
      cases hn

/-- A host that refuses the module `/a` once and takes everything from then on. -/
def refusingOnce : Host Unit Bool where
  instantiate _ m refused :=
    if m.specifier = ⟨"/a"⟩ ∧ refused = false then (.error (.evaluation ⟨"/a"⟩ "boom"), true)
    else (.ok [], refused)

/-- Two modules that import each other. -/
def crossed : Loader Unit (Bool × List (HostCall Unit)) where
  workshop :=
    { source := MemorySource.source
        { files :=
            [("/a.ts", "import \x7b b \x7d from './b';\nexport const a = 1;\n"),
              ("/b.ts", "import \x7b a \x7d from './a';\nexport const b = 2;\n")] }
      compiler := Compile.Lines.compile }
  assembly := { host := (false, []) }

theorem crossed_dependsOn :
    DependsOn refusingOnce crossed [.loadModule "/a", .loadModule "/b"] ⟨"/b"⟩ ⟨"/a"⟩ := by
  have hmade : (⟨"/b"⟩, true) ∈ (crossed.made refusingOnce (.loadModule "/a")).map
      fun c => (c.module.specifier, c.result.isOk) := by decide +kernel
  obtain ⟨c, hc, hb⟩ := List.mem_map.1 hmade
  obtain ⟨hname, hok⟩ := Prod.mk.inj hb
  have hrecord : (crossed.workshop.resolve (crossed.skips {}) crossed.settings.limit {}
      [⟨"/a"⟩]).1.map (fun g =>
        ((crossed.assembled {} ⟨"/a"⟩ g).get? ⟨"/b"⟩).map (·.report.static)) =
        .ok (some [⟨"/a"⟩]) := by decide +kernel
  have hentry : Call.entry (.loadModule "/a") = .ok ⟨"/a"⟩ := by decide +kernel
  cases hg : (crossed.workshop.resolve (crossed.skips {}) crossed.settings.limit {} [⟨"/a"⟩]).1 with
  | error e => simp [hg, Except.map] at hrecord
  | ok g =>
    rw [hg] at hrecord
    obtain ⟨r, hr, hstatic⟩ := Option.map_eq_some_iff.1 (Except.ok.inj hrecord)
    cases hres : c.result with
    | error e => simp [hres, Except.isOk, Except.toBool] at hok
    | ok exports =>
      have hi : Instantiated refusingOnce crossed [.loadModule "/a", .loadModule "/b"] c r _ :=
        .of_call (List.nil_append _).symm rfl hentry hg hc hres (hname ▸ hr)
      exact ⟨c, r, _, hi, hname, by rw [hstatic]; exact List.mem_singleton.2 rfl⟩

/-- The request for `/a` fails at `/a` itself, when `/b` has a stub for it; the request for `/b`
then returns, and `/a` is still missing. -/
theorem crossed_is_left_waiting :
    (crossed.serve refusingOnce.observed (.loadModule "/a")).1.isOk = false ∧
    (∃ m, ((crossed.serveAll refusingOnce.observed [.loadModule "/a"]).serve refusingOnce.observed
      (.loadModule "/b")).1 = .ok m) ∧
    (crossed.serveAll refusingOnce.observed
      [.loadModule "/a", .loadModule "/b"]).registry.isLoaded ⟨"/a"⟩ = false ∧
    DependsOn refusingOnce crossed [.loadModule "/a", .loadModule "/b"] ⟨"/b"⟩ ⟨"/a"⟩ ∧
    ∃ s, Relation.ReflTransGen (DependsOn refusingOnce crossed
        [.loadModule "/a", .loadModule "/b"]) ⟨"/b"⟩ s ∧
      LeftWaiting refusingOnce crossed [.loadModule "/a", .loadModule "/b"] s ⟨"/a"⟩ := by
  have hfails : (crossed.serve refusingOnce.observed (.loadModule "/a")).1.isOk = false := by
    decide +kernel
  have hmissing : (crossed.serveAll refusingOnce.observed
      [.loadModule "/a", .loadModule "/b"]).registry.isLoaded ⟨"/a"⟩ = false := by decide +kernel
  have hreturns : ((crossed.serveAll refusingOnce.observed [.loadModule "/a"]).serve
      refusingOnce.observed (.loadModule "/b")).1.isOk = true := by decide +kernel
  cases hm : ((crossed.serveAll refusingOnce.observed [.loadModule "/a"]).serve
      refusingOnce.observed (.loadModule "/b")).1 with
  | error e => simp [hm, Except.isOk, Except.toBool] at hreturns
  | ok m =>
    have hentry : Call.entry (.loadModule "/b") = .ok ⟨"/b"⟩ := by decide +kernel
    obtain ⟨-, hiff, -⟩ := reachable_is_loaded_unless_left_waiting (fun _ => rfl) hentry hm
    obtain ⟨s, hs, hw, -⟩ := (hiff ⟨"/a"⟩).1 ⟨.single crossed_dependsOn, hmissing⟩
    exact ⟨hfails, ⟨m, rfl⟩, hmissing, crossed_dependsOn, s, hs, hw⟩

end ScriptLoader.Loader
