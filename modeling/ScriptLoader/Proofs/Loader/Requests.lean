import ScriptLoader.Loader.Request
import ScriptLoader.Proofs.Loader.Retention

/-!
# Requests one after the other

A request that nothing interrupts runs through its stages in a line: it finds the module loaded, or
resolves its graph, waits for the code, takes prepared modules in, assembles and keeps what is left
over.

* `Loader.Served`: what a request comes to, and the loader behind it. Every request is served so
  (`Loader.served_loadSpecifier`).
* `Loader.stocked_serveAll`: what holds of prepared modules holds behind any requests.
-/

namespace ScriptLoader

variable {F σ : Type}

/-- A request to a loader, as it is made. -/
inductive Call where
  | loadModule (raw : String)
  | loadModuleWith (raw : String) (options : Compile.Options)
  /-- The module at the location `base` imports another one. -/
  | importDynamic (raw base : String)

def Call.options (l : Loader F σ) : Call → Compile.Options
  | loadModule _ => l.settings.options
  | loadModuleWith _ o => o
  | importDynamic _ _ => l.settings.options

def Call.entry : Call → Except LoadError Specifier
  | loadModule raw => Loader.parseEntry raw
  | loadModuleWith raw _ => Loader.parseEntry raw
  | importDynamic raw base =>
    (Specifier.resolve raw base).mapError fun e => .invalidSpecifier raw e.message

namespace Loader

variable {host : Host F σ} {entry : Specifier} {options : Compile.Options}

/-! ## Stages in a line -/

theorem runFrom_next {l : Loader F σ} {st : Stage F} (h : st.result? = none) :
    l.runFrom host entry options st =
      (l.nextStage host entry options st).2.runFrom host entry options
        (l.nextStage host entry options st).1 := by
  rw [runFrom]
  split
  · next hr =>
    rw [h] at hr
    cases hr
  · rfl

theorem runFrom_finished (l : Loader F σ) (result : Except LoadError (LoadedModule F)) :
    l.runFrom host entry options (.finished result) = (result, l) := by
  rw [runFrom]
  rfl

theorem runFrom_failing (l : Loader F σ) (e : LoadError) :
    l.runFrom host entry options (.failing e) =
      (.error e, (l.log (.loadFailed entry e)).discardCache) := by
  rw [runFrom_next rfl]
  exact runFrom_finished _ _

/-- A resolution that a request runs step by step is the resolution as a whole. -/
theorem runFrom_resolving (host : Host F σ) (entry : Specifier) (options : Compile.Options)
    (l : Loader F σ) (r : Resolving) (w : Workshop) :
    ({ l with workshop := w } : Loader F σ).runFrom host entry options (.resolving r) =
      ({ l with workshop := (r.run (l.skips options) options w).2 } : Loader F σ).runFrom host entry
        options (match (r.run (l.skips options) options w).1 with
          | .ok g => .resolved g
          | .error e => .failing e) := by
  have hskip : ∀ w, ({ l with workshop := w } : Loader F σ).skips options = l.skips options :=
    fun _ => rfl
  generalize l.skips options = skip at hskip ⊢
  fun_induction Resolving.run skip options r w with
  | case1 r w result v hs =>
    rw [runFrom_next rfl]
    simp only [nextStage]
    rw [hskip, hs]
    cases result <;> rfl
  | case2 r w next hb v hs ih =>
    rw [runFrom_next rfl]
    simp only [nextStage]
    rw [hskip, hs]
    exact ih

/-- A request whose entry is not loaded resolves its graph as a whole. -/
theorem loadSpecifier_of_not_loaded {l : Loader F σ} (hn : l.registry.get? entry = none) :
    l.loadSpecifier host entry options =
      ({ l.log (.loading entry) with
          workshop := (l.workshop.resolve (l.skips options) l.settings.limit options [entry]).2 } :
        Loader F σ).runFrom host entry options
        (match (l.workshop.resolve (l.skips options) l.settings.limit options [entry]).1 with
          | .ok g => .resolved g
          | .error e => .failing e) := by
  rw [loadSpecifier, runFrom_next rfl]
  simp only [nextStage]
  rw [hn]
  exact runFrom_resolving host entry options (l.log (.loading entry))
    (.start (l.skips options) l.settings.limit [entry]) l.workshop

/-! ## What a request comes to -/

/-- The graph that a request assembles when its resolution came to `g`. -/
def assembled (l : Loader F σ) (options : Compile.Options) (entry : Specifier) (g : Graph) :
    Graph := (l.adopt options entry g.awaitCode.1).1

/-- What a request comes to, and the loader behind it. -/
inductive Served (host : Host F σ) (l : Loader F σ) (options : Compile.Options)
    (entry : Specifier) : Except LoadError (LoadedModule F) × Loader F σ → Prop where
  /-- The entry is loaded. -/
  | found {m : LoadedModule F} {k : Loader F σ} : l.registry.get? entry = some m →
    k.prepared = l.prepared → k.assembly = l.assembly → Served host l options entry (.ok m, k)
  /-- The resolution fails. -/
  | unresolved {e : LoadError} {k : Loader F σ} : l.registry.get? entry = none →
    (l.workshop.resolve (l.skips options) l.settings.limit options [entry]).1 = .error e →
    k.prepared = l.prepared → k.assembly = l.assembly → Served host l options entry (.error e, k)
  /-- The generation of some code fails. -/
  | uncompiled {g : Graph} {e : LoadError} {k : Loader F σ} : l.registry.get? entry = none →
    l.Resolved options entry g → ¬ g.Ready → g.awaitCode.2 = .error e →
    k.prepared = l.prepared → k.assembly = l.assembly → Served host l options entry (.error e, k)
  /-- The entry is assembled, and something is kept whatever comes of it. -/
  | assembled {g : Graph} {k b : Loader F σ} : l.registry.get? entry = none →
    l.Resolved options entry g → g.Ready → b.prepared = l.prepared →
    b.assembly = (l.assembly.load host l.importer (l.assembled options entry g) entry).2 →
    k.prepared = (b.retain options (l.assembled options entry g)).prepared →
    k.assembly = (b.retain options (l.assembled options entry g)).assembly →
    Served host l options entry
      ((l.assembly.load host l.importer (l.assembled options entry g) entry).1, k)

/-- Two loaders that differ in what they make records with at most, and in what they logged. -/
structure Agrees (b l : Loader F σ) : Prop where
  prepared : b.prepared = l.prepared
  assembly : b.assembly = l.assembly
  number : b.number = l.number

theorem Agrees.adopt {b l : Loader F σ} (h : Agrees b l) (g : Graph) :
    (b.adopt options entry g).1 = (l.adopt options entry g).1 := by
  simp only [Loader.adopt, missing, recordTable, preparedRecord?, registry, h.prepared, h.assembly]

theorem served_compiled {l b : Loader F σ} {g : Graph} (hn : l.registry.get? entry = none)
    (hg : l.Resolved options entry g) (hready : g.Ready) (hb : Agrees b l) :
    Served host l options entry
      (b.runFrom host entry options (.compiled (l.assembled options entry g))) := by
  let c : Loader F σ := { b with assembly :=
    (l.assembly.load host l.importer (l.assembled options entry g) entry).2 }
  have hload : b.assemble host (l.assembled options entry g) entry =
      ((l.assembly.load host l.importer (l.assembled options entry g) entry).1, c) := by
    have hi : b.importer = l.importer := by rw [importer, importer, hb.number]
    rw [assemble, hb.assembly, hi]
  rw [runFrom_next rfl]
  simp only [nextStage]
  rw [hload, runFrom_next rfl]
  simp only [nextStage]
  cases hr : (l.assembly.load host l.importer (l.assembled options entry g) entry).1 with
  | error e =>
    dsimp only
    rw [runFrom_failing, ← hr]
    exact .assembled (b := c) hn hg hready hb.prepared rfl rfl rfl
  | ok m =>
    dsimp only
    rw [runFrom_finished, ← hr]
    exact .assembled (b := c) hn hg hready hb.prepared rfl rfl rfl

theorem served_resolved {l b : Loader F σ} {g : Graph} (hn : l.registry.get? entry = none)
    (hg : l.Resolved options entry g) (hb : Agrees b l) :
    Served host l options entry (b.runFrom host entry options (.resolved g)) := by
  rw [runFrom_next rfl]
  simp only [nextStage]
  have hcode : (b.workshop.awaitCode g).1 = g.awaitCode := rfl
  generalize b.workshop.awaitCode g = x at hcode
  obtain ⟨⟨waited, e | ⟨⟩⟩, w⟩ := x
  · have hfail : g.awaitCode.2 = .error e := by rw [← hcode]
    dsimp only
    rw [runFrom_failing]
    refine .uncompiled hn hg (fun hready => ?_) hfail hb.prepared hb.assembly
    rw [Graph.awaitCode_ok_iff.2 hready] at hfail
    cases hfail
  · have hready : g.Ready := Graph.awaitCode_ok_iff.1 (by rw [← hcode])
    have hb' : Agrees { b with workshop := w } l := ⟨hb.prepared, hb.assembly, hb.number⟩
    have hwaited : waited = g.awaitCode.1 := by rw [← hcode]
    have hadopt : ({ b with workshop := w } : Loader F σ).adopt options entry waited =
        (l.assembled options entry g,
          (({ b with workshop := w } : Loader F σ).adopt options entry waited).2) := by
      rw [assembled, ← hb'.adopt, hwaited]
    dsimp only
    rw [hadopt]
    exact served_compiled hn hg hready ⟨hb.prepared, hb.assembly, hb.number⟩

theorem served_loadSpecifier (host : Host F σ) (l : Loader F σ) (entry : Specifier)
    (options : Compile.Options) :
    Served host l options entry (l.loadSpecifier host entry options) := by
  cases hn : l.registry.get? entry with
  | some m =>
    rw [loadSpecifier, runFrom_next rfl]
    simp only [nextStage]
    rw [hn, runFrom_finished]
    exact .found hn rfl rfl
  | none =>
    rw [loadSpecifier_of_not_loaded hn]
    cases hg : (l.workshop.resolve (l.skips options) l.settings.limit options [entry]).1 with
    | error e =>
      rw [runFrom_failing]
      exact .unresolved hn hg rfl rfl
    | ok g => exact served_resolved hn hg ⟨rfl, rfl, rfl⟩

theorem settings_runFrom (host : Host F σ) (entry : Specifier) (options : Compile.Options)
    (l : Loader F σ) (st : Stage F) :
    (l.runFrom host entry options st).2.settings = l.settings := by
  fun_induction runFrom host entry options l st with
  | case1 => rfl
  | case2 l st _ ih => rw [ih, settings_nextStage]

theorem options_loadSpecifier {l : Loader F σ}
    (h : ∀ s p, l.prepared.get? s = some p → p.options = options) {s : Specifier} {p : Prepared}
    (hp : (l.loadSpecifier host entry options).2.prepared.get? s = some p) :
    p.options = options := by
  have hserved := served_loadSpecifier host l entry options
  generalize l.loadSpecifier host entry options = x at hserved hp
  cases hserved with
  | found _ hk _ => exact h s p (hk ▸ hp)
  | unresolved _ _ hk _ => exact h s p (hk ▸ hp)
  | uncompiled _ _ _ _ hk _ => exact h s p (hk ▸ hp)
  | @assembled g k b _ _ _ hb _ hk _ =>
    dsimp only at hp
    rw [hk] at hp
    rcases get?_retain b options (l.assembled options entry g) s with
      ⟨-, hs⟩ | ⟨-, hs⟩ | ⟨-, -, -, hs⟩ <;> rw [hp] at hs
    · exact h s p (hb ▸ hs.symm)
    · cases hs
    · cases hs
      rfl

theorem stocked_loadSpecifier {l : Loader F σ} (h : l.Stocked) :
    (l.loadSpecifier host entry options).2.Stocked := by
  have hserved := served_loadSpecifier host l entry options
  generalize l.loadSpecifier host entry options = x at hserved ⊢
  cases hserved with
  | found _ hp ha => exact h.of_eq hp ha
  | unresolved _ _ hp ha => exact h.of_eq hp ha
  | uncompiled _ _ _ _ hp ha => exact h.of_eq hp ha
  | assembled _ hg hready hb hload hp ha =>
    refine (stocked_retain h (settled_adopt h hg hready) hb ?_).of_eq hp ha
    rw [hload]
    exact Assembly.keeps_load _ _ _ _ _

/-! ## One call after the other -/

def serve (host : Host F σ) (l : Loader F σ) : Call → Except LoadError (LoadedModule F) × Loader F σ
  | .loadModule raw => l.load host raw l.settings.options
  | .loadModuleWith raw o => l.load host raw o
  | .importDynamic raw base => l.importDynamic host raw base

def serveAll (host : Host F σ) (l : Loader F σ) (calls : List Call) : Loader F σ :=
  calls.foldl (fun l call => (l.serve host call).2) l

/-- A call whose entry is no specifier fails at once. Any other one is a request for its entry. -/
theorem serve_cases (host : Host F σ) (l : Loader F σ) (call : Call) :
    (∃ raw reason, call.entry = .error (.invalidSpecifier raw reason) ∧
      l.serve host call = (.error (.invalidSpecifier raw reason), l)) ∨
    ∃ entry events, call.entry = .ok entry ∧ l.serve host call =
      ({ l with events } : Loader F σ).loadSpecifier host entry (call.options l) := by
  have hload : ∀ raw options, (∃ reason, parseEntry raw = .error (.invalidSpecifier raw reason) ∧
      l.load host raw options = (.error (.invalidSpecifier raw reason), l)) ∨
      ∃ entry, parseEntry raw = .ok entry ∧
        l.load host raw options = l.loadSpecifier host entry options := by
    intro raw options
    unfold load
    unfold parseEntry
    rcases Specifier.parse raw with e | entry
    · exact Or.inl ⟨e.message, rfl, rfl⟩
    · exact Or.inr ⟨entry, rfl, rfl⟩
  cases call with
  | loadModule raw =>
    rcases hload raw l.settings.options with ⟨reason, he, hl⟩ | ⟨entry, he, hl⟩
    · exact Or.inl ⟨raw, reason, he, hl⟩
    · exact Or.inr ⟨entry, l.events, he, hl⟩
  | loadModuleWith raw options =>
    rcases hload raw options with ⟨reason, he, hl⟩ | ⟨entry, he, hl⟩
    · exact Or.inl ⟨raw, reason, he, hl⟩
    · exact Or.inr ⟨entry, l.events, he, hl⟩
  | importDynamic raw base =>
    simp only [serve, importDynamic, Call.entry]
    rcases Specifier.resolve raw base with e | s
    · exact Or.inl ⟨raw, e.message, rfl, rfl⟩
    · exact Or.inr ⟨s, (l.log (.dynamicImport raw base s)).events, rfl, rfl⟩

theorem stocked_serve {l : Loader F σ} (h : l.Stocked) (call : Call) :
    (l.serve host call).2.Stocked := by
  rcases serve_cases host l call with ⟨_, _, -, hs⟩ | ⟨entry, events, -, hs⟩
  · rw [hs]
    exact h
  · rw [hs]
    exact stocked_loadSpecifier (h.of_eq rfl rfl)

theorem settings_serve (host : Host F σ) (l : Loader F σ) (call : Call) :
    (l.serve host call).2.settings = l.settings := by
  rcases serve_cases host l call with ⟨_, _, -, hs⟩ | ⟨entry, events, -, hs⟩
  · rw [hs]
  · rw [hs]
    exact settings_runFrom _ _ _ _ _

theorem options_eq_of_settings_eq {k l : Loader F σ} (h : k.settings = l.settings) (call : Call) :
    call.options k = call.options l := by
  cases call <;> simp [Call.options, h]

theorem options_serve {l : Loader F σ} {call : Call} (hcall : call.options l = options)
    (h : ∀ s p, l.prepared.get? s = some p → p.options = options) {s : Specifier} {p : Prepared}
    (hp : (l.serve host call).2.prepared.get? s = some p) : p.options = options := by
  rcases serve_cases host l call with ⟨_, _, -, hs⟩ | ⟨entry, events, -, hs⟩
  · rw [hs] at hp
    exact h s p hp
  · rw [hs, hcall] at hp
    exact options_loadSpecifier (l := { l with events }) h hp

/-- Behind calls that are all served under one choice of options, nothing is prepared under
others. -/
theorem options_serveAll {calls : List Call} {l : Loader F σ}
    (hcalls : ∀ call ∈ calls, call.options l = options)
    (h : ∀ s p, l.prepared.get? s = some p → p.options = options) {s : Specifier} {p : Prepared}
    (hp : (l.serveAll host calls).prepared.get? s = some p) : p.options = options := by
  unfold serveAll at hp
  induction calls generalizing l with
  | nil => exact h s p hp
  | cons call calls ih =>
    refine ih (fun c hc => ?_) (fun t q => options_serve (hcalls call List.mem_cons_self) h) hp
    rw [options_eq_of_settings_eq (settings_serve host l call)]
    exact hcalls c (List.mem_cons_of_mem _ hc)

theorem settings_serveAll (host : Host F σ) (l : Loader F σ) (calls : List Call) :
    (l.serveAll host calls).settings = l.settings := by
  unfold serveAll
  induction calls generalizing l with
  | nil => rfl
  | cons call calls ih =>
    rw [List.foldl_cons, ih]
    exact settings_serve host l call

theorem stocked_of_prepared_eq_nil {l : Loader F σ} (h : l.prepared = []) : l.Stocked :=
  ⟨by simp [h, Keyed.keys], by simp [h, Keyed.get?], by simp [h, Keyed.get?],
    by simp [h, Keyed.get?]⟩

theorem stocked_serveAll {l : Loader F σ} (h : l.Stocked) (calls : List Call) :
    (l.serveAll host calls).Stocked := by
  unfold serveAll
  induction calls generalizing l with
  | nil => exact h
  | cons call calls ih => exact ih (stocked_serve h call)

end Loader

end ScriptLoader
