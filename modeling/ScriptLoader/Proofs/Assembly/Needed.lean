import ScriptLoader.Proofs.Assembly.Walk
import ScriptLoader.Proofs.Graph.Records

/-!
# What an assembly needs

An assembly needs its entry, and what it depends on statically through modules that are not loaded
yet. When all code is there and the host takes every module, the walk fails exactly if the graph
lacks a module that it needs.

* `Needed`: the modules that an entry needs and that are not loaded, by a table of dependencies.
* `Assembly.Filled`: a walk that returns leaves no loaded module behind whose dependencies are
  neither loaded nor on its path.
* `Assembly.load_notResolved_iff`: when loading an entry finds a module missing.
-/

namespace ScriptLoader

variable {F σ : Type}

/-- The modules that an entry needs and that are not loaded: the least set that has the entry and
the static dependencies of its modules, without those that are loaded. -/
inductive Needed (R : Registry F) (static? : Specifier → Option (List Specifier))
    (entry : Specifier) : Specifier → Prop where
  | entry : R.isLoaded entry = false → Needed R static? entry entry
  | dependency {s d : Specifier} {ds : List Specifier} : Needed R static? entry s →
    static? s = some ds → d ∈ ds → R.isLoaded d = false → Needed R static? entry d

theorem Needed.not_loaded {R : Registry F} {static? : Specifier → Option (List Specifier)}
    {entry s : Specifier} (h : Needed R static? entry s) : R.isLoaded s = false := by
  cases h with
  | entry hs => exact hs
  | dependency _ _ _ hs => exact hs

theorem Needed.mono {R : Registry F} {f g : Specifier → Option (List Specifier)}
    {entry : Specifier} (hfg : ∀ s ds, Needed R f entry s → f s = some ds → g s = some ds)
    {s : Specifier} (h : Needed R f entry s) : Needed R g entry s := by
  induction h with
  | entry hs => exact .entry hs
  | dependency hn hs hd hk ih => exact .dependency ih (hfg _ _ hn hs) hd hk

def Graph.static? (g : Graph) (s : Specifier) : Option (List Specifier) :=
  (g.get? s).map (·.report.static)

/-- The host instantiates a module whenever it is asked to. -/
def Host.Takes (host : Host F σ) (s : Specifier) : Prop :=
  ∀ registry m h, m.specifier = s → ∃ exports k, host.instantiate registry m h = (.ok exports, k)

namespace Assembly

variable {host : Host F σ} {importer : Importer} {g : Graph}

/-! ## Walks that return -/

/-- Every module that is loaded behind a walk was loaded before, or has a record whose static
dependencies are loaded or on the path. -/
def Filled (g : Graph) (path : List Specifier) (a b : Assembly F σ) : Prop :=
  ∀ t, b.registry.isLoaded t = true → a.registry.isLoaded t = true ∨
    ∃ r, g.get? t = some r ∧ ∀ d ∈ r.report.static, b.registry.isLoaded d = true ∨ d ∈ path

theorem Filled.of_registry_eq {path : List Specifier} {a b : Assembly F σ}
    (h : ∀ t, b.registry.get? t = a.registry.get? t) : Filled g path a b := by
  intro t ht
  refine Or.inl ?_
  simpa only [Registry.isLoaded, h t] using ht

theorem Filled.trans {path : List Specifier} {a b c : Assembly F σ} (h : Filled g path a b)
    (k : Filled g path b c) (hk : Keeps path b c) : Filled g path a c := by
  intro t ht
  rcases k t ht with ht | hr
  · rcases h t ht with ht | ⟨r, hr, hd⟩
    · exact Or.inl ht
    · exact Or.inr ⟨r, hr, fun d hm => (hd d hm).imp_left hk.isLoaded⟩
  · exact Or.inr hr

/-- A module fills its slot, with its dependencies loaded or on the path that it is the first of. -/
theorem Filled.fill {path : List Specifier} {s : Specifier} {a b c : Assembly F σ}
    {r : CompiledRecord} {m : LoadedModule F} (h : Filled g (s :: path) a b)
    (hr : g.get? s = some r)
    (hd : ∀ d ∈ r.report.static, b.registry.isLoaded d = true ∨ d ∈ s :: path)
    (hc : c.registry = b.registry.fill s m) (hs : b.registry.get? s = none) :
    Filled g path a c := by
  have hself : c.registry.isLoaded s = true :=
    Registry.isLoaded_iff.2 ⟨m, by rw [hc, Registry.get?_fill, if_pos rfl, hs, Option.none_or]⟩
  have out : ∀ d, b.registry.isLoaded d = true ∨ d ∈ s :: path →
      c.registry.isLoaded d = true ∨ d ∈ path := by
    rintro d (hd | hd)
    · obtain ⟨n, hn⟩ := Registry.isLoaded_iff.1 hd
      exact Or.inl (Registry.isLoaded_iff.2 ⟨n, by rw [hc]; exact Registry.fill_get?_of_loaded hn⟩)
    · rcases List.mem_cons.1 hd with rfl | hd
      · exact Or.inl hself
      · exact Or.inr hd
  intro t ht
  by_cases hts : t = s
  · subst hts
    exact Or.inr ⟨r, hr, fun d hm => out d (hd d hm)⟩
  · have hb : b.registry.isLoaded t = true := by
      rw [Registry.isLoaded, hc, Registry.get?_fill, if_neg hts] at ht
      exact ht
    rcases h t hb with ha | ⟨q, hq, hqd⟩
    · exact Or.inl ha
    · exact Or.inr ⟨q, hq, fun d hm => out d (hqd d hm)⟩

theorem filled_laws (host : Host F σ) (importer : Importer) (g : Graph) : Laws host importer g
    (fun path s a x => ∀ ref b, x = (.ok ref, b) →
      (b.registry.isLoaded s = true ∨ s ∈ path) ∧ Filled g path a b)
    (fun path ds _ a x => ∀ scope b, x = (.ok scope, b) →
      (∀ d ∈ ds, b.registry.isLoaded d = true ∨ d ∈ path) ∧ Filled g path a b) where
  loaded {path s a m} hm := by
    rintro _ _ ⟨⟩
    have hget := Registry.get?_allocate a.registry s
    exact ⟨Or.inl (Registry.isLoaded_iff.2 ⟨m, (hget s).trans hm⟩), .of_registry_eq hget⟩
  forwarded {path s a} _ hs := by
    rintro _ _ ⟨⟩
    exact ⟨Or.inr hs, .of_registry_eq (Registry.get?_allocate a.registry s)⟩
  missing _ _ _ := by rintro _ _ ⟨⟩
  failed _ _ _ _ := by rintro _ _ ⟨⟩
  bound {path s a b r scope} hn _ hr hk hb := by
    intro ref c hc
    obtain ⟨hd, hf⟩ := hb scope b rfl
    have hs : b.registry.get? s = none := (hk.path s List.mem_cons_self).trans hn
    rcases instantiate_cases host importer r scope b with
      ⟨-, hi⟩ | ⟨_, -, ⟨_, _, _, -, hi, -⟩ | ⟨_, _, c', m, -, hi, -, hreg, -⟩⟩
    · simp [hi] at hc
    · simp [hi] at hc
    · obtain rfl : c' = c := by
        rw [hi] at hc
        cases hc
        rfl
      rw [Graph.specifier_of_get? hr] at hreg
      have hf' : Filled g (s :: path) a b := by
        intro t ht
        have := hf t ht
        rwa [Registry.isLoaded, allocate, Registry.get?_allocate] at this
      refine ⟨Or.inl (Registry.isLoaded_iff.2 ⟨m, ?_⟩), hf'.fill hr hd hreg hs⟩
      rw [hreg, Registry.get?_fill, if_pos rfl, hs, Option.none_or]
  nil {path scope a} := by
    intro _ b hb
    cases hb
    exact ⟨by simp, .of_registry_eq fun _ => rfl⟩
  stop _ := by rintro _ _ ⟨⟩
  next {path ds d scope a b ref x} _ hkx hv hb := by
    intro sc c hc
    subst hc
    obtain ⟨hd, hfd⟩ := hv ref b rfl
    obtain ⟨hds, hfds⟩ := hb sc c rfl
    refine ⟨?_, hfd.trans hfds hkx⟩
    intro j hj
    rcases List.mem_cons.1 hj with rfl | hj
    · exact hd.imp_left hkx.isLoaded
    · exact hds j hj

/-! ## Walks that fail -/

/-- All that `R` has loaded is loaded. -/
def Extends (R : Registry F) (a : Assembly F σ) : Prop :=
  ∀ t, R.isLoaded t = true → a.registry.isLoaded t = true

namespace Extends

variable {R : Registry F} {path : List Specifier} {a b : Assembly F σ}

theorem keep (h : Extends R a) (hk : Keeps path a b) : Extends R b :=
  fun t ht => hk.isLoaded (h t ht)

theorem not_loaded (h : Extends R a) {s : Specifier} (hs : a.registry.get? s = none) :
    R.isLoaded s = false :=
  Bool.eq_false_iff.2 fun hl => by
    obtain ⟨m, hm⟩ := Registry.isLoaded_iff.1 (h s hl)
    rw [hs] at hm
    cases hm

end Extends

/-- The failure is a module that is needed and has no record. -/
def Lacks (g : Graph) (R : Registry F) (entry : Specifier) (e : LoadError) : Prop :=
  ∃ t, e = .notResolved t ∧ Needed R g.static? entry t ∧ g.contains t = false

/-- With all code there and a host that takes every module, a walk fails for want of a record. -/
theorem lacks_laws (importer : Importer) {R : Registry F} {entry : Specifier}
    (hready : ∀ r ∈ g.records, ∃ code, r.readyCode? = some code)
    (htakes : ∀ s, Needed R g.static? entry s → host.Takes s) : Laws host importer g
    (fun _ s a x => Extends R a → (R.isLoaded s = false → Needed R g.static? entry s) →
      ∀ e b, x = (.error e, b) → Lacks g R entry e)
    (fun _ ds _ a x => Extends R a →
      (∀ d ∈ ds, R.isLoaded d = false → Needed R g.static? entry d) →
      ∀ e b, x = (.error e, b) → Lacks g R entry e) := by
  have below : ∀ {s r}, Needed R g.static? entry s → g.get? s = some r → ∀ d ∈ r.report.static,
      R.isLoaded d = false → Needed R g.static? entry d :=
    fun hs hr d hd hk => .dependency hs (by rw [Graph.static?, hr]; rfl) hd hk
  exact
    { loaded := by rintro _ _ _ _ - - - _ _ ⟨⟩
      forwarded := by rintro _ _ _ - - - - _ _ ⟨⟩
      missing := by
        rintro _ s a hn - hg hR hs _ _ ⟨⟩
        exact ⟨s, rfl, hs (hR.not_loaded hn), by simp [Graph.contains, hg]⟩
      failed := by
        rintro path s a b r e hn - hr hb hR hs _ _ ⟨⟩
        have hk : Keeps path a (a.allocate s) := .allocate s
        exact hb (hR.keep hk) (below (hs (hR.not_loaded hn)) hr) e b rfl
      bound := by
        intro path s a b r scope hn _ hr hk hb hR hs e c he
        exfalso
        have hneed := hs (hR.not_loaded hn)
        rcases instantiate_cases host importer r scope b with
          ⟨hc, -⟩ | ⟨code, -, ⟨_, _, _, hc, -⟩ | ⟨_, _, _, _, -, hi, -⟩⟩
        · obtain ⟨code, hcode⟩ := hready r (Graph.mem_of_get? hr)
          rw [hc] at hcode
          cases hcode
        · obtain ⟨_, _, ht⟩ := htakes s hneed b.registry (given importer r scope code) b.host
            (Graph.specifier_of_get? hr)
          rw [ht] at hc
          cases hc
        · simp [hi] at he
      nil := by rintro _ _ _ - - _ _ ⟨⟩
      stop := by
        rintro path ds d scope a b e hv hR hds _ _ ⟨⟩
        exact hv hR (hds d List.mem_cons_self) e b rfl
      next := by
        intro path ds d scope a b ref x hk _ _ hb hR hds e c he
        exact hb (hR.keep hk) (fun j hj => hds j (List.mem_cons_of_mem _ hj)) e c he }

/-! ## Loading -/

/-- Loading an entry whose code is there fails for want of a module exactly if it needs one that
has no record, as long as the host takes every module that is needed. -/
theorem load_notResolved_iff {entry : Specifier} {a : Assembly F σ} (hg : g.Ready)
    (htakes : ∀ s, Needed a.registry g.static? entry s → host.Takes s) :
    (∃ s, (load host importer g entry a).1 = .error (.notResolved s)) ↔
      ∃ s, Needed a.registry g.static? entry s ∧ g.contains s = false := by
  have hstatic : g.awaitCode.1.static? = g.static? := by
    funext s
    simp [Graph.static?, Graph.get?_awaitCode hg, Function.comp_def, CompiledRecord.waited]
  have hfail : ∀ e b, walk host importer g entry a = (.error e, b) →
      ∃ t, e = .notResolved t ∧ Needed a.registry g.static? entry t ∧ g.contains t = false := by
    intro e b hw
    have hready : ∀ r ∈ g.awaitCode.1.records, ∃ code, r.readyCode? = some code :=
      fun r hr => (Graph.readyCode?_of_awaitCode hg hr).imp fun _ h => h.2
    have hlacks : Lacks g.awaitCode.1 a.registry entry e :=
      walk_of_laws (lacks_laws importer hready (by rwa [hstatic])) entry a (fun _ ht => ht) .entry
        e b hw
    simpa only [Lacks, hstatic, Graph.contains_awaitCode hg] using hlacks
  rcases load_cases host importer g entry a with
    ⟨e, he, -⟩ | ⟨-, ⟨e, b, hw, hl⟩ | ⟨m, b, hw, hm, hl⟩⟩
  · rw [Graph.awaitCode_ok_iff.2 hg] at he
    cases he
  · obtain ⟨t, rfl, ht⟩ := hfail e b hw
    exact ⟨fun _ => ⟨t, ht⟩, fun _ => ⟨t, by rw [hl]⟩⟩
  · constructor
    · rintro ⟨s, hs⟩
      rw [hl] at hs
      cases hs
    · -- A walk that returns has everything that is needed loaded, and so had records of it.
      rintro ⟨s, hs, hlack⟩
      have hf := (walk_of_laws (filled_laws host importer g.awaitCode.1) entry a _ b hw).2
      have hall : ∀ t, Needed a.registry g.static? entry t → b.registry.isLoaded t = true := by
        intro t ht
        induction ht with
        | entry _ => exact Registry.isLoaded_iff.2 ⟨m, hm⟩
        | @dependency t d ds hneed hds hd _ ih =>
          rcases hf t ih with ht | ⟨r, hr, hrd⟩
          · rw [hneed.not_loaded] at ht
            cases ht
          · rw [← hstatic, Graph.static?, hr] at hds
            cases hds
            exact (hrd d hd).resolve_right (by simp)
      rcases hf s (hall s hs) with ht | ⟨r, hr, -⟩
      · rw [hs.not_loaded] at ht
        cases ht
      · have hc : g.awaitCode.1.contains s = true := by rw [Graph.contains, hr]; rfl
        rw [Graph.contains_awaitCode hg, hlack] at hc
        cases hc

end Assembly

end ScriptLoader
