import ScriptLoader.Host.Script
import ScriptLoader.Proofs.Assembly.Walk
import ScriptLoader.Proofs.Graph.Records
import ScriptLoader.Proofs.Module.Chains

/-!
# Names that modules export again

A module may export what it took from a dependency. If the dependency is still loading then, that is
a deferred name, and following it leads to the dependency. So a chain of deferred names runs along
static dependencies; it is without an end only where modules that depend on each other export each
other's names in a circle.

* `Host.Reexports`: the hosts whose modules export values, functions and what they take from their
  dependencies. The scripted host is one of them (`Script.host_reexports`).
* `Assembly.Along`: deferred names lead along dependencies. Loading keeps this
  (`Assembly.along_load`).
* `Assembly.following_ends_unless_circular`: behind any loading, following or calling an export ends
  unless its chain runs into a circle of modules that depend on themselves; then no number of hops
  suffices.
-/

namespace ScriptLoader

variable {F σ : Type}

/-- A binding is none that is deferred, or was taken from a dependency in the scope. -/
def Scope.Offers (scope : Scope F) (r : Registry F) (b : Binding F) : Prop :=
  ∀ stub name, b = .deferred stub name →
    ∃ d ref taken, Keyed.get? d scope = some ref ∧ r.export? ref taken = some b

/-- A host whose modules export values, functions, and what they take from their dependencies. -/
def Host.Reexports (host : Host F σ) : Prop :=
  ∀ r m h exports k, host.instantiate r m h = (.ok exports, k) →
    ∀ name b, Keyed.get? name exports = some b → m.scope.Offers r b

theorem Scope.offers_value (scope : Scope F) (r : Registry F) (v : Json) :
    scope.Offers r (.value v) := by
  rintro _ _ ⟨⟩

theorem Scope.offers_function (scope : Scope F) (r : Registry F) (f : F) :
    scope.Offers r (.function f) := by
  rintro _ _ ⟨⟩

/-! ## The scripted host -/

namespace Script

variable {r : Registry Callable} {m : HostModule Callable}

/-- What a running script holds and exports are values, functions and what it took. -/
structure Run.Took (r : Registry Callable) (m : HostModule Callable) (run : Run) : Prop where
  held : ∀ v b, run.held.get? v = some b → m.scope.Offers r b
  exports : ∀ name b, Keyed.get? name run.exports = some b → m.scope.Offers r b

theorem offers_of_get?_put {t : Keyed String (Binding Callable)} {k : String}
    {b : Binding Callable} (ht : ∀ j c, t.get? j = some c → m.scope.Offers r c)
    (hb : m.scope.Offers r b) : ∀ j c, (t.put k b).get? j = some c → m.scope.Offers r c := by
  intro j c hc
  rw [Keyed.get?_put] at hc
  split at hc
  · cases hc
    exact hb
  · exact ht j c hc

theorem offers_of_mem_declared {code : String} {p : String × Binding Callable}
    (hp : p ∈ declaredExports code) : m.scope.Offers r p.2 := by
  obtain ⟨⟨_, v⟩, -, rfl⟩ := List.mem_map.1 hp
  exact Scope.offers_value _ _ v

theorem offers_of_putAll {items t : Exports Callable} (hi : ∀ p ∈ items, m.scope.Offers r p.2)
    (ht : ∀ j c, Keyed.get? j t = some c → m.scope.Offers r c) :
    ∀ j c, Keyed.get? j (Keyed.putAll items t) = some c → m.scope.Offers r c := by
  unfold Keyed.putAll
  induction items generalizing t with
  | nil => exact ht
  | cons p items ih =>
    exact ih (fun q hq => hi q (List.mem_cons_of_mem _ hq))
      (offers_of_get?_put ht (hi p List.mem_cons_self))

theorem Run.Took.runAction {env : Environment} {runs : Nat} {run : Run} (h : run.Took r m)
    (hr : env.registry = r) (href : ∀ d, env.reference? d = m.scope.get? ⟨d⟩) (action : Action) :
    (runAction env m runs run action).2.Took r m := by
  cases action with
  | scope => exact h
  | code => exact h
  | capture => exact h
  | unknown => exact h
  | fail message times =>
    simp only [Script.runAction]
    split <;> exact h
  | current v =>
    simp only [Script.runAction]
    split <;> exact h
  | callVariable v args =>
    simp only [Script.runAction]
    split <;> exact h
  | callExport d name args =>
    simp only [Script.runAction]
    split <;> exact h
  | exports d =>
    simp only [Script.runAction]
    split <;> exact h
  | take d name target =>
    simp only [Script.runAction]
    split
    · exact h
    · next ref hd =>
      split
      · next v b hb =>
        have hoffers : m.scope.Offers r b := by
          intro stub inner hstub
          exact ⟨⟨d⟩, ref, name, (href d).symm.trans hd, hr ▸ hb⟩
        exact ⟨offers_of_get?_put h.held hoffers, h.exports⟩
      · exact h
  | exportValue name v => exact ⟨h.held, offers_of_get?_put h.exports (Scope.offers_value _ _ v)⟩
  | exportVariable name v =>
    simp only [Script.runAction]
    split
    · exact h
    · next b hb => exact ⟨h.held, offers_of_get?_put h.exports (h.held v b hb)⟩
  | exportFunction name f =>
    exact ⟨h.held, offers_of_get?_put h.exports (Scope.offers_function _ _ _)⟩
  | declared => exact ⟨h.held, offers_of_putAll (fun _ => offers_of_mem_declared) h.exports⟩

theorem offers_of_runSteps {env : Environment} (hr : env.registry = r)
    (href : ∀ d, env.reference? d = m.scope.get? ⟨d⟩) {runs : Nat} {steps : List Step} {run : Run}
    {st k : State} {exports : Exports Callable} (h : run.Took r m)
    (he : runSteps env m runs steps run st = (.ok exports, k)) :
    ∀ name b, Keyed.get? name exports = some b → m.scope.Offers r b := by
  induction steps generalizing run st with
  | nil =>
    cases he
    exact h.exports
  | cons step steps ih =>
    have hrun : (runAction env m runs run step.action).2.Took r m :=
      h.runAction hr href step.action
    simp only [runSteps] at he
    generalize runAction env m runs run step.action = x at hrun he
    rcases x with ⟨e | v, next⟩
    · dsimp only at he
      split at he
      · exact ih hrun he
      · cases he
    · exact ih hrun he

/-- The modules of the scripted host export values, functions and what they took. -/
theorem host_reexports : host.Reexports := by
  intro r m h exports k he
  unfold host instantiate at he
  dsimp only at he
  split at he
  · cases he
    exact fun name b hb => offers_of_mem_declared (Keyed.mem_of_get? hb)
  · exact offers_of_runSteps rfl (fun _ => rfl) ⟨by simp [Keyed.get?], by simp [Keyed.get?]⟩ he

end Script

namespace Assembly

variable {host : Host F σ} {importer : Importer} {g : Graph} {a b : Assembly F σ}
  {D : Specifier → Specifier → Prop}

/-! ## Deferred names lead along dependencies -/

/-- Every deferred name that a module exports leads to the slot of a module that it depends on. -/
def Along (D : Specifier → Specifier → Prop) (r : Registry F) : Prop :=
  ∀ s name y, r.Hop (r.slot s, name) y → ∃ t, y.1 = r.slot t ∧ Relation.TransGen D s t

/-- A reference to the module `s`: the loaded one, or a stub that holds its slot. -/
def Names (r : Registry F) (s : Specifier) : ModuleRef F → Prop
  | .loaded m => r.get? s = some m
  | .forwarded stub => stub.slot = r.slot s

theorem Names.of_keeps {path : List Specifier} (hk : Keeps path a b) {s : Specifier}
    {ref : ModuleRef F} (h : Names a.registry s ref) : Names b.registry s ref := by
  cases ref with
  | loaded m => exact hk.grows s m h
  | forwarded stub => exact h.trans (hk.slot s).symm

theorem Along.of_held?_eq {r q : Registry F} (h : Along D r) (hs : ∀ s, q.slot s = r.slot s)
    (hq : ∀ n, q.held? n = r.held? n) : Along D q := by
  rintro s name y ⟨stub, hb, hy⟩
  rw [Registry.binding?, hq, hs] at hb
  obtain ⟨t, ht, hst⟩ := h s name y ⟨stub, hb, hy⟩
  exact ⟨t, ht.trans (hs t).symm, hst⟩

theorem Along.allocate (h : Along D a.registry) (s : Specifier) :
    Along D (a.allocate s).registry :=
  h.of_held?_eq (Registry.slot_allocate a.registry s) (Registry.held?_allocate a.registry s)

/-- What is taken from a dependency leads to it, or further on. -/
theorem Along.export {r : Registry F} (h : Along D r) {s d : Specifier} {ref : ModuleRef F}
    (hsd : D s d) (href : Names r d ref) {taken : String} {stub : Stub} {name : String}
    (he : r.export? ref taken = some (.deferred stub name)) :
    ∃ t, stub.slot = r.slot t ∧ Relation.TransGen D s t := by
  have further : ∀ m, r.held? (r.slot d) = some m → m.get? taken = some (.deferred stub name) →
      ∃ t, stub.slot = r.slot t ∧ Relation.TransGen D s t := by
    intro m hm hb
    have hhop : r.Hop (r.slot d, taken) (stub.slot, name) :=
      ⟨stub, by rwa [Registry.binding?_of_held? hm], rfl⟩
    obtain ⟨t, ht, hdt⟩ := h d taken _ hhop
    exact ⟨t, ht, .head hsd hdt⟩
  cases ref with
  | loaded m => exact further m ((r.get?_eq_held? d).symm.trans href) he
  | forwarded other =>
    have hslot : other.slot = r.slot d := href
    cases hm : r.held? other.slot with
    | some m =>
      simp only [Registry.export?, hm] at he
      exact further m (hslot ▸ hm) he
    | none =>
      simp only [Registry.export?, hm, Option.some.injEq, Binding.deferred.injEq] at he
      exact ⟨d, he.1 ▸ hslot, .single hsd⟩

/-- A module that exports what its dependencies offer fills its slot. -/
theorem Along.fill {r : Registry F} (h : Along D r) {s : Specifier} {m : LoadedModule F}
    {scope : Scope F} (hscope : ∀ d ref, Keyed.get? d scope = some ref → D s d ∧ Names r d ref)
    (hm : ∀ name b, m.get? name = some b → scope.Offers r b) : Along D (r.fill s m) := by
  rintro t name y ⟨stub, hb, hy⟩
  rw [Registry.slot_fill] at hb
  obtain ⟨n, hn, hb⟩ := Option.bind_eq_some_iff.1 hb
  dsimp only at hn hb
  simp only [Registry.held?_fill, Registry.slot_inj] at hn
  simp only [Registry.slot_fill]
  have old : r.held? (r.slot t) = some n → ∃ u, y.1 = r.slot u ∧ Relation.TransGen D t u :=
    fun hn => h t name y ⟨stub, by rwa [Registry.binding?_of_held? hn], hy⟩
  split at hn
  · next ht =>
    subst ht
    cases hr : r.held? (r.slot t) with
    | some q =>
      rw [hr, Option.some_or] at hn
      exact old (hr.trans hn)
    | none =>
      rw [hr, Option.none_or] at hn
      cases hn
      obtain ⟨d, ref, taken, hd, he⟩ := hm name _ hb stub y.2 rfl
      obtain ⟨hsd, href⟩ := hscope d ref hd
      rw [← hy]
      exact h.export hsd href he
  · exact old hn

/-- A chain from an export leads to the slots of modules that the exporting module reaches. -/
theorem Along.reaches {r : Registry F} (h : Along D r) {s : Specifier} {name : String}
    {z : Slot × String} (hz : Relation.ReflTransGen r.Hop (r.slot s, name) z) :
    ∃ t, z.1 = r.slot t ∧ Relation.ReflTransGen D s t := by
  induction hz with
  | refl => exact ⟨s, rfl, .refl⟩
  | @tail y z _ hyz ih =>
    obtain ⟨t, ht, hst⟩ := ih
    obtain ⟨u, hu, htu⟩ := h t y.2 z (ht ▸ hyz)
    exact ⟨u, hu, hst.trans htu.to_reflTransGen⟩

/-- A circle of exports of a module is one of dependencies. -/
theorem Along.circle {r : Registry F} (h : Along D r) {s : Specifier} {name : String}
    (hs : Relation.TransGen r.Hop (r.slot s, name) (r.slot s, name)) :
    Relation.TransGen D s s := by
  obtain ⟨y, hy, hys⟩ := Relation.TransGen.head'_iff.1 hs
  obtain ⟨t, ht, hst⟩ := h s name y hy
  obtain ⟨tslot, inner⟩ := y
  cases ht
  obtain ⟨u, hu, htu⟩ := h.reaches hys
  obtain rfl : s = u := Registry.slot_inj.1 hu
  exact hst.trans_left htu

theorem Along.instantiate (hh : host.Reexports) {r : CompiledRecord} {scope : Scope F}
    (h : Along D a.registry)
    (hscope : ∀ d ref, Keyed.get? d scope = some ref → D r.specifier d ∧ Names a.registry d ref) :
    Along D (instantiate host importer r scope a).2.registry := by
  rcases instantiate_cases host importer r scope a with
    ⟨-, hi⟩ | ⟨_, -, ⟨_, _, b, -, hi, hb, -⟩ | ⟨exports, k, b, m, hc, hi, hm, hb, -⟩⟩
  · rwa [hi]
  · rwa [hi, hb]
  · rw [hi, hb]
    refine h.fill hscope fun name bound hname => ?_
    rw [hm] at hname
    unfold HostModule.loaded LoadedModule.get? at hname
    dsimp only at hname
    split at hname
    · exact hh _ _ _ _ _ hc name bound hname
    · cases hname

/-- A scope names the dependencies that were bound so far, `ds` of them. -/
def Binds (r : Registry F) (ds : List Specifier) (scope : Scope F) : Prop :=
  ∀ d ref, Keyed.get? d scope = some ref → d ∈ ds ∧ Names r d ref

theorem along_laws (hh : host.Reexports) (importer : Importer)
    (hg : ∀ s r, g.get? s = some r → ∀ d ∈ r.report.static, D s d) :
    Laws host importer g
      (fun _ s a x => Along D a.registry → Along D x.2.registry ∧
        ∀ ref, x.1 = .ok ref → Names x.2.registry s ref)
      (fun _ ds scope a x => Along D a.registry → ∀ before, Binds a.registry before scope →
        Along D x.2.registry ∧
          ∀ bound, x.1 = .ok bound → Binds x.2.registry (before ++ ds) bound) where
  loaded {path s a m} hm h := by
    refine ⟨h.allocate s, ?_⟩
    rintro _ ⟨⟩
    exact (Registry.get?_allocate a.registry s s).trans hm
  forwarded {path s a} _ _ h := by
    refine ⟨h.allocate s, ?_⟩
    rintro _ ⟨⟩
    exact (Registry.slot_allocate a.registry s s).symm
  missing _ _ _ h := ⟨h.allocate _, by rintro _ ⟨⟩⟩
  failed {path s a b r e} _ _ _ hb h := by
    obtain ⟨hb, -⟩ := hb (h.allocate s) [] (by rintro _ _ ⟨⟩)
    exact ⟨hb, by rintro _ ⟨⟩⟩
  bound {path s a b r scope} hn _ hr hk hb h := by
    obtain ⟨halong, hbinds⟩ := hb (h.allocate s) [] (by rintro _ _ ⟨⟩)
    have hname := Graph.specifier_of_get? hr
    refine ⟨halong.instantiate hh fun d ref hd => ?_, fun ref href => ?_⟩
    · obtain ⟨hmem, href⟩ := hbinds scope rfl d ref hd
      exact ⟨hname ▸ hg s r hr d hmem, href⟩
    · have hs : b.registry.get? s = none := (hk.path s List.mem_cons_self).trans hn
      rcases instantiate_cases host importer r scope b with
        ⟨-, hi⟩ | ⟨_, -, ⟨_, _, _, -, hi, -⟩ | ⟨_, _, c, m, -, hi, -, hc, -⟩⟩
      · simp [hi] at href
      · simp [hi] at href
      · rw [hi] at href ⊢
        cases href
        change c.registry.get? s = some m
        rw [hc, hname, Registry.get?_fill, if_pos rfl, hs, Option.none_or]
  nil {path scope a} h before hscope := by
    refine ⟨h, ?_⟩
    rintro _ ⟨⟩
    rwa [List.append_nil]
  stop hv h _ _ := ⟨(hv h).1, by rintro _ ⟨⟩⟩
  next {path ds d scope a b ref x} hkb hkx hv hb h before hscope := by
    obtain ⟨halong, href⟩ := hv h
    have hput : Binds b.registry (before ++ [d]) (Keyed.put d ref scope) := by
      intro j other hj
      rw [Keyed.get?_put] at hj
      split at hj
      · next hjd =>
        cases hj
        exact ⟨by simp [hjd], hjd ▸ href ref rfl⟩
      · obtain ⟨hmem, hother⟩ := hscope j other hj
        exact ⟨List.mem_append_left _ hmem, hother.of_keeps hkb⟩
    have := hb halong (before ++ [d]) hput
    rwa [List.append_assoc] at this

theorem along_load (hh : host.Reexports) {entry : Specifier}
    (hg : ∀ s r, g.get? s = some r → ∀ d ∈ r.report.static, D s d) (h : Along D a.registry) :
    Along D (load host importer g entry a).2.registry := by
  rcases load_cases host importer g entry a with
    ⟨e, -, hl⟩ | ⟨hok, hcases⟩
  · rwa [hl]
  · have hg' : ∀ s r, g.awaitCode.1.get? s = some r → ∀ d ∈ r.report.static, D s d := by
      intro s r hr
      rw [Graph.get?_awaitCode (Graph.awaitCode_ok_iff.1 hok)] at hr
      obtain ⟨q, hq, rfl⟩ := Option.map_eq_some_iff.1 hr
      exact hg s q hq
    have hw := (walk_of_laws (along_laws hh importer hg') entry a h).1
    rcases hcases with ⟨e, b, hb, hl⟩ | ⟨m, b, hb, -, hl⟩
    · rw [hb] at hw
      rwa [hl]
    · rw [hb] at hw
      rwa [hl]

/-! ## Loading from several graphs -/

/-- An entry and the graph that it is loaded from. -/
structure Loading where
  graph : Graph
  entry : Specifier
  importer : Importer := {}

/-- Loads one entry after the other, those that fail included. -/
def loadAll (host : Host F σ) (a : Assembly F σ) (loadings : List Loading) : Assembly F σ :=
  loadings.foldl (fun a l => (load host l.importer l.graph l.entry a).2) a

/-- The module `s` depends statically on `d`, by its record in one of the graphs. -/
def DependsIn (loadings : List Loading) (s d : Specifier) : Prop :=
  ∃ l ∈ loadings, ∃ r, l.graph.get? s = some r ∧ d ∈ r.report.static

theorem along_loadAll (hh : host.Reexports) {loadings : List Loading}
    (hD : ∀ s d, DependsIn loadings s d → D s d) (h : Along D a.registry) :
    Along D (a.loadAll host loadings).registry := by
  unfold loadAll
  induction loadings generalizing a with
  | nil => exact h
  | cons l loadings ih =>
    refine ih (fun s d hd => hD s d ?_) (along_load hh (fun s r hr d hd => hD s d ?_) h)
    · obtain ⟨k, hk, hr⟩ := hd
      exact ⟨k, List.mem_cons_of_mem _ hk, hr⟩
    · exact ⟨l, List.mem_cons_self, r, hr, hd⟩

/-- Behind any loading into a registry that was empty, with a host whose modules export values,
functions and what they take from their dependencies: what an export stands for is found, and a
call of it gets to its end, unless the chain of deferred names from it runs into a circle; there is
no answer then, however many hops are allowed. The circle runs through slots of modules that the
exporting module reaches, and that depend on themselves. -/
theorem following_ends_unless_circular (hh : host.Reexports)
    (hnew : ∀ s, a.registry.get? s = none) (loadings : List Loading) {s : Specifier}
    {m : LoadedModule F} {name : String} {bound : Binding F}
    (hm : (a.loadAll host loadings).registry.get? s = some m) (hb : m.get? name = some bound) :
    let r := (a.loadAll host loadings).registry
    let Reaches := Relation.ReflTransGen (DependsIn loadings)
    (r.current bound = none ↔ r.Circular (r.slot s, name)) ∧
    (r.current bound = none ↔ ∀ hops, r.currentWithin hops bound = none) ∧
    (∀ (α : Type) (apply : F → Except LoadError α),
      (r.call apply m name = none ↔ r.Circular (r.slot s, name)) ∧
      (r.call apply m name = none ↔ ∀ hops, r.callWithin apply hops m name = none) ∧
      ∀ stub inner, bound = .deferred stub inner →
        (r.callDeferred apply stub inner = none ↔ r.Circular (r.slot s, name))) ∧
    (r.Circular (r.slot s, name) → ∃ t inner,
      Relation.ReflTransGen r.Hop (r.slot s, name) (r.slot t, inner) ∧
      Relation.TransGen r.Hop (r.slot t, inner) (r.slot t, inner) ∧ Reaches s t ∧
      Relation.TransGen (DependsIn loadings) t t) := by
  intro r Reaches
  have hheld : r.held? (r.slot s) = some m := (r.get?_eq_held? s).symm.trans hm
  have hbound : r.binding? (r.slot s, name) = some bound := by
    rw [Registry.binding?_of_held? hheld, hb]
  have hfollow : ∀ stub inner, bound = .deferred stub inner →
      (r.Circular (stub.slot, inner) ↔ r.Circular (r.slot s, name)) := by
    rintro stub inner rfl
    exact (Registry.circular_iff_of_hop ⟨stub, hbound, rfl⟩).symm
  refine ⟨?_, Registry.current_eq_none_iff_forall, fun α apply => ⟨?_, ?_, ?_⟩, ?_⟩
  · rw [Registry.current_eq_none_iff]
    constructor
    · rintro ⟨stub, inner, hs, hc⟩
      exact (hfollow stub inner hs).1 hc
    · intro hc
      obtain ⟨⟨t, inner⟩, ⟨stub, hx, rfl⟩, hc⟩ := hc.exists_hop
      rw [hbound] at hx
      exact ⟨stub, inner, Option.some.inj hx, hc⟩
  · exact Registry.call_eq_none_iff hheld
  · exact ⟨fun h => ((Registry.call_eq_none_iff hheld).1 h).callWithin_eq_none hheld,
      fun h => h _⟩
  · exact fun stub inner hs => Registry.callDeferred_eq_none_iff.trans (hfollow stub inner hs)
  · rintro ⟨⟨n, inner⟩, hst, ht⟩
    have halong : Along (DependsIn loadings) r := by
      refine along_loadAll hh (fun _ _ => id) ?_
      rintro t inner y ⟨stub, hx, -⟩
      simp [Registry.binding?, ← Registry.get?_eq_held?, hnew] at hx
    obtain ⟨t, rfl, hreach⟩ := halong.reaches hst
    exact ⟨t, inner, hst, ht, hreach, halong.circle ht⟩

/-- Two modules that import each other, and of which each exports the other one's `x` again. -/
def echo : Loading where
  graph :=
    { entries := [⟨"/a"⟩]
      records :=
        [{ specifier := ⟨"/a"⟩, location := "/a.ts"
           report := { isModule := true, static := [⟨"/b"⟩] }
           outcome := .ok "export \x7b x \x7d from './b';" },
         { specifier := ⟨"/b"⟩, location := "/b.ts"
           report := { isModule := true, static := [⟨"/a"⟩] }
           outcome := .ok "export \x7b x \x7d from './a';" }] }
  entry := ⟨"/a"⟩

/-- Before anything is loaded, with what the two modules do. -/
def silence : Assembly Script.Callable Script.State where
  host :=
    { scripts :=
        [("/a", [⟨.take "/b" "x" (some "x"), false⟩, ⟨.exportVariable "x" "x", false⟩]),
         ("/b", [⟨.take "/a" "x" (some "x"), false⟩, ⟨.exportVariable "x" "x", false⟩])] }

/-- Both modules load, and `x` of `/a` stands for itself: there is no end to following or calling
it. -/
theorem echo_has_no_end :
    (load Script.host echo.importer echo.graph echo.entry silence).1.isOk = true ∧
    ∃ m bound, (silence.loadAll Script.host [echo]).registry.get? ⟨"/a"⟩ = some m ∧
      m.get? "x" = some bound ∧
      (silence.loadAll Script.host [echo]).registry.current bound = none ∧
      ∀ (α : Type) (apply : Script.Callable → Except LoadError α),
        (silence.loadAll Script.host [echo]).registry.call apply m "x" = none := by
  have hload : (load Script.host echo.importer echo.graph echo.entry silence).1.isOk = true := by
    decide +kernel
  have hx : (silence.loadAll Script.host [echo]).registry.binding? (⟨⟨"/a"⟩, 0⟩, "x") =
      some (.deferred ⟨⟨"/a"⟩, ⟨"/b"⟩, ⟨⟨"/a"⟩, 0⟩⟩ "x") := by rfl
  obtain ⟨m, hm, hb⟩ := Option.bind_eq_some_iff.1 hx
  obtain ⟨hcurrent, -, hcall, -⟩ := following_ends_unless_circular Script.host_reexports
    (fun _ => rfl) [echo] ((Registry.get?_eq_held? _ ⟨"/a"⟩).trans hm) hb
  have hcircle : (silence.loadAll Script.host [echo]).registry.Circular (⟨⟨"/a"⟩, 0⟩, "x") :=
    ⟨(⟨⟨"/a"⟩, 0⟩, "x"), .refl, .single ⟨_, hx, rfl⟩⟩
  exact ⟨hload, m, _, hm, hb, hcurrent.2 hcircle, fun α apply => (hcall α apply).1.2 hcircle⟩

end Assembly

end ScriptLoader
