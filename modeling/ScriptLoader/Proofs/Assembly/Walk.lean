import Mathlib.Data.List.Nodup
import Mathlib.Data.List.Perm.Subperm
import ScriptLoader.Assembly

/-!
# The walk of an assembly

An assembly walks from an entry along static dependencies. The walk is a recursion on fuel whose
path grows, inside of which the dependencies of a module are bound in turn; it has one shape however
it is looked at. That shape is stated once, and what holds of walks is proved by cases of it.

* `Assembly.Keeps`: loaded modules stay, and nothing on the path is loaded. Every walk keeps
  (`Assembly.keeps_loadRef`).
* `Assembly.Laws`: what two predicates have to satisfy, one on the visit of a dependency and one on
  the binding of several, so that they hold of every walk (`Assembly.loadRef_of_laws`). The fuel
  suffices as long as the path has records only and none twice.
* `Assembly.load_cases`: what loading an entry comes to.
-/

namespace ScriptLoader.Assembly

variable {F σ : Type}

/-! ## What walks keep -/

/-- Specifiers keep their slots, loaded modules stay as they are, and the slots of a path do not
change. -/
structure Keeps (path : List Specifier) (a b : Assembly F σ) : Prop where
  slot : ∀ t, b.registry.slot t = a.registry.slot t
  grows : ∀ t m, a.registry.get? t = some m → b.registry.get? t = some m
  path : ∀ t ∈ path, b.registry.get? t = a.registry.get? t

namespace Keeps

variable {path : List Specifier} {a b c : Assembly F σ}

theorem of_get?_eq (hs : ∀ t, b.registry.slot t = a.registry.slot t)
    (h : ∀ t, b.registry.get? t = a.registry.get? t) : Keeps path a b :=
  ⟨hs, fun t _ ht => (h t).trans ht, fun t _ => h t⟩

theorem of_registry_eq (h : b.registry = a.registry) : Keeps path a b :=
  of_get?_eq (fun _ => by rw [h]) fun _ => by rw [h]

theorem refl : Keeps path a a := of_registry_eq rfl

theorem trans (h : Keeps path a b) (k : Keeps path b c) : Keeps path a c :=
  ⟨fun t => (k.slot t).trans (h.slot t), fun t m ht => k.grows t m (h.grows t m ht),
    fun t ht => (k.path t ht).trans (h.path t ht)⟩

theorem of_cons {s : Specifier} (h : Keeps (s :: path) a b) : Keeps path a b :=
  ⟨h.slot, h.grows, fun t ht => h.path t (List.mem_cons_of_mem _ ht)⟩

theorem isLoaded (h : Keeps path a b) {t : Specifier} (ht : a.registry.isLoaded t = true) :
    b.registry.isLoaded t = true := by
  obtain ⟨m, hm⟩ := Registry.isLoaded_iff.1 ht
  exact Registry.isLoaded_iff.2 ⟨m, h.grows t m hm⟩

theorem allocate (s : Specifier) : Keeps path a (a.allocate s) :=
  of_get?_eq (Registry.slot_allocate a.registry s) (Registry.get?_allocate a.registry s)

theorem log (e : Log.Event) : Keeps path a (a.log e) := of_registry_eq rfl

theorem of_fill {s : Specifier} {m : LoadedModule F} (hs : s ∉ path)
    (h : b.registry = a.registry.fill s m) : Keeps path a b := by
  constructor
  · intro t
    rw [h, Registry.slot_fill]
  · intro t n ht
    rw [h]
    exact Registry.fill_get?_of_loaded ht
  · intro t ht
    have hne : t ≠ s := fun he => hs (he ▸ ht)
    rw [h, Registry.get?_fill, if_neg hne]

end Keeps

/-! ## Instantiating -/

/-- What instantiating can do: there is no code, the host fails, or a module fills its slot. -/
theorem instantiate_cases (host : Host F σ) (importer : Importer) (r : CompiledRecord)
    (scope : Scope F) (a : Assembly F σ) :
    (r.readyCode? = none ∧
      instantiate host importer r scope a = (.error (.notResolved r.specifier), a)) ∨
    ∃ compiled, r.readyCode? = some compiled ∧
      ((∃ e h b, host.instantiate a.registry (given importer r scope compiled) a.host =
          (.error e, h) ∧ instantiate host importer r scope a = (.error e, b) ∧
          b.registry = a.registry ∧ b.host = h) ∨
        ∃ exports h b m, host.instantiate a.registry (given importer r scope compiled) a.host =
          (.ok exports, h) ∧ instantiate host importer r scope a = (.ok (.loaded m), b) ∧
          m = (given importer r scope compiled).loaded exports ∧
          b.registry = a.registry.fill r.specifier m ∧ b.host = h) := by
  unfold instantiate
  cases hc : r.readyCode? with
  | none => exact Or.inl ⟨rfl, rfl⟩
  | some compiled =>
    refine Or.inr ⟨compiled, rfl, ?_⟩
    simp only [log]
    rcases host.instantiate a.registry (given importer r scope compiled) a.host with
      ⟨e | exports, h⟩
    · exact Or.inl ⟨e, h, _, rfl, rfl, rfl, rfl⟩
    · exact Or.inr ⟨exports, h, _, _, rfl, rfl, rfl, rfl, rfl⟩

theorem keeps_instantiate (host : Host F σ) (importer : Importer) {r : CompiledRecord}
    (scope : Scope F) (a : Assembly F σ) {path : List Specifier} (hr : r.specifier ∉ path) :
    Keeps path a (instantiate host importer r scope a).2 := by
  rcases instantiate_cases host importer r scope a with
    ⟨-, hi⟩ | ⟨_, -, ⟨_, _, b, -, hi, hb, -⟩ | ⟨_, _, b, m, -, hi, -, hb, -⟩⟩
  · rw [hi]
    exact .refl
  · rw [hi]
    exact .of_registry_eq hb
  · rw [hi]
    exact .of_fill hr hb

theorem keeps_bindAll {visit : Specifier → Assembly F σ → Outcome F σ (ModuleRef F)}
    {path : List Specifier} (hv : ∀ d a, Keeps path a (visit d a).2) (ds : List Specifier)
    (scope : Scope F) (a : Assembly F σ) : Keeps path a (bindAll visit ds scope a).2 := by
  induction ds generalizing scope a with
  | nil => exact .refl
  | cons d ds ih =>
    have hd := hv d a
    unfold bindAll
    generalize visit d a = x at hd ⊢
    rcases x with ⟨e | ref, b⟩
    · exact hd
    · exact hd.trans (ih _ _)

theorem keeps_loadRef (host : Host F σ) (importer : Importer) (g : Graph) (fuel : Nat)
    (path : List Specifier) (s : Specifier) (a : Assembly F σ) :
    Keeps path a (loadRef host importer g fuel path s a).2 := by
  induction fuel generalizing path s a with
  | zero => exact .refl
  | succ fuel ih =>
    unfold loadRef
    dsimp only
    split
    · exact .allocate s
    · split
      · exact (Keeps.allocate s).trans (.log _)
      · next hs =>
        have hs : s ∉ path := by simpa using hs
        split
        · exact .allocate s
        · next r hr =>
          have hname : r.specifier ∉ path := by rwa [Graph.specifier_of_get? hr]
          have hb := keeps_bindAll (fun d b => ih (s :: path) d b) r.report.static []
            (a.allocate s)
          generalize bindAll (loadRef host importer g fuel (s :: path)) r.report.static []
            (a.allocate s) = x at hb ⊢
          rcases x with ⟨e | scope, b⟩
          · exact (Keeps.allocate s).trans hb.of_cons
          · exact (Keeps.allocate s).trans
              (hb.of_cons.trans (keeps_instantiate host importer scope b hname))

/-! ## The shape of walks -/

section Laws

variable (host : Host F σ) (importer : Importer) (g : Graph)

/-- What holds of every walk on a graph, if it holds of each case: `Visit` of the dependency of the
first module of a path, and `Bind` of the dependencies that are bound one after the other. -/
structure Laws
    (Visit : List Specifier → Specifier → Assembly F σ → Outcome F σ (ModuleRef F) → Prop)
    (Bind : List Specifier → List Specifier → Scope F → Assembly F σ → Outcome F σ (Scope F) →
      Prop) : Prop where
  loaded {path : List Specifier} {s : Specifier} {a : Assembly F σ} {m : LoadedModule F} :
    a.registry.get? s = some m → Visit path s a (.ok (.loaded m), a.allocate s)
  forwarded {path : List Specifier} {s : Specifier} {a : Assembly F σ} :
    a.registry.get? s = none → s ∈ path →
    Visit path s a (.ok (.forwarded ⟨s, path.headD s, a.registry.slot s⟩),
      (a.allocate s).log (.circularImport s (path.headD s)))
  missing {path : List Specifier} {s : Specifier} {a : Assembly F σ} :
    a.registry.get? s = none → s ∉ path → g.get? s = none →
    Visit path s a (.error (.notResolved s), a.allocate s)
  failed {path : List Specifier} {s : Specifier} {a b : Assembly F σ} {r : CompiledRecord}
    {e : LoadError} : a.registry.get? s = none → s ∉ path → g.get? s = some r →
    Bind (s :: path) r.report.static [] (a.allocate s) (.error e, b) → Visit path s a (.error e, b)
  bound {path : List Specifier} {s : Specifier} {a b : Assembly F σ} {r : CompiledRecord}
    {scope : Scope F} : a.registry.get? s = none → s ∉ path → g.get? s = some r →
    Keeps (s :: path) a b → Bind (s :: path) r.report.static [] (a.allocate s) (.ok scope, b) →
    Visit path s a (instantiate host importer r scope b)
  nil {path : List Specifier} {scope : Scope F} {a : Assembly F σ} :
    Bind path [] scope a (.ok scope, a)
  stop {path ds : List Specifier} {d : Specifier} {scope : Scope F} {a b : Assembly F σ}
    {e : LoadError} : Visit path d a (.error e, b) → Bind path (d :: ds) scope a (.error e, b)
  next {path ds : List Specifier} {d : Specifier} {scope : Scope F} {a b : Assembly F σ}
    {ref : ModuleRef F} {x : Outcome F σ (Scope F)} : Keeps path a b → Keeps path b x.2 →
    Visit path d a (.ok ref, b) → Bind path ds (Keyed.put d ref scope) b x →
    Bind path (d :: ds) scope a x

variable {host importer g}
  {Visit : List Specifier → Specifier → Assembly F σ → Outcome F σ (ModuleRef F) → Prop}
  {Bind : List Specifier → List Specifier → Scope F → Assembly F σ → Outcome F σ (Scope F) → Prop}

theorem bindAll_of_laws (L : Laws host importer g Visit Bind) {path : List Specifier}
    {visit : Specifier → Assembly F σ → Outcome F σ (ModuleRef F)}
    (hk : ∀ d a, Keeps path a (visit d a).2) (hv : ∀ d a, Visit path d a (visit d a))
    (ds : List Specifier) (scope : Scope F) (a : Assembly F σ) :
    Bind path ds scope a (bindAll visit ds scope a) := by
  induction ds generalizing scope a with
  | nil => exact L.nil
  | cons d ds ih =>
    have hkd := hk d a
    have hd := hv d a
    unfold bindAll
    generalize visit d a = x at hkd hd ⊢
    rcases x with ⟨e | ref, b⟩
    · exact L.stop hd
    · exact L.next hkd (keeps_bindAll hk _ _ _) hd (ih _ _)

/-- Whatever satisfies the laws of walks holds of every walk whose fuel exceeds the number of
records that are not on its path. -/
theorem loadRef_of_laws (L : Laws host importer g Visit Bind) (fuel : Nat)
    {path : List Specifier} (hnodup : path.Nodup) (hsub : path ⊆ g.specifiers)
    (hfuel : g.size < fuel + path.length) (s : Specifier) (a : Assembly F σ) :
    Visit path s a (loadRef host importer g fuel path s a) := by
  induction fuel generalizing path s a with
  | zero =>
    have hle := (List.subperm_of_subset hnodup hsub).length_le
    simp only [Graph.specifiers, List.length_map] at hle
    simp only [Graph.size] at hfuel
    omega
  | succ fuel ih =>
    unfold loadRef
    dsimp only
    have hget : (a.allocate s).registry.get? s = a.registry.get? s :=
      Registry.get?_allocate a.registry s s
    have hslot : (a.allocate s).registry.slot s = a.registry.slot s :=
      Registry.slot_allocate a.registry s s
    rw [hget, hslot]
    split
    · next m hm => exact L.loaded hm
    · next hn =>
      split
      · next hs => exact L.forwarded hn (by simpa using hs)
      · next hs =>
        have hs : s ∉ path := by simpa using hs
        split
        · next hg => exact L.missing hn hs hg
        · next r hr =>
          have hmem : s ∈ g.specifiers := Graph.contains_iff.1 (by simp [Graph.contains, hr])
          have hk : ∀ d b, Keeps (s :: path) b (loadRef host importer g fuel (s :: path) d b).2 :=
            fun d b => keeps_loadRef host importer g fuel (s :: path) d b
          have hv : ∀ d b, Visit (s :: path) d b (loadRef host importer g fuel (s :: path) d b) :=
            fun d b => ih (List.nodup_cons.2 ⟨hs, hnodup⟩) (List.cons_subset.2 ⟨hmem, hsub⟩)
              (by simp only [List.length_cons]; omega) d b
          have hkb := keeps_bindAll hk r.report.static [] (a.allocate s)
          have hb := bindAll_of_laws L hk hv r.report.static [] (a.allocate s)
          generalize bindAll (loadRef host importer g fuel (s :: path)) r.report.static []
            (a.allocate s) = x at hkb hb ⊢
          rcases x with ⟨e | scope, b⟩
          · exact L.failed hn hs hr hb
          · exact L.bound hn hs hr ((Keeps.allocate s).trans hkb) hb

end Laws

/-! ## Loading -/

/-- A reference that a walk returns is the loaded module, or its module is on the path. -/
theorem loadRef_ok {host : Host F σ} {importer : Importer} {g : Graph} {fuel : Nat}
    {path : List Specifier} {s : Specifier} {a : Assembly F σ} {ref : ModuleRef F}
    (h : (loadRef host importer g fuel path s a).1 = .ok ref) :
    (∃ m, ref = .loaded m ∧
      (loadRef host importer g fuel path s a).2.registry.get? s = some m) ∨ s ∈ path := by
  cases fuel with
  | zero => cases h
  | succ fuel =>
    unfold loadRef at h ⊢
    dsimp only at h ⊢
    split at h
    · next m hm =>
      cases h
      exact Or.inl ⟨m, rfl, hm⟩
    · next hn =>
      split at h
      · next hs => exact Or.inr (by simpa using hs)
      · next hs =>
        have hs : s ∉ path := by simpa using hs
        rw [if_neg (by simpa using hs)]
        split at h
        · cases h
        · next r hr =>
          have hk := keeps_bindAll
            (fun d b => keeps_loadRef host importer g fuel (s :: path) d b) r.report.static []
            (a.allocate s)
          generalize bindAll (loadRef host importer g fuel (s :: path)) r.report.static []
            (a.allocate s) = x at h hk ⊢
          rcases x with ⟨e | scope, b⟩
          · cases h
          · have hb : b.registry.get? s = none := (hk.path s List.mem_cons_self).trans hn
            have hname := Graph.specifier_of_get? hr
            rcases instantiate_cases host importer r scope b with
              ⟨-, hi⟩ | ⟨_, -, ⟨_, _, _, -, hi, -, -⟩ | ⟨_, _, c, m, -, hi, -, hc, -⟩⟩
            · simp [hi] at h
            · simp [hi] at h
            · simp only [hi, Except.ok.injEq] at h ⊢
              refine Or.inl ⟨m, h.symm, ?_⟩
              rw [hc, hname, Registry.get?_fill, if_pos rfl, hb, Option.none_or]

/-- What the walk of an assembly is: from an entry, with all code there. -/
def walk (host : Host F σ) (importer : Importer) (g : Graph) (entry : Specifier)
    (a : Assembly F σ) : Outcome F σ (ModuleRef F) :=
  loadRef host importer g.awaitCode.1 (g.awaitCode.1.size + 1) [] entry a

/-- What loading can do: some code failed, the walk fails, or the entry is loaded. -/
theorem load_cases (host : Host F σ) (importer : Importer) (g : Graph) (entry : Specifier)
    (a : Assembly F σ) :
    (∃ e, g.awaitCode.2 = .error e ∧ load host importer g entry a = (.error e, a)) ∨
    g.awaitCode.2 = .ok () ∧
      ((∃ e b, walk host importer g entry a = (.error e, b) ∧
          load host importer g entry a = (.error e, b)) ∨
        ∃ m b, walk host importer g entry a = (.ok (.loaded m), b) ∧
          b.registry.get? entry = some m ∧ load host importer g entry a = (.ok m, b)) := by
  unfold load walk
  rcases g.awaitCode with ⟨g, e | ⟨⟩⟩
  · exact Or.inl ⟨e, rfl, rfl⟩
  · refine Or.inr ⟨rfl, ?_⟩
    dsimp only
    have hok : ∀ ref, (loadRef host importer g (g.size + 1) [] entry a).1 = .ok ref →
        (∃ m, ref = .loaded m ∧
          (loadRef host importer g (g.size + 1) [] entry a).2.registry.get? entry = some m) ∨
            entry ∈ [] := fun _ => loadRef_ok
    generalize loadRef host importer g (g.size + 1) [] entry a = x at hok ⊢
    rcases x with ⟨e | ref, b⟩
    · exact Or.inl ⟨e, b, rfl, rfl⟩
    · rcases hok ref rfl with ⟨m, rfl, hm⟩ | hmem
      · exact Or.inr ⟨m, b, rfl, hm, rfl⟩
      · cases hmem

theorem keeps_load (host : Host F σ) (importer : Importer) (g : Graph) (entry : Specifier)
    (a : Assembly F σ) : Keeps [] a (load host importer g entry a).2 := by
  have hk : Keeps [] a (walk host importer g entry a).2 := keeps_loadRef _ _ _ _ _ _ _
  rcases load_cases host importer g entry a with
    ⟨e, -, hl⟩ | ⟨-, ⟨e, b, hw, hl⟩ | ⟨m, b, hw, -, hl⟩⟩
  · rw [hl]
    exact .refl
  · rw [hw] at hk
    rwa [hl]
  · rw [hw] at hk
    rwa [hl]

theorem get?_of_load_ok {host : Host F σ} {importer : Importer} {g : Graph} {entry : Specifier}
    {a : Assembly F σ} {m : LoadedModule F} (h : (load host importer g entry a).1 = .ok m) :
    (load host importer g entry a).2.registry.get? entry = some m := by
  rcases load_cases host importer g entry a with
    ⟨e, -, hl⟩ | ⟨-, ⟨e, b, -, hl⟩ | ⟨n, b, -, hn, hl⟩⟩
  · simp [hl] at h
  · simp [hl] at h
  · simp only [hl, Except.ok.injEq] at h ⊢
    rw [hn, h]

/-- Whatever satisfies the laws of walks holds of the walk from an entry. -/
theorem walk_of_laws {host : Host F σ} {importer : Importer} {g : Graph}
    {Visit : List Specifier → Specifier → Assembly F σ → Outcome F σ (ModuleRef F) → Prop}
    {Bind : List Specifier → List Specifier → Scope F → Assembly F σ → Outcome F σ (Scope F) →
      Prop} (L : Laws host importer g.awaitCode.1 Visit Bind) (entry : Specifier)
    (a : Assembly F σ) : Visit [] entry a (walk host importer g entry a) :=
  loadRef_of_laws L _ List.nodup_nil (by simp) (by simp) entry a

end ScriptLoader.Assembly
