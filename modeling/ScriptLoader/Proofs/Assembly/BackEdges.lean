import ScriptLoader.Proofs.Assembly.Stubs
import ScriptLoader.Proofs.Module.Slots

/-!
# Back edges of a walk

While a walk is inside of a module, it is inside of all modules that wait for this one, up to the
entry. A static dependency that leads back to one of them is a back edge; its importer is given a
stub, and any other dependency as the registry has it.

* `Assembly.callsOf`: the calls of the host that a load makes, each with the path that the walk is
  inside of and with the registry that the host is given.
* `Assembly.Told`: these calls are all that the host is told (`Assembly.told_load`), and the
  registry grows along them.
* `WalkCall.OnPath`: the path of a call leads to its module.
* `WalkCall.Wired`: what the module of a call sees (`Assembly.wired_of_mem_callsOf`).
-/

namespace ScriptLoader

variable {F σ : Type}

/-- A call of a host by a walk. -/
structure WalkCall (F : Type) where
  /-- What the walk is inside of, the innermost first: the module that the host is given, and then
  those that wait for it. -/
  path : List Specifier
  registry : Registry F
  module : HostModule F

/-- The state of a host behind a call. -/
def Host.behind (host : Host F σ) (h : σ) (c : WalkCall F) : σ :=
  (host.instantiate c.registry c.module h).2

namespace Assembly

/-! ## The calls of a walk -/

/-- The calls of the visits of dependencies one after the other, up to the first failure. -/
def callsOfAll (visit : Specifier → Assembly F σ → Outcome F σ (ModuleRef F))
    (calls : Specifier → Assembly F σ → List (WalkCall F)) :
    List Specifier → Assembly F σ → List (WalkCall F)
  | [], _ => []
  | d :: ds, a =>
    calls d a ++
      match visit d a with
      | (.error _, _) => []
      | (.ok _, b) => callsOfAll visit calls ds b

/-- The call for a module whose dependencies are bound. -/
def callOf (importer : Importer) (path : List Specifier) (r : CompiledRecord) (scope : Scope F)
    (a : Assembly F σ) : List (WalkCall F) :=
  match r.readyCode? with
  | none => []
  | some compiled => [⟨path, a.registry, given importer r scope compiled⟩]

/-- The calls of the visit of `s`, the dependency of the first module of a path. -/
def callsOfRef (host : Host F σ) (importer : Importer) (g : Graph) :
    Nat → List Specifier → Specifier → Assembly F σ → List (WalkCall F)
  | 0, _, _, _ => []
  | fuel + 1, path, s, a =>
    if a.registry.isLoaded s || path.contains s then []
    else
      match g.get? s with
      | none => []
      | some r =>
        let visit := loadRef host importer g fuel (s :: path)
        callsOfAll visit (callsOfRef host importer g fuel (s :: path)) r.report.static
            (a.allocate s) ++
          match bindAll visit r.report.static [] (a.allocate s) with
          | (.error _, _) => []
          | (.ok scope, b) => callOf importer (s :: path) r scope b

/-- The calls of loading an entry. -/
def callsOf (host : Host F σ) (importer : Importer) (g : Graph) (entry : Specifier)
    (a : Assembly F σ) : List (WalkCall F) :=
  match g.awaitCode with
  | (_, .error _) => []
  | (g, .ok ()) => callsOfRef host importer g (g.size + 1) [] entry a

/-! ## What the host is told -/

/-- The calls are all that the host is told from one state to another, and the registry grows along
them. -/
structure Told (host : Host F σ) (calls : List (WalkCall F)) (a b : Assembly F σ) : Prop where
  host_eq : b.host = calls.foldl host.behind a.host
  grows : a.registry.Grows b.registry
  began : ∀ c ∈ calls, a.registry.Grows c.registry
  ended : ∀ c ∈ calls, c.registry.Grows b.registry
  inTurn : calls.Pairwise fun c d => c.registry.Grows d.registry

namespace Told

variable {host : Host F σ} {calls more : List (WalkCall F)} {a b c : Assembly F σ}

theorem nothing (hh : b.host = a.host) (hr : a.registry.Grows b.registry) :
    Told host [] a b :=
  ⟨hh, hr, by simp, by simp, .nil⟩

theorem trans (h : Told host calls a b) (k : Told host more b c) :
    Told host (calls ++ more) a c := by
  constructor
  · rw [List.foldl_append, ← h.host_eq, k.host_eq]
  · exact h.grows.trans k.grows
  · intro d hd
    rcases List.mem_append.1 hd with hd | hd
    · exact h.began d hd
    · exact h.grows.trans (k.began d hd)
  · intro d hd
    rcases List.mem_append.1 hd with hd | hd
    · exact (h.ended d hd).trans k.grows
    · exact k.ended d hd
  · refine List.pairwise_append.2 ⟨h.inTurn, k.inTurn, fun d hd e he => ?_⟩
    exact (h.ended d hd).trans (k.began e he)

end Told

variable {host : Host F σ} {importer : Importer} {g : Graph}

theorem grows_allocate (a : Assembly F σ) (s : Specifier) :
    a.registry.Grows (a.allocate s).registry := .allocate s .refl

theorem told_instantiate (path : List Specifier) (r : CompiledRecord) (scope : Scope F)
    (a : Assembly F σ) :
    Told host (callOf importer path r scope a) a (instantiate host importer r scope a).2 := by
  unfold callOf
  rcases instantiate_cases host importer r scope a with
    ⟨hn, hi⟩ | ⟨compiled, hc, ⟨e, h, b, ht, hi, hreg, hh⟩ | ⟨_, h, b, m, ht, hi, -, hreg, hh⟩⟩
  · rw [hn, hi]
    exact .nothing rfl .refl
  · have hgrows : a.registry.Grows b.registry := hreg ▸ .refl
    rw [hc, hi]
    refine ⟨?_, hgrows, by simp [Registry.Grows.refl], by simpa using hgrows, by simp⟩
    simp only [List.foldl_cons, List.foldl_nil, Host.behind, ht, hh]
  · have hgrows : a.registry.Grows b.registry := hreg ▸ .fill _ _ .refl
    rw [hc, hi]
    refine ⟨?_, hgrows, by simp [Registry.Grows.refl], by simpa using hgrows, by simp⟩
    simp only [List.foldl_cons, List.foldl_nil, Host.behind, ht, hh]

theorem told_bindAll {visit : Specifier → Assembly F σ → Outcome F σ (ModuleRef F)}
    {calls : Specifier → Assembly F σ → List (WalkCall F)}
    (hv : ∀ d a, Told host (calls d a) a (visit d a).2) (ds : List Specifier) (scope : Scope F)
    (a : Assembly F σ) :
    Told host (callsOfAll visit calls ds a) a (bindAll visit ds scope a).2 := by
  induction ds generalizing scope a with
  | nil => exact .nothing rfl .refl
  | cons d ds ih =>
    have hd := hv d a
    unfold callsOfAll bindAll
    generalize visit d a = x at hd ⊢
    rcases x with ⟨e | ref, b⟩
    · simpa using hd
    · exact hd.trans (ih _ b)

theorem told_loadRef (host : Host F σ) (importer : Importer) (g : Graph) (fuel : Nat)
    (path : List Specifier) (s : Specifier) (a : Assembly F σ) :
    Told host (callsOfRef host importer g fuel path s a) a
      (loadRef host importer g fuel path s a).2 := by
  induction fuel generalizing path s a with
  | zero => exact .nothing rfl .refl
  | succ fuel ih =>
    have hget : (a.allocate s).registry.get? s = a.registry.get? s :=
      Registry.get?_allocate a.registry s s
    unfold callsOfRef loadRef
    dsimp only
    rw [hget, Registry.isLoaded]
    cases a.registry.get? s with
    | some m => exact .nothing rfl (grows_allocate a s)
    | none =>
      cases path.contains s with
      | true => exact .nothing rfl (grows_allocate a s)
      | false =>
        cases g.get? s with
        | none => exact .nothing rfl (grows_allocate a s)
        | some r =>
          have hb := told_bindAll (fun d b => ih (s :: path) d b) r.report.static []
            (a.allocate s)
          have ha : Told host [] a (a.allocate s) := .nothing rfl (grows_allocate a s)
          simp only [Option.isSome_none, Bool.or_false, Bool.false_eq_true, if_false]
          generalize bindAll (loadRef host importer g fuel (s :: path)) r.report.static []
            (a.allocate s) = x at hb ⊢
          rcases x with ⟨e | scope, b⟩
          · simpa using ha.trans hb
          · exact (ha.trans hb).trans (told_instantiate (s :: path) r scope b)

theorem told_load (host : Host F σ) (importer : Importer) (g : Graph) (entry : Specifier)
    (a : Assembly F σ) :
    Told host (callsOf host importer g entry a) a (load host importer g entry a).2 := by
  have hw := told_loadRef host importer g.awaitCode.1 (g.awaitCode.1.size + 1) [] entry a
  unfold callsOf load
  generalize g.awaitCode = x at hw ⊢
  rcases x with ⟨g, e | ⟨⟩⟩
  · exact .nothing rfl .refl
  · dsimp only at hw ⊢
    generalize loadRef host importer g (g.size + 1) [] entry a = y at hw ⊢
    rcases y with ⟨e | ref, b⟩ <;> exact hw

end Assembly

/-! ## The path of a call -/

/-- A path of modules that wait for each other, the innermost first: each is a static dependency of
the next one, and the last one is the entry. -/
inductive Graph.Leads (g : Graph) (entry : Specifier) : List Specifier → Prop where
  | entry : Leads g entry [entry]
  | dependency {d s : Specifier} {path : List Specifier} {r : CompiledRecord} :
    Leads g entry (s :: path) → g.get? s = some r → d ∈ r.report.static →
    Leads g entry (d :: s :: path)

/-- The path of a call leads to its module, and is inside of none twice. -/
structure WalkCall.OnPath (g : Graph) (entry : Specifier) (c : WalkCall F) : Prop where
  nodup : c.path.Nodup
  leads : g.Leads entry c.path
  head? : c.path.head? = some c.module.specifier

namespace Assembly

variable {host : Host F σ} {importer : Importer} {g : Graph} {fuel : Nat}
  {path : List Specifier} {s entry : Specifier} {a b : Assembly F σ} {c : WalkCall F}

theorem exists_of_mem_callsOfAll {visit : Specifier → Assembly F σ → Outcome F σ (ModuleRef F)}
    {calls : Specifier → Assembly F σ → List (WalkCall F)} {ds : List Specifier}
    (hc : c ∈ callsOfAll visit calls ds a) : ∃ d ∈ ds, ∃ b, c ∈ calls d b := by
  induction ds generalizing a with
  | nil => cases hc
  | cons d ds ih =>
    unfold callsOfAll at hc
    rcases List.mem_append.1 hc with hc | hc
    · exact ⟨d, List.mem_cons_self, a, hc⟩
    · split at hc
      · cases hc
      · obtain ⟨e, he, b, hb⟩ := ih hc
        exact ⟨e, List.mem_cons_of_mem _ he, b, hb⟩

/-- A call of a visit is one of the visits inside of it, or the one of its own module. -/
theorem cases_of_mem_callsOfRef (hc : c ∈ callsOfRef host importer g (fuel + 1) path s a) :
    s ∉ path ∧ ∃ r, g.get? s = some r ∧
      ((∃ d ∈ r.report.static, ∃ b, c ∈ callsOfRef host importer g fuel (s :: path) d b) ∨
        ∃ scope b compiled, bindAll (loadRef host importer g fuel (s :: path)) r.report.static []
            (a.allocate s) = (.ok scope, b) ∧
          c = ⟨s :: path, b.registry, given importer r scope compiled⟩) := by
  unfold callsOfRef at hc
  split at hc
  · cases hc
  · next hs =>
    have hs : s ∉ path := by
      rw [Bool.or_eq_true, not_or, List.contains_iff_mem] at hs
      exact hs.2
    split at hc
    · cases hc
    · next r hr =>
      refine ⟨hs, r, hr, ?_⟩
      rcases List.mem_append.1 hc with hc | hc
      · exact Or.inl (exists_of_mem_callsOfAll hc)
      · split at hc
        · cases hc
        · next scope b hb =>
          unfold callOf at hc
          split at hc
          · cases hc
          · next compiled _ =>
            exact Or.inr ⟨scope, b, compiled, hb, List.mem_singleton.1 hc⟩

theorem onPath_of_mem_callsOfRef (hl : g.Leads entry (s :: path)) (hn : path.Nodup)
    (hc : c ∈ callsOfRef host importer g fuel path s a) : c.OnPath g entry := by
  induction fuel generalizing path s a with
  | zero => cases hc
  | succ fuel ih =>
    obtain ⟨hs, r, hr, ⟨d, hd, b, hc⟩ | ⟨scope, b, compiled, -, rfl⟩⟩ :=
      cases_of_mem_callsOfRef hc
    · exact ih (.dependency hl hr hd) (List.nodup_cons.2 ⟨hs, hn⟩) hc
    · exact ⟨List.nodup_cons.2 ⟨hs, hn⟩, hl, congrArg some (Graph.specifier_of_get? hr).symm⟩

/-! ## What the module of a call sees -/

theorem returns_loadRef {ref : ModuleRef F}
    (h : (loadRef host importer g fuel path s a).1 = .ok ref) :
    Returns path s (loadRef host importer g fuel path s a).2 ref := by
  by_cases hs : s ∈ path
  · cases fuel with
    | zero => cases h
    | succ fuel =>
      unfold loadRef at h ⊢
      dsimp only at h ⊢
      split at h
      · next m hm =>
        cases h
        exact .loaded hm
      · next hn =>
        rw [if_pos (List.contains_iff_mem.2 hs)] at h ⊢
        cases h
        exact .forwarded hn hs
  · rcases loadRef_ok h with ⟨m, rfl, hm⟩ | hmem
    · exact .loaded hm
    · exact absurd hmem hs

/-- A visit that returns leaves a slot for its module. -/
theorem slot?_loadRef {ref : ModuleRef F}
    (h : (loadRef host importer g fuel path s a).1 = .ok ref) :
    (loadRef host importer g fuel path s a).2.registry.slot? s = some (a.registry.slot s) := by
  cases fuel with
  | zero => cases h
  | succ fuel =>
    have hslot : (a.allocate s).registry.slot? s = some (a.registry.slot s) :=
      Registry.slot?_allocate_self a.registry s
    -- A visit begins with the slot, so it does the same if the slot is there.
    have hagain : loadRef host importer g (fuel + 1) path s a =
        loadRef host importer g (fuel + 1) path s (a.allocate s) := by
      have hsame : (a.allocate s).allocate s = a.allocate s := by
        have hr : (a.registry.allocate s).allocate s = a.registry.allocate s :=
          Registry.allocate_of_slot? hslot
        simp only [allocate, hr]
      rw [loadRef, loadRef, hsame]
    rw [hagain]
    exact Registry.slot?_of_grows
      (told_loadRef host importer g (fuel + 1) path s (a.allocate s)).grows hslot

/-- Dependencies that were bound are seen as the registry has them behind that. -/
theorem bound_of_bindAll {ds : List Specifier} {scope bound : Scope F}
    (h : bindAll (loadRef host importer g fuel path) ds scope a = (.ok bound, b)) :
    bound = ds.foldl
        (fun scope d => Keyed.put d (seen b.registry.slot b.registry.get? (path.headD d) d) scope)
        scope ∧
      ∀ d ∈ ds, (b.registry.get? d = none → d ∈ path) ∧
        b.registry.slot? d = some (b.registry.slot d) := by
  induction ds generalizing scope a with
  | nil =>
    cases h
    exact ⟨rfl, by simp⟩
  | cons d ds ih =>
    unfold bindAll at h
    rcases hv : loadRef host importer g fuel path d a with ⟨e | ref, m⟩
    · rw [hv] at h
      cases h
    · rw [hv] at h
      dsimp only at h
      have hret := returns_loadRef (congrArg Prod.fst hv)
      have hslot := slot?_loadRef (congrArg Prod.fst hv)
      have hkeeps := keeps_bindAll (fun d a => keeps_loadRef host importer g fuel path d a) ds
        (Keyed.put d ref scope) m
      have htold := told_bindAll (fun d a => told_loadRef host importer g fuel path d a) ds
        (Keyed.put d ref scope) m
      rw [hv] at hret hslot
      rw [h] at hkeeps htold
      obtain ⟨hbound, hall⟩ := ih h
      refine ⟨by rw [hbound, List.foldl_cons, hret.eq_seen hkeeps], fun x hx => ?_⟩
      rcases List.mem_cons.1 hx with rfl | hx
      · have hkept := Registry.slot?_of_grows htold.grows hslot
        refine ⟨fun hn => hret.mem_path ?_, by rw [hkept, Registry.slot_of_slot? hkept]⟩
        exact Option.eq_none_iff_forall_ne_some.2 fun n hm =>
          Option.some_ne_none _ ((hkeeps.grows x n hm).symm.trans hn)
      · exact hall x hx

/-- The keys of the bindings are the static dependencies, each where it occurs first. -/
theorem keys_bindings (slot : Specifier → Slot) (loaded : Specifier → Option (LoadedModule F))
    (r : CompiledRecord) : (bindings slot loaded r).keys = r.report.static.eraseDups := by
  have hfold : ∀ (ds : List Specifier) (scope : Scope F),
      (ds.foldl (fun scope d => Keyed.put d (seen slot loaded r.specifier d) scope) scope).keys =
        scope.keys ++ (ds.filter fun d => !scope.keys.contains d).eraseDups := by
    intro ds
    induction ds with
    | nil => simp
    | cons d ds ih =>
      intro scope
      rw [List.foldl_cons, ih, Keyed.keys_put]
      by_cases hd : d ∈ scope.keys
      · simp [hd]
      · have hfilter : ((ds.filter fun e => !scope.keys.contains e).filter fun e => !e == d) =
            ds.filter fun e => !(scope.keys ++ [d]).contains e := by
          rw [List.filter_filter]
          refine List.filter_congr fun e _ => ?_
          by_cases he : e = d <;> simp [he]
        rw [if_neg hd, List.filter_cons_of_pos (by simpa using hd), List.eraseDups_cons, hfilter]
        simp
  exact (hfold r.report.static []).trans (by simp [Keyed.keys])

end Assembly

/-- What the module of a call sees: its static dependencies in the order in which they first occur,
each as the registry has it. One that is not there leads back to the path. Each has a slot. -/
structure WalkCall.Wired (c : WalkCall F) (r : CompiledRecord) : Prop where
  keys : c.module.scope.keys = r.report.static.eraseDups
  sees : ∀ d ∈ r.report.static, c.module.scope.get? d =
    some (Assembly.seen c.registry.slot c.registry.get? c.module.specifier d)
  mem_path : ∀ d ∈ r.report.static, c.registry.get? d = none → d ∈ c.path
  slot : ∀ d ∈ r.report.static, c.registry.slot? d = some (c.registry.slot d)

namespace Assembly

variable {host : Host F σ} {importer : Importer} {g : Graph} {fuel : Nat}
  {path : List Specifier} {s entry : Specifier} {a b : Assembly F σ} {c : WalkCall F}

theorem wired_of_mem_callsOfRef (hc : c ∈ callsOfRef host importer g fuel path s a) :
    ∃ r, g.get? c.module.specifier = some r ∧ c.Wired r := by
  induction fuel generalizing path s a with
  | zero => cases hc
  | succ fuel ih =>
    obtain ⟨-, r, hr, ⟨d, -, b, hc⟩ | ⟨scope, b, compiled, hb, rfl⟩⟩ := cases_of_mem_callsOfRef hc
    · exact ih hc
    · obtain ⟨hbound, hall⟩ := bound_of_bindAll hb
      have hname : r.specifier = s := Graph.specifier_of_get? hr
      have hscope : scope = bindings b.registry.slot b.registry.get? r := by
        rw [hbound, bindings, hname]
        rfl
      refine ⟨r, hname.symm ▸ hr, ?_, ?_, fun d hd => (hall d hd).1, fun d hd => (hall d hd).2⟩
      · exact hscope ▸ keys_bindings b.registry.slot b.registry.get? r
      · intro d hd
        exact hscope ▸ (get?_bindings b.registry.slot b.registry.get? r d).trans (if_pos hd)

theorem leads_of_awaitCode (hg : g.Ready) (h : g.awaitCode.1.Leads entry path) :
    g.Leads entry path := by
  induction h with
  | entry => exact .entry
  | dependency _ hr hd ih =>
    rw [Graph.get?_awaitCode hg, Option.map_eq_some_iff] at hr
    obtain ⟨q, hq, rfl⟩ := hr
    exact .dependency ih hq hd

/-- The calls of a load are on paths from its entry, and their modules are wired. -/
theorem wired_of_mem_callsOf (hc : c ∈ callsOf host importer g entry a) :
    c.OnPath g entry ∧ ∃ r, g.get? c.module.specifier = some r ∧ c.Wired r := by
  have hcalls : g.Ready ∧
      c ∈ callsOfRef host importer g.awaitCode.1 (g.awaitCode.1.size + 1) [] entry a := by
    unfold callsOf at hc
    split at hc
    · cases hc
    · next hg => exact ⟨Graph.awaitCode_ok_iff.1 (by rw [hg]), by rwa [hg]⟩
  obtain ⟨hready, hc⟩ := hcalls
  obtain ⟨hnodup, hleads, hhead⟩ := onPath_of_mem_callsOfRef .entry List.nodup_nil hc
  obtain ⟨r, hr, hwired⟩ := wired_of_mem_callsOfRef hc
  rw [Graph.get?_awaitCode hready, Option.map_eq_some_iff] at hr
  obtain ⟨q, hq, rfl⟩ := hr
  exact ⟨⟨hnodup, leads_of_awaitCode hready hleads, hhead⟩, q, hq,
    ⟨hwired.keys, hwired.sees, hwired.mem_path, hwired.slot⟩⟩

end Assembly

end ScriptLoader
