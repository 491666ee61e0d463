import ScriptLoader.Proofs.Assembly.Observed
import ScriptLoader.Proofs.Graph.Postorder
import ScriptLoader.Proofs.Graph.Records

/-!
# The order of host calls

An assembly has its host instantiate the modules of a graph in depth-first order, each behind its
static dependencies, and breaks off at the first one that the host refuses or that has no record.

* `Assembly.Performs`: the host calls along an order of modules, and what is loaded behind them.
* `Assembly.performs_laws`: every walk performs the depth-first order behind its module.
* `Assembly.load_performs_postorder`: loading an entry performs the depth-first order behind the
  entry, or does nothing if the generation of some code failed.
-/

namespace ScriptLoader.Assembly

variable {F σ : Type}

/-! ## Performing an order -/

/-- A dependency as the module `requester` sees it when `loaded` is what is loaded. -/
def seen (slot : Specifier → Slot) (loaded : Specifier → Option (LoadedModule F))
    (requester d : Specifier) : ModuleRef F :=
  match loaded d with
  | some m => .loaded m
  | none => .forwarded ⟨d, requester, slot d⟩

/-- The static dependencies of a module as it sees them. -/
def bindings (slot : Specifier → Slot) (loaded : Specifier → Option (LoadedModule F))
    (r : CompiledRecord) : Scope F :=
  r.report.static.foldl (fun scope d => Keyed.put d (seen slot loaded r.specifier d) scope) []

/-- What is loaded once the module `s` is, too. -/
def withModule (loaded : Specifier → Option (LoadedModule F)) (s : Specifier)
    (m : LoadedModule F) : Specifier → Option (LoadedModule F) :=
  fun t => if t = s then some m else loaded t

theorem unloaded_withModule {loaded : Specifier → Option (LoadedModule F)} {s : Specifier}
    {order : List Specifier} (m : LoadedModule F) (hs : s ∉ order)
    (h : ∀ d ∈ order, loaded d = none) : ∀ d ∈ order, withModule loaded s m d = none := by
  intro d hd
  have hne : d ≠ s := fun he => hs (he ▸ hd)
  rw [withModule, if_neg hne]
  exact h d hd

/-- The calls of a host that takes the modules of an order in turn, up to the first one that it
refuses or that has no record: from what is loaded before, by way of the calls and the result, to
what is loaded behind them. A dependency that is not loaded yet is seen through its slot. -/
inductive Performs (g : Graph) (importer : Importer) (slot : Specifier → Slot) :
    (Specifier → Option (LoadedModule F)) → List Specifier → List (HostCall F) →
      Except LoadError Unit → (Specifier → Option (LoadedModule F)) → Prop where
  | nil {loaded : Specifier → Option (LoadedModule F)} :
    Performs g importer slot loaded [] [] (.ok ()) loaded
  | took {loaded behind : Specifier → Option (LoadedModule F)} {s : Specifier}
    {order : List Specifier} {r : CompiledRecord} {compiled : String} {exports : Exports F}
    {calls : List (HostCall F)} {result : Except LoadError Unit} :
    g.get? s = some r → r.outcome = .ok compiled →
    Performs g importer slot (withModule loaded s
        ((given importer r (bindings slot loaded r) compiled).loaded exports)) order calls result
        behind →
    Performs g importer slot loaded (s :: order)
      (⟨given importer r (bindings slot loaded r) compiled, .ok exports⟩ :: calls) result behind
  | refused {loaded : Specifier → Option (LoadedModule F)} {s : Specifier}
    {order : List Specifier} {r : CompiledRecord} {compiled : String} {e : LoadError} :
    g.get? s = some r → r.outcome = .ok compiled →
    Performs g importer slot loaded (s :: order)
      [⟨given importer r (bindings slot loaded r) compiled, .error e⟩] (.error e) loaded
  | missing {loaded : Specifier → Option (LoadedModule F)} {s : Specifier}
    {order : List Specifier} : g.get? s = none →
    Performs g importer slot loaded (s :: order) [] (.error (.notResolved s)) loaded

namespace Performs

variable {g : Graph} {importer : Importer} {slot : Specifier → Slot}
  {loaded between behind : Specifier → Option (LoadedModule F)}
  {order more : List Specifier} {calls after : List (HostCall F)} {result : Except LoadError Unit}

theorem trans (h : Performs g importer slot loaded order calls (.ok ()) between)
    (k : Performs g importer slot between more after result behind) :
    Performs g importer slot loaded (order ++ more) (calls ++ after) result behind := by
  generalize hr : (.ok () : Except LoadError Unit) = ok at h
  induction h with
  | nil => exact k
  | took hg hc _ ih => exact .took hg hc (ih k hr)
  | refused _ _ => cases hr
  | missing _ => cases hr

/-- What comes later in the order does not matter once there was a failure. -/
theorem stop {e : LoadError} (h : Performs g importer slot loaded order calls (.error e) behind)
    (more : List Specifier) :
    Performs g importer slot loaded (order ++ more) calls (.error e) behind := by
  generalize hr : (.error e : Except LoadError Unit) = failed at h
  induction h with
  | nil => cases hr
  | took hg hc _ ih => exact .took hg hc (ih hr)
  | refused hg hc => exact .refused hg hc
  | missing hg => exact .missing hg

theorem specifier_given (importer : Importer) {r : CompiledRecord} {s : Specifier}
    (hg : g.get? s = some r) (scope : Scope F) (compiled : String) :
    (given importer r scope compiled).specifier = s := Graph.specifier_of_get? hg

/-- The host is called for the modules at the beginning of the order. -/
theorem calls_isPrefix (h : Performs g importer slot loaded order calls result behind) :
    (calls.map fun c => c.module.specifier) <+: order := by
  induction h with
  | nil => exact List.prefix_rfl
  | took hg _ _ ih =>
    rw [List.map_cons, specifier_given _ hg]
    exact List.prefix_cons_inj _ |>.2 ih
  | refused hg _ =>
    rw [List.map_cons, specifier_given _ hg]
    exact List.prefix_cons_inj _ |>.2 List.nil_prefix
  | missing _ => exact List.nil_prefix

/-- All modules of an order are loaded behind it, if there was no failure. -/
theorem isSome_behind (h : Performs g importer slot loaded order calls (.ok ()) behind)
    (t : Specifier) : (behind t).isSome = ((loaded t).isSome || order.contains t) := by
  generalize hr : (.ok () : Except LoadError Unit) = ok at h
  induction h with
  | nil => simp
  | @took _ _ s _ _ _ _ _ _ _ _ _ ih =>
    rw [ih hr, withModule]
    by_cases ht : t = s
    · subst ht
      simp
    · simp [ht]
  | refused _ _ => cases hr
  | missing _ => cases hr

/-- What is loaded behind an order without repetitions: what was loaded before, and what the host
made of each module that it took. -/
theorem behind_eq_some_iff (h : Performs g importer slot loaded order calls result behind)
    (hnodup : order.Nodup) (hnew : ∀ s ∈ order, loaded s = none) {t : Specifier}
    {m : LoadedModule F} : behind t = some m ↔ loaded t = some m ∨
      ∃ c ∈ calls, ∃ exports, c.result = .ok exports ∧ c.module.specifier = t ∧
        m = c.module.loaded exports := by
  induction h with
  | nil => simp
  | @took loaded behind s order r compiled exports calls result hg hc _ ih =>
    obtain ⟨hs, hnodup⟩ := List.nodup_cons.1 hnodup
    have hslot : loaded s = none := hnew s List.mem_cons_self
    have hname := specifier_given importer hg (bindings slot loaded r) compiled
    have hnew' := unloaded_withModule ((given importer r (bindings slot loaded r) compiled).loaded
      exports) hs fun d hd => hnew d (List.mem_cons_of_mem _ hd)
    rw [ih hnodup hnew', withModule]
    constructor
    · rintro (hm | ⟨c, hmem, hc⟩)
      · split at hm
        · next ht =>
          refine Or.inr ⟨_, List.mem_cons_self, exports, rfl, by rw [hname, ht], ?_⟩
          exact (Option.some.inj hm).symm
        · exact Or.inl hm
      · exact Or.inr ⟨c, List.mem_cons_of_mem _ hmem, hc⟩
    · rintro (hm | ⟨c, hmem, found, hres, ht, hm⟩)
      · have hne : t ≠ s := by
          rintro rfl
          rw [hslot] at hm
          cases hm
        exact Or.inl (by rwa [if_neg hne])
      · rcases List.mem_cons.1 hmem with rfl | hmem
        · cases hres
          refine Or.inl ?_
          rw [if_pos (by rw [← ht, hname]), hm]
        · exact Or.inr ⟨c, hmem, found, hres, ht, hm⟩
  | refused _ _ => simp
  | missing _ => simp

/-- What the host was given of a module, with the dependencies that were loaded by then. -/
theorem module_of_mem (h : Performs g importer slot loaded order calls result behind)
    (hnodup : order.Nodup) (hnew : ∀ s ∈ order, loaded s = none) {c : HostCall F}
    (hc : c ∈ calls) : ∃ r compiled before, g.get? c.module.specifier = some r ∧
      r.outcome = .ok compiled ∧ c.module = given importer r (bindings slot before r) compiled ∧
      ∀ t m, before t = some m → behind t = some m := by
  have grows : ∀ t m, loaded t = some m → behind t = some m :=
    fun t m hm => (h.behind_eq_some_iff hnodup hnew).2 (Or.inl hm)
  induction h with
  | nil => cases hc
  | @took loaded behind s order r compiled exports calls result hg ho hp ih =>
    rcases List.mem_cons.1 hc with rfl | hc
    · exact ⟨r, compiled, loaded, by rw [specifier_given _ hg]; exact hg, ho, rfl, grows⟩
    · obtain ⟨hs, hnodup⟩ := List.nodup_cons.1 hnodup
      have hnew' := unloaded_withModule ((given importer r (bindings slot loaded r) compiled).loaded
        exports) hs fun d hd => hnew d (List.mem_cons_of_mem _ hd)
      exact ih hnodup hnew' hc fun t m hm => (hp.behind_eq_some_iff hnodup hnew').2 (Or.inl hm)
  | @refused loaded s order r compiled e hg ho =>
    obtain rfl := List.mem_singleton.1 hc
    exact ⟨r, compiled, loaded, by rw [specifier_given _ hg]; exact hg, ho, rfl, grows⟩
  | missing _ => cases hc

end Performs

/-! ## Walks perform the depth-first order -/

variable {host : Host F σ} {importer : Importer} {g : Graph}

/-- The reference that a walk returns is what the first module of the path sees. A stub is for a
module of the path that is not loaded. -/
inductive Returns (path : List Specifier) (s : Specifier) (b : Assembly F σ) :
    ModuleRef F → Prop where
  | loaded {m : LoadedModule F} : b.registry.get? s = some m → Returns path s b (.loaded m)
  | forwarded : b.registry.get? s = none → s ∈ path →
    Returns path s b (.forwarded ⟨s, path.headD s, b.registry.slot s⟩)

/-- A module that is not loaded behind its visit is one of the path. -/
theorem Returns.mem_path {path : List Specifier} {s : Specifier} {b : Assembly F σ}
    {ref : ModuleRef F} (h : Returns path s b ref) (hn : b.registry.get? s = none) : s ∈ path := by
  cases h with
  | loaded hm => cases hn.symm.trans hm
  | forwarded _ hs => exact hs

theorem Returns.eq_seen {path : List Specifier} {s : Specifier} {b c : Assembly F σ}
    {ref : ModuleRef F} (h : Returns path s b ref) (hk : Keeps path b c) :
    ref = seen c.registry.slot c.registry.get? (path.headD s) s := by
  cases h with
  | loaded hm => rw [seen, hk.grows s _ hm]
  | forwarded hn hs => rw [seen, hk.path s hs, hn, hk.slot]

/-- A walk performs an order: its host calls come behind those before. -/
structure Performed (g : Graph) (importer : Importer) (order : List Specifier)
    (a b : Assembly F (σ × List (HostCall F))) (result : Except LoadError Unit) : Prop where
  slot : b.registry.slot = a.registry.slot
  calls : ∃ calls, b.host.2 = a.host.2 ++ calls ∧
    Performs g importer a.registry.slot a.registry.get? order calls result b.registry.get?

theorem get?_allocate_eq (a : Assembly F σ) (s : Specifier) :
    (a.allocate s).registry.get? = a.registry.get? :=
  funext (Registry.get?_allocate a.registry s)

theorem slot_allocate_eq (a : Assembly F σ) (s : Specifier) :
    (a.allocate s).registry.slot = a.registry.slot :=
  funext (Registry.slot_allocate a.registry s)

theorem isLoaded_allocate_eq (a : Assembly F σ) (s : Specifier) :
    (a.allocate s).registry.isLoaded = a.registry.isLoaded := by
  funext t
  rw [Registry.isLoaded, get?_allocate_eq]
  rfl

namespace Performed

variable {g : Graph} {importer : Importer} {order more : List Specifier}
  {a b c : Assembly F (σ × List (HostCall F))} {result : Except LoadError Unit}

theorem nothing (hh : b.host = a.host) (hs : b.registry.slot = a.registry.slot)
    (hr : b.registry.get? = a.registry.get?) : Performed g importer [] a b (.ok ()) :=
  ⟨hs, [], by rw [hh, List.append_nil], by rw [hr]; exact .nil⟩

theorem trans (h : Performed g importer order a b (.ok ()))
    (k : Performed g importer more b c result) :
    Performed g importer (order ++ more) a c result := by
  obtain ⟨hslot, calls, hcalls, hp⟩ := h
  obtain ⟨kslot, after, hafter, kp⟩ := k
  refine ⟨kslot.trans hslot, calls ++ after, by rw [hafter, hcalls, List.append_assoc], ?_⟩
  rw [hslot] at kp
  exact hp.trans kp

/-- What comes later in the order does not matter once there was a failure. -/
theorem stop {e : LoadError} (h : Performed g importer order a b (.error e))
    (more : List Specifier) : Performed g importer (order ++ more) a b (.error e) := by
  obtain ⟨hslot, calls, hcalls, hp⟩ := h
  exact ⟨hslot, calls, hcalls, hp.stop more⟩

/-- A slot that is given before changes nothing. -/
theorem of_allocate {s : Specifier} (h : Performed g importer order (a.allocate s) b result) :
    Performed g importer order a b result := by
  obtain ⟨hslot, calls, hcalls, hp⟩ := h
  rw [slot_allocate_eq] at hslot hp
  rw [get?_allocate_eq] at hp
  exact ⟨hslot, calls, hcalls, hp⟩

end Performed

/-- Instantiating the module of a record that has its code performs the order of that module. -/
theorem performed_instantiate (host : Host F σ) (importer : Importer) {r : CompiledRecord}
    {s : Specifier} {compiled : String}
    (hr : g.get? s = some r) (ho : r.outcome = .ok compiled)
    {b : Assembly F (σ × List (HostCall F))} (hs : b.registry.get? s = none) :
    let scope := bindings b.registry.slot b.registry.get? r
    let x := instantiate host.observed importer r.waited scope b
    Performed g importer [s] b x.2 (x.1.map fun _ => ()) ∧
      ∀ ref, x.1 = .ok ref → ∀ path, Returns path s x.2 ref := by
  intro scope
  have hcode : r.waited.readyCode? = some compiled := by
    simp [CompiledRecord.readyCode?, CompiledRecord.waited, ho]
  have hname : r.specifier = s := Graph.specifier_of_get? hr
  rcases instantiate_cases host.observed importer r.waited scope b with
    ⟨hn, -⟩ | ⟨code, hcode', ⟨e, k, c, hc, hi, hreg, hh⟩ | ⟨exports, k, c, m, hc, hi, hm, hreg, hh⟩⟩
  · rw [hn] at hcode
    cases hcode
  · rw [hcode] at hcode'
    cases hcode'
    rw [hi]
    refine ⟨⟨by rw [hreg], _, by rw [hh]; exact Host.observed_calls hc, ?_⟩, by rintro _ ⟨⟩⟩
    have hp : Performs g importer b.registry.slot b.registry.get? [s]
        [⟨given importer r scope compiled, .error e⟩] (.error e) b.registry.get? := .refused hr ho
    rwa [hreg]
  · rw [hcode] at hcode'
    cases hcode'
    rw [hi]
    have hfill : c.registry = b.registry.fill s m := hname ▸ hreg
    have hslot : c.registry.slot = b.registry.slot :=
      funext fun t => by rw [hfill, Registry.slot_fill]
    have hbehind : c.registry.get? = withModule b.registry.get? s m := by
      funext t
      rw [hfill, Registry.get?_fill, hs, Option.none_or]
      rfl
    refine ⟨⟨hslot, _, by rw [hh]; exact Host.observed_calls hc, ?_⟩, ?_⟩
    · have hp : Performs g importer b.registry.slot b.registry.get? [s]
          [⟨given importer r scope compiled, .ok exports⟩] (.ok ())
          (withModule b.registry.get? s _) := .took hr ho .nil
      rwa [hbehind, hm]
    · rintro _ ⟨⟩ path
      exact .loaded (by rw [hbehind, withModule, if_pos rfl])

theorem performs_laws (host : Host F σ) (importer : Importer) {g : Graph} (hg : g.Ready) :
    Laws host.observed importer g.awaitCode.1
      (fun path s a x =>
        Performed g importer (g.postorder path a.registry.isLoaded s) a x.2 (x.1.map fun _ => ()) ∧
        ∀ ref, x.1 = .ok ref → Returns path s x.2 ref)
      (fun path ds scope a x =>
        Performed g importer (Graph.inTurn (g.postorder path) a.registry.isLoaded ds) a x.2
          (x.1.map fun _ => ()) ∧
        ∀ bound, x.1 = .ok bound → bound = ds.foldl (fun scope d => Keyed.put d
          (seen x.2.registry.slot x.2.registry.get? (path.headD d) d) scope) scope) where
  loaded {path s a m} hm := by
    have hload : a.registry.isLoaded s = true := Registry.isLoaded_iff.2 ⟨m, hm⟩
    rw [Graph.postorder_of_known hload]
    refine ⟨.nothing rfl (slot_allocate_eq a s) (get?_allocate_eq a s), ?_⟩
    rintro _ ⟨⟩
    exact .loaded (by rw [get?_allocate_eq, hm])
  forwarded {path s a} hn hs := by
    rw [Graph.postorder_of_mem hs]
    refine ⟨.nothing rfl (slot_allocate_eq a s) (get?_allocate_eq a s), ?_⟩
    rintro _ ⟨⟩
    rw [← slot_allocate_eq a s]
    exact .forwarded ((congrFun (get?_allocate_eq a s) s).trans hn) hs
  missing {path s a} hn hs hr := by
    have hr' : g.get? s = none := by simpa [Graph.get?_awaitCode hg] using hr
    rw [Graph.postorder_of_missing (Registry.isLoaded_eq_false_iff.2 hn) hs hr']
    refine ⟨⟨slot_allocate_eq a s, [], by simp [allocate], ?_⟩, by rintro _ ⟨⟩⟩
    rw [get?_allocate_eq]
    exact .missing hr'
  failed {path s a b r e} hn hs hr hb := by
    rw [Graph.get?_awaitCode hg, Option.map_eq_some_iff] at hr
    obtain ⟨r, hr, rfl⟩ := hr
    have hp := hb.1
    rw [isLoaded_allocate_eq] at hp
    rw [Graph.postorder_of_record (Registry.isLoaded_eq_false_iff.2 hn) hs hr]
    exact ⟨hp.of_allocate.stop [s], by rintro _ ⟨⟩⟩
  bound {path s a b r scope} hn hs hr hk hb := by
    rw [Graph.get?_awaitCode hg, Option.map_eq_some_iff] at hr
    obtain ⟨r, hr, rfl⟩ := hr
    obtain ⟨hp, hscope⟩ := hb
    rw [isLoaded_allocate_eq] at hp
    have hname : r.specifier = s := Graph.specifier_of_get? hr
    obtain ⟨compiled, ho⟩ := hg r (Graph.mem_of_get? hr)
    have hbound : scope = bindings b.registry.slot b.registry.get? r := by
      rw [hscope scope rfl, bindings, hname]
      rfl
    have hfree : b.registry.get? s = none := (hk.path s List.mem_cons_self).trans hn
    obtain ⟨hlast, href⟩ := performed_instantiate host importer hr ho hfree
    rw [hbound, Graph.postorder_of_record (Registry.isLoaded_eq_false_iff.2 hn) hs hr]
    exact ⟨hp.of_allocate.trans hlast, fun ref h => href ref h path⟩
  nil {path scope a} := by
    refine ⟨.nothing rfl rfl rfl, ?_⟩
    rintro _ ⟨⟩
    rfl
  stop {path ds d scope a b e} hv := ⟨hv.1.stop _, by rintro _ ⟨⟩⟩
  next {path ds d scope a b ref x} _ hkx hv hb := by
    obtain ⟨hp, href⟩ := hv
    obtain ⟨hq, hscope⟩ := hb
    -- What the first dependency finished is what the others find in the registry.
    have hknown : b.registry.isLoaded =
        fun t => a.registry.isLoaded t || (g.postorder path a.registry.isLoaded d).contains t := by
      obtain ⟨-, calls, -, hcalls⟩ := hp
      exact funext fun t => hcalls.isSome_behind t
    rw [hknown] at hq
    refine ⟨hp.trans hq, ?_⟩
    intro bound hx
    rw [hscope bound hx, List.foldl_cons, (href ref rfl).eq_seen hkx]

/-! ## Loading -/

theorem loaded_given (importer : Importer) (r : CompiledRecord) (scope : Scope F)
    (compiled : String) (exports : Exports F) :
    (given importer r scope compiled).loaded exports =
      { specifier := r.specifier
        kind := if r.report.isModule then .module else .script
        exports := if r.report.isModule then exports else []
        code := compiled ++ (if compiled.toList.getLast? = some '\n' then "" else "\n") ++
          "//# sourceURL=" ++ r.specifier.text } := by
  unfold HostModule.loaded given
  cases r.report.isModule <;> rfl

/-- Loading an entry does nothing if the generation of some code failed. -/
theorem load_of_not_ready (host : Host F σ) (importer : Importer) (entry : Specifier)
    (a : Assembly F σ) (hg : ¬ g.Ready) :
    ∃ r ∈ g.records, ∃ e, r.outcome = .error e ∧
      load host importer g entry a = (.error e, a) := by
  rcases load_cases host importer g entry a with ⟨e, he, hl⟩ | ⟨hok, -⟩
  · obtain ⟨r, hr, ho⟩ := Graph.exists_of_awaitRecords he
    exact ⟨r, hr, e, ho, hl⟩
  · exact absurd (Graph.awaitCode_ok_iff.1 hok) hg

/-- Loading an entry is the walk from it if there is all code. The walk has the entry itself. -/
theorem load_of_ready (host : Host F σ) (importer : Importer) (entry : Specifier)
    (a : Assembly F σ) (hg : g.Ready) :
    (load host importer g entry a).2 = (walk host importer g entry a).2 ∧
    (load host importer g entry a).1.map (fun _ => ()) =
      (walk host importer g entry a).1.map (fun _ => ()) ∧
    ∀ ref, (walk host importer g entry a).1 = .ok ref → ∃ m, ref = .loaded m ∧
      (load host importer g entry a).1 = .ok m ∧
      (load host importer g entry a).2.registry.get? entry = some m := by
  rcases load_cases host importer g entry a with
    ⟨e, he, -⟩ | ⟨-, ⟨e, b, hw, hl⟩ | ⟨m, b, hw, hm, hl⟩⟩
  · rw [Graph.awaitCode_ok_iff.2 hg] at he
    cases he
  · rw [hw, hl]
    exact ⟨rfl, rfl, by rintro _ ⟨⟩⟩
  · rw [hw, hl]
    refine ⟨rfl, rfl, ?_⟩
    rintro _ ⟨⟩
    exact ⟨m, rfl, rfl, hm⟩

theorem performed_load (host : Host F σ) (importer : Importer) (entry : Specifier)
    (a : Assembly F (σ × List (HostCall F))) (hg : g.Ready) :
    Performed g importer (g.postorder [] a.registry.isLoaded entry) a
      (load host.observed importer g entry a).2
      ((load host.observed importer g entry a).1.map fun _ => ()) := by
  obtain ⟨hstate, hresult, -⟩ := load_of_ready host.observed importer entry a hg
  rw [hstate, hresult]
  exact (walk_of_laws (performs_laws host importer hg) entry a).1

theorem unloaded_of_mem_postorder {entry : Specifier} {a : Assembly F σ} :
    ∀ s ∈ g.postorder [] a.registry.isLoaded entry, a.registry.get? s = none :=
  fun _ hs => Registry.isLoaded_eq_false_iff.1 (Graph.fresh_of_mem_postorder hs).1

/-- Loading an entry does nothing if the generation of some code failed. Otherwise its host calls
are those of the depth-first order behind the entry, up to the first module that the host refuses or
that has no record, which is the failure. No module is given to the host twice. The host is given
the compiled code and, on a line of its own, the comment that names the module. What is loaded
behind it is what was loaded before, and each module that the host took, with that code. A walk that
returns has the entry itself and no stub. -/
theorem load_performs_postorder (host : Host F σ) (importer : Importer) (g : Graph)
    (entry : Specifier) (a : Assembly F (σ × List (HostCall F))) :
    let x := load host.observed importer g entry a
    let annotated (compiled : String) (t : Specifier) : String :=
      compiled ++ (if compiled.toList.getLast? = some '\n' then "" else "\n") ++
        "//# sourceURL=" ++ t.text
    (¬ g.Ready → ∃ r ∈ g.records, ∃ e, r.outcome = .error e ∧ x = (.error e, a)) ∧
    (g.Ready → ∃ calls, x.2.host.2 = a.host.2 ++ calls ∧
      Performs g importer a.registry.slot a.registry.get?
        (g.postorder [] a.registry.isLoaded entry) calls (x.1.map fun _ => ())
        x.2.registry.get? ∧
      (calls.map fun c => c.module.specifier).Nodup ∧
      (∀ c ∈ calls, ∃ r compiled, g.get? c.module.specifier = some r ∧
        r.outcome = .ok compiled ∧ c.module.code = annotated compiled c.module.specifier ∧
        c.module.kind = (if r.report.isModule then .module else .script) ∧
        c.module.importer = importer) ∧
      (∀ t m, x.2.registry.get? t = some m ↔ a.registry.get? t = some m ∨
        ∃ c ∈ calls, ∃ exports, c.result = .ok exports ∧ c.module.specifier = t ∧
          ∃ r compiled, g.get? t = some r ∧ r.outcome = .ok compiled ∧
            m =
              { specifier := t
                kind := if r.report.isModule then .module else .script
                exports := if r.report.isModule then exports else []
                code := annotated compiled t }) ∧
      ∀ ref, (walk host.observed importer g entry a).1 = .ok ref →
        ∃ m, ref = .loaded m ∧ x.1 = .ok m ∧ x.2.registry.get? entry = some m) := by
  intro x annotated
  refine ⟨load_of_not_ready host.observed importer entry a, ?_⟩
  intro hg
  obtain ⟨-, calls, hcalls, hp⟩ := performed_load host importer entry a hg
  have hgiven : ∀ c ∈ calls, ∃ r compiled scope, g.get? c.module.specifier = some r ∧
      r.outcome = .ok compiled ∧ r.specifier = c.module.specifier ∧
      c.module = given importer r scope compiled := by
    intro c hc
    obtain ⟨r, compiled, before, hr, ho, hgiven, -⟩ :=
      hp.module_of_mem Graph.nodup_postorder unloaded_of_mem_postorder hc
    exact ⟨r, compiled, _, hr, ho, Graph.specifier_of_get? hr, hgiven⟩
  refine ⟨calls, hcalls, hp, hp.calls_isPrefix.sublist.nodup Graph.nodup_postorder, ?_, ?_,
    (load_of_ready host.observed importer entry a hg).2.2⟩
  · intro c hc
    obtain ⟨r, compiled, scope, hr, ho, hname, hmodule⟩ := hgiven c hc
    refine ⟨r, compiled, hr, ho, ?_, by rw [hmodule, given], by rw [hmodule, given]⟩
    rw [← hname, hmodule]
    rfl
  · intro t m
    rw [hp.behind_eq_some_iff Graph.nodup_postorder unloaded_of_mem_postorder]
    refine or_congr_right ⟨?_, ?_⟩
    · rintro ⟨c, hc, exports, hres, ht, hm⟩
      obtain ⟨r, compiled, scope, hr, ho, hname, hmodule⟩ := hgiven c hc
      refine ⟨c, hc, exports, hres, ht, r, compiled, ht ▸ hr, ho, ?_⟩
      rw [hm, hmodule, loaded_given, hname, ht]
    · rintro ⟨c, hc, exports, hres, ht, r, compiled, hr, ho, hm⟩
      obtain ⟨q, code, scope, hq, hcode, hname, hmodule⟩ := hgiven c hc
      refine ⟨c, hc, exports, hres, ht, ?_⟩
      rw [ht, hr] at hq
      cases hq
      rw [ho] at hcode
      cases hcode
      rw [hm, hmodule, loaded_given, hname, ht]

/-- A module `/a` that imports itself and `/b`, which imports `/a` and the script `/c`. -/
def ring : Graph where
  entries := [⟨"/a"⟩]
  records :=
    [{ specifier := ⟨"/a"⟩, location := "/a.ts", outcome := .ok "a"
       report := { static := [⟨"/a"⟩, ⟨"/b"⟩], isModule := true } },
     { specifier := ⟨"/b"⟩, location := "/b.ts", outcome := .ok "b"
       report := { static := [⟨"/a"⟩, ⟨"/c"⟩], isModule := true } },
     { specifier := ⟨"/c"⟩, location := "/c.ts", outcome := .ok "c"
       report := { static := [], isModule := false } }]

/-- A host that refuses the module `/a`. -/
def refusing : Host Unit Unit where
  instantiate _ m h :=
    (if m.specifier = ⟨"/a"⟩ then .error (.evaluation ⟨"/a"⟩ "boom") else .ok [], h)

theorem ring_is_performed_in_postorder :
    ring.Ready ∧ ring.postorder [] (fun _ => false) ⟨"/a"⟩ = [⟨"/c"⟩, ⟨"/b"⟩, ⟨"/a"⟩] ∧
    (load refusing.observed {} ring ⟨"/a"⟩ { host := ((), []) }).1.map (fun _ => ()) =
      .error (.evaluation ⟨"/a"⟩ "boom") ∧
    ∃ calls, (calls.map fun c => (c.module.specifier, c.result.isOk)) =
        [(⟨"/c"⟩, true), (⟨"/b"⟩, true), (⟨"/a"⟩, false)] ∧
      Performs ring {} (⟨·, 0⟩) (fun _ => none) [⟨"/c"⟩, ⟨"/b"⟩, ⟨"/a"⟩] calls
        (.error (.evaluation ⟨"/a"⟩ "boom"))
        (load refusing.observed {} ring ⟨"/a"⟩ { host := ((), []) }).2.registry.get? := by
  have hready : ring.Ready := by simp [Graph.Ready, ring]
  have horder : ring.postorder [] (fun _ => false) ⟨"/a"⟩ = [⟨"/c"⟩, ⟨"/b"⟩, ⟨"/a"⟩] := by
    decide +kernel
  have hresult : (load refusing.observed {} ring ⟨"/a"⟩ { host := ((), []) }).1.map (fun _ => ()) =
      .error (.evaluation ⟨"/a"⟩ "boom") := by decide +kernel
  obtain ⟨calls, hcalls, hp, -⟩ := (load_performs_postorder refusing {} ring ⟨"/a"⟩
    { host := ((), []) }).2 hready
  refine ⟨hready, horder, hresult, calls, ?_, ?_⟩
  · rw [List.nil_append] at hcalls
    rw [← hcalls]
    decide +kernel
  · rw [hresult] at hp
    exact horder ▸ hp

end ScriptLoader.Assembly
