import ScriptLoader.Proofs.Assembly.Needed
import ScriptLoader.Proofs.Assembly.Postorder

/-!
# Stubs that are handed out

A module that is instantiated inside of a cycle sees a stub for each dependency that is still
loading. A walk that returns has loaded these, too; a walk that fails may leave a module behind that
has nothing but the stub.

* `Assembly.closed_of_load_ok`: behind loading that succeeds, the static dependencies of a new
  module are loaded.
* `Assembly.loaded_or_forwarded`: behind any loading, a static dependency of a module that the host
  took is loaded, or the loading failed and the module has a stub for it.
-/

namespace ScriptLoader.Assembly

variable {F σ : Type} {importer : Importer} {g : Graph} {entry : Specifier}

theorem get?_bindings (slot : Specifier → Slot) (loaded : Specifier → Option (LoadedModule F))
    (r : CompiledRecord) (d : Specifier) : Keyed.get? d (bindings slot loaded r) =
      if d ∈ r.report.static then some (seen slot loaded r.specifier d) else none := by
  have hfold : ∀ (ds : List Specifier) (scope : Scope F), Keyed.get? d
      (ds.foldl (fun scope d => Keyed.put d (seen slot loaded r.specifier d) scope) scope) =
        if d ∈ ds then some (seen slot loaded r.specifier d) else Keyed.get? d scope := by
    intro ds
    induction ds with
    | nil => simp
    | cons j ds ih =>
      intro scope
      rw [List.foldl_cons, ih, Keyed.get?_put]
      by_cases hds : d ∈ ds
      · simp [hds]
      · by_cases hj : d = j
        · subst hj
          simp
        · simp [hds, hj]
  exact hfold r.report.static []

theorem closed_of_load_ok {host : Host F σ} {a : Assembly F σ} {m : LoadedModule F}
    (h : (load host importer g entry a).1 = .ok m) {s : Specifier} {r : CompiledRecord}
    (hr : g.get? s = some r) (hnew : a.registry.isLoaded s = false)
    (hs : (load host importer g entry a).2.registry.isLoaded s = true) :
    ∀ d ∈ r.report.static, (load host importer g entry a).2.registry.isLoaded d = true := by
  rcases load_cases host importer g entry a with
    ⟨e, -, hl⟩ | ⟨hok, ⟨e, b, -, hl⟩ | ⟨n, b, hw, -, hl⟩⟩
  · simp [hl] at h
  · simp [hl] at h
  · have hf := (walk_of_laws (filled_laws host importer g.awaitCode.1) entry a _ b hw).2
    rw [hl] at hs ⊢
    rcases hf s hs with hold | ⟨q, hq, hd⟩
    · rw [hnew] at hold
      cases hold
    · rw [Graph.get?_awaitCode (Graph.awaitCode_ok_iff.1 hok), hr] at hq
      cases hq
      exact fun d hmem => (hd d hmem).resolve_right (by simp)

section

variable {host : Host F σ} {a : Assembly F (σ × List (HostCall F))} {calls : List (HostCall F)}

/-- What was observed before comes first. -/
theorem exists_calls (host : Host F σ) (importer : Importer) (g : Graph) (entry : Specifier)
    (a : Assembly F (σ × List (HostCall F))) :
    ∃ calls, (load host.observed importer g entry a).2.host.2 = a.host.2 ++ calls := by
  by_cases hg : g.Ready
  · obtain ⟨-, calls, hcalls, -⟩ := performed_load host importer entry a hg
    exact ⟨calls, hcalls⟩
  · obtain ⟨_, -, e, -, hl⟩ := load_of_not_ready host.observed importer entry a hg
    exact ⟨[], by rw [hl, List.append_nil]⟩

/-- The calls of loading are those of the depth-first order behind the entry; there are none unless
there is all code. -/
theorem performs_of_mem
    (hcalls : (load host.observed importer g entry a).2.host.2 = a.host.2 ++ calls)
    {c : HostCall F} (hc : c ∈ calls) :
    Performs g importer a.registry.slot a.registry.get?
      (g.postorder [] a.registry.isLoaded entry) calls
      ((load host.observed importer g entry a).1.map fun _ => ())
      (load host.observed importer g entry a).2.registry.get? := by
  by_cases hg : g.Ready
  · obtain ⟨-, made, hmade, hp⟩ := performed_load host importer entry a hg
    obtain rfl : made = calls := List.append_cancel_left (hmade.symm.trans hcalls)
    exact hp
  · obtain ⟨_, -, e, -, hl⟩ := load_of_not_ready host.observed importer entry a hg
    rw [hl] at hcalls
    obtain rfl : calls = [] := by simpa using hcalls
    cases hc

/-- A stub that a module sees is for a static dependency. -/
theorem eq_of_forwarded
    (hcalls : (load host.observed importer g entry a).2.host.2 = a.host.2 ++ calls)
    {c : HostCall F} (hc : c ∈ calls) {r : CompiledRecord}
    (hr : g.get? c.module.specifier = some r) {d : Specifier} {stub : Stub}
    (hs : c.module.scope.get? d = some (.forwarded stub)) :
    d ∈ r.report.static ∧ stub = ⟨d, c.module.specifier, a.registry.slot d⟩ := by
  obtain ⟨q, compiled, before, hq, -, hgiven, -⟩ := (performs_of_mem hcalls hc).module_of_mem
    Graph.nodup_postorder unloaded_of_mem_postorder hc
  rw [hr] at hq
  cases hq
  have hscope : c.module.scope = bindings a.registry.slot before r := by rw [hgiven]; rfl
  rw [hscope, get?_bindings] at hs
  split at hs
  · next hd =>
    rw [Graph.specifier_of_get? hr, seen] at hs
    split at hs <;> cases hs
    exact ⟨hd, rfl⟩
  · cases hs

theorem loaded_or_forwarded
    (hcalls : (load host.observed importer g entry a).2.host.2 = a.host.2 ++ calls)
    {c : HostCall F} (hc : c ∈ calls) {exports : Exports F} (hok : c.result = .ok exports)
    {r : CompiledRecord} (hr : g.get? c.module.specifier = some r) {d : Specifier}
    (hd : d ∈ r.report.static) :
    (load host.observed importer g entry a).2.registry.isLoaded d = true ∨
      (∃ e, (load host.observed importer g entry a).1 = .error e) ∧
        c.module.scope.get? d = some (.forwarded ⟨d, c.module.specifier, a.registry.slot d⟩) := by
  have hp := performs_of_mem hcalls hc
  obtain ⟨q, compiled, before, hq, -, hgiven, hgrows⟩ :=
    hp.module_of_mem Graph.nodup_postorder unloaded_of_mem_postorder hc
  rw [hr] at hq
  cases hq
  cases hbefore : before d with
  | some m => exact Or.inl (Registry.isLoaded_iff.2 ⟨m, hgrows d m hbefore⟩)
  | none =>
    have hstub : c.module.scope.get? d =
        some (.forwarded ⟨d, c.module.specifier, a.registry.slot d⟩) := by
      have hname : r.specifier = c.module.specifier := Graph.specifier_of_get? hr
      have hscope : c.module.scope = bindings a.registry.slot before r := by rw [hgiven]; rfl
      rw [hscope, get?_bindings, if_pos hd, seen, hbefore, hname]
    cases hx : (load host.observed importer g entry a).1 with
    | error e => exact Or.inr ⟨⟨e, rfl⟩, hstub⟩
    | ok m =>
      refine Or.inl (closed_of_load_ok hx hr ?_ ?_ d hd)
      · exact Registry.isLoaded_eq_false_iff.2 (unloaded_of_mem_postorder _
          (hp.calls_isPrefix.subset (List.mem_map_of_mem hc)))
      · exact Registry.isLoaded_iff.2 ⟨_, (hp.behind_eq_some_iff Graph.nodup_postorder
          unloaded_of_mem_postorder).2 (Or.inr ⟨c, hc, exports, hok, rfl, rfl⟩)⟩

/-- A module that is new behind loading was made by the host of a record of the graph. -/
theorem exists_call_of_new
    (hcalls : (load host.observed importer g entry a).2.host.2 = a.host.2 ++ calls)
    {s : Specifier} (hnew : a.registry.isLoaded s = false)
    (hs : (load host.observed importer g entry a).2.registry.isLoaded s = true) :
    ∃ c ∈ calls, ∃ exports r, c.result = .ok exports ∧ c.module.specifier = s ∧
      g.get? s = some r := by
  by_cases hg : g.Ready
  · obtain ⟨-, made, hmade, hp⟩ := performed_load host importer entry a hg
    obtain rfl : made = calls := List.append_cancel_left (hmade.symm.trans hcalls)
    obtain ⟨m, hm⟩ := Registry.isLoaded_iff.1 hs
    rcases (hp.behind_eq_some_iff Graph.nodup_postorder unloaded_of_mem_postorder).1 hm with
      hold | ⟨c, hc, exports, hok, hname, -⟩
    · rw [Registry.isLoaded_iff.2 ⟨m, hold⟩] at hnew
      cases hnew
    · obtain ⟨r, _, _, hr, -⟩ :=
        hp.module_of_mem Graph.nodup_postorder unloaded_of_mem_postorder hc
      exact ⟨c, hc, exports, r, hok, hname, hname ▸ hr⟩
  · obtain ⟨_, -, e, -, hl⟩ := load_of_not_ready host.observed importer entry a hg
    rw [hl, hnew] at hs
    cases hs

end

end ScriptLoader.Assembly
