import ScriptLoader.Proofs.Loader.Adoption
import ScriptLoader.Proofs.Resolution.Execution

/-!
# Keeping what is left over

Behind its assembly, whether it failed or not, a request keeps the records of its graph whose
modules are not loaded and forgets those that are.

* `Loader.get?_retain`: what is prepared behind that.
* `Loader.stocked_retain`: what holds of the prepared modules holds again. A module that was left
  out of the graph was loaded or prepared, and what is not of the graph is not forgotten.
-/

namespace ScriptLoader.Loader

variable {F σ : Type} {options : Compile.Options}

theorem assembly_foldl_retainRecord (rs : List CompiledRecord) (l : Loader F σ) :
    (rs.foldl (retainRecord options) l).assembly = l.assembly := by
  induction rs generalizing l with
  | nil => rfl
  | cons r rs ih => exact ih _

theorem assembly_retain (l : Loader F σ) (options : Compile.Options) (g : Graph) :
    (l.retain options g).assembly = l.assembly := assembly_foldl_retainRecord g.records l

theorem get?_retainRecord (l : Loader F σ) (r : CompiledRecord) (s : Specifier) :
    (retainRecord options l r).prepared.get? s =
      if s = r.specifier then
        if l.registry.isLoaded s then none else some ⟨options, r⟩
      else l.prepared.get? s := by
  unfold retainRecord
  dsimp only
  by_cases hs : s = r.specifier
  · subst hs
    split
    · simp [Keyed.get?_erase]
    · simp [Keyed.get?_put]
  · split
    · simp [Keyed.get?_erase, hs]
    · simp [Keyed.get?_put, hs]

/-- What became of the module of a specifier: nothing, or it is loaded and forgotten, or it is kept
as one of the records. -/
inductive Retained (options : Compile.Options) (l k : Loader F σ) (rs : List CompiledRecord)
    (s : Specifier) : Prop where
  | untouched : s ∉ rs.map (·.specifier) → k.prepared.get? s = l.prepared.get? s →
    Retained options l k rs s
  | forgotten : l.registry.isLoaded s = true → k.prepared.get? s = none → Retained options l k rs s
  | kept {r : CompiledRecord} : r ∈ rs → r.specifier = s → l.registry.isLoaded s = false →
    k.prepared.get? s = some ⟨options, r⟩ → Retained options l k rs s

theorem retained_foldl (rs : List CompiledRecord) (l : Loader F σ) (s : Specifier) :
    Retained options l (rs.foldl (retainRecord options) l) rs s := by
  induction rs generalizing l with
  | nil => exact .untouched (by simp) rfl
  | cons r rs ih =>
    rw [List.foldl_cons]
    rcases ih (retainRecord options l r) with ⟨hs, hk⟩ | ⟨hl, hk⟩ | ⟨hq, hname, hl, hk⟩
    · rw [get?_retainRecord] at hk
      by_cases hsr : s = r.specifier
      · cases hl : l.registry.isLoaded s with
        | true => exact .forgotten hl (by rw [hk, if_pos hsr, hl]; rfl)
        | false =>
          exact .kept List.mem_cons_self hsr.symm hl (by rw [hk, if_pos hsr, hl]; rfl)
      · exact .untouched (by simp only [List.map_cons, List.mem_cons, not_or]; exact ⟨hsr, hs⟩)
          (by rw [hk, if_neg hsr])
    · exact .forgotten hl hk
    · exact .kept (List.mem_cons_of_mem _ hq) hname hl hk

theorem get?_retain (l : Loader F σ) (options : Compile.Options) (g : Graph) (s : Specifier) :
    Retained options l (l.retain options g) g.records s := retained_foldl g.records l s

theorem nodup_foldl_retainRecord (rs : List CompiledRecord) {l : Loader F σ}
    (h : (Keyed.keys l.prepared).Nodup) :
    (Keyed.keys (rs.foldl (retainRecord options) l).prepared).Nodup := by
  induction rs generalizing l with
  | nil => exact h
  | cons r rs ih =>
    refine ih ?_
    unfold retainRecord
    dsimp only
    split
    · exact Keyed.nodup_keys_erase h
    · exact Keyed.nodup_keys_put h

/-! ## What holds of prepared modules -/

theorem Stocked.of_eq {l k : Loader F σ} (h : l.Stocked) (hp : k.prepared = l.prepared)
    (ha : k.assembly = l.assembly) : k.Stocked := by
  have hr : k.registry = l.registry := congrArg Assembly.registry ha
  exact ⟨hp ▸ h.nodup, hp ▸ h.named, hp ▸ h.ready, by rw [hp, hr]; exact h.closed⟩

/-- What a request knows of its graph when it keeps what is left over: of each record, the code was
waited for, and every static dependency is loaded, prepared or of the graph itself. -/
structure Settled (l : Loader F σ) (g : Graph) : Prop where
  ready : g.Ready
  closed : ∀ r ∈ g.records, ∀ d ∈ r.report.static, l.registry.isLoaded d = true ∨
    (l.prepared.get? d).isSome = true ∨ d ∈ g.specifiers

/-- Keeping the records of a graph behind its assembly, which may have loaded more modules. -/
theorem stocked_retain {l k : Loader F σ} {g : Graph} (h : l.Stocked) (hg : l.Settled g)
    (hp : k.prepared = l.prepared) (hk : Assembly.Keeps [] l.assembly k.assembly) :
    (k.retain options g).Stocked := by
  have hreg : (k.retain options g).registry = k.registry :=
    congrArg Assembly.registry (assembly_retain k options g)
  -- What was at hand for a dependency, or is of the graph, is at hand again.
  have still : ∀ d, l.registry.isLoaded d = true ∨ (l.prepared.get? d).isSome = true ∨
      d ∈ g.specifiers → (k.retain options g).registry.isLoaded d = true ∨
        ((k.retain options g).prepared.get? d).isSome = true := by
    intro d hd
    rw [hreg]
    rcases get?_retain k options g d with ⟨hs, hd'⟩ | ⟨hl, -⟩ | ⟨-, -, -, hd'⟩
    · rcases hd with hd | hd | hd
      · exact Or.inl (hk.isLoaded hd)
      · exact Or.inr (by rw [hd', hp, hd])
      · exact absurd hd hs
    · exact Or.inl hl
    · exact Or.inr (by rw [hd']; rfl)
  constructor
  · exact nodup_foldl_retainRecord g.records (hp ▸ h.nodup)
  · intro s p hs
    rcases get?_retain k options g s with ⟨-, hs'⟩ | ⟨-, hs'⟩ | ⟨-, hname, -, hs'⟩ <;>
      rw [hs] at hs'
    · exact h.named s p (hp ▸ hs'.symm)
    · cases hs'
    · cases hs'
      exact hname
  · intro s p hs
    rcases get?_retain k options g s with ⟨-, hs'⟩ | ⟨-, hs'⟩ | ⟨hr, -, -, hs'⟩ <;> rw [hs] at hs'
    · exact h.ready s p (hp ▸ hs'.symm)
    · cases hs'
    · cases hs'
      exact hg.ready _ hr
  · intro s p hs d hd
    rcases get?_retain k options g s with ⟨-, hs'⟩ | ⟨-, hs'⟩ | ⟨hr, -, -, hs'⟩ <;> rw [hs] at hs'
    · exact still d ((h.closed s p (hp ▸ hs'.symm) d hd).imp_right Or.inl)
    · cases hs'
    · cases hs'
      exact still d (hg.closed _ hr d hd)

/-! ## The graph of a request -/

variable {l : Loader F σ} {entry : Specifier} {g : Graph}

/-- What the resolution of a request leaves out is loaded, or prepared under the options. -/
def Resolved (l : Loader F σ) (options : Compile.Options) (entry : Specifier) (g : Graph) : Prop :=
  (l.workshop.resolve (l.skips options) l.settings.limit options [entry]).1 = .ok g

theorem Resolved.closed (h : l.Resolved options entry g) {r : CompiledRecord}
    (hr : r ∈ g.records) {d : Specifier} (hd : d ∈ r.report.static) :
    l.skips options d = true ∨ d ∈ g.specifiers := by
  obtain ⟨hwanted, hrec⟩ := Workshop.resolve_wanted h
  cases hk : l.skips options d with
  | true => exact Or.inl rfl
  | false =>
    have hw := (hwanted r.specifier).1 (List.mem_map_of_mem hr)
    exact Or.inr ((hwanted d).2 (.dependency hw (hrec r hr) (List.mem_append_left _ hd) hk))

theorem Resolved.entry_mem (h : l.Resolved options entry g) (hk : l.skips options entry = false) :
    entry ∈ g.specifiers :=
  ((Workshop.resolve_wanted h).1 entry).2 (.entry (List.mem_singleton.2 rfl) hk)

/-- The graph that a request assembles, with prepared modules taken in, is settled. -/
theorem settled_adopt (h : l.Stocked) (hg : l.Resolved options entry g) (hready : g.Ready) :
    l.Settled (l.adopt options entry g.awaitCode.1).1 := by
  have hready' : g.awaitCode.1.Ready := fun r hr =>
    (Graph.readyCode?_of_awaitCode hready hr).imp fun _ hc => hc.1
  refine ⟨ready_adopt h hready', ?_⟩
  intro r hr d hd
  rcases mem_records_adopt hr with hr | ⟨s, hs⟩
  · rw [Graph.awaitCode_of_ready hready] at hr
    obtain ⟨q, hq, rfl⟩ := List.mem_map.1 hr
    rcases hg.closed hq hd with hk | hd
    · rcases skips_iff.1 hk with hk | hk
      · exact Or.inl hk
      · obtain ⟨p, hp⟩ := Option.isSome_iff_exists.1 hk
        exact Or.inr (Or.inl (by rw [preparedRecord?_eq_some_iff.1 hp]; rfl))
    · refine Or.inr (Or.inr (Graph.contains_iff.1 (Graph.contains_insertAll ?_)))
      rw [Graph.contains_awaitCode hready]
      exact Graph.contains_iff.2 hd
  · exact (h.closed s _ (preparedRecord?_eq_some_iff.1 hs) d hd).imp_right Or.inl

end ScriptLoader.Loader
