import ScriptLoader.Loader.Basic
import ScriptLoader.Proofs.Assembly.Needed
import ScriptLoader.Proofs.Graph.Closure

/-!
# Taking prepared modules into a graph

Before it assembles, a request takes the prepared modules that its entry depends on into its graph.
It follows the static dependencies of the records that it has, and takes only modules that were
prepared under its own options.

* `Loader.Stocked`: what holds of the prepared modules of a loader. Each static dependency of one of
  them is loaded or prepared, but not necessarily under the same options.
* `Loader.available?`: the records that a request has.
* `Loader.needed_adopt_iff`: the graph behind the taking serves the entry as well as all records
  that the request has.
-/

namespace ScriptLoader.Loader

variable {F σ : Type} {l : Loader F σ} {options : Compile.Options} {entry : Specifier} {g : Graph}

/-- What holds of the prepared modules of a loader. -/
structure Stocked (l : Loader F σ) : Prop where
  nodup : (Keyed.keys l.prepared).Nodup
  named : ∀ s p, l.prepared.get? s = some p → p.record.specifier = s
  /-- Their code was waited for before they were kept. -/
  ready : ∀ s p, l.prepared.get? s = some p → ∃ code, p.record.outcome = .ok code
  /-- Their static dependencies are loaded, or prepared under some options. -/
  closed : ∀ s p, l.prepared.get? s = some p → ∀ d ∈ p.record.report.static,
    l.registry.isLoaded d = true ∨ (l.prepared.get? d).isSome = true

theorem preparedRecord?_eq_some_iff {s : Specifier} {r : CompiledRecord} :
    l.preparedRecord? options s = some r ↔ l.prepared.get? s = some ⟨options, r⟩ := by
  unfold preparedRecord?
  split
  · next p hp =>
    obtain ⟨o, q⟩ := p
    rw [hp]
    by_cases ho : o = options <;> simp [ho]
  · next hn => simp [hn]

theorem skips_iff {s : Specifier} : l.skips options s = true ↔
    l.registry.isLoaded s = true ∨ (l.preparedRecord? options s).isSome = true := by
  simp [skips]

/-- The record that a request has of a module: the one of its graph, or a prepared one. -/
def available? (l : Loader F σ) (options : Compile.Options) (g : Graph) (s : Specifier) :
    Option CompiledRecord := (g.get? s).or (l.preparedRecord? options s)

/-- The static dependencies of a module that a request has a record of. -/
def static? (l : Loader F σ) (options : Compile.Options) (g : Graph) (s : Specifier) :
    Option (List Specifier) := (l.available? options g s).map (·.report.static)

/-! ## The table of records -/

/-- The records among prepared modules that were made under options. -/
def preparedUnder (options : Compile.Options) (t : Keyed Specifier Prepared) :
    List CompiledRecord :=
  t.filterMap fun (_, p) => if p.options = options then some p.record else none

theorem find?_preparedUnder {t : Keyed Specifier Prepared} (hnodup : (Keyed.keys t).Nodup)
    (hnamed : ∀ s p, t.get? s = some p → p.record.specifier = s) (s : Specifier) :
    (preparedUnder options t).find? (fun r => r.specifier = s) =
      match t.get? s with
      | some p => if p.options = options then some p.record else none
      | none => none := by
  induction t with
  | nil => rfl
  | cons x rest ih =>
    obtain ⟨k, p⟩ := x
    obtain ⟨hk, hrest⟩ := List.nodup_cons.1 hnodup
    have hne : ∀ j q, Keyed.get? j rest = some q → k ≠ j := by
      rintro j q hq rfl
      exact hk (Keyed.get?_isSome_iff.1 (by rw [hq]; rfl))
    have hname : p.record.specifier = k := hnamed k p (by simp [Keyed.get?])
    have ih := ih hrest fun j q hq => hnamed j q (by simp [Keyed.get?, hne j q hq, hq])
    have hcons : preparedUnder options ((k, p) :: rest) =
        (if p.options = options then [p.record] else []) ++ preparedUnder options rest := by
      unfold preparedUnder
      by_cases ho : p.options = options <;> simp [ho]
    rw [hcons, List.find?_append, ih]
    by_cases hks : k = s
    · subst hks
      have hnone : Keyed.get? k rest = none := by
        cases hq : Keyed.get? k rest with
        | none => rfl
        | some q => exact absurd rfl (hne k q hq)
      by_cases ho : p.options = options <;> simp [Keyed.get?, ho, hname, hnone]
    · by_cases ho : p.options = options <;> simp [Keyed.get?, ho, hname, hks]

theorem get?_map_static (rs : List CompiledRecord) (s : Specifier) :
    Keyed.get? s (rs.map fun r => (r.specifier, r.report.static)) =
      (rs.find? fun r => r.specifier = s).map (·.report.static) := by
  induction rs with
  | nil => rfl
  | cons r rs ih => by_cases hr : r.specifier = s <;> simp [Keyed.get?, hr, ih]

theorem find?_filter_unloaded (R : Registry F) (rs : List CompiledRecord) (s : Specifier) :
    (rs.filter fun r => !R.isLoaded r.specifier).find? (fun r => r.specifier = s) =
      if R.isLoaded s then none else rs.find? fun r => r.specifier = s := by
  induction rs with
  | nil => simp
  | cons r rs ih =>
    by_cases hr : r.specifier = s
    · subst hr
      by_cases hl : R.isLoaded r.specifier <;> simp_all
    · by_cases hl : R.isLoaded r.specifier <;> simp [hl, hr, ih]

theorem get?_recordTable_of_named (hnodup : (Keyed.keys l.prepared).Nodup)
    (hnamed : ∀ s p, l.prepared.get? s = some p → p.record.specifier = s) (s : Specifier) :
    (l.recordTable options g).get? s =
      if l.registry.isLoaded s then none else l.static? options g s := by
  have hprep : (preparedUnder options l.prepared).find? (fun r => r.specifier = s) =
      l.preparedRecord? options s := find?_preparedUnder hnodup hnamed s
  change Keyed.get? s (((g.records ++ preparedUnder options l.prepared).filter
    fun r => !l.registry.isLoaded r.specifier).map fun r => (r.specifier, r.report.static)) = _
  rw [get?_map_static, find?_filter_unloaded, List.find?_append, hprep]
  split
  · rfl
  · rfl

theorem get?_recordTable (h : l.Stocked) (s : Specifier) :
    (l.recordTable options g).get? s =
      if l.registry.isLoaded s then none else l.static? options g s :=
  get?_recordTable_of_named h.nodup h.named s

/-! ## Taking -/

theorem find?_missing (h : l.Stocked) (s : Specifier) :
    (l.missing options entry g).find? (fun r => r.specifier = s) =
      if s ∈ Closure.visit (l.recordTable options g) [] [entry] ∧ g.contains s = false then
        l.preparedRecord? options s
      else none := by
  unfold missing
  generalize Closure.visit (l.recordTable options g) [] [entry] = visited
  induction visited with
  | nil => simp
  | cons k rest ih =>
    have hname : ∀ r, l.preparedRecord? options k = some r → r.specifier = k :=
      fun r hr => h.named k _ (preparedRecord?_eq_some_iff.1 hr)
    rw [List.filterMap_cons]
    by_cases hc : g.contains k = true
    · simp only [hc, if_true]
      rw [ih]
      by_cases hks : s = k
      · subst hks
        simp [hc]
      · simp [hks]
    · simp only [Bool.not_eq_true] at hc
      simp only [hc, Bool.false_eq_true, if_false]
      by_cases hks : s = k
      · subst hks
        cases hp : l.preparedRecord? options s with
        | none => simp [ih, hp]
        | some r => simp [hname r hp, hc]
      · cases hp : l.preparedRecord? options k with
        | none => simp [ih, hks]
        | some r =>
          have hrs : r.specifier ≠ s := fun hrs => hks (by rw [← hrs, hname r hp])
          simp [ih, hks, hrs]

theorem get?_adopt (h : l.Stocked) (s : Specifier) :
    (l.adopt options entry g).1.get? s = (g.get? s).or
      (if s ∈ Closure.visit (l.recordTable options g) [] [entry] then l.preparedRecord? options s
        else none) := by
  unfold adopt
  rw [Graph.get?_insertAll, find?_missing h]
  by_cases hc : g.contains s = true
  · obtain ⟨r, hr⟩ := Option.isSome_iff_exists.1 hc
    simp [hr]
  · simp [Bool.eq_false_iff.2 hc]

theorem mem_records_adopt {r : CompiledRecord} (hr : r ∈ (l.adopt options entry g).1.records) :
    r ∈ g.records ∨ ∃ s, l.preparedRecord? options s = some r := by
  rcases Graph.mem_records_insertAll hr with hr | hr
  · exact Or.inl hr
  · obtain ⟨s, -, hs⟩ := List.mem_filterMap.1 hr
    split at hs
    · cases hs
    · exact Or.inr ⟨s, hs⟩

theorem ready_adopt (h : l.Stocked) (hg : g.Ready) : (l.adopt options entry g).1.Ready := by
  intro r hr
  rcases mem_records_adopt hr with hr | ⟨s, hs⟩
  · exact hg r hr
  · exact h.ready s _ (preparedRecord?_eq_some_iff.1 hs)

theorem mem_visit_of_needed (h : l.Stocked) {s : Specifier}
    (hs : Needed l.registry (l.static? options g) entry s) {ds : List Specifier}
    (hds : l.static? options g s = some ds) :
    s ∈ Closure.visit (l.recordTable options g) [] [entry] := by
  have htable : ∀ t ds, l.registry.isLoaded t = false → l.static? options g t = some ds →
      (l.recordTable options g).get? t = some ds := by
    intro t ds ht hd
    rw [get?_recordTable h, ht, hd]
    rfl
  rw [Closure.mem_visit_iff]
  induction hs generalizing ds with
  | entry hk => exact .start (List.mem_singleton.2 rfl) (htable _ _ hk hds)
  | dependency hn hs hd hk ih =>
    exact .next (ih hs) (htable _ _ hn.not_loaded hs) hd (htable _ _ hk hds)

/-- Of a module that is needed, the graph has what the request has. -/
theorem get?_adopt_of_needed (h : l.Stocked) {s : Specifier}
    (hs : Needed l.registry (l.static? options g) entry s) :
    (l.adopt options entry g).1.get? s = l.available? options g s := by
  rw [get?_adopt h]
  split
  · rfl
  · next hv =>
    cases ha : l.available? options g s with
    | none =>
      rw [available?, Option.or_eq_none_iff] at ha
      rw [ha.1, Option.none_or]
    | some r => exact absurd (mem_visit_of_needed h hs (by rw [static?, ha]; rfl)) hv

theorem needed_adopt_iff (h : l.Stocked) {s : Specifier} :
    Needed l.registry (l.adopt options entry g).1.static? entry s ↔
      Needed l.registry (l.static? options g) entry s := by
  constructor
  · refine Needed.mono fun t ds _ hd => ?_
    rw [Graph.static?, get?_adopt h] at hd
    rw [static?, available?]
    cases hg : g.get? t with
    | some r => simpa [hg] using hd
    | none =>
      simp only [hg, Option.none_or] at hd ⊢
      split at hd
      · exact hd
      · cases hd
  · refine Needed.mono fun t ds ht hd => ?_
    rw [Graph.static?, get?_adopt_of_needed h ht]
    exact hd

end ScriptLoader.Loader
