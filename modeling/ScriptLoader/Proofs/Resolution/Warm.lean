import ScriptLoader.Proofs.Loader.Begun
import ScriptLoader.Proofs.Resolution.Budget
import ScriptLoader.Proofs.Resolution.History

/-!
# Resolving again with stored compiles

When the code of a graph was waited for, the store has a compile of each of its modules: it was
stored then, or it was there before and was used. As long as the same texts are found, another
resolution finds all of these and comes to the same modules without a compile. One that is not to
use stored compiles compiles each module once, and waiting for its code replaces what was stored.

* `Resolution.Gathers`: what a graph that a resolution comes to holds.
* `Resolution.returns_of_agree`: a resolution that finds the same dependencies comes to a graph of
  the same modules.
* `Workshop.HasStored`: the store has a certain compile of a module.
* `Workshop.hasStored_of_gathers`: what the store has once the code of a graph was waited for.
* `Workshop.resolves_again`: the second resolution, in any order of completions.
-/

namespace ScriptLoader

open Resolution

/-! ## Modules with the same dependencies -/

namespace Resolution

variable {skip : Specifier → Bool} {outcomes other : Outcomes} {entries : List Specifier}
  {limit : Nat} {g : Graph}

/-- The graph holds the wanted modules, each once, with what was made of them. -/
structure Gathers (skip : Specifier → Bool) (outcomes : Outcomes) (entries : List Specifier)
    (g : Graph) : Prop where
  nodup : g.specifiers.Nodup
  mem_iff : ∀ s, s ∈ g.specifiers ↔ Wanted skip outcomes entries s
  record_eq : ∀ r ∈ g.records, outcomes.of r.specifier = .ok r

/-- A graph that a resolution comes to holds the modules that were started. -/
theorem gathers_of_returns {c : Course} (hc : Reaches skip outcomes (.start skip limit entries) c)
    (hg : Returns skip outcomes c (.ok g)) :
    Gathers skip outcomes entries g ∧ c.started.Perm g.specifiers := by
  have hs : c.Sound skip outcomes entries := Course.sound_of_reaches hc Course.sound_start
  cases hg with
  | graph hdone =>
    have hperm : c.started.Perm c.resolution.graph.specifiers := by
      simpa [hdone] using hs.started_perm
    exact ⟨⟨hperm.nodup_iff.1 hs.started_nodup, fun s => hs.mem_specifiers_iff hdone,
      hs.record_eq⟩, hperm⟩

/-- If each module of a graph has the same dependencies again, the same modules are wanted. -/
theorem Gathers.wanted_iff (hg : Gathers skip outcomes entries g)
    (hagree : ∀ r ∈ g.records, ∃ q, other.of r.specifier = .ok q ∧
      dependencies q = dependencies r) (s : Specifier) :
    Wanted skip other entries s ↔ s ∈ g.specifiers := by
  constructor
  · intro h
    induction h with
    | entry hs hk => exact (hg.mem_iff _).2 (.entry hs hk)
    | dependency _ hq hd hk ih =>
      obtain ⟨r, hr, rfl⟩ := List.mem_map.1 ih
      obtain ⟨q, hq', hdeps⟩ := hagree r hr
      rw [Except.ok.inj (hq.symm.trans hq'), hdeps] at hd
      exact (hg.mem_iff _).2 (.dependency ((hg.mem_iff _).1 ih) (hg.record_eq r hr) hd hk)
  · intro h
    replace h := (hg.mem_iff s).1 h
    induction h with
    | entry hs hk => exact .entry hs hk
    | dependency hwanted hr hd hk ih =>
      obtain ⟨r, hmem, rfl⟩ := List.mem_map.1 ((hg.mem_iff _).2 hwanted)
      obtain ⟨q, hq, hdeps⟩ := hagree r hmem
      rw [Except.ok.inj (hr.symm.trans (hg.record_eq r hmem)), ← hdeps] at hd
      exact .dependency ih hq hd hk

/-- Such a resolution comes to a graph of the same modules, whatever its order. -/
theorem returns_of_agree {c d : Course} {result : Except LoadError Graph}
    (hc : Reaches skip outcomes (.start skip limit entries) c)
    (hg : Returns skip outcomes c (.ok g))
    (hagree : ∀ r ∈ g.records, ∃ q, other.of r.specifier = .ok q ∧
      dependencies q = dependencies r)
    (hd : Reaches skip other (.start skip limit entries) d)
    (hresult : Returns skip other d result) :
    ∃ h, result = .ok h ∧ h.specifiers.Perm g.specifiers := by
  have hgathers := (gathers_of_returns hc hg).1
  have hwanted := hgathers.wanted_iff hagree
  rcases returns_cases hd hresult with ⟨h, rfl, -⟩ | ⟨-, hlt⟩ | ⟨s, hs, e, he, -⟩
  · have hagain := (gathers_of_returns hd hresult).1
    refine ⟨h, rfl, (List.perm_ext_iff_of_nodup hagain.nodup hgathers.nodup).2 fun s => ?_⟩
    exact (hagain.mem_iff s).trans (hwanted s)
  · -- The first resolution wanted as many modules, and had the same limit.
    have hset : wanted skip other entries = wanted skip outcomes entries :=
      Set.ext fun s => (hwanted s).trans (hgathers.mem_iff s)
    rcases returns_cases hc hg with ⟨_, -, hle, -⟩ | ⟨he, -⟩ | ⟨_, -, _, -, he⟩
    · exact absurd (hset ▸ hlt) (not_lt_of_ge hle)
    · cases he
    · cases he
  · obtain ⟨r, hr, rfl⟩ := List.mem_map.1 ((hwanted s).1 hs)
    obtain ⟨q, hq, -⟩ := hagree r hr
    rw [hq] at he
    cases he

end Resolution

/-- A record as it is made from what is stored of it. -/
def CompiledRecord.reused (r : CompiledRecord) : CompiledRecord :=
  { r with awaited := true, cached := true, checksum? := none }

namespace Workshop

variable {w v u : Workshop} {options : Compile.Options} {s : Specifier} {r : CompiledRecord}
  {found : Fetch.Found} {c : Cache.Checksum} {code : String} {e : Cache.Entry} {g : Graph}

/-! ## What is stored -/

/-- The store has a compile of a module. -/
def HasStored (w : Workshop) (s : Specifier) (e : Cache.Entry) : Prop :=
  ∃ st, w.cache = some st ∧ st.get? s = .ok (some e)

/-- There is a store, and it can hold whatever of a graph is to be stored. -/
def CanStore (w : Workshop) (g : Graph) : Prop :=
  ∃ st, w.cache = some st ∧ ∀ r ∈ g.records, ∀ c code, r.checksum? = some c →
    r.outcome = .ok code → st.Holds ⟨c, r.report, code⟩

theorem CanStore.of_alike (hu : u.Alike w) (h : w.CanStore g) : u.CanStore g := by
  obtain ⟨st, hst, hholds⟩ := h
  exact ⟨st, hu.cache.trans hst, hholds⟩

/-- Storing records leaves a store that has them, or what it had. -/
theorem exists_cache_foldl_store {st : Cache.Store} (rs : List CompiledRecord)
    (hst : w.cache = some st) :
    ∃ last, (rs.foldl store w).cache = some last ∧ last.isDatabase = st.isDatabase ∧
      ∀ s, last.get? s = st.get? s ∨ ∃ r ∈ rs, r.specifier = s ∧ last.Has r := by
  have hsome : (rs.foldl store w).cache.isSome = true := by
    rw [isSome_cache_foldl_store, hst]
    rfl
  obtain ⟨last, hlast⟩ := Option.isSome_iff_exists.1 hsome
  obtain ⟨old, hold, hkind, hget⟩ := cache_foldl_store hlast
  rw [hst] at hold
  cases hold
  exact ⟨last, hlast, hkind, hget⟩

/-- Storing records of different modules stores each of them. -/
theorem hasStored_foldl_store {rs : List CompiledRecord} {st : Cache.Store}
    (hn : (rs.map (·.specifier)).Nodup) (hst : w.cache = some st) (hr : r ∈ rs)
    (hc : r.checksum? = some c) (hcode : r.readyCode? = some code)
    (hholds : st.Holds ⟨c, r.report, code⟩) :
    HasStored (rs.foldl store w) r.specifier ⟨c, r.report, code⟩ := by
  induction rs generalizing w st with
  | nil => cases hr
  | cons q rs ih =>
    obtain ⟨hq, hn⟩ := List.nodup_cons.1 hn
    rcases List.mem_cons.1 hr with rfl | hr
    · have hput : (w.store r).cache = some (st.put r.specifier ⟨c, r.report, code⟩) := by
        simp only [store, hst, hc, hcode]
      obtain ⟨last, hlast, -, hget⟩ := exists_cache_foldl_store rs hput
      refine ⟨last, hlast, ?_⟩
      rcases hget r.specifier with hsame | ⟨q, hmem, hname, -⟩
      · rw [hsame, Cache.Store.get?_put hholds, if_pos rfl]
      · exact absurd (List.mem_map.2 ⟨q, hmem, hname⟩) hq
    · obtain ⟨mid, hmid, hkind, -⟩ := exists_cache_foldl_store [q] hst
      exact ih hn hmid hr (by rwa [Cache.Store.Holds, hkind])

/-- Waiting for the code of a graph that has all of it stores what nobody had waited for. -/
theorem awaitCode_of_ready (w : Workshop) (h : g.Ready) :
    (w.awaitCode g).2 =
      ((g.records.filter fun r => !r.awaited).map (·.waited)).foldl store w := by
  have hnewly : ∀ rs : List CompiledRecord,
      ((rs.zip (rs.map (·.waited))).filterMap fun p => if p.1.awaited then none else some p.2) =
        (rs.filter fun r => !r.awaited).map (·.waited) := by
    intro rs
    induction rs with
    | nil => rfl
    | cons r rs ih =>
      cases hr : r.awaited <;> simpa [hr] using ih
  simp only [awaitCode, Graph.awaitCode_of_ready h, hnewly]

theorem hasStored_of_compiled (hn : g.specifiers.Nodup) (hready : g.Ready) (hstore : w.CanStore g)
    (hr : r ∈ g.records) (hawaited : r.awaited = false) (hc : r.checksum? = some c)
    (ho : r.outcome = .ok code) :
    HasStored (w.awaitCode g).2 r.specifier ⟨c, r.report, code⟩ := by
  obtain ⟨st, hst, hholds⟩ := hstore
  have hmem : r.waited ∈ (g.records.filter fun r => !r.awaited).map (·.waited) :=
    List.mem_map_of_mem (List.mem_filter.2 ⟨hr, by rw [hawaited]; rfl⟩)
  have hnodup : (((g.records.filter fun r => !r.awaited).map (·.waited)).map
      (·.specifier)).Nodup := by
    rw [List.map_map]
    exact (hn.sublist (List.filter_sublist.map _) :)
  have hcode : r.waited.readyCode? = some code := by
    simp [CompiledRecord.readyCode?, CompiledRecord.waited, ho]
  rw [awaitCode_of_ready w hready]
  exact hasStored_foldl_store (r := r.waited) hnodup hst hmem hc hcode (hholds r hr c code hc ho)

/-- Waiting for the code of a graph leaves a store that has records of it, or what it had. -/
theorem exists_cache_awaitCode {st : Cache.Store} (g : Graph) (hst : w.cache = some st) :
    ∃ last, (w.awaitCode g).2.cache = some last ∧
      ∀ s, last.get? s = st.get? s ∨ ∃ r ∈ g.records, r.specifier = s ∧ last.Has r := by
  have hsome : (w.awaitCode g).2.cache.isSome = true := by
    rw [awaitCode, isSome_cache_foldl_store, hst]
    rfl
  obtain ⟨last, hlast⟩ := Option.isSome_iff_exists.1 hsome
  obtain ⟨old, hold, -, hget⟩ := cache_awaitCode hlast
  rw [hst] at hold
  cases hold
  exact ⟨last, hlast, hget⟩

/-- What is not of a fresh compile stays as it is stored. -/
theorem hasStored_of_cached (hn : g.specifiers.Nodup) (hr : r ∈ g.records)
    (hc : r.checksum? = none) (h : w.HasStored r.specifier e) :
    HasStored (w.awaitCode g).2 r.specifier e := by
  obtain ⟨st, hst, he⟩ := h
  obtain ⟨last, hlast, hget⟩ := exists_cache_awaitCode g hst
  refine ⟨last, hlast, ?_⟩
  rcases hget r.specifier with hsame | ⟨q, hq, hname, c, -, hqc, -⟩
  · exact hsame.trans he
  · rw [List.inj_on_of_nodup_map hn hq hr hname, hc] at hqc
    cases hqc

/-! ## Making records -/

/-- A stored compile of the text that is found is used. -/
theorem order_of_hasStored (hrefresh : w.refresh = false)
    (hfound : (Fetch.run w.source s options.markup).1 = .ok found) (h : w.HasStored s e)
    (hc : e.checksum = Cache.Checksum.compute found.text options) :
    (w.order options s).1 = .done (.ok
      { specifier := s, location := found.location, report := e.report, outcome := .ok e.code,
        awaited := true, cached := true }) := by
  obtain ⟨st, hst, he⟩ := h
  have hfetch : (w.fetch s options.markup).1 = .ok found := hfound
  have halike := alike_fetch w s options.markup
  have hlook : ((w.fetch s options.markup).2.lookUp s
      (some (Cache.Checksum.compute found.text options))).1 = some e := by
    simp only [lookUp, halike.cache, hst, halike.refresh, hrefresh]
    simp only [Cache.Store.lookUp, he, hc, if_true]
  rw [order_eq, hfetch]
  simp only [halike.cache, hst, Option.map_some, hlook]

/-- A module is compiled if stored compiles are not to be used. -/
theorem order_of_refresh (hrefresh : w.refresh = true)
    (hfound : (Fetch.run w.source s options.markup).1 = .ok found) :
    (w.order options s).1 = .compiling (w.compile ⟨s, found.location, found.text, options⟩
      (w.cache.map fun _ => Cache.Checksum.compute found.text options)).1 := by
  have hfetch : (w.fetch s options.markup).1 = .ok found := hfound
  have halike := alike_fetch w s options.markup
  have hlook : ∀ c, (w.fetch s options.markup).2.lookUp s c =
      (none, (w.fetch s options.markup).2) := by
    intro c
    unfold lookUp
    split
    · next h => rw [halike.refresh, hrefresh] at h; cases h
    · rfl
  rw [order_eq, hfetch]
  simp only [hlook, halike.cache]
  rw [outcome_compile halike]

theorem found_of_outcomes (h : (w.outcomes options).of s = .ok r) :
    ∃ found, (Fetch.run w.source s options.markup).1 = .ok found ∧ r.location = found.location :=
  have ⟨found, hfound, hlocation, _⟩ := made_of_outcomes h
  ⟨found, hfound, hlocation⟩

/-- Nobody has waited for what is to be stored. -/
theorem awaited_of_checksum? (h : (w.outcomes options).of s = .ok r) (hc : r.checksum? = some c) :
    r.awaited = false := by
  change (w.order options s).1.outcome = .ok r at h
  rw [order_eq] at h
  split at h
  · cases h
  · dsimp only at h
    split at h
    · cases h
      cases hc
    · simp only [Order.outcome, compile] at h
      split at h
      · cases h
        rfl
      · cases h
      · cases h

theorem compile_eq_ok {q : Compile.Request} {report : Compile.Report}
    (h : (w.compiler q).2 = some report) (checksum? : Option Cache.Checksum) :
    ∃ r, (w.compile q checksum?).1 = .ok r ∧ r.report = report := by
  have hreport : ((w.log (.submitting q.specifier q.location)).compiler q).2 = some report := h
  simp only [compile, hreport]
  exact ⟨_, rfl, rfl⟩

/-- Once the code of a graph was waited for, the store has a compile of each module, of the text
that was found for it. -/
theorem hasStored_of_gathers {skip : Specifier → Bool} {entries : List Specifier}
    (hg : Gathers skip (w.outcomes options) entries g) (hready : g.Ready) (hstore : w.CanStore g)
    (hu : u.Alike w) (hr : r ∈ g.records) :
    ∃ found code, (Fetch.run w.source r.specifier options.markup).1 = .ok found ∧
      r.location = found.location ∧ r.outcome = .ok code ∧
      HasStored (u.awaitCode g).2 r.specifier
        ⟨Cache.Checksum.compute found.text options, r.report, code⟩ := by
  have hmade := hg.record_eq r hr
  obtain ⟨found, hfound, hlocation, horigin⟩ := made_of_outcomes hmade
  obtain ⟨code, ho⟩ := hready r hr
  refine ⟨found, code, hfound, hlocation, ho, ?_⟩
  cases horigin with
  | @stored st e hst he hc hreport hcode hnone _ =>
    have hentry : e = ⟨Cache.Checksum.compute found.text options, r.report, code⟩ := by
      rw [ho] at hcode
      rw [← hc, hreport, Except.ok.inj hcode]
    exact hasStored_of_cached hg.nodup hr hnone ⟨st, hu.cache.trans hst, hentry ▸ he⟩
  | compiled _ hc =>
    obtain ⟨st, hst, -⟩ := id hstore
    rw [hst, Option.map_some] at hc
    exact hasStored_of_compiled hg.nodup hready (hstore.of_alike hu) hr
      (awaited_of_checksum? hmade hc) hc ho

/-! ## Resolving again -/

variable {skip : Specifier → Bool} {limit : Nat} {entries : List Specifier}

/-- A module whose compile is stored is not submitted. -/
theorem submits_of_hasStored (hrefresh : w.refresh = false)
    (hfound : (Fetch.run w.source s options.markup).1 = .ok found) (h : w.HasStored s e)
    (hc : e.checksum = Cache.Checksum.compute found.text options) :
    w.submits options s = false := by
  rw [submits, order_of_hasStored hrefresh hfound h hc]

/-- A module that is found is submitted if stored compiles are not to be used. -/
theorem submits_of_refresh (hrefresh : w.refresh = true)
    (hfound : (Fetch.run w.source s options.markup).1 = .ok found) :
    w.submits options s = true := by
  rw [submits, order_of_refresh hrefresh hfound]

/-- A resolution that is run submits modules of its graph. -/
theorem compiled_resolve (h : (w.resolve skip limit options entries).1 = .ok g) :
    ∃ begun : List Specifier, begun.Perm g.specifiers ∧
      (w.resolve skip limit options entries).2.compiled =
        w.compiled ++ begun.filter (w.submits options) := by
  have hfollows : Resolving.Follows w options (.start skip limit entries)
      (.start skip limit entries) :=
    ⟨rfl, by simp [Resolving.inFlight, Resolving.start, Course.start], fun p hp => by cases hp⟩
  have hnone : ([] : List Specifier).Perm
      ((Resolving.start skip limit entries).resolution.graph.specifiers ++
        (Resolving.start skip limit entries).running.map (·.1)) := .refl _
  exact ⟨(Resolving.start skip limit entries).begun skip options w,
    Resolving.begun_perm hfollows Course.sound_start hnone h,
    (Resolving.accounted_run skip options _ w).2⟩

/-- What a workshop does when it resolves entries that are all stored: in any order of completions
nothing is submitted and the modules of a graph are found, with their locations, reports and
code. -/
structure Reuses (v : Workshop) (skip : Specifier → Bool) (limit : Nat)
    (options : Compile.Options) (entries : List Specifier) (g : Graph) : Prop where
  submits : ∀ c, Reaches skip (v.outcomes options) (.start skip limit entries) c →
    ∀ s ∈ c.started, v.submits options s = false
  returns : ∀ c result, Reaches skip (v.outcomes options) (.start skip limit entries) c →
    Returns skip (v.outcomes options) c result →
    ∃ h, result = .ok h ∧ h.specifiers.Perm g.specifiers ∧
      ∀ r ∈ g.records, h.get? r.specifier = some r.reused
  compiled : (v.resolve skip limit options entries).2.compiled = v.compiled

/-- What a workshop does when it resolves entries without the compiles that are stored: in any order
of completions that comes to a graph, the modules of the graph are submitted, each once, and if its
code is waited for, the store has the new compile of each of them. It comes to a graph of the same
modules as before if the compiler has the same reports of them. -/
structure Recompiles (v : Workshop) (skip : Specifier → Bool) (limit : Nat)
    (options : Compile.Options) (entries : List Specifier) (g : Graph) : Prop where
  submits : ∀ c h, Reaches skip (v.outcomes options) (.start skip limit entries) c →
    Returns skip (v.outcomes options) c (.ok h) →
    (c.started.filter (v.submits options)).Perm h.specifiers ∧ h.specifiers.Nodup
  compiled : ∀ h, (v.resolve skip limit options entries).1 = .ok h → ∃ more : List Specifier,
    (v.resolve skip limit options entries).2.compiled = v.compiled ++ more ∧
      more.Perm h.specifiers
  stores : ∀ c h (x : Workshop), Reaches skip (v.outcomes options) (.start skip limit entries) c →
    Returns skip (v.outcomes options) c (.ok h) → v.CanStore h → x.Alike v →
    (x.awaitCode h).1.2 = .ok () → ∀ r ∈ h.records, ∃ found code,
      (Fetch.run v.source r.specifier options.markup).1 = .ok found ∧
      v.compiler ⟨r.specifier, found.location, found.text, options⟩ = (.ok code, some r.report) ∧
      HasStored (x.awaitCode h).2 r.specifier
        ⟨Cache.Checksum.compute found.text options, r.report, code⟩
  returns : (∀ r ∈ g.records, ∀ found,
      (Fetch.run v.source r.specifier options.markup).1 = .ok found →
      (v.compiler ⟨r.specifier, found.location, found.text, options⟩).2 = some r.report) →
    ∀ c result, Reaches skip (v.outcomes options) (.start skip limit entries) c →
      Returns skip (v.outcomes options) c result →
      ∃ h, result = .ok h ∧ h.specifiers.Perm g.specifiers

/-- Entries whose modules are all stored are resolved from the store. -/
theorem reuses_of_hasStored {outcomes : Outcomes} {c : Course}
    (hc : Reaches skip outcomes (.start skip limit entries) c)
    (hg : Returns skip outcomes c (.ok g)) (hrefresh : v.refresh = false)
    (hstored : ∀ r ∈ g.records, ∃ found code,
      (Fetch.run v.source r.specifier options.markup).1 = .ok found ∧
      r.location = found.location ∧ r.outcome = .ok code ∧
      v.HasStored r.specifier ⟨Cache.Checksum.compute found.text options, r.report, code⟩) :
    v.Reuses skip limit options entries g := by
  have hgathers := (gathers_of_returns hc hg).1
  have hmade : ∀ r ∈ g.records, (v.outcomes options).of r.specifier = .ok r.reused ∧
      v.submits options r.specifier = false := by
    intro r hr
    obtain ⟨found, code, hfound, hlocation, ho, hentry⟩ := hstored r hr
    refine ⟨?_, submits_of_hasStored hrefresh hfound hentry rfl⟩
    change (v.order options r.specifier).1.outcome = _
    rw [order_of_hasStored hrefresh hfound hentry rfl, CompiledRecord.reused, hlocation, ho]
    rfl
  have hagree : ∀ r ∈ g.records, ∃ q, (v.outcomes options).of r.specifier = .ok q ∧
      dependencies q = dependencies r := fun r hr => ⟨r.reused, (hmade r hr).1, rfl⟩
  have hsubmits : ∀ s ∈ g.specifiers, v.submits options s = false := by
    intro s hs
    obtain ⟨r, hr, rfl⟩ := List.mem_map.1 hs
    exact (hmade r hr).2
  have hreturns : ∀ d result, Reaches skip (v.outcomes options) (.start skip limit entries) d →
      Returns skip (v.outcomes options) d result →
      ∃ h, result = .ok h ∧ h.specifiers.Perm g.specifiers ∧
        ∀ r ∈ g.records, h.get? r.specifier = some r.reused := by
    intro d result hd hresult
    obtain ⟨h, rfl, hperm⟩ := returns_of_agree hc hg hagree hd hresult
    have hagain := (gathers_of_returns hd hresult).1
    refine ⟨h, rfl, hperm, fun r hr => ?_⟩
    obtain ⟨q, hq, hname⟩ := List.mem_map.1 (hperm.mem_iff.2 (List.mem_map_of_mem hr))
    have hmade := (hname ▸ hagain.record_eq q hq).symm.trans (hmade r hr).1
    rw [← hname, Graph.get?_of_mem hagain.nodup hq, Except.ok.inj hmade]
  refine ⟨fun d hd s hs => ?_, hreturns, ?_⟩
  · have hsound : d.Sound skip (v.outcomes options) entries :=
      Course.sound_of_reaches hd Course.sound_start
    exact hsubmits s ((hgathers.wanted_iff hagree s).1 (hsound.started_wanted s hs))
  · obtain ⟨d, hd, hresult⟩ := v.resolve_returns skip limit options entries
    obtain ⟨h, hh, hperm, -⟩ := hreturns d _ hd hresult
    obtain ⟨begun, hbegun, hcompiled⟩ := compiled_resolve hh
    have hnone : begun.filter (v.submits options) = [] := by
      refine List.filter_eq_nil_iff.2 fun s hs => ?_
      rw [hsubmits s ((hbegun.trans hperm).mem_iff.1 hs)]
      exact Bool.false_ne_true
    rw [hcompiled, hnone, List.append_nil]

/-- Entries that are resolved without what is stored are compiled and stored anew. -/
theorem recompiles_of_refresh {outcomes : Outcomes} {c : Course}
    (hc : Reaches skip outcomes (.start skip limit entries) c)
    (hg : Returns skip outcomes c (.ok g)) (hrefresh : v.refresh = true)
    (hfound : ∀ r ∈ g.records, ∃ found,
      (Fetch.run v.source r.specifier options.markup).1 = .ok found) :
    v.Recompiles skip limit options entries g := by
  have hsubmits : ∀ {d h}, Reaches skip (v.outcomes options) (.start skip limit entries) d →
      Returns skip (v.outcomes options) d (.ok h) →
      ∀ s ∈ h.specifiers, v.submits options s = true := by
    intro d h hd hh s hs
    obtain ⟨r, hr, rfl⟩ := List.mem_map.1 hs
    obtain ⟨found, hfound, -⟩ := found_of_outcomes ((gathers_of_returns hd hh).1.record_eq r hr)
    exact submits_of_refresh hrefresh hfound
  constructor
  · intro d h hd hh
    obtain ⟨hgathers, hstarted⟩ := gathers_of_returns hd hh
    have hall : d.started.filter (v.submits options) = d.started :=
      List.filter_eq_self.2 fun s hs => hsubmits hd hh s (hstarted.mem_iff.1 hs)
    exact ⟨hall.symm ▸ hstarted, hgathers.nodup⟩
  · intro h hh
    obtain ⟨d, hd, hresult⟩ := v.resolve_returns skip limit options entries
    rw [hh] at hresult
    obtain ⟨begun, hbegun, hcompiled⟩ := compiled_resolve hh
    have hall : begun.filter (v.submits options) = begun :=
      List.filter_eq_self.2 fun s hs => hsubmits hd hresult s (hbegun.mem_iff.1 hs)
    exact ⟨begun, by rw [hcompiled, hall], hbegun⟩
  · intro d h x hd hh hstore hx hwaited r hr
    have hgathers := (gathers_of_returns hd hh).1
    obtain ⟨found, code, hfound, -, ho, hentry⟩ :=
      hasStored_of_gathers hgathers (Graph.awaitCode_ok_iff.1 hwaited) hstore hx hr
    have hmade := hgathers.record_eq r hr
    change (v.order options r.specifier).1.outcome = .ok r at hmade
    rw [order_of_refresh hrefresh hfound] at hmade
    exact ⟨found, code, hfound, (isCompile_of_compile hmade).1.compiler_eq ho, hentry⟩
  · intro hsame d result hd hresult
    refine returns_of_agree hc hg (fun r hr => ?_) hd hresult
    obtain ⟨found, hf⟩ := hfound r hr
    obtain ⟨q, hq, hreport⟩ := compile_eq_ok (hsame r hr found hf)
      (v.cache.map fun _ => Cache.Checksum.compute found.text options)
    refine ⟨q, ?_, by rw [dependencies, dependencies, hreport]⟩
    change (v.order options r.specifier).1.outcome = _
    rw [order_of_refresh hrefresh hf]
    exact hq

/-- Once a graph was resolved and its code was waited for, the same entries can be resolved again.
As long as the store is left alone and the same texts are found for the modules of the graph, this
compiles nothing and comes to what was resolved; a resolution that is not to use the store compiles
all of its modules, and stores them anew. -/
theorem resolves_again {w u v : Workshop} {skip : Specifier → Bool} {limit : Nat}
    {options : Compile.Options} {entries : List Specifier} {c : Course} {g : Graph}
    (hc : Reaches skip (w.outcomes options) (.start skip limit entries) c)
    (hg : Returns skip (w.outcomes options) c (.ok g)) (hstore : w.CanStore g)
    (hu : u.Alike w) (hwaited : (u.awaitCode g).1.2 = .ok ())
    (hcache : v.cache = (u.awaitCode g).2.cache)
    (hsource : ∀ s ∈ g.specifiers,
      (Fetch.run v.source s options.markup).1 = (Fetch.run w.source s options.markup).1) :
    (v.refresh = false → v.Reuses skip limit options entries g) ∧
    (v.refresh = true → v.Recompiles skip limit options entries g) := by
  have hgathers := (gathers_of_returns hc hg).1
  have hready : g.Ready := Graph.awaitCode_ok_iff.1 hwaited
  have hstored : ∀ r ∈ g.records, ∃ found code,
      (Fetch.run v.source r.specifier options.markup).1 = .ok found ∧
      r.location = found.location ∧ r.outcome = .ok code ∧
      v.HasStored r.specifier ⟨Cache.Checksum.compute found.text options, r.report, code⟩ := by
    intro r hr
    obtain ⟨found, code, hfound, hlocation, ho, st, hst, he⟩ :=
      hasStored_of_gathers hgathers hready hstore hu hr
    exact ⟨found, code, (hsource _ (List.mem_map_of_mem hr)).trans hfound, hlocation, ho, st,
      hcache.trans hst, he⟩
  refine ⟨fun hrefresh => reuses_of_hasStored hc hg hrefresh hstored,
    fun hrefresh => recompiles_of_refresh hc hg hrefresh fun r hr => ?_⟩
  obtain ⟨found, -, hfound, -⟩ := hstored r hr
  exact ⟨found, hfound⟩

/-- Two modules that need each other, and an empty store. -/
def paired : Workshop where
  source := MemorySource.source
    { files := [("/main.ts", "import './a';\n"), ("/a.ts", "import './main';\n")] }
  compiler := Compile.Lines.compile
  cache := some (.memory {})

/-- Another workshop for the same texts, with the store that is left once `/main` was resolved and
its code was waited for. -/
def pairedAgain (refresh : Bool) : Workshop :=
  match paired.resolve (fun _ => false) 9 {} [⟨"/main"⟩] with
  | (.ok g, w) => { paired with cache := (w.awaitCode g).2.cache, refresh }
  | (.error _, _) => paired

/-- Both modules are compiled once, and then they are found in the store or compiled once more. -/
theorem paired_resolves_again :
    (paired.resolve (fun _ => false) 9 {} [⟨"/main"⟩]).2.compiled = [⟨"/main"⟩, ⟨"/a"⟩] ∧
    ((pairedAgain false).resolve (fun _ => false) 9 {} [⟨"/main"⟩]).2.compiled = [] ∧
    ∃ g, (paired.resolve (fun _ => false) 9 {} [⟨"/main"⟩]).1 = .ok g ∧
      g.specifiers = [⟨"/main"⟩, ⟨"/a"⟩] ∧
      (pairedAgain false).Reuses (fun _ => false) 9 {} [⟨"/main"⟩] g ∧
      (pairedAgain true).Recompiles (fun _ => false) 9 {} [⟨"/main"⟩] g := by
  have hcompiled : (paired.resolve (fun _ => false) 9 {} [⟨"/main"⟩]).2.compiled =
      [⟨"/main"⟩, ⟨"/a"⟩] := by decide +kernel
  have hfirst : (paired.resolve (fun _ => false) 9 {} [⟨"/main"⟩]).1.map
      (fun g => (g.specifiers, g.awaitCode.2.isOk)) = .ok ([⟨"/main"⟩, ⟨"/a"⟩], true) := by
    decide +kernel
  obtain ⟨c, hc, hg⟩ := paired.resolve_returns (fun _ => false) 9 {} [⟨"/main"⟩]
  have halike : (paired.resolve (fun _ => false) 9 {} [⟨"/main"⟩]).2.Alike paired :=
    Resolving.alike_run _ _ _ _
  have hagain : ∀ refresh, pairedAgain refresh =
      match paired.resolve (fun _ => false) 9 {} [⟨"/main"⟩] with
      | (.ok g, w) => { paired with cache := (w.awaitCode g).2.cache, refresh }
      | (.error _, _) => paired := fun _ => rfl
  generalize paired.resolve (fun _ => false) 9 {} [⟨"/main"⟩] = x
    at hcompiled hfirst hg halike hagain ⊢
  obtain ⟨e | g, u⟩ := x
  · cases hfirst
  obtain ⟨hspecifiers, hcode⟩ := Prod.mk.inj (Except.ok.inj hfirst)
  have hwaited : (u.awaitCode g).1.2 = .ok () := by
    change g.awaitCode.2 = _
    cases hw : g.awaitCode.2 with
    | ok => rfl
    | error e => simp [hw, Except.isOk, Except.toBool] at hcode
  have hstore : paired.CanStore g :=
    ⟨.memory {}, rfl, fun _ _ _ _ _ _ h => by cases h⟩
  have hcache : ∀ refresh, (pairedAgain refresh).cache = (u.awaitCode g).2.cache :=
    fun refresh => by rw [hagain]
  have hsource : ∀ refresh, ∀ s ∈ g.specifiers,
      (Fetch.run (pairedAgain refresh).source s false).1 = (Fetch.run paired.source s false).1 :=
    fun refresh s _ => by rw [hagain]
  have hreuses := (resolves_again hc hg hstore halike hwaited (hcache false) (hsource false)).1
    (by rw [hagain])
  have hrecompiles := (resolves_again hc hg hstore halike hwaited (hcache true) (hsource true)).2
    (by rw [hagain])
  have hnothing : (pairedAgain false).compiled = [] := by rw [hagain]; rfl
  exact ⟨hcompiled, hreuses.compiled.trans hnothing, g, rfl, hspecifiers, hreuses, hrecompiles⟩

end Workshop

end ScriptLoader
