import ScriptLoader.Proofs.Graph.Records
import ScriptLoader.Proofs.Resolution.AnyOrder
import ScriptLoader.Resolution.Run

/-!
# The order that resolutions are run in

A resolution begins the making of records in the order of discovery and takes them as they are
there. This is one of the orders in which operations may complete, so that what holds of every order
holds of what `Workshop.resolve` returns.

* `Workshop.outcomes`: what a workshop makes of each module. It does not depend on what the workshop
  did before (`Workshop.outcome_order`).
* `Workshop.resolve_returns`: a resolution that is run takes one of its courses.
-/

namespace ScriptLoader

namespace Workshop

/-- Two workshops that make the same records: they differ in what they did at most. -/
structure Alike (w v : Workshop) : Prop where
  source : w.source = v.source
  compiler : w.compiler = v.compiler
  cache : w.cache = v.cache
  refresh : w.refresh = v.refresh

theorem Alike.rfl {w : Workshop} : w.Alike w := ⟨Eq.refl _, Eq.refl _, Eq.refl _, Eq.refl _⟩

theorem Alike.symm {w v : Workshop} (h : w.Alike v) : v.Alike w :=
  ⟨h.source.symm, h.compiler.symm, h.cache.symm, h.refresh.symm⟩

theorem Alike.trans {w v u : Workshop} (h : w.Alike v) (k : v.Alike u) : w.Alike u :=
  ⟨h.source.trans k.source, h.compiler.trans k.compiler, h.cache.trans k.cache,
    h.refresh.trans k.refresh⟩

theorem alike_log (w : Workshop) (e : Log.Event) : (w.log e).Alike w := ⟨rfl, rfl, rfl, rfl⟩

/-! ## Fetching, looking up and compiling -/

theorem alike_fetch (w : Workshop) (s : Specifier) (markup : Bool) :
    (w.fetch s markup).2.Alike w := ⟨rfl, rfl, rfl, rfl⟩

theorem found_fetch {w v : Workshop} (h : w.Alike v) (s : Specifier) (markup : Bool) :
    (w.fetch s markup).1 = (v.fetch s markup).1 := by
  simp only [fetch, h.source]

theorem alike_lookUp (w : Workshop) (s : Specifier) (c : Option Cache.Checksum) :
    (w.lookUp s c).2.Alike w := by
  unfold lookUp
  split
  · exact alike_log w _
  · exact .rfl

theorem found_lookUp {w v : Workshop} (h : w.Alike v) (s : Specifier)
    (c : Option Cache.Checksum) : (w.lookUp s c).1 = (v.lookUp s c).1 := by
  unfold lookUp
  rw [h.cache, h.refresh]
  split <;> rfl

theorem alike_compile (w : Workshop) (q : Compile.Request) (c : Option Cache.Checksum) :
    (w.compile q c).2.Alike w := by
  unfold compile
  simp only
  split <;> exact ⟨rfl, rfl, rfl, rfl⟩

theorem outcome_compile {w v : Workshop} (h : w.Alike v) (q : Compile.Request)
    (c : Option Cache.Checksum) : (w.compile q c).1 = (v.compile q c).1 := by
  unfold compile
  simp only [log, h.compiler]
  split <;> rfl

theorem specifier_compile {w : Workshop} {q : Compile.Request} {c : Option Cache.Checksum}
    {r : CompiledRecord} (h : (w.compile q c).1 = .ok r) : r.specifier = q.specifier := by
  unfold compile at h
  simp only at h
  split at h
  · cases h; rfl
  · cases h
  · cases h

/-! ## Making records -/

theorem order_eq (w : Workshop) (options : Compile.Options) (s : Specifier) :
    w.order options s =
      match (w.fetch s options.markup).1 with
      | .error e => (.done (.error e), (w.fetch s options.markup).2)
      | .ok found =>
        let v := (w.fetch s options.markup).2
        let c := v.cache.map fun _ => Cache.Checksum.compute found.text options
        match (v.lookUp s c).1 with
        | some e =>
          (.done (.ok
            { specifier := s, location := found.location, report := e.report, outcome := .ok e.code,
              awaited := true, cached := true }), (v.lookUp s c).2)
        | none =>
          let made := (v.lookUp s c).2.compile ⟨s, found.location, found.text, options⟩ c
          (.compiling made.1, made.2) := by
  unfold order
  rcases w.fetch s options.markup with ⟨_ | found, v⟩
  · rfl
  · dsimp only
    rcases v.lookUp s _ with ⟨_ | e, u⟩ <;> rfl

theorem alike_order (w : Workshop) (options : Compile.Options) (s : Specifier) :
    (w.order options s).2.Alike w := by
  have hf := alike_fetch w s options.markup
  rw [order_eq]
  split
  · exact hf
  · dsimp only
    split
    · exact (alike_lookUp _ _ _).trans hf
    · exact (alike_compile _ _ _).trans ((alike_lookUp _ _ _).trans hf)

theorem specifier_order {w : Workshop} {options : Compile.Options} {s : Specifier}
    {r : CompiledRecord} (h : (w.order options s).1.outcome = .ok r) : r.specifier = s := by
  rw [order_eq] at h
  split at h
  · cases h
  · dsimp only at h
    split at h
    · cases h
      rfl
    · exact specifier_compile h

theorem outcome_order {w v : Workshop} (h : w.Alike v) (options : Compile.Options)
    (s : Specifier) : (w.order options s).1.outcome = (v.order options s).1.outcome := by
  have hf : (w.fetch s options.markup).2.Alike (v.fetch s options.markup).2 :=
    (alike_fetch w s _).trans (h.trans (alike_fetch v s _).symm)
  rw [order_eq, order_eq, found_fetch h]
  cases (v.fetch s options.markup).1 with
  | error e => rfl
  | ok found =>
    dsimp only
    rw [hf.cache, found_lookUp hf]
    split
    · rfl
    · exact outcome_compile ((alike_lookUp _ _ _).trans (hf.trans (alike_lookUp _ _ _).symm)) _ _

/-- What a workshop makes of each module under options. -/
def outcomes (w : Workshop) (options : Compile.Options) : Resolution.Outcomes where
  of s := (w.order options s).1.outcome
  specifier_eq := specifier_order

theorem outcomes_of_alike {w v : Workshop} (h : w.Alike v) (options : Compile.Options) :
    w.outcomes options = v.outcomes options := by
  unfold outcomes
  congr 1
  funext s
  exact outcome_order h options s

end Workshop

/-! ## Running a resolution -/

namespace Resolving

open Workshop

/-- What is in flight: the modules that were not begun, and those that are being compiled. -/
def inFlight (r : Resolving) : List Specifier := r.queue ++ r.running.map (·.1)

/-- The compiles that run come to what a workshop makes of their modules. -/
def Runs (w : Workshop) (options : Compile.Options)
    (running : List (Specifier × Except LoadError CompiledRecord)) : Prop :=
  ∀ p ∈ running, p.2 = (w.outcomes options).of p.1

theorem alike_nextOf (options : Compile.Options) (queue : List Specifier)
    (running : List (Specifier × Except LoadError CompiledRecord)) (w : Workshop) :
    (nextOf options queue running w).2.Alike w := by
  fun_induction nextOf options queue running w with
  | case1 => exact .rfl
  | case2 => exact .rfl
  | case3 s queue running w outcome v hv =>
    have := alike_order w options s
    rwa [hv] at this
  | case4 s queue running w outcome v hv ih =>
    have := alike_order w options s
    rw [hv] at this
    exact ih.trans this

theorem nextOf_eq_none {options : Compile.Options} {queue : List Specifier}
    {running : List (Specifier × Except LoadError CompiledRecord)} {w : Workshop}
    (h : (nextOf options queue running w).1 = none) : queue = [] ∧ running = [] := by
  fun_induction nextOf options queue running w with
  | case1 => exact ⟨rfl, rfl⟩
  | case2 => cases h
  | case3 => cases h
  | case4 s queue running w outcome v hv ih =>
    have := (ih h).2
    simp at this

/-- The module that finishes next was in flight, and came to what the workshop makes of it. -/
theorem nextOf_eq_some {options : Compile.Options} {queue : List Specifier}
    {running : List (Specifier × Except LoadError CompiledRecord)} {w : Workshop} {f : Finished}
    (hr : Runs w options running) (h : (nextOf options queue running w).1 = some f) :
    f.outcome = (w.outcomes options).of f.specifier ∧ Runs w options f.running ∧
      (queue ++ running.map (·.1)).Perm (f.specifier :: (f.queue ++ f.running.map (·.1))) := by
  fun_induction nextOf options queue running w with
  | case1 => cases h
  | case2 s outcome running w =>
    cases h
    exact ⟨hr (s, outcome) (by simp), fun p hp => hr p (by simp [hp]), .refl _⟩
  | case3 s queue running w outcome v hv =>
    cases h
    refine ⟨?_, hr, .refl _⟩
    simp [outcomes, hv, Order.outcome]
  | case4 s queue running w outcome v hv ih =>
    have hvw : v.Alike w := by
      have := alike_order w options s
      rwa [hv] at this
    have hout := outcomes_of_alike hvw options
    have hs : outcome = (w.outcomes options).of s := by simp [outcomes, hv, Order.outcome]
    have hr' : Runs v options (running ++ [(s, outcome)]) := by
      intro p hp
      rw [hout]
      rcases List.mem_append.1 hp with hp | hp
      · exact hr p hp
      · rw [List.mem_singleton.1 hp, hs]
    obtain ⟨h1, h2, h3⟩ := ih hr' h
    unfold Runs at h2 ⊢
    rw [hout] at h1 h2
    refine ⟨h1, h2, .trans ?_ h3⟩
    have hswap : ([s] ++ (queue ++ running.map (·.1))).Perm
        (queue ++ running.map (·.1) ++ [s]) := List.perm_append_comm
    rw [List.map_append, ← List.append_assoc]
    exact hswap

/-- A course of a resolution that is run. -/
structure Follows (w : Workshop) (options : Compile.Options) (c : Resolution.Course)
    (r : Resolving) : Prop where
  resolution : c.resolution = r.resolution
  inFlight : c.inFlight.Perm r.inFlight
  running : Runs w options r.running

/-- What a step can do: end with the graph, end with the failure of a module, or take its record. -/
theorem step_cases (skip : Specifier → Bool) (options : Compile.Options) (r : Resolving)
    (w : Workshop) :
    ((r.next? options w).1 = none ∧
      r.step skip options w = (.inl (.ok r.resolution.graph), (r.next? options w).2)) ∨
    ∃ f, (r.next? options w).1 = some f ∧
      ((∃ e, r.resolution.finish skip f.outcome = .error e ∧
          r.step skip options w = (.inl (.error e), (r.next? options w).2)) ∨
        ∃ resolution new hb, r.resolution.finish skip f.outcome = .ok (resolution, new) ∧
          r.step skip options w =
            (.inr ⟨⟨resolution, f.queue ++ new, f.running⟩, hb⟩,
              (r.next? options w).2.log (event ⟨resolution, f.queue ++ new, f.running⟩))) := by
  unfold step
  rcases r.next? options w with ⟨_ | f, v⟩
  · exact Or.inl ⟨rfl, rfl⟩
  · refine Or.inr ⟨f, rfl, ?_⟩
    dsimp only
    split
    · next e he =>
      refine Or.inl ⟨e, ?_, rfl⟩
      unfold finish at he
      split at he
      · next hf => rw [hf, Except.error.inj he]
      · cases he
    · next next he =>
      unfold finish at he
      split at he
      · cases he
      · next resolution new hf =>
        cases he
        exact Or.inr ⟨resolution, new, Resolution.budget_finish hf, hf, rfl⟩

theorem alike_step (skip : Specifier → Bool) (options : Compile.Options) (r : Resolving)
    (w : Workshop) : (r.step skip options w).2.Alike w := by
  have hv := alike_nextOf options r.queue r.running w
  rcases step_cases skip options r w with ⟨-, hs⟩ | ⟨f, -, ⟨e, -, hs⟩ | ⟨x, new, hb, -, hs⟩⟩
  · rw [hs]
    exact hv
  · rw [hs]
    exact hv
  · rw [hs]
    exact (alike_log _ _).trans hv

/-- A step of a resolution ends its course, or completes one operation of it. -/
theorem step_follows (skip : Specifier → Bool) {options : Compile.Options} {r : Resolving}
    {w : Workshop} {c : Resolution.Course} (h : Follows w options c r) :
    (∀ result, (r.step skip options w).1 = .inl result →
      Resolution.Returns skip (w.outcomes options) c result) ∧
    ∀ next, (r.step skip options w).1 = .inr next →
      ∃ d, Resolution.Reaches skip (w.outcomes options) c d ∧ Follows w options d next.1 := by
  rcases step_cases skip options r w with ⟨hn, hs⟩ | ⟨f, hn, hf⟩
  · rw [hs]
    obtain ⟨hq, hr⟩ := nextOf_eq_none hn
    have hdone : c.inFlight = [] := by
      have := h.inFlight
      simpa [inFlight, hq, hr] using this
    refine ⟨?_, by simp⟩
    rintro _ ⟨⟩
    rw [← h.resolution]
    exact .graph hdone
  · obtain ⟨hout, hrun, hperm⟩ := nextOf_eq_some h.running hn
    have hc := h.inFlight.trans hperm
    have hmem : f.specifier ∈ c.inFlight := hc.mem_iff.2 List.mem_cons_self
    rcases hf with ⟨e, hf, hs⟩ | ⟨x, new, hb, hf, hs⟩
    · rw [hs]
      refine ⟨?_, by simp⟩
      rintro _ ⟨⟩
      rw [← h.resolution, hout] at hf
      exact .failure hmem hf
    · rw [hs]
      refine ⟨by simp, ?_⟩
      rintro _ ⟨⟩
      rw [← h.resolution, hout] at hf
      refine ⟨_, .complete (.refl c) hmem hf, rfl, ?_, hrun⟩
      have herase := hc.erase f.specifier
      rw [List.erase_cons_head] at herase
      refine (herase.append_right new).trans ?_
      simp only [inFlight, List.append_assoc]
      exact List.perm_append_comm.append_left _

theorem run_returns {skip : Specifier → Bool} {options : Compile.Options} {r : Resolving}
    {w : Workshop} {c : Resolution.Course} (h : Follows w options c r) :
    ∃ d, Resolution.Reaches skip (w.outcomes options) c d ∧
      Resolution.Returns skip (w.outcomes options) d (r.run skip options w).1 := by
  fun_induction run skip options r w generalizing c with
  | case1 r w result v hs =>
    have hstep := step_follows skip h
    rw [hs] at hstep
    exact ⟨c, .refl c, hstep.1 result rfl⟩
  | case2 r w next hb v hs ih =>
    have hstep := step_follows skip h
    have halike := alike_step skip options r w
    rw [hs] at hstep halike
    obtain ⟨d, hcd, hd⟩ := hstep.2 _ rfl
    have hout := outcomes_of_alike halike options
    have hd' : Follows v options d next :=
      ⟨hd.resolution, hd.inFlight, by simpa only [Runs, hout] using hd.running⟩
    obtain ⟨x, hdx, hx⟩ := ih hd'
    rw [hout] at hdx hx
    exact ⟨x, hcd.trans hdx, hx⟩

theorem alike_run (skip : Specifier → Bool) (options : Compile.Options) (r : Resolving)
    (w : Workshop) : (r.run skip options w).2.Alike w := by
  fun_induction run skip options r w with
  | case1 r w result v hs =>
    have := alike_step skip options r w
    rwa [hs] at this
  | case2 r w next hb v hs ih =>
    have := alike_step skip options r w
    rw [hs] at this
    exact ih.trans this

end Resolving

namespace Workshop

/-- A resolution that is run takes one of its courses and returns what the course comes to. -/
theorem resolve_returns (w : Workshop) (skip : Specifier → Bool) (limit : Nat)
    (options : Compile.Options) (entries : List Specifier) :
    ∃ c, Resolution.Reaches skip (w.outcomes options) (.start skip limit entries) c ∧
      Resolution.Returns skip (w.outcomes options) c (w.resolve skip limit options entries).1 := by
  refine Resolving.run_returns ⟨rfl, ?_, fun p hp => by cases hp⟩
  simp [Resolving.inFlight, Resolving.start, Resolution.Course.start]

/-- A graph that a workshop resolves holds the wanted modules, with the records that the workshop
makes of them. -/
theorem resolve_wanted {w : Workshop} {skip : Specifier → Bool} {limit : Nat}
    {options : Compile.Options} {entries : List Specifier} {g : Graph}
    (h : (w.resolve skip limit options entries).1 = .ok g) :
    (∀ s, s ∈ g.specifiers ↔ Resolution.Wanted skip (w.outcomes options) entries s) ∧
      ∀ r ∈ g.records, (w.outcomes options).of r.specifier = .ok r := by
  obtain ⟨c, hc, hret⟩ := w.resolve_returns skip limit options entries
  rw [h] at hret
  have hs := Resolution.Course.sound_of_reaches hc Resolution.Course.sound_start
  cases hret with
  | graph hdone => exact ⟨fun s => hs.mem_specifiers_iff hdone, hs.record_eq⟩

theorem nodup_of_reaches {skip : Specifier → Bool} {outcomes : Resolution.Outcomes}
    {c d : Resolution.Course} (h : Resolution.Reaches skip outcomes c d)
    (hc : c.resolution.graph.specifiers.Nodup) : d.resolution.graph.specifiers.Nodup := by
  induction h with
  | refl => exact hc
  | @complete middle _ next _ _ _ hf ih =>
    obtain ⟨-, record, -, hnext⟩ := Resolution.finish_eq_ok_iff.1 hf
    have hgraph : next.graph = middle.resolution.graph.insert record :=
      (congrArg (fun p => p.1.graph) hnext).symm
    exact hgraph ▸ Graph.nodup_insert ih record

theorem nodup_resolve {w : Workshop} {skip : Specifier → Bool} {limit : Nat}
    {options : Compile.Options} {entries : List Specifier} {g : Graph}
    (h : (w.resolve skip limit options entries).1 = .ok g) : g.specifiers.Nodup := by
  obtain ⟨c, hc, hret⟩ := w.resolve_returns skip limit options entries
  rw [h] at hret
  cases hret with
  | graph _ => exact nodup_of_reaches hc List.nodup_nil

end Workshop

end ScriptLoader
