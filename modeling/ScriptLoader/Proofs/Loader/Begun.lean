import ScriptLoader.Proofs.Loader.Displaced
import ScriptLoader.Proofs.Loader.Stored

/-!
# Modules that are begun once

A resolution begins a module: it asks for the source, and gives it to the compiler unless a stored
compile is found. A request whose graph was resolved and whose code was generated keeps all of it,
loaded or prepared, even if the host refuses a module of it. While all requests have the same
options, nothing that was kept is left out again, so none of them begins such a module anew.

* `Resolving.begun`, `Loader.begunBy`: the modules that a resolution and a request begin.
* `Loader.Accounted`: what a request asks for and has compiled is what it begins.
* `Loader.skips_serve`: what is loaded or prepared under options stays so under the same options.
* `Loader.begun_once`: no module is begun by two requests, and requests for what was found before
  begin nothing.
-/

namespace ScriptLoader

open Resolution

variable {F σ : Type}

/-! ## Beginning a module -/

namespace Workshop

/-- The locations that are asked for when a module is begun. -/
def asks (w : Workshop) (options : Compile.Options) (s : Specifier) : List String :=
  (Fetch.run w.source s options.markup).2

/-- Whether a module is given to the compiler when it is begun. -/
def submits (w : Workshop) (options : Compile.Options) (s : Specifier) : Bool :=
  match (w.order options s).1 with
  | .done _ => false
  | .compiling _ => true

variable {w v : Workshop} {options : Compile.Options} {s : Specifier}

theorem asks_of_alike (h : w.Alike v) : w.asks options = v.asks options := by
  unfold asks
  rw [h.source]

theorem submits_of_alike (h : w.Alike v) : w.submits options = v.submits options := by
  funext s
  have hf : (w.fetch s options.markup).2.Alike (v.fetch s options.markup).2 :=
    (alike_fetch w s _).trans (h.trans (alike_fetch v s _).symm)
  unfold submits
  rw [order_eq, order_eq, found_fetch h]
  cases (v.fetch s options.markup).1 with
  | error e => rfl
  | ok found =>
    dsimp only
    rw [hf.cache, found_lookUp hf]
    split
    · next hd => split at hd <;> split <;> simp_all
    · next hd => split at hd <;> split <;> simp_all

theorem requested_lookUp (w : Workshop) (s : Specifier) (c : Option Cache.Checksum) :
    (w.lookUp s c).2.requested = w.requested := by
  unfold lookUp
  split <;> rfl

theorem requested_compile (w : Workshop) (q : Compile.Request) (c : Option Cache.Checksum) :
    (w.compile q c).2.requested = w.requested := by
  unfold compile
  dsimp only
  split <;> rfl

theorem requested_order (w : Workshop) (options : Compile.Options) (s : Specifier) :
    (w.order options s).2.requested = w.requested ++ w.asks options s := by
  rw [order_eq]
  split
  · rfl
  · dsimp only
    split
    · rw [requested_lookUp]
      rfl
    · rw [requested_compile, requested_lookUp]
      rfl

theorem compiled_order_eq (w : Workshop) (options : Compile.Options) (s : Specifier) :
    (w.order options s).2.compiled = w.compiled ++ [s].filter (w.submits options) := by
  rcases compiled_order w options s with ⟨_, hd, hc, -⟩ | ⟨_, hd, hc⟩
  · simp [hc, submits, hd]
  · simp [hc, submits, hd]

end Workshop

/-! ## Resolutions -/

namespace Resolving

open Workshop

variable {skip : Specifier → Bool} {options : Compile.Options}

/-- The modules of a queue that are begun until one is finished. -/
def begunOf (options : Compile.Options) : List Specifier → Workshop → List Specifier
  | [], _ => []
  | s :: queue, w =>
    match w.order options s with
    | (.done _, _) => [s]
    | (.compiling _, w) => s :: begunOf options queue w

/-- The modules that a resolution begins, in order. -/
def begun (skip : Specifier → Bool) (options : Compile.Options) (r : Resolving) (w : Workshop) :
    List Specifier :=
  begunOf options r.queue w ++
    match r.step skip options w with
    | (.inl _, _) => []
    | (.inr ⟨next, _⟩, w) => begun skip options next w
termination_by r.resolution.budget

theorem begunOf_isPrefix (options : Compile.Options) (queue : List Specifier) (w : Workshop) :
    begunOf options queue w <+: queue := by
  fun_induction begunOf options queue w with
  | case1 => exact List.prefix_rfl
  | case2 s queue => exact List.prefix_append [s] queue
  | case3 s queue w outcome v hv ih => exact (List.prefix_cons_inj s).2 ih

/-- What is left of the queue was not begun. -/
theorem begunOf_append {queue : List Specifier}
    {running : List (Specifier × Except LoadError CompiledRecord)} {w : Workshop} {f : Finished}
    (h : (nextOf options queue running w).1 = some f) :
    begunOf options queue w ++ f.queue = queue := by
  fun_induction nextOf options queue running w with
  | case1 => cases h
  | case2 =>
    cases h
    rfl
  | case3 s queue running w outcome v hv =>
    cases h
    rw [begunOf, hv]
    rfl
  | case4 s queue running w outcome v hv ih =>
    rw [begunOf, hv]
    exact congrArg (s :: ·) (ih h)

theorem accounted_nextOf (options : Compile.Options) (queue : List Specifier)
    (running : List (Specifier × Except LoadError CompiledRecord)) (w : Workshop) :
    (nextOf options queue running w).2.requested =
        w.requested ++ (begunOf options queue w).flatMap (w.asks options) ∧
      (nextOf options queue running w).2.compiled =
        w.compiled ++ (begunOf options queue w).filter (w.submits options) := by
  fun_induction nextOf options queue running w with
  | case1 => simp [begunOf]
  | case2 => simp [begunOf]
  | case3 s queue running w outcome v hv =>
    have hr := requested_order w options s
    have hc := compiled_order_eq w options s
    rw [hv] at hr hc
    rw [begunOf, hv]
    exact ⟨by simpa using hr, hc⟩
  | case4 s queue running w outcome v hv ih =>
    have hr := requested_order w options s
    have hc := compiled_order_eq w options s
    have halike := alike_order w options s
    rw [hv] at hr hc halike
    rw [begunOf, hv, ih.1, ih.2, hr, hc, asks_of_alike halike, submits_of_alike halike]
    constructor
    · simp
    · rw [List.append_assoc, ← List.filter_append]
      rfl

/-- What a resolution asks for and has compiled is what it begins. -/
theorem accounted_run (skip : Specifier → Bool) (options : Compile.Options) (r : Resolving)
    (w : Workshop) :
    (r.run skip options w).2.requested =
        w.requested ++ (r.begun skip options w).flatMap (w.asks options) ∧
      (r.run skip options w).2.compiled =
        w.compiled ++ (r.begun skip options w).filter (w.submits options) := by
  have hstep : ∀ (r : Resolving) (w : Workshop),
      (r.step skip options w).2.requested =
          w.requested ++ (begunOf options r.queue w).flatMap (w.asks options) ∧
        (r.step skip options w).2.compiled =
          w.compiled ++ (begunOf options r.queue w).filter (w.submits options) := by
    intro r w
    have hn := accounted_nextOf options r.queue r.running w
    rcases step_cases skip options r w with ⟨-, hs⟩ | ⟨f, -, ⟨e, -, hs⟩ | ⟨x, new, hb, -, hs⟩⟩ <;>
      rw [hs] <;> exact hn
  fun_induction run skip options r w with
  | case1 r w result v hs =>
    have hv := hstep r w
    rw [hs] at hv
    rw [begun, hs]
    simpa using hv
  | case2 r w next hb v hs ih =>
    have hv := hstep r w
    have halike := alike_step skip options r w
    rw [hs] at hv halike
    rw [begun, hs, ih.1, ih.2, hv.1, hv.2, asks_of_alike halike, submits_of_alike halike]
    simp

section

variable {w : Workshop} {c : Course} {r : Resolving} {entries : List Specifier}

/-- Only modules in flight are begun, and those are not skipped. -/
theorem not_skipped_of_mem_begun (h : Follows w options c r)
    (hc : c.Sound skip (w.outcomes options) entries) {s : Specifier}
    (hs : s ∈ r.begun skip options w) : skip s = false := by
  have hqueue : ∀ {r : Resolving} {w : Workshop} {c : Course}, Follows w options c r →
      c.Sound skip (w.outcomes options) entries → s ∈ begunOf options r.queue w →
      skip s = false := by
    intro r w c h hc hs
    have hmem : s ∈ r.queue := (begunOf_isPrefix options r.queue w).subset hs
    refine (hc.started_wanted s (hc.mem_started_iff.2 (Or.inr ?_))).not_skipped
    exact h.inFlight.mem_iff.2 (List.mem_append_left _ hmem)
  fun_induction run skip options r w generalizing c with
  | case1 r w result v hr =>
    rw [begun, hr] at hs
    exact hqueue h hc (by simpa using hs)
  | case2 r w next hb v hr ih =>
    rw [begun, hr] at hs
    rcases List.mem_append.1 hs with hs | hs
    · exact hqueue h hc hs
    · have hstep := step_follows skip h
      have halike := alike_step skip options r w
      rw [hr] at hstep halike
      obtain ⟨d, hd, hf⟩ := hstep.2 _ rfl
      have hout := outcomes_of_alike halike options
      refine ih ⟨hf.resolution, hf.inFlight, ?_⟩ ?_ hs
      · simpa only [Runs, hout] using hf.running
      · rw [hout]
        exact Course.sound_of_reaches hd hc

/-- A step that takes a record: what was begun by then is of the graph, or is being compiled. -/
theorem perm_of_finish {f : Finished} {x : Resolution} {new before : List Specifier}
    (h : Follows w options c r) (hc : c.Sound skip (w.outcomes options) entries)
    (hbefore : before.Perm (r.resolution.graph.specifiers ++ r.running.map (·.1)))
    (hn : (r.next? options w).1 = some f)
    (hx : r.resolution.finish skip f.outcome = .ok (x, new)) :
    (before ++ begunOf options r.queue w).Perm (x.graph.specifiers ++ f.running.map (·.1)) := by
  obtain ⟨hout, -, hperm⟩ := nextOf_eq_some h.running hn
  obtain ⟨-, record, hrecord, hnext⟩ := finish_eq_ok_iff.1 hx
  have hname : record.specifier = f.specifier :=
    (w.outcomes options).specifier_eq (hout.symm.trans hrecord)
  have hnew : record.specifier ∉ c.resolution.graph.specifiers := by
    rw [hname]
    exact hc.disjoint (h.inFlight.mem_iff.2 (hperm.mem_iff.2 List.mem_cons_self))
  have hgraph : x.graph.specifiers = r.resolution.graph.specifiers ++ [f.specifier] := by
    have hx : x.graph = r.resolution.graph.insert record :=
      (congrArg (fun next => next.1.graph) hnext).symm
    rw [← h.resolution] at hx ⊢
    rw [hx, Graph.specifiers, Graph.records_insert_of_notMem hnew, List.map_append, ← hname]
    rfl
  -- The part of the queue that is left stands on both sides.
  have hbegun : (begunOf options r.queue w ++ r.running.map (·.1)).Perm
      (f.specifier :: f.running.map (·.1)) := by
    have hqueue := begunOf_append hn
    rw [← hqueue] at hperm
    refine (List.perm_append_left_iff f.queue).1 ?_
    refine List.Perm.trans ?_ (hperm.trans List.perm_middle.symm)
    rw [← List.append_assoc]
    exact List.perm_append_comm.append_right _
  rw [hgraph, List.append_assoc]
  refine (hbefore.append_right _).trans ?_
  rw [List.append_assoc]
  exact (List.perm_append_comm.trans hbegun).append_left _

/-- A resolution that returns a graph has begun its modules, each once. -/
theorem begun_perm {before : List Specifier} (h : Follows w options c r)
    (hc : c.Sound skip (w.outcomes options) entries)
    (hbefore : before.Perm (r.resolution.graph.specifiers ++ r.running.map (·.1))) {g : Graph}
    (hg : (r.run skip options w).1 = .ok g) :
    (before ++ r.begun skip options w).Perm g.specifiers := by
  fun_induction run skip options r w generalizing c before with
  | case1 r w result v hr =>
    subst hg
    rcases step_cases skip options r w with ⟨hn, hs⟩ | ⟨f, -, ⟨e, -, hs⟩ | ⟨x, new, hb, -, hs⟩⟩
    · obtain ⟨hqueue, hrunning⟩ := nextOf_eq_none hn
      rw [hr] at hs
      cases hs
      rw [begun, hr, hqueue]
      simpa [begunOf, hrunning] using hbefore
    · rw [hr] at hs
      cases hs
    · rw [hr] at hs
      cases hs
  | case2 r w next hb v hr ih =>
    have hstep := step_follows skip h
    have halike := alike_step skip options r w
    rw [hr] at hstep halike
    obtain ⟨d, hd, hf⟩ := hstep.2 _ rfl
    have hout := outcomes_of_alike halike options
    rw [begun, hr, ← List.append_assoc]
    refine ih ⟨hf.resolution, hf.inFlight, ?_⟩ ?_ ?_ hg
    · simpa only [Runs, hout] using hf.running
    · rw [hout]
      exact Course.sound_of_reaches hd hc
    · rcases step_cases skip options r w with ⟨-, hs⟩ | ⟨f, hn, ⟨e, -, hs⟩ | ⟨x, new, hb', hx, hs⟩⟩
      · rw [hr] at hs
        cases hs
      · rw [hr] at hs
        cases hs
      · rw [hr] at hs
        cases hs
        exact perm_of_finish h hc hbefore hn hx

end

end Resolving

namespace Loader

variable {host : Host F σ} {l : Loader F σ} {options : Compile.Options} {entry : Specifier}
  {g : Graph} {s : Specifier}

/-! ## What a request begins -/

/-- The modules that the resolution of a request begins, in order. -/
def begun (l : Loader F σ) (options : Compile.Options) (entry : Specifier) : List Specifier :=
  (Resolving.start (l.skips options) l.settings.limit [entry]).begun (l.skips options) options
    l.workshop

/-- The modules that a call begins, in order: none if its text is no specifier or its module is
loaded. -/
def begunBy (l : Loader F σ) (call : Call) : List Specifier :=
  match call.entry with
  | .error _ => []
  | .ok entry => if l.registry.isLoaded entry then [] else l.begun (call.options l) entry

theorem follows_start (l : Loader F σ) (options : Compile.Options) (entry : Specifier) :
    Resolving.Follows l.workshop options
      (.start (l.skips options) l.settings.limit [entry])
      (.start (l.skips options) l.settings.limit [entry]) :=
  ⟨rfl, by simp [Resolving.inFlight, Resolving.start, Course.start], fun p hp => by cases hp⟩

theorem not_skipped_of_mem_begun (h : s ∈ l.begun options entry) : l.skips options s = false :=
  Resolving.not_skipped_of_mem_begun (follows_start l options entry) Course.sound_start h

theorem begun_perm (h : l.Resolved options entry g) :
    (l.begun options entry).Perm g.specifiers := by
  have hnone : ([] : List Specifier).Perm
      ((Resolving.start (l.skips options) l.settings.limit [entry]).resolution.graph.specifiers ++
        (Resolving.start (l.skips options) l.settings.limit [entry]).running.map (·.1)) := .refl _
  exact Resolving.begun_perm (follows_start l options entry) Course.sound_start hnone h

/-- A request for a module that is left out begins nothing. -/
theorem begun_of_skips (h : l.skips options entry = true) : l.begun options entry = [] := by
  have hstart : (Resolving.start (l.skips options) l.settings.limit [entry]).queue = [] := by
    simp [Resolving.start, Resolution.start, discover, fresh, h]
  have hstep : ((Resolving.start (l.skips options) l.settings.limit [entry]).step (l.skips options)
      options l.workshop).1 = .inl (.ok { entries := [entry] }) := by
    unfold Resolving.step Resolving.next?
    rw [hstart]
    rfl
  unfold begun
  rw [Resolving.begun, hstart]
  generalize Resolving.step _ _ _ _ = x at hstep
  obtain ⟨result, w⟩ := x
  dsimp only at hstep
  subst hstep
  rfl

theorem requested_discardCache (w : Workshop) : w.discardCache.requested = w.requested := by
  unfold Workshop.discardCache
  split <;> rfl

theorem requested_foldl_store (rs : List CompiledRecord) (w : Workshop) :
    (rs.foldl Workshop.store w).requested = w.requested := by
  induction rs generalizing w with
  | nil => rfl
  | cons r rs ih =>
    rw [List.foldl_cons, ih]
    unfold Workshop.store
    split <;> rfl

/-- What a call asks for and gives to the compiler is what it begins. -/
structure Accounted (host : Host F σ) (l : Loader F σ) (call : Call) : Prop where
  requested : (l.serve host call).2.workshop.requested = l.workshop.requested ++
    (l.begunBy call).flatMap (l.workshop.asks (call.options l))
  compiled : (l.serve host call).2.workshop.compiled = l.workshop.compiled ++
    (l.begunBy call).filter (l.workshop.submits (call.options l))

theorem accounted_supplied (l : Loader F σ) (options : Compile.Options) (entry : Specifier) :
    (l.supplied options entry).requested = l.workshop.requested ++
        (l.begun options entry).flatMap (l.workshop.asks options) ∧
      (l.supplied options entry).compiled = l.workshop.compiled ++
        (l.begun options entry).filter (l.workshop.submits options) := by
  have hrun := Resolving.accounted_run (l.skips options) options
    (.start (l.skips options) l.settings.limit [entry]) l.workshop
  change (l.workshop.resolve (l.skips options) l.settings.limit options [entry]).2.requested = _ ∧
    (l.workshop.resolve (l.skips options) l.settings.limit options [entry]).2.compiled = _ at hrun
  unfold supplied
  generalize l.workshop.resolve (l.skips options) l.settings.limit options [entry] = x at hrun
  rcases x with ⟨e | g, w⟩
  · exact hrun
  · exact ⟨(requested_foldl_store _ w).trans hrun.1,
      (Workshop.compiled_awaitCode w g).trans hrun.2⟩

theorem accounted_serve (host : Host F σ) (l : Loader F σ) (call : Call) :
    Accounted host l call := by
  rcases serve_cases host l call with ⟨_, _, he, hs⟩ | ⟨entry, events, he, hs⟩
  · constructor <;> simp [hs, begunBy, he]
  · have hbegun : l.begunBy call =
        if l.registry.isLoaded entry then [] else l.begun (call.options l) entry := by
      rw [begunBy, he]
    -- What was logged before is told by neither account.
    let k : Loader F σ := { l with events }
    cases hn : l.registry.get? entry with
    | some m =>
      have hw : (k.loadSpecifier host entry (call.options l)).2.workshop = l.workshop := by
        rw [loadSpecifier, runFrom_next rfl]
        simp only [nextStage]
        rw [show k.registry.get? entry = some m from hn, runFrom_finished]
        rfl
      rw [if_pos (Registry.isLoaded_iff.2 ⟨m, hn⟩)] at hbegun
      constructor <;> simp [hs, hbegun, hw, k]
    | none =>
      rw [if_neg (by rw [Registry.isLoaded_eq_false_iff.2 hn]; exact Bool.false_ne_true)] at hbegun
      have hsupplied := accounted_supplied k (call.options l) entry
      have hw : (k.loadSpecifier host entry (call.options l)).2.workshop.requested =
            (k.supplied (call.options l) entry).requested ∧
          (k.loadSpecifier host entry (call.options l)).2.workshop.compiled =
            (k.supplied (call.options l) entry).compiled := by
        rcases workshop_loadSpecifier host k entry (call.options l) with
          ⟨m, hm, -⟩ | ⟨m, -, hw⟩ | ⟨e, -, hw⟩
        · rw [show k.registry.get? entry = none from hn] at hm
          cases hm
        · rw [hw]
          exact ⟨rfl, rfl⟩
        · rw [hw]
          exact ⟨requested_discardCache _, Workshop.compiled_discardCache _⟩
      rw [← hw.1, ← hw.2] at hsupplied
      constructor
      · rw [hs, hbegun]
        exact hsupplied.1
      · rw [hs, hbegun]
        exact hsupplied.2

/-! ## What was kept is left out -/

theorem skips_of_eq {k : Loader F σ} (hp : k.prepared = l.prepared) (ha : k.assembly = l.assembly) :
    k.skips options = l.skips options := by
  funext s
  simp only [skips, preparedRecord?, registry, hp, ha]

/-- Behind a request, what was loaded or prepared under its options is so again, and so is all that
its resolution found, if all code of it was generated. -/
theorem skips_loadSpecifier (host : Host F σ)
    (h : l.skips options s = true ∨ ∃ g, l.Resolved options entry g ∧ g.Ready ∧
      s ∈ g.specifiers) :
    (l.loadSpecifier host entry options).2.skips options s = true := by
  have hserved := served_loadSpecifier host l entry options
  generalize l.loadSpecifier host entry options = x at hserved ⊢
  cases hserved with
  | found hm hp ha =>
    rw [skips_of_eq hp ha]
    rcases h with h | ⟨g, hg, -, hs⟩
    · exact h
    · -- A loaded entry is left out, and then nothing is found.
      have hskip : l.skips options entry = true :=
        skips_iff.2 (Or.inl (Registry.isLoaded_iff.2 ⟨_, hm⟩))
      have hnil := (begun_perm hg).mem_iff.2 hs
      rw [begun_of_skips hskip] at hnil
      cases hnil
  | unresolved _ he hp ha =>
    rw [skips_of_eq hp ha]
    refine h.resolve_right ?_
    rintro ⟨g, hg, -⟩
    rw [Resolved, he] at hg
    cases hg
  | uncompiled _ hg hready _ hp ha =>
    rw [skips_of_eq hp ha]
    refine h.resolve_right ?_
    rintro ⟨g, hg', hready', -⟩
    rw [Resolved, hg] at hg'
    cases hg'
    exact hready hready'
  | @assembled g k b _ hg hready hbp hba hkp hka =>
    have hkeeps : Assembly.Keeps [] l.assembly b.assembly := by
      rw [hba]
      exact Assembly.keeps_load _ _ _ _ _
    have hk : k.skips options = (b.retain options (l.assembled options entry g)).skips options :=
      skips_of_eq hkp hka
    have hloaded : ∀ s, (b.retain options (l.assembled options entry g)).registry.isLoaded s =
        b.registry.isLoaded s := by
      intro s
      rw [registry, assembly_retain]
      rfl
    rw [hk, skips_iff, hloaded]
    rcases get?_retain b options (l.assembled options entry g) s with
      ⟨hout, hs⟩ | ⟨hl, -⟩ | ⟨-, -, -, hs⟩
    · rcases h with h | ⟨g', hg', -, hmem⟩
      · rcases skips_iff.1 h with h | h
        · exact Or.inl (hkeeps.isLoaded h)
        · obtain ⟨r, hr⟩ := Option.isSome_iff_exists.1 h
          refine Or.inr (Option.isSome_iff_exists.2 ⟨r, preparedRecord?_eq_some_iff.2 ?_⟩)
          rw [hs, hbp]
          exact preparedRecord?_eq_some_iff.1 hr
      · rw [Resolved, hg] at hg'
        cases hg'
        refine absurd (Graph.contains_iff.1 (Graph.contains_insertAll ?_)) hout
        rw [Graph.contains_awaitCode hready]
        exact Graph.contains_iff.2 hmem
    · exact Or.inl hl
    · exact Or.inr (Option.isSome_iff_exists.2 ⟨_, preparedRecord?_eq_some_iff.2 hs⟩)

theorem skips_serve {call : Call} (hcall : call.options l = options)
    (h : l.skips options s = true ∨ ∃ entry g, call.entry = .ok entry ∧
      l.Resolved options entry g ∧ g.Ready ∧ s ∈ g.specifiers) :
    (l.serve host call).2.skips options s = true := by
  rcases serve_cases host l call with ⟨_, _, he, hs⟩ | ⟨entry, events, he, hs⟩
  · rw [hs]
    refine h.resolve_right ?_
    rintro ⟨_, _, he', -⟩
    rw [he] at he'
    cases he'
  · rw [hs, hcall]
    refine skips_loadSpecifier (l := { l with events }) host (h.imp_right ?_)
    rintro ⟨entry', g, he', hg, hready, hmem⟩
    rw [he] at he'
    cases he'
    exact ⟨g, hg, hready, hmem⟩

/-! ## One call after the other -/

/-- What happens to a loader: a call, or a change of sources or of stored compiles. -/
inductive Deed where
  | call (c : Call)
  | supply (workshop : Workshop)

def undergo (host : Host F σ) (l : Loader F σ) : Deed → Loader F σ
  | .call c => (l.serve host c).2
  | .supply workshop => { l with workshop }

def undergoAll (host : Host F σ) (l : Loader F σ) (deeds : List Deed) : Loader F σ :=
  deeds.foldl (undergo host) l

/-- What holds of a loader all of whose calls have the same options. -/
structure Uniform (options : Compile.Options) (new l : Loader F σ) : Prop where
  settings : l.settings = new.settings
  stocked : l.Stocked
  options_eq : ∀ s p, l.prepared.get? s = some p → p.options = options

theorem uniform_undergo {new : Loader F σ} {deed : Deed}
    (hdeed : ∀ c, deed = .call c → c.options new = options) (h : Uniform options new l) :
    Uniform options new (l.undergo host deed) := by
  cases deed with
  | call c =>
    have hc : c.options l = options :=
      (options_eq_of_settings_eq h.settings c).trans (hdeed c rfl)
    exact ⟨(settings_serve host l c).trans h.settings, stocked_serve h.stocked c,
      fun s p => options_serve hc h.options_eq⟩
  | supply w => exact ⟨h.settings, h.stocked.of_eq rfl rfl, h.options_eq⟩

theorem uniform_undergoAll {new : Loader F σ} {deeds : List Deed}
    (hdeeds : ∀ c, .call c ∈ deeds → c.options new = options) (h : Uniform options new l) :
    Uniform options new (l.undergoAll host deeds) := by
  unfold undergoAll
  induction deeds generalizing l with
  | nil => exact h
  | cons deed deeds ih =>
    refine ih (fun c hc => hdeeds c (List.mem_cons_of_mem _ hc)) (uniform_undergo ?_ h)
    rintro c rfl
    exact hdeeds c List.mem_cons_self

theorem skips_undergoAll {new : Loader F σ} {deeds : List Deed}
    (hdeeds : ∀ c, .call c ∈ deeds → c.options new = options) (hl : Uniform options new l)
    (h : l.skips options s = true) : (l.undergoAll host deeds).skips options s = true := by
  unfold undergoAll
  induction deeds generalizing l with
  | nil => exact h
  | cons deed deeds ih =>
    have hdeed : ∀ c, deed = .call c → c.options new = options := by
      rintro c rfl
      exact hdeeds c List.mem_cons_self
    refine ih (fun c hc => hdeeds c (List.mem_cons_of_mem _ hc)) (uniform_undergo hdeed hl) ?_
    cases deed with
    | call c =>
      exact skips_serve ((options_eq_of_settings_eq hl.settings c).trans (hdeed c rfl)) (Or.inl h)
    | supply w => exact h

/-- All that a module needs is prepared if the module itself is loaded or prepared. -/
theorem Uniform.prepared_of_needed {new : Loader F σ} (h : Uniform options new l)
    (hentry : l.skips options entry = true)
    (hs : Needed l.registry (l.static? options {}) entry s) :
    (l.preparedRecord? options s).isSome = true := by
  have hprepared : ∀ t, (l.prepared.get? t).isSome = true →
      (l.preparedRecord? options t).isSome = true := by
    intro t ht
    obtain ⟨p, hp⟩ := Option.isSome_iff_exists.1 ht
    refine Option.isSome_iff_exists.2 ⟨p.record, preparedRecord?_eq_some_iff.2 ?_⟩
    rw [hp, ← h.options_eq t p hp]
  cases hs with
  | entry hn =>
    refine (skips_iff.1 hentry).resolve_left ?_
    rw [hn]
    exact Bool.false_ne_true
  | @dependency t _ ds _ hds hd hn =>
    obtain ⟨r, hr, rfl⟩ := Option.map_eq_some_iff.1 hds
    have hr : l.preparedRecord? options t = some r := hr
    refine hprepared s ((h.stocked.closed t _ (preparedRecord?_eq_some_iff.1 hr) s hd).resolve_left
      ?_)
    rw [hn]
    exact Bool.false_ne_true

/-- Behind whatever happened to a loader that was new, under one choice of options: once a call has
resolved its graph and all code of it was generated, which begins each module of the graph once, no
later call begins one of these modules again, whether the host took them or not. A later call for
the same entry, or for a module that a module of the graph names as a static or a literal dynamic
dependency, asks for nothing and compiles nothing, and all that it needs is loaded or prepared. -/
theorem begun_once {host : Host F σ} {new l k : Loader F σ} {options : Compile.Options}
    {before between : List Deed} {one other : Call} {entry : Specifier} {g : Graph}
    (hnew : new.prepared = [])
    (hsame : ∀ c, .call c ∈ before ++ .call one :: (between ++ [.call other]) →
      c.options new = options)
    (hl : new.undergoAll host before = l)
    (hk : new.undergoAll host (before ++ .call one :: between) = k)
    (hentry : one.entry = .ok entry) (hunloaded : l.registry.isLoaded entry = false)
    (hg : l.Resolved options entry g) (hready : g.Ready) :
    (Accounted host l one ∧ (l.begunBy one).Perm g.specifiers ∧ g.specifiers.Nodup) ∧
    (Accounted host k other ∧ ∀ s ∈ g.specifiers, s ∉ k.begunBy other) ∧
    ∀ again, other.entry = .ok again →
      again = entry ∨ (∃ r ∈ g.records, again ∈ dependencies r) →
      (k.serve host other).2.workshop.requested = k.workshop.requested ∧
      (k.serve host other).2.workshop.compiled = k.workshop.compiled ∧
      ∀ s, Needed k.registry (k.static? options {}) again s →
        (k.preparedRecord? options s).isSome = true := by
  have hmem : ∀ {c}, .call c ∈ before ∨ c = one ∨ .call c ∈ between ∨ c = other →
      c.options new = options := by
    intro c hc
    refine hsame c ?_
    simpa using hc
  have hul : Uniform options new l := by
    rw [← hl]
    refine uniform_undergoAll (fun c hc => hmem (Or.inl hc)) ⟨rfl, ?_, ?_⟩
    · exact stocked_of_prepared_eq_nil hnew
    · simp [hnew, Keyed.get?]
  have hone : one.options l = options :=
    (options_eq_of_settings_eq hul.settings one).trans (hmem (Or.inr (Or.inl rfl)))
  have hk' : k = (l.serve host one).2.undergoAll host between := by
    rw [← hk, ← hl]
    simp [undergoAll, undergo]
  have hul' : Uniform options new (l.undergo host (.call one)) :=
    uniform_undergo (by rintro _ ⟨⟩; exact hmem (Or.inr (Or.inl rfl))) hul
  have hbetween : ∀ c, .call c ∈ between → c.options new = options :=
    fun c hc => hmem (Or.inr (Or.inr (Or.inl hc)))
  have huk : Uniform options new k := hk' ▸ uniform_undergoAll hbetween hul'
  have hother : other.options k = options :=
    (options_eq_of_settings_eq huk.settings other).trans
      (hmem (Or.inr (Or.inr (Or.inr rfl))))
  -- What was left out or found by the first call is left out from then on.
  have hskip : ∀ s, l.skips options s = true ∨ s ∈ g.specifiers → k.skips options s = true := by
    intro s hs
    rw [hk']
    refine skips_undergoAll hbetween hul' (skips_serve hone (hs.imp_right fun hs => ?_))
    exact ⟨entry, g, hentry, hg, hready, hs⟩
  have hbegun : l.begunBy one = l.begun options entry := by
    rw [begunBy, hentry, hone]
    simp [hunloaded]
  refine ⟨⟨accounted_serve host l one, hbegun ▸ begun_perm hg, Workshop.nodup_resolve hg⟩,
    ⟨accounted_serve host k other, ?_⟩, ?_⟩
  · intro s hs hagain
    unfold begunBy at hagain
    split at hagain
    · cases hagain
    · split at hagain
      · cases hagain
      · have hn := not_skipped_of_mem_begun hagain
        rw [hother, hskip s (Or.inr hs)] at hn
        cases hn
  · intro again hagain hknown
    have hknown : k.skips options again = true := by
      refine hskip again ?_
      obtain ⟨hwanted, hrec⟩ := Workshop.resolve_wanted hg
      cases hk : l.skips options again with
      | true => exact Or.inl rfl
      | false =>
        refine Or.inr ((hwanted again).2 ?_)
        rcases hknown with rfl | ⟨r, hr, hd⟩
        · exact .entry (List.mem_singleton.2 rfl) hk
        · exact .dependency ((hwanted _).1 (List.mem_map_of_mem hr)) (hrec r hr) hd hk
    have hnothing : k.begunBy other = [] := by
      rw [begunBy, hagain, hother]
      dsimp only
      split
      · rfl
      · exact begun_of_skips hknown
    have haccount := accounted_serve host k other
    refine ⟨?_, ?_, fun s hs => huk.prepared_of_needed hknown hs⟩
    · simpa [hnothing] using haccount.requested
    · simpa [hnothing] using haccount.compiled

/-- A host that refuses the module `/main`. -/
def refusingMain : Host Unit Unit where
  instantiate _ m h :=
    (if m.specifier = ⟨"/main"⟩ then .error (.evaluation ⟨"/main"⟩ "boom") else .ok [], h)

/-- A module `/main` that imports `/a`, which imports `/c` at run time. -/
def stepwise : Loader Unit Unit where
  workshop :=
    { source := MemorySource.source
        { files :=
            [("/main.ts", "import \x7b a \x7d from './a';\nexport const m = 1;\n"),
              ("/a.ts", "export const a = () => import('./c');\n"),
              ("/c.ts", "export const c = 3;\n")] }
      compiler := Compile.Lines.compile }
  assembly := { host := () }

/-- All files are gone, and the load of `/main` that failed is tried again. -/
def retried : List Deed :=
  [.supply { source := MemorySource.source {}, compiler := Compile.Lines.compile },
    .call (.loadModule "/main")]

/-- The loader behind the two loads of `/main` that failed. -/
def retriedStepwise : Loader Unit Unit :=
  stepwise.undergoAll refusingMain (.call (.loadModule "/main") :: retried)

/-- `/main` fails when the host has taken `/a`, and then `/a` imports `/c`: all three modules are
begun by the first request, and none of them again. -/
theorem stepwise_begins_once :
    (stepwise.serve refusingMain (.loadModule "/main")).1.map (fun _ => ()) =
      .error (.evaluation ⟨"/main"⟩ "boom") ∧
    stepwise.begunBy (.loadModule "/main") = [⟨"/main"⟩, ⟨"/a"⟩, ⟨"/c"⟩] ∧
    (retriedStepwise.serve refusingMain (.importDynamic "./c" "/a.ts")).1.map
      (fun m => m.specifier) = .ok ⟨"/c"⟩ ∧
    (retriedStepwise.serve refusingMain (.importDynamic "./c" "/a.ts")).2.workshop.requested =
      retriedStepwise.workshop.requested ∧
    ∀ s ∈ [⟨"/main"⟩, ⟨"/a"⟩, ⟨"/c"⟩],
      s ∉ retriedStepwise.begunBy (.importDynamic "./c" "/a.ts") := by
  have hbegun : stepwise.begunBy (.loadModule "/main") = [⟨"/main"⟩, ⟨"/a"⟩, ⟨"/c"⟩] := by
    decide +kernel
  have hgathered : (stepwise.workshop.resolve (stepwise.skips {}) stepwise.settings.limit {}
      [⟨"/main"⟩]).1.map (fun g => (g.awaitCode.2.isOk,
        g.records.any fun r => (dependencies r).contains ⟨"/c"⟩)) = .ok (true, true) := by
    decide +kernel
  obtain ⟨g, hg, hready, r, hr, hd⟩ : ∃ g, stepwise.Resolved {} ⟨"/main"⟩ g ∧ g.Ready ∧
      ∃ r ∈ g.records, ⟨"/c"⟩ ∈ dependencies r := by
    unfold Resolved
    generalize (stepwise.workshop.resolve (stepwise.skips {}) stepwise.settings.limit {}
      [⟨"/main"⟩]).1 = x at hgathered
    rcases x with e | g
    · cases hgathered
    · obtain ⟨hcode, hmem⟩ := Prod.mk.inj (Except.ok.inj hgathered)
      refine ⟨g, rfl, Graph.awaitCode_ok_iff.1 ?_, by simpa using hmem⟩
      cases hc : g.awaitCode.2 with
      | ok u => rfl
      | error e => simp [hc, Except.isOk, Except.toBool] at hcode
  have hsame : ∀ c, .call c ∈ [] ++ .call (.loadModule "/main") ::
      (retried ++ [.call (.importDynamic "./c" "/a.ts")]) →
        c.options stepwise = ({} : Compile.Options) := by
    rintro c hc
    simp [retried] at hc
    rcases hc with rfl | rfl | rfl <;> rfl
  have hl : stepwise.undergoAll refusingMain [] = stepwise := rfl
  have hk : stepwise.undergoAll refusingMain ([] ++ .call (.loadModule "/main") :: retried) =
      retriedStepwise := rfl
  have hentry : (Call.loadModule "/main").entry = .ok ⟨"/main"⟩ := by decide +kernel
  obtain ⟨⟨-, hperm, -⟩, ⟨-, hnever⟩, hagain⟩ := begun_once rfl hsame hl hk hentry rfl hg hready
  obtain ⟨hrequested, -⟩ := hagain ⟨"/c"⟩ (by decide +kernel) (Or.inr ⟨r, hr, hd⟩)
  refine ⟨by decide +kernel, hbegun, by decide +kernel, hrequested, fun s hs => hnever s ?_⟩
  exact hperm.mem_iff.1 (hbegun ▸ hs)

end Loader

end ScriptLoader
